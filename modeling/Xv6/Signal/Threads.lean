import Xv6.Lib.Machine
import Xv6.Signal.Due

/-!
# `handling_signals` in several threads at once

The threads of process `i` run `handling_signals` without a lock, while other processes call `kill`.
Each test of a pending bit, each action and each update of `pendingSignals` is a step; a thread that
finds no `SIGCONT` yields and polls again. Between two passes a thread is in user space, where it
may also call `sigret`.

Recorded beside the state are how often each signal has become pending and has been acted upon, and
which threads were in the loop of a stopped process when another one consumed the `SIGCONT`.
-/

namespace Xv6.Signal

open Lib

/-- The next line of a thread. -/
inductive Pc where
  | user
  | enter -- if((p == 0) || (p->signalMask == 0xffffffff) || p->ignore_signals)
  | stopped -- if(p->stopped && !(p->signalMask & (1 << SIGSTOP)))
  | poll -- if(cont_pend), and yield() otherwise
  | cont -- p->stopped = 0
  | contFlip -- p->pendingSignals ^= (1 << SIGCONT)
  | test (sig : Sig) -- if( (pandSigs & (1 << sig)) && !(sigMask & (1 << sig)) )
  | act (sig : Sig) -- the action that the handler asks for
  | flip (sig : Sig) -- p->pendingSignals ^= (1 << sig)
  deriving DecidableEq

/-- The loop over the signals goes on behind `sig`. -/
def Pc.testNext (sig : Sig) : Pc :=
  if h : sig.val + 1 < signalsSize then .test ⟨sig + 1, h⟩ else .user

/-- The thread is in the loop of a stopped process. -/
def Pc.inLoop : Pc → Bool
  | .poll | .cont | .contFlip => true
  | _ => false

structure Threads where
  kernel : Kernel
  pc : Fin nthread → Pc
  -- how often the signal has become pending, and how often an action was taken for it
  raised : Sig → Nat
  consumed : Sig → Nat
  -- the thread was in the loop when another one consumed a `SIGCONT` and cleared `p->stopped`
  passed : Fin nthread → Bool

/-- Another process calls `kill`; a thread is in `handling_signals`, or calls `sigret`. -/
inductive ThreadsAct where
  | kill (pid signum : Int)
  | enter (j : Fin nthread)
  | next (j : Fin nthread)
  | sigret (j : Fin nthread)
  deriving DecidableEq

namespace Threads

variable (i : Fin nproc) (s : Threads)

def Pending (sig : Sig) : Prop := (s.kernel.proc i).Pending sig

instance (sig : Sig) : Decidable (s.Pending i sig) :=
  inferInstanceAs (Decidable ((s.kernel.proc i).Pending sig))

def goto (j : Fin nthread) (pc : Pc) : Threads := { s with pc := Function.update s.pc j pc }

/-- `kill` has left the kernel in state `k`. -/
def raise (k : Kernel) : Threads :=
  { s with
    kernel := k
    raised := fun sig =>
      if ¬ s.Pending i sig ∧ (k.proc i).Pending sig then s.raised sig + 1 else s.raised sig }

def consume (sig : Sig) : Threads :=
  { s with consumed := Function.update s.consumed sig (s.consumed sig + 1) }

def flip (sig : Sig) : Threads := { s with kernel := flipPending s.kernel i sig }

def pass (j : Fin nthread) : Threads :=
  { s with passed := fun u => s.passed u || decide (u ≠ j) && (s.pc u).inLoop }

/-- Thread `j` leaves the loop of a stopped process. -/
def leave (j : Fin nthread) : Threads := { s with passed := Function.update s.passed j false }

/-- The default action for `sig`, of thread `j`. -/
def actDefault (j : Fin nthread) (sig : Sig) : Threads :=
  ((s.raise i (defaultAction s.kernel i sig)).consume sig).goto j (.flip sig)

def actUser (code : SigretCode) (j : Fin nthread) (sig : Sig) : Threads :=
  (({ s with kernel := usersignal code s.kernel i j sig } : Threads).consume sig).goto j (.flip sig)

def next (code : SigretCode) (j : Fin nthread) : Option Threads :=
  let p := s.kernel.proc i
  match s.pc j with
  | .user => none
  | .enter =>
    if p.signalMask = 0xffffffff ∨ p.ignoreSignals then some (s.goto j .user)
    else some (s.goto j .stopped)
  | .stopped =>
    if p.stopped ∧ p.signalMask &&& bit sigstop = 0 then some (s.goto j .poll)
    else some (s.goto j (.test 0))
  | .poll =>
    if p.pendingSignals &&& bit sigcont ≠ 0 then some (s.goto j .cont) else some s
  | .cont =>
    some ((({ s with kernel := contSignal s.kernel i } : Threads).consume sigcont).goto j .contFlip)
  | .contFlip => some ((((s.pass j).leave j).flip i sigcont).goto j (.test 0))
  | .test sig =>
    if p.pendingSignals &&& bit sig ≠ 0 ∧ p.signalMask &&& bit sig = 0 then
      some (s.goto j (.act sig))
    else some (s.goto j (.testNext sig))
  | .act sig =>
    if p.signalHandlers sig = sigDfl then some (s.actDefault i j sig)
    else if p.signalHandlers sig ≠ sigIgn then some (s.actUser i code j sig)
    else some (s.goto j (.testNext sig))
  | .flip sig =>
    -- the default action of `SIGCONT` has cleared `p->stopped`
    if sig = sigcont ∧ p.signalHandlers sig = sigDfl then
      some (((s.pass j).flip i sig).goto j (.testNext sig))
    else some ((s.flip i sig).goto j (.testNext sig))

def step (code : SigretCode) : ThreadsAct → Option Threads
  | .kill pid signum => some (s.raise i (kill s.kernel pid signum).2)
  | .enter j => if s.pc j = .user then some (s.goto j .enter) else none
  | .next j => s.next i code j
  | .sigret j => if s.pc j = .user then some { s with kernel := sigret s.kernel i j } else none

end Threads

def threadsMachine (code : SigretCode) (i : Fin nproc) : Machine Threads ThreadsAct where
  step s a := s.step i code a

def threadsStart (i : Fin nproc) (k : Kernel) : Threads where
  kernel := k
  pc _ := .user
  raised sig := if (k.proc i).Pending sig then 1 else 0
  consumed _ := 0
  passed _ := false

/-! ### Consuming a signal once -/

/-- The signal that a thread of process `p` has found pending and will turn off. -/
def Pc.owes (p : Proc) : Pc → Option Sig
  | .cont | .contFlip => some sigcont
  | .act sig => if p.signalHandlers sig ≠ sigIgn then some sig else none
  | .flip sig => some sig
  | _ => none

/-- A `kill` of this process with `sig`, or, for `SIGKILL`, a default action that kills. -/
def Raises (i : Fin nproc) (s : Threads) (sig : Sig) : ThreadsAct → Prop
  | .kill pid signum => signum = sig.val ∧ s.kernel.find pid = some i
  | .next j => sig = sigkill ∧ ∃ d, s.pc j = .act d ∧
      (s.kernel.proc i).signalHandlers d = sigDfl ∧ d ≠ sigstop ∧ d ≠ sigcont
  | .enter _ | .sigret _ => False

/-- No thread passes its test of a signal that is not ignored while another one is between that test
and its update. -/
def Exclusive (i : Fin nproc) (s : Threads) : ThreadsAct → Prop
  | .next j =>
    match s.pc j with
    | .poll => s.Pending i sigcont → ∀ u, u ≠ j → (s.pc u).owes (s.kernel.proc i) ≠ some sigcont
    | .test sig => s.Pending i sig → ¬ Blocks (s.kernel.proc i).signalMask sig →
        (s.kernel.proc i).signalHandlers sig ≠ sigIgn →
          ∀ u, u ≠ j → (s.pc u).owes (s.kernel.proc i) ≠ some sig
    | _ => True
  | _ => True

instance (i : Fin nproc) (s : Threads) : (a : ThreadsAct) → Decidable (Exclusive i s a)
  | .kill .. | .enter _ | .sigret _ => inferInstanceAs (Decidable True)
  | .next j => by
    unfold Exclusive
    dsimp only
    split <;> infer_instance

/-! ### Continuing all threads -/

/-- No thread is left in the loop: one that was there when another one consumed the `SIGCONT` has
found it as well. -/
def Resumed (s : Threads) : Prop := ∀ u, s.passed u = true → s.pc u = .cont ∨ s.pc u = .contFlip

/-- A `SIGCONT` that clears `p->stopped` is turned off only while no other thread has yet to find
it. -/
def NoneWaiting (i : Fin nproc) (s : Threads) : ThreadsAct → Prop
  | .next j =>
    s.pc j = .contFlip ∨
        s.pc j = .flip sigcont ∧ (s.kernel.proc i).signalHandlers sigcont = sigDfl →
      ∀ u, u ≠ j → s.pc u ≠ .poll
  | _ => True

instance (i : Fin nproc) (s : Threads) : (a : ThreadsAct) → Decidable (NoneWaiting i s a)
  | .kill .. | .enter _ | .sigret _ => inferInstanceAs (Decidable True)
  | .next j => inferInstanceAs (Decidable (s.pc j = .contFlip ∨
        s.pc j = .flip sigcont ∧ (s.kernel.proc i).signalHandlers sigcont = sigDfl →
      ∀ u, u ≠ j → s.pc u ≠ .poll))

end Xv6.Signal
