import Xv6.Signal.Action
import Xv6.Signal.Inherit

/-!
# Ignored signals

The threads of process `i` in `handling_signals` (`Threads`), and the calls of the process that
change what is done with a signal. What other processes do besides `kill`, and `fork`, which makes
one of them, is any change of their slots.

A pending signal whose handler is `SIG_IGN` stays pending. Recorded beside the state are the signals
that a pass has ignored and that were not sent again since.
-/

namespace Xv6.Signal

open Lib

structure Ignoring where
  threads : Threads
  ignored : Sig → Bool

inductive IgnoreAct where
  | thread (a : ThreadsAct)
  | sigaction (j : Fin nthread) (signum : Int) (act oldact : Addr)
  | sigprocmask (j : Fin nthread) (sigmask : BitVec 32)
  | exec (j : Fin nthread) (image : Image)
  | other (l : Fin nproc) (p : Proc)

instance (i : Fin nproc) (s : Threads) (sig : Sig) (a : ThreadsAct) : Decidable (Raises i s sig a) := by
  cases a <;> unfold Raises <;> infer_instance

/-- The step is that of a pass that comes to `sig` and ignores it. -/
def Ignores (i : Fin nproc) (s : Threads) (sig : Sig) : ThreadsAct → Prop
  | .next j => s.pc j = .act sig ∧ (s.kernel.proc i).signalHandlers sig = sigIgn
  | _ => False

instance (i : Fin nproc) (s : Threads) (sig : Sig) (a : ThreadsAct) : Decidable (Ignores i s sig a) := by
  cases a <;> unfold Ignores <;> infer_instance

namespace Ignoring

variable (i : Fin nproc) (s : Ignoring)

def proc : Proc := s.threads.kernel.proc i

def setKernel (k : Kernel) : Ignoring := { s with threads := { s.threads with kernel := k } }

def call (j : Fin nthread) (k : Kernel) : Option Ignoring :=
  if s.threads.pc j = .user then some (s.setKernel k) else none

/-- The call of `sigaction`, without locks held at its start. -/
def sigaction (signum : Int) (act oldact : Addr) : Option (Int × Call) :=
  Signal.sigaction ⟨s.threads.kernel, fun _ => false, ⟨0, true, true⟩⟩ i signum act oldact

def step (code : SigretCode) : IgnoreAct → Option Ignoring
  | .thread a =>
    (s.threads.step i code a).map fun threads =>
      { threads
        ignored := fun sig => !decide (Raises i s.threads sig a) &&
          (s.ignored sig || decide (Ignores i s.threads sig a)) }
  | .sigaction j signum act oldact => do
    let (_, w) ← s.sigaction i signum act oldact
    s.call j w.kernel
  | .sigprocmask j sigmask =>
    s.call j (s.threads.kernel.setProc i { s.proc i with signalMask := sigmask })
  | .exec j image => s.call j (Signal.exec s.threads.kernel i j image)
  | .other l p => if l = i then none else some (s.setKernel (s.threads.kernel.setProc l p))

end Ignoring

def ignoreMachine (code : SigretCode) (i : Fin nproc) : Machine Ignoring IgnoreAct where
  step s a := s.step i code a

/-- The next line takes the default action, calls `usersignal`, or consumes a `SIGCONT`. -/
def Pc.actsOn (p : Proc) (sig : Sig) : Pc → Prop
  | .act d => d = sig ∧ p.signalHandlers sig ≠ sigIgn
  | .cont => sig = sigcont
  | _ => False

/-- **Ignored signals are discarded**: nothing acts on them. -/
def DiscardOk (i : Fin nproc) (s : Ignoring) : Prop :=
  ∀ j sig, (s.threads.pc j).actsOn (s.proc i) sig → s.ignored sig = false

/-- The condition: a handler `SIG_IGN` is replaced by another one only while the signal is not
pending and no thread is in `handling_signals`, and no pass finds `SIGCONT` ignored. -/
def Heeds (i : Fin nproc) (s : Ignoring) : IgnoreAct → Prop
  | .sigaction _ signum act oldact => ∀ r ∈ s.sigaction i signum act oldact, ∀ sig : Sig,
      (s.proc i).signalHandlers sig = sigIgn → (r.2.proc i).signalHandlers sig ≠ sigIgn →
        ¬ (s.proc i).Pending sig ∧ ∀ j, s.threads.pc j = .user
  | .thread a => ¬ Ignores i s.threads sigcont a
  | _ => True

instance (i : Fin nproc) (s : Ignoring) (a : IgnoreAct) : Decidable (Heeds i s a) := by
  cases a <;> unfold Heeds <;> infer_instance

end Xv6.Signal
