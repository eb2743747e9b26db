import Mathlib.Data.Fintype.Basic
import Xv6.Lib.Machine
import Xv6.Proc.State

/-!
# The threads of a process (`kernel/proc.c`)

`kthread_create` and `kthread_exit`, with `allocthread` and `Treparent`, on the thread slots of one
process. Stacks, trapframes and names are not read here and left out.

`treeMachine` takes each call as one step, between which the threads are scheduled, sleep and are
woken up. A panic or a store through the null pointer (no free slot, or no page for the stack) has
no successor.
-/

namespace Xv6.Kthread

open Lib

inductive Chan where
  | thread (j : Fin nthread)
  | other (n : Nat)
  deriving DecidableEq

structure Thread where
  state : ProcState
  chan : Option Chan
  xstate : Int
  tid : Int
  threadParent : Option (Fin nthread)

/-- The state of a thread that `kthread_exit` counts. -/
def live : ProcState → Bool
  | .used | .sleeping | .runnable | .running => true
  | .unused | .zombie => false

structure Proc where
  threads : Fin nthread → Thread
  mainThread : Fin nthread
  nexttid : Int

namespace Proc

variable (p : Proc)

def setThread (j : Fin nthread) (t : Thread) : Proc :=
  { p with threads := Function.update p.threads j t }

def setState (j : Fin nthread) (state : ProcState) : Proc :=
  p.setThread j { p.threads j with state := state }

def Live (j : Fin nthread) : Prop := live (p.threads j).state = true

instance (j : Fin nthread) : Decidable (p.Live j) :=
  inferInstanceAs (Decidable (live (p.threads j).state = true))

/-- Wake up the threads that sleep on the channel, but for the caller. -/
def wakeup (me : Option (Fin nthread)) (chan : Chan) : Proc :=
  { p with
    threads := fun j =>
      if me ≠ some j ∧ (p.threads j).state = .sleeping ∧ (p.threads j).chan = some chan then
        { p.threads j with state := .runnable }
      else p.threads j }

/-- One turn of `Treparent`. -/
def treparentOne (t : Fin nthread) (p : Proc) (tt : Fin nthread) : Proc :=
  if (p.threads tt).threadParent = some t ∧ t ≠ p.mainThread then
    (p.setThread tt { p.threads tt with threadParent := some p.mainThread }).wakeup (some t)
      (.thread p.mainThread)
  else if (p.threads tt).threadParent = some t then { p with mainThread := tt }
  else p

def treparent (t : Fin nthread) : Proc := (List.finRange nthread).foldl (treparentOne t) p

/-- The slot that `allocthread` finds. -/
def freeSlot : Option (Fin nthread) :=
  (List.finRange nthread).find? fun j =>
    (p.threads j).state = .unused ∨ (p.threads j).state = .zombie

/-- `allocthread`, for slot `l` and the caller `t`. -/
def alloc (t l : Fin nthread) : Proc :=
  { p.setThread l
      { p.threads l with state := .used, tid := p.nexttid, threadParent := some t } with
    nexttid := (p.nexttid + 1).bmod (2 ^ 32) }

/-- `none` if there is no slot. -/
def kthreadCreate (t : Fin nthread) : Option Proc :=
  p.freeSlot.map fun l => (p.alloc t l).setState l .runnable

def markExited (t : Fin nthread) (status : Int) : Proc :=
  let p := p.treparent t
  let p :=
    match (p.threads t).threadParent with
    | some q => p.wakeup (some t) (.thread q)
    | none => p
  p.setThread t { p.threads t with xstate := status, state := .zombie }

/-- `exit` marks all threads. -/
def exited : Proc := { p with threads := fun j => { p.threads j with state := .zombie } }

/-- `kthread_exit`, called by thread `t`; the last thread calls `exit`. -/
def kthreadExit (t : Fin nthread) (status : Int) : Proc :=
  let p := p.markExited t status
  if ∃ j, p.Live j then p else p.exited

end Proc

/-! ### Sequences of calls -/

inductive TreeAct where
  | create (t : Fin nthread)
  | exit (t : Fin nthread) (status : Int)
  | run (t : Fin nthread)
  | yield (t : Fin nthread)
  | sleep (t : Fin nthread) (chan : Chan)
  | wakeup (chan : Chan)
  | alloctid

def Proc.treeStep (p : Proc) : TreeAct → Option Proc
  | .create t => if (p.threads t).state = .running then p.kthreadCreate t else none
  | .exit t status => if (p.threads t).state = .running then some (p.kthreadExit t status) else none
  | .run t => if (p.threads t).state = .runnable then some (p.setState t .running) else none
  | .yield t => if (p.threads t).state = .running then some (p.setState t .runnable) else none
  | .sleep t chan =>
    if (p.threads t).state = .running then
      some (p.setThread t { p.threads t with state := .sleeping, chan := some chan })
    else none
  | .wakeup chan => some (p.wakeup none chan)
  | .alloctid => some { p with nexttid := (p.nexttid + 1).bmod (2 ^ 32) }

def treeMachine : Machine Proc TreeAct where
  step p a := p.treeStep a

/-- A process with one thread, as `fork` leaves it. -/
structure Fresh (p : Proc) : Prop where
  state : ∀ j, (p.threads j).state = if j = 0 then .runnable else .unused
  mainThread : p.mainThread = 0
  threadParent : (p.threads 0).threadParent = none

/-- While a thread is live, `main_thread` is, and so is the parent of each live thread. -/
def TreeOk (p : Proc) : Prop :=
  (∃ j, p.Live j) →
    p.Live p.mainThread ∧ ∀ j q, p.Live j → (p.threads j).threadParent = some q → p.Live q

instance (p : Proc) : Decidable (TreeOk p) :=
  inferInstanceAs (Decidable ((∃ j, p.Live j) →
    p.Live p.mainThread ∧ ∀ j q, p.Live j → (p.threads j).threadParent = some q → p.Live q))

/-- `main_thread` calls `kthread_exit` only when no other thread is live. -/
def MainLast (p : Proc) : TreeAct → Prop
  | .exit t _ => (p.threads t).state = .running → t = p.mainThread → ∀ j, j ≠ t → ¬ p.Live j
  | _ => True

instance (p : Proc) : (a : TreeAct) → Decidable (MainLast p a)
  | .exit t _ => inferInstanceAs (Decidable ((p.threads t).state = .running → t = p.mainThread →
      ∀ j, j ≠ t → ¬ p.Live j))
  | .create _ | .run _ | .yield _ | .sleep .. | .wakeup _ | .alloctid =>
    inferInstanceAs (Decidable True)

end Xv6.Kthread
