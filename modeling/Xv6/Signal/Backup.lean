import Xv6.Signal.Kill
import Xv6.Signal.Threads

/-!
# What `sigret` restores (`kernel/proc.c`)

All processes with their lifetimes: `fork`, `exit` and `wait` reuse the slots of the process table,
`kthread_create`, `kthread_exit` and `kthread_join` those of the threads, and nothing of this clears
`t->UserTrapFrameBackup`. The lines of `handling_signals` are those of `Threads`. What a process
does otherwise to its trapframes, its mask and its handlers is an input.

Recorded beside the state are the lifetimes of processes and threads, who saved each backup, when
and with which value, until `sigret` restores it, and the threads that `usersignal` has sent to a
handler and that have not called `sigret` since.
-/

namespace Xv6.Signal

open Lib
open Function (update)

/-- The lifetimes of a process and of a thread of it. -/
abbrev Life := Nat × Nat

structure Contexts where
  slots : Slots
  pc : Fin nproc → Fin nthread → Pc
  -- how many processes have had the slot, and how many threads
  life : Fin nproc → Nat
  threadLife : Fin nproc → Fin nthread → Nat
  frame : Fin nproc → Fin nthread → Option (Life × Trapframe)
  mask : Fin nproc → Option (Fin nthread × Life × BitVec 32)
  handling : Fin nproc → Fin nthread → Bool

/-- What a process changes on its own. -/
structure UserStep where
  trapframe : Trapframe
  signalMask : BitVec 32
  signalHandlers : Sig → BitVec 64
  maskHandlers : Sig → BitVec 32

inductive ContextAct where
  | slot (op : SlotOp)
  | create (i : Fin nproc) (trapframe : Trapframe) (enough : Bool)
  | exitThread (i : Fin nproc) (j : Fin nthread)
  | freeThread (i : Fin nproc) (j : Fin nthread)
  | user (i : Fin nproc) (j : Fin nthread) (u : UserStep)
  | enter (i : Fin nproc) (j : Fin nthread)
  | next (i : Fin nproc) (j : Fin nthread)
  | sigret (i : Fin nproc) (j : Fin nthread)

namespace Contexts

variable (s : Contexts)

def proc (i : Fin nproc) : Proc := s.slots.kernel.proc i

def setKernel (k : Kernel) : Contexts := { s with slots := { s.slots with kernel := k } }

def setThread (i : Fin nproc) (j : Fin nthread) (t : Thread) : Contexts :=
  s.setKernel (s.slots.kernel.setProc i ((s.proc i).setThread j t))

def lifeOf (i : Fin nproc) (j : Fin nthread) : Life := (s.life i, s.threadLife i j)

/-- A thread that can run. -/
def Alive (i : Fin nproc) (j : Fin nthread) : Prop :=
  s.slots.Runs i ∧ ((s.proc i).threads j).state ≠ .unused ∧ ((s.proc i).threads j).state ≠ .zombie

instance (i : Fin nproc) (j : Fin nthread) : Decidable (s.Alive i j) :=
  inferInstanceAs (Decidable (_ ∧ _))

/-- A process starts in slot `i`, with its first thread. -/
def newProc (i : Fin nproc) : Contexts :=
  { s with
    pc := update s.pc i fun _ => .user
    life := update s.life i (s.life i + 1)
    -- p->signal_mask_backup = 0
    mask := update s.mask i none
    handling := update s.handling i fun _ => false }

/-- A call of `fork`, `exit`, `wait` or `kill`. -/
def slot (op : SlotOp) : Option Contexts :=
  (slotsMachine.step s.slots op).map fun slots =>
    match op, s.slots.freeSlot with
    | .fork .., some i => { s.newProc i with slots }
    | _, _ => { s with slots }

def freeThreadSlot (i : Fin nproc) : Option (Fin nthread) :=
  (List.finRange nthread).find? fun j =>
    ((s.proc i).threads j).state = .unused ∨ ((s.proc i).threads j).state = .zombie

def create (i : Fin nproc) (trapframe : Trapframe) (enough : Bool) : Option Contexts :=
  match s.freeThreadSlot i with
  | some j =>
    if enough then
      some { s.setThread i j { (s.proc i).threads j with state := .runnable, trapframe } with
        pc := update s.pc i (update (s.pc i) j .user)
        threadLife := update s.threadLife i
          (update (s.threadLife i) j (s.threadLife i j + 1))
        handling := update s.handling i (update (s.handling i) j false) }
    else some s
  | none => some s

def user (i : Fin nproc) (j : Fin nthread) (u : UserStep) : Contexts :=
  s.setKernel <| s.slots.kernel.setProc i <|
    { s.proc i with
      signalMask := u.signalMask
      signalHandlers := u.signalHandlers
      maskHandlers := u.maskHandlers }.setThread j
        { (s.proc i).threads j with trapframe := u.trapframe }

def threads (i : Fin nproc) : Threads := { threadsStart i s.slots.kernel with pc := s.pc i }

/-- Thread `j` of process `i` is about to call `usersignal`. -/
def delivers (i : Fin nproc) (j : Fin nthread) : Bool :=
  match s.pc i j with
  | .act sig => (s.proc i).signalHandlers sig ≠ sigDfl ∧ (s.proc i).signalHandlers sig ≠ sigIgn
  | _ => false

def save (i : Fin nproc) (j : Fin nthread) : Contexts :=
  { s with
    frame := update s.frame i
      (update (s.frame i) j (some (s.lifeOf i j, ((s.proc i).threads j).trapframe)))
    mask := update s.mask i (some (j, s.lifeOf i j, (s.proc i).signalMask))
    handling := update s.handling i (update (s.handling i) j true) }

def next (code : SigretCode) (i : Fin nproc) (j : Fin nthread) : Option Contexts :=
  ((s.threads i).next i code j).map fun t =>
    { (if s.delivers i j then s.save i j else s).setKernel t.kernel with
      pc := update s.pc i t.pc }

def sigret (i : Fin nproc) (j : Fin nthread) : Contexts :=
  { s.setKernel (Signal.sigret s.slots.kernel i j) with
    frame := update s.frame i (update (s.frame i) j none)
    mask := update s.mask i none
    handling := update s.handling i (update (s.handling i) j false) }

end Contexts

def contextsMachine (code : SigretCode) : Machine Contexts ContextAct where
  step s a :=
    match a with
    | .slot op => s.slot op
    | .create i trapframe enough =>
      if s.slots.Runs i then s.create i trapframe enough else none
    | .exitThread i j =>
      if s.Alive i j then some (s.setThread i j { (s.proc i).threads j with state := .zombie })
      else none
    | .freeThread i j =>
      if ((s.proc i).threads j).state = .zombie then
        some (s.setThread i j ((s.proc i).threads j).free)
      else none
    | .user i j u => if s.Alive i j ∧ s.pc i j = .user then some (s.user i j u) else none
    | .enter i j =>
      if s.Alive i j ∧ s.pc i j = .user then
        some { s with pc := update s.pc i (update (s.pc i) j .enter) }
      else none
    | .next i j => if s.Alive i j then s.next code i j else none
    | .sigret i j => if s.Alive i j ∧ s.pc i j = .user then some (s.sigret i j) else none

structure Fresh (s : Contexts) : Prop where
  frame : ∀ i j, s.frame i j = none
  mask : ∀ i, s.mask i = none
  handling : ∀ i j, s.handling i j = false

/-- **What `sigret` installs**: what `usersignal` has saved for this thread in this lifetime, and
that was not restored since. -/
structure SigretOk (s s' : Contexts) (i : Fin nproc) (j : Fin nthread) : Prop where
  frame : s.frame i j = some (s.lifeOf i j, ((s'.proc i).threads j).trapframe)
  mask : s.mask i = some (j, s.lifeOf i j, (s'.proc i).signalMask)

/-- The condition: `sigret` only returns from handlers, and one thread of a process at a time is in
one. -/
def Returns (s : Contexts) : ContextAct → Prop
  | .sigret i j => s.handling i j = true
  | .next i j => s.delivers i j = true → ∀ j', j' ≠ j → s.handling i j' = false
  | _ => True

instance (s : Contexts) (a : ContextAct) : Decidable (Returns s a) := by
  cases a <;> unfold Returns <;> infer_instance

end Xv6.Signal
