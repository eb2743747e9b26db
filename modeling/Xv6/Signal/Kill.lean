import Xv6.Lib.Machine
import Xv6.Signal.Proc

/-!
# `kill` and the lifetimes of processes (`kernel/proc.c`)

The process table as `kill`, `fork`, `exit` and `wait` leave it. A slot that is `UNUSED` keeps its
fields: `freeproc` stores `0` to its `pid` and `killed`, and `allocproc` does not store to `killed`.
`kill` looks at the `pid` only, so `kill(0, signum)` finds the first free slot.
-/

namespace Xv6.Signal

open Lib Function

/-- The process table, `p->parent`, and `nextpid`. -/
structure Slots where
  kernel : Kernel
  parent : Fin nproc → Option (Fin nproc)
  nextpid : Int

def Proc.Live (p : Proc) : Prop := p.state ≠ .unused

instance (p : Proc) : Decidable p.Live := inferInstanceAs (Decidable (p.state ≠ .unused))

/-- Whether `kalloc` gives all pages, and the contents of those for the trapframe and the page
table. -/
structure Pages where
  enough : Bool
  trapframe : Trapframe
  walkaddr : Addr → Addr

def Proc.alloc (p : Proc) (pid : Int) (pages : Pages) : Proc :=
  { p with
    pid
    state := .used
    pendingSignals := 0
    signalMask := 0
    stopped := false
    signalMaskBackup := 0
    ignoreSignals := false
    signalHandlers := fun _ => sigDfl
    maskHandlers := fun _ => 0
    walkaddr := pages.walkaddr
    threads := update p.threads 0
      { p.threads 0 with state := .used, trapframe := pages.trapframe } }

def Thread.free (t : Thread) : Thread := { t with state := .unused }

/-- What `freeproc` does to those of a process. -/
def Proc.free (p : Proc) : Proc := { p with pid := 0, killed := false, state := .unused }

/-- The child of thread `j` of process `p`, in the slot `np` that `allocproc` has set up. -/
def Proc.child (np p : Proc) (j : Fin nthread) : Proc :=
  { np with
    signalMask := p.signalMask
    signalHandlers := p.signalHandlers
    pendingSignals := 0
    ignoreSignals := false
    stopped := false
    threads := update np.threads 0
      { np.threads 0 with state := .runnable, trapframe := (p.threads j).trapframe.setA0 0 } }

inductive SlotOp where
  | kill (pid signum : Int)
  | fork (p : Fin nproc) (j : Fin nthread) (pages : Pages)
  | exit (p : Fin nproc)
  | wait (p : Fin nproc)

namespace Slots

variable (s : Slots)

def freeSlot : Option (Fin nproc) :=
  (List.finRange nproc).find? fun i => (s.kernel.proc i).state = .unused

/-- A process that can make calls. -/
def Runs (p : Fin nproc) : Prop :=
  (s.kernel.proc p).state ≠ .unused ∧ (s.kernel.proc p).state ≠ .zombie

instance (p : Fin nproc) : Decidable (s.Runs p) := inferInstanceAs (Decidable (_ ∧ _))

def fork (p : Fin nproc) (j : Fin nthread) (pages : Pages) : Slots :=
  match s.freeSlot with
  | none => s
  | some i =>
    let np := (s.kernel.proc i).alloc s.nextpid pages
    -- int nextpid
    let s := { s with nextpid := (s.nextpid + 1).bmod (2 ^ 32) }
    if pages.enough then
      { s with
        kernel := s.kernel.setProc i (np.child (s.kernel.proc p) j)
        parent := update s.parent i (some p) }
    else
      { s with
        kernel := s.kernel.setProc i (np.free.setThread 0 (np.threads 0).free)
        parent := update s.parent i none }

/-- `initproc` is the process of slot 0. -/
def exit (p : Fin nproc) : Slots where
  kernel := s.kernel.setProc p
    { s.kernel.proc p with
      state := .zombie
      threads := fun j => { (s.kernel.proc p).threads j with state := .zombie } }
  parent i := if s.parent i = some p then some 0 else s.parent i
  nextpid := s.nextpid

/-- The child that `wait` finds. -/
def deadChild (p : Fin nproc) : Option (Fin nproc) :=
  (List.finRange nproc).find? fun i =>
    s.parent i = some p ∧ (s.kernel.proc i).state = .zombie

def reap (i : Fin nproc) : Slots :=
  let np := s.kernel.proc i
  { s with
    kernel := s.kernel.setProc i
      { np.free with
        threads := fun j => if (np.threads j).state = .unused then np.threads j
          else (np.threads j).free }
    parent := update s.parent i none }

end Slots

def slotsMachine : Machine Slots SlotOp where
  step s op :=
    match op with
    | .kill pid signum => some { s with kernel := (kill s.kernel pid signum).2 }
    | .fork p j pages => if s.Runs p then some (s.fork p j pages) else none
    | .exit p => if s.Runs p ∧ p ≠ 0 then some (s.exit p) else none
    | .wait p => if s.Runs p then (s.deadChild p).map s.reap else none

/-- After `userinit`: the first process has the first slot, and the others are as they were
zeroed. -/
structure Boot (s : Slots) : Prop where
  init : (s.kernel.proc 0).state = .used ∧ (s.kernel.proc 0).pid = 1
  rest : ∀ i, i ≠ 0 → (s.kernel.proc i).state = .unused ∧ (s.kernel.proc i).pid = 0 ∧
    (s.kernel.proc i).killed = false

/-- Only `killed`, the pending signals and states have changed. -/
def Proc.Killed (p p' : Proc) : Prop :=
  ∃ killed pendingSignals state, ∃ states : Fin nthread → ProcState,
    p' = { p with
      killed, pendingSignals, state, threads := fun j => { p.threads j with state := states j } }

/-- The condition: the `pid` is not that of free slots. -/
def SlotOp.Named : SlotOp → Prop
  | .kill pid _ => pid ≠ 0
  | _ => True

/-- **`kill` reaches its target only**: it finds a process just when one is alive with that `pid`,
and changes no other; a process starts not killed, with no signal pending. -/
structure KillOk (s : Slots) : Prop where
  result : ∀ pid signum, (SlotOp.kill pid signum).Named →
    ((kill s.kernel pid signum).1 = true ↔
      (∃ i, (s.kernel.proc i).Live ∧ (s.kernel.proc i).pid = pid) ∧ 0 ≤ signum ∧ signum < 32)
  target : ∀ pid signum, (SlotOp.kill pid signum).Named → ∀ i,
    (kill s.kernel pid signum).2.proc i = s.kernel.proc i ∨
      (s.kernel.proc i).Live ∧ (s.kernel.proc i).pid = pid ∧
        (s.kernel.proc i).Killed ((kill s.kernel pid signum).2.proc i)
  created : ∀ op s', op.Named → slotsMachine.step s op = some s' → ∀ i,
    ¬(s.kernel.proc i).Live → (s'.kernel.proc i).Live →
      (s'.kernel.proc i).killed = false ∧ (s'.kernel.proc i).pendingSignals = 0

end Xv6.Signal
