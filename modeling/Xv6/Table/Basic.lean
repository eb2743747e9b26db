import Mathlib.Data.Fintype.Basic
import Xv6.Lib.Machine
import Xv6.Proc.State

/-!
# The process and thread table (`kernel/proc.c`, `kernel/kalloc.c`, `kernel/exec.c`)

The process table with the pages of `kalloc` that hang from it. Each of `fork`, `kthread_create`,
`kthread_exit`, `exit`, `wait` and `exec` is one step of a thread. Addresses are natural numbers;
`0` is the null pointer.

A page table is the pages it is made of and maps (those that `proc_freepagetable` frees) and the
physical page it maps at `TRAPFRAME`. How many pages a process needs, and in which order the walk
over a page table frees them, are parameters of the steps. A panic has no successor.
-/

namespace Xv6.Table

open Lib

def sizeofTrapframe : Nat := 288

/-- The page of an address. -/
def pageOf (a : Nat) : Nat := a / pgsize * pgsize

structure Thread where
  state : ProcState
  threadParent : Option (Fin nthread)
  -- whether `proc_parent` is set; it then is the process of the slot
  procParent : Bool
  kstack : Nat
  trapframe : Nat

def Thread.Live (t : Thread) : Prop := t.state ≠ .unused ∧ t.state ≠ .zombie

instance (t : Thread) : Decidable t.Live :=
  inferInstanceAs (Decidable (t.state ≠ .unused ∧ t.state ≠ .zombie))

def Thread.setState (t : Thread) (state : ProcState) : Thread := { t with state := state }

def Thread.clear (t : Thread) (first : Bool) : Thread where
  state := .unused
  threadParent := none
  procParent := false
  kstack := t.kstack
  trapframe := if first then t.trapframe else 0

def Thread.created (parent : Fin nthread) (stack trapframe : Nat) : Thread where
  state := .runnable
  threadParent := some parent
  procParent := true
  kstack := stack
  trapframe := trapframe

structure Pagetable where
  pages : List Nat
  trapframe : Nat

/-- The pages of a page table; none for the null pointer. -/
def pagesOf (pagetable : Option Pagetable) : List Nat := (pagetable.map Pagetable.pages).getD []

structure Proc where
  state : ProcState
  parent : Option (Fin nproc)
  threads : Fin nthread → Thread
  mainThread : Fin nthread
  pagetable : Option Pagetable

def Proc.setThread (p : Proc) (j : Fin nthread) (t : Thread) : Proc :=
  { p with threads := Function.update p.threads j t }

def Proc.setPagetable (p : Proc) (pagetable : Option Pagetable) : Proc :=
  { p with pagetable := pagetable }

/-- The process slot after `freeproc`. -/
def Proc.clear (p : Proc) : Proc :=
  { p with pagetable := none, parent := none, state := .unused }

/-- The process after `exit`: all its threads are dead, also the slots that had none. -/
def Proc.exited (p : Proc) : Proc :=
  { p with state := .zombie, threads := fun j => (p.threads j).setState .zombie }

def Proc.start (p : Proc) (tf : Nat) : Proc :=
  { p with
    state := .used
    mainThread := 0
    threads := Function.update p.threads 0
      { p.threads 0 with state := .used, procParent := true, trapframe := tf } }

/-- The history of a page that `kalloc` gave to a thread for its kernel stack. -/
structure StackPage where
  page : Nat
  owner : Fin nproc
  -- how often `kfree` has been called for it
  returns : Nat
  -- `kalloc` has not given the page away again
  current : Bool
  -- the process it was allocated for has been reaped by `wait`
  reaped : Bool

structure State where
  -- the linker's `end`
  kend : Nat
  freelist : List Nat
  proc : Fin nproc → Proc
  stackLog : List StackPage

namespace StackPage

variable (e : StackPage)

def supersede (page : Nat) : StackPage := if e.page = page then { e with current := false } else e

/-- `kfree(page)` is called. -/
def giveBack (page : Nat) : StackPage :=
  if e.page = page ∧ e.current then { e with returns := e.returns + 1 } else e

def reap (i : Fin nproc) : StackPage := if e.owner = i then { e with reaped := true } else e

end StackPage

namespace State

variable (s : State)

def setProc (i : Fin nproc) (p : Proc) : State := { s with proc := Function.update s.proc i p }

def setThread (i : Fin nproc) (j : Fin nthread) (t : Thread) : State :=
  s.setProc i ((s.proc i).setThread j t)

/-- Enter a stack page of process `i` in the history. -/
def logStack (i : Fin nproc) (stack : Nat) : State :=
  { s with stackLog := ⟨stack, i, 0, true, false⟩ :: s.stackLog }

/-! ### `kalloc` and `kfree` -/

/-- `kalloc`; `none` is the null pointer. -/
def kalloc : Option (Nat × State) :=
  match s.freelist with
  | [] => none
  | page :: rest =>
    some (page, { s with freelist := rest, stackLog := s.stackLog.map (·.supersede page) })

/-- `kfree`; `none` is the panic. -/
def kfree (pa : Nat) : Option State :=
  if pa % pgsize ≠ 0 ∨ pa < s.kend ∨ pa ≥ phystop then none
  else some { s with freelist := pa :: s.freelist, stackLog := s.stackLog.map (·.giveBack pa) }

end State

def kallocN : Nat → State → List Nat × State
  | 0, s => ([], s)
  | n + 1, s =>
    match s.kalloc with
    | none => ([], s)
    | some (page, s) =>
      let (pages, s) := kallocN n s
      (page :: pages, s)

def kfreeAll : List Nat → State → Option State
  | [], s => some s
  | page :: pages, s => (s.kfree page).bind (kfreeAll pages)

namespace State

/-! ### Processes and threads -/

def freethread (i : Fin nproc) (j : Fin nthread) (s : State) : Option State :=
  let t := (s.proc i).threads j
  -- t == t->proc_parent->threads
  let first := t.procParent && j = 0
  (if t.kstack ≠ 0 ∧ first = false then s.kfree t.kstack else some s).map fun s =>
    s.setThread i j (t.clear first)

def procFreepagetable (pagetable : Option Pagetable) (order : List Nat) (s : State) :
    Option State :=
  match pagetable with
  | some pt => if order.Perm pt.pages then kfreeAll order s else none
  | none => some s

def freeTrapframe (tf : Nat) (s : State) : Option State :=
  if tf ≠ 0 then s.kfree tf else some s

def freeproc (i : Fin nproc) (order : List Nat) (s : State) : Option State :=
  let p := s.proc i
  ((procFreepagetable p.pagetable order s).bind (freeTrapframe (p.threads 0).trapframe)).map
    fun s => s.setProc i (s.proc i).clear

/-- With, for `fork`, the copy of the memory: `n` pages in the page table. When memory runs out, the
pages taken are given back in the given order. -/
def allocproc (n : Nat) (order : List Nat) (s : State) : Option (Option (Fin nproc) × State) :=
  match (List.finRange nproc).find? fun i => (s.proc i).state = .unused with
  | none => some (none, s)
  | some i =>
    match s.kalloc with
    | none =>
      ((freeproc i [] (s.setProc i ((s.proc i).start 0))).bind (freethread i 0)).map
        fun s => (none, s)
    | some (tf, s) =>
      let (pages, s) := kallocN n (s.setProc i ((s.proc i).start tf))
      if pages.length = n then
        some (some i, s.setProc i ((s.proc i).setPagetable (some ⟨pages, pageOf tf⟩)))
      else if order.Perm pages then
        (((kfreeAll order s).bind (freeproc i [])).bind (freethread i 0)).map fun s => (none, s)
      else none

def fork (i : Fin nproc) (n : Nat) (order : List Nat) (s : State) : Option State :=
  (s.allocproc n order).map fun
    | (none, s) => s
    | (some k, s) =>
      (s.setProc k { s.proc k with parent := some i }).setThread k 0
        (((s.proc k).threads 0).setState .runnable)

def initproc : Fin nproc := 0

def reparent (i : Fin nproc) (s : State) : State :=
  { s with
    proc := fun l =>
      if (s.proc l).parent = some i then { s.proc l with parent := some initproc } else s.proc l }

/-- `exit`, called by a thread of process `i`. -/
def exit (i : Fin nproc) (s : State) : Option State :=
  if i = initproc then none
  else
    let s := s.reparent i
    some (s.setProc i (s.proc i).exited)

def treparent (j : Fin nthread) (p : Proc) : Proc :=
  (List.finRange nthread).foldl
    (fun p tt =>
      if (p.threads tt).threadParent = some j ∧ j ≠ p.mainThread then
        p.setThread tt { p.threads tt with threadParent := some p.mainThread }
      else if (p.threads tt).threadParent = some j then { p with mainThread := tt }
      else p)
    p

def kthreadExit (i : Fin nproc) (j : Fin nthread) (s : State) : Option State :=
  let s := s.setProc i (treparent j (s.proc i))
  let s := s.setThread i j (((s.proc i).threads j).setState .zombie)
  -- look for an active thread
  if ∃ l, ((s.proc i).threads l).Live then some s else s.exit i

def freeSlot (p : Proc) : Option (Fin nthread) :=
  (List.finRange nthread).find? fun l =>
    (p.threads l).state = .unused ∨ (p.threads l).state = .zombie

/-- `p->threads->trapframe + (sizeof(struct trapframe) * (int)(t-p->threads))`: the pointer scales
once more. -/
def trapframeOf (p : Proc) (l : Fin nthread) : Nat :=
  (p.threads 0).trapframe + sizeofTrapframe * (sizeofTrapframe * l)

/-- Without a slot it writes through the null pointer, without memory `allocthread` releases a lock
it does not hold, and a trapframe beyond the end of memory cannot be written. -/
def kthreadCreate (i : Fin nproc) (j : Fin nthread) (s : State) : Option State :=
  match freeSlot (s.proc i) with
  | none => none
  | some l =>
    match s.kalloc with
    | none => none
    | some (stack, s) =>
      let trapframe := trapframeOf (s.proc i) l
      if phystop < trapframe + sizeofTrapframe then none
      else some ((s.setThread i l (.created j stack trapframe)).logStack i stack)

def zombieChild (i : Fin nproc) (s : State) : Option (Fin nproc) :=
  (List.finRange nproc).find? fun k => (s.proc k).parent = some i ∧ (s.proc k).state = .zombie

/-- The loop of `wait` over the threads of the child. -/
def freethreads (k : Fin nproc) (s : State) : Option State :=
  (List.finRange nthread).foldlM
    (fun s l => if ((s.proc k).threads l).state ≠ .unused then freethread k l s else some s) s

/-- `copyFails` when the exit status cannot be copied out. A call that finds no dead child changes
nothing here. -/
def wait (i : Fin nproc) (copyFails : Bool) (order : List Nat) (s : State) : Option State :=
  match s.zombieChild i with
  | none => some s
  | some k =>
    if copyFails then some s
    else
      ((freethreads k s).bind (freeproc k order)).map fun s =>
        { s with stackLog := s.stackLog.map (·.reap k) }

/-- It `fails` for a reason other than memory. -/
def exec (i : Fin nproc) (n : Nat) (fails : Bool) (order : List Nat) (s : State) : Option State :=
  let (pages, s) := kallocN n s
  if pages.length = n ∧ ¬ fails then
    let p := s.proc i
    let pt : Pagetable := ⟨pages, pageOf (p.threads p.mainThread).trapframe⟩
    procFreepagetable p.pagetable order (s.setProc i (p.setPagetable (some pt)))
  else if order.Perm pages then kfreeAll order s
  else none

end State

inductive Act where
  | fork (i : Fin nproc) (j : Fin nthread) (n : Nat) (order : List Nat)
  | kthreadCreate (i : Fin nproc) (j : Fin nthread)
  | kthreadExit (i : Fin nproc) (j : Fin nthread)
  | exit (i : Fin nproc) (j : Fin nthread)
  | wait (i : Fin nproc) (j : Fin nthread) (copyFails : Bool) (order : List Nat)
  | exec (i : Fin nproc) (j : Fin nthread) (n : Nat) (fails : Bool) (order : List Nat)

namespace Act

def caller : Act → Fin nproc × Fin nthread
  | fork i j _ _ | kthreadCreate i j | kthreadExit i j | exit i j | wait i j _ _ | exec i j _ _ _ =>
    (i, j)

end Act

namespace State

def call (s : State) : Act → Option State
  | .fork i _ n order => s.fork i n order
  | .kthreadCreate i j => s.kthreadCreate i j
  | .kthreadExit i j => s.kthreadExit i j
  | .exit i _ => s.exit i
  | .wait i _ copyFails order => s.wait i copyFails order
  | .exec i _ n fails order => s.exec i n fails order

end State

/-- Runs of the table: only live threads make system calls. -/
def tableMachine : Machine State Act where
  step s a := if ((s.proc a.caller.1).threads a.caller.2).Live then s.call a else none

/-- After `userinit`: the first process, with its trapframe page and page table. -/
def booted (kend tf : Nat) (pages free : List Nat) : State where
  kend := kend
  freelist := free
  proc i :=
    { state := if i = 0 then .used else .unused
      parent := none
      threads := fun j =>
        { state := if i = 0 ∧ j = 0 then .runnable else .unused
          threadParent := none
          procParent := i = 0 ∧ j = 0
          kstack := if j = 0 then kstackVa i else 0
          trapframe := if i = 0 ∧ j = 0 then tf else 0 }
      mainThread := 0
      pagetable := if i = 0 then some ⟨pages, pageOf tf⟩ else none }
  stackLog := []

end Xv6.Table
