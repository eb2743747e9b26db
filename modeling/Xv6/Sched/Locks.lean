import Mathlib.Data.Fintype.Basic
import Xv6.Lib.Spin
import Xv6.Proc.State
import Xv6.Sem.Bsem

/-!
# `pid_lock` and the process locks (`kernel/proc.c`)

The threads of all processes on several CPUs, each with its scheduler, as they take `pid_lock` and
the `p->lock`s: `fork` with `allocproc` and `allocpid`, `bsem_alloc`, `bsem_free`, `bsem_down` with
its `sleep`, `bsem_up` with its `wakeup`, and `yield` from the timer wherever a thread holds no
lock. Every `acquire` and every `release` is an instruction; what happens under a lock before its
`release` is part of the `release`.

Left out are the locks taken for a moment inside these (`tid_lock`, `wait_lock`, those of the memory
allocator and of the files), the pids, and the contents of the processes.
-/

namespace Xv6.Sched

open Lib
open Function (update)

inductive LockId where
  | pid
  | proc (k : Fin nproc)
  deriving DecidableEq

inductive Entry where
  | user
  | allocproc (k : Fin nproc) -- acquire(&p->lock) in the loop of allocproc
  | start (k : Fin nproc) -- acquire(&np->lock) at the end of fork
  -- acquire(&pid_lock)
  | bsemAlloc
  | bsemFree (i : Fin maxBsem)
  | bsemDown (i : Fin maxBsem) -- also at the end of sleep
  | bsemUp (i : Fin maxBsem)
  deriving DecidableEq

inductive Line where
  | out (e : Entry)
  -- fork, for process slot `k`
  | check (k : Fin nproc) -- if(p->state == UNUSED)
  | allocpid (k : Fin nproc) -- acquire(&pid_lock)
  | nextpid (k : Fin nproc) -- release(&pid_lock)
  | setup (k : Fin nproc) -- the rest of allocproc and fork up to release(&np->lock)
  | started (k : Fin nproc) -- release(&np->lock)
  -- bsem_alloc, bsem_free and the loop of bsem_down, with pid_lock
  | alloc
  | free (i : Fin maxBsem)
  | test (i : Fin maxBsem) -- while(bsems[i] == 0)
  -- sleep
  | sleepLock (i : Fin maxBsem)
  | sleepUnlock (i : Fin maxBsem)
  | sleepSched (i : Fin maxBsem)
  | slept (i : Fin maxBsem)
  -- bsem_up and wakeup
  | set (i : Fin maxBsem) -- bsems[i] = 1
  | wakeLock (k : Fin nproc) -- acquire(&p->lock)
  | wake (k : Fin nproc) -- release(&p->lock)
  | upDone -- release(&pid_lock)
  -- yield, to go on at `e`
  | yieldLock (e : Entry)
  | yieldSched (e : Entry)
  | yielded (e : Entry)
  | forkret
  deriving DecidableEq

inductive Saved where
  | forkret
  | slept (i : Fin maxBsem)
  | yielded (e : Entry)
  deriving DecidableEq

def Saved.line : Saved → Line
  | .forkret => .forkret
  | .slept i => .slept i
  | .yielded e => .yielded e

/-- What a CPU does: the loops of `scheduler`, or a thread. -/
inductive Loc where
  | scan (p : Fin nproc)
  | look (p : Fin nproc) (j : Fin nthread)
  | unlock (p : Fin nproc)
  | run (p : Fin nproc) (j : Fin nthread) (line : Line)
  deriving DecidableEq

def Loc.lookNext (p : Fin nproc) (j : Fin nthread) : Loc :=
  if h : j.val + 1 < nthread then .look p ⟨j + 1, h⟩ else .unlock p

structure Table where
  procState : Fin nproc → ProcState
  threadState : Fin nproc → Fin nthread → ProcState
  context : Fin nproc → Fin nthread → Saved
  bsems : Bsems

namespace Table

variable (d : Table)

def setThreadState (p : Fin nproc) (j : Fin nthread) (state : ProcState) : Table :=
  { d with
    threadState := update d.threadState p (update (d.threadState p) j state) }

def save (p : Fin nproc) (j : Fin nthread) (state : ProcState) (context : Saved) : Table :=
  { d.setThreadState p j state with
    context := update d.context p (update (d.context p) j context) }

/-- The child that `allocproc` and `fork` set up in slot `k`. -/
def setup (k : Fin nproc) : Table :=
  { d.save k 0 .used .forkret with procState := update d.procState k .used }

def wake (p : Fin nproc) (j : Fin nthread) (k : Fin nproc) : Table :=
  { d with
    threadState := update d.threadState k fun l =>
      if (k, l) ≠ (p, j) ∧ d.threadState k l = .sleeping then .runnable else d.threadState k l }

end Table

inductive Syscall where
  | fork
  | bsemAlloc
  | bsemFree (i : Fin maxBsem)
  | bsemDown (i : Fin maxBsem)
  | bsemUp (i : Fin maxBsem)
  deriving DecidableEq

def Syscall.entry : Syscall → Entry
  | .fork => .allocproc 0
  | .bsemAlloc => .bsemAlloc
  | .bsemFree i => .bsemFree i
  | .bsemDown i => .bsemDown i
  | .bsemUp i => .bsemUp i

/-- The next line, a timer interrupt, a system call, or a failing allocation. -/
inductive Choice where
  | next
  | timer
  | call (c : Syscall)
  | fail
  deriving DecidableEq

def Entry.nextSlot (k : Fin nproc) : Entry :=
  if h : k.val + 1 < nproc then .allocproc ⟨k + 1, h⟩ else .user

/-- `wakeup` behind process `k`. -/
def Line.wakeNext (k : Fin nproc) : Line :=
  if h : k.val + 1 < nproc then .wakeLock ⟨k + 1, h⟩ else .upDone

def Line.instr (d : Table) (p : Fin nproc) (j : Fin nthread) :
    Line → Choice → Option (LockOp LockId × Loc × Table)
  | .out e, .timer => some (.none, .run p j (.yieldLock e), d)
  | .out .user, .call c => some (.none, .run p j (.out c.entry), d)
  | .out (.allocproc k), .next => some (.acquire (.proc k), .run p j (.check k), d)
  | .check k, .next =>
    if d.procState k = .unused then some (.none, .run p j (.allocpid k), d)
    else some (.release (.proc k), .run p j (.out (.nextSlot k)), d)
  | .allocpid k, .next => some (.acquire .pid, .run p j (.nextpid k), d)
  | .nextpid k, .next => some (.release .pid, .run p j (.setup k), d)
  | .setup k, .next => some (.release (.proc k), .run p j (.out (.start k)), d.setup k)
  | .setup k, .fail => some (.release (.proc k), .run p j (.out .user), d)
  | .out (.start k), .next => some (.acquire (.proc k), .run p j (.started k), d)
  | .started k, .next =>
    some (.release (.proc k), .run p j (.out .user), d.setThreadState k 0 .runnable)
  | .out .bsemAlloc, .next => some (.acquire .pid, .run p j .alloc, d)
  | .alloc, .next =>
    some (.release .pid, .run p j (.out .user), { d with bsems := d.bsems.bsemAlloc.2 })
  | .out (.bsemFree i), .next => some (.acquire .pid, .run p j (.free i), d)
  | .free i, .next =>
    some (.release .pid, .run p j (.out .user), { d with bsems := update d.bsems i (-1) })
  | .out (.bsemDown i), .next => some (.acquire .pid, .run p j (.test i), d)
  | .test i, .next =>
    match d.bsems.bsemDown i with
    | none => some (.none, .run p j (.sleepLock i), d)
    | some bsems => some (.release .pid, .run p j (.out .user), { d with bsems := bsems })
  | .sleepLock i, .next => some (.acquire (.proc p), .run p j (.sleepUnlock i), d)
  | .sleepUnlock i, .next => some (.release .pid, .run p j (.sleepSched i), d)
  | .sleepSched i, .next => some (.none, .lookNext p j, d.save p j .sleeping (.slept i))
  | .slept i, .next => some (.release (.proc p), .run p j (.out (.bsemDown i)), d)
  | .out (.bsemUp i), .next => some (.acquire .pid, .run p j (.set i), d)
  | .set i, .next => some (.none, .run p j (.wakeLock 0), { d with bsems := d.bsems.bsemUp i })
  | .wakeLock k, .next => some (.acquire (.proc k), .run p j (.wake k), d)
  | .wake k, .next => some (.release (.proc k), .run p j (.wakeNext k), d.wake p j k)
  | .upDone, .next => some (.release .pid, .run p j (.out .user), d)
  | .yieldLock e, .next => some (.acquire (.proc p), .run p j (.yieldSched e), d)
  | .yieldSched e, .next => some (.none, .lookNext p j, d.save p j .runnable (.yielded e))
  | .yielded e, .next => some (.release (.proc p), .run p j (.out e), d)
  | .forkret, .next => some (.release (.proc p), .run p j (.out .user), d)
  | _, _ => none

def Loc.instr (d : Table) : Loc → Choice → Option (LockOp LockId × Loc × Table)
  | .scan p, .next => some (.acquire (.proc p), .look p 0, d)
  | .look p j, .next =>
    if d.threadState p j = .runnable then
      some (.none, .run p j (d.context p j).line, d.setThreadState p j .running)
    else some (.none, .lookNext p j, d)
  | .unlock p, .next => some (.release (.proc p), .scan (p + 1), d)
  | .run p j line, ch => line.instr d p j ch
  | _, _ => none

def lockCode : SpinCode LockId Loc Table Choice where
  instr d l ch := l.instr d ch

abbrev State (κ : Type*) := SpinState κ LockId Loc Table

def booted (κ : Type*) : State κ where
  owner _ := none
  loc _ := .scan 0
  data :=
    { procState := fun p => if p = 0 then .used else .unused
      threadState := fun p j => if p = 0 ∧ j = 0 then .runnable else .unused
      context := fun _ _ => .forkret
      bsems := fun _ => -1 }

/-! ### Keeping the two orders apart -/

/-- The CPU is in `bsem_up` with `pid_lock`, and `wakeup` has yet to lock process `k`. -/
def Loc.yetToLock (k : Fin nproc) : Loc → Bool
  | .run _ _ (.set _) => true
  | .run _ _ (.wakeLock m) => m ≤ k
  | .run _ _ (.wake m) => m < k
  | _ => false

/-- The CPU holds the lock of a free process slot and waits in `allocpid`. -/
def Loc.inAllocpid : Loc → Bool
  | .run _ _ (.allocpid _) => true
  | _ => false

/-- The two locks are not nested both ways: `allocproc` does not find a free slot whose lock a
`wakeup` of `bsem_up` is still to take, and `bsem_up` does not take `pid_lock` while `allocpid`
waits for it. -/
def Orderly {κ : Type*} (s : State κ) (a : κ × Choice) : Prop :=
  match s.loc a.1 with
  | .run _ _ (.check k) => s.data.procState k = .unused → ∀ c, (s.loc c).yetToLock k = false
  | .run _ _ (.out (.bsemUp _)) => a.2 = .next → ∀ c, (s.loc c).inAllocpid = false
  | _ => True

instance {κ : Type*} [Fintype κ] (s : State κ) (a : κ × Choice) : Decidable (Orderly s a) := by
  unfold Orderly
  split <;> infer_instance

end Xv6.Sched
