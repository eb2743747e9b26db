import Xv6.Lib.Spin
import Xv6.Lib.Threads
import Xv6.Proc.State

/-!
# The life of a process (`kernel/proc.c`, `kernel/sleeplock.c`)

The threads of all processes on several CPUs: `fork` with `allocproc`, `exit` with `reparent`,
`wait`, `kill`, `sleep`, `wakeup`, `yield`, `acquiresleep`, `releasesleep`, the scheduler and the
interrupts. Every `acquire` and `release`, every test of a thread's state and every store to it
outside the lock of its process is an instruction.

A thread in the file system (`fs`) takes and releases sleep-locks, sleeps with a spinlock for other
reasons (`block`) and wakes up others (`signal`); it leaves, to user space or for `exit` after
`iput`, without a sleep-lock. Whether `p->killed` is set, `kill` has found the process, memory is
short or `copyout` fails is left open. There are no `kthread` calls, but processes may have several
threads from the start. A panic has no successor.
-/

namespace Xv6.Life

open Lib
open Function (update)

/-- The spinlocks; `sleep n` is `lk->lk` of sleep-lock `n`. -/
inductive LockId where
  | wait
  | proc (k : Fin nproc)
  | sleep (n : Nat)
  | other (n : Nat)
  deriving DecidableEq

inductive Chan where
  | proc (p : Fin nproc)
  | thread (p : Fin nproc) (j : Fin nthread)
  | sleep (n : Nat)
  | other (n : Nat)
  deriving DecidableEq

abbrev Slot := Fin nproc × Fin nthread

/-- A line without spinlocks, so that an interrupt may come; `hs` are the sleep-locks. -/
inductive Entry where
  | user
  | fs (hs : Finset Nat)
  | lock (n : Nat) (hs : Finset Nat) -- acquire(&lk->lk) in acquiresleep and in its sleep
  | unlock (n : Nat) (hs : Finset Nat) -- acquire(&lk->lk) in releasesleep
  | block (n : Nat) (chan : Chan) (hs : Finset Nat) -- acquire(lk), also in its sleep
  | signal (n : Nat) (chan : Chan) (hs : Finset Nat) -- acquire(lk)
  | exit -- acquire(&wait_lock) in exit
  | wait -- acquire(&wait_lock) in wait and in its sleep
  | alloc (k : Fin nproc) -- acquire(&p->lock) in allocproc
  | link (k : Fin nproc) -- acquire(&wait_lock) in fork
  | start (k : Fin nproc) -- acquire(&np->lock) in fork
  | kill (k : Fin nproc) (sigkill : Bool) -- acquire(&p->lock) in kill
  deriving DecidableEq

/-- The sleeps of a thread. -/
inductive Sleep where
  | wait -- sleep(p, &wait_lock)
  | lock (n : Nat) (hs : Finset Nat) -- sleep(lk, &lk->lk)
  | block (n : Nat) (chan : Chan) (hs : Finset Nat)
  deriving DecidableEq

namespace Sleep

def lockId : Sleep → LockId
  | .wait => .wait
  | .lock n _ => .sleep n
  | .block n _ _ => .other n

def chan (p : Fin nproc) : Sleep → Chan
  | .wait => .proc p
  | .lock n _ => .sleep n
  | .block _ chan _ => chan

def entry : Sleep → Entry
  | .wait => .wait
  | .lock n hs => .lock n hs
  | .block n chan hs => .block n chan hs

end Sleep

/-- The lines of `wakeup`. -/
inductive Wake where
  | lock (k : Fin nproc)
  | test (k : Fin nproc) (l : Fin nthread) -- if(t->state == SLEEPING && t->chan == chan)
  | set (k : Fin nproc) (l : Fin nthread)
  | unlock (k : Fin nproc)
  deriving DecidableEq

/-- Where a thread goes on after `wakeup`. -/
inductive Ret where
  | reparent (k : Fin nproc)
  | parent
  | marked (l : Fin nthread)
  | unlock (n : Nat) (hs : Finset Nat)
  | signal (n : Nat) (hs : Finset Nat)
  | resume (e : Entry)
  deriving DecidableEq

/-- The next line of a running thread. -/
inductive Line where
  | out (e : Entry)
  | wakeup (w : Wake) (chan : Option Chan) (ret : Ret)
  -- exit, with wait_lock
  | reparent (k : Fin nproc) -- if(pp->parent == p)
  | wakeParent -- wakeup(p->parent)
  | mark (l : Fin nthread) -- t->state = ZOMBIE
  | exitLock -- acquire(&p->lock)
  | zombie -- p->state = ZOMBIE
  | exitUnlock -- release(&wait_lock)
  | exitSched
  | zombieExit
  -- wait, with wait_lock
  | waitScan (k : Fin nproc) (havekids : Bool) -- if(np->parent == p)
  | waitLock (k : Fin nproc) -- acquire(&np->lock)
  | waitTest (k : Fin nproc) -- if(np->state == ZOMBIE)
  | waitFree (k : Fin nproc) -- freethread(tt) .. freeproc(np)
  | waitFreed (k : Fin nproc) -- release(&np->lock)
  | waitReturn -- release(&wait_lock)
  | waitEnd (havekids : Bool) -- if(!havekids || p->killed)
  -- fork
  | allocTest (k : Fin nproc) -- if(p->state == UNUSED)
  | setup (k : Fin nproc) -- kalloc(), uvmcopy(), ..
  | failed (k : Fin nproc) -- release(&np->lock); return -1
  | setupUnlock (k : Fin nproc) -- release(&np->lock)
  | setParent (k : Fin nproc) -- np->parent = p
  | linkUnlock (k : Fin nproc) -- release(&wait_lock)
  | startState (k : Fin nproc) -- np->main_thread->state = RUNNABLE
  | startUnlock (k : Fin nproc) -- release(&np->lock)
  -- acquiresleep and releasesleep, with lk->lk
  | lockTest (n : Nat) (hs : Finset Nat) -- while (lk->locked); lk->locked = 1
  | unlockSet (n : Nat) (hs : Finset Nat) -- lk->locked = 0; wakeup(lk)
  | sleepLockDone (n : Nat) (hs : Finset Nat) -- release(&lk->lk)
  -- other code of the file system, with lk
  | blocked (n : Nat) (chan : Chan) (hs : Finset Nat) -- sleep(chan, lk) or release(lk)
  | signalled (n : Nat) (hs : Finset Nat) -- release(lk)
  -- sleep
  | sleepLock (sl : Sleep)
  | sleepUnlock (sl : Sleep)
  | sleepState (sl : Sleep)
  | sleepSched (sl : Sleep)
  | slept (sl : Sleep)
  -- yield, to go on at `e`
  | yieldLock (e : Entry)
  | yieldState (e : Entry)
  | yieldSched (e : Entry)
  | yielded (e : Entry)
  | forkret
  -- kill, with p->lock
  | killCheck (k : Fin nproc) (sigkill : Bool) -- if(p->pid == pid)
  | killTest (k : Fin nproc) (l : Fin nthread) -- if(t->state == SLEEPING)
  | killSet (k : Fin nproc) (l : Fin nthread) -- t->state = RUNNABLE
  | killDone (k : Fin nproc) -- release(&p->lock)
  deriving DecidableEq

/-- `t->context`: where a thread goes on that is not running. -/
inductive Saved where
  | forkret
  | slept (sl : Sleep)
  | yielded (e : Entry)
  | zombieExit

def Saved.line : Saved → Line
  | .forkret => .forkret
  | .slept sl => .slept sl
  | .yielded e => .yielded e
  | .zombieExit => .zombieExit

/-- The loops of `scheduler`, the `wakeup` of an interrupt before the next lock, or a thread. -/
inductive Loc where
  | scan (p : Fin nproc)
  | look (p : Fin nproc) (j : Fin nthread) -- if(t->state == RUNNABLE)
  | set (p : Fin nproc) (j : Fin nthread)
  | unlock (p : Fin nproc)
  | intr (p : Fin nproc) (w : Wake) (chan : Chan)
  | run (x : Slot) (line : Line)
  deriving DecidableEq

/-- Not in the code are the last three fields: who has acquired a sleep-lock, how often a slot was
taken, and by which process. -/
structure Table where
  procState : Fin nproc → ProcState
  parent : Fin nproc → Option (Fin nproc)
  threadState : Slot → ProcState
  chan : Slot → Option Chan
  context : Slot → Saved
  -- `initproc->main_thread`
  mainThread : Fin nthread
  locked : Nat → Bool
  holder : Nat → Option Slot
  gen : Fin nproc → Nat
  forker : Fin nproc → Option (Fin nproc × Nat)

def initproc : Fin nproc := 0

namespace Table

variable (d : Table)

def setThreadState (x : Slot) (state : ProcState) : Table :=
  { d with threadState := update d.threadState x state }

def setChan (x : Slot) (chan : Option Chan) : Table :=
  { d with chan := update d.chan x chan }

def save (x : Slot) (context : Saved) : Table :=
  { d with context := update d.context x context }

def setProcState (p : Fin nproc) (state : ProcState) : Table :=
  { d with procState := update d.procState p state }

def setParent (k p : Fin nproc) : Table :=
  { d with parent := update d.parent k (some p) }

def free (k : Fin nproc) : Table :=
  { d with
    procState := update d.procState k .unused
    parent := update d.parent k none
    threadState := fun x => if x.1 = k then .unused else d.threadState x
    chan := fun x => if x.1 = k ∧ d.threadState x ≠ .unused then none else d.chan x }

/-- `allocproc` by process `p` has found slot `k`: the main thread is to start at `forkret`. -/
def alloc (p k : Fin nproc) : Table :=
  { d with
    procState := update d.procState k .used
    threadState := update d.threadState (k, 0) .used
    context := update d.context (k, 0) .forkret
    gen := update d.gen k (d.gen k + 1)
    forker := update d.forker k (some (p, d.gen p)) }

def allocFail (k : Fin nproc) : Table :=
  { d with
    procState := update d.procState k .unused
    parent := update d.parent k none
    threadState := update d.threadState (k, 0) .unused
    chan := update d.chan (k, 0) none }

def lock (n : Nat) (x : Slot) : Table :=
  { d with
    locked := update d.locked n true
    holder := update d.holder n (some x) }

def unlock (n : Nat) : Table :=
  { d with
    locked := update d.locked n false
    holder := update d.holder n none }

end Table

/-- What a thread in user space or in the file system may do next. -/
inductive Syscall where
  | fs
  | wait
  | fork
  | lock (n : Nat)
  | unlock (n : Nat)
  | block (n : Nat) (chan : Chan)
  | signal (n : Nat) (chan : Chan)
  | ret
  | exit
  | kill (sigkill : Bool)

def Entry.call : Entry → Syscall → Option Entry
  | .user, .fs => some (.fs ∅)
  | .user, .wait => some .wait
  | .user, .fork => some (.alloc 0)
  | .fs hs, .lock n => some (.lock n hs)
  | .fs hs, .unlock n => if n ∈ hs then some (.unlock n hs) else none
  | .fs hs, .block n chan => some (.block n chan hs)
  | .fs hs, .signal n chan => some (.signal n chan hs)
  | .fs hs, .ret => if hs = ∅ then some .user else none
  -- exit has closed the files and put back the directory
  | .fs hs, .exit => if hs = ∅ then some .exit else none
  | .user, .kill sigkill => some (.kill 0 sigkill)
  | _, _ => none

/-- The next line, or the other outcome of a condition on data that is left out; an interrupt; a
call. -/
inductive Choice where
  | next
  | alt
  | timer
  | interrupt (chan : Chan)
  | call (c : Syscall)

/-! ### `wakeup` -/

/-- The loop of `wakeup` over the threads, behind thread `l`. -/
def Wake.testNext (k : Fin nproc) (l : Fin nthread) : Wake :=
  if h : l.val + 1 < nthread then .test k ⟨l + 1, h⟩ else .unlock k

def Wake.lockNext (k : Fin nproc) : Option Wake :=
  if h : k.val + 1 < nproc then some (.lock ⟨k + 1, h⟩) else none

def Wake.instr (d : Table) (me : Option Slot) (chan : Option Chan) :
    Wake → LockOp LockId × Option Wake × Table
  | .lock k => (.acquire (.proc k), some (.test k 0), d)
  | .test k l =>
    if me ≠ some (k, l) ∧ d.threadState (k, l) = .sleeping ∧ d.chan (k, l) = chan then
      (.none, some (.set k l), d)
    else (.none, some (.testNext k l), d)
  | .set k l => (.none, some (.testNext k l), d.setThreadState (k, l) .runnable)
  | .unlock k => (.release (.proc k), Wake.lockNext k, d)

/-! ### Threads -/

/-- The loop of `reparent` behind process `k`. -/
def Line.reparentNext (k : Fin nproc) : Line :=
  if h : k.val + 1 < nproc then .reparent ⟨k + 1, h⟩ else .wakeParent

def Line.markNext (l : Fin nthread) : Line :=
  if h : l.val + 1 < nthread then .mark ⟨l + 1, h⟩ else .exitLock

/-- The loop of `wait` behind process `k`. -/
def Line.waitNext (k : Fin nproc) (havekids : Bool) : Line :=
  if h : k.val + 1 < nproc then .waitScan ⟨k + 1, h⟩ havekids else .waitEnd havekids

def Entry.allocNext (k : Fin nproc) : Entry :=
  if h : k.val + 1 < nproc then .alloc ⟨k + 1, h⟩ else .user

/-- The loop of `kill` behind process `k`. -/
def Entry.killNext (k : Fin nproc) (sigkill : Bool) : Entry :=
  if h : k.val + 1 < nproc then .kill ⟨k + 1, h⟩ sigkill else .user

def Line.killNext (k : Fin nproc) (l : Fin nthread) : Line :=
  if h : l.val + 1 < nthread then .killTest k ⟨l + 1, h⟩ else .killDone k

def Ret.line : Ret → Line
  | .reparent k => .reparentNext k
  | .parent => .mark 0
  | .marked l => .markNext l
  | .unlock n hs => .sleepLockDone n hs
  | .signal n hs => .signalled n hs
  | .resume e => .out e

def Entry.next (x : Slot) : Entry → Option (LockId × Line)
  | .user | .fs _ => none
  | .lock n hs => some (.sleep n, .lockTest n hs)
  | .unlock n hs => some (.sleep n, .unlockSet n hs)
  | .block n chan hs => some (.other n, .blocked n chan hs)
  | .signal n chan hs => some (.other n, .wakeup (.lock 0) (some chan) (.signal n hs))
  -- panic("init exiting")
  | .exit => if x.1 = initproc then none else some (.wait, .reparent 0)
  | .wait => some (.wait, .waitScan 0 false)
  | .alloc k => some (.proc k, .allocTest k)
  | .link k => some (.wait, .setParent k)
  | .start k => some (.proc k, .startState k)
  | .kill k sigkill => some (.proc k, .killCheck k sigkill)

/-- Whether a timer interrupt makes the thread yield; `kerneltrap` tests its state. -/
def Entry.yields (d : Table) (x : Slot) : Entry → Bool
  | .user => true
  | _ => d.threadState x = .running

/-- `sched`, with the context that it saves. -/
def sched (d : Table) (x : Slot) (context : Saved) :
    Option (LockOp LockId × Option Line × Table) :=
  -- panic("sched running")
  if d.threadState x = .running then none else some (.none, none, d.save x context)

/-- The instruction of a thread at a line. -/
def Line.instr (d : Table) (x : Slot) :
    Line → Choice → Option (LockOp LockId × Option Line × Table)
  | .out e, .timer => some (.none, some (if e.yields d x then .yieldLock e else .out e), d)
  | .out e, .interrupt chan => some (.none, some (.wakeup (.lock 0) (some chan) (.resume e)), d)
  | .out e, .call c => (e.call c).map fun e' => (.none, some (.out e'), d)
  | .out e, .next => (e.next x).map fun (m, line) => (.acquire m, some line, d)
  | .wakeup w chan ret, .next =>
    match w.instr d (some x) chan with
    | (op, some w', d') => some (op, some (.wakeup w' chan ret), d')
    | (op, none, d') => some (op, some ret.line, d')
  | .reparent k, .next =>
    if d.parent k = some x.1 then
      some (.none, some (.wakeup (.lock 0) (some (.thread initproc d.mainThread)) (.reparent k)),
        d.setParent k initproc)
    else some (.none, some (.reparentNext k), d)
  | .wakeParent, .next =>
    some (.none, some (.wakeup (.lock 0) ((d.parent x.1).map .proc) .parent), d)
  | .mark l, .next =>
    some (.none, some (.wakeup (.lock 0) (some (.thread x.1 l)) (.marked l)),
      d.setThreadState (x.1, l) .zombie)
  | .exitLock, .next => some (.acquire (.proc x.1), some .zombie, d)
  | .zombie, .next => some (.none, some .exitUnlock, d.setProcState x.1 .zombie)
  | .exitUnlock, .next => some (.release .wait, some .exitSched, d)
  | .exitSched, .next => sched d x .zombieExit
  | .waitScan k havekids, .next =>
    if d.parent k = some x.1 then some (.none, some (.waitLock k), d)
    else some (.none, some (.waitNext k havekids), d)
  | .waitLock k, .next => some (.acquire (.proc k), some (.waitTest k), d)
  | .waitTest k, .next =>
    if d.procState k = .zombie then some (.none, some (.waitFree k), d)
    else some (.release (.proc k), some (.waitNext k true), d)
  | .waitTest k, .alt =>
    -- copyout of the exit status fails
    if d.procState k = .zombie then some (.release (.proc k), some .waitReturn, d) else none
  | .waitFree k, .next => some (.none, some (.waitFreed k), d.free k)
  | .waitFreed k, .next => some (.release (.proc k), some .waitReturn, d)
  | .waitReturn, .next => some (.release .wait, some (.out .user), d)
  | .waitEnd havekids, .next =>
    if havekids = false then some (.release .wait, some (.out .user), d)
    else some (.none, some (.sleepLock .wait), d)
  -- p->killed
  | .waitEnd _, .alt => some (.release .wait, some (.out .user), d)
  | .allocTest k, .next =>
    if d.procState k = .unused then some (.none, some (.setup k), d.alloc x.1 k)
    else some (.release (.proc k), some (.out (.allocNext k)), d)
  | .setup k, .next => some (.none, some (.setupUnlock k), d)
  | .setup k, .alt => some (.none, some (.failed k), d.allocFail k)
  | .failed k, .next => some (.release (.proc k), some (.out .user), d)
  | .setupUnlock k, .next => some (.release (.proc k), some (.out (.link k)), d)
  | .setParent k, .next => some (.none, some (.linkUnlock k), d.setParent k x.1)
  | .linkUnlock k, .next => some (.release .wait, some (.out (.start k)), d)
  | .startState k, .next =>
    some (.none, some (.startUnlock k), d.setThreadState (k, 0) .runnable)
  | .startUnlock k, .next => some (.release (.proc k), some (.out .user), d)
  | .lockTest n hs, .next =>
    if d.locked n then some (.none, some (.sleepLock (.lock n hs)), d)
    else some (.none, some (.sleepLockDone n (insert n hs)), d.lock n x)
  | .unlockSet n hs, .next =>
    some (.none, some (.wakeup (.lock 0) (some (.sleep n)) (.unlock n (hs.erase n))), d.unlock n)
  | .sleepLockDone n hs, .next => some (.release (.sleep n), some (.out (.fs hs)), d)
  | .blocked n chan hs, .next => some (.none, some (.sleepLock (.block n chan hs)), d)
  | .blocked n _ hs, .alt => some (.release (.other n), some (.out (.fs hs)), d)
  | .signalled n hs, .next => some (.release (.other n), some (.out (.fs hs)), d)
  | .sleepLock sl, .next => some (.acquire (.proc x.1), some (.sleepUnlock sl), d)
  | .sleepUnlock sl, .next => some (.release sl.lockId, some (.sleepState sl), d)
  | .sleepState sl, .next =>
    some (.none, some (.sleepSched sl),
      (d.setChan x (some (sl.chan x.1))).setThreadState x .sleeping)
  | .sleepSched sl, .next => sched d x (.slept sl)
  | .slept sl, .next => some (.release (.proc x.1), some (.out sl.entry), d.setChan x none)
  | .yieldLock e, .next => some (.acquire (.proc x.1), some (.yieldState e), d)
  | .yieldState e, .next => some (.none, some (.yieldSched e), d.setThreadState x .runnable)
  | .yieldSched e, .next => sched d x (.yielded e)
  | .yielded e, .next => some (.release (.proc x.1), some (.out e), d)
  | .forkret, .next => some (.release (.proc x.1), some (.out .user), d)
  | .killCheck k sigkill, .next =>
    some (.none, some (if sigkill then .killTest k 0 else .killDone k), d)
  | .killCheck k sigkill, .alt =>
    some (.release (.proc k), some (.out (.killNext k sigkill)), d)
  | .killTest k l, .next =>
    if d.threadState (k, l) = .sleeping then some (.none, some (.killSet k l), d)
    else some (.none, some (.killNext k l), d)
  | .killSet k l, .next =>
    some (.none, some (.killNext k l), d.setThreadState (k, l) .runnable)
  | .killDone k, .next => some (.release (.proc k), some (.out .user), d)
  | _, _ => none

/-! ### CPUs -/

/-- `scheduler` goes on to the thread behind `j`. -/
def Loc.lookNext (p : Fin nproc) (j : Fin nthread) : Loc :=
  if h : j.val + 1 < nthread then .look p ⟨j + 1, h⟩ else .unlock p

/-- The instruction of a CPU. -/
def Loc.instr (d : Table) : Loc → Choice → Option (LockOp LockId × Loc × Table)
  | .scan p, .next => some (.acquire (.proc p), .look p 0, d)
  | .scan p, .interrupt chan => some (.none, .intr p (.lock 0) chan, d)
  | .look p j, .next =>
    if d.threadState (p, j) = .runnable then some (.none, .set p j, d)
    else some (.none, .lookNext p j, d)
  | .set p j, .next =>
    some (.none, .run (p, j) (d.context (p, j)).line, d.setThreadState (p, j) .running)
  | .unlock p, .next => some (.release (.proc p), .scan (p + 1), d)
  | .intr p w chan, .next =>
    match w.instr d none (some chan) with
    | (op, some w', d') => some (op, .intr p w' chan, d')
    | (op, none, d') => some (op, .scan p, d')
  | .run x line, ch =>
    match line.instr d x ch with
    | some (op, some line', d') => some (op, .run x line', d')
    | some (op, none, d') => some (op, .lookNext x.1 x.2, d')
    | none => none
  | _, _ => none

def lifeCode : SpinCode LockId Loc Table Choice where
  instr d l ch := l.instr d ch

/-- The CPUs with their locks. -/
abbrev State (κ : Type*) := SpinState κ LockId Loc Table

/-- The thread on a CPU, and its line. -/
def Loc.thread : Loc → Option (Slot × Line)
  | .run x line => some (x, line)
  | _ => none

/-- Where the threads are: on a CPU at a line, or off with a saved context. -/
def places {κ : Type*} (s : State κ) : Placement κ Slot Line where
  on c := (s.loc c).thread
  saved x := (s.data.context x).line

/-- The thread is neither `UNUSED` nor `ZOMBIE`. -/
def alive (state : ProcState) : Prop := state ≠ .unused ∧ state ≠ .zombie

instance (state : ProcState) : Decidable (alive state) :=
  inferInstanceAs (Decidable (_ ∧ _))

/-- Every CPU enters `scheduler`; the threads of the processes are about to return to user space. -/
structure Start {κ : Type*} (s : State κ) : Prop where
  owner : ∀ m, s.owner m = none
  loc : ∀ c, s.loc c = .scan 0
  procs : ∀ p, s.data.procState p ≠ .zombie
  init : s.data.procState initproc ≠ .unused ∧ s.data.parent initproc = none
  threads : ∀ x, s.data.threadState x = .unused ∨
    s.data.threadState x = .runnable ∧ s.data.procState x.1 ≠ .unused
  context : ∀ x, s.data.context x = .forkret
  locked : ∀ n, s.data.locked n = false
  tree : ∀ k, k ≠ initproc → s.data.procState k ≠ .unused →
    ∃ q, s.data.parent k = some q ∧ s.data.procState q ≠ .unused ∧
      (q = initproc ∨ s.data.forker k = some (q, s.data.gen q))
  unused : ∀ k, s.data.procState k = .unused → s.data.parent k = none
  parent : ∀ k, s.data.parent k ≠ some k

/-! ### Siblings -/

def Wake.tested : Wake → Option Slot
  | .set k l => some (k, l)
  | _ => none

/-- The thread whose state the CPU has tested and is about to store to. -/
def Loc.tested : Loc → Option Slot
  | .set p j => some (p, j)
  | .intr _ w _ => w.tested
  | .run _ (.wakeup w _ _) => w.tested
  | .run _ (.killSet k l) => some (k, l)
  | _ => none

/-- The sibling whose state `exit` is about to overwrite. -/
def Loc.marks : Loc → Option Slot
  | .run x (.mark l) => if l = x.2 then none else some (x.1, l)
  | _ => none

/-- The sibling is not `RUNNING`, nor is another CPU between its test and its store of that state.
-/
def Still {κ : Type*} (s : State κ) (a : κ × Choice) : Prop :=
  ∀ y, (s.loc a.1).marks = some y → s.data.threadState y ≠ .running ∧ ∀ c, (s.loc c).tested ≠ some y

end Xv6.Life
