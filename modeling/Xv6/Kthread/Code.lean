import Xv6.Kthread.Basic
import Xv6.Lib.Spin

/-!
# `kthread_create`, `kthread_exit` and `kthread_join` line by line (`kernel/proc.c`)

The threads of one process on several CPUs, each with its scheduler. Every `acquire` and `release`,
every test of a thread's state and every store to it is an instruction. An interrupt comes while the
CPU holds no lock.

Other system calls take a spinlock and either sleep as long as they want (`block`) or call `wakeup`
(`signal`). Other processes hold `wait_lock`, call `wakeup` and take thread identifiers. The death
of the process begins with `exit(0)` and ends the model. A panic has no successor.
-/

namespace Xv6.Kthread

open Lib

inductive LockId where
  | wait
  | proc
  | join
  | other (n : Nat)
  deriving DecidableEq

inductive Entry where
  | user
  | exit (status : Int) -- acquire(&wait_lock)
  | create -- acquire(&p->lock) in allocthread
  | setup (l : Fin nthread) -- kalloc(), the trapframe and the context
  | created (l : Fin nthread) -- t->state = RUNNABLE
  | join (tid status : Int) -- acquire(&p->lock) in kthread_join
  | joinTest (tid status : Int) (l : Fin nthread) -- if (tt->state == UNUSED || ZOMBIE)
  | block (n : Nat) (chan : Chan) -- acquire(lk), also in its sleep
  | signal (n : Nat) (chan : Chan) -- acquire(lk)
  deriving DecidableEq

/-- The lines of `wakeup` in this process. -/
inductive Wake where
  | lock
  | test (l : Fin nthread) -- if(t->state == SLEEPING && t->chan == chan)
  | set (l : Fin nthread)
  | unlock
  deriving DecidableEq

inductive Ret where
  | treparent (status : Int) (tt : Fin nthread)
  | parent (status : Int)
  | exit
  | signal (n : Nat)
  | resume (e : Entry)
  deriving DecidableEq

/-- The next line of a running thread.  In `kthread_join`, `status` is what `*status` holds. -/
inductive Line where
  | out (e : Entry)
  | wakeup (w : Wake) (chan : Chan) (ret : Ret)
  -- kthread_exit, with wait_lock
  | treparent (status : Int) (tt : Fin nthread) -- if(tt->thread_parent == t && ..)
  | wakeParent (status : Int) -- if(t->thread_parent) wakeup(t->thread_parent)
  | zombie (status : Int) -- t->xstate = status; t->state = ZOMBIE
  | exitLock
  | check (tt : Fin nthread) -- if(tt->state == USED || ..)
  | lastUnlock -- release(&p->lock)
  | lastRelease -- release(&wait_lock)
  | exit -- exit(0)
  | exited
  | found -- release(&wait_lock)
  | exitSched
  | zombieExit
  -- kthread_create, with p->lock
  | alloc (l : Fin nthread) -- if(t->state == UNUSED || t->state == ZOMBIE)
  | allocFound (l : Fin nthread) -- t->tid = alloctid() .. t->thread_parent = ..
  | allocUnlock (l : Fin nthread) -- release(&p->lock)
  | allocNone -- release(&p->lock)
  | createdNone -- t->state = RUNNABLE, t being null
  -- kthread_join, with p->lock up to the test
  | joinScan (tid status : Int) (l : Fin nthread) -- if(tt->tid == thread_id)
  | joinFound (tid status : Int) (l : Fin nthread) -- release(&p->lock)
  | joinNone -- release(&p->lock); return -1
  | joined (tid status : Int) -- return 0
  | joinSleep -- acquire(&t->proc_parent->lock) in sleep
  | joinRelease -- release(&join_thread) in sleep
  -- other system calls, with lk
  | blocked (n : Nat) (chan : Chan) -- sleep(chan, lk) or release(lk)
  | signalled (n : Nat) -- release(lk)
  -- sleep(chan, lk)
  | sleepLock (n : Nat) (chan : Chan)
  | sleepUnlock (n : Nat) (chan : Chan)
  | sleepState (n : Nat) (chan : Chan)
  | sleepSched (n : Nat) (chan : Chan)
  | slept (n : Nat) (chan : Chan)
  -- yield, to go on at `e`
  | yieldLock (e : Entry)
  | yieldState (e : Entry)
  | yieldSched (e : Entry)
  | yielded (e : Entry)
  | forkret
  deriving DecidableEq

inductive Saved where
  | forkret
  | slept (n : Nat) (chan : Chan)
  | yielded (e : Entry)
  | zombieExit
  deriving DecidableEq

def Saved.line : Saved → Line
  | .forkret => .forkret
  | .slept n chan => .slept n chan
  | .yielded e => .yielded e
  | .zombieExit => .zombieExit

/-- The CPU is away, in the scheduler or in another process; in a `wakeup` there; in its scheduler,
at this process; or in a thread of it. -/
inductive Loc where
  | away (wait : Bool)
  | wakeup (wait : Bool) (w : Wake) (chan : Chan)
  | look (j : Fin nthread) -- if(t->state == RUNNABLE)
  | set (j : Fin nthread)
  | unlock
  | run (j : Fin nthread) (line : Line)
  deriving DecidableEq

/-- The process and the contexts; how often `exit(0)` was called, and what was passed to
`kthread_exit`. -/
structure Table where
  proc : Proc
  context : Fin nthread → Saved
  exits : Nat
  exitedWith : Int → Option Int

namespace Table

variable (d : Table)

def state (j : Fin nthread) : ProcState := (d.proc.threads j).state

def tid (j : Fin nthread) : Int := (d.proc.threads j).tid

def xstate (j : Fin nthread) : Int := (d.proc.threads j).xstate

def setState (j : Fin nthread) (state : ProcState) : Table :=
  { d with proc := d.proc.setState j state }

def save (j : Fin nthread) (context : Saved) : Table :=
  { d with context := Function.update d.context j context }

def sleep (j : Fin nthread) (chan : Chan) : Table :=
  { d with
    proc := d.proc.setThread j { d.proc.threads j with state := .sleeping, chan := some chan } }

def clearChan (j : Fin nthread) : Table :=
  { d with proc := d.proc.setThread j { d.proc.threads j with chan := none } }

def setParent (tt q : Fin nthread) : Table :=
  { d with proc := d.proc.setThread tt { d.proc.threads tt with threadParent := some q } }

def setMain (tt : Fin nthread) : Table := { d with proc := { d.proc with mainThread := tt } }

def zombie (j : Fin nthread) (status : Int) : Table :=
  { d with
    proc := d.proc.setThread j { d.proc.threads j with xstate := status, state := .zombie }
    exitedWith := Function.update d.exitedWith (d.tid j) (some status) }

def alloc (t l : Fin nthread) : Table := { d with proc := d.proc.alloc t l }

def alloctid : Table :=
  { d with proc := { d.proc with nexttid := (d.proc.nexttid + 1).bmod (2 ^ 32) } }

/-- The next identifier is that of no live thread, and no thread has exited with it. -/
def NextFree : Prop :=
  (∀ i, d.proc.Live i → d.tid i ≠ d.proc.nexttid) ∧ d.exitedWith d.proc.nexttid = none

instance : Decidable d.NextFree := inferInstanceAs (Decidable (_ ∧ _))

def callExit : Table := { d with exits := d.exits + 1 }

end Table

inductive Syscall where
  | exit (status : Int)
  | create
  | join (tid status : Int)
  | block (n : Nat) (chan : Chan)
  | signal (n : Nat) (chan : Chan)
  deriving DecidableEq

def Syscall.entry : Syscall → Entry
  | .exit status => .exit status
  | .create => .create
  | .join tid status => .join tid status
  | .block n chan => .block n chan
  | .signal n chan => .signal n chan

/-- The next line, or the other outcome of a condition on data that is left out; an interrupt; a
call; another process takes or releases `wait_lock`, or takes a thread identifier. -/
inductive Choice where
  | next
  | alt
  | timer
  | interrupt (chan : Chan)
  | call (c : Syscall)
  | lockWait
  | unlockWait
  | alloctid
  deriving DecidableEq

/-! ### `wakeup` -/

/-- The loop of `wakeup` behind thread `l`. -/
def Wake.testNext (l : Fin nthread) : Wake :=
  if h : l.val + 1 < nthread then .test ⟨l + 1, h⟩ else .unlock

def Wake.instr (d : Table) (me : Option (Fin nthread)) (chan : Chan) :
    Wake → LockOp LockId × Option Wake × Table
  | .lock => (.acquire .proc, some (.test 0), d)
  | .test l =>
    if me ≠ some l ∧ d.state l = .sleeping ∧ (d.proc.threads l).chan = some chan then
      (.none, some (.set l), d)
    else (.none, some (.testNext l), d)
  | .set l => (.none, some (.testNext l), d.setState l .runnable)
  | .unlock => (.release .proc, none, d)

/-! ### Threads -/

def Line.treparentNext (status : Int) (tt : Fin nthread) : Line :=
  if h : tt.val + 1 < nthread then .treparent status ⟨tt + 1, h⟩ else .wakeParent status

/-- The loop of `kthread_exit` behind thread `tt`. -/
def Line.checkNext (tt : Fin nthread) : Line :=
  if h : tt.val + 1 < nthread then .check ⟨tt + 1, h⟩ else .lastUnlock

def Line.allocNext (l : Fin nthread) : Line :=
  if h : l.val + 1 < nthread then .alloc ⟨l + 1, h⟩ else .allocNone

/-- The loop of `kthread_join` behind thread `l`. -/
def Line.joinNext (tid status : Int) (l : Fin nthread) : Line :=
  if h : l.val + 1 < nthread then .joinScan tid status ⟨l + 1, h⟩ else .joinNone

def Ret.line : Ret → Line
  | .treparent status tt => .treparentNext status tt
  | .parent status => .zombie status
  | .exit => .exit
  | .signal n => .signalled n
  | .resume e => .out e

def zombieCode : Nat := 5

/-- `tt->state == UNUSED || ZOMBIE`. -/
def joinCond (state : ProcState) : Bool := state = .unused || zombieCode ≠ 0

/-- `sched`, with the context that it saves. -/
def sched (d : Table) (j : Fin nthread) (context : Saved) :
    Option (LockOp LockId × Option Line × Table) :=
  -- panic("sched running")
  if d.state j = .running then none else some (.none, none, d.save j context)

def Entry.instr (d : Table) : Entry → LockOp LockId × Line × Table
  | .user => (.none, .out .user, d)
  | .exit status => (.acquire .wait, .treparent status 0, d)
  | .create => (.acquire .proc, .alloc 0, d)
  | .setup l => (.none, .out (.created l), d.save l .forkret)
  | .created l => (.none, .out .user, d.setState l .runnable)
  | .join tid status => (.acquire .proc, .joinScan tid status 0, d)
  | .joinTest tid status l =>
    if joinCond (d.state l) then (.none, .joined tid status, d) else (.none, .joinSleep, d)
  | .block n chan => (.acquire (.other n), .blocked n chan, d)
  | .signal n chan => (.acquire (.other n), .wakeup .lock chan (.signal n), d)

/-- No line follows when the thread switches to the scheduler. -/
def Line.instr (d : Table) (j : Fin nthread) :
    Line → Choice → Option (LockOp LockId × Option Line × Table)
  | .out e, .timer =>
    -- kerneltrap tests the state
    if e = .user ∨ d.state j = .running then some (.none, some (.yieldLock e), d)
    else some (.none, some (.out e), d)
  | .out e, .interrupt chan => some (.none, some (.wakeup .lock chan (.resume e)), d)
  | .out .user, .call c => some (.none, some (.out c.entry), d)
  | .out e, .next =>
    match e.instr d with
    | (op, line, d') => some (op, some line, d')
  | .wakeup w chan ret, .next =>
    match w.instr d (some j) chan with
    | (op, some w', d') => some (op, some (.wakeup w' chan ret), d')
    | (op, none, d') => some (op, some ret.line, d')
  | .treparent status tt, .next =>
    if (d.proc.threads tt).threadParent = some j ∧ j ≠ d.proc.mainThread then
      some (.none, some (.wakeup .lock (.thread d.proc.mainThread) (.treparent status tt)),
        d.setParent tt d.proc.mainThread)
    else if (d.proc.threads tt).threadParent = some j then
      some (.none, some (.treparentNext status tt), d.setMain tt)
    else some (.none, some (.treparentNext status tt), d)
  | .wakeParent status, .next =>
    match (d.proc.threads j).threadParent with
    | some q => some (.none, some (.wakeup .lock (.thread q) (.parent status)), d)
    | none => some (.none, some (.zombie status), d)
  | .zombie status, .next => some (.none, some .exitLock, d.zombie j status)
  | .exitLock, .next => some (.acquire .proc, some (.check 0), d)
  | .check tt, .next =>
    if live (d.state tt) then some (.none, some .found, d)
    else some (.none, some (.checkNext tt), d)
  | .lastUnlock, .next => some (.release .proc, some .lastRelease, d)
  | .lastRelease, .next => some (.release .wait, some .exit, d)
  | .exit, .next => some (.none, some .exited, d.callExit)
  | .exit, .interrupt chan => some (.none, some (.wakeup .lock chan .exit), d)
  | .found, .next => some (.release .wait, some .exitSched, d)
  | .exitSched, .next => sched d j .zombieExit
  | .alloc l, .next =>
    if d.state l = .unused ∨ d.state l = .zombie then some (.none, some (.allocFound l), d)
    else some (.none, some (.allocNext l), d)
  | .allocFound l, .next => some (.none, some (.allocUnlock l), d.alloc j l)
  | .allocUnlock l, .next => some (.release .proc, some (.out (.setup l)), d)
  | .allocNone, .next => some (.release .proc, some .createdNone, d)
  | .joinScan tid status l, .next =>
    if d.tid l = tid then some (.none, some (.joinFound tid status l), d)
    else some (.none, some (.joinNext tid status l), d)
  | .joinFound tid status l, .next =>
    some (.release .proc, some (.out (.joinTest tid status l)), d)
  | .joinNone, .next => some (.release .proc, some (.out .user), d)
  | .joined _ _, .next => some (.none, some (.out .user), d)
  | .joinSleep, .next => some (.acquire .proc, some .joinRelease, d)
  -- panic("release"): `kthread_join` does not hold `join_thread`
  | .joinRelease, .next => none
  | .blocked n chan, .next => some (.none, some (.sleepLock n chan), d)
  | .blocked n _, .alt => some (.release (.other n), some (.out .user), d)
  | .signalled n, .next => some (.release (.other n), some (.out .user), d)
  | .sleepLock n chan, .next => some (.acquire .proc, some (.sleepUnlock n chan), d)
  | .sleepUnlock n chan, .next => some (.release (.other n), some (.sleepState n chan), d)
  | .sleepState n chan, .next => some (.none, some (.sleepSched n chan), d.sleep j chan)
  | .sleepSched n chan, .next => sched d j (.slept n chan)
  | .slept n chan, .next => some (.release .proc, some (.out (.block n chan)), d.clearChan j)
  | .yieldLock e, .next => some (.acquire .proc, some (.yieldState e), d)
  | .yieldState e, .next => some (.none, some (.yieldSched e), d.setState j .runnable)
  | .yieldSched e, .next => sched d j (.yielded e)
  | .yielded e, .next => some (.release .proc, some (.out e), d)
  | .forkret, .next => some (.release .proc, some (.out .user), d)
  | _, _ => none

/-! ### CPUs -/

def Loc.lookNext (j : Fin nthread) : Loc :=
  if h : j.val + 1 < nthread then .look ⟨j + 1, h⟩ else .unlock

/-- The instruction of a CPU. -/
def Loc.instr (d : Table) : Loc → Choice → Option (LockOp LockId × Loc × Table)
  | .away false, .next => some (.acquire .proc, .look 0, d)
  | .away false, .lockWait => some (.acquire .wait, .away true, d)
  | .away true, .unlockWait => some (.release .wait, .away false, d)
  | .away wait, .interrupt chan => some (.none, .wakeup wait .lock chan, d)
  | .away wait, .alloctid => some (.none, .away wait, d.alloctid)
  | .wakeup wait w chan, .next =>
    match w.instr d none chan with
    | (op, some w', d') => some (op, .wakeup wait w' chan, d')
    | (op, none, d') => some (op, .away wait, d')
  | .look j, .next =>
    if d.state j = .runnable then some (.none, .set j, d) else some (.none, .lookNext j, d)
  | .set j, .next => some (.none, .run j (d.context j).line, d.setState j .running)
  | .unlock, .next => some (.release .proc, .away false, d)
  | .run j line, ch =>
    match line.instr d j ch with
    | some (op, some line', d') => some (op, .run j line', d')
    | some (op, none, d') => some (op, .lookNext j, d')
    | none => none
  | _, _ => none

def kthreadCode : SpinCode LockId Loc Table Choice where
  instr d l ch := l.instr d ch

abbrev State (κ : Type*) := SpinState κ LockId Loc Table

/-- A process with one thread that has not run yet, and no CPU in it. -/
structure Start {κ : Type*} (s : State κ) : Prop where
  owner : ∀ m, s.owner m = none
  loc : ∀ c, s.loc c = .away false
  fresh : Fresh s.data.proc
  context : ∀ j, s.data.context j = .forkret
  exits : s.data.exits = 0
  exitedWith : ∀ tid, s.data.exitedWith tid = none

/-! ### The last thread, reuse of slots, and `kthread_join` -/

/-- `kthread_exit` from the store of `ZOMBIE` to its decision. -/
def Line.undecided : Line → Bool
  | .exitLock | .check _ => true
  | _ => false

/-- Behind the store of `ZOMBIE` in `kthread_exit`. -/
def Line.gone : Line → Bool
  | .exitLock | .check _ | .lastUnlock | .lastRelease | .exit | .exited | .found | .exitSched
  | .wakeup _ _ .exit => true
  | _ => false

/-- In `kthread_exit`, before the store of `ZOMBIE`. -/
def Line.exiting : Line → Bool
  | .out (.exit _) | .treparent .. | .wakeup _ _ (.treparent ..) | .wakeParent _
  | .wakeup _ _ (.parent _) | .zombie _ | .exitLock | .check _ | .lastUnlock | .lastRelease | .exit
  | .wakeup _ _ .exit | .found | .exitSched => true
  | _ => false

def Loc.goneThread : Loc → Option (Fin nthread)
  | .run j line => if line.gone then some j else none
  | _ => none

/-- `allocthread` does not take a slot whose last thread is still in `kthread_exit`. -/
def NotInUse {κ : Type*} (s : State κ) (a : κ × Choice) : Prop :=
  match s.loc a.1 with
  | .run _ (.allocFound l) => ∀ c, (s.loc c).goneThread ≠ some l
  | _ => True

instance {κ : Type*} [Fintype κ] (s : State κ) (a : κ × Choice) : Decidable (NotInUse s a) := by
  unfold NotInUse
  split <;> infer_instance

/-- The last thread terminates the process. -/
structure LastOut {κ : Type*} (s : State κ) : Prop where
  -- `exit(0)` is called when every other slot is `UNUSED` or `ZOMBIE`
  exit : ∀ c j, s.loc c = .run j .exit → ∀ l, l ≠ j →
    s.data.state l = .unused ∨ s.data.state l = .zombie
  -- a thread that decides against it leaves a live thread behind
  found : ∀ c j, s.loc c = .run j .found → ∃ l, l ≠ j ∧ s.data.proc.Live l
  -- and at its `sched` that thread is live or has not decided yet
  sched : ∀ c j, s.loc c = .run j .exitSched →
    (∃ l, l ≠ j ∧ s.data.proc.Live l) ∨
      ∃ c' l line, l ≠ j ∧ s.loc c' = .run l line ∧ line.undecided = true
  once : s.data.exits ≤ 1
  -- when all threads have called `kthread_exit`, one of them has called `exit(0)`
  all : (∀ l, ¬ s.data.proc.Live l) → (∀ c l line, s.loc c = .run l line → line.exiting = false) →
    s.data.exits = 1

/-- The slot that `allocthread` is reinitialising: its identifier, kernel stack and context. -/
def Line.reinits : Line → Option (Fin nthread)
  | .allocFound l | .allocUnlock l | .out (.setup l) => some l
  | _ => none

/-- The last thread of a slot that is reinitialised has switched to the scheduler from
`kthread_exit`. -/
def ReuseOk {κ : Type*} (s : State κ) : Prop :=
  ∀ c j line l, s.loc c = .run j line → line.reinits = some l → ∀ c', (s.loc c').goneThread ≠ some l

/-- The last thread of a slot that `allocthread` looks at is not between `ZOMBIE` and
`acquire(&p->lock)`. -/
def Settled {κ : Type*} (s : State κ) (a : κ × Choice) : Prop :=
  match s.loc a.1 with
  | .run _ (.alloc l) => ∀ c, s.loc c ≠ .run l .exitLock
  | _ => True

instance {κ : Type*} [Fintype κ] (s : State κ) (a : κ × Choice) : Decidable (Settled s a) := by
  unfold Settled
  split <;> infer_instance

/-- `kthread_join` finds a thread that has exited, with the value that `*status` already holds. -/
def Reported {κ : Type*} (s : State κ) (a : κ × Choice) : Prop :=
  match s.loc a.1 with
  | .run _ (.joinScan tid status l) =>
    s.data.tid l = tid → s.data.state l = .zombie ∧ s.data.xstate l = status
  | _ => True

instance {κ : Type*} (s : State κ) (a : κ × Choice) : Decidable (Reported s a) := by
  unfold Reported
  split <;> infer_instance

/-- `allocthread` gives a thread an identifier of its own: `nexttid` wraps. -/
def OwnTid {κ : Type*} (s : State κ) (a : κ × Choice) : Prop :=
  match s.loc a.1 with
  | .run _ (.allocFound _) => s.data.NextFree
  | _ => True

instance {κ : Type*} (s : State κ) (a : κ × Choice) : Decidable (OwnTid s a) := by
  unfold OwnTid
  split <;> infer_instance

/-- When `kthread_join` returns 0 the thread has exited with the value that `*status` holds. -/
def JoinOk {κ : Type*} (s : State κ) : Prop :=
  ∀ c j tid status, s.loc c = .run j (.joined tid status) →
    s.data.exitedWith tid = some status ∧ ∀ l, s.data.tid l = tid → ¬ s.data.proc.Live l

end Xv6.Kthread
