import Mathlib.Data.Fintype.Prod
import Xv6.Lib.Spin
import Xv6.Lib.Threads
import Xv6.Proc.State

/-!
# `sleep` and `wakeup` (`kernel/proc.c`)

Threads of several processes on several CPUs: `sleep`, `wakeup`, `kill`, `yield`, `sched`,
`scheduler` and the interrupts, with every `acquire` and `release`, every test of a thread's state
and every store to it an instruction.

What the threads do otherwise is a `Program`, which also runs in interrupt handlers. It works on
data of its own with spinlocks that are not process locks, and calls `sleep`, `wakeup` and `kill`.
It calls `sleep` for one of its conditions, each of which has a lock and a channel.

A thread may be marked `ZOMBIE` at any time, as `exit` and `kthread_exit` do, and leave its CPU for
good; threads are not created. A panic has no successor.
-/

namespace Xv6.Sleep

open Lib

inductive LockId where
  | proc (k : Fin nproc)
  | other (n : Nat)
  deriving DecidableEq

abbrev Slot := Fin nproc × Fin nthread

/-- `wakeup(chan)`, or `kill(pid, SIGKILL)` for the process with that `pid`, if there is one. -/
inductive Target where
  | chan (chan : Nat)
  | kill (k : Option (Fin nproc))
  deriving DecidableEq

/-! ### Programs -/

/-- What a program at some point does next, and where it goes on. -/
inductive Op (σ π ι : Type) where
  | acquire (n : Nat) (p : π)
  | release (n : Nat) (p : π)
  | store (v : σ) (p : π)
  | wake (t : Target) (p : π) -- wakeup(chan) or kill(pid, SIGKILL)
  | sleep (i : ι) (p : π) -- sleep(chan, lk) for condition `i`
  | mark (l : Fin nthread) (p : π) -- p->threads[l].state = ZOMBIE
  | exit -- acquire(&p->lock); sched()

/-- Code with data `σ`, points `π` and conditions `ι`; `χ` are its inputs. -/
structure Program (σ π ι χ : Type) where
  /-- The lock of a condition, and the channel on which threads sleep for it. -/
  lock : ι → Nat
  chan : ι → Nat
  cond : ι → σ → Bool
  op : σ → π → χ → Option (Op σ π ι)
  /-- Where an interrupt handler begins. -/
  intr : χ → Option π

variable {σ π ι χ : Type}

/-! ### Lines -/

/-- The lines of `wakeup` and `kill`. -/
inductive Wake where
  | lock (k : Fin nproc) -- acquire(&p->lock)
  | test (k : Fin nproc) (l : Fin nthread) -- if(t->state == SLEEPING ..)
  | set (k : Fin nproc) (l : Fin nthread) -- t->state = RUNNABLE
  | unlock (k : Fin nproc) -- release(&p->lock)
  deriving DecidableEq

/-- Code that a thread or an interrupt handler executes with the locks `hs`. -/
inductive Code (π : Type) where
  | out (hs : Finset Nat) (p : π)
  | wake (w : Wake) (t : Target) (hs : Finset Nat) (p : π)
  deriving DecidableEq

/-- Where a thread goes on that holds no lock. -/
inductive Resume (π ι : Type) where
  | go (p : π)
  | relock (i : ι) (p : π)
  deriving DecidableEq

inductive Line (π ι : Type) where
  | code (c : Code π)
  -- sleep, to go on at `p`
  | sleepLock (i : ι) (p : π) -- acquire(&t->proc_parent->lock)
  | sleepUnlock (i : ι) (p : π) -- release(lk)
  | sleepState (i : ι) (p : π) -- t->chan = chan; t->state = SLEEPING
  | sleepSched (i : ι) (p : π) -- sched()
  | slept (i : ι) (p : π) -- t->chan = 0; release(&t->proc_parent->lock)
  | relock (i : ι) (p : π) -- acquire(lk)
  -- yield
  | yieldLock (r : Resume π ι) -- acquire(&t->proc_parent->lock)
  | yieldState (r : Resume π ι) -- t->state = RUNNABLE
  | yieldSched (r : Resume π ι) -- sched()
  | yielded (r : Resume π ι) -- release(&t->proc_parent->lock)
  | forkret (p : π) -- release(&myproc()->lock)
  -- exit
  | exitLock
  | exitSched -- sched()
  | zombieExit -- panic("zombie exit")
  deriving DecidableEq

inductive Saved (π ι : Type) where
  | forkret (p : π)
  | slept (i : ι) (p : π)
  | yielded (r : Resume π ι)
  | zombieExit
  deriving DecidableEq

def Saved.line : Saved π ι → Line π ι
  | .forkret p => .forkret p
  | .slept i p => .slept i p
  | .yielded r => .yielded r
  | .zombieExit => .zombieExit

def Resume.line : Resume π ι → Line π ι
  | .go p => .code (.out ∅ p)
  | .relock i p => .relock i p

/-- What an interrupt has interrupted: the scheduler before it acquires the next lock, or a
thread. -/
inductive Back (π ι : Type) where
  | scan (p : Fin nproc)
  | run (x : Slot) (r : Resume π ι)
  deriving DecidableEq

inductive Loc (π ι : Type) where
  | scan (p : Fin nproc) -- acquire(&p->lock)
  | look (p : Fin nproc) (j : Fin nthread)
  | set (p : Fin nproc) (j : Fin nthread) -- t->state = RUNNING; swtch()
  | unlock (p : Fin nproc) -- release(&p->lock)
  | run (x : Slot) (line : Line π ι)
  | intr (b : Back π ι) (c : Code π)
  deriving DecidableEq

def Back.loc : Back π ι → Loc π ι
  | .scan p => .scan p
  | .run x r => .run x r.line

def Back.me : Back π ι → Option Slot
  | .scan _ => none
  | .run x _ => some x

/-! ### Data -/

/-- Not in the code are the last two fields: the conditions that have become true since their lock
was acquired, and those for which its holder has called `wakeup` since. -/
structure Table (σ π ι : Type) where
  threadState : Slot → ProcState
  chan : Slot → Option Nat
  context : Slot → Saved π ι
  data : σ
  raised : ι → Bool
  woken : ι → Bool

namespace Table

variable (P : Program σ π ι χ) (d : Table σ π ι)

def setThreadState (x : Slot) (state : ProcState) : Table σ π ι :=
  { d with threadState := Function.update d.threadState x state }

def setChan (x : Slot) (chan : Option Nat) : Table σ π ι :=
  { d with chan := Function.update d.chan x chan }

def save (x : Slot) (context : Saved π ι) : Table σ π ι :=
  { d with context := Function.update d.context x context }

def enter (n : Nat) : Table σ π ι :=
  { d with
    raised := fun i => d.raised i && P.lock i ≠ n
    woken := fun i => d.woken i && P.lock i ≠ n }

def store (v : σ) : Table σ π ι :=
  { d with
    data := v
    raised := fun i => d.raised i || !P.cond i d.data && P.cond i v }

def announce (t : Target) (hs : Finset Nat) : Table σ π ι :=
  { d with woken := fun i => d.woken i || t = .chan (P.chan i) && P.lock i ∈ hs }

end Table

/-- The next line, or the program goes on with an input; a timer interrupt; another interrupt, and
its end. -/
inductive Choice (χ : Type) where
  | next
  | op (ch : χ)
  | timer
  | interrupt (ch : χ)
  | iret
  deriving DecidableEq

/-! ### `wakeup` and `kill` -/

def Target.wakes (d : Table σ π ι) (me : Option Slot) (x : Slot) : Target → Bool
  | .chan ch => me ≠ some x ∧ d.threadState x = .sleeping ∧ d.chan x = some ch
  | .kill _ => d.threadState x = .sleeping

/-- The line after `acquire(&p->lock)`: `kill` passes over a process with another `pid`. -/
def Wake.first (k : Fin nproc) : Target → Wake
  | .chan _ => .test k 0
  | .kill q => if q = some k then .test k 0 else .unlock k

/-- The loop over the threads, behind thread `l`. -/
def Wake.testNext (k : Fin nproc) (l : Fin nthread) : Wake :=
  if h : l.val + 1 < nthread then .test k ⟨l + 1, h⟩ else .unlock k

def Wake.lockNext (t : Target) (k : Fin nproc) : Option Wake :=
  if t = .kill (some k) then none
  else if h : k.val + 1 < nproc then some (.lock ⟨k + 1, h⟩) else none

def Wake.instr (d : Table σ π ι) (me : Option Slot) (t : Target) :
    Wake → LockOp LockId × Option Wake × Table σ π ι
  | .lock k => (.acquire (.proc k), some (.first k t), d)
  | .test k l =>
    if t.wakes d me (k, l) then (.none, some (.set k l), d)
    else (.none, some (.testNext k l), d)
  | .set k l => (.none, some (.testNext k l), d.setThreadState (k, l) .runnable)
  | .unlock k => (.release (.proc k), Wake.lockNext t k, d)

/-! ### Threads and handlers -/

variable (P : Program σ π ι χ)

def Code.instr (d : Table σ π ι) (me : Option Slot) :
    Code π → Choice χ → Option (LockOp LockId × Code π × Table σ π ι)
  | .out hs p, .op ch =>
    match P.op d.data p ch with
    -- panic("acquire") and panic("release")
    | some (.acquire n q) =>
      if n ∈ hs then none else some (.acquire (.other n), .out (insert n hs) q, d.enter P n)
    | some (.release n q) =>
      if n ∈ hs then some (.release (.other n), .out (hs.erase n) q, d) else none
    | some (.store v q) => some (.none, .out hs q, d.store P v)
    | some (.wake t q) => some (.none, .wake (.lock 0) t hs q, d)
    | _ => none
  | .wake w t hs p, .next =>
    match w.instr d me t with
    | (op, some w', d') => some (op, .wake w' t hs p, d')
    | (op, none, d') => some (op, .out hs p, d'.announce P t hs)
  | _, _ => none

def Code.leaves (d : Table σ π ι) (x : Slot) (hs : Finset Nat) :
    Op σ π ι → Option (Line π ι × Table σ π ι)
  -- without `lk` or with another lock, `release` or `sched` panics
  | .sleep i q => if hs = {P.lock i} then some (.sleepLock i q, d) else none
  | .mark l q => some (.code (.out hs q), d.setThreadState (x.1, l) .zombie)
  | .exit => if hs = ∅ then some (.exitLock, d) else none
  | _ => none

def sched (d : Table σ π ι) (x : Slot) (context : Saved π ι) :
    Option (LockOp LockId × Option (Line π ι) × Table σ π ι) :=
  -- panic("sched running")
  if d.threadState x = .running then none else some (.none, none, d.save x context)

def Line.instr (d : Table σ π ι) (x : Slot) :
    Line π ι → Choice χ → Option (LockOp LockId × Option (Line π ι) × Table σ π ι)
  | .code (.out hs p), .timer =>
    if hs = ∅ then some (.none, some (.yieldLock (.go p)), d) else none
  | .code (.out hs p), .op ch =>
    match (P.op d.data p ch).bind (Code.leaves P d x hs) with
    | some (line, d') => some (.none, some line, d')
    | none =>
      (Code.instr P d (some x) (.out hs p) (.op ch)).map fun (op, c, d') => (op, some (.code c), d')
  | .code c, .next =>
    (c.instr P d (some x) .next).map fun (op, c', d') => (op, some (.code c'), d')
  | .sleepLock i p, .next => some (.acquire (.proc x.1), some (.sleepUnlock i p), d)
  | .sleepUnlock i p, .next => some (.release (.other (P.lock i)), some (.sleepState i p), d)
  | .sleepState i p, .next =>
    some (.none, some (.sleepSched i p), (d.setChan x (some (P.chan i))).setThreadState x .sleeping)
  | .sleepSched i p, .next => sched d x (.slept i p)
  | .slept i p, .next => some (.release (.proc x.1), some (.relock i p), d.setChan x none)
  | .relock i p, .next =>
    some (.acquire (.other (P.lock i)), some (.code (.out {P.lock i} p)), d.enter P (P.lock i))
  | .relock i p, .timer => some (.none, some (.yieldLock (.relock i p)), d)
  | .yieldLock r, .next => some (.acquire (.proc x.1), some (.yieldState r), d)
  | .yieldState r, .next => some (.none, some (.yieldSched r), d.setThreadState x .runnable)
  | .yieldSched r, .next => sched d x (.yielded r)
  | .yielded r, .next => some (.release (.proc x.1), some r.line, d)
  | .forkret p, .next => some (.release (.proc x.1), some (.code (.out ∅ p)), d)
  | .exitLock, .next => some (.acquire (.proc x.1), some .exitSched, d)
  | .exitSched, .next => sched d x .zombieExit
  | _, _ => none

/-! ### CPUs -/

def Loc.lookNext (p : Fin nproc) (j : Fin nthread) : Loc π ι :=
  if h : j.val + 1 < nthread then .look p ⟨j + 1, h⟩ else .unlock p

def Loc.back : Loc π ι → Option (Back π ι)
  | .scan p => some (.scan p)
  | .run x (.code (.out hs p)) => if hs = ∅ then some (.run x (.go p)) else none
  | .run x (.relock i p) => some (.run x (.relock i p))
  | _ => none

def Loc.instr (d : Table σ π ι) :
    Loc π ι → Choice χ → Option (LockOp LockId × Loc π ι × Table σ π ι)
  | l, .interrupt ch =>
    match l.back, P.intr ch with
    | some b, some p => some (.none, .intr b (.out ∅ p), d)
    | _, _ => none
  | .intr b (.out hs _), .iret => if hs = ∅ then some (.none, b.loc, d) else none
  | .intr b c, ch => (c.instr P d b.me ch).map fun (op, c', d') => (op, .intr b c', d')
  | .scan p, .next => some (.acquire (.proc p), .look p 0, d)
  | .look p j, .next =>
    if d.threadState (p, j) = .runnable then some (.none, .set p j, d)
    else some (.none, .lookNext p j, d)
  | .set p j, .next =>
    some (.none, .run (p, j) (d.context (p, j)).line, d.setThreadState (p, j) .running)
  | .unlock p, .next => some (.release (.proc p), .scan (p + 1), d)
  | .run x line, ch =>
    match line.instr P d x ch with
    | some (op, some line', d') => some (op, .run x line', d')
    | some (op, none, d') => some (op, .lookNext x.1 x.2, d')
    | none => none
  | _, _ => none

def sleepCode : SpinCode LockId (Loc π ι) (Table σ π ι) (Choice χ) where
  instr d l ch := l.instr P d ch

abbrev State (κ σ π ι : Type) := SpinState κ LockId (Loc π ι) (Table σ π ι)

variable {κ : Type}

/-- The thread on a CPU; one that is interrupted is where it goes on. -/
def Loc.on : Loc π ι → Option (Slot × Line π ι)
  | .run x line => some (x, line)
  | .intr (.run x r) _ => some (x, r.line)
  | _ => none

def places (s : State κ σ π ι) : Placement κ Slot (Line π ι) where
  on c := (s.loc c).on
  saved x := (s.data.context x).line

/-- No thread has run yet, and no CPU holds a lock. -/
structure Start (s : State κ σ π ι) : Prop where
  owner : ∀ m, s.owner m = none
  loc : ∀ c, ∃ p, s.loc c = .scan p
  context : ∀ x, ∃ p, s.data.context x = .forkret p

/-! ### Program points -/

def Code.point : Code π → π
  | .out _ p | .wake _ _ _ p => p

def Resume.point : Resume π ι → π
  | .go p | .relock _ p => p

def Line.point : Line π ι → Option π
  | .code c => some c.point
  | .sleepLock _ p | .sleepUnlock _ p | .sleepState _ p | .sleepSched _ p | .slept _ p
  | .relock _ p | .forkret p => some p
  | .yieldLock r | .yieldState r | .yieldSched r | .yielded r => some r.point
  | .exitLock | .exitSched | .zombieExit => none

/-- Where a program goes on after an operation. -/
def Op.next : Op σ π ι → Option π
  | .acquire _ p | .release _ p | .store _ p | .wake _ p | .sleep _ p | .mark _ p => some p
  | .exit => none

def Op.data (v : σ) : Op σ π ι → σ
  | .store v' _ => v'
  | _ => v

/-! ### Lost wakeups -/

/-- The condition for which the thread sleeps or is about to, without its lock. -/
def Line.waits (state : ProcState) : Line π ι → Option ι
  | .sleepState i _ => some i
  | .sleepSched i _ | .slept i _ => if state = .sleeping then some i else none
  | _ => none

def SleepsFor (s : State κ σ π ι) (x : Slot) (i : ι) : Prop :=
  s.data.threadState x = .sleeping ∧ s.data.chan x = some (P.chan i) ∧
    ∃ line, (places s).At x line ∧ line.waits (s.data.threadState x) = some i

/-- While the lock of a condition is free and the condition is true, no thread sleeps for it. -/
def NoLostWakeup (s : State κ σ π ι) : Prop :=
  ∀ x i, SleepsFor P s x i → P.cond i s.data.data = true → s.owner (.other (P.lock i)) ≠ none

def Loc.op (v : σ) : Loc π ι → Choice χ → Option (Finset Nat × Op σ π ι)
  | .run _ (.code (.out hs p)), .op ch | .intr _ (.out hs p), .op ch =>
    (P.op v p ch).map fun op => (hs, op)
  | _, _ => none

/-- The lock that is about to be released, by the program or in `sleep`. -/
def Loc.releases (v : σ) (l : Loc π ι) (ch : Choice χ) : Option Nat :=
  match l.op P v ch, l with
  | some (_, .release n _), _ => some n
  | _, .run _ (.sleepUnlock i _) => some (P.lock i)
  | _, _ => none

/-- With the locks `hs`, `sleep` is called for a false condition, and conditions are made true with
their lock. -/
def Op.Careful (v : σ) (hs : Finset Nat) : Op σ π ι → Prop
  | .sleep i _ => P.cond i v = false
  | .store v' _ => ∀ i, P.cond i v = false → P.cond i v' = true → P.lock i ∈ hs
  | _ => True

/-- **The discipline of a monitor**: conditions are tested and made true with their lock, and
`wakeup` is called before that is released. -/
structure Careful (s : State κ σ π ι) (a : κ × Choice χ) : Prop where
  op : ∀ y ∈ (s.loc a.1).op P s.data.data a.2, y.2.Careful P s.data.data y.1
  release : ∀ n ∈ (s.loc a.1).releases P s.data.data a.2, ∀ i, P.lock i = n →
    s.data.raised i = true → P.cond i s.data.data = true → s.data.woken i = true

instance [Fintype ι] (v : σ) (hs : Finset Nat) (op : Op σ π ι) : Decidable (op.Careful P v hs) := by
  cases op <;> unfold Op.Careful <;> infer_instance

instance [Fintype ι] (s : State κ σ π ι) (a : κ × Choice χ) : Decidable (Careful P s a) :=
  have : Decidable (∀ y ∈ (s.loc a.1).op P s.data.data a.2, y.2.Careful P s.data.data y.1) :=
    Option.decidableForallMem _
  have : Decidable (∀ n ∈ (s.loc a.1).releases P s.data.data a.2, ∀ i, P.lock i = n →
      s.data.raised i = true → P.cond i s.data.data = true → s.data.woken i = true) :=
    Option.decidableForallMem _
  decidable_of_iff (_ ∧ _) ⟨fun h => ⟨h.1, h.2⟩, fun h => ⟨h.op, h.release⟩⟩

end Xv6.Sleep
