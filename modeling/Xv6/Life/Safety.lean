import Mathlib.Data.Fintype.Prod
import Xv6.Life.Code

/-!
# What the system keeps safe

* `Dead`: no thread of a dead process runs.
* `NoOrphan`: a sleep-lock that is locked was acquired by a live thread.
* `NoLostChild`: no thread sleeps in `wait` while its process has a dead child.
* `TreeOk`: the parent of a process is the one that forked it, or `initproc`, and `wait` frees no
  other process's children.

`exit` stores `ZOMBIE` to the states of all threads of its process, wherever they are: under
`MarksOnly p`, to a sibling only while that is `Still` and at a line where `p` holds.  Under
`HandsOver`, `reparent` gives a dead child to `initproc` only when that will see it.
-/

namespace Xv6.Life

open Lib

variable {κ : Type*}

/-! ### Marking siblings -/

/-- `exit` marks a sibling only when that is still, and at a line with `p`. -/
structure MarksOnly (p : Line → Prop) (s : State κ) (a : κ × Choice) : Prop where
  still : Still s a
  place : ∀ y, (s.loc a.1).marks = some y → ∀ line, (places s).At y line → p line

instance [Fintype κ] (s : State κ) (a : κ × Choice) : Decidable (Still s a) :=
  Option.decidableForallMem (s.loc a.1).marks

instance [Fintype κ] (p : Line → Prop) [DecidablePred p] (s : State κ) (a : κ × Choice) :
    Decidable (MarksOnly p s a) :=
  have : Decidable (∀ y, (s.loc a.1).marks = some y → ∀ line, (places s).At y line → p line) :=
    Option.decidableForallMem (s.loc a.1).marks
  decidable_of_iff (Still s a ∧ ∀ y, (s.loc a.1).marks = some y →
    ∀ line, (places s).At y line → p line) ⟨fun h => ⟨h.1, h.2⟩, fun h => ⟨h.still, h.place⟩⟩

/-! ### Dead processes -/

/-- The lines that the last thread of a process comes to after `exit` has made it `ZOMBIE`. -/
def Line.dying : Line → Bool
  | .exitUnlock | .exitSched => true
  | _ => false

/-- No thread of the process is on a CPU, but for the one that leaves it in `exit`, none will be
put on one, and none is on one when `wait` frees the process. -/
structure Dead (p : Fin nproc) (s : State κ) : Prop where
  loc : ∀ c j line, s.loc c = .run (p, j) line → line.dying = true
  threads : ∀ j, s.data.threadState (p, j) ≠ .runnable ∧ s.data.threadState (p, j) ≠ .running
  free : ∀ c x, s.loc c = .run x (.waitFree p) → ∀ c' j line, s.loc c' ≠ .run (p, j) line

/-! ### Sleep-locks -/

/-- The sleep-locks that a thread holds. -/
def Entry.hs : Entry → Finset Nat
  | .fs hs | .lock _ hs | .block _ _ hs | .signal _ _ hs => hs
  | .unlock n hs => insert n hs
  | _ => ∅

@[inherit_doc Entry.hs]
def Sleep.hs : Sleep → Finset Nat
  | .wait => ∅
  | .lock _ hs | .block _ _ hs => hs

@[inherit_doc Entry.hs]
def Ret.hs : Ret → Finset Nat
  | .unlock _ hs | .signal _ hs => hs
  | .resume e => e.hs
  | _ => ∅

@[inherit_doc Entry.hs]
def Line.hs : Line → Finset Nat
  | .out e | .yieldLock e | .yieldState e | .yieldSched e | .yielded e => e.hs
  | .wakeup _ _ ret => ret.hs
  | .lockTest _ hs | .sleepLockDone _ hs | .blocked _ _ hs | .signalled _ hs => hs
  | .unlockSet n hs => insert n hs
  | .sleepLock sl | .sleepUnlock sl | .sleepState sl | .sleepSched sl | .slept sl => sl.hs
  | _ => ∅

/-- A sleep-lock that is locked was acquired by a thread that is neither `ZOMBIE` nor `UNUSED`. -/
def NoOrphan (s : State κ) : Prop :=
  ∀ n, s.data.locked n = true → ∃ x, s.data.holder n = some x ∧ alive (s.data.threadState x)

/-! ### Waiting parents -/

/-- Whether a thread at the line, with that state, sleeps in `wait` or is about to, without
`wait_lock`. -/
def Line.waits (state : ProcState) : Line → Bool
  | .sleepState .wait => true
  | .sleepSched .wait | .slept .wait => state = .sleeping
  | _ => false

def Waits (s : State κ) (x : Slot) : Prop :=
  ∃ line, (places s).At x line ∧ line.waits (s.data.threadState x) = true

/-- While `wait_lock` is free, a thread that is `SLEEPING` in `wait` has no `ZOMBIE` child. -/
def NoLostChild (s : State κ) : Prop :=
  s.owner .wait = none → ∀ x, s.data.threadState x = .sleeping → Waits s x →
    ∀ k, s.data.parent k = some x.1 → s.data.procState k ≠ .zombie

/-- `reparent` is about to give `initproc` a dead child, of a process that is not its own child. -/
def Loc.handsDead (d : Table) : Loc → Bool
  | .run x (.reparent k) =>
    d.parent k = some x.1 ∧ d.procState k = .zombie ∧ d.parent x.1 ≠ some initproc
  | _ => false

/-- No thread of `initproc` then sleeps in `wait` or is about to; siblings are marked only when
still. -/
structure HandsOver (s : State κ) (a : κ × Choice) : Prop where
  still : Still s a
  awake : (s.loc a.1).handsDead s.data = true → ∀ j line, (places s).At (initproc, j) line →
    line.waits (s.data.threadState (initproc, j)) = false

instance [Fintype κ] (s : State κ) (a : κ × Choice) : Decidable (HandsOver s a) :=
  decidable_of_iff (Still s a ∧ ((s.loc a.1).handsDead s.data = true →
      ∀ j line, (places s).At (initproc, j) line →
        line.waits (s.data.threadState (initproc, j)) = false))
    ⟨fun h => ⟨h.1, h.2⟩, fun h => ⟨h.still, h.awake⟩⟩

/-! ### The tree -/

def Entry.inFork : Entry → Bool
  | .alloc _ | .link _ | .start _ => true
  | _ => false

def Line.inFork : Line → Bool
  | .out e | .wakeup _ _ (.resume e) | .yieldLock e | .yieldState e | .yieldSched e | .yielded e =>
    e.inFork
  | .allocTest _ | .setup _ | .failed _ | .setupUnlock _ | .setParent _ | .linkUnlock _
  | .startState _ | .startUnlock _ => true
  | _ => false

def Entry.linking : Entry → Option (Fin nproc)
  | .link k => some k
  | _ => none

def Line.linking : Line → Option (Fin nproc)
  | .out e | .wakeup _ _ (.resume e) | .yieldLock e | .yieldState e | .yieldSched e | .yielded e =>
    e.linking
  | .setup k | .setupUnlock k | .setParent k => some k
  | _ => none

/-- The parent of process `k` is in use, and is the process that forked `k` or `initproc`. -/
def Linked (d : Table) (k : Fin nproc) : Prop :=
  ∃ q, d.parent k = some q ∧ d.procState q ≠ .unused ∧
    (q = initproc ∨ d.forker k = some (q, d.gen q))

def NoFork (s : State κ) : Prop :=
  ∀ x, alive (s.data.threadState x) → ∀ line, (places s).At x line → line.inFork = false

instance [Fintype κ] (s : State κ) : Decidable (NoFork s) :=
  inferInstanceAs (Decidable (∀ x, alive (s.data.threadState x) →
    ∀ line, (places s).At x line → line.inFork = false))

/-- While no live thread is inside `fork` every process is linked and was started; `wait` frees only
processes that its own process forked or, being `initproc`, has inherited. -/
structure TreeOk (s : State κ) : Prop where
  linked : NoFork s → ∀ k, k ≠ initproc → s.data.procState k ≠ .unused → Linked s.data k
  started : NoFork s → ∀ x, s.data.threadState x ≠ .used
  reaps : ∀ c x k, s.loc c = .run x (.waitFree k) →
    x.1 = initproc ∨ s.data.forker k = some (x.1, s.data.gen x.1)

/-! ### A small system -/

/-- `initproc`, its child 3, a child 2 of that with two threads, and a child 1 of that. -/
def family : State Unit where
  owner _ := none
  loc _ := .scan 0
  data :=
    { procState := fun p => if p.val < 4 then .used else .unused
      parent := familyParent
      threadState := fun x =>
        if x.1.val < 4 ∧ x.2.val = 0 ∨ x.1 = 2 ∧ x.2 = 1 then .runnable else .unused
      chan := fun _ => none
      context := fun _ => .forkret
      mainThread := 0
      locked := fun _ => false
      holder := fun _ => none
      gen := fun _ => 0
      forker := fun k => (familyParent k).map fun q => (q, 0) }
where
  familyParent (k : Fin nproc) : Option (Fin nproc) :=
    if k = 1 then some 2 else if k = 2 then some 3 else if k = 3 then some initproc else none

def nexts (n : Nat) : List (Unit × Choice) := List.replicate n ((), .next)

def calls (cs : List Syscall) : List (Unit × Choice) := cs.map fun c => ((), .call c)

def yields : List (Unit × Choice) := nexts 4 ++ [((), .timer)] ++ nexts 11

end Xv6.Life
