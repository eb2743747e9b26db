import Xv6.Sem.Bsem
import Xv6.Sleep.Code

/-!
# Binary semaphores under threads (`kernel/proc.c`, `kernel/sysproc.c`)

`bsem_alloc`, `bsem_free`, `bsem_down` and `bsem_up` as the program of any number of threads that
sleep on `&chanel` with `pid_lock` and wake each other up. The descriptor is any `int`: what lies at
`bsems[i]` for an `i` outside of the table is other memory of the kernel.

What a call does to the table with `pid_lock` is one operation. Not in the code are `live` (the
descriptors that `bsem_alloc` has returned and `bsem_free` has not been called for), and `downs` and
`ups` (how often the semaphore was taken and released since `bsem_alloc`).
-/

namespace Xv6.Sem

open Lib Sleep
open Function (update)

/-- The words at `bsems[i]`, and what has been done to the semaphores. -/
structure Sems where
  bsems : Int → Int
  live : Int → Bool
  downs : Int → Nat
  ups : Int → Nat

def InTable (i : Int) : Prop := 0 ≤ i ∧ i < maxBsem

instance (i : Int) : Decidable (InTable i) := inferInstanceAs (Decidable (_ ∧ _))

namespace Sems

variable (v : Sems)

def table : Bsems := fun i => v.bsems i

def alloc : Sems :=
  match v.table.bsemAlloc.1 with
  | some i =>
    { bsems := update v.bsems i 1
      live := update v.live i true
      downs := update v.downs i 0
      ups := update v.ups i 0 }
  | none => v

def free (i : Int) : Sems :=
  { v with
    bsems := update v.bsems i (-1)
    live := update v.live i false }

def down (i : Int) : Sems :=
  { v with
    bsems := update v.bsems i 0
    downs := update v.downs i (v.downs i + 1) }

def up (i : Int) : Sems :=
  { v with
    bsems := update v.bsems i 1
    ups := update v.ups i (v.ups i + 1) }

end Sems

inductive Point where
  | user
  | alloc -- acquire(&pid_lock)
  | allocScan -- for (int i = 0; i < MAX_BSEM; i++)
  | free (i : Int) -- acquire(&pid_lock)
  | freeSet (i : Int) -- bsems[i] = -1
  | down (i : Int) -- acquire(&pid_lock)
  | downTest (i : Int) -- while(bsems[i] == 0); bsems[i] = 0
  | up (i : Int) -- acquire(&pid_lock)
  | upSet (i : Int) -- bsems[i] = 1
  | upWake (i : Int) -- wakeup(&chanel)
  | unlock -- release(&pid_lock)
  deriving DecidableEq

inductive Syscall where
  | alloc
  | free (i : Int)
  | down (i : Int)
  | up (i : Int)
  | kill (k : Option (Fin nproc))
  deriving DecidableEq

inductive Input where
  | next
  | call (c : Syscall)
  deriving DecidableEq

def pidLock : Nat := 0
def chanel : Nat := 0

def Syscall.op (v : Sems) : Syscall → Op Sems Point Int
  | .alloc => .store v .alloc
  | .free i => .store v (.free i)
  | .down i => .store v (.down i)
  | .up i => .store v (.up i)
  | .kill k => .wake (.kill k) .user

def Point.op (v : Sems) : Point → Input → Option (Op Sems Point Int)
  | .user, .call c => some (c.op v)
  | .alloc, .next => some (.acquire pidLock .allocScan)
  | .allocScan, .next => some (.store v.alloc .unlock)
  | .free i, .next => some (.acquire pidLock (.freeSet i))
  | .freeSet i, .next => some (.store (v.free i) .unlock)
  | .down i, .next => some (.acquire pidLock (.downTest i))
  | .downTest i, .next =>
    if v.bsems i = 0 then some (.sleep i (.downTest i)) else some (.store (v.down i) .unlock)
  | .up i, .next => some (.acquire pidLock (.upSet i))
  | .upSet i, .next => some (.store (v.up i) (.upWake i))
  | .upWake _, .next => some (.wake (.chan chanel) .unlock)
  | .unlock, .next => some (.release pidLock .user)
  | _, _ => none

def bsemProgram : Program Sems Point Int Input where
  lock _ := pidLock
  chan _ := chanel
  cond i v := v.bsems i = 1
  op := Point.op
  intr _ := none

abbrev State (κ : Type) := Sleep.State κ Sems Point Int

variable {κ : Type}

/-- No thread has run yet, all are in user space, and no semaphore is allocated. -/
structure Start (s : State κ) : Prop where
  start : Sleep.Start s
  user : ∀ x, s.data.context x = .forkret .user
  bsems : ∀ i, InTable i → s.data.data.bsems i = -1
  live : ∀ i, s.data.data.live i = false
  downs : ∀ i, s.data.data.downs i = 0

/-! ### Calls -/

/-- The descriptor of the call that a thread is in, until it has made its store. -/
def Point.on : Point → Option Int
  | .free i | .freeSet i | .down i | .downTest i | .up i | .upSet i => some i
  | _ => none

def Syscall.on : Syscall → Option Int
  | .free i | .down i | .up i => some i
  | _ => none

def Point.frees : Point → Bool
  | .free _ | .freeSet _ => true
  | _ => false

def Syscall.frees : Syscall → Bool
  | .free _ => true
  | _ => false

def callOf (l : Loc Point Int) (ch : Choice Input) : Option Syscall :=
  match l, ch with
  | .run _ (.code (.out _ .user)), .op (.call c) => some c
  | _, _ => none

def freesOn (l : Loc Point Int) : Option (Slot × Int) :=
  match l with
  | .run x (.code (.out _ (.freeSet i))) => some (x, i)
  | _ => none

/-- Calls on a descriptor start after the `bsem_alloc` that returned it and before its
`bsem_free`. -/
def Known (s : State κ) (a : κ × Choice Input) : Prop :=
  ∀ c ∈ callOf (s.loc a.1) a.2, ∀ i ∈ c.on, s.data.data.live i = true

/-- The calls of `bsem_down` and `bsem_up` do so. -/
def Paired (s : State κ) (a : κ × Choice Input) : Prop :=
  ∀ c ∈ callOf (s.loc a.1) a.2, c.frees = false → ∀ i ∈ c.on, s.data.data.live i = true

/-- When `bsem_free(i)` makes its store no other call on `i` is in progress. -/
def Alone (s : State κ) (a : κ × Choice Input) : Prop :=
  ∀ y ∈ freesOn (s.loc a.1), ∀ z, z ≠ y.1 → ∀ line, (places s).At z line →
    ∀ p ∈ line.point, p.on ≠ some y.2

instance (s : State κ) (a : κ × Choice Input) : Decidable (Known s a) :=
  have (c : Syscall) : Decidable (∀ i ∈ c.on, s.data.data.live i = true) :=
    Option.decidableForallMem _
  Option.decidableForallMem _

instance (s : State κ) (a : κ × Choice Input) : Decidable (Paired s a) :=
  have (c : Syscall) : Decidable (∀ i ∈ c.on, s.data.data.live i = true) :=
    Option.decidableForallMem _
  Option.decidableForallMem _

instance [Fintype κ] (s : State κ) (a : κ × Choice Input) : Decidable (Alone s a) :=
  have : ∀ (y : Slot × Int) (line : Line Point Int), Decidable (∀ p ∈ line.point, p.on ≠ some y.2) :=
    fun _ _ => Option.decidableForallMem _
  Option.decidableForallMem _

/-- What the threads keep to when they use semaphores. -/
structure Orderly (s : State κ) (a : κ × Choice Input) : Prop where
  paired : Paired s a
  alone : Alone s a

structure Strict (s : State κ) (a : κ × Choice Input) : Prop where
  known : Known s a
  alone : Alone s a

instance [Fintype κ] (s : State κ) (a : κ × Choice Input) : Decidable (Orderly s a) :=
  decidable_of_iff (Paired s a ∧ Alone s a) ⟨fun h => ⟨h.1, h.2⟩, fun h => ⟨h.paired, h.alone⟩⟩

instance [Fintype κ] (s : State κ) (a : κ × Choice Input) : Decidable (Strict s a) :=
  decidable_of_iff (Known s a ∧ Alone s a) ⟨fun h => ⟨h.1, h.2⟩, fun h => ⟨h.known, h.alone⟩⟩

/-! ### Values and wakeups -/

/-- **Binary semaphores**: an allocated one is 0 or 1, was taken at most once more often than
released, and no thread sleeps in `bsem_down` while it is 1 and `pid_lock` is free. -/
structure BsemOk (s : State κ) : Prop where
  value : ∀ i, s.data.data.live i = true → s.data.data.bsems i = 0 ∨ s.data.data.bsems i = 1
  count : ∀ i, s.data.data.downs i ≤ 1 + s.data.data.ups i
  awake : ∀ x i, SleepsFor bsemProgram s x i → s.data.data.bsems i = 1 →
    s.owner (.other pidLock) ≠ none

/-- The entry that a CPU is about to read or write. -/
def touches (l : Loc Point Int) : Option Int :=
  match l with
  | .run _ (.code (.out _ (.freeSet i))) | .run _ (.code (.out _ (.downTest i)))
  | .run _ (.code (.out _ (.upSet i))) => some i
  | _ => none

/-- **Descriptors**: a step uses entries of the table only and changes none that is not allocated;
`bsem_alloc` alone allocates, and finds what was freed. -/
structure DescriptorOk (s s' : State κ) (c : κ) : Prop where
  range : ∀ i ∈ touches (s.loc c), InTable i
  invalid : ∀ i ∈ touches (s.loc c), ¬ InTable i ∨ s.data.data.bsems i = -1 →
    s'.data.data.bsems = s.data.data.bsems
  leaves : ∀ i, s.data.data.bsems i = -1 → s'.data.data.bsems i ≠ -1 →
    ∃ x hs, s.loc c = .run x (.code (.out hs .allocScan))
  again : ∀ i, InTable i → s.data.data.live i = false →
    s.data.data.bsems i = -1 ∧ s.data.data.table.bsemAlloc.1 ≠ none

end Xv6.Sem
