import Mathlib.Data.Fintype.Card
import Xv6.Bio.Cache
import Xv6.Lib.Circle

/-!
# The list of the buffer cache (`kernel/bio.c`)

The buffers with their `prev` and `next` pointers, under threads `θ` that call `bread`, `brelse`,
`bpin` and `bunpin`. What happens under `bcache.lock` is one step; a thread in `bget` then waits for
the sleep-lock of its buffer, and one in `brelse` has given it back before it acquires
`bcache.lock`.

`refcnt` has no bound: there are fewer than `2 ^ 32` threads and pins. `pins` is not in the code:
how often `bpin` was called without `bunpin`. `bget` without a buffer to recycle panics and has no
successor.
-/

namespace Xv6.Lru

open Lib Bcache
open Function (update)

inductive Node where
  | head
  | buf (i : BufId)
  deriving DecidableEq

/-- `struct buf`, but for its list and its data. -/
structure Buf where
  dev : BitVec 32
  blockno : BitVec 32
  refcnt : Nat
  deriving DecidableEq

structure State (θ : Type) where
  buf : BufId → Buf
  links : Links Node
  -- b->lock
  holder : BufId → Option θ
  -- the thread waits in acquiresleep(&b->lock), or is in brelse(b) behind releasesleep(&b->lock)
  waits : θ → Option BufId
  leaves : θ → Option BufId
  pins : BufId → Nat

variable {θ : Type}

namespace State

variable (s : State θ)

def setBuf (i : BufId) (b : Buf) : State θ := { s with buf := update s.buf i b }

def at? (p : Buf → Bool) : Node → Bool
  | .head => false
  | .buf i => p (s.buf i)

/-- `for(b = bcache.head.next; b != &bcache.head; b = b->next)`, and the same along `prev`. -/
def find (f : Node → Node) (p : Buf → Bool) : Option (Option Node) :=
  Links.scan f (s.at? p) .head (nbuf + 1) (f .head)

def bget (dev blockno : BitVec 32) : Option (BufId × State θ) :=
  match s.find s.links.next fun b => b.dev = dev ∧ b.blockno = blockno with
  | some (some (.buf i)) =>
    some (i, s.setBuf i { s.buf i with refcnt := (s.buf i).refcnt + 1 })
  | some _ =>
    match s.find s.links.prev fun b => b.refcnt = 0 with
    | some (some (.buf i)) => some (i, s.setBuf i ⟨dev, blockno, 1⟩)
    | _ => none -- panic("bget: no buffers")
  | none => none

def putBack (i : BufId) : State θ :=
  let s := s.setBuf i { s.buf i with refcnt := (s.buf i).refcnt - 1 }
  if (s.buf i).refcnt = 0 then
    { s with links := (s.links.unlink (.buf i)).link .head (.buf i) }
  else s

def bpin (i : BufId) : State θ :=
  { s.setBuf i { s.buf i with refcnt := (s.buf i).refcnt + 1 } with
    pins := update s.pins i (s.pins i + 1) }

def bunpin (i : BufId) : State θ :=
  { s.setBuf i { s.buf i with refcnt := (s.buf i).refcnt - 1 } with
    pins := update s.pins i (s.pins i - 1) }

end State

inductive Act (θ : Type) where
  | bget (t : θ) (dev blockno : BitVec 32) -- bread, in bget
  | lock (t : θ) -- acquiresleep(&b->lock)
  | brelse (t : θ) (i : BufId) -- releasesleep(&b->lock)
  | putBack (t : θ) -- the rest of brelse
  | bpin (i : BufId)
  | bunpin (i : BufId)

variable [DecidableEq θ]

def State.Free (s : State θ) (t : θ) : Prop := s.waits t = none ∧ s.leaves t = none

instance (s : State θ) (t : θ) : Decidable (s.Free t) := inferInstanceAs (Decidable (_ ∧ _))

def lruMachine (θ : Type) [DecidableEq θ] : Machine (State θ) (Act θ) where
  step s a :=
    match a with
    | .bget t dev blockno =>
      if s.Free t then
        (s.bget dev blockno).map fun (i, s') =>
          { s' with waits := update s.waits t (some i) }
      else none
    | .lock t =>
      match s.waits t with
      | some i =>
        if s.holder i = none then
          some { s with
            holder := update s.holder i (some t)
            waits := update s.waits t none }
        else none
      | none => none
    | .brelse t i =>
      -- panic("brelse")
      if s.Free t ∧ s.holder i = some t then
        some { s with
          holder := update s.holder i none
          leaves := update s.leaves t (some i) }
      else none
    | .putBack t =>
      match s.leaves t with
      | some i => some { s.putBack i with leaves := update s.leaves t none }
      | none => none
    | .bpin i => some (s.bpin i)
    | .bunpin i => if s.pins i ≠ 0 then some (s.bunpin i) else none

def binit : Links Node :=
  (List.finRange nbuf).foldl (fun L i => L.link .head (.buf i)) ⟨fun _ => .head, fun _ => .head⟩

/-- After `binit`; the other fields are as they were zeroed. -/
structure Init (s : State θ) : Prop where
  links : s.links = binit
  buf : ∀ i, s.buf i = ⟨0, 0, 0⟩
  holder : ∀ i, s.holder i = none
  waits : ∀ t, s.waits t = none
  leaves : ∀ t, s.leaves t = none
  pins : ∀ i, s.pins i = 0

/-! ### The list and the counts -/

/-- The threads that hold the buffer, wait for it or have not given their reference back, and the
pins. -/
def State.uses [Fintype θ] (s : State θ) (i : BufId) : Nat :=
  (if s.holder i = none then 0 else 1) + (Finset.univ.filter fun t => s.waits t = some i).card +
    (Finset.univ.filter fun t => s.leaves t = some i).card + s.pins i

/-- **The buffer cache**: a circular list with every buffer once, one buffer for a block, and the
counts. -/
structure CacheOk [Fintype θ] (s : State θ) : Prop where
  list : ∃ xs : List BufId, s.links.Circle .head (xs.map .buf) ∧ ∀ i, i ∈ xs
  unique : ∀ i j, (s.buf i).dev ≠ 0 → (s.buf i).dev = (s.buf j).dev →
    (s.buf i).blockno = (s.buf j).blockno → i = j
  refcnt : ∀ i, (s.buf i).refcnt = s.uses i

/-- **Buffers in use keep their block**. -/
def Keeps (s s' : State θ) : Prop :=
  ∀ i, (s.buf i).refcnt ≠ 0 → (s'.buf i).dev = (s.buf i).dev ∧ (s'.buf i).blockno = (s.buf i).blockno

end Xv6.Lru
