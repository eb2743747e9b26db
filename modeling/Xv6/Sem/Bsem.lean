import Mathlib.Algebra.GroupWithZero.Nat
import Mathlib.Data.List.FinRange

/-!
# Binary semaphores (`kernel/proc.c`)

The table `bsems`: `-1` marks a free descriptor, `0` and `1` are the values of an allocated one.
`bsem_down` and `bsem_up` are what they do to the table with `pid_lock`: `bsem_down` sleeps while
the value is `0`, so it has no result there.
-/

namespace Xv6

/-- The number of semaphore descriptors. -/
def maxBsem : Nat := 128

instance : NeZero maxBsem := ⟨by decide⟩

/-- The table of binary semaphores. -/
abbrev Bsems := Fin maxBsem → Int

namespace Bsems

/-- Allocate the first free descriptor, with value 1; `none` is the result `-1`. -/
def bsemAlloc (t : Bsems) : Option (Fin maxBsem) × Bsems :=
  match (List.finRange maxBsem).find? fun i => t i = -1 with
  | some i => (some i, Function.update t i 1)
  | none => (none, t)

/-- Take the semaphore; `none` while its value is 0. -/
def bsemDown (t : Bsems) (i : Fin maxBsem) : Option Bsems :=
  if t i = 0 then none else some (Function.update t i 0)

def bsemUp (t : Bsems) (i : Fin maxBsem) : Bsems := Function.update t i 1

end Bsems

end Xv6
