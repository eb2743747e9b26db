import Mathlib.Algebra.Order.BigOperators.Group.Finset
import Mathlib.Data.Fintype.BigOperators

/-!
# Sums that differ in one place
-/

namespace Xv6.Lib

open Finset

variable {ι : Type*} [Fintype ι] [DecidableEq ι]

/-- Two functions that agree away from `i` have sums that differ as they do at `i`. -/
theorem sum_add_eq_of_agree {f g : ι → Nat} {i : ι} (h : ∀ j, j ≠ i → g j = f j) :
    ∑ j, g j + f i = ∑ j, f j + g i := by
  have herase : ∑ j ∈ Finset.univ.erase i, g j = ∑ j ∈ Finset.univ.erase i, f j :=
    sum_congr rfl fun j hj => h j (ne_of_mem_erase hj)
  rw [← add_sum_erase _ g (mem_univ i),
    ← add_sum_erase _ f (mem_univ i), herase]
  omega

omit [DecidableEq ι] in
theorem le_sum (f : ι → Nat) (i : ι) : f i ≤ ∑ j, f j :=
  single_le_sum (fun _ _ => Nat.zero_le _) (mem_univ i)

theorem add_le_sum (f : ι → Nat) {i j : ι} (h : i ≠ j) : f i + f j ≤ ∑ k, f k := by
  rw [← sum_pair h]
  exact sum_le_sum_of_subset (subset_univ _)

end Xv6.Lib
