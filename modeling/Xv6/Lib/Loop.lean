import Mathlib.Data.List.FinRange

/-!
# Loops over an index

A loop `for (i = 0; i < n; i++)` over a state is a fold over `List.finRange n`;
`foldl_finRange_invariant` is its invariant rule.
-/

namespace Xv6.Lib

/-- **Invariant of a counting loop**: what holds at the start and is carried by each iteration from
`i` to `i + 1` holds at the end with `n`. -/
theorem foldl_finRange_invariant {α : Type*} {n : Nat} {f : α → Fin n → α} {P : Nat → α → Prop}
    {a : α} (h0 : P 0 a) (hstep : ∀ (i : Fin n) (x : α), P i x → P (i + 1) (f x i)) :
    P n ((List.finRange n).foldl f a) := by
  induction n with
  | zero => exact h0
  | succ n ih =>
    rw [List.finRange_succ_last, List.foldl_append, List.foldl_map]
    exact hstep (Fin.last n) _ (ih fun i x hx => hstep i.castSucc x hx)

/-- The same for a loop that may stop without a result. -/
theorem foldlM_finRange_invariant {α : Type*} {n : Nat} {f : α → Fin n → Option α}
    {P : Nat → α → Prop} {a a' : α} (h0 : P 0 a)
    (hstep : ∀ (i : Fin n) (x y : α), P i x → f x i = some y → P (i + 1) y)
    (hrun : (List.finRange n).foldlM f a = some a') : P n a' := by
  induction n generalizing a' with
  | zero =>
    cases hrun
    exact h0
  | succ n ih =>
    rw [List.finRange_succ_last, List.foldlM_append] at hrun
    obtain ⟨x, hx, hlast⟩ := Option.bind_eq_some_iff.mp hrun
    rw [List.foldlM_map] at hx
    rw [List.foldlM_cons] at hlast
    obtain ⟨y, hy, hpure⟩ := Option.bind_eq_some_iff.mp hlast
    obtain rfl := Option.some.inj hpure
    exact hstep (Fin.last n) x y (ih (fun i x y hx => hstep i.castSucc x y hx) hx) hy

end Xv6.Lib
