import Mathlib.Data.List.Basic

/-!
# Stores and lists of writes

A store maps addresses to values.  `applyWrites ws d` performs the writes `ws` in order.  An
address outside of their targets keeps its value (`applyWrites_of_not_mem`); a target has what is
written to it (`applyWrites_eq_of_mem`).
-/

namespace Xv6.Lib

open Function

variable {ι β : Type*} [DecidableEq ι]

/-- The store after the writes `ws`, performed in order. -/
def applyWrites (ws : List (ι × β)) (d : ι → β) : ι → β := ws.foldl (fun d w => update d w.1 w.2) d

@[simp] theorem applyWrites_nil (d : ι → β) : applyWrites [] d = d := rfl

@[simp] theorem applyWrites_cons (w : ι × β) (ws : List (ι × β)) (d : ι → β) :
    applyWrites (w :: ws) d = applyWrites ws (update d w.1 w.2) := rfl

theorem applyWrites_append (ws vs : List (ι × β)) (d : ι → β) :
    applyWrites (ws ++ vs) d = applyWrites vs (applyWrites ws d) :=
  List.foldl_append ..

theorem applyWrites_of_not_mem {ws : List (ι × β)} {x : ι} (h : ∀ w ∈ ws, w.1 ≠ x) (d : ι → β) :
    applyWrites ws d x = d x := by
  induction ws generalizing d with
  | nil => rfl
  | cons w ws ih =>
    rw [applyWrites_cons, ih (fun v hv => h v (List.mem_cons_of_mem _ hv)),
      update_of_ne (h w List.mem_cons_self).symm]

/-- When all writes to `x` store the same value and there is one, `x` ends with that value. -/
theorem applyWrites_eq_of_mem {ws : List (ι × β)} {x : ι} {v : β}
    (hmem : ∃ w ∈ ws, w.1 = x) (hval : ∀ w ∈ ws, w.1 = x → w.2 = v) (d : ι → β) :
    applyWrites ws d x = v := by
  induction ws generalizing d with
  | nil => obtain ⟨w, hw, -⟩ := hmem; exact absurd hw List.not_mem_nil
  | cons w ws ih =>
    rw [applyWrites_cons]
    by_cases hrest : ∃ u ∈ ws, u.1 = x
    · exact ih hrest (fun u hu => hval u (List.mem_cons_of_mem _ hu)) _
    rw [applyWrites_of_not_mem (fun u hu hx => hrest ⟨u, hu, hx⟩)]
    obtain ⟨u, hu, hux⟩ := hmem
    rcases List.mem_cons.mp hu with rfl | hu
    · rw [← hux, update_self]
      exact hval u List.mem_cons_self hux
    · exact absurd ⟨u, hu, hux⟩ hrest

end Xv6.Lib
