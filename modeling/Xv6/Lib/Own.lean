import Mathlib.Algebra.Notation.Defs
import Mathlib.Logic.Function.Basic
import Mathlib.Tactic.SplitIfs

/-!
# Cells with one owner each

References `ρ` hold addresses `β`, of which `0` stands for none.  `Owns R addr used` says that the
used cells of a region are those that a reference holds, that no cell has two, and that the reserved
cells are used.  Allocating a free cell (`Owns.alloc`) and freeing one (`Owns.free`) keep this.
-/

namespace Xv6.Lib

open Function

structure Region (β : Type*) [Zero β] where
  data : β → Prop
  reserved : β → Prop
  apart : ∀ b, reserved b → ¬data b
  zero : ¬data 0

structure Owns {ρ β : Type*} [Zero β] (R : Region β) (addr : ρ → β) (used : β → Bool) : Prop where
  inside : ∀ r, addr r ≠ 0 → R.data (addr r)
  once : ∀ r r', addr r ≠ 0 → addr r = addr r' → r = r'
  used_iff : ∀ b, R.data b → (used b = true ↔ ∃ r, addr r = b)
  reserved : ∀ b, R.reserved b → used b = true

namespace Owns

variable {ρ β : Type*} [Zero β] {R : Region β} {addr : ρ → β} {used : β → Bool} {r : ρ} {b : β}

theorem used_of_ne_zero (h : Owns R addr used) (hr : addr r ≠ 0) : used (addr r) = true :=
  (h.used_iff _ (h.inside r hr)).mpr ⟨r, rfl⟩

theorem ne_of_free (h : Owns R addr used) (hb : R.data b) (hfree : used b = false) (r : ρ) :
    addr r ≠ b := by
  intro hr
  have hused := (h.used_iff b hb).mpr ⟨r, hr⟩
  cases hfree.symm.trans hused

theorem ne_zero (_ : Owns R addr used) (hb : R.data b) : b ≠ 0 := by
  rintro rfl
  exact R.zero hb

variable [DecidableEq ρ] [DecidableEq β]

theorem alloc (h : Owns R addr used) (hr : addr r = 0) (hb : R.data b) (hfree : used b = false) :
    Owns R (update addr r b) (update used b true) where
  inside r' hr' := by
    rw [update_apply] at hr' ⊢
    split_ifs at hr' ⊢
    · exact hb
    · exact h.inside r' hr'
  once r₁ r₂ h₁ heq := by
    have hnot := h.ne_of_free hb hfree
    rw [update_apply, update_apply] at heq
    rw [update_apply] at h₁
    split_ifs at heq h₁ with hr₁ hr₂ hr₂
    · exact hr₁.trans hr₂.symm
    · exact absurd heq.symm (hnot r₂)
    · exact absurd heq (hnot r₁)
    · exact h.once r₁ r₂ h₁ heq
  used_iff b' hb' := by
    by_cases hbb : b' = b
    · rw [hbb, update_self]
      exact iff_of_true rfl ⟨r, update_self ..⟩
    rw [update_of_ne hbb, h.used_iff b' hb']
    constructor
    · rintro ⟨r', rfl⟩
      refine ⟨r', update_of_ne ?_ _ _⟩
      rintro rfl
      rw [hr] at hb'
      exact R.zero hb'
    · rintro ⟨r', hr'⟩
      rw [update_apply] at hr'
      split_ifs at hr'
      · exact absurd hr'.symm hbb
      · exact ⟨r', hr'⟩
  reserved b' hb' := by
    rw [update_apply]
    split_ifs
    · rfl
    · exact h.reserved b' hb'

theorem free (h : Owns R addr used) (hr : addr r ≠ 0) :
    Owns R (update addr r 0) (update used (addr r) false) where
  inside r' hr' := by
    rw [update_apply] at hr' ⊢
    split_ifs at hr' ⊢
    · exact absurd rfl hr'
    · exact h.inside r' hr'
  once r₁ r₂ h₁ heq := by
    rw [update_apply] at h₁
    split_ifs at h₁ with hr₁
    · exact absurd rfl h₁
    · rw [update_of_ne hr₁, update_apply] at heq
      split_ifs at heq
      · exact absurd heq h₁
      · exact h.once r₁ r₂ h₁ heq
  used_iff b' hb' := by
    by_cases hbb : b' = addr r
    · rw [hbb, update_self]
      refine iff_of_false nofun ?_
      rintro ⟨r', hr'⟩
      rw [update_apply] at hr'
      split_ifs at hr' with hrr
      · exact hr hr'.symm
      · exact hrr (h.once r r' hr hr'.symm).symm
    · rw [update_of_ne hbb, h.used_iff b' hb']
      constructor
      · rintro ⟨r', rfl⟩
        refine ⟨r', update_of_ne ?_ _ _⟩
        rintro rfl
        exact hbb rfl
      · rintro ⟨r', hr'⟩
        rw [update_apply] at hr'
        split_ifs at hr'
        · rw [← hr'] at hb'
          exact absurd hb' R.zero
        · exact ⟨r', hr'⟩
  reserved b' hb' := by
    rw [update_of_ne]
    · exact h.reserved b' hb'
    · rintro rfl
      exact R.apart _ hb' (h.inside r hr)

end Owns

end Xv6.Lib
