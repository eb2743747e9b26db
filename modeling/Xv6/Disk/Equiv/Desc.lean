import Mathlib.Data.List.FinRange
import Xv6.Disk.Virtio

/-!
# Descriptors of the disk

`alloc3_desc` takes three free descriptors or none (`alloc3Desc_cases`); a formatted chain is freed
whole (`finish_linked`).
-/

namespace Xv6.Virtio

open Lib Function

variable {β : Type} {d d' : Disk β} {b : β} {c : Chain} {i : Fin num}

/-! ### Allocation -/

theorem allocDesc_some (h : d.allocDesc = (some i, d')) : d.free i = true ∧ d' = d.setFree i false
    := by
  unfold Disk.allocDesc at h
  split at h
  case h_1 x hx =>
    obtain ⟨hi, hd⟩ := Prod.mk.inj h
    cases hi
    exact ⟨List.find?_some hx, hd.symm⟩
  case h_2 => cases h

theorem allocDesc_none (h : d.allocDesc = (none, d')) : d' = d := by
  unfold Disk.allocDesc at h
  split at h
  case h_1 => cases h
  case h_2 => exact (Prod.mk.inj h).2.symm

theorem freeDesc_eq (h : d.free i = false) :
    d.freeDesc i = some ((d.setDesc i ⟨.null, 0, 0, 0⟩).setFree i true) := by
  unfold Disk.freeDesc
  rw [if_neg (by rw [h]; exact nofun)]

structure SameTaken (d d' : Disk β) : Prop where
  free : d'.free = d.free
  desc : ∀ i, d.free i = false → d'.desc i = d.desc i
  avail : d'.avail = d.avail
  used : d'.used = d.used
  info : d'.info = d.info
  disk : d'.disk = d.disk

theorem sameTaken_again (h : d.free i = true) :
    SameTaken d (((d.setFree i false).setDesc i ⟨.null, 0, 0, 0⟩).setFree i true) := by
  refine ⟨?_, fun j hj => ?_, rfl, rfl, rfl, rfl⟩
  · simp only [Disk.setFree, Disk.setDesc, update_idem]
    rw [← h, update_eq_self]
  · have hne : j ≠ i := by
      rintro rfl
      rw [h] at hj
      cases hj
    simp only [Disk.setFree, Disk.setDesc, update_of_ne hne]

/-- **`alloc3_desc`** takes three free descriptors, or leaves the free ones as they were. -/
theorem alloc3Desc_cases (d : Disk β) :
    (∃ d', d.alloc3Desc = some (none, d') ∧ SameTaken d d') ∨
      ∃ c : Chain, d.alloc3Desc
          = some (some c, ((d.setFree c.i0 false).setFree c.i1 false).setFree c.i2 false) ∧
        (c.i0 ≠ c.i1 ∧ c.i0 ≠ c.i2 ∧ c.i1 ≠ c.i2) ∧ ∀ i, c.Has i → d.free i = true := by
  unfold Disk.alloc3Desc
  cases h0 : d.allocDesc with
  | mk r0 d₁ =>
  cases r0 with
  | none =>
    obtain rfl := allocDesc_none h0
    exact .inl ⟨_, rfl, rfl, fun _ _ => rfl, rfl, rfl, rfl, rfl⟩
  | some i0 =>
    obtain ⟨hi0, rfl⟩ := allocDesc_some h0
    dsimp only
    cases h1 : (d.setFree i0 false).allocDesc with
    | mk r1 d₂ =>
    cases r1 with
    | none =>
      obtain rfl := allocDesc_none h1
      have hfree : (d.setFree i0 false).free i0 = false := update_self ..
      dsimp only
      rw [freeDesc_eq hfree]
      exact .inl ⟨_, rfl, sameTaken_again hi0⟩
    | some i1 =>
      obtain ⟨hi1, rfl⟩ := allocDesc_some h1
      have h10 : i1 ≠ i0 := by
        rintro rfl
        simp [Disk.setFree] at hi1
      have hfree1 : d.free i1 = true := by
        simpa only [Disk.setFree, update_of_ne h10] using hi1
      dsimp only
      cases h2 : ((d.setFree i0 false).setFree i1 false).allocDesc with
      | mk r2 d₃ =>
      cases r2 with
      | none =>
        -- two were taken, and are freed in the same order
        obtain rfl := allocDesc_none h2
        have hzero : ((d.setFree i0 false).setFree i1 false).free i0 = false := by
          simp only [Disk.setFree, update_of_ne h10.symm, update_self]
        dsimp only
        rw [freeDesc_eq hzero, Option.bind_some, freeDesc_eq]
        · refine .inl ⟨_, rfl, ?_, fun j hj => ?_, rfl, rfl, rfl, rfl⟩
          · funext j
            simp only [Disk.setFree, Disk.setDesc, update_apply]
            by_cases hj1 : j = i1
            · rw [if_pos hj1, hj1, hfree1]
            · by_cases hj0 : j = i0
              · rw [if_neg hj1, if_pos hj0, hj0, hi0]
              · simp only [if_neg hj1, if_neg hj0]
          · have hj0 : j ≠ i0 := by
              rintro rfl
              rw [hi0] at hj
              cases hj
            have hj1 : j ≠ i1 := by
              rintro rfl
              rw [hfree1] at hj
              cases hj
            simp only [Disk.setFree, Disk.setDesc, update_of_ne hj0, update_of_ne hj1]
        · simp only [Disk.setFree, Disk.setDesc, update_of_ne h10, update_self]
      | some i2 =>
        obtain ⟨hi2, rfl⟩ := allocDesc_some h2
        have h21 : i2 ≠ i1 := by
          rintro rfl
          simp [Disk.setFree] at hi2
        have h20 : i2 ≠ i0 := by
          rintro rfl
          simp [Disk.setFree, update_of_ne h21] at hi2
        have hfree2 : d.free i2 = true := by
          simpa only [Disk.setFree, update_of_ne h21, update_of_ne h20] using hi2
        refine .inr ⟨⟨i0, i1, i2⟩, rfl, ⟨h10.symm, h20.symm, h21.symm⟩, ?_⟩
        rintro i (rfl | rfl | rfl)
        · exact hi0
        · exact hfree1
        · exact hfree2

/-! ### Chains -/

structure Linked (d : Disk β) (b : β) (c : Chain) : Prop where
  flags0 : (d.desc c.i0).flags &&& fNext ≠ 0
  next0 : (d.desc c.i0).next = c.i1
  flags1 : (d.desc c.i1).flags &&& fNext ≠ 0
  next1 : (d.desc c.i1).next = c.i2
  flags2 : (d.desc c.i2).flags &&& fNext = 0
  addr2 : (d.desc c.i2).addr = .status c.i0
  info : (d.info c.i0).b = some b

theorem Linked.congr (h : Linked d b c) (hdesc : ∀ i, c.Has i → d'.desc i = d.desc i)
    (hinfo : (d'.info c.i0).b = (d.info c.i0).b) : Linked d' b c := by
  have h0 := hdesc c.i0 (.inl rfl)
  have h1 := hdesc c.i1 (.inr (.inl rfl))
  have h2 := hdesc c.i2 (.inr (.inr rfl))
  constructor
  · rw [h0]
    exact h.flags0
  · rw [h0]
    exact h.next0
  · rw [h1]
    exact h.flags1
  · rw [h1]
    exact h.next1
  · rw [h2]
    exact h.flags2
  · rw [h2]
    exact h.addr2
  · rw [hinfo]
    exact h.info

variable [DecidableEq β]

theorem format_linked (hdist : c.i0 ≠ c.i1 ∧ c.i0 ≠ c.i2 ∧ c.i1 ≠ c.i2) (write : Bool) :
    Linked (d.format b write c) b c := by
  obtain ⟨h01, h02, h12⟩ := hdist
  constructor
  · simp only [Disk.format, Disk.setInfo, Disk.setDisk, Disk.setDesc, update_of_ne h02,
      update_of_ne h01, update_self]
    decide
  · simp only [Disk.format, Disk.setInfo, Disk.setDisk, Disk.setDesc, update_of_ne h02,
      update_of_ne h01, update_self]
  · simp only [Disk.format, Disk.setInfo, Disk.setDisk, Disk.setDesc, update_of_ne h12,
      update_self]
    cases write <;> decide
  · simp only [Disk.format, Disk.setInfo, Disk.setDisk, Disk.setDesc, update_of_ne h12, update_self]
  · simp only [Disk.format, Disk.setInfo, Disk.setDisk, Disk.setDesc, update_self]
    decide
  · simp only [Disk.format, Disk.setInfo, Disk.setDisk, Disk.setDesc, update_self]
  · simp only [Disk.format, Disk.setInfo, update_self]

theorem format_other {write : Bool} (hi : ¬ c.Has i) :
    (d.format b write c).desc i = d.desc i ∧ (d.format b write c).info i = d.info i := by
  have h0 : i ≠ c.i0 := fun h => hi (.inl h)
  have h1 : i ≠ c.i1 := fun h => hi (.inr (.inl h))
  have h2 : i ≠ c.i2 := fun h => hi (.inr (.inr h))
  simp only [Disk.format, Disk.setInfo, Disk.setDisk, Disk.setDesc, update_of_ne h0,
    update_of_ne h1, update_of_ne h2, and_self]

omit [DecidableEq β]

structure Freed (d d' : Disk β) (c : Chain) : Prop where
  free : ∀ i, d'.free i = true ↔ d.free i = true ∨ c.Has i
  desc : ∀ i, ¬ c.Has i → d'.desc i = d.desc i
  info : ∀ i, i ≠ c.i0 → d'.info i = d.info i
  avail : d'.avail = d.avail
  used : d'.used = d.used
  disk : d'.disk = d.disk

/-- **`free_chain`** frees the three descriptors of a chain. -/
theorem finish_linked (h : Linked d b c) (hdist : c.i0 ≠ c.i1 ∧ c.i0 ≠ c.i2 ∧ c.i1 ≠ c.i2)
    (hfree : ∀ i, c.Has i → d.free i = false) : ∃ d', d.finish c = some d' ∧ Freed d d' c := by
  obtain ⟨h01, h02, h12⟩ := hdist
  have hf0 := hfree c.i0 (.inl rfl)
  have hf1 := hfree c.i1 (.inr (.inl rfl))
  have hf2 := hfree c.i2 (.inr (.inr rfl))
  unfold Disk.finish
  generalize hd : d.setInfo c.i0 { d.info c.i0 with b := none } = e
  have hdesc : e.desc = d.desc := by rw [← hd]; rfl
  have hefree : e.free = d.free := by rw [← hd]; rfl
  show ∃ d', Disk.freeChain (5 + 1 + 1 + 1) e c.i0 = some d' ∧ _
  -- the three rounds
  rw [Disk.freeChain, freeDesc_eq (by rw [hefree]; exact hf0)]
  simp only [hdesc, if_pos h.flags0, h.next0]
  rw [Disk.freeChain, freeDesc_eq (by
    simp only [Disk.setFree, Disk.setDesc, update_of_ne h01.symm, hefree]
    exact hf1)]
  simp only [Disk.setFree, Disk.setDesc, hdesc, update_of_ne h01.symm, if_pos h.flags1, h.next1]
  rw [Disk.freeChain, freeDesc_eq (by
    simp only [update_of_ne h02.symm, update_of_ne h12.symm, hefree]
    exact hf2)]
  have hlast : ¬ (d.desc c.i2).flags &&& fNext ≠ 0 := not_not.mpr h.flags2
  simp only [Disk.setFree, Disk.setDesc, update_of_ne h02.symm, update_of_ne h12.symm, if_neg hlast]
  refine ⟨_, rfl, ?_⟩
  constructor
  · intro i
    simp only [update_apply, hefree, Chain.Has]
    by_cases hi2 : i = c.i2
    · simp [hi2]
    · by_cases hi1 : i = c.i1
      · simp [hi1]
      · by_cases hi0 : i = c.i0
        · simp [hi0]
        · simp [hi0, hi1, hi2]
  · intro i hi
    have h0 : i ≠ c.i0 := fun h => hi (.inl h)
    have h1 : i ≠ c.i1 := fun h => hi (.inr (.inl h))
    have h2 : i ≠ c.i2 := fun h => hi (.inr (.inr h))
    simp only [update_of_ne h0, update_of_ne h1, update_of_ne h2]
  · intro i hi
    rw [← hd]
    simp only [Disk.setInfo, update_of_ne hi]
  · rw [← hd]
    rfl
  · rw [← hd]
    rfl
  · rw [← hd]
    rfl

end Xv6.Virtio
