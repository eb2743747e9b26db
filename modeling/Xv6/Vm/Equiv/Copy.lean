import Mathlib.Data.List.GetD
import Mathlib.Tactic.SplitIfs
import Xv6.Vm.Copy

/-!
# What the copies to and from user memory do

A copy of `n` bytes from or to user memory gets to the first page that is not mapped (`Reach`). It
reads and writes the bytes of the user addresses one by one, on whatever pages they are
(`copyin_reach`, `copyout_reach`). Two addresses of a window of at most a page have different
offsets in their pages, so they differ in physical memory even when the pages do not.
-/

namespace Xv6

open List

variable {walkaddr : Addr → Addr} {mem : Mem} {va : Addr}

/-! ### Offsets -/

/-- The offset of an address within its page. -/
def pgoffset (a : Addr) : Nat := a.toNat % pgsize

theorem pgrounddown_toNat (a : Addr) : (pgrounddown a).toNat = a.toNat - pgoffset a := by
  have hshift : pgrounddown a = (a >>> 12) <<< 12 := by
    refine BitVec.eq_of_getLsbD_eq fun i hi => ?_
    have hmask : (~~~(BitVec.ofNat 64 (pgsize - 1))).getLsbD i = decide (12 ≤ i) := by
      revert i
      decide
    rw [pgrounddown, BitVec.getLsbD_and, hmask, BitVec.getLsbD_shiftLeft, BitVec.getLsbD_ushiftRight]
    by_cases h : 12 ≤ i
    · simp [h, hi, Nat.not_lt.mpr h, Nat.add_sub_cancel' h]
    · simp [h, Nat.not_le.mp h]
  have hlt := a.isLt
  rw [hshift, BitVec.toNat_shiftLeft, BitVec.toNat_ushiftRight, Nat.shiftLeft_eq,
    Nat.shiftRight_eq_div_pow, pgoffset, pgsize]
  omega

theorem pgoffset_lt (a : Addr) : pgoffset a < pgsize := Nat.mod_lt _ (by decide)

theorem sub_pgrounddown (a : Addr) : (a - pgrounddown a).toNat = pgoffset a := by
  have hle : pgoffset a ≤ a.toNat := Nat.mod_le _ _
  have hlt := a.isLt
  rw [BitVec.toNat_sub, pgrounddown_toNat]
  omega

/-- Bytes on one page have one page address. -/
theorem pgrounddown_add {k : Nat} (h : pgoffset va + k < pgsize) :
    pgrounddown (va + BitVec.ofNat 64 k) = pgrounddown va := by
  have hlt := va.isLt
  have hk : k < 2 ^ 64 := by
    rw [pgsize] at h
    omega
  refine BitVec.eq_of_toNat_eq ?_
  rw [pgrounddown_toNat, pgrounddown_toNat]
  unfold pgoffset pgsize at *
  rw [BitVec.toNat_add, BitVec.toNat_ofNat, Nat.mod_eq_of_lt hk]
  omega

theorem add_rest (va : Addr) : va + BitVec.ofNat 64 (pgsize - pgoffset va) =
    pgrounddown va + BitVec.ofNat 64 pgsize := by
  have hlt := va.isLt
  refine BitVec.eq_of_toNat_eq ?_
  rw [BitVec.toNat_add, BitVec.toNat_add, pgrounddown_toNat, BitVec.toNat_ofNat, BitVec.toNat_ofNat]
  unfold pgoffset pgsize
  omega

theorem add_ofNat_add (va : Addr) (m n : Nat) :
    va + BitVec.ofNat 64 m + BitVec.ofNat 64 n = va + BitVec.ofNat 64 (m + n) := by
  rw [BitVec.add_assoc, BitVec.ofNat_add]

theorem pgoffset_add (va : Addr) (k : Nat) :
    pgoffset (va + BitVec.ofNat 64 k) = (va.toNat + k) % pgsize := by
  rw [pgoffset, BitVec.toNat_add, BitVec.toNat_ofNat, pgsize]
  omega

/-- Bytes less than a page apart have different offsets. -/
theorem pgoffset_add_ne {k l : Nat} (hk : k < pgsize) (hl : l < pgsize) (h : k ≠ l) :
    pgoffset (va + BitVec.ofNat 64 k) ≠ pgoffset (va + BitVec.ofNat 64 l) := by
  rw [pgoffset_add, pgoffset_add]
  unfold pgsize at *
  omega

/-! ### The bytes of the user -/

/-- The physical address of a user address. -/
def physAddr (walkaddr : Addr → Addr) (va : Addr) : Addr :=
  walkaddr (pgrounddown va) + (va - pgrounddown va)

/-- The byte at a user address. -/
def userByte (walkaddr : Addr → Addr) (mem : Mem) (va : Addr) : UInt8 := mem (physAddr walkaddr va)

def userBytes (walkaddr : Addr → Addr) (mem : Mem) (va : Addr) (n : Nat) : List UInt8 :=
  (List.range n).map fun k => userByte walkaddr mem (va + BitVec.ofNat 64 k)

/-- The pages of `n` bytes from `va` on are mapped. -/
def MappedFor (walkaddr : Addr → Addr) (va : Addr) (n : Nat) : Prop :=
  ∀ k < n, walkaddr (pgrounddown (va + BitVec.ofNat 64 k)) ≠ 0

instance (walkaddr : Addr → Addr) (va : Addr) (n : Nat) : Decidable (MappedFor walkaddr va n) :=
  inferInstanceAs (Decidable (∀ k < n, _))

/-- What a page table maps to are pages: `PTE2PA` gives multiples of `PGSIZE`. -/
def PageAligned (walkaddr : Addr → Addr) : Prop := ∀ va, pgoffset (walkaddr va) = 0

theorem MappedFor.le {m n : Nat} (h : MappedFor walkaddr va n) (hm : m ≤ n) :
    MappedFor walkaddr va m :=
  fun k hk => h k (Nat.lt_of_lt_of_le hk hm)

theorem MappedFor.drop {m n l : Nat} (h : MappedFor walkaddr va n) (hl : m + l ≤ n) :
    MappedFor walkaddr (va + BitVec.ofNat 64 m) l := by
  intro k hk
  rw [add_ofNat_add]
  exact h (m + k) (by omega)

variable {n : Nat} {src : List UInt8}

@[simp] theorem length_userBytes (n : Nat) : (userBytes walkaddr mem va n).length = n := by
  simp [userBytes]

theorem userBytes_eq {l : List UInt8} (hlen : l.length = n)
    (h : ∀ k < n, userByte walkaddr mem (va + BitVec.ofNat 64 k) = l.getD k 0) :
    userBytes walkaddr mem va n = l := by
  refine ext_getElem (by simp [hlen]) fun k hk hl => ?_
  rw [length_userBytes] at hk
  rw [← getD_eq_getElem _ 0 hl, ← h k hk]
  simp [userBytes]

theorem userBytes_getD {n k : Nat} (h : k < n) :
    (userBytes walkaddr mem va n).getD k 0 = userByte walkaddr mem (va + BitVec.ofNat 64 k) := by
  rw [getD_eq_getElem _ _ (by simpa using h)]
  simp [userBytes]

theorem userBytes_add (m n : Nat) : userBytes walkaddr mem va (m + n) =
    userBytes walkaddr mem va m ++ userBytes walkaddr mem (va + BitVec.ofNat 64 m) n := by
  unfold userBytes
  rw [range_add, map_append, map_map]
  congr 2
  funext k
  rw [Function.comp_apply, add_ofNat_add]

theorem physAddr_add {k : Nat} (h : pgoffset va + k < pgsize) :
    physAddr walkaddr (va + BitVec.ofNat 64 k) =
      walkaddr (pgrounddown va) + (va - pgrounddown va) + BitVec.ofNat 64 k := by
  rw [physAddr, pgrounddown_add h, BitVec.add_assoc]
  congr 1
  rw [BitVec.sub_eq_add_neg, BitVec.sub_eq_add_neg, BitVec.add_assoc, BitVec.add_assoc,
    BitVec.add_comm (BitVec.ofNat 64 k)]

/-- Bytes on one page are next to each other in memory. -/
theorem bytesAt_page (h : pgoffset va + n ≤ pgsize) :
    bytesAt mem (walkaddr (pgrounddown va) + (va - pgrounddown va)) n =
      userBytes walkaddr mem va n := by
  refine map_congr_left fun k hk => ?_
  rw [userByte, physAddr_add (by have := mem_range.mp hk; omega)]

/-- The part of `n` bytes that is on the first page; behind it the bytes end, or the next page
starts. -/
theorem exists_chunk (va : Addr) (hn : 0 < n) :
    ∃ c, min (pgsize - pgoffset va) n = c ∧ 0 < c ∧ c ≤ n ∧ pgoffset va + c ≤ pgsize ∧
      (n - c = 0 ∨ pgrounddown va + BitVec.ofNat 64 pgsize = va + BitVec.ofNat 64 c) := by
  have hlt := pgoffset_lt va
  refine ⟨_, rfl, by omega, by omega, by omega, ?_⟩
  by_cases hle : pgsize - pgoffset va ≤ n
  · rw [Nat.min_eq_left hle, add_rest]
    exact .inr rfl
  · exact .inl (by omega)

/-! ### How far a copy gets -/

/-- The first `j` of `n` bytes are mapped, and then they end or the next page is not. -/
structure Reach (walkaddr : Addr → Addr) (va : Addr) (n j : Nat) : Prop where
  le : j ≤ n
  mapped : MappedFor walkaddr va j
  stop : j < n → walkaddr (pgrounddown (va + BitVec.ofNat 64 j)) = 0

namespace Reach

variable {c j : Nat}

theorem zero : Reach walkaddr va 0 0 :=
  ⟨Nat.le_refl 0, fun _ hk => absurd hk (Nat.not_lt_zero _), fun h => absurd h (Nat.lt_irrefl 0)⟩

theorem unmapped (h : walkaddr (pgrounddown va) = 0) : Reach walkaddr va n 0 :=
  ⟨Nat.zero_le n, zero.mapped, fun _ => by rwa [BitVec.add_zero]⟩

/-- A loop comes to the end exactly if all pages are mapped. -/
theorem eq_iff (h : Reach walkaddr va n j) : j = n ↔ MappedFor walkaddr va n := by
  refine ⟨fun hj => hj ▸ h.mapped, fun hn => ?_⟩
  rcases Nat.lt_or_eq_of_le h.le with hlt | heq
  · exact absurd (h.stop hlt) (hn j hlt)
  · exact heq

/-- One round of a loop, up to the end of a page. -/
theorem chunk (hmapped : walkaddr (pgrounddown va) ≠ 0) (hc : c ≤ n)
    (hpage : pgoffset va + c ≤ pgsize) (h : Reach walkaddr (va + BitVec.ofNat 64 c) (n - c) j) :
    Reach walkaddr va n (c + j) := by
  have hle := h.le
  refine ⟨by omega, fun k hk => ?_, fun hlt => ?_⟩
  · by_cases hkc : k < c
    · rwa [pgrounddown_add (by omega)]
    · have hk' := h.mapped (k - c) (by omega)
      rwa [add_ofNat_add, Nat.add_sub_cancel' (Nat.not_lt.mp hkc)] at hk'
  · rw [← add_ofNat_add]
    exact h.stop (by omega)

end Reach

/-! ### `copyin` -/

theorem copyinLoop_zero (fuel : Nat) : copyinLoop walkaddr mem fuel va 0 = (true, []) := by
  cases fuel with
  | zero => rfl
  | succ => rw [copyinLoop, if_pos rfl]

/-- The loop of `copyin` copies the bytes up to the first page that is not mapped. -/
theorem copyinLoop_reach {fuel n : Nat} (hfuel : n ≤ fuel) :
    ∃ j, Reach walkaddr va n j ∧
      copyinLoop walkaddr mem fuel va n = (decide (j = n), userBytes walkaddr mem va j) := by
  induction fuel generalizing va n with
  | zero =>
    obtain rfl : n = 0 := by omega
    exact ⟨0, .zero, rfl⟩
  | succ fuel ih =>
    rcases Nat.eq_zero_or_pos n with rfl | hn
    · exact ⟨0, .zero, copyinLoop_zero _⟩
    rw [copyinLoop, if_neg (Nat.ne_of_gt hn)]
    dsimp only
    by_cases hmapped : walkaddr (pgrounddown va) = 0
    · refine ⟨0, .unmapped hmapped, ?_⟩
      rw [if_pos hmapped, decide_eq_false (Nat.ne_of_lt hn)]
      rfl
    obtain ⟨c, hchunk, hpos, hle, hpage, hrest⟩ := exists_chunk va hn
    rw [if_neg hmapped, sub_pgrounddown, hchunk, bytesAt_page hpage]
    obtain ⟨j, hj, heq⟩ : ∃ j, Reach walkaddr (va + BitVec.ofNat 64 c) (n - c) j ∧
        copyinLoop walkaddr mem fuel (pgrounddown va + BitVec.ofNat 64 pgsize) (n - c) =
          (decide (j = n - c), userBytes walkaddr mem (va + BitVec.ofNat 64 c) j) := by
      rcases hrest with hrest | hrest
      · rw [hrest]
        exact ⟨0, .zero, copyinLoop_zero _⟩
      · rw [hrest]
        exact ih (by omega)
    refine ⟨c + j, hj.chunk hmapped hle hpage, ?_⟩
    rw [heq, userBytes_add]
    exact congrArg (·, _) (decide_eq_decide.mpr (by omega))

/-- **`copyin`** gives the bytes up to the first page that is not mapped. -/
theorem copyin_reach (walkaddr : Addr → Addr) (mem : Mem) (va : Addr) (n : Nat) :
    ∃ j, Reach walkaddr va n j ∧
      copyin walkaddr mem va n = (decide (j = n), userBytes walkaddr mem va j) :=
  copyinLoop_reach (Nat.le_refl n)

/-- `copyin` succeeds exactly if the pages are mapped. -/
theorem copyin_ok_iff : (copyin walkaddr mem va n).1 = true ↔ MappedFor walkaddr va n := by
  obtain ⟨j, hj, heq⟩ := copyin_reach walkaddr mem va n
  rw [heq, ← hj.eq_iff, decide_eq_true_iff]

theorem copyin_mapped (h : MappedFor walkaddr va n) :
    copyin walkaddr mem va n = (true, userBytes walkaddr mem va n) := by
  obtain ⟨j, hj, heq⟩ := copyin_reach walkaddr mem va n
  obtain rfl := hj.eq_iff.mpr h
  rw [heq, decide_eq_true rfl]

/-! ### `copyinstr` -/

theorem copyNul_append (xs ys : List UInt8) : copyNul (xs ++ ys) =
    if (copyNul xs).1 then copyNul xs else ((copyNul ys).1, (copyNul xs).2 ++ (copyNul ys).2) := by
  induction xs with
  | nil => rfl
  | cons b xs ih =>
    rw [cons_append, copyNul, copyNul]
    by_cases hb : b = 0
    · simp only [if_pos hb, if_true]
    · simp only [if_neg hb, ih]
      split_ifs <;> rfl

/-- `copyinstr` stops at the NUL among the bytes that `copyin` copies. -/
theorem copyinstrLoop_eq (fuel : Nat) (va : Addr) (n : Nat) :
    copyinstrLoop walkaddr mem fuel va n = copyNul (copyinLoop walkaddr mem fuel va n).2 := by
  induction fuel generalizing va n with
  | zero => rfl
  | succ fuel ih =>
    rw [copyinstrLoop, copyinLoop]
    split_ifs
    · rfl
    · dsimp only
      split_ifs with _ hnul
      · rfl
      · rw [copyNul_append, if_pos hnul, ← hnul]
      · rw [ih, copyNul_append, if_neg hnul]

theorem length_copyNul_le (l : List UInt8) : (copyNul l).2.length ≤ l.length := by
  induction l with
  | nil => exact Nat.le_refl 0
  | cons b l ih =>
    rw [copyNul]
    split_ifs
    · exact Nat.le_add_left 1 _
    · exact Nat.succ_le_succ ih

theorem exists_nul {l : List UInt8} (h : (copyNul l).1 = true) :
    ∃ k < l.length, l.getD k 0 = 0 ∧ ∀ i < k, l.getD i 0 ≠ 0 := by
  induction l with
  | nil => simp [copyNul] at h
  | cons b l ih =>
    rw [copyNul] at h
    by_cases hb : b = 0
    · exact ⟨0, Nat.succ_pos _, hb, fun i hi => absurd hi (Nat.not_lt_zero i)⟩
    rw [if_neg hb] at h
    obtain ⟨k, hk, hnul, hbefore⟩ := ih h
    refine ⟨k + 1, Nat.succ_lt_succ hk, hnul, fun i hi => ?_⟩
    cases i with
    | zero => exact hb
    | succ i => exact hbefore i (Nat.lt_of_succ_lt_succ hi)

theorem copyNul_take {l : List UInt8} {k : Nat} (hk : k < l.length) (hnul : l.getD k 0 = 0)
    (hbefore : ∀ i < k, l.getD i 0 ≠ 0) : copyNul l = (true, l.take (k + 1)) := by
  induction l generalizing k with
  | nil => exact absurd hk (Nat.not_lt_zero k)
  | cons b l ih =>
    rw [copyNul]
    cases k with
    | zero =>
      have hb : b = 0 := hnul
      rw [if_pos hb, hb]
      rfl
    | succ k =>
      have hb : b ≠ 0 := hbefore 0 (Nat.succ_pos k)
      rw [if_neg hb, ih (Nat.lt_of_succ_lt_succ hk) hnul
        fun i hi => hbefore (i + 1) (Nat.succ_lt_succ hi)]
      rfl

/-! ### `copyout` -/

theorem memmove_append (mem : Mem) (a : Addr) (xs ys : List UInt8)
    (hlen : xs.length + ys.length < 2 ^ 64) :
    memmove (memmove mem a xs) (a + BitVec.ofNat 64 xs.length) ys = memmove mem a (xs ++ ys) := by
  funext c
  simp only [memmove]
  have hoff : (c - (a + BitVec.ofNat 64 xs.length)).toNat =
      ((c - a).toNat + (2 ^ 64 - xs.length)) % 2 ^ 64 := by
    have hx : (BitVec.ofNat 64 xs.length).toNat = xs.length := by
      rw [BitVec.toNat_ofNat]
      exact Nat.mod_eq_of_lt (by omega)
    have hc := c.isLt
    have ha := a.isLt
    rw [BitVec.toNat_sub, BitVec.toNat_sub, BitVec.toNat_add, hx]
    omega
  have hd := (c - a).isLt
  by_cases hlt : (c - a).toNat < xs.length
  · rw [getD_append _ _ _ _ hlt, getD_eq_default]
    rw [hoff]
    omega
  · rw [getD_append_right _ _ _ _ (Nat.not_lt.mp hlt), getD_eq_default xs _ (Nat.not_lt.mp hlt)]
    congr 1
    rw [hoff]
    omega

theorem memmove_singleton (mem : Mem) (dst a : Addr) (b : UInt8) :
    memmove mem dst [b] a = if a = dst then b else mem a := by
  rw [memmove]
  by_cases h : a = dst
  · rw [if_pos h, h, BitVec.sub_self]
    rfl
  · rw [if_neg h]
    refine getD_eq_default _ _ (Nat.one_le_iff_ne_zero.mpr fun hz => h ?_)
    have hzero : a - dst = 0#64 := BitVec.eq_of_toNat_eq hz
    rw [← BitVec.sub_add_cancel a dst, hzero, BitVec.zero_add]

/-- The memory after bytes were stored at user addresses, one by one. -/
def storeBytes (walkaddr : Addr → Addr) (mem : Mem) (va : Addr) : List UInt8 → Mem
  | [] => mem
  | b :: bs => storeBytes walkaddr (memmove mem (physAddr walkaddr va) [b]) (va + 1) bs

theorem add_one_add (va : Addr) (k : Nat) :
    va + 1 + BitVec.ofNat 64 k = va + BitVec.ofNat 64 (k + 1) := by
  rw [Nat.add_comm k]
  exact add_ofNat_add va 1 k

theorem storeBytes_append (xs ys : List UInt8) : storeBytes walkaddr mem va (xs ++ ys) =
    storeBytes walkaddr (storeBytes walkaddr mem va xs) (va + BitVec.ofNat 64 xs.length) ys := by
  induction xs generalizing mem va with
  | nil => rw [length_nil, BitVec.add_zero]; rfl
  | cons b xs ih =>
    rw [cons_append, storeBytes, ih, add_one_add]
    rfl

theorem storeBytes_page {xs : List UInt8} (h : pgoffset va + xs.length ≤ pgsize) :
    storeBytes walkaddr mem va xs = memmove mem (physAddr walkaddr va) xs := by
  induction xs generalizing mem va with
  | nil => rfl
  | cons b xs ih =>
    rw [length_cons] at h
    have happend := memmove_append mem (physAddr walkaddr va) [b] xs (by
      rw [pgsize] at h
      simp only [length_singleton]
      omega)
    rw [singleton_append] at happend
    rw [storeBytes, ← happend]
    rcases xs with _ | ⟨b', xs⟩
    · rfl
    rw [length_cons] at h
    have hnext : physAddr walkaddr (va + 1) = physAddr walkaddr va + 1 := physAddr_add (k := 1) (by omega)
    have hoff : pgoffset (va + 1) = (va.toNat + 1) % pgsize := pgoffset_add va 1
    rw [ih, hnext]
    · rfl
    · unfold pgoffset pgsize at *
      rw [length_cons]
      omega

/-- The rest of the memory is as before. -/
theorem storeBytes_frame {a : Addr}
    (h : ∀ k < src.length, a ≠ physAddr walkaddr (va + BitVec.ofNat 64 k)) :
    storeBytes walkaddr mem va src a = mem a := by
  induction src generalizing mem va with
  | nil => rfl
  | cons b src ih =>
    have hhead := h 0 (Nat.succ_pos _)
    rw [BitVec.add_zero] at hhead
    rw [storeBytes, ih, memmove_singleton, if_neg hhead]
    intro k hk
    rw [add_one_add]
    exact h (k + 1) (Nat.succ_lt_succ hk)

/-- The bytes are read back if no two of them have one physical address. -/
theorem storeBytes_get (h : ∀ k l, k < l → l < src.length →
      physAddr walkaddr (va + BitVec.ofNat 64 k) ≠ physAddr walkaddr (va + BitVec.ofNat 64 l)) :
    userBytes walkaddr (storeBytes walkaddr mem va src) va src.length = src := by
  refine userBytes_eq rfl fun k hk => ?_
  induction src generalizing mem va k with
  | nil => exact absurd hk (Nat.not_lt_zero k)
  | cons b src ih =>
    rw [length_cons] at hk
    cases k with
    | zero =>
      rw [userByte, storeBytes, storeBytes_frame, BitVec.add_zero, memmove_singleton, if_pos rfl]
      · rfl
      · intro l hl
        rw [add_one_add]
        exact h 0 (l + 1) (Nat.succ_pos l) (Nat.succ_lt_succ hl)
    | succ k =>
      rw [← add_one_add, storeBytes, getD_cons_succ]
      refine ih (fun i j hij hj => ?_) k (by omega)
      rw [add_one_add, add_one_add]
      exact h (i + 1) (j + 1) (by omega) (Nat.succ_lt_succ hj)

theorem copyoutLoop_nil (fuel : Nat) : copyoutLoop walkaddr fuel mem va [] = (true, mem) := by
  cases fuel with
  | zero => rfl
  | succ => rw [copyoutLoop, if_pos rfl]

/-- The loop of `copyout` stores the bytes up to the first page that is not mapped. -/
theorem copyoutLoop_reach {fuel : Nat} (hfuel : src.length ≤ fuel) :
    ∃ j, Reach walkaddr va src.length j ∧ copyoutLoop walkaddr fuel mem va src =
      (decide (j = src.length), storeBytes walkaddr mem va (src.take j)) := by
  induction fuel generalizing va src mem with
  | zero =>
    obtain rfl : src = [] := length_eq_zero_iff.mp (by omega)
    exact ⟨0, .zero, rfl⟩
  | succ fuel ih =>
    by_cases hsrc : src = []
    · subst hsrc
      exact ⟨0, .zero, copyoutLoop_nil _⟩
    have hn : 0 < src.length := length_pos_iff.mpr hsrc
    rw [copyoutLoop, if_neg hsrc]
    dsimp only
    by_cases hmapped : walkaddr (pgrounddown va) = 0
    · refine ⟨0, .unmapped hmapped, ?_⟩
      rw [if_pos hmapped, decide_eq_false (Nat.ne_of_lt hn)]
      rfl
    obtain ⟨c, hchunk, hpos, hle, hpage, hrest⟩ := exists_chunk va hn
    have htake : (src.take c).length = c := by rw [length_take, Nat.min_eq_left hle]
    have hdrop : (src.drop c).length = src.length - c := length_drop
    have hstore : memmove mem (walkaddr (pgrounddown va) + (va - pgrounddown va)) (src.take c) =
        storeBytes walkaddr mem va (src.take c) :=
      (storeBytes_page (by rw [htake]; exact hpage)).symm
    rw [if_neg hmapped, sub_pgrounddown, hchunk, hstore]
    generalize hmem : storeBytes walkaddr mem va (src.take c) = mem₁
    obtain ⟨j, hj, heq⟩ : ∃ j, Reach walkaddr (va + BitVec.ofNat 64 c) (src.drop c).length j ∧
        copyoutLoop walkaddr fuel mem₁ (pgrounddown va + BitVec.ofNat 64 pgsize) (src.drop c) =
          (decide (j = (src.drop c).length), storeBytes walkaddr mem₁ (va + BitVec.ofNat 64 c)
            ((src.drop c).take j)) := by
      rcases hrest with hrest | hrest
      · rw [eq_nil_of_length_eq_zero (hdrop.trans hrest)]
        exact ⟨0, .zero, copyoutLoop_nil _⟩
      · rw [hrest]
        exact ih (by omega)
    rw [hdrop] at hj heq
    refine ⟨c + j, hj.chunk hmapped hle hpage, ?_⟩
    rw [heq, take_add, storeBytes_append, htake, hmem]
    exact congrArg (·, _) (decide_eq_decide.mpr (by omega))

/-- **`copyout`** stores the bytes up to the first page that is not mapped. -/
theorem copyout_reach (walkaddr : Addr → Addr) (mem : Mem) (va : Addr) (src : List UInt8) :
    ∃ j, Reach walkaddr va src.length j ∧ copyout walkaddr mem va src =
      (decide (j = src.length), storeBytes walkaddr mem va (src.take j)) :=
  copyoutLoop_reach (Nat.le_refl _)

theorem copyout_eq (h : MappedFor walkaddr va src.length) :
    copyout walkaddr mem va src = (true, storeBytes walkaddr mem va src) := by
  obtain ⟨j, hj, heq⟩ := copyout_reach walkaddr mem va src
  rw [heq, hj.eq_iff.mpr h, decide_eq_true rfl, take_length]

/-- `copyout` succeeds exactly if the pages are mapped. -/
theorem copyout_ok_iff :
    (copyout walkaddr mem va src).1 = true ↔ MappedFor walkaddr va src.length := by
  obtain ⟨j, hj, heq⟩ := copyout_reach walkaddr mem va src
  rw [heq, ← hj.eq_iff, decide_eq_true_iff]

theorem memmove_add {dst : Addr} {k : Nat} (hk : k < src.length) (hlen : src.length ≤ pgsize) :
    memmove mem dst src (dst + BitVec.ofNat 64 k) = src.getD k 0 := by
  have hk64 : k < 2 ^ 64 := by
    rw [pgsize] at hlen
    omega
  have hindex : (dst + BitVec.ofNat 64 k - dst).toNat = k := by
    rw [BitVec.add_comm, BitVec.add_sub_cancel, BitVec.toNat_ofNat, Nat.mod_eq_of_lt hk64]
  rw [memmove, hindex, getD_eq_getElem _ _ hk, getD_eq_getElem _ _ hk]

section

variable (hal : PageAligned walkaddr)

include hal

theorem pgoffset_physAddr (va : Addr) :
    pgoffset (physAddr walkaddr va) = pgoffset va := by
  have hpage := hal (pgrounddown va)
  have hoff := sub_pgrounddown va
  unfold pgoffset pgsize physAddr at *
  rw [BitVec.toNat_add, hoff]
  omega

theorem physAddr_ne {va va' : Addr} (h : pgoffset va ≠ pgoffset va') :
    physAddr walkaddr va ≠ physAddr walkaddr va' := by
  intro heq
  rw [← pgoffset_physAddr hal va, heq, pgoffset_physAddr hal] at h
  exact h rfl

/-- What `copyout` has stored is there. -/
theorem copyout_mapped (hlen : src.length ≤ pgsize)
    (h : MappedFor walkaddr va src.length) :
    userBytes walkaddr (copyout walkaddr mem va src).2 va src.length = src := by
  rw [copyout_eq h]
  refine storeBytes_get fun k l hkl hl => physAddr_ne hal ?_
  exact pgoffset_add_ne (by omega) (by omega) (by omega)

/-- A byte of the same window that a copy does not write, whether it succeeds or not. -/
theorem copyout_frame {m l : Nat} (hm : m + src.length ≤ pgsize)
    (hl : l < pgsize) (h : l < m ∨ m + src.length ≤ l) :
    userByte walkaddr (copyout walkaddr mem (va + BitVec.ofNat 64 m) src).2
      (va + BitVec.ofNat 64 l) = userByte walkaddr mem (va + BitVec.ofNat 64 l) := by
  obtain ⟨j, -, heq⟩ := copyout_reach walkaddr mem (va + BitVec.ofNat 64 m) src
  rw [heq]
  refine storeBytes_frame fun k hk => physAddr_ne hal ?_
  rw [length_take] at hk
  rw [add_ofNat_add]
  exact pgoffset_add_ne hl (by omega) (by omega)

end

end Xv6
