import Xv6.Vm.Equiv.Copy

/-!
# User copies through a page table

`walkaddr` maps exactly the user pages (`walkaddr_ne_zero`), so `Reach` becomes a statement about
the entries of the page table: `user_copies` for `copyin` and `copyout`, and `copyinstr_exact`.
-/

namespace Xv6

variable {pagetable : PageTable} {va : Addr}

theorem walkaddr_ne_zero (hzero : NoZeroLeaf pagetable) (va : Addr) :
    walkaddr pagetable va ≠ 0 ↔ UserPage pagetable va := by
  rw [walkaddr, UserPage]
  by_cases hva : va.toNat ≥ maxva
  · simp [hva, Nat.not_lt.mpr hva]
  rw [if_neg hva]
  cases hwalk : walk pagetable va with
  | none => simp
  | some pte =>
    have hpa := hzero va pte hwalk
    cases hv : pteV pte <;> cases hu : pteU pte <;> simp_all

/-- The `n` bytes from `va` on lie on user pages. -/
def UserRange (pagetable : PageTable) (va : Addr) (n : Nat) : Prop :=
  ∀ k < n, UserPage pagetable (pgrounddown (va + BitVec.ofNat 64 k))

theorem mappedFor_iff (hzero : NoZeroLeaf pagetable) (va : Addr) (n : Nat) :
    MappedFor (walkaddr pagetable) va n ↔ UserRange pagetable va n :=
  forall_congr' fun _ => forall_congr' fun _ => walkaddr_ne_zero hzero _

theorem walkaddr_aligned (pagetable : PageTable) : PageAligned (walkaddr pagetable) := by
  have hzero : pgoffset 0 = 0 := rfl
  intro va
  rw [walkaddr]
  split_ifs
  · exact hzero
  cases walk pagetable va with
  | none => exact hzero
  | some pte =>
    dsimp only
    split_ifs
    · exact hzero
    · exact hzero
    · rw [pgoffset, pte2pa, BitVec.toNat_shiftLeft, Nat.shiftLeft_eq, pgsize]
      omega

/-- Different user pages are at different physical addresses. -/
def PagesDistinct (pagetable : PageTable) : Prop :=
  ∀ va va', walkaddr pagetable va ≠ 0 → walkaddr pagetable va = walkaddr pagetable va' →
    pgrounddown va = pgrounddown va'

theorem PagesDistinct.physAddr_ne (h : PagesDistinct pagetable) {n k l : Nat}
    (hmapped : MappedFor (walkaddr pagetable) va n) (hn : n < 2 ^ 64) (hkl : k < l) (hl : l < n) :
    physAddr (walkaddr pagetable) (va + BitVec.ofNat 64 k) ≠
      physAddr (walkaddr pagetable) (va + BitVec.ofNat 64 l) := by
  generalize hx : va + BitVec.ofNat 64 k = x
  generalize hy : va + BitVec.ofNat 64 l = y
  intro heq
  have hal := walkaddr_aligned pagetable
  have hoff : x - pgrounddown x = y - pgrounddown y := by
    have hpg := congrArg pgoffset heq
    rw [pgoffset_physAddr hal, pgoffset_physAddr hal] at hpg
    exact BitVec.eq_of_toNat_eq (by rw [sub_pgrounddown, sub_pgrounddown, hpg])
  have hpage : pgrounddown (pgrounddown x) = pgrounddown (pgrounddown y) := by
    refine h _ _ (hx ▸ hmapped k (by omega)) ?_
    rw [physAddr, physAddr, hoff] at heq
    exact (BitVec.add_left_inj _).mp heq
  have hround : ∀ z, pgrounddown (pgrounddown z) = pgrounddown z := fun z => by
    rw [pgrounddown, pgrounddown, BitVec.and_assoc, BitVec.and_self]
  rw [hround, hround] at hpage
  have hxy : x = y := by
    rw [← BitVec.sub_add_cancel x (pgrounddown x), ← BitVec.sub_add_cancel y (pgrounddown y), hoff, hpage]
  rw [← hx, ← hy] at hxy
  have hkl' := congrArg BitVec.toNat ((BitVec.add_right_inj _).mp hxy)
  rw [BitVec.toNat_ofNat, BitVec.toNat_ofNat, Nat.mod_eq_of_lt (by omega),
    Nat.mod_eq_of_lt (by omega)] at hkl'
  omega

/-- What `copyout` and `copyin` do through a page table. -/
structure CopiesExact (pagetable : PageTable) (mem : Mem) : Prop where
  out : ∀ va src, (copyout (walkaddr pagetable) mem va src).1 = true ↔
    UserRange pagetable va src.length
  written : ∀ va src, (copyout (walkaddr pagetable) mem va src).1 = true →
    (copyout (walkaddr pagetable) mem va src).2 = storeBytes (walkaddr pagetable) mem va src
  confined : ∀ va src a, (copyout (walkaddr pagetable) mem va src).2 a ≠ mem a →
    ∃ k < src.length, a = physAddr (walkaddr pagetable) (va + BitVec.ofNat 64 k) ∧
      UserRange pagetable va (k + 1)
  into : ∀ va n, (copyin (walkaddr pagetable) mem va n).1 = true ↔ UserRange pagetable va n
  read : ∀ va n, (copyin (walkaddr pagetable) mem va n).1 = true →
    (copyin (walkaddr pagetable) mem va n).2 = userBytes (walkaddr pagetable) mem va n
  part : ∀ va n, ∃ j ≤ n, UserRange pagetable va j ∧
    (copyin (walkaddr pagetable) mem va n).2 = userBytes (walkaddr pagetable) mem va j
  again : PagesDistinct pagetable → ∀ va src, src.length < 2 ^ 64 →
    (copyout (walkaddr pagetable) mem va src).1 = true →
      copyin (walkaddr pagetable) (copyout (walkaddr pagetable) mem va src).2 va src.length =
        (true, src)

/-- **User copies are exact and confined.** -/
theorem user_copies (hzero : NoZeroLeaf pagetable) (mem : Mem) : CopiesExact pagetable mem := by
  refine ⟨fun va src => ?_, fun va src hok => ?_, fun va src a ha => ?_, fun va n => ?_,
    fun va n hok => ?_, fun va n => ?_, fun hdistinct va src hlen hok => ?_⟩
  · rw [copyout_ok_iff, mappedFor_iff hzero]
  · rw [copyout_eq (copyout_ok_iff.mp hok)]
  · obtain ⟨j, hj, heq⟩ := copyout_reach (walkaddr pagetable) mem va src
    have hle := hj.le
    by_cases hk : ∃ k < j, a = physAddr (walkaddr pagetable) (va + BitVec.ofNat 64 k)
    · obtain ⟨k, hk, rfl⟩ := hk
      refine ⟨k, by omega, rfl, fun i hi => ?_⟩
      exact (mappedFor_iff hzero va j).mp hj.mapped i (by omega)
    · rw [heq] at ha
      refine absurd (storeBytes_frame fun k hlt heq => hk ⟨k, ?_, heq⟩) ha
      rw [List.length_take] at hlt
      omega
  · rw [copyin_ok_iff, mappedFor_iff hzero]
  · rw [copyin_mapped (copyin_ok_iff.mp hok)]
  · obtain ⟨j, hj, heq⟩ := copyin_reach (walkaddr pagetable) mem va n
    exact ⟨j, hj.le, (mappedFor_iff hzero va j).mp hj.mapped, by rw [heq]⟩
  · have hmapped := copyout_ok_iff.mp hok
    rw [copyin_mapped hmapped, copyout_eq hmapped, storeBytes_get]
    exact fun k l hkl hl => hdistinct.physAddr_ne hmapped hlen hkl hl

/-- A string of `k` bytes and a NUL on user pages. -/
structure UserString (pagetable : PageTable) (mem : Mem) (va : Addr) (k : Nat) : Prop where
  mapped : UserRange pagetable va (k + 1)
  nul : userByte (walkaddr pagetable) mem (va + BitVec.ofNat 64 k) = 0
  before : ∀ i < k, userByte (walkaddr pagetable) mem (va + BitVec.ofNat 64 i) ≠ 0

/-- **`copyinstr` is exact.** -/
theorem copyinstr_exact (hzero : NoZeroLeaf pagetable) (mem : Mem) (va : Addr) (max : Nat) :
    ((copyinstr (walkaddr pagetable) mem va max).1 = true ↔
        ∃ k < max, UserString pagetable mem va k) ∧
      (∀ k < max, UserString pagetable mem va k → copyinstr (walkaddr pagetable) mem va max =
        (true, userBytes (walkaddr pagetable) mem va (k + 1))) ∧
      (copyinstr (walkaddr pagetable) mem va max).2.length ≤ max := by
  obtain ⟨j, hj, heq⟩ := copyin_reach (walkaddr pagetable) mem va max
  have hle := hj.le
  rw [copyinstr, copyinstrLoop_eq, show copyinLoop _ _ _ _ _ = _ from heq]
  have hstring : ∀ k < max, UserString pagetable mem va k → copyNul (userBytes
      (walkaddr pagetable) mem va j) = (true, userBytes (walkaddr pagetable) mem va (k + 1)) := by
    intro k hk h
    have hmapped := (mappedFor_iff hzero va (k + 1)).mpr h.mapped
    have hkj : k < j := by
      refine Nat.not_le.mp fun hjk => ?_
      exact hmapped j (by omega) (hj.stop (by omega))
    rw [copyNul_take (k := k)]
    · rw [show j = k + 1 + (j - (k + 1)) by omega, userBytes_add, List.take_left' (by simp)]
    · simpa using hkj
    · rw [userBytes_getD hkj]
      exact h.nul
    · intro i hi
      rw [userBytes_getD (by omega)]
      exact h.before i hi
  refine ⟨⟨fun hok => ?_, fun hex => ?_⟩, hstring, ?_⟩
  · obtain ⟨k, hk, hnul, hbefore⟩ := exists_nul hok
    rw [length_userBytes] at hk
    refine ⟨k, by omega, fun i hi => ?_, ?_, fun i hi => ?_⟩
    · exact (mappedFor_iff hzero va j).mp hj.mapped i (by omega)
    · rw [← userBytes_getD hk, hnul]
    · rw [← userBytes_getD (n := j) (by omega)]
      exact hbefore i hi
  · obtain ⟨k, hk, h⟩ := hex
    rw [hstring k hk h]
  · exact Nat.le_trans (length_copyNul_le _) (by simpa using hle)

/-- Two pages from address 0 on. -/
def twoPages : PageTable :=
  fun i => if i.val = 0 then some fun j => if j.val = 0 then some fun k =>
    if k.val = 0 then 0x2000001f else if k.val = 1 then 0x2000081f else 0 else none else none

theorem twoPages_leaf : NoZeroLeaf twoPages := by
  intro va pte hwalk hv
  have hpte : pte = 0x2000001f ∨ pte = 0x2000081f ∨ pte = 0 := by
    simp only [walk, twoPages] at hwalk
    split_ifs at hwalk <;> simp at hwalk
    split_ifs at hwalk <;> simp at hwalk
    rw [← hwalk]
    split_ifs <;> simp
  obtain rfl | rfl | rfl := hpte
  · decide
  · decide
  · cases hv

theorem twoPages_copies : NoZeroLeaf twoPages ∧ CopiesExact twoPages fun _ => 0 :=
  ⟨twoPages_leaf, user_copies twoPages_leaf _⟩

/-- The letter `a` is the last byte of the first page, and its NUL the first one of the next. -/
theorem twoPages_string :
    copyinstr (walkaddr twoPages) (fun a => if a = 0x80000fff then 97 else 0) 0xfff 10 =
      (true, [97, 0]) := by
  refine (copyinstr_exact twoPages_leaf _ 0xfff 10).2.1 1 (by decide) ⟨fun i hi => ?_, rfl, ?_⟩
  · obtain rfl | rfl : i = 0 ∨ i = 1 := by omega
    · exact ⟨by decide, 0x2000001f, rfl, rfl, rfl⟩
    · exact ⟨by decide, 0x2000081f, rfl, rfl, rfl⟩
  · intro i hi
    obtain rfl : i = 0 := by omega
    decide

end Xv6
