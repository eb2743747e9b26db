import Xv6.Bio.Cache
import Xv6.Log.Equiv.Op

/-!
# What the functions of the buffer cache keep

`CacheInv L`: the blocks `L` are pinned, and the valid buffers of all others agree with the disk.
`bread` recycles no pinned buffer; a store is coherent when it goes to the disk (`CacheInv.flush`)
or the block is pinned (`CacheInv.store_pinned`, `CacheInv.store_bpin`).
-/

namespace Xv6.Bcache

open Lib Function List

/-! ### Buffers -/

theorem set_set (c : Cache) (i : BufId) (v w : Buf) : (c.set i v).set i w = c.set i w := by
  simp only [Cache.set, update_idem]

theorem Cache.set_buf (c : Cache) (i : BufId) (v : Buf) : (c.set i v).buf i = v := update_self ..

theorem Cache.set_buf_of_ne (c : Cache) {i j : BufId} (v : Buf) (h : j ≠ i) :
    (c.set i v).buf j = c.buf j := update_of_ne h _ _

/-! ### References -/

/-- The reference of the process that has locked a buffer. -/
def Buf.locks (bp : Buf) : Nat := if bp.locked then 1 else 0

instance (L : List (BitVec 32)) (bp : Buf) : Decidable (∃ b ∈ L, bp.block = some b) :=
  decidable_of_iff (L.any fun b => bp.block = some b) (by simp)

/-- The reference of `bpin`, when the blocks `L` are pinned. -/
def Buf.pins (L : List (BitVec 32)) (bp : Buf) : Nat := if ∃ b ∈ L, bp.block = some b then 1 else 0

theorem pins_of_mem {L : List (BitVec 32)} {bp : Buf} {b : BitVec 32} (hb : b ∈ L)
    (h : bp.block = some b) : bp.pins L = 1 := if_pos ⟨b, hb, h⟩

theorem pins_of_notMem {L : List (BitVec 32)} {bp : Buf} {b : BitVec 32} (hb : b ∉ L)
    (h : bp.block = some b) : bp.pins L = 0 := by
  refine if_neg ?_
  rintro ⟨b', hb', h'⟩
  rw [h] at h'
  cases h'
  exact hb hb'

structure CacheInv (L : List (BitVec 32)) (c : Cache) : Prop where
  lru : ∀ i, i ∈ c.lru
  unique : ∀ i j b, (c.buf i).block = some b → (c.buf j).block = some b → i = j
  refs : ∀ i, (c.buf i).locks + (c.buf i).pins L ≤ (c.buf i).refcnt
  pinned : ∀ b ∈ L, ∃ i, (c.buf i).block = some b ∧ (c.buf i).valid = true
  coherent : ∀ i b, (c.buf i).block = some b → (c.buf i).valid = true → b ∉ L →
    (c.buf i).data = c.disk b.toNat

namespace CacheInv

variable {L : List (BitVec 32)} {c c' : Cache} {i : BufId} {b : BitVec 32}

/-! ### One buffer -/

/-- A buffer changes, but for its block, and its block may be pinned or no longer pinned. -/
theorem set_pins (h : CacheInv L c) {L' : List (BitVec 32)} {v : Buf}
    (hL : ∀ b, (c.buf i).block ≠ some b → (b ∈ L' ↔ b ∈ L))
    (hblock : v.block = (c.buf i).block) (hvalid : (c.buf i).valid = true → v.valid = true)
    (hpinned : ∀ b ∈ L', v.block = some b → v.valid = true)
    (hrefs : v.locks + v.pins L' ≤ v.refcnt)
    (hdata : ∀ b, v.block = some b → v.valid = true → b ∉ L' → v.data = c.disk b.toNat) :
    CacheInv L' (c.set i v) := by
  have hold : ∀ j, ((c.set i v).buf j).block = (c.buf j).block := by
    intro j
    simp only [Cache.set, update_apply]
    split_ifs with hji
    · rw [hblock, hji]
    · rfl
  -- the other buffers have other blocks
  have hother : ∀ j b, j ≠ i → (c.buf j).block = some b → (b ∈ L' ↔ b ∈ L) := by
    intro j b hji hj
    refine hL b fun hi => hji (h.unique j i b hj hi)
  refine ⟨h.lru, fun j k b hj hk => ?_, fun j => ?_, fun b hb => ?_, fun j b hj hvalid' hb => ?_⟩
  · rw [hold] at hj hk
    exact h.unique j k b hj hk
  · by_cases hji : j = i
    · rw [hji, Cache.set_buf]
      exact hrefs
    rw [Cache.set_buf_of_ne _ _ hji]
    have hpins : (c.buf j).pins L' = (c.buf j).pins L := by
      refine if_congr ?_ rfl rfl
      constructor
      · rintro ⟨b, hb, hj⟩
        exact ⟨b, (hother j b hji hj).mp hb, hj⟩
      · rintro ⟨b, hb, hj⟩
        exact ⟨b, (hother j b hji hj).mpr hb, hj⟩
    rw [hpins]
    exact h.refs j
  · by_cases hi : (c.buf i).block = some b
    · refine ⟨i, (hold i).trans hi, ?_⟩
      rw [Cache.set_buf]
      exact hpinned b hb (hblock.trans hi)
    obtain ⟨j, hj, hj'⟩ := h.pinned b ((hL b hi).mp hb)
    have hji : j ≠ i := by
      rintro rfl
      exact hi hj
    refine ⟨j, ?_⟩
    rw [Cache.set_buf_of_ne _ _ hji]
    exact ⟨hj, hj'⟩
  · by_cases hji : j = i
    · rw [hji, Cache.set_buf] at hj hvalid' ⊢
      exact hdata b hj hvalid' hb
    · rw [Cache.set_buf_of_ne _ _ hji] at hj hvalid' ⊢
      exact h.coherent j b hj hvalid' fun hb' => hb ((hother j b hji hj).mpr hb')

theorem set (h : CacheInv L c) {v : Buf} (hblock : v.block = (c.buf i).block)
    (hvalid : (c.buf i).valid = true → v.valid = true) (hrefs : v.locks + v.pins L ≤ v.refcnt)
    (hdata : ∀ b, v.block = some b → v.valid = true → b ∉ L → v.data = c.disk b.toNat) :
    CacheInv L (c.set i v) := by
  refine h.set_pins (fun _ _ => Iff.rfl) hblock hvalid (fun b hb hi => ?_) hrefs hdata
  obtain ⟨j, hj, hj'⟩ := h.pinned b hb
  rw [hblock] at hi
  rw [h.unique j i b hj hi] at hj'
  exact hvalid hj'

theorem recycle (h : CacheInv L c) {v : Buf} (hfree : (c.buf i).refcnt = 0)
    (hnone : ∀ j, (c.buf j).block ≠ some b) (hblock : v.block = some b)
    (hrefs : v.locks ≤ v.refcnt) (hdata : v.data = c.disk b.toNat) :
    CacheInv L (c.set i v) where
  lru := h.lru
  unique j k b' hj hk := by
    simp only [Cache.set, update_apply] at hj hk
    split_ifs at hj hk with hji hki hki
    · exact hji.trans hki.symm
    · rw [← hj, hblock] at hk
      exact absurd hk (hnone k)
    · rw [← hk, hblock] at hj
      exact absurd hj (hnone j)
    · exact h.unique j k b' hj hk
  refs j := by
    simp only [Cache.set, update_apply]
    split_ifs
    · -- the pinned blocks are cached
      have hb : b ∉ L := by
        intro hb
        obtain ⟨k, hk, -⟩ := h.pinned b hb
        exact hnone k hk
      rw [pins_of_notMem hb hblock]
      exact hrefs
    · exact h.refs j
  pinned b' hb' := by
    obtain ⟨j, hj, hj'⟩ := h.pinned b' hb'
    refine ⟨j, ?_⟩
    have hji : j ≠ i := by
      rintro rfl
      have hrefs := h.refs j
      rw [pins_of_mem hb' hj] at hrefs
      omega
    rw [Cache.set]
    dsimp only
    rw [update_of_ne hji]
    exact ⟨hj, hj'⟩
  coherent j b' hj hvalid hb' := by
    simp only [Cache.set, update_apply] at hj hvalid ⊢
    split_ifs at hj hvalid ⊢
    · rw [hblock] at hj
      cases hj
      exact hdata
    · exact h.coherent j b' hj hvalid hb'

end CacheInv

/-! ### `bread` -/

structure Read (c : Cache) (b : BitVec 32) (i : BufId) (c' : Cache) : Prop where
  free : (c.buf i).locked = false
  others : ∀ j, j ≠ i → c'.buf j = c.buf j
  disk : c'.disk = c.disk
  block : (c'.buf i).block = some b
  valid : (c'.buf i).valid = true
  locked : (c'.buf i).locked = true

inductive Found (c : Cache) (b : BitVec 32) (i : BufId) : Cache → Prop where
  | hit (hblock : (c.buf i).block = some b) (hfree : (c.buf i).locked = false) :
      Found c b i (c.set i
        { c.buf i with
          refcnt := (c.buf i).refcnt + 1
          locked := true
          valid := true
          data := if (c.buf i).valid then (c.buf i).data else c.disk b.toNat })
  | miss (hnone : ∀ j ∈ c.lru, (c.buf j).block ≠ some b) (hrefcnt : (c.buf i).refcnt = 0)
      (hfree : (c.buf i).locked = false) :
      Found c b i (c.set i
        { block := some b, valid := true, refcnt := 1, locked := true, data := c.disk b.toNat })

section Functions

variable {L : List (BitVec 32)} {c c' : Cache} {i : BufId} {b : BitVec 32}

theorem bread_found (h : c.bread b = some (i, c')) : Found c b i c' := by
  obtain ⟨⟨j, c₁⟩, hget, hmap⟩ := Option.bind_eq_some_iff.mp h
  obtain ⟨c₂, hfill, heq⟩ := Option.map_eq_some_iff.mp hmap
  obtain ⟨rfl, rfl⟩ := Prod.mk.inj heq
  have hlocked : ¬(c₁.buf j).locked = true := by
    intro hlocked
    simp [Cache.fill, hlocked] at hfill
  simp only [Cache.fill, if_neg hlocked] at hfill
  cases hfill
  rw [Cache.bget] at hget
  split at hget
  case h_1 k hk =>
    cases hget
    simp only [Cache.set_buf, set_set, Bool.not_eq_true] at hlocked ⊢
    exact .hit (by simpa using List.find?_some hk) hlocked
  case h_2 hnone =>
    split at hget
    case h_1 k hk =>
      cases hget
      simp only [Cache.set_buf, set_set, Bool.not_eq_true] at hlocked ⊢
      exact .miss (by simpa using hnone) (by simpa using List.find?_some hk) hlocked
    case h_2 => cases hget

theorem bread_read (h : c.bread b = some (i, c')) : Read c b i c' := by
  cases bread_found h with
  | hit hblock hfree =>
    refine ⟨hfree, fun j hj => c.set_buf_of_ne _ hj, rfl, ?_, ?_, ?_⟩
    · rw [c.set_buf]
      exact hblock
    · rw [c.set_buf]
    · rw [c.set_buf]
  | miss hnone hrefcnt hfree =>
    refine ⟨hfree, fun j hj => c.set_buf_of_ne _ hj, rfl, ?_, ?_, ?_⟩
    · rw [c.set_buf]
    · rw [c.set_buf]
    · rw [c.set_buf]

namespace CacheInv

variable (h : CacheInv L c)

include h

theorem bread (hread : c.bread b = some (i, c')) : CacheInv L c' := by
  cases bread_found hread with
  | hit hblock hfree =>
    refine h.set rfl (fun _ => rfl) ?_ ?_
    · have hrefs := h.refs i
      simp only [Buf.locks, hfree, Bool.false_eq_true, if_false, Buf.pins, if_true] at hrefs ⊢
      omega
    intro b' hb' _ hL
    dsimp only at hb' ⊢
    rw [hblock] at hb'
    cases hb'
    split_ifs with hvalid
    · exact h.coherent i b hblock hvalid hL
    · rfl
  | miss hnone hrefcnt => exact h.recycle hrefcnt (fun j => hnone j (h.lru j)) rfl le_rfl rfl

theorem bread_data (hread : c.bread b = some (i, c')) (hb : b ∉ L) :
    (c'.buf i).data = c.disk b.toNat := by
  have hr := bread_read hread
  rw [← hr.disk]
  exact (h.bread hread).coherent i b hr.block hr.valid hb

/-! ### Storing to a buffer -/

theorem store_pinned {v : Block} (hblock : (c.buf i).block = some b) (hb : b ∈ L) :
    CacheInv L (c.store i v) := by
  refine h.set rfl id (h.refs i) fun b' hb' _ hL => ?_
  rw [hblock] at hb'
  cases hb'
  exact absurd hb hL

theorem flush {v : Block} (hblock : (c.buf i).block = some b) :
    CacheInv L ((c.store i v).bwrite i) := by
  have hset : (c.store i v).bwrite i =
      { c.store i v with disk := update c.disk b.toNat v } := by
    rw [Cache.bwrite, Cache.store, Cache.set_buf]
    dsimp only
    rw [hblock]
    rfl
  have hblocks : ∀ j, ((c.store i v).buf j).block = (c.buf j).block ∧
      ((c.store i v).buf j).valid = (c.buf j).valid ∧
      ((c.store i v).buf j).locks = (c.buf j).locks ∧
      ((c.store i v).buf j).pins L = (c.buf j).pins L ∧
      ((c.store i v).buf j).refcnt = (c.buf j).refcnt := by
    intro j
    by_cases hj : j = i
    · rw [hj, Cache.store, Cache.set_buf]
      exact ⟨rfl, rfl, rfl, rfl, rfl⟩
    · rw [Cache.store, Cache.set_buf_of_ne _ _ hj]
      exact ⟨rfl, rfl, rfl, rfl, rfl⟩
  rw [hset]
  refine ⟨h.lru, fun j k b' hj hk => ?_, fun j => ?_, fun b' hb' => ?_, fun j b' hj hvalid hL => ?_⟩
  · rw [(hblocks j).1] at hj
    rw [(hblocks k).1] at hk
    exact h.unique j k b' hj hk
  · obtain ⟨-, -, hlocks, hpins, hrefcnt⟩ := hblocks j
    rw [hlocks, hpins, hrefcnt]
    exact h.refs j
  · obtain ⟨j, hj, hvalid⟩ := h.pinned b' hb'
    exact ⟨j, (hblocks j).1.trans hj, (hblocks j).2.1.trans hvalid⟩
  · dsimp only at hj hvalid ⊢
    rw [(hblocks j).1] at hj
    rw [(hblocks j).2.1] at hvalid
    by_cases hji : j = i
    · subst hji
      rw [hblock] at hj
      cases hj
      rw [update_self, Cache.store, Cache.set_buf]
    · have hne : b'.toNat ≠ b.toNat := by
        intro heq
        obtain rfl := BitVec.eq_of_toNat_eq heq
        exact hji (h.unique j i b' hj hblock)
      rw [update_of_ne hne, Cache.store, Cache.set_buf_of_ne _ _ hji]
      exact h.coherent j b' hj hvalid hL

/-! ### `brelse`, `bpin` and `bunpin` -/

theorem brelse (hlocked : (c.buf i).locked = true) : CacheInv L (c.brelse i) := by
  have hset : CacheInv L (c.set i
      { c.buf i with locked := false, refcnt := (c.buf i).refcnt - 1 }) := by
    refine h.set rfl id ?_ (h.coherent i)
    have hrefs := h.refs i
    simp only [Buf.locks, hlocked, if_true, Buf.pins, Bool.false_eq_true, if_false] at hrefs ⊢
    omega
  unfold Cache.brelse
  dsimp only
  split_ifs
  · -- the list only changes its order
    refine ⟨fun j => ?_, hset.unique, hset.refs, hset.pinned, hset.coherent⟩
    by_cases hj : j = i
    · rw [hj]
      exact mem_cons_self
    · exact mem_cons_of_mem _ ((mem_erase_of_ne hj).mpr (h.lru j))
  · exact hset

theorem store_bpin {v : Block} (hblock : (c.buf i).block = some b) (hvalid : (c.buf i).valid = true)
    (hb : b ∉ L) : CacheInv (L ++ [b]) ((c.store i v).bpin i) := by
  rw [Cache.bpin, Cache.store, Cache.set_buf, set_set]
  refine h.set_pins (fun b' hb' => ?_) rfl id (fun _ _ _ => hvalid) ?_ fun b' hb' _ hL => ?_
  · rw [hblock, ne_eq, Option.some.injEq] at hb'
    rw [mem_append, mem_singleton]
    exact or_iff_left (Ne.symm hb')
  · have hrefs := h.refs i
    have hold : (c.buf i).pins L = 0 := pins_of_notMem hb hblock
    have hmem : b ∈ L ++ [b] := mem_append_right L (mem_singleton_self b)
    have hnew : (c.buf i).pins (L ++ [b]) = 1 := pins_of_mem hmem hblock
    show (c.buf i).locks + (c.buf i).pins (L ++ [b]) ≤ (c.buf i).refcnt + 1
    omega
  · rw [hblock] at hb'
    cases hb'
    exact absurd (mem_append_right L (mem_singleton_self b)) hL

end CacheInv

/-- The first pinned block is on the disk, and no longer pinned. -/
theorem CacheInv.bunpin (h : CacheInv (b :: L) c) (hb : b ∉ L) (hblock : (c.buf i).block = some b)
    (hdata : (c.buf i).data = c.disk b.toNat) : CacheInv L (c.bunpin i) := by
  refine h.set_pins (fun b' hb' => ?_) rfl id (fun b' hL hb' => ?_) ?_ fun b' hb' _ _ => ?_
  · rw [hblock, ne_eq, Option.some.injEq] at hb'
    rw [mem_cons]
    exact (or_iff_right (Ne.symm hb')).symm
  · rw [hblock] at hb'
    cases hb'
    exact absurd hL hb
  · have hrefs := h.refs i
    have hold : (c.buf i).pins (b :: L) = 1 := pins_of_mem mem_cons_self hblock
    have hnew : (c.buf i).pins L = 0 := pins_of_notMem hb hblock
    show (c.buf i).locks + (c.buf i).pins L ≤ (c.buf i).refcnt - 1
    omega
  · rw [hblock] at hb'
    cases hb'
    exact hdata

end Functions

end Xv6.Bcache
