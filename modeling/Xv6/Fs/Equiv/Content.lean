import Xv6.Fs.Equiv.Blocks
import Xv6.Vm.Equiv.Copy

/-!
# The contents of files

`Stores s content`: the blocks of the inodes hold the bytes `content inum`, then zeros. `bmap`
changes no byte of a file (`bmap_byte`), a store to a block those that it is about (`write_byte`),
and `readi` copies them block by block (`readi_pieces`).
-/

namespace Xv6.Fs

open Lib Bcache Function List

variable {sb : Superblock} {s s' : State} {inum : Nat} {ip ip' : Dinode}
  {content : Nat → List UInt8}

/-! ### Bytes of a block -/

theorem toBitVec_getByte {data : Block} {k : Nat} (hk : k / 4 < bsize / 4) :
    (getByte data k).toBitVec = (data ⟨k / 4, hk⟩ >>> (8 * (k % 4))).setWidth 8 := by
  rw [getByte, dif_pos hk, UInt8.toBitVec_ofNat', BitVec.ofNat_toNat]

theorem getByte_setByte {data : Block} {k j : Nat} {v : UInt8} (hk : k < bsize) :
    getByte (setByte data j v) k = if k = j then v else getByte data k := by
  have hword : k / 4 < bsize / 4 := by
    simp only [bsize] at hk ⊢
    omega
  rw [← UInt8.toBitVec_inj, apply_ite UInt8.toBitVec, toBitVec_getByte hword,
    toBitVec_getByte hword, setByte]
  dsimp only
  by_cases hsame : k / 4 = j / 4
  · rw [if_pos hsame]
    ext i hi
    simp only [BitVec.getElem_setWidth, BitVec.getLsbD_ushiftRight, BitVec.getLsbD_or,
      BitVec.getLsbD_and, BitVec.getLsbD_not, BitVec.getLsbD_shiftLeft, BitVec.getLsbD_ofNat]
    by_cases hkj : k = j
    · subst hkj
      have hlt : 8 * (k % 4) + i < 32 := by omega
      have hsub : 8 * (k % 4) + i - 8 * (k % 4) = i := by omega
      rw [if_pos rfl, hsub]
      have hbit : Nat.testBit 255 i = true := by
        rw [show (255 : Nat) = 2 ^ 8 - 1 from rfl, Nat.testBit_two_pow_sub_one]
        exact decide_eq_true hi
      have hv : v.toNat.testBit i = v.toBitVec[i] := by
        rw [← BitVec.getLsbD_eq_getElem]
        rfl
      simp only [hlt, hbit, hv, decide_true, Nat.le_add_right, Nat.not_lt.mpr, decide_false,
        Bool.not_false, Bool.true_and, Bool.not_true, Bool.and_false, Bool.false_or,
        show i < 32 by omega]
    · rw [if_neg hkj]
      simp only [BitVec.getElem_setWidth, BitVec.getLsbD_ushiftRight]
      -- the two bytes are apart in the word
      have hmod : k % 4 ≠ j % 4 := by omega
      by_cases hlt : 8 * (k % 4) + i < 8 * (j % 4)
      · simp [hlt]
        intro h
        exact BitVec.lt_of_getLsbD h
      have hge : 8 ≤ 8 * (k % 4) + i - 8 * (j % 4) := by omega
      have hbit : Nat.testBit 255 (8 * (k % 4) + i - 8 * (j % 4)) = false := by
        rw [show (255 : Nat) = 2 ^ 8 - 1 from rfl, Nat.testBit_two_pow_sub_one]
        exact decide_eq_false (Nat.not_lt.mpr hge)
      have hv : v.toNat.testBit (8 * (k % 4) + i - 8 * (j % 4)) = false := by
        refine Nat.testBit_lt_two_pow (v.toNat_lt.trans_le ?_)
        exact Nat.pow_le_pow_right (by decide) hge
      simp [hbit, hv]
      intro h
      exact BitVec.lt_of_getLsbD h
  · rw [if_neg hsame, if_neg]
    rintro rfl
    exact hsame rfl

/-- The bytes of a block after a copy into it. -/
theorem getByte_setBytes {k : Nat} (hk : k < bsize) :
    ∀ (bytes : List UInt8) (data : Block) (off : Nat), getByte (setBytes data off bytes) k =
      if off ≤ k then bytes.getD (k - off) (getByte data k) else getByte data k
  | [], data, off => by simp [setBytes]
  | v :: vs, data, off => by
    rw [setBytes, getByte_setBytes hk vs, getByte_setByte hk]
    by_cases hlt : k < off
    · rw [if_neg (by omega), if_neg (by omega), if_neg (by omega)]
    by_cases heq : k = off
    · subst heq
      rw [if_neg (by omega), if_pos rfl, if_pos (Nat.le_refl k), Nat.sub_self]
      rfl
    · rw [if_pos (by omega), if_neg heq, if_pos (by omega)]
      obtain ⟨d, hd⟩ : ∃ d, k - off = d + 1 := ⟨k - off - 1, by omega⟩
      rw [hd, show k - (off + 1) = d by omega]
      rfl

/-! ### `bmap` and the data blocks -/

/-- Data blocks have kept their contents, and the new ones are zero. -/
def DataKept (inum : Nat) (ip : Dinode) (s : State) (ip' : Dinode) (s' : State) : Prop :=
  ∀ x slot, slot ≠ .indirect → (s'.iupdate inum ip').addr (x, slot) ≠ 0 →
    s'.block ((s'.iupdate inum ip').addr (x, slot)) =
      if (s.iupdate inum ip).addr (x, slot) = 0 then fun _ => 0
      else s.block ((s.iupdate inum ip).addr (x, slot))

theorem DataKept.refl : DataKept inum ip s ip s := by
  intro x slot _ hne
  rw [if_neg hne]

theorem DataKept.trans {ip₁ ip₂ : Dinode} {s₁ s₂ : State} (h₁ : DataKept inum ip s ip₁ s₁)
    (hgrown : Grown sb inum ip s ip₁ s₁) (h₂ : DataKept inum ip₁ s₁ ip₂ s₂) :
    DataKept inum ip s ip₂ s₂ := by
  intro x slot hslot hne
  rw [h₂ x slot hslot hne]
  by_cases hmid : (s₁.iupdate inum ip₁).addr (x, slot) = 0
  · rw [if_pos hmid, if_pos]
    by_contra hold
    rw [hgrown.kept _ hold] at hmid
    exact hold hmid
  · rw [if_neg hmid, h₁ x slot hslot hmid]

/-- A block is allocated for a place, and another block changes that is not a data block. -/
theorem DataKept.alloc {slot₀ : Slot} {b : BitVec 32} (h : Good sb inum ip s)
    (hb : sb.region.data b) (hfree : s.bitmap b = false)
    (hslot₀ : (s.iupdate inum ip).addr (inum, slot₀) = 0)
    (haddr : (s'.iupdate inum ip').addr = update (s.iupdate inum ip).addr (inum, slot₀) b)
    (hnew : slot₀ ≠ .indirect → s'.block b = fun _ => 0)
    (hblock : ∀ a x slot, slot ≠ .indirect → a = (s.iupdate inum ip).addr (x, slot) → a ≠ 0 →
      a ≠ b → s'.block a = s.block a) : DataKept inum ip s ip' s' := by
  intro x slot hslot hne
  rw [haddr] at hne ⊢
  by_cases hx : (x, slot) = (inum, slot₀)
  · obtain ⟨rfl, rfl⟩ := Prod.mk.inj hx
    rw [update_self, if_pos hslot₀]
    exact hnew hslot
  · rw [update_of_ne hx] at hne ⊢
    rw [if_neg hne]
    exact hblock _ x slot hslot rfl hne (h.owns.ne_of_free hb hfree _)

variable {a : BitVec 32} {bn : Nat} {slot : Slot}

theorem bslot_kept {i : Fin (ndirect + 1)} (slot : Slot) (h : Good sb inum ip s)
    (hslot : ∀ block, ip.addr block slot = ip.addrs i)
    (hset : ∀ b : BitVec 32, ∀ block : BitVec 32 → Block, ip.addrs i = 0 → (∀ j, block b j = 0) →
      (ip.setAddr i b).addr block = update (ip.addr block) slot b)
    (hb : bslot sb s ip i = .ok (a, ip', s')) : DataKept inum ip s ip' s' := by
  unfold bslot at hb
  split_ifs at hb with hzero
  · obtain ⟨⟨b, s₁⟩, hballoc, hb⟩ := bind_eq_ok.mp hb
    obtain ⟨rfl, rfl, rfl⟩ := by simpa [pure, Except.pure] using hb
    obtain ⟨hdata, hfree, heq⟩ := balloc_spec h.owns hballoc
    have hnew : s₁.block b = fun _ => 0 := by
      rw [heq]
      exact update_self ..
    have hself : (ip.setAddr i b).addr s₁.block = update (ip.addr s.block) slot b := by
      rw [hset b _ hzero (fun j => by rw [hnew]), h.balloc_self hballoc]
    refine DataKept.alloc h hdata hfree ?_
      (addr_update_slot inum h.type h.type hself (h.balloc_others hballoc))
      (fun _ => hnew) fun c x sl _ _ _ hne => ?_
    · rw [addr_iupdate_self h.type, hslot]
      exact hzero
    · rw [heq]
      exact update_of_ne hne _ _
  · cases hb
    exact DataKept.refl

/-- `bmap` keeps the data of all files. -/
theorem bmap_kept (h : Good sb inum ip s) (hb : bmap sb s ip bn = .ok (a, ip', s')) :
    DataKept inum ip s ip' s' := by
  unfold bmap at hb
  split_ifs at hb with hdirect hentry
  · refine bslot_kept (.direct ⟨bn, hdirect⟩) h (fun _ => rfl) (fun b block _ _ => ?_) hb
    exact addr_setAddr_direct ⟨bn, hdirect⟩ b
  obtain ⟨⟨ind, ip₁, s₁⟩, hslot, hb⟩ := bind_eq_ok.mp hb
  have hind := bslot_indirect h hslot
  have hgood := hind.grown.good
  have hkept : DataKept inum ip s ip₁ s₁ :=
    bslot_kept .indirect h (fun _ => rfl)
      (fun b block hzero hb => addr_setAddr_indirect hzero hb) hslot
  refine hkept.trans hind.grown ?_
  dsimp only at hb
  split_ifs at hb with hzero
  · obtain ⟨⟨b, s₂⟩, hballoc, hb⟩ := bind_eq_ok.mp hb
    obtain ⟨rfl, rfl, rfl⟩ := by simpa [pure, Except.pure] using hb
    obtain ⟨hdata, hfree, heq⟩ := balloc_spec hgood.owns hballoc
    have hbind : b ≠ ind := by
      rw [hind.addr]
      exact (hgood.owns.ne_of_free hdata hfree _).symm
    refine DataKept.alloc hgood hdata hfree ?_ (hgood.entry_alloc hind.addr hind.ne_zero hballoc)
      (fun _ => ?_) fun c x sl hsl hc hne hcb => ?_
    · exact (hgood.entry_addr hind.addr hind.ne_zero).trans hzero
    · dsimp only
      rw [update_of_ne hbind, heq]
      exact update_self ..
    · have hcind : c ≠ ind := by
        rintro rfl
        have hsame := hgood.owns.once _ _ (hc ▸ hne) (hc.symm.trans hind.addr)
        exact hsl (congrArg Prod.snd hsame)
      dsimp only
      rw [update_of_ne hcind, heq]
      exact update_of_ne hcb _ _
  · cases hb
    exact DataKept.refl

theorem bslot_type {i : Fin (ndirect + 1)} (hb : bslot sb s ip i = .ok (a, ip', s')) :
    ip'.type = ip.type := by
  unfold bslot at hb
  split_ifs at hb
  · obtain ⟨⟨b, s₁⟩, -, hb⟩ := bind_eq_ok.mp hb
    cases hb
    rfl
  · cases hb
    rfl

theorem bmap_type (hb : bmap sb s ip bn = .ok (a, ip', s')) :
    ip'.type = ip.type := by
  unfold bmap at hb
  split_ifs at hb
  · exact bslot_type hb
  obtain ⟨⟨ind, ip₁, s₁⟩, hslot, hb⟩ := bind_eq_ok.mp hb
  dsimp only at hb
  split_ifs at hb
  · obtain ⟨⟨b, s₂⟩, -, hb⟩ := bind_eq_ok.mp hb
    cases hb
    exact bslot_type hslot
  · cases hb
    exact bslot_type hslot

/-! ### Files -/

/-- The inodes have the bytes `content`, and the rest of their last blocks is zero. -/
structure Stores (s : State) (content : Nat → List UInt8) : Prop where
  covers : ∀ x, Covers x s (content x).length
  bytes : ∀ x bn slot o, slotOf bn = some slot → s.addr (x, slot) ≠ 0 → o < bsize →
    getByte (s.block (s.addr (x, slot))) o = (content x).getD (bn * bsize + o) 0

theorem Covers.le {x m n : Nat} (h : Covers x s n) (hm : m ≤ n) : Covers x s m :=
  fun bn hbn => h bn (Nat.lt_of_lt_of_le hbn hm)

theorem slotOf_ne_indirect (h : slotOf bn = some slot) :
    slot ≠ .indirect := by
  rw [slotOf] at h
  split_ifs at h <;> cases h
  · simp
  · simp

theorem slotOf_inj {bn bn' : Nat} (h : slotOf bn = some slot) (h' : slotOf bn' = some slot) :
    bn = bn' := by
  rw [slotOf] at h h'
  split_ifs at h h' <;> cases h <;> simp at h' <;> omega

section

variable (h : Stores s content)

include h

/-- No byte behind the blocks of a file. -/
theorem Stores.getD_eq_zero {x bn o : Nat} (hslot : slotOf bn = some slot)
    (hzero : s.addr (x, slot) = 0) :
    (content x).getD (bn * bsize + o) 0 = 0 := by
  rw [getD_eq_default]
  by_contra hlt
  obtain ⟨slot', hslot', hne⟩ := h.covers x bn (by omega)
  obtain rfl : slot = slot' := Option.some.inj (hslot.symm.trans hslot')
  exact hne hzero

/-- What files hold depends on their blocks only. -/
theorem Stores.congr {used : BitVec 32 → Bool}
    (howns : Owns sb.region s.addr used) (haddr : s'.addr = s.addr)
    (hblock : ∀ b, sb.region.data b → s'.block b = s.block b) : Stores s' content := by
  refine ⟨fun x bn hbn => ?_, fun x bn slot o hslot hne ho => ?_⟩
  · rw [haddr]
    exact h.covers x bn hbn
  · rw [haddr] at hne ⊢
    rw [hblock _ (howns.inside _ hne)]
    exact h.bytes x bn slot o hslot hne ho

theorem Stores.length_le (x : Nat) :
    (content x).length ≤ maxfile * bsize := by
  by_contra hlt
  obtain ⟨slot, hslot, -⟩ := h.covers x maxfile (by omega)
  rw [show slotOf maxfile = none by decide] at hslot
  cases hslot

theorem Stores.eq_nil {x : Nat} (hx : ∀ slot, s.addr (x, slot) = 0) :
    content x = [] := by
  refine eq_nil_of_length_eq_zero ?_
  by_contra hne
  obtain ⟨slot, -, hslot⟩ := h.covers x 0 (by omega)
  exact hslot (hx slot)

end

theorem getByte_zero (o : Nat) : getByte (fun _ => 0) o = 0 := by
  rw [getByte]
  split_ifs
  · simp
  · rfl

/-- Byte `k` of file `x`, which is 0 in a hole. -/
def State.byte (s : State) (x k : Nat) : UInt8 :=
  match slotOf (k / bsize) with
  | some slot => if s.addr (x, slot) = 0 then 0 else getByte (s.block (s.addr (x, slot))) (k % bsize)
  | none => 0

theorem byte_of_slot {x k : Nat} (hslot : slotOf (k / bsize) = some slot)
    (hne : s.addr (x, slot) ≠ 0) :
    s.byte x k = getByte (s.block (s.addr (x, slot))) (k % bsize) := by
  simp only [State.byte, hslot, if_neg hne]

/-- The bytes of a file are those of its contents. -/
theorem Stores.byte_eq (h : Stores s content) (x k : Nat) : s.byte x k = (content x).getD k 0 := by
  have hk : k / bsize * bsize + k % bsize = k := Nat.div_add_mod' k bsize
  cases hslot : slotOf (k / bsize) with
  | none =>
    have hlen := h.length_le x
    simp only [State.byte, hslot]
    refine (getD_eq_default _ _ ?_).symm
    unfold slotOf at hslot
    split_ifs at hslot
    unfold maxfile ndirect nindirect bsize at *
    omega
  | some slot =>
    by_cases hne : s.addr (x, slot) = 0
    · simp only [State.byte, hslot, if_pos hne]
      rw [← hk, h.getD_eq_zero hslot hne]
    · rw [byte_of_slot hslot hne, h.bytes x _ slot _ hslot hne (Nat.mod_lt k (by decide)), hk]

theorem Stores.of_byte (hcov : ∀ x, Covers x s (content x).length)
    (h : ∀ x k, s.byte x k = (content x).getD k 0) : Stores s content := by
  refine ⟨hcov, fun x bn slot o hslot hne ho => ?_⟩
  have hdiv : (bn * bsize + o) / bsize = bn := by
    unfold bsize at *
    omega
  have hmod : (bn * bsize + o) % bsize = o := by
    unfold bsize at *
    omega
  rw [← h, byte_of_slot (hdiv.symm ▸ hslot) hne, hmod]

theorem bmap_byte (hgood : Good sb inum ip s) (hb : Fs.bmap sb s ip bn = .ok (a, ip', s')) :
    (s'.iupdate inum ip').byte = (s.iupdate inum ip).byte := by
  obtain ⟨_, _, _, hfound⟩ := bmap_found hgood hb
  have hkept := bmap_kept hgood hb
  funext x k
  simp only [State.byte]
  cases hslot : slotOf (k / bsize) with
  | none => rfl
  | some slot =>
    dsimp only
    by_cases hne : (s'.iupdate inum ip').addr (x, slot) = 0
    · rw [if_pos hne, if_pos]
      by_contra hold
      exact hold ((hfound.grown.kept _ hold).symm.trans hne)
    · rw [if_neg hne, show (s'.iupdate inum ip').block = s'.block from rfl,
        hkept x slot (slotOf_ne_indirect hslot) hne]
      split_ifs
      · exact getByte_zero _
      · rfl

/-- **`bmap`** keeps the contents of all files. -/
theorem Stores.bmap (h : Stores (s.iupdate inum ip) content) (hgood : Good sb inum ip s)
    (hb : Fs.bmap sb s ip bn = .ok (a, ip', s')) :
    Stores (s'.iupdate inum ip') content := by
  obtain ⟨_, _, _, hfound⟩ := bmap_found hgood hb
  refine .of_byte (fun x => hfound.grown.covers (h.covers x)) fun x k => ?_
  rw [bmap_byte hgood hb, h.byte_eq]

section

variable {off : Nat} {bytes : List UInt8} (hgood : Good sb inum ip s)
  (hslot : slotOf (off / bsize) = some slot) (ha : a = (s.iupdate inum ip).addr (inum, slot))
  (hne : a ≠ 0) (hlen : bytes.length ≤ bsize - off % bsize)

include hgood hslot ha hne

theorem write_addr (v : Block) (r : Nat × Slot) :
    (State.iupdate { s with block := update s.block a v } inum ip).addr r =
      (s.iupdate inum ip).addr r := by
  refine addr_update_block (s := s.iupdate inum ip) fun heq => ?_
  rw [ha] at heq
  have hsame := hgood.owns.once _ _ (ha ▸ hne) heq.symm
  exact slotOf_ne_indirect hslot (congrArg Prod.snd hsame)

include hlen

/-- A round of the loop of `writei` changes the bytes that it writes. -/
theorem write_byte (x k : Nat) : (State.iupdate { s with
      block := update s.block a (setBytes (s.block a) (off % bsize) bytes) } inum ip).byte x k =
    if x = inum ∧ off ≤ k ∧ k < off + bytes.length then bytes.getD (k - off) 0
    else (s.iupdate inum ip).byte x k := by
  have haddr := write_addr hgood hslot ha hne (setBytes (s.block a) (off % bsize) bytes)
  by_cases hx : x = inum ∧ k / bsize = off / bsize
  · obtain ⟨rfl, hdiv⟩ := hx
    rw [← hdiv] at hslot
    have hne' := ha ▸ hne
    rw [byte_of_slot hslot (by rw [haddr]; exact hne'), byte_of_slot hslot hne', haddr, ← ha]
    change getByte (update s.block a _ a) _ = _
    rw [update_self, getByte_setBytes (Nat.mod_lt k (by decide))]
    by_cases hle : off ≤ k
    · have hsub : k % bsize - off % bsize = k - off := by
        unfold bsize at *
        omega
      rw [if_pos (by unfold bsize at *; omega), hsub]
      by_cases hlt : k < off + bytes.length
      · rw [if_pos ⟨rfl, hle, hlt⟩, getD_eq_getElem _ _ (by omega),
          getD_eq_getElem _ _ (by omega)]
      · rw [if_neg fun h => hlt h.2.2, getD_eq_default _ _ (by omega)]
        rfl
    · rw [if_neg (by unfold bsize at *; omega), if_neg fun h => hle h.2.1]
      rfl
  · rw [if_neg]
    · simp only [State.byte, haddr]
      cases hslot' : slotOf (k / bsize) with
      | none => rfl
      | some slot' =>
        dsimp only
        split_ifs with hzero
        · rfl
        change getByte (update s.block a _ _) _ = getByte (s.block _) _
        rw [update_of_ne]
        intro heq
        obtain ⟨hxi, rfl⟩ := Prod.mk.inj (hgood.owns.once _ _ hzero (heq.trans ha))
        exact hx ⟨hxi, slotOf_inj hslot' hslot⟩
    · rintro ⟨rfl, hle, hlt⟩
      refine hx ⟨rfl, ?_⟩
      unfold bsize at *
      omega

/-- A write at the end of a file appends to it. -/
theorem Stores.append (h : Stores (s.iupdate inum ip) content)
    (hoff : (content inum).length = off) :
    Stores (State.iupdate { s with
        block := update s.block a (setBytes (s.block a) (off % bsize) bytes) } inum ip)
      (update content inum (content inum ++ bytes)) := by
  have hwrite := hgood.write (v := setBytes (s.block a) (off % bsize) bytes)
    (slotOf_ne_indirect hslot) ha hne
  refine .of_byte (fun x => ?_) fun x k => ?_
  · by_cases hx : x = inum
    · subst hx
      rw [update_self, length_append, hoff]
      have hcov := hwrite.covers (h.covers x)
      rw [hoff] at hcov
      refine hcov.extend hslot ?_ hlen
      rw [write_addr hgood hslot ha hne, ← ha]
      exact hne
    · rw [update_of_ne hx]
      exact hwrite.covers (h.covers x)
  rw [write_byte hgood hslot ha hne hlen, h.byte_eq]
  by_cases hx : x = inum
  · subst hx
    rw [update_self]
    by_cases hle : off ≤ k
    · rw [getD_append_right _ _ _ _ (hoff ▸ hle), hoff]
      by_cases hlt : k < off + bytes.length
      · rw [if_pos ⟨rfl, hle, hlt⟩]
      · rw [if_neg fun h => hlt h.2.2, getD_eq_default _ _ (by omega),
          getD_eq_default _ _ (by omega)]
    · rw [if_neg fun h => hle h.2.1, getD_append _ _ _ _ (by omega)]
  · rw [if_neg fun h => hx h.1, update_of_ne hx]

end

/-! ### `readi` -/

/-- The calls of `either_copyout` for pieces one behind the other, up to the first that fails. -/
def deliver (buf : Buffer) : Nat → List (List UInt8) → Mem → Option Nat × Mem
  | tot, [], mem => (some tot, mem)
  | tot, piece :: pieces, mem =>
    let (ok, mem) := buf.copyout mem tot piece
    if ok then deliver buf (tot + piece.length) pieces mem else (none, mem)

def State.bytes (s : State) (x off n : Nat) : List UInt8 :=
  (List.range n).map fun k => s.byte x (off + k)

theorem bytes_add (s : State) (x off m n : Nat) :
    s.bytes x off (m + n) = s.bytes x off m ++ s.bytes x (off + m) n := by
  unfold State.bytes
  rw [range_add, map_append, map_map]
  simp only [Function.comp_def, Nat.add_assoc]

theorem Stores.bytes_eq (h : Stores s content) (x off n : Nat) :
    s.bytes x off (min n ((content x).length - off)) = ((content x).drop off).take n := by
  refine ext_getElem ?_ fun k hk hk' => ?_
  · simp [State.bytes]
  rw [length_take, length_drop] at hk'
  simp only [State.bytes, getElem_map, getElem_range, getElem_take,
    getElem_drop, h.byte_eq]
  exact getD_eq_getElem _ _ (by omega)

theorem getBytes_eq {x off m : Nat} (hslot : slotOf (off / bsize) = some slot)
    (hne : s.addr (x, slot) ≠ 0) (hm : m ≤ bsize - off % bsize) :
    getBytes (s.block (s.addr (x, slot))) (off % bsize) m = s.bytes x off m := by
  refine map_congr_left fun k hk => ?_
  have hkm := mem_range.mp hk
  have hdiv : (off + k) / bsize = off / bsize := by
    unfold bsize at *
    omega
  have hmod : (off + k) % bsize = off % bsize + k := by
    unfold bsize at *
    omega
  rw [byte_of_slot (hdiv.symm ▸ hslot) hne, hmod]

/-- The loop of `readi` delivers the bytes of the file, block by block. -/
theorem readLoop_pieces {buf : Buffer} {n : Nat} (hgood : Good sb inum ip s) :
    ∀ (fuel tot off : Nat) (mem : Mem), n - tot ≤ fuel →
      Covers inum (s.iupdate inum ip) (off + (n - tot)) →
      ∃ pieces, pieces.flatten = (s.iupdate inum ip).bytes inum off (n - tot) ∧
        readLoop sb buf n fuel tot off mem ip s =
          .ok ((deliver buf tot pieces mem).1, (deliver buf tot pieces mem).2, ip, s) := by
  intro fuel
  induction fuel with
  | zero =>
    intro tot off mem hfuel hend
    refine ⟨[], ?_, rfl⟩
    rw [show n - tot = 0 by omega]
    rfl
  | succ fuel ih =>
    intro tot off mem hfuel hend
    rw [readLoop]
    by_cases hlt : tot < n
    · rw [if_pos hlt]
      have hdiv : off / bsize * bsize ≤ off := Nat.div_mul_le_self off bsize
      obtain ⟨slot, hslot, hne⟩ := hend (off / bsize) (by omega)
      -- the file has the block, so `bmap` changes nothing
      have hbmap : bmap sb s ip (off / bsize) =
          .ok ((s.iupdate inum ip).addr (inum, slot), ip, s) := by
        have haddr : (s.iupdate inum ip).addr (inum, slot) = ip.addr s.block slot :=
          addr_iupdate_self hgood.type slot
        rw [haddr] at hne ⊢
        rw [slotOf] at hslot
        rw [bmap]
        split_ifs at hslot ⊢ with hdirect hentry
        · cases hslot
          exact if_neg hne
        cases hslot
        have hlast : ip.addrs (Fin.last ndirect) ≠ 0 := by
          intro hzero
          simp only [Dinode.addr, hzero, if_true, ne_eq, not_true_eq_false] at hne
        simp only [Dinode.addr, if_neg hlast] at hne ⊢
        rw [bslot, if_neg hlast]
        simp only [pure, Except.pure, bind, Except.bind, if_neg hne]
      set m := min (n - tot) (bsize - off % bsize) with hm
      have hmod := Nat.mod_lt off (show bsize > 0 by decide)
      have hbytes : getBytes (s.block ((s.iupdate inum ip).addr (inum, slot))) (off % bsize) m =
          (s.iupdate inum ip).bytes inum off m :=
        getBytes_eq (s := s.iupdate inum ip) hslot hne (by omega)
      have hlen : ((s.iupdate inum ip).bytes inum off m).length = m := by simp [State.bytes]
      simp only [hbmap, bind, Except.bind, hbytes]
      rcases hcopy : buf.copyout mem tot ((s.iupdate inum ip).bytes inum off m) with ⟨ok, mem'⟩
      obtain ⟨pieces, hflat, hread⟩ := ih (tot + m) (off + m) mem' (by omega)
        (by rwa [show off + m + (n - (tot + m)) = off + (n - tot) by omega])
      refine ⟨(s.iupdate inum ip).bytes inum off m :: pieces, ?_, ?_⟩
      · rw [flatten_cons, hflat, ← bytes_add, show m + (n - (tot + m)) = n - tot by omega]
      · simp only [deliver, hcopy, hlen]
        cases ok with
        | true => simpa using hread
        | false => rfl
    · rw [if_neg hlt]
      refine ⟨[], ?_, rfl⟩
      rw [show n - tot = 0 by omega]
      rfl

/-- **`readi`** gives the bytes of the file from `off` on, at most `n` of them, and changes
nothing. -/
theorem readi_pieces (buf : Buffer) (mem : Mem) {off n : BitVec 32}
    (hcov : Covers inum (s.iupdate inum ip) ip.size.toNat) (hgood : Good sb inum ip s)
    (hover : off.toNat + n.toNat < 2 ^ 32) :
    ∃ pieces, pieces.flatten = (s.iupdate inum ip).bytes inum off.toNat
        (min n.toNat (ip.size.toNat - off.toNat)) ∧
      readi sb s ip buf mem off n =
        .ok ((deliver buf 0 pieces mem).1, (deliver buf 0 pieces mem).2, ip, s) := by
  have hadd : (off + n).toNat = off.toNat + n.toNat := by
    rw [BitVec.toNat_add]
    exact Nat.mod_eq_of_lt hover
  rw [readi]
  by_cases hpast : off > ip.size ∨ off + n < off
  · refine ⟨[], ?_, by rw [if_pos hpast]; rfl⟩
    have hlt : ip.size.toNat < off.toNat := by
      obtain h | h := hpast
      · exact h
      · have : (off + n).toNat < off.toNat := h
        omega
    rw [Nat.min_eq_right (by omega), Nat.sub_eq_zero_of_le (by omega)]
    rfl
  rw [if_neg hpast]
  have hle : off.toNat ≤ ip.size.toNat := Nat.not_lt.mp fun hlt => hpast (.inl hlt)
  dsimp only
  by_cases hend : off + n > ip.size
  · have hgt : ip.size.toNat < off.toNat + n.toNat := hadd ▸ hend
    have hsub : (ip.size - off).toNat = ip.size.toNat - off.toNat := BitVec.toNat_sub_of_le hle
    rw [if_pos hend]
    obtain ⟨pieces, hflat, hread⟩ := readLoop_pieces (n := (ip.size - off).toNat) hgood
      (ip.size - off).toNat 0 off.toNat mem (by omega) (hcov.le (by omega))
    refine ⟨pieces, ?_, hread⟩
    rw [hflat, hsub, Nat.sub_zero, Nat.min_eq_right (by omega)]
  · have hnot : ¬ip.size.toNat < off.toNat + n.toNat := hadd ▸ hend
    rw [if_neg hend]
    obtain ⟨pieces, hflat, hread⟩ := readLoop_pieces (n := n.toNat) hgood
      n.toNat 0 off.toNat mem (by omega) (hcov.le (by omega))
    refine ⟨pieces, ?_, hread⟩
    rw [hflat, Nat.sub_zero, Nat.min_eq_left (by omega)]

/-! ### Kernel addresses -/

theorem deliver_kernel {buf : Buffer} (hbuf : buf.walkaddr = none) :
    ∀ (pieces : List (List UInt8)) (done : List UInt8) (mem : Mem),
      done.length + pieces.flatten.length < 2 ^ 64 →
      deliver buf done.length pieces (memmove mem buf.addr done) =
        (some (done.length + pieces.flatten.length), memmove mem buf.addr (done ++ pieces.flatten))
  | [], done, mem, _ => by simp [deliver]
  | piece :: pieces, done, mem, hlen => by
    rw [flatten_cons, length_append] at hlen
    simp only [deliver, Buffer.copyout, hbuf, if_true]
    rw [memmove_append _ _ _ _ (by omega), ← length_append,
      deliver_kernel hbuf pieces (done ++ piece) mem (by rw [length_append]; omega)]
    simp only [flatten_cons, length_append, append_assoc, Nat.add_assoc]

end Xv6.Fs
