import Xv6.Fs.Blocks
import Xv6.Lib.Except

/-!
# The blocks of a file

What `bmap` and `itrunc` do to the addresses of blocks. An operation works on a copy `ip` of the
inode that goes to the disk at its end, so the addresses in between are those of `s.iupdate inum
ip`. They own the blocks in use (`Good`), and an operation only adds to them (`Grown`). `itrunc`
frees what the inode owns, and does not panic (`itrunc_freed`).
-/

namespace Xv6.Fs

open Lib Bcache Function List

variable {sb : Superblock} {s s' : State} {inum : Nat} {ip ip' : Dinode}

/-! ### Addresses -/

/-- The addresses of an inode after `iupdate` are those of its copy in memory. -/
theorem addr_iupdate (r : Nat × Slot) : (s.iupdate inum ip).addr r =
    if r.1 = inum then (if ip.type = 0 then 0 else ip.addr s.block r.2) else s.addr r := by
  obtain ⟨x, slot⟩ := r
  simp only [State.addr, State.iupdate, update_apply]
  split_ifs
  · rfl
  · rfl
  · rfl
  · rfl

theorem addr_iupdate_self (htype : ip.type ≠ 0) (slot : Slot) :
    (s.iupdate inum ip).addr (inum, slot) = ip.addr s.block slot := by
  rw [addr_iupdate, if_pos rfl, if_neg htype]

variable {slot : Slot} {b : BitVec 32} {block : BitVec 32 → Block} {a : BitVec 32}
  {ind a : BitVec 32} {e : Panic} {j : Fin nindirect} {buf : Buffer} {n : Nat}

theorem addr_iupdate_of_ne {x : Nat} (h : x ≠ inum) :
    (s.iupdate inum ip).addr (x, slot) = s.addr (x, slot) := by
  rw [addr_iupdate, if_neg h]

theorem iupdate_iupdate : (s.iupdate inum ip).iupdate inum ip' = s.iupdate inum ip' := by
  simp only [State.iupdate, update_idem]

theorem addr_iupdate_congr (htype : ip'.type = ip.type) (haddrs : ip'.addrs = ip.addrs) :
    (s.iupdate inum ip').addr = (s.iupdate inum ip).addr := by
  funext r
  have haddr : ip'.addr s.block = ip.addr s.block := by
    funext slot
    cases slot with
    | direct | indirect | entry => simp only [Dinode.addr, haddrs]
  rw [addr_iupdate, addr_iupdate, htype, haddr]

theorem addr_congr {block block' : BitVec 32 → Block}
    (h : ip.addrs (Fin.last ndirect) ≠ 0 →
      block' (ip.addrs (Fin.last ndirect)) = block (ip.addrs (Fin.last ndirect))) :
    ip.addr block' = ip.addr block := by
  funext slot
  cases slot with
  | direct | indirect => rfl
  | entry =>
    simp only [Dinode.addr]
    split_ifs with hlast
    · rfl
    · rw [h hlast]

/-- The contents of a block that is not the indirect block of an inode do not matter to it. -/
theorem addr_update_block {v : Block} {bitmap : BitVec 32 → Bool} {r : Nat × Slot}
    (h : s.addr (r.1, .indirect) ≠ b) :
    State.addr { s with bitmap, block := update s.block b v } r = s.addr r := by
  obtain ⟨x, slot⟩ := r
  simp only [State.addr] at h ⊢
  split_ifs with htype
  · rfl
  · rw [if_neg htype] at h
    rw [addr_congr fun _ => update_of_ne h _ _]

theorem setAddr_self (i : Fin (ndirect + 1)) (a : BitVec 32) :
    (ip.setAddr i a).addrs i = a := update_self ..

theorem setAddr_of_ne {i j : Fin (ndirect + 1)} (a : BitVec 32) (h : j ≠ i) :
    (ip.setAddr i a).addrs j = ip.addrs j := update_of_ne h _ _

/-- Storing a direct address changes one slot. -/
theorem addr_setAddr_direct (i : Fin ndirect) (a : BitVec 32) :
    (ip.setAddr i.castSucc a).addr block = update (ip.addr block) (.direct i) a := by
  have hlast : (ip.setAddr i.castSucc a).addrs (Fin.last ndirect) = ip.addrs (Fin.last ndirect) :=
    setAddr_of_ne a (Fin.castSucc_lt_last i).ne'
  funext slot
  cases slot with
  | direct j =>
    by_cases hj : j = i
    · rw [hj, update_self, Dinode.addr, setAddr_self]
    · have hne : Slot.direct j ≠ .direct i := by simpa using hj
      rw [update_of_ne hne, Dinode.addr, Dinode.addr]
      exact setAddr_of_ne a fun h => hj (Fin.castSucc_injective _ h)
  | indirect =>
    rw [update_of_ne (by simp)]
    exact hlast
  | entry =>
    rw [update_of_ne (by simp)]
    simp only [Dinode.addr, hlast]

/-- A new indirect block has no entries. -/
theorem addr_setAddr_indirect (hlast : ip.addrs (Fin.last ndirect) = 0)
    (ha : ∀ j, block a j = 0) :
    (ip.setAddr (Fin.last ndirect) a).addr block = update (ip.addr block) .indirect a := by
  funext slot
  cases slot with
  | direct j =>
    rw [update_of_ne (by simp)]
    exact setAddr_of_ne a (Fin.castSucc_lt_last j).ne
  | indirect =>
    rw [update_self]
    exact setAddr_self ..
  | entry =>
    rw [update_of_ne (by simp)]
    simp only [Dinode.addr, setAddr_self, hlast, if_true, ha, ite_self]

/-- Storing an entry of the indirect block changes one slot. -/
theorem addr_update_entry (j : Fin nindirect) (hlast : ip.addrs (Fin.last ndirect) = ind)
    (hind : ind ≠ 0) :
    ip.addr (update block ind (update (block ind) j a)) = update (ip.addr block) (.entry j) a := by
  funext slot
  cases slot with
  | direct | indirect => rw [update_of_ne (by simp), Dinode.addr, Dinode.addr]
  | entry k =>
    simp only [Dinode.addr, hlast, if_neg hind, update_self]
    by_cases hk : k = j
    · rw [hk, update_self, update_self]
    · have hne : Slot.entry k ≠ .entry j := by simpa using hk
      rw [update_of_ne hk, update_of_ne hne]
      simp only [Dinode.addr, hlast, if_neg hind]

/-- The addresses of an inode after a change at one place. -/
theorem addr_update_slot (inum : Nat) (htype : ip.type ≠ 0) (htype' : ip'.type ≠ 0)
    (hself : ip'.addr s'.block = update (ip.addr s.block) slot a)
    (hothers : ∀ r : Nat × Slot, r.1 ≠ inum → s'.addr r = s.addr r) :
    (s'.iupdate inum ip').addr = update (s.iupdate inum ip).addr (inum, slot) a := by
  funext ⟨x, slot'⟩
  by_cases hx : x = inum
  · subst hx
    rw [addr_iupdate_self htype', hself, update_apply, update_apply,
      addr_iupdate_self htype]
    simp only [Prod.mk.injEq, true_and]
  · rw [addr_iupdate_of_ne hx, hothers _ hx, update_of_ne (by simp [hx]),
      addr_iupdate_of_ne hx]

/-! ### What an operation keeps -/

/-- The addresses of the blocks in use, while the copy of an inode is `ip`. -/
structure Good (sb : Superblock) (inum : Nat) (ip : Dinode) (s : State) : Prop where
  owns : Owns sb.region (s.iupdate inum ip).addr s.bitmap
  type : ip.type ≠ 0

/-- Addresses have only been added. -/
structure Grown (sb : Superblock) (inum : Nat) (ip : Dinode) (s : State) (ip' : Dinode)
    (s' : State) : Prop where
  good : Good sb inum ip' s'
  kept : ∀ r, (s.iupdate inum ip).addr r ≠ 0 →
    (s'.iupdate inum ip').addr r = (s.iupdate inum ip).addr r
  size : ip'.size = ip.size
  dinode : s'.dinode = s.dinode
  inode : s'.inode = s.inode

theorem Good.grown (h : Good sb inum ip s) : Grown sb inum ip s ip s :=
  ⟨h, fun _ _ => rfl, rfl, rfl, rfl⟩

/-- Growing twice is growing. -/
theorem Grown.trans {ip₁ ip₂ : Dinode} {s₁ s₂ : State} (h₁ : Grown sb inum ip s ip₁ s₁)
    (h₂ : Grown sb inum ip₁ s₁ ip₂ s₂) : Grown sb inum ip s ip₂ s₂ := by
  refine ⟨h₂.good, fun r hr => ?_, h₂.size.trans h₁.size, h₂.dinode.trans h₁.dinode,
    h₂.inode.trans h₁.inode⟩
  have hkept := h₁.kept r hr
  rw [h₂.kept r (by rw [hkept]; exact hr), hkept]

/-- A free block can be given to an empty slot. -/
theorem Good.alloc (h : Good sb inum ip s)
    (hslot : (s.iupdate inum ip).addr (inum, slot) = 0) (hb : sb.region.data b)
    (hfree : s.bitmap b = false) (htype : ip'.type = ip.type) (hsize : ip'.size = ip.size)
    (hdinode : s'.dinode = s.dinode) (hinode : s'.inode = s.inode)
    (hbitmap : s'.bitmap = update s.bitmap b true)
    (haddr : (s'.iupdate inum ip').addr = update (s.iupdate inum ip).addr (inum, slot) b) :
    Grown sb inum ip s ip' s' := by
  refine ⟨⟨?_, ?_⟩, fun r hr => ?_, hsize, hdinode, hinode⟩
  · rw [haddr, hbitmap]
    exact h.owns.alloc hslot hb hfree
  · rw [htype]
    exact h.type
  · rw [haddr, update_of_ne]
    rintro rfl
    exact hr hslot

/-! ### `balloc` -/

/-- `balloc` takes a free data block and clears it. -/
theorem balloc_spec {ρ : Type*} {addr : ρ → BitVec 32} (h : Owns sb.region addr s.bitmap)
    (hb : balloc sb s = .ok (b, s')) :
    sb.region.data b ∧ s.bitmap b = false ∧ s' =
      { s with
        bitmap := update s.bitmap b true
        block := update s.block b fun _ => 0 } := by
  unfold balloc at hb
  split at hb
  case h_1 k hk =>
    obtain ⟨rfl, rfl⟩ := Prod.mk.inj (Except.ok.inj hb)
    have hfree : s.bitmap (BitVec.ofNat 32 k) = false := by simpa using List.find?_some hk
    have hlt : k < sb.size.toNat := mem_range.mp (mem_of_find?_eq_some hk)
    have htoNat : (BitVec.ofNat 32 k).toNat = k := by
      rw [BitVec.toNat_ofNat]
      exact Nat.mod_eq_of_lt (hlt.trans sb.size.isLt)
    refine ⟨⟨?_, ?_⟩, hfree, rfl⟩
    · -- the blocks before the data blocks are in use
      by_contra hle
      have hused := h.reserved _ (Nat.not_le.mp hle)
      cases hfree.symm.trans hused
    · rw [htoNat]
      exact hlt
  case h_2 => cases hb

theorem balloc_error (h : balloc sb s = .error e) : e = .outOfBlocks := by
  unfold balloc at h
  split at h
  · cases h
  · exact (Except.error.inj h).symm

/-! ### `bmap` -/

section Balloc

variable {b : BitVec 32} (h : Good sb inum ip s) (hb : balloc sb s = .ok (b, s'))

include h hb

theorem Good.balloc_self : ip.addr s'.block = ip.addr s.block := by
  obtain ⟨hdata, hfree, rfl⟩ := balloc_spec h.owns hb
  refine addr_congr fun _ => update_of_ne ?_ _ _
  have hne := h.owns.ne_of_free hdata hfree (inum, .indirect)
  rwa [addr_iupdate_self h.type] at hne

theorem Good.balloc_others (r : Nat × Slot) (hr : r.1 ≠ inum) : s'.addr r = s.addr r := by
  obtain ⟨hdata, hfree, rfl⟩ := balloc_spec h.owns hb
  have hne := h.owns.ne_of_free hdata hfree (r.1, .indirect)
  rw [addr_iupdate_of_ne hr] at hne
  exact addr_update_block hne

theorem Good.balloc_grown (ip' : Dinode) (slot : Slot) (hslot : ip.addr s.block slot = 0)
    (htype : ip'.type = ip.type) (hsize : ip'.size = ip.size)
    (hself : ip'.addr s'.block = update (ip.addr s.block) slot b) :
    Grown sb inum ip s ip' s' ∧ b = (s'.iupdate inum ip').addr (inum, slot) ∧ b ≠ 0 := by
  obtain ⟨hdata, hfree, heq⟩ := balloc_spec h.owns hb
  have htype' : ip'.type ≠ 0 := by
    rw [htype]
    exact h.type
  have haddr := addr_update_slot inum h.type htype' hself (h.balloc_others hb)
  refine ⟨?_, ?_, h.owns.ne_zero hdata⟩
  · refine h.alloc ?_ hdata hfree htype hsize (by rw [heq]) (by rw [heq]) (by rw [heq]) haddr
    rwa [addr_iupdate_self h.type]
  · rw [haddr, update_self]

end Balloc

/-- What `bmap` has done, when the address is at the place `slot`. -/
structure Found (sb : Superblock) (inum : Nat) (ip : Dinode) (s : State) (slot : Slot)
    (a : BitVec 32) (ip' : Dinode) (s' : State) : Prop where
  grown : Grown sb inum ip s ip' s'
  addr : a = (s'.iupdate inum ip').addr (inum, slot)
  ne_zero : a ≠ 0
  same : (s.iupdate inum ip).addr (inum, slot) ≠ 0 → ip' = ip ∧ s' = s

section

variable (h : Good sb inum ip s)

include h

/-- A slot has its block, or gets a new one. -/
theorem bslot_found {k : Fin (ndirect + 1)}
    (hslot : ip.addr s.block slot = ip.addrs k)
    (hself : ∀ b s₁, ip.addrs k = 0 → balloc sb s = .ok (b, s₁) →
      (ip.setAddr k b).addr s₁.block = update (ip.addr s.block) slot b)
    (hb : bslot sb s ip k = .ok (a, ip', s')) : Found sb inum ip s slot a ip' s' := by
  have haddr : (s.iupdate inum ip).addr (inum, slot) = ip.addrs k :=
    (addr_iupdate_self h.type _).trans hslot
  unfold bslot at hb
  split_ifs at hb with hzero
  · obtain ⟨⟨b, s₁⟩, hballoc, hb⟩ := bind_eq_ok.mp hb
    obtain ⟨rfl, rfl, rfl⟩ := by simpa [pure, Except.pure] using hb
    obtain ⟨hgrown, hb, hne⟩ := h.balloc_grown hballoc (ip.setAddr k b) slot (hslot.trans hzero) rfl
      rfl (hself b s₁ hzero hballoc)
    exact ⟨hgrown, hb, hne, fun hold => absurd (haddr.trans hzero) hold⟩
  · cases hb
    exact ⟨h.grown, haddr.symm, hzero, fun _ => ⟨rfl, rfl⟩⟩

/-- A direct block is found. -/
theorem bslot_direct {i : Fin ndirect}
    (hb : bslot sb s ip i.castSucc = .ok (a, ip', s')) :
    Found sb inum ip s (.direct i) a ip' s' := by
  refine bslot_found h rfl (fun b s₁ _ hballoc => ?_) hb
  rw [addr_setAddr_direct, h.balloc_self hballoc]

/-- The indirect block is found. -/
theorem bslot_indirect
    (hb : bslot sb s ip (Fin.last ndirect) = .ok (a, ip', s')) :
    Found sb inum ip s .indirect a ip' s' := by
  refine bslot_found h rfl (fun b s₁ hzero hballoc => ?_) hb
  have hblock : ∀ j, s₁.block b j = 0 := by
    obtain ⟨-, -, rfl⟩ := balloc_spec h.owns hballoc
    intro j
    dsimp only
    rw [update_self]
  rw [addr_setAddr_indirect hzero hblock, h.balloc_self hballoc]

/-- A block of the inode is not the indirect block of another one. -/
theorem Good.indirect_ne (ha : a = (s.iupdate inum ip).addr (inum, slot))
    (hne : a ≠ 0) {x : Nat} (hx : x ≠ inum) :
    s.addr (x, .indirect) ≠ a := by
  intro heq
  have hother : (s.iupdate inum ip).addr (x, .indirect) = s.addr (x, .indirect) :=
    addr_iupdate_of_ne hx
  have hsame := h.owns.once _ _ (ha ▸ hne) (ha.symm.trans (hother.trans heq).symm)
  exact hx (congrArg Prod.fst hsame).symm

theorem Good.addrs_last (hind : ind = (s.iupdate inum ip).addr (inum, .indirect)) :
    ip.addrs (Fin.last ndirect) = ind := by
  rw [hind, addr_iupdate_self h.type]
  rfl

theorem Good.entry_addr (hind : ind = (s.iupdate inum ip).addr (inum, .indirect)) (hne : ind ≠ 0) :
    (s.iupdate inum ip).addr (inum, .entry j) = s.block ind j := by
  rw [addr_iupdate_self h.type]
  simp only [Dinode.addr, h.addrs_last hind, if_neg hne]

theorem Good.entry_alloc {s₁ : State}
    (hind : ind = (s.iupdate inum ip).addr (inum, .indirect)) (hne : ind ≠ 0)
    (hb : balloc sb s = .ok (a, s₁)) :
    (State.iupdate { s₁ with block := update s₁.block ind (update (s₁.block ind) j a) }
      inum ip).addr = update (s.iupdate inum ip).addr (inum, .entry j) a := by
  refine addr_update_slot inum h.type h.type ?_ fun r hr => ?_
  · rw [addr_update_entry j (h.addrs_last hind) hne, h.balloc_self hb]
  · have hother : s₁.addr (r.1, .indirect) ≠ ind := by
      rw [h.balloc_others hb (r.1, .indirect) hr]
      exact h.indirect_ne hind hne hr
    exact (addr_update_block hother).trans (h.balloc_others hb r hr)

/-- The second part of `bmap`, with the indirect block at hand. -/
theorem Good.entry_found {s₁ : State}
    (hind : ind = (s.iupdate inum ip).addr (inum, .indirect)) (hne : ind ≠ 0)
    (hzero : s.block ind j = 0) (hb : balloc sb s = .ok (a, s₁)) :
    Found sb inum ip s (.entry j) a ip
      { s₁ with block := update s₁.block ind (update (s₁.block ind) j a) } := by
  obtain ⟨hdata, hfree, heq⟩ := balloc_spec h.owns hb
  have haddr := h.entry_alloc (j := j) hind hne hb
  have hold := (h.entry_addr hind hne).trans hzero
  refine ⟨?_, ?_, h.owns.ne_zero hdata, fun hold' => absurd hold hold'⟩
  · exact h.alloc hold hdata hfree rfl rfl (by rw [heq]) (by rw [heq]) (by rw [heq]) haddr
  · rw [haddr, update_self]

end

theorem indirect_ne_zero (h : (s.iupdate inum ip).addr (inum, .entry j) ≠ 0) :
    (s.iupdate inum ip).addr (inum, .indirect) ≠ 0 := by
  rw [addr_iupdate, if_pos rfl] at h ⊢
  by_cases htype : ip.type = 0
  · rw [if_pos htype] at h
    exact absurd rfl h
  · rw [if_neg htype] at h ⊢
    intro hlast
    simp only [Dinode.addr] at h hlast
    rw [if_pos hlast] at h
    exact h rfl

/-- An entry of the indirect block is found. -/
theorem Found.entry {ip₁ : Dinode} {s₁ : State} (hind : Found sb inum ip s .indirect ind ip₁ s₁)
    (hf : Found sb inum ip₁ s₁ (.entry j) a ip' s') :
    Found sb inum ip s (.entry j) a ip' s' := by
  refine ⟨hind.grown.trans hf.grown, hf.addr, hf.ne_zero, fun hold => ?_⟩
  obtain ⟨rfl, rfl⟩ := hind.same (indirect_ne_zero hold)
  exact hf.same hold

/-- `bmap` finds the block of every slot, or allocates it. -/
theorem bmap_found {bn : Nat} (h : Good sb inum ip s) (hb : bmap sb s ip bn = .ok (a, ip', s')) :
    ∃ slot, slotOf bn = some slot ∧ slot ≠ .indirect ∧ Found sb inum ip s slot a ip' s' := by
  unfold bmap at hb
  split_ifs at hb with hdirect hentry
  · refine ⟨.direct ⟨bn, hdirect⟩, ?_, nofun, bslot_direct h hb⟩
    rw [slotOf, dif_pos hdirect]
  refine ⟨.entry ⟨bn - ndirect, hentry⟩, ?_, nofun, ?_⟩
  · rw [slotOf, dif_neg hdirect, dif_pos hentry]
  obtain ⟨⟨ind, ip₁, s₁⟩, hslot, hb⟩ := bind_eq_ok.mp hb
  have hind := bslot_indirect h hslot
  have hgood := hind.grown.good
  refine hind.entry ?_
  dsimp only at hb
  split_ifs at hb with hzero
  · obtain ⟨⟨b, s₂⟩, hballoc, hb⟩ := bind_eq_ok.mp hb
    cases hb
    exact hgood.entry_found hind.addr hind.ne_zero hzero hballoc
  obtain ⟨rfl, rfl, rfl⟩ := by simpa [pure, Except.pure] using hb
  exact ⟨hgood.grown, (hgood.entry_addr hind.addr hind.ne_zero).symm, hzero, fun _ => ⟨rfl, rfl⟩⟩

theorem bmap_error {bn : Nat} (h : bmap sb s ip bn = .error e) : e ≠ .freeBlock := by
  have hslot : ∀ {i}, bslot sb s ip i = .error e → e ≠ .freeBlock := by
    intro i h
    unfold bslot at h
    split_ifs at h
    · obtain h | ⟨_, _, h⟩ := bind_eq_error.mp h
      · rw [balloc_error h]
        nofun
      · cases h
    · cases h
  unfold bmap at h
  split_ifs at h
  · exact hslot h
  · obtain h | ⟨⟨ind, ip₁, s₁⟩, _, h⟩ := bind_eq_error.mp h
    · exact hslot h
    dsimp only at h
    split_ifs at h
    · obtain h | ⟨_, _, h⟩ := bind_eq_error.mp h
      · rw [balloc_error h]
        nofun
      · cases h
    · cases h
  · obtain rfl := Except.error.inj h
    nofun

/-! ### The loop of `writei` -/

/-- Writing to a data block leaves all addresses alone. -/
theorem Good.write (h : Good sb inum ip s) {v : Block} (hslot : slot ≠ .indirect)
    (ha : a = (s.iupdate inum ip).addr (inum, slot)) (hne : a ≠ 0) :
    Grown sb inum ip s ip { s with block := update s.block a v } := by
  have haddr : (State.iupdate { s with block := update s.block a v } inum ip).addr =
      (s.iupdate inum ip).addr := by
    funext ⟨x, slot'⟩
    refine addr_update_block (s := s.iupdate inum ip) fun heq => ?_
    rw [ha] at heq
    have hsame := h.owns.once _ _ (ha ▸ hne) heq.symm
    exact hslot (congrArg Prod.snd hsame)
  refine ⟨⟨?_, h.type⟩, fun r _ => ?_, rfl, rfl, rfl⟩
  · rw [haddr]
    exact h.owns
  · rw [haddr]

/-- The blocks below `size` have addresses. -/
def Covers (inum : Nat) (s : State) (size : Nat) : Prop :=
  ∀ bn, bn * bsize < size → ∃ slot, slotOf bn = some slot ∧ s.addr (inum, slot) ≠ 0

theorem Grown.covers (h : Grown sb inum ip s ip' s') {x size : Nat}
    (hcov : Covers x (s.iupdate inum ip) size) : Covers x (s'.iupdate inum ip') size := by
  intro bn hbn
  obtain ⟨slot, hslot, hne⟩ := hcov bn hbn
  refine ⟨slot, hslot, ?_⟩
  rw [h.kept _ hne]
  exact hne

/-- A block more is covered. -/
theorem Covers.extend {off m : Nat} (h : Covers inum s off)
    (hslot : slotOf (off / bsize) = some slot) (hne : s.addr (inum, slot) ≠ 0)
    (hm : m ≤ bsize - off % bsize) : Covers inum s (off + m) := by
  intro bn hbn
  by_cases hlt : bn * bsize < off
  · exact h bn hlt
  have hbn : bn = off / bsize := by
    have hmod := Nat.div_add_mod off bsize
    have hpos : 0 < bsize := by decide
    have hle : off / bsize ≤ bn := Nat.div_le_of_le_mul (by rw [Nat.mul_comm]; omega)
    have hge : bn ≤ off / bsize := by
      by_contra hgt
      have hmul : (off / bsize + 1) * bsize ≤ bn * bsize :=
        Nat.mul_le_mul_right _ (Nat.not_le.mp hgt)
      rw [Nat.add_mul, Nat.one_mul, Nat.mul_comm] at hmul
      omega
    omega
  rw [hbn]
  exact ⟨slot, hslot, hne⟩

/-- The loop of `writei` only grows the file. -/
theorem writeLoop_grown {mem : Mem} :
    ∀ (fuel tot off : Nat) (ip : Dinode) (s : State) {tot' off' : Nat}, Good sb inum ip s →
      Covers inum (s.iupdate inum ip) off →
      writeLoop sb buf mem n fuel tot off ip s = .ok (tot', off', ip', s') →
        Grown sb inum ip s ip' s' ∧ Covers inum (s'.iupdate inum ip') off' ∧
          off' ≤ off + (n - tot) := by
  intro fuel
  induction fuel with
  | zero =>
    intro tot off ip s tot' off' h hcov hloop
    cases hloop
    exact ⟨h.grown, hcov, by omega⟩
  | succ fuel ih =>
    intro tot off ip s tot' off' h hcov hloop
    rw [writeLoop] at hloop
    split_ifs at hloop with hlt
    · obtain ⟨⟨a, ip₁, s₁⟩, hbmap, hloop⟩ := bind_eq_ok.mp hloop
      obtain ⟨slot, hslot, hne, hfound⟩ := bmap_found h hbmap
      dsimp only at hloop
      generalize buf.copyin mem tot (min (n - tot) (bsize - off % bsize)) = result at hloop
      obtain ⟨ok, bytes⟩ := result
      dsimp only at hloop
      have hwrite := hfound.grown.good.write (v := setBytes (s₁.block a) (off % bsize) bytes)
        hne hfound.addr hfound.ne_zero
      have hgrown := hfound.grown.trans hwrite
      split_ifs at hloop
      · have hext : Covers inum _ (off + min (n - tot) (bsize - off % bsize)) :=
          (hgrown.covers hcov).extend hslot
            (by rw [hwrite.kept _ (hfound.addr ▸ hfound.ne_zero), ← hfound.addr]
                exact hfound.ne_zero) (min_le_right _ _)
        obtain ⟨hrest, hcov', hle⟩ := ih _ _ _ _ hgrown.good hext hloop
        exact ⟨hgrown.trans hrest, hcov', by omega⟩
      · cases hloop
        exact ⟨hgrown, hgrown.covers hcov, by omega⟩
    · cases hloop
      exact ⟨h.grown, hcov, by omega⟩

theorem writeLoop_error {mem : Mem} :
    ∀ (fuel tot off : Nat) (ip : Dinode) (s : State),
      writeLoop sb buf mem n fuel tot off ip s = .error e → e ≠ .freeBlock := by
  intro fuel
  induction fuel with
  | zero =>
    intro tot off ip s hloop
    cases hloop
  | succ fuel ih =>
    intro tot off ip s hloop
    rw [writeLoop] at hloop
    split_ifs at hloop
    · obtain hbmap | ⟨⟨a, ip₁, s₁⟩, _, hloop⟩ := bind_eq_error.mp hloop
      · exact bmap_error hbmap
      · dsimp only at hloop
        split_ifs at hloop
        exact ih _ _ _ _ hloop

/-! ### The loop of `readi` -/

theorem readLoop_error :
    ∀ (fuel tot off : Nat) (mem : Mem) (ip : Dinode) (s : State),
      readLoop sb buf n fuel tot off mem ip s = .error e → e ≠ .freeBlock := by
  intro fuel
  induction fuel with
  | zero =>
    intro tot off mem ip s hloop
    cases hloop
  | succ fuel ih =>
    intro tot off mem ip s hloop
    rw [readLoop] at hloop
    split_ifs at hloop
    · obtain hbmap | ⟨⟨a, ip₁, s₁⟩, _, hloop⟩ := bind_eq_error.mp hloop
      · exact bmap_error hbmap
      · dsimp only at hloop
        split_ifs at hloop
        exact ih _ _ _ _ _ hloop

/-! ### `itrunc` -/

theorem bfree_eq {ρ : Type*} {addr : ρ → BitVec 32} {r : ρ} (h : Owns sb.region addr s.bitmap)
    (hr : addr r ≠ 0) :
    bfree s (addr r) = .ok { s with bitmap := update s.bitmap (addr r) false } := by
  rw [bfree, if_pos (h.used_of_ne_zero hr)]

/-- The slots `P` of the inode are free, and the others as before. -/
structure Cleared (sb : Superblock) (inum : Nat) (P : Slot → Prop) (ip : Dinode) (s : State)
    (ip' : Dinode) (s' : State) : Prop where
  good : Good sb inum ip' s'
  cleared : ∀ slot, P slot → (s'.iupdate inum ip').addr (inum, slot) = 0
  kept : ∀ r : Nat × Slot, r.1 ≠ inum ∨ ¬P r.2 →
    (s'.iupdate inum ip').addr r = (s.iupdate inum ip).addr r
  state : s' = { s with bitmap := s'.bitmap }

theorem Cleared.trans {P Q : Slot → Prop} {ip₁ ip₂ : Dinode} {s₁ s₂ : State}
    (h₁ : Cleared sb inum P ip s ip₁ s₁) (h₂ : Cleared sb inum Q ip₁ s₁ ip₂ s₂) :
    Cleared sb inum (fun slot => P slot ∨ Q slot) ip s ip₂ s₂ := by
  refine ⟨h₂.good, fun slot hslot => ?_, fun r hr => ?_, ?_⟩
  · by_cases hQ : Q slot
    · exact h₂.cleared slot hQ
    · rw [h₂.kept _ (.inr hQ)]
      exact h₁.cleared slot (hslot.resolve_right hQ)
  · have hP : r.1 ≠ inum ∨ ¬P r.2 := hr.imp_right fun h hP => h (.inl hP)
    have hQ : r.1 ≠ inum ∨ ¬Q r.2 := hr.imp_right fun h hQ => h (.inr hQ)
    rw [h₂.kept r hQ, h₁.kept r hP]
  · rw [h₂.state, h₁.state]

theorem Cleared.congr {P Q : Slot → Prop} (h : Cleared sb inum P ip s ip' s')
    (heq : ∀ slot, P slot ↔ Q slot) : Cleared sb inum Q ip s ip' s' := by
  have hPQ : P = Q := funext fun slot => propext (heq slot)
  rwa [← hPQ]

theorem Good.cleared (h : Good sb inum ip s) {P : Slot → Prop}
    (hzero : ∀ slot, P slot → (s.iupdate inum ip).addr (inum, slot) = 0) :
    Cleared sb inum P ip s ip s := ⟨h, hzero, fun _ _ => rfl, rfl⟩

theorem Good.clear_direct (h : Good sb inum ip s) {i : Fin ndirect}
    (hne : (s.iupdate inum ip).addr (inum, .direct i) ≠ 0) :
    Cleared sb inum (· = .direct i) ip s (ip.setAddr i.castSucc 0)
      { s with
        bitmap := update s.bitmap ((s.iupdate inum ip).addr (inum, .direct i)) false } := by
  have haddr : (State.iupdate { s with
      bitmap := update s.bitmap ((s.iupdate inum ip).addr (inum, .direct i)) false } inum
        (ip.setAddr i.castSucc 0)).addr = update (s.iupdate inum ip).addr (inum, .direct i) 0 :=
    addr_update_slot inum h.type h.type (addr_setAddr_direct i 0) fun _ _ => rfl
  refine ⟨⟨?_, h.type⟩, ?_, fun r hr => ?_, rfl⟩
  · rw [haddr]
    exact h.owns.free hne
  · rintro slot rfl
    rw [haddr, update_self]
  · rw [haddr, update_of_ne]
    rintro rfl
    exact hr.elim (fun hx => hx rfl) fun hx => hx rfl

/-- The first loop of `itrunc`. -/
theorem freeDirect_cleared : ∀ (is : List (Fin ndirect)) (ip : Dinode) (s : State),
    Good sb inum ip s → ∃ ip' s', freeDirect is ip s = .ok (ip', s') ∧
      Cleared sb inum (fun slot => ∃ i ∈ is, slot = .direct i) ip s ip' s' := by
  intro is
  induction is with
  | nil =>
    intro ip s h
    exact ⟨ip, s, rfl, h.cleared nofun⟩
  | cons i is ih =>
    intro ip s h
    have haddr : (s.iupdate inum ip).addr (inum, .direct i) = ip.addrs i.castSucc :=
      addr_iupdate_self h.type _
    have hcons : ∀ slot, (slot = Slot.direct i ∨ ∃ i' ∈ is, slot = .direct i') ↔
        ∃ i' ∈ i :: is, slot = .direct i' := by
      intro slot
      simp only [mem_cons, exists_eq_or_imp]
    rw [freeDirect]
    split_ifs with hzero
    · obtain ⟨ip', s', hrest, hcleared⟩ := ih ip s h
      have hfirst : Cleared sb inum (· = .direct i) ip s ip s :=
        h.cleared (by rintro slot rfl; exact haddr.trans hzero)
      exact ⟨ip', s', hrest, (hfirst.trans hcleared).congr hcons⟩
    · have hne : (s.iupdate inum ip).addr (inum, .direct i) ≠ 0 := by rwa [haddr]
      have hfirst := h.clear_direct hne
      obtain ⟨ip', s', hrest, hcleared⟩ := ih _ _ hfirst.good
      refine ⟨ip', s', ?_, (hfirst.trans hcleared).congr hcons⟩
      rw [← haddr, bfree_eq h.owns hne]
      exact hrest

/-- The entries of the indirect block are freed, while it still holds their addresses. -/
theorem freeEntries_ok {a : Block} : ∀ (js : List (Fin nindirect)) (s : State)
    (addr : Nat × Slot → BitVec 32), js.Nodup → Owns sb.region addr s.bitmap →
      (∀ j ∈ js, addr (inum, .entry j) = a j) →
      ∃ bitmap addr', freeEntries a js s = .ok { s with bitmap } ∧ Owns sb.region addr' bitmap ∧
        (∀ j ∈ js, addr' (inum, .entry j) = 0) ∧
        ∀ r, (∀ j ∈ js, r ≠ (inum, .entry j)) → addr' r = addr r := by
  intro js
  induction js with
  | nil =>
    intro s addr _ h _
    exact ⟨s.bitmap, addr, rfl, h, nofun, fun _ _ => rfl⟩
  | cons j js ih =>
    intro s addr hnodup h haddr
    rw [nodup_cons] at hnodup
    have hj : addr (inum, .entry j) = a j := haddr j mem_cons_self
    have hother : ∀ j' ∈ js, (inum, Slot.entry j) ≠ (inum, .entry j') := by
      intro j' hj' heq
      rw [Prod.mk.injEq, Slot.entry.injEq] at heq
      rw [heq.2] at hnodup
      exact hnodup.1 hj'
    rw [freeEntries]
    split_ifs with hzero
    · obtain ⟨bitmap, addr', hrest, howns, hzeros, hkept⟩ := ih s addr hnodup.2 h fun j' hj' =>
        haddr j' (mem_cons_of_mem j hj')
      refine ⟨bitmap, addr', hrest, howns, fun j' hj' => ?_, fun r hr => ?_⟩
      · obtain rfl | hj' := mem_cons.mp hj'
        · rw [hkept _ hother, hj, hzero]
        · exact hzeros j' hj'
      · exact hkept r fun j' hj' => hr j' (mem_cons_of_mem j hj')
    have hne : addr (inum, .entry j) ≠ 0 := by rwa [hj]
    obtain ⟨bitmap, addr', hrest, howns, hzeros, hkept⟩ := ih
      { s with bitmap := update s.bitmap (addr (inum, .entry j)) false }
      (update addr (inum, .entry j) 0) hnodup.2 (h.free hne) fun j' hj' => by
        rw [update_of_ne (hother j' hj').symm]
        exact haddr j' (mem_cons_of_mem j hj')
    refine ⟨bitmap, addr', ?_, howns, fun j' hj' => ?_, fun r hr => ?_⟩
    · rw [← hj, bfree_eq h hne]
      exact hrest
    · obtain rfl | hj' := mem_cons.mp hj'
      · rw [hkept _ hother, update_self]
      · exact hzeros j' hj'
    · rw [hkept r fun j' hj' => hr j' (mem_cons_of_mem j hj'),
        update_of_ne (hr j mem_cons_self)]

/-- The second part of `itrunc`. -/
theorem freeIndirect_cleared (h : Good sb inum ip s) :
    ∃ ip' s', freeIndirect s ip = .ok (ip', s') ∧
      Cleared sb inum (fun slot => slot = .indirect ∨ ∃ j, slot = .entry j) ip s ip' s' := by
  have haddr : (s.iupdate inum ip).addr (inum, .indirect) = ip.addrs (Fin.last ndirect) :=
    addr_iupdate_self h.type _
  unfold freeIndirect
  dsimp only
  split_ifs with hzero
  · refine ⟨ip, s, rfl, h.cleared ?_⟩
    rintro slot (rfl | ⟨j, rfl⟩)
    · exact haddr.trans hzero
    · by_contra hne
      exact indirect_ne_zero hne (haddr.trans hzero)
  have hentry : ∀ j, (s.iupdate inum ip).addr (inum, .entry j) =
      s.block (ip.addrs (Fin.last ndirect)) j := by
    intro j
    rw [addr_iupdate_self h.type]
    simp only [Dinode.addr, if_neg hzero]
  obtain ⟨bitmap, addr, hfree, howns, hzeros, hkept⟩ := freeEntries_ok
    (List.finRange nindirect) s _ (nodup_finRange _) h.owns fun j _ => hentry j
  have hind : addr (inum, .indirect) = ip.addrs (Fin.last ndirect) := by
    rw [hkept _ (by simp), haddr]
  have hne : addr (inum, .indirect) ≠ 0 := by rwa [hind]
  refine ⟨ip.setAddr (Fin.last ndirect) 0,
    { s with bitmap := update bitmap (addr (inum, .indirect)) false }, ?_, ?_⟩
  · rw [hfree, ← hind]
    show (bfree { s with bitmap } (addr (inum, .indirect)) >>= _) = _
    rw [bfree_eq (s := { s with bitmap }) howns hne]
    rfl
  -- the addresses that are left
  have hleft : ∀ bitmap, (State.iupdate { s with bitmap } inum
      (ip.setAddr (Fin.last ndirect) 0)).addr = update addr (inum, .indirect) 0 := by
    intro bitmap
    funext ⟨x, slot⟩
    by_cases hx : x = inum
    · subst hx
      have htype : (ip.setAddr (Fin.last ndirect) 0).type ≠ 0 := h.type
      rw [addr_iupdate_self htype]
      cases slot with
      | direct i =>
        rw [update_of_ne (by simp), hkept _ (by simp), addr_iupdate_self h.type]
        exact setAddr_of_ne 0 (Fin.castSucc_lt_last i).ne
      | indirect =>
        rw [update_self]
        exact setAddr_self ..
      | entry j =>
        rw [update_of_ne (by simp), hzeros j (mem_finRange j)]
        simp only [Dinode.addr, setAddr_self, if_true]
    · rw [addr_iupdate_of_ne hx, update_of_ne (by simp [hx]),
        hkept _ (by simp [hx]), addr_iupdate_of_ne hx]
      rfl
  refine ⟨⟨?_, h.type⟩, ?_, fun r hr => ?_, rfl⟩
  · rw [hleft]
    exact howns.free hne
  · rintro slot (rfl | ⟨j, rfl⟩)
    · rw [hleft, update_self]
    · rw [hleft, update_of_ne (by simp), hzeros j (mem_finRange j)]
  · rw [hleft, update_of_ne, hkept]
    · rintro j - rfl
      exact hr.elim (fun hx => hx rfl) fun hx => hx (.inr ⟨j, rfl⟩)
    · rintro rfl
      exact hr.elim (fun hx => hx rfl) fun hx => hx (.inl rfl)

/-- `itrunc` frees all blocks of the file. -/
theorem itrunc_freed (h : Good sb inum ip s) :
    ∃ ip' s', itrunc s inum ip = .ok (ip', s') ∧ Good sb inum ip' s' ∧ ip'.size = 0 ∧
      s'.dinode = update s.dinode inum ip' ∧ s'.inode = s.inode ∧
      (∀ slot, s'.addr (inum, slot) = 0) ∧
      ∀ x slot, x ≠ inum → s'.addr (x, slot) = s.addr (x, slot) := by
  obtain ⟨ip₁, s₁, hdirect, hclear₁⟩ := freeDirect_cleared (List.finRange ndirect) ip s h
  obtain ⟨ip₂, s₂, hindirect, hclear₂⟩ := freeIndirect_cleared hclear₁.good
  have hclear := hclear₁.trans hclear₂
  have hall : ∀ slot, (s₂.iupdate inum ip₂).addr (inum, slot) = 0 := by
    intro slot
    refine hclear.cleared slot ?_
    cases slot with
    | direct i => exact .inl ⟨i, mem_finRange i, rfl⟩
    | indirect => exact .inr (.inl rfl)
    | entry j => exact .inr (.inr ⟨j, rfl⟩)
  have haddr : (s₂.iupdate inum { ip₂ with size := 0 }).addr = (s₂.iupdate inum ip₂).addr :=
    addr_iupdate_congr rfl rfl
  refine ⟨{ ip₂ with size := 0 }, s₂.iupdate inum { ip₂ with size := 0 }, ?_, ⟨?_, ?_⟩, rfl, ?_, ?_,
    fun slot => ?_, fun x slot hx => ?_⟩
  · rw [itrunc, hdirect]
    show (freeIndirect s₁ ip₁ >>= _) = _
    rw [hindirect]
    rfl
  · rw [iupdate_iupdate, haddr]
    exact hclear₂.good.owns
  · exact hclear₂.good.type
  · rw [hclear.state]
    rfl
  · rw [hclear.state]
    rfl
  · rw [haddr]
    exact hall slot
  · rw [haddr, hclear.kept _ (.inl hx), addr_iupdate_of_ne hx]

end Xv6.Fs
