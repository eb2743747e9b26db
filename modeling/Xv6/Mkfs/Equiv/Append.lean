import Xv6.Fs.Equiv.Content
import Xv6.Mkfs.Image

/-!
# Appending to a file of the image

`mkfs` allocates blocks as the kernel does: with the blocks below `freeblock` in use (`State.view`),
`iappend` finds its blocks with the kernel's `bmap` (`fileBlock_bmap`), and its loop appends
(`appendLoop_appends`).
-/

namespace Xv6.Mkfs

open Lib Fs Bcache Function List

variable {s s' : State} {inum : Nat} {din din' : Dinode} {content : Nat → List UInt8}

/-! ### Words -/

theorem xint_eq (x : BitVec 32) : xint x = x := by
  ext i hi
  simp only [xint, ← BitVec.getLsbD_eq_getElem, BitVec.getLsbD_append, BitVec.getLsbD_extractLsb']
  split_ifs with h₁ h₂ h₃
  · simp [h₁]
  · simp [h₂, show 8 + (i - 8) = i by omega]
  · simp [h₃, show 16 + (i - 8 - 8) = i by omega]
  · simp [show i - 8 - 8 - 8 < 8 by omega, show 24 + (i - 8 - 8 - 8) = i by omega]

theorem xshort_eq (x : BitVec 16) : xshort x = x := by
  ext i hi
  simp only [xshort, ← BitVec.getLsbD_eq_getElem, BitVec.getLsbD_append, BitVec.getLsbD_extractLsb']
  split_ifs with h₁
  · simp [h₁]
  · simp [show i - 8 < 8 by omega, show 8 + (i - 8) = i by omega]

theorem extract_low (x y : BitVec 16) : (x ++ y).extractLsb' 0 16 = y := by
  ext i hi
  rw [BitVec.getElem_extractLsb', BitVec.getLsbD_append, Nat.zero_add, if_pos hi]
  exact BitVec.getLsbD_eq_getElem hi

theorem extract_high (x y : BitVec 16) : (x ++ y).extractLsb' 16 16 = x := by
  ext i hi
  rw [BitVec.getElem_extractLsb', BitVec.getLsbD_append, if_neg (by omega), Nat.add_sub_cancel_left]
  exact BitVec.getLsbD_eq_getElem hi

theorem decode_encode (d : Dinode) : Dinode.decode d.encode = d := by
  obtain ⟨⟨type, nlink, size, addrs⟩, major, minor⟩ := d
  simp only [Dinode.decode, Dinode.encode, Dinode.mk.injEq, Fs.Dinode.mk.injEq, extract_low,
    extract_high, true_and, and_true]
  funext ⟨i, hi⟩
  have hnat : Fin.natAdd 3 (⟨i, hi⟩ : Fin (ndirect + 1)) = ⟨i + 3, by omega⟩ := by
    ext
    simp [Nat.add_comm]
  rw [hnat]

/-! ### The blocks of inodes -/

theorem iblock_toNat (h : inum < ninodes) : (iblock inum).toNat = inum / 16 + 32 := by
  rw [iblock, BitVec.toNat_ofNat]
  simp only [ninodes, ipb, inodestart, nlog, logSize, maxOpBlocks, bsize] at h ⊢
  omega

theorem iblock_lt_bmapstart (h : inum < ninodes) : (iblock inum).toNat < bmapstart := by
  rw [iblock_toNat h]
  simp only [ninodes, bmapstart, nlog, logSize, maxOpBlocks, ninodeblocks, ipb, bsize] at h ⊢
  omega

theorem bmapstart_lt : bmapstart < nmeta := by decide

theorem iblock_lt (h : inum < ninodes) : (iblock inum).toNat < nmeta :=
  (iblock_lt_bmapstart h).trans bmapstart_lt

variable {x : BitVec 32}

/-- Storing to the bitmap or to a data block changes no inode. -/
theorem dinode_wsect {v : Block} (hx : bmapstart ≤ x.toNat) :
    (s.wsect x v).dinode = s.dinode := by
  funext i
  simp only [State.dinode]
  split_ifs with hi
  · have hne : iblock i ≠ x := by
      rintro rfl
      exact absurd (iblock_lt_bmapstart hi) (Nat.not_lt.mpr hx)
    simp only [State.inodeAt, State.wsect, update_of_ne hne]
  · rfl

theorem rinode_eq (h : rinode s inum = .ok din) : din = s.inodeAt inum := by
  obtain ⟨buf, hbuf, h⟩ := bind_eq_ok.mp h
  rw [rsect] at hbuf
  split_ifs at hbuf
  obtain rfl := Except.ok.inj hbuf
  exact (Except.ok.inj h).symm

theorem winode_eq (hinum : inum < ninodes) (h : winode s inum din = .ok s') :
    s'.freeinode = s.freeinode ∧ s'.freeblock = s.freeblock ∧
    s'.dinode = update s.dinode inum din.toDinode ∧
    ∃ v, s'.block = update s.block (iblock inum) v := by
  obtain ⟨buf, hbuf, h⟩ := bind_eq_ok.mp h
  rw [rsect] at hbuf
  split_ifs at hbuf
  obtain rfl := Except.ok.inj hbuf
  obtain rfl := Except.ok.inj h
  refine ⟨rfl, rfl, ?_, _, rfl⟩
  funext x
  by_cases hx : x = inum
  · subst hx
    rw [update_self]
    simp only [State.dinode, if_pos hinum, State.inodeAt, State.wsect, update_self]
    have hwords : (fun k : Fin 16 => if (inodeWord x k).val / 16 = x % ipb then
        din.encode ⟨(inodeWord x k).val % 16, Nat.mod_lt _ (by decide)⟩
        else s.block (iblock x) (inodeWord x k)) = din.encode := by
      funext k
      have hk := k.isLt
      rw [if_pos (by simp only [inodeWord]; omega)]
      congr 1
      ext
      simp only [inodeWord]
      omega
    rw [hwords, decode_encode]
  · rw [update_of_ne hx]
    simp only [State.dinode]
    split_ifs with hlt
    · simp only [State.inodeAt, State.wsect]
      congr 2
      funext k
      have hk := k.isLt
      by_cases hblock : iblock x = iblock inum
      · have hdiv : x / 16 = inum / 16 := by
          have := congrArg BitVec.toNat hblock
          rw [iblock_toNat hlt, iblock_toNat hinum] at this
          omega
        rw [hblock, update_self, if_neg]
        simp only [inodeWord, ipb, bsize]
        omega
      · rw [update_of_ne hblock]
    · rfl

/-! ### The kernel's view -/

/-- The image while it is built: the blocks below `freeblock` are in use. -/
def State.view (s : State) : Fs.State :=
  { s.mount with bitmap := fun b => decide (b.toNat < s.freeblock.toNat) }

structure Sound (s : State) : Prop where
  lower : nmeta ≤ s.freeblock.toNat
  upper : s.freeblock.toNat ≤ fssize
  fresh : ∀ b : BitVec 32, s.freeblock.toNat ≤ b.toNat → s.block b = fun _ => 0

theorem data_iff {b : BitVec 32} : sb.region.data b ↔ nmeta ≤ b.toNat ∧ b.toNat < fssize := by
  have hnmeta : sb.nmeta = nmeta := by decide
  have hsize : sb.size.toNat = fssize := by decide
  simp only [Superblock.region, hnmeta, hsize]

def State.bump (s : State) : State := { s with freeblock := s.freeblock + 1 }

theorem bump_toNat (h : s.freeblock.toNat < fssize) :
    (s.freeblock + 1).toNat = s.freeblock.toNat + 1 := by
  rw [BitVec.toNat_add]
  simp only [fssize] at h
  refine Nat.mod_eq_of_lt ?_
  have hone : (1 : BitVec 32).toNat = 1 := rfl
  omega

theorem Sound.bump (h : Sound s) (hlt : s.freeblock.toNat < fssize) : Sound s.bump := by
  have hnext := bump_toNat hlt
  refine ⟨?_, ?_, fun b hb => h.fresh b ?_⟩
  · exact h.lower.trans (by simp only [State.bump]; omega)
  · simp only [State.bump]
    omega
  · simp only [State.bump] at hb
    omega

theorem Sound.balloc (h : Sound s) (hlt : s.freeblock.toNat < fssize) :
    Fs.balloc sb s.view = .ok (s.freeblock, s.bump.view) := by
  have hsize : sb.size.toNat = fssize := by decide
  have hfind : ((List.range sb.size.toNat).find? fun b => !s.view.bitmap (BitVec.ofNat 32 b)) =
      some s.freeblock.toNat := by
    have htoNat : ∀ b, b < fssize → (BitVec.ofNat 32 b).toNat = b := by
      intro b hb
      rw [BitVec.toNat_ofNat]
      exact Nat.mod_eq_of_lt (hb.trans (by decide))
    rw [hsize, List.find?_range_eq_some]
    refine ⟨?_, mem_range.mpr hlt, fun j hj => ?_⟩
    · simp [State.view]
    · simp [State.view, htoNat j (hj.trans hlt), hj]
  rw [Fs.balloc, hfind]
  have hblock : update s.block s.freeblock (fun _ => 0) = s.block := by
    rw [← h.fresh s.freeblock (Nat.le_refl _)]
    exact update_eq_self ..
  have hbitmap : update s.view.bitmap s.freeblock true = s.bump.view.bitmap := by
    funext b
    simp only [State.view, State.bump, bump_toNat hlt, update_apply]
    split_ifs with hb
    · subst hb
      simp
    · have hne : b.toNat ≠ s.freeblock.toNat := fun h => hb (BitVec.eq_of_toNat_eq h)
      rw [Bool.eq_iff_iff, decide_eq_true_iff, decide_eq_true_iff]
      omega
  simp only [BitVec.ofNat_toNat, BitVec.setWidth_eq]
  rw [hbitmap, show s.view.block = s.block from rfl, hblock]
  rfl

/-! ### `fileBlock` is `bmap` -/

theorem slotAddr_bslot {i : Fin (ndirect + 1)} {a : BitVec 32} (h : Sound s)
    (hslot : slotAddr s din i = (a, din', s')) (ha : a.toNat < fssize) :
    Fs.bslot sb s.view din.toDinode i = .ok (a, din'.toDinode, s'.view) ∧ Sound s' ∧
      s'.freeinode = s.freeinode := by
  rw [slotAddr] at hslot
  rw [Fs.bslot]
  simp only [xint_eq] at hslot
  by_cases hzero : din.addrs i = 0
  · rw [if_pos hzero] at hslot ⊢
    cases hslot
    rw [h.balloc ha]
    exact ⟨rfl, h.bump ha, rfl⟩
  · rw [if_neg hzero] at hslot ⊢
    cases hslot
    exact ⟨rfl, h, rfl⟩

theorem Sound.wsect (h : Sound s) {v : Block} (hx : x.toNat < s.freeblock.toNat) :
    Sound (s.wsect x v) := by
  refine ⟨h.lower, h.upper, fun b hb => ?_⟩
  have hne : b ≠ x := by
    rintro rfl
    exact absurd hx (Nat.not_lt.mpr hb)
  exact (update_of_ne hne _ _).trans (h.fresh b hb)

theorem view_wsect {v : Block} (hx : nmeta ≤ x.toNat) :
    (s.wsect x v).view = { s.view with block := update s.block x v } := by
  simp only [State.view, State.mount, dinode_wsect (bmapstart_lt.le.trans hx)]
  rfl

theorem used_of_addr (h : Good sb inum din.toDinode s.view) {slot : Slot} {a : BitVec 32}
    (ha : a = (s.view.iupdate inum din.toDinode).addr (inum, slot)) (hne : a ≠ 0) :
    nmeta ≤ a.toNat ∧ a.toNat < s.freeblock.toNat := by
  subst ha
  refine ⟨(data_iff.mp (h.owns.inside _ hne)).1, ?_⟩
  exact of_decide_eq_true (h.owns.used_of_ne_zero hne)

theorem rsect_eq {buf : Block} (h : rsect s x = .ok buf) :
    x.toNat < fssize ∧ buf = s.block x := by
  rw [rsect] at h
  split_ifs at h with hx
  exact ⟨hx, (Except.ok.inj h).symm⟩

/-- **Allocation**: `iappend` takes the block that the kernel's `bmap` would. -/
theorem fileBlock_bmap {fbn : Nat} (h : Sound s) (hgood : Good sb inum din.toDinode s.view)
    (hfile : fileBlock s din fbn = .ok (x, din', s')) (hx : x.toNat < fssize) :
    Fs.bmap sb s.view din.toDinode fbn = .ok (x, din'.toDinode, s'.view) ∧ Sound s' ∧
      s'.freeinode = s.freeinode := by
  rw [fileBlock] at hfile
  rw [Fs.bmap]
  by_cases hdirect : fbn < ndirect
  · rw [dif_pos hdirect] at hfile ⊢
    exact slotAddr_bslot h (Except.ok.inj hfile) hx
  rw [dif_neg hdirect] at hfile ⊢
  by_cases hentry : fbn - ndirect < nindirect
  · rw [dif_pos hentry] at hfile ⊢
    rcases hslot : slotAddr s din (Fin.last ndirect) with ⟨ind, din₁, s₁⟩
    rw [hslot] at hfile
    obtain ⟨indirect, hread, hfile⟩ := bind_eq_ok.mp hfile
    obtain ⟨hind, rfl⟩ := rsect_eq hread
    obtain ⟨hbslot, hsound, hinode⟩ := slotAddr_bslot h hslot hind
    have hfound := bslot_indirect hgood hbslot
    obtain ⟨hdata, hused⟩ := used_of_addr hfound.grown.good hfound.addr hfound.ne_zero
    rw [hbslot]
    simp only [bind, Except.bind]
    change (if s₁.block ind _ = 0 then _ else _) = _ ∧ _
    by_cases hzero : s₁.block ind ⟨fbn - ndirect, hentry⟩ = 0
    · rw [if_pos hzero] at hfile ⊢
      simp only [xint_eq, pure, Except.pure, Except.ok.injEq, Prod.mk.injEq] at hfile
      obtain ⟨rfl, rfl, rfl⟩ := hfile
      rw [hsound.balloc hx]
      refine ⟨?_, (hsound.bump hx).wsect ?_, hinode⟩
      · change _ = Except.ok (_, _, (s₁.bump.wsect ind _).view)
        rw [view_wsect hdata]
        rfl
      · change _ < (s₁.freeblock + 1).toNat
        rw [bump_toNat hx]
        omega
    · rw [if_neg hzero] at hfile ⊢
      simp only [xint_eq, pure, Except.pure, Except.ok.injEq, Prod.mk.injEq] at hfile
      obtain ⟨rfl, rfl, rfl⟩ := hfile
      exact ⟨rfl, hsound, hinode⟩
  · rw [dif_neg hentry] at hfile
    cases hfile

/-! ### The loop -/

structure Writing (inum : Nat) (din : Dinode) (s : State) (content : Nat → List UInt8) : Prop where
  sound : Sound s
  good : Good sb inum din.toDinode s.view
  stores : Stores (s.view.iupdate inum din.toDinode) content

structure Same (din : Dinode) (s : State) (din' : Dinode) (s' : State) : Prop where
  freeinode : s'.freeinode = s.freeinode
  dinode : s'.dinode = s.dinode
  type : din'.type = din.type

theorem appendLoop_appends : ∀ (fuel : Nat) (p : List UInt8) (off : Nat) (din : Dinode) (s : State)
    (content : Nat → List UInt8) (off' : Nat) (din' : Dinode) (s' : State),
    Writing inum din s content → (content inum).length = off → p.length ≤ fuel →
    appendLoop fuel p off din s = .ok (off', din', s') →
    Writing inum din' s' (update content inum (content inum ++ p)) ∧
      off' = off + p.length ∧ Same din s din' s' := by
  intro fuel
  induction fuel with
  | zero =>
    intro p off din s content off' din' s' h hoff hfuel hloop
    obtain rfl := eq_nil_of_length_eq_zero (Nat.le_zero.mp hfuel)
    cases hloop
    rw [append_nil, update_eq_self]
    exact ⟨h, rfl, rfl, rfl, rfl⟩
  | succ fuel ih =>
    intro p off din s content off' din' s' h hoff hfuel hloop
    rw [appendLoop] at hloop
    by_cases hp : p = []
    · rw [if_pos hp] at hloop
      subst hp
      cases hloop
      rw [append_nil, update_eq_self]
      exact ⟨h, rfl, rfl, rfl, rfl⟩
    rw [if_neg hp] at hloop
    obtain ⟨⟨x, din₁, s₁⟩, hfile, hloop⟩ := bind_eq_ok.mp hloop
    obtain ⟨buf, hread, hloop⟩ := bind_eq_ok.mp hloop
    obtain ⟨hx, rfl⟩ := rsect_eq hread
    obtain ⟨hbmap, hsound, hinode⟩ := fileBlock_bmap h.sound h.good hfile hx
    obtain ⟨slot, hslot, hnind, hfound⟩ := bmap_found h.good hbmap
    have hstores := h.stores.bmap h.good hbmap
    have hgood := hfound.grown.good
    obtain ⟨hdata, hused⟩ := used_of_addr hgood hfound.addr hfound.ne_zero
    have hmod := Nat.div_add_mod off bsize
    have hmodlt := Nat.mod_lt off (show bsize > 0 by decide)
    rw [Nat.mul_comm] at hmod
    have hstart : off - off / bsize * bsize = off % bsize := by omega
    have hroom : (off / bsize + 1) * bsize - off = bsize - off % bsize := by
      rw [Nat.add_mul, Nat.one_mul]
      omega
    have hpos : 0 < p.length := length_pos_of_ne_nil hp
    simp only [hstart, hroom] at hloop
    set n1 := min p.length (bsize - off % bsize) with hn1
    have hlen : (p.take n1).length = n1 := by
      rw [length_take]
      omega
    have hview := view_wsect (s := s₁) (v := setBytes (s₁.block x) (off % bsize) (p.take n1)) hdata
    have hwriting : Writing inum din₁
        (s₁.wsect x (setBytes (s₁.block x) (off % bsize) (p.take n1)))
        (update content inum (content inum ++ p.take n1)) := by
      refine ⟨hsound.wsect hused, ?_, ?_⟩
      · rw [hview]
        exact (hgood.write hnind hfound.addr hfound.ne_zero).good
      · rw [hview]
        exact .append hgood hslot hfound.addr hfound.ne_zero (by omega) hstores hoff
    have hoff' : (update content inum (content inum ++ p.take n1) inum).length =
        off + n1 := by
      rw [update_self, length_append, hoff, hlen]
    obtain ⟨hwriting', hoff'', hsame⟩ := ih (p.drop n1) (off + n1) din₁ _ _ off' din' s' hwriting
      hoff' (by rw [length_drop]; omega) hloop
    rw [update_self, update_idem, append_assoc, take_append_drop] at hwriting'
    refine ⟨hwriting', ?_, ?_, ?_, ?_⟩
    · rw [hoff'', length_drop]
      omega
    · exact hsame.freeinode.trans hinode
    · have hview₁ : s₁.view.dinode = s.view.dinode := hfound.grown.dinode
      rw [hsame.dinode, dinode_wsect (bmapstart_lt.le.trans hdata)]
      exact hview₁
    · exact hsame.type.trans (bmap_type hbmap)

end Xv6.Mkfs
