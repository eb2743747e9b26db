import Xv6.Mkfs.Equiv.Append

/-!
# The image

`Built s content`: the inodes below `freeinode` have the bytes `content` in blocks of their own,
those below `freeblock`. `ialloc` and `iappend` keep it, so the loop over the files does
(`Built.addFiles`), and the last two steps make an image to start from (`Built.finish`).
-/

namespace Xv6.Mkfs

open Lib Fs Bcache Function List

variable {s s' : State} {inum : Nat} {din : Dinode} {content : Nat → List UInt8}

/-- The image under construction is a consistent file system with these files. -/
structure Built (s : State) (content : Nat → List UInt8) : Prop where
  sound : Sound s
  owns : Owns sb.region s.view.addr s.view.bitmap
  stores : Stores s.view content
  size : ∀ x, 1 ≤ x → x < s.freeinode → (s.dinode x).size.toNat = (content x).length
  type : ∀ x, (s.dinode x).type ≠ 0 ↔ 1 ≤ x ∧ x < s.freeinode
  first : 1 ≤ s.freeinode
  last : s.freeinode ≤ ninodes

/-! ### `winode` -/

section Winode

variable {s₁ : State} {ip : Dinode} (hinum : inum < ninodes) (h : winode s₁ inum ip = .ok s')

include hinum h

/-- `winode` changes one inode. -/
theorem winode_sound (hsound : Sound s₁) : Sound s' := by
  obtain ⟨-, hfree, -, v, hblock⟩ := winode_eq hinum h
  refine ⟨hfree ▸ hsound.lower, hfree ▸ hsound.upper, fun b hb => ?_⟩
  rw [hfree] at hb
  have hne : b ≠ iblock inum := by
    rintro rfl
    exact absurd (iblock_lt hinum) (Nat.not_lt.mpr (hsound.lower.trans hb))
  rw [hblock, update_of_ne hne]
  exact hsound.fresh b hb

theorem winode_block {b : BitVec 32} (hb : sb.region.data b) : s'.block b = s₁.block b := by
  obtain ⟨-, -, -, v, hblock⟩ := winode_eq hinum h
  rw [hblock, update_of_ne]
  rintro rfl
  exact absurd (iblock_lt hinum) (Nat.not_lt.mpr (data_iff.mp hb).1)

theorem winode_addr {used : BitVec 32 → Bool}
    (howns : Owns sb.region (s₁.view.iupdate inum ip.toDinode).addr used) :
    s'.view.addr = (s₁.view.iupdate inum ip.toDinode).addr := by
  obtain ⟨-, hfree, hdinode, v, hblock⟩ := winode_eq hinum h
  have hview : s'.view = { s₁.view.iupdate inum ip.toDinode with
      bitmap := s₁.view.bitmap, block := update s₁.block (iblock inum) v } := by
    simp only [State.view, State.mount, State.iupdate, hfree, hdinode, hblock]
  rw [hview]
  funext r
  refine addr_update_block (s := s₁.view.iupdate inum ip.toDinode) fun heq => ?_
  by_cases hzero : iblock inum = 0
  · have := iblock_toNat hinum
    rw [hzero] at this
    simp at this
  · have hdata := howns.inside (r.1, .indirect) (heq ▸ hzero)
    rw [heq] at hdata
    exact absurd (iblock_lt hinum) (Nat.not_lt.mpr (data_iff.mp hdata).1)

theorem winode_bitmap : s'.view.bitmap = s₁.view.bitmap := by
  obtain ⟨-, hfree, -, -⟩ := winode_eq hinum h
  simp only [State.view, hfree]

end Winode

theorem view_iupdate_self (s : State) (inum : Nat) : s.view.iupdate inum (s.dinode inum) = s.view :=
    by
  simp only [State.iupdate]
  exact congrArg (fun d => { s.view with dinode := d }) (update_eq_self inum s.dinode)

theorem dinode_eq (h : inum < ninodes) : s.dinode inum = (s.inodeAt inum).toDinode := if_pos h

/-! ### `iappend` and `ialloc` -/

/-- `iappend` appends to a file. -/
theorem Built.iappend (h : Built s content) {p : List UInt8} (hlow : 1 ≤ inum)
    (hhigh : inum < s.freeinode) (happ : iappend s inum p = .ok s') :
    Built s' (update content inum (content inum ++ p)) ∧ s'.freeinode = s.freeinode := by
  have hinum : inum < ninodes := hhigh.trans_le h.last
  obtain ⟨din, hread, happ⟩ := bind_eq_ok.mp happ
  obtain ⟨⟨off, din', s₁⟩, hloop, hwrite⟩ := bind_eq_ok.mp happ
  have hdin : din.toDinode = s.dinode inum := by
    rw [rinode_eq hread, dinode_eq hinum]
  have hwriting : Writing inum din s content := by
    refine ⟨h.sound, ⟨?_, ?_⟩, ?_⟩
    · rw [hdin, view_iupdate_self]
      exact h.owns
    · rw [hdin]
      exact (h.type inum).mpr ⟨hlow, hhigh⟩
    · rw [hdin, view_iupdate_self]
      exact h.stores
  have hoff : (content inum).length = (xint din.size).toNat := by
    rw [xint_eq, ← h.size inum hlow hhigh, ← hdin]
  obtain ⟨hdone, hlen, hsame⟩ := appendLoop_appends p.length p _ din s content off din' s₁ hwriting
    hoff le_rfl hloop
  -- the new size does not change addresses
  have haddr : (s₁.view.iupdate inum { din'.toDinode with size := xint (BitVec.ofNat 32 off) }).addr =
      (s₁.view.iupdate inum din'.toDinode).addr := addr_iupdate_congr rfl rfl
  have howns : Owns sb.region (s₁.view.iupdate inum
      { din'.toDinode with size := xint (BitVec.ofNat 32 off) }).addr s₁.view.bitmap := by
    rw [haddr]
    exact hdone.good.owns
  obtain ⟨hfreeinode, -, hdinode, -⟩ := winode_eq hinum hwrite
  have haddr' : s'.view.addr = (s₁.view.iupdate inum din'.toDinode).addr :=
    (winode_addr hinum hwrite howns).trans haddr
  have hnext : s'.freeinode = s.freeinode := hfreeinode.trans hsame.freeinode
  refine ⟨⟨winode_sound hinum hwrite hdone.sound, ?_, ?_, fun x hx hx' => ?_, fun x => ?_, ?_, ?_⟩, hnext⟩
  · rw [haddr', winode_bitmap hinum hwrite]
    exact hdone.good.owns
  · exact hdone.stores.congr hdone.good.owns haddr' fun b hb => winode_block hinum hwrite hb
  · rw [hdinode]
    by_cases hxi : x = inum
    · subst hxi
      rw [update_self, update_self, xint_eq, length_append]
      have hbound := hdone.stores.length_le x
      rw [update_self, length_append] at hbound
      have hsmall : maxfile * bsize < 2 ^ 32 := by decide
      change (BitVec.ofNat 32 off).toNat = _
      rw [BitVec.toNat_ofNat, Nat.mod_eq_of_lt (by omega)]
      omega
    · rw [update_of_ne hxi, update_of_ne hxi, hsame.dinode]
      exact h.size x hx (hnext ▸ hx')
  · rw [hdinode, hnext]
    by_cases hxi : x = inum
    · subst hxi
      rw [update_self]
      refine iff_of_true ?_ ⟨hlow, hhigh⟩
      change din'.type ≠ 0
      rw [hsame.type, show din.type = (s.dinode x).type by rw [← hdin]]
      exact (h.type x).mpr ⟨hlow, hhigh⟩
    · rw [update_of_ne hxi, hsame.dinode]
      exact h.type x
  · exact hnext ▸ h.first
  · exact hnext ▸ h.last

theorem Built.addr_eq_zero (h : Built s content) {x : Nat} (hx : s.freeinode ≤ x) (slot : Slot) :
    s.view.addr (x, slot) = 0 := by
  have htype : (s.dinode x).type = 0 := by
    by_contra hne
    exact absurd ((h.type x).mp hne).2 (Nat.not_lt.mpr hx)
  exact if_pos htype

/-- `ialloc` makes an empty file. -/
theorem Built.ialloc (h : Built s content) {type : BitVec 16} (htype : type ≠ 0)
    (hlt : s.freeinode < ninodes) (halloc : ialloc s type = .ok (inum, s')) :
    inum = s.freeinode ∧ Built s' content ∧ s'.freeinode = s.freeinode + 1 := by
  obtain ⟨s₁, hwrite, halloc⟩ := bind_eq_ok.mp halloc
  obtain ⟨rfl, rfl⟩ := by simpa [pure, Except.pure] using halloc
  obtain ⟨hfreeinode, -, hdinode, -⟩ := winode_eq hlt hwrite
  simp only [xshort_eq, xint_eq] at hwrite hdinode
  set ip : Fs.Dinode := ⟨type, 1, 0, fun _ => 0⟩ with hip
  have hview : State.view { s with freeinode := s.freeinode + 1 } = s.view := rfl
  have haddr : (s.view.iupdate s.freeinode ip).addr = s.view.addr := by
    funext ⟨x, slot⟩
    by_cases hx : x = s.freeinode
    · subst hx
      rw [addr_iupdate_self htype, h.addr_eq_zero le_rfl]
      cases slot with
      | direct | indirect => rfl
      | entry => simp [Fs.Dinode.addr, hip]
    · exact addr_iupdate_of_ne hx
  have howns : Owns sb.region (s.view.iupdate s.freeinode ip).addr s.view.bitmap := by
    rw [haddr]
    exact h.owns
  have haddr' : s₁.view.addr = s.view.addr := (winode_addr hlt hwrite howns).trans haddr
  have hnil : content s.freeinode = [] := h.stores.eq_nil (h.addr_eq_zero le_rfl)
  refine ⟨rfl, ⟨winode_sound hlt hwrite ⟨h.sound.lower, h.sound.upper, h.sound.fresh⟩, ?_, ?_,
    fun x hx hx' => ?_, fun x => ?_, ?_, ?_⟩, hfreeinode⟩
  · rw [haddr', winode_bitmap hlt hwrite, hview]
    exact h.owns
  · exact h.stores.congr h.owns haddr' fun b hb => winode_block hlt hwrite hb
  · rw [hdinode]
    rw [hfreeinode] at hx'
    dsimp only at hx'
    by_cases hxi : x = s.freeinode
    · rw [hxi, update_self, hnil]
      rfl
    · rw [update_of_ne hxi]
      exact h.size x hx (by omega)
  · rw [hdinode, hfreeinode]
    dsimp only
    by_cases hxi : x = s.freeinode
    · rw [hxi, update_self]
      exact iff_of_true htype ⟨h.first, Nat.lt_succ_self _⟩
    · rw [update_of_ne hxi]
      refine (h.type x).trans ?_
      omega
  · rw [hfreeinode]
    exact Nat.succ_pos _
  · rw [hfreeinode]
    exact hlt

/-! ### The files -/

def Input.bytes (f : Input) : List UInt8 := (f.chunks.getD []).flatten

/-- The entries of files from inode `inum` on. -/
def dirents : Nat → List Input → List (List UInt8)
  | _, [] => []
  | inum, f :: fs => dirent inum f.name :: dirents (inum + 1) fs

/-- The loop over the chunks of a file. -/
theorem Built.appendAll : ∀ (chunks : List (List UInt8)) (s : State) (content : Nat → List UInt8),
    Built s content → 1 ≤ inum → inum < s.freeinode → appendAll inum chunks s = .ok s' →
    Built s' (update content inum (content inum ++ chunks.flatten)) ∧
      s'.freeinode = s.freeinode := by
  intro chunks
  induction chunks with
  | nil =>
    intro s content h _ _ happ
    obtain rfl := Except.ok.inj happ
    rw [flatten_nil, append_nil, update_eq_self]
    exact ⟨h, rfl⟩
  | cons chunk chunks ih =>
    intro s content h hlow hhigh happ
    obtain ⟨s₁, hone, happ⟩ := bind_eq_ok.mp happ
    obtain ⟨hbuilt, hnext⟩ := h.iappend hlow hhigh hone
    obtain ⟨hall, hnext'⟩ := ih s₁ _ hbuilt hlow (hnext ▸ hhigh) happ
    rw [update_self, update_idem, append_assoc, ← flatten_cons] at hall
    exact ⟨hall, hnext'.trans hnext⟩

theorem one_le_rootino : 1 ≤ rootino := le_rfl

/-- One file and its entry in the root directory. -/
theorem Built.addFile (h : Built s content) {f : Input} (hroot : 1 < s.freeinode)
    (hlt : s.freeinode < ninodes) (hadd : addFile s f = .ok s') :
    Built s' (update (update content rootino
      (content rootino ++ dirent s.freeinode f.name)) s.freeinode f.bytes) ∧
      s'.freeinode = s.freeinode + 1 := by
  rw [Mkfs.addFile] at hadd
  split_ifs at hadd
  cases hchunks : f.chunks with rw [hchunks] at hadd
  | none =>
    cases hadd
  | some chunks =>
    obtain ⟨⟨inum, s₁⟩, halloc, hadd⟩ := bind_eq_ok.mp hadd
    obtain ⟨s₂, hdir, hadd⟩ := bind_eq_ok.mp hadd
    obtain ⟨rfl, hbuilt₁, hnext₁⟩ := h.ialloc (by decide) hlt halloc
    obtain ⟨hbuilt₂, hnext₂⟩ := hbuilt₁.iappend one_le_rootino
      (by rw [hnext₁]; exact Nat.lt_succ_of_lt hroot) hdir
    obtain ⟨hbuilt₃, hnext₃⟩ := Built.appendAll chunks s₂ _ hbuilt₂ h.first (by omega) hadd
    have hnil : content s.freeinode = [] := h.stores.eq_nil (h.addr_eq_zero le_rfl)
    rw [update_of_ne (show s.freeinode ≠ rootino from hroot.ne'), hnil, nil_append] at hbuilt₃
    have hbytes : f.bytes = chunks.flatten := by rw [Input.bytes, hchunks, Option.getD_some]
    rw [hbytes]
    exact ⟨hbuilt₃, by omega⟩

/-- What the image has after the loop of `main`. -/
structure Added (first : Nat) (files : List Input) (content content' : Nat → List UInt8) : Prop where
  root : content' rootino = content rootino ++ (dirents first files).flatten
  before : ∀ x, x ≠ rootino → x < first → content' x = content x
  file : ∀ k f, files[k]? = some f → content' (first + k) = f.bytes

/-- The loop over the files. -/
theorem Built.addFiles : ∀ (files : List Input) (s : State) (content : Nat → List UInt8),
    Built s content → 1 < s.freeinode → s.freeinode + files.length ≤ ninodes →
    addFiles files s = .ok s' →
    ∃ content', Built s' content' ∧ s'.freeinode = s.freeinode + files.length ∧
      Added s.freeinode files content content' := by
  intro files
  induction files with
  | nil =>
    intro s content h _ _ hadd
    obtain rfl := Except.ok.inj hadd
    refine ⟨content, h, rfl, ?_, fun _ _ _ => rfl, nofun⟩
    simp [dirents]
  | cons f files ih =>
    intro s content h hroot hlen hadd
    rw [length_cons] at hlen
    obtain ⟨s₁, hone, hadd⟩ := bind_eq_ok.mp hadd
    obtain ⟨hbuilt, hnext⟩ := h.addFile hroot (by omega) hone
    obtain ⟨content', hbuilt', hnext', hadded⟩ := ih s₁ _ hbuilt (by omega) (by omega) hadd
    rw [hnext] at hadded
    refine ⟨content', hbuilt', by rw [hnext', hnext, length_cons]; omega, ?_, ?_, ?_⟩
    · rw [hadded.root, update_of_ne (show rootino ≠ s.freeinode from hroot.ne), update_self, dirents,
        flatten_cons, append_assoc]
    · intro x hx hlt
      rw [hadded.before x hx (by omega), update_of_ne hlt.ne, update_of_ne hx]
    intro k g hk
    cases k with
    | zero =>
      obtain rfl : f = g := by simpa using hk
      rw [Nat.add_zero, hadded.before _ hroot.ne' (Nat.lt_succ_self _), update_self]
    | succ k =>
      rw [show s.freeinode + (k + 1) = s.freeinode + 1 + k by omega]
      exact hadded.file k g (by simpa using hk)

/-! ### The root directory -/

theorem blank_block {b : BitVec 32} (h : b ≠ 1) : blank.block b = fun _ => 0 := by
  simp only [blank, update_of_ne h]

theorem blank_dinode (x : Nat) : blank.dinode x = ⟨0, 0, 0, fun _ => 0⟩ := by
  rw [State.dinode]
  split_ifs with hx
  · have hne : iblock x ≠ 1 := by
      intro h
      have := iblock_toNat hx
      rw [h] at this
      have hone : (1 : BitVec 32).toNat = 1 := rfl
      omega
    simp only [State.inodeAt, blank_block hne]
    rfl
  · rfl

/-- The image that `main` starts with. -/
theorem blank_built : Built blank fun _ => [] := by
  have haddr : ∀ r, blank.view.addr r = 0 := by
    intro r
    refine if_pos ?_
    change (blank.dinode r.1).type = 0
    rw [blank_dinode]
  have hfree : blank.freeblock.toNat = nmeta := by decide
  refine ⟨⟨?_, ?_, fun b hb => ?_⟩, ⟨?_, ?_, ?_, ?_⟩, ⟨?_, ?_⟩, ?_, fun x => ?_, le_rfl, by decide⟩
  · exact hfree.ge
  · rw [hfree]
    decide
  · refine blank_block ?_
    rintro rfl
    rw [hfree] at hb
    exact absurd hb (by decide)
  · intro r hr
    exact absurd (haddr r) hr
  · intro r r' hr
    exact absurd (haddr r) hr
  · intro b hb
    refine iff_of_false ?_ ?_
    · have hlow := (data_iff.mp hb).1
      simp only [State.view, hfree, decide_eq_true_eq]
      omega
    · rintro ⟨r, hr⟩
      rw [haddr] at hr
      exact sb.region.zero (hr ▸ hb)
  · intro b hb
    have hnmeta : sb.nmeta = nmeta := by decide
    have hlow : b.toNat < sb.nmeta := hb
    simp only [State.view, hfree, decide_eq_true_eq]
    omega
  · intro x bn hbn
    exact absurd hbn (Nat.not_lt_zero _)
  · intro x bn slot o _ hne
    exact absurd (haddr _) hne
  · intro x hx hx'
    exact absurd hx' (Nat.not_lt.mpr hx)
  · rw [blank_dinode]
    refine iff_of_false (by simp) ?_
    rintro ⟨hx, hx'⟩
    exact absurd hx' (Nat.not_lt.mpr hx)

/-- The root directory with `.` and `..`. -/
theorem makeRoot_built (h : makeRoot = .ok s) : ∃ content, Built s content ∧ s.freeinode = 2 ∧
    content rootino = dirent rootino [46] ++ dirent rootino [46, 46] := by
  obtain ⟨⟨inum, s₁⟩, halloc, h⟩ := bind_eq_ok.mp h
  obtain ⟨rfl, hbuilt₁, hnext₁⟩ := blank_built.ialloc (by decide) (by decide) halloc
  have hroot : blank.freeinode = rootino := rfl
  rw [hroot] at h hnext₁
  dsimp only at h
  rw [if_pos rfl] at h
  obtain ⟨s₂, hdot, hdots⟩ := bind_eq_ok.mp h
  have hlt : rootino < s₁.freeinode := by omega
  obtain ⟨hbuilt₂, hnext₂⟩ := hbuilt₁.iappend one_le_rootino hlt hdot
  obtain ⟨hbuilt₃, hnext₃⟩ := hbuilt₂.iappend one_le_rootino (hnext₂ ▸ hlt) hdots
  refine ⟨_, hbuilt₃, ?_, ?_⟩
  · rw [hnext₃, hnext₂, hnext₁]
    rfl
  · rw [update_self, update_self, nil_append]

/-! ### The end of `main` -/

theorem getLsbD_usedBits (w : Fin (bsize / 4)) {j : Nat} (hj : j < 32) :
    ∀ n, (usedBits n w).getLsbD j = decide (32 * w.val + j < n)
  | 0 => by simp [usedBits]
  | n + 1 => by
    have ih := getLsbD_usedBits w hj n
    simp only [usedBits]
    by_cases hw : w.val = n / 32
    · rw [if_pos hw, BitVec.getLsbD_or, ih, BitVec.getLsbD_shiftLeft, BitVec.getLsbD_ofNat,
        Bool.eq_iff_iff]
      have hone : ∀ k, Nat.testBit 1 k = decide (k = 0) := by
        intro k
        cases k with
        | zero => rfl
        | succ => simp [Nat.testBit_succ]
      simp only [hone, Bool.or_eq_true, Bool.and_eq_true, decide_eq_true_eq, Bool.not_eq_true',
        decide_eq_false_iff_not]
      omega
    · rw [if_neg hw, ih, decide_eq_decide]
      omega

/-- What the last two steps change. -/
structure Finished (s s' : State) : Prop where
  freeinode : s'.freeinode = s.freeinode
  dinode : s'.dinode = update s.dinode rootino { s.dinode rootino with
    size := BitVec.ofNat 32 (((s.dinode rootino).size.toNat / bsize + 1) * bsize) }
  block : ∀ b, sb.region.data b → s'.block b = s.block b
  addr : s'.mount.addr = s.view.addr
  bit : ∀ b : BitVec 32, b.toNat < bpb → s'.bit b = decide (b.toNat < s.freeblock.toNat)

/-- The last steps: the size of the root directory and the bitmap. -/
theorem Built.finish (h : Built s content) {s₁ : State} (hfix : fixRoot s = .ok s₁)
    (hbal : balloc s₁ = .ok s') : Finished s s' := by
  have hinum : rootino < ninodes := by decide
  have hbmap : (BitVec.ofNat 32 bmapstart).toNat = bmapstart := by decide
  obtain ⟨din, hread, hwrite⟩ := bind_eq_ok.mp hfix
  have hdin : din.toDinode = s.dinode rootino := by
    rw [rinode_eq hread, dinode_eq hinum]
  obtain ⟨hnext, hfree, hdinode, -⟩ := winode_eq hinum hwrite
  rw [balloc] at hbal
  split_ifs at hbal with hsmall
  obtain rfl := Except.ok.inj hbal
  have haddr : (s.view.iupdate rootino { din.toDinode with
      size := xint (BitVec.ofNat 32 (((xint din.size).toNat / bsize + 1) * bsize)) }).addr =
      s.view.addr := by
    have hcongr : (s.view.iupdate rootino { din.toDinode with
        size := xint (BitVec.ofNat 32 (((xint din.size).toNat / bsize + 1) * bsize)) }).addr =
        (s.view.iupdate rootino din.toDinode).addr := addr_iupdate_congr rfl rfl
    rw [hcongr, hdin, view_iupdate_self]
  have haddr₁ : s₁.view.addr = s.view.addr :=
    (winode_addr hinum hwrite (haddr ▸ h.owns)).trans haddr
  have hdata : ∀ b, sb.region.data b → b ≠ BitVec.ofNat 32 bmapstart := by
    rintro b hb rfl
    have hlow := (data_iff.mp hb).1
    rw [hbmap] at hlow
    exact absurd bmapstart_lt (Nat.not_lt.mpr hlow)
  have hsame : (s₁.wsect (BitVec.ofNat 32 bmapstart) (usedBits s₁.freeblock.toNat)).dinode =
      s₁.dinode := dinode_wsect hbmap.ge
  refine ⟨hnext, ?_, fun b hb => ?_, ?_, fun b hb => ?_⟩
  · rw [hsame, hdinode, xint_eq, xint_eq, ← hdin]
  · exact (update_of_ne (hdata b hb) _ _).trans (winode_block hinum hwrite hb)
  · have hmount : (s₁.wsect (BitVec.ofNat 32 bmapstart) (usedBits s₁.freeblock.toNat)).mount =
        { s₁.view with
          bitmap := (s₁.wsect (BitVec.ofNat 32 bmapstart) (usedBits s₁.freeblock.toNat)).bit
          block := update s₁.block (BitVec.ofNat 32 bmapstart)
            (usedBits s₁.freeblock.toNat) } := by
      simp only [State.mount, State.view, hsame]
      rfl
    rw [hmount, ← haddr₁]
    funext r
    refine addr_update_block (s := s₁.view) ?_
    rw [haddr₁]
    intro heq
    refine hdata _ (h.owns.inside (r.1, .indirect) ?_) heq
    rw [heq]
    decide
  · have hzero : b.toNat / bpb = 0 := Nat.div_eq_of_lt hb
    have hblock : (s₁.wsect (BitVec.ofNat 32 bmapstart) (usedBits s₁.freeblock.toNat)).block
        (BitVec.ofNat 32 (b.toNat / bpb + bmapstart)) = usedBits s₁.freeblock.toNat := by
      rw [hzero, Nat.zero_add]
      simp only [State.wsect, update_self]
    have hpos : 32 * (b.toNat % bpb / 32) + b.toNat % 32 = b.toNat := by
      rw [Nat.mod_eq_of_lt hb]
      omega
    rw [State.bit, hblock, getLsbD_usedBits _ (Nat.mod_lt _ (by decide)), hfree]
    dsimp only
    rw [hpos]

section Final

variable (h : Built s content) (hfin : Finished s s')

include h hfin

/-- The kernel finds every block owned once. -/
theorem Built.mount_owns : Owns sb.region s'.mount.addr s'.mount.bitmap := by
  have hbit : ∀ b : BitVec 32, b.toNat < fssize → s'.mount.bitmap b = s.view.bitmap b :=
    fun b hb => hfin.bit b (hb.trans (by decide))
  rw [hfin.addr]
  refine ⟨h.owns.inside, h.owns.once, fun b hb => ?_, fun b hb => ?_⟩
  · rw [hbit b (data_iff.mp hb).2]
    exact h.owns.used_iff b hb
  · have hlow : b.toNat < sb.nmeta := hb
    rw [hbit b (hlow.trans (by decide))]
    exact h.owns.reserved b hb

theorem Built.mount_stores : Stores s'.mount content := h.stores.congr h.owns hfin.addr hfin.block

theorem Built.root_size (hroot : rootino < s.freeinode) : (s'.dinode rootino).size.toNat =
    ((content rootino).length / bsize + 1) * bsize := by
  rw [hfin.dinode, update_self, h.size rootino one_le_rootino hroot]
  have hbound := h.stores.length_le rootino
  change (BitVec.ofNat 32 _).toNat = _
  rw [BitVec.toNat_ofNat]
  refine Nat.mod_eq_of_lt ?_
  simp only [maxfile, ndirect, nindirect, bsize] at hbound ⊢
  omega

/-- The last block of the root directory is not full, so it has all blocks of its new size. -/
theorem Built.mapped (hroot : rootino < s.freeinode)
    (hroom : (content rootino).length % bsize ≠ 0) : Mapped s'.mount := by
  have hcovers := (h.mount_stores hfin).covers
  intro x bn htype hbn
  change (s'.dinode x).type ≠ 0 at htype
  change bn * bsize < (s'.dinode x).size.toNat at hbn
  by_cases hx : x = rootino
  · subst hx
    refine hcovers rootino bn ?_
    rw [h.root_size hfin hroot] at hbn
    have hle : bn ≤ (content rootino).length / bsize :=
      Nat.lt_succ_iff.mp (Nat.lt_of_mul_lt_mul_right hbn)
    have hmul := Nat.mul_le_mul_right bsize hle
    have hmod := Nat.div_add_mod (content rootino).length bsize
    rw [Nat.mul_comm] at hmod
    omega
  · rw [hfin.dinode, update_of_ne hx] at htype hbn
    obtain ⟨hlow, hhigh⟩ := (h.type x).mp htype
    rw [h.size x hlow hhigh] at hbn
    exact hcovers x bn hbn

/-- The bitmap marks the blocks in use. -/
theorem Built.marked (b : BitVec 32) (hb : b.toNat < bpb) :
    s'.bit b = true ↔ b.toNat < nmeta ∨ ∃ r, s'.mount.addr r ≠ 0 ∧ s'.mount.addr r = b := by
  rw [hfin.bit b hb, decide_eq_true_iff, hfin.addr]
  have hlower := h.sound.lower
  have hupper := h.sound.upper
  constructor
  · intro hlt
    by_cases hlow : b.toNat < nmeta
    · exact .inl hlow
    · have hdata : sb.region.data b := data_iff.mpr ⟨Nat.not_lt.mp hlow, by omega⟩
      obtain ⟨r, hr⟩ := (h.owns.used_iff b hdata).mp (decide_eq_true hlt)
      refine .inr ⟨r, ?_, hr⟩
      rw [hr]
      exact h.owns.ne_zero hdata
  · rintro (hlow | ⟨r, hne, rfl⟩)
    · omega
    · exact of_decide_eq_true (h.owns.used_of_ne_zero hne)

end Final

/-! ### Names -/

theorem getD_flatten {α : Type*} {n : Nat} (d : α) : ∀ (l : List (List α)), (∀ x ∈ l, x.length = n)
    → ∀ i t, t < n → l.flatten.getD (n * i + t) d = (l.getD i []).getD t d
  | [], _, i, t, _ => by simp
  | x :: l, hlen, i, t, ht => by
    have hx := hlen x (mem_cons_self ..)
    rw [flatten_cons]
    cases i with
    | zero =>
      rw [Nat.mul_zero, Nat.zero_add, getD_append _ _ _ _ (by omega)]
      rfl
    | succ i =>
      rw [getD_append_right _ _ _ _ (by rw [hx, Nat.mul_succ]; omega), hx,
        show n * (i + 1) + t - n = n * i + t by rw [Nat.mul_succ]; omega,
        getD_flatten d l (fun y hy => hlen y (mem_cons_of_mem _ hy)) i t ht]
      rfl

theorem length_strncpy (name : List UInt8) : (strncpy name).length = dirsiz := by
  rw [strncpy, length_append, length_take, length_replicate]
  omega

theorem length_dirent (inum : Nat) (name : List UInt8) : (dirent inum name).length = 16 := by
  simp only [dirent, length_cons, length_strncpy, dirsiz]

/-- The entries of the root directory. -/
def rootEntries (files : List Input) : List (List UInt8) :=
  dirent rootino [46] :: dirent rootino [46, 46] :: dirents 2 files

theorem length_dirents : ∀ (files : List Input) (inum : Nat), (dirents inum files).length =
    files.length
  | [], _ => rfl
  | _ :: files, inum => by rw [dirents, length_cons, length_cons, length_dirents]

theorem length_rootEntries (files : List Input) : (rootEntries files).length = files.length + 2 :=
    by
  simp only [rootEntries, length_cons, length_dirents]

theorem length_of_mem_dirents {x : List UInt8} :
    ∀ (files : List Input) (inum : Nat), x ∈ dirents inum files → x.length = 16
  | f :: files, inum, hx => by
    obtain rfl | hx := mem_cons.mp hx
    · exact length_dirent ..
    · exact length_of_mem_dirents files _ hx

theorem length_of_mem_rootEntries {files : List Input} {x : List UInt8} (hx : x ∈ rootEntries files)
    : x.length = 16 := by
  simp only [rootEntries, mem_cons] at hx
  obtain rfl | rfl | hx := hx
  · exact length_dirent ..
  · exact length_dirent ..
  · exact length_of_mem_dirents _ _ hx

theorem getD_dirent_ne_zero {inum : Nat} {name : List UInt8} (hpos : 0 < inum) (hlt : inum < 256) :
    (dirent inum name).getD 0 0 ≠ 0 := by
  intro hzero
  have hval := congrArg UInt8.toNat hzero
  simp [dirent, xshort_eq] at hval
  omega

/-- No entry has inode 0. -/
theorem getD_dirents_ne_zero {x : List UInt8} : ∀ (files : List Input) (inum : Nat), 0 < inum →
    inum + files.length ≤ 256 → x ∈ dirents inum files → x.getD 0 0 ≠ 0
  | f :: files, inum, hpos, hle, hx => by
    rw [length_cons] at hle
    obtain rfl | hx := mem_cons.mp hx
    · exact getD_dirent_ne_zero hpos (by omega)
    · exact getD_dirents_ne_zero files _ inum.succ_pos (by omega) hx

theorem map_drop_dirents : ∀ (files : List Input) (inum : Nat),
    (dirents inum files).map (List.drop 2) = files.map fun f => strncpy f.name
  | [], _ => rfl
  | f :: files, inum => by
    rw [dirents, map_cons, map_cons, map_drop_dirents]
    rfl

theorem map_drop_rootEntries (files : List Input) :
    (rootEntries files).map (List.drop 2) = names files := by
  rw [rootEntries, map_cons, map_cons, map_drop_dirents]
  rfl

theorem length_flatten_rootEntries (files : List Input) :
    (rootEntries files).flatten.length = 16 * (files.length + 2) := by
  have hall : ∀ l : List (List UInt8), (∀ x ∈ l, x.length = 16) → l.flatten.length = 16 * l.length := by
    intro l
    induction l with
    | nil => intro _; rfl
    | cons x l ih =>
      intro hlen
      rw [flatten_cons, length_append, hlen x (mem_cons_self ..),
        ih fun y hy => hlen y (mem_cons_of_mem _ hy), length_cons]
      omega
  rw [hall _ fun x hx => length_of_mem_rootEntries hx, length_rootEntries]

section Names

variable {files : List Input} (hmapped : Mapped s.mount) (hstores : Stores s.mount content)
  (htype : (s.dinode rootino).type ≠ 0) (hcontent : content rootino = (rootEntries files).flatten)
  (hsize : (s.dinode rootino).size.toNat % bsize = 0)

include hmapped hstores htype hcontent hsize

/-- The bytes of the root directory are those of its entries. -/
theorem rootByte_eq {i t : Nat} (hi : 16 * i < (s.dinode rootino).size.toNat) (ht : t < 16) :
    s.rootByte (16 * i + t) = ((rootEntries files).getD i []).getD t 0 := by
  have hlt : 16 * i + t < (s.dinode rootino).size.toNat := by
    simp only [bsize] at hsize
    omega
  have hdiv : (16 * i + t) / bsize * bsize ≤ 16 * i + t := Nat.div_mul_le_self _ _
  obtain ⟨slot, hslot, hne⟩ := hmapped rootino ((16 * i + t) / bsize) htype (hdiv.trans_lt hlt)
  have hbyte := hstores.bytes rootino _ slot ((16 * i + t) % bsize) hslot hne (Nat.mod_lt _ (by decide))
  have hpos : (16 * i + t) / bsize * bsize + (16 * i + t) % bsize = 16 * i + t := by
    rw [Nat.mul_comm]
    exact Nat.div_add_mod ..
  rw [hpos, hcontent, getD_flatten 0 _ (fun x hx => length_of_mem_rootEntries hx) i t ht] at hbyte
  rw [State.rootByte, hslot]
  exact hbyte

theorem entry_lt {i : Nat} (hi : 16 * i < (s.dinode rootino).size.toNat) (hne : s.entryInum i ≠ 0) :
    i < (rootEntries files).length := by
  by_contra hlt
  have hnil : (rootEntries files).getD i [] = [] := getD_eq_default _ _ (Nat.not_lt.mp hlt)
  refine hne ?_
  have hzero := rootByte_eq hmapped hstores htype hcontent hsize hi (show 0 < 16 by decide)
  rw [Nat.add_zero] at hzero
  rw [State.entryInum, hzero, rootByte_eq hmapped hstores htype hcontent hsize hi (by decide), hnil]
  rfl

theorem entryInum_ne_zero {i : Nat} (hi : 16 * i < (s.dinode rootino).size.toNat)
    (hlt : i < (rootEntries files).length) (hinodes : files.length + 2 ≤ ninodes) :
    s.entryInum i ≠ 0 := by
  have hbyte := rootByte_eq hmapped hstores htype hcontent hsize hi (show 0 < 16 by decide)
  rw [Nat.add_zero, getD_eq_getElem _ _ hlt] at hbyte
  have hne : s.rootByte (16 * i) ≠ 0 := by
    rw [hbyte]
    have hmem := getElem_mem hlt
    simp only [rootEntries, mem_cons] at hmem
    obtain heq | heq | hmem := hmem
    · exact heq ▸ getD_dirent_ne_zero (by decide) (by decide)
    · exact heq ▸ getD_dirent_ne_zero (by decide) (by decide)
    · rw [ninodes] at hinodes
      exact getD_dirents_ne_zero files 2 (by decide) (by omega) hmem
  rw [State.entryInum]
  intro hzero
  exact hne (UInt8.toNat_inj.mp (Nat.eq_zero_of_add_eq_zero_right hzero))

/-- The names in the root directory are those of the files, cut to `DIRSIZ` bytes. -/
theorem entryName_eq {i : Nat} (hi : 16 * i < (s.dinode rootino).size.toNat)
    (hlt : i < (rootEntries files).length) :
    (names files)[i]? = some (s.entryName i) := by
  have hget : (rootEntries files)[i]? = some (rootEntries files)[i] := List.getElem?_eq_getElem hlt
  have hlen := length_of_mem_rootEntries (getElem_mem hlt)
  rw [← map_drop_rootEntries, List.getElem?_map, hget, Option.map_some, State.entryName]
  congr 1
  refine ext_getElem ?_ fun t ht ht' => ?_
  · simp only [length_drop, hlen, length_map, length_range, dirsiz]
  · have ht16 : 2 + t < 16 := by
      rw [length_drop, hlen] at ht
      omega
    rw [getElem_map, getElem_range, rootByte_eq hmapped hstores htype hcontent hsize hi ht16,
      getD_eq_getElem _ _ hlt, getD_eq_getElem _ _ (by omega), getElem_drop]

end Names

/-! ### The program -/

/-- A run of `mkfs` that ends comes to its last steps. -/
theorem mkfs_finished {files : List Input} (h : mkfs files = .ok s)
    (hinodes : files.length + 2 ≤ ninodes) :
    ∃ s₀ content, Built s₀ content ∧ Finished s₀ s ∧ s₀.freeinode = files.length + 2 ∧
      content rootino = (rootEntries files).flatten ∧
      ∀ k f, files[k]? = some f → content (2 + k) = f.bytes := by
  obtain ⟨s₁, hroot, h⟩ := bind_eq_ok.mp h
  obtain ⟨s₂, hadd, h⟩ := bind_eq_ok.mp h
  obtain ⟨s₃, hfix, hbal⟩ := bind_eq_ok.mp h
  obtain ⟨content₁, hbuilt₁, hnext₁, hcontent₁⟩ := makeRoot_built hroot
  obtain ⟨content, hbuilt, hnext, hadded⟩ :=
    Built.addFiles files s₁ content₁ hbuilt₁ (by omega) (by omega) hadd
  rw [hnext₁] at hadded hnext
  refine ⟨s₂, content, hbuilt, hbuilt.finish hfix hbal, by omega, ?_, hadded.file⟩
  rw [hadded.root, hcontent₁, rootEntries, flatten_cons, flatten_cons, append_assoc]

end Xv6.Mkfs
