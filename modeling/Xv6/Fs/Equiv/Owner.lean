import Xv6.Fs.Equiv.Content

/-!
# Block ownership

Every operation on inodes keeps the blocks in use and the references to them in line (`FsInv.step`).
So, after any sequence of them, `bfree` finds no free block and `readi` does not allocate
(`blocks_owned`).
-/

namespace Xv6.Fs

open Lib Bcache Function

variable {sb : Superblock} {s s' : State} {inum : Nat} {ip ip' : Dinode}

/-! ### The invariant -/

/-- The invariant of the file system, for all inodes and their copies in memory. -/
structure FsInv (sb : Superblock) (s : State) : Prop where
  owns : Owns sb.region s.addr s.bitmap
  mapped : Mapped s
  sync : ∀ inum, (s.inode inum).ref ≠ 0 → (s.inode inum).valid = true →
    (s.inode inum).copy = s.dinode inum ∧ (s.dinode inum).type ≠ 0

/-- An operation on an inode is done: its copy `ip'` is on disk, and has all its blocks. -/
structure Done (sb : Superblock) (inum : Nat) (s : State) (ip' : Dinode) (s' : State) : Prop where
  owns : Owns sb.region s'.addr s'.bitmap
  type : ip'.type ≠ 0
  dinode : s'.dinode = update s.dinode inum ip'
  inode : s'.inode = s.inode
  covers : Covers inum s' ip'.size.toNat
  kept : ∀ x slot, x ≠ inum → s.addr (x, slot) ≠ 0 → s'.addr (x, slot) = s.addr (x, slot)

theorem Done.mapped (h : Mapped s) (hd : Done sb inum s ip' s') : Mapped s' := by
  intro x bn htype hbn
  by_cases hx : x = inum
  · subst hx
    rw [hd.dinode, update_self] at hbn
    exact hd.covers bn hbn
  · rw [hd.dinode, update_of_ne hx] at htype hbn
    obtain ⟨slot, hslot, hne⟩ := h x bn htype hbn
    refine ⟨slot, hslot, ?_⟩
    rw [hd.kept x slot hx hne]
    exact hne

/-- An operation on a locked inode that is done keeps the invariant. -/
theorem FsInv.done (h : FsInv sb s) (hd : Done sb inum s ip' s') :
    FsInv sb (s'.setInode inum { s'.inode inum with copy := ip' }) where
  owns := hd.owns
  mapped := by
    have hmapped : Mapped s' := hd.mapped h.mapped
    exact hmapped
  sync x href hvalid := by
    simp only [State.setInode, hd.dinode] at href hvalid ⊢
    by_cases hx : x = inum
    · subst hx
      rw [update_self, update_self]
      exact ⟨rfl, hd.type⟩
    · rw [update_of_ne hx] at href hvalid ⊢
      rw [update_of_ne hx]
      rw [hd.inode] at href hvalid ⊢
      exact h.sync x href hvalid

/-! ### `ilock` -/

/-- The inode is locked: its copy is that on disk. -/
structure Locked (sb : Superblock) (inum : Nat) (s s₁ : State) : Prop where
  inv : FsInv sb s₁
  good : Good sb inum (s₁.inode inum).copy s₁
  copy : (s₁.inode inum).copy = s₁.dinode inum
  bitmap : s₁.bitmap = s.bitmap
  block : s₁.block = s.block
  dinode : s₁.dinode = s.dinode

theorem iupdate_self : s.iupdate inum (s.dinode inum) = s := by
  simp only [State.iupdate, update_eq_self]

/-- After `ilock` the copy in memory is valid. -/
theorem ilock_locked {s₁ : State} (h : FsInv sb s) (hl : ilock s inum = .ok s₁) :
    Locked sb inum s s₁ := by
  have hgood : ∀ {s₁ : State}, FsInv sb s₁ → (s₁.inode inum).copy = s₁.dinode inum →
      (s₁.dinode inum).type ≠ 0 → Good sb inum (s₁.inode inum).copy s₁ := by
    intro s₁ hinv hcopy htype
    rw [hcopy]
    refine ⟨?_, htype⟩
    rw [iupdate_self]
    exact hinv.owns
  unfold ilock at hl
  dsimp only at hl
  split_ifs at hl with href hvalid htype
  · obtain rfl := Except.ok.inj hl
    obtain ⟨hcopy, htype⟩ := h.sync inum (by omega) hvalid
    exact ⟨h, hgood h hcopy htype, hcopy, rfl, rfl, rfl⟩
  obtain rfl := Except.ok.inj hl
  have hinv : FsInv sb (s.setInode inum
      { s.inode inum with valid := true, copy := s.dinode inum }) := by
    refine ⟨h.owns, h.mapped, fun x hx hx' => ?_⟩
    simp only [State.setInode] at hx hx' ⊢
    by_cases hxi : x = inum
    · subst hxi
      rw [update_self]
      exact ⟨rfl, htype⟩
    · rw [update_of_ne hxi] at hx hx' ⊢
      exact h.sync x hx hx'
  have hcopy : ((s.setInode inum
      { s.inode inum with valid := true, copy := s.dinode inum }).inode inum).copy =
        s.dinode inum := by
    simp only [State.setInode, update_self]
  exact ⟨hinv, hgood hinv hcopy htype, hcopy, rfl, rfl, rfl⟩

variable {e : Panic} {buf : Buffer} {off n : BitVec 32}

theorem ilock_error (h : ilock s inum = .error e) : e ≠ .freeBlock := by
  unfold ilock at h
  dsimp only at h
  split_ifs at h <;> obtain rfl := Except.error.inj h
  · nofun
  · nofun

theorem Locked.done {s₁ : State} (h : Locked sb inum s s₁) :
    Done sb inum s₁ (s₁.inode inum).copy s₁ where
  owns := h.inv.owns
  type := h.good.type
  dinode := by rw [h.copy, update_eq_self]
  inode := rfl
  covers := by
    have htype := h.good.type
    rw [h.copy] at htype ⊢
    exact fun bn hbn => h.inv.mapped inum bn htype hbn
  kept _ _ _ _ := rfl

/-- What an operation between `ilock` and `iunlock` does. -/
theorem withLock_eq_ok {f : Dinode → State → Except Panic (Dinode × State)} (h : FsInv sb s)
    (hl : withLock s inum f = .ok s') :
    ∃ s₁ ip₂ s₂, Locked sb inum s s₁ ∧ f (s₁.inode inum).copy s₁ = .ok (ip₂, s₂) ∧
      s' = s₂.setInode inum { s₂.inode inum with copy := ip₂ } := by
  obtain ⟨s₁, hlock, hl⟩ := bind_eq_ok.mp hl
  obtain ⟨⟨ip₂, s₂⟩, hf, hl⟩ := bind_eq_ok.mp hl
  exact ⟨s₁, ip₂, s₂, ilock_locked h hlock, hf, (Except.ok.inj hl).symm⟩

theorem withLock_error {f : Dinode → State → Except Panic (Dinode × State)} (h : FsInv sb s)
    (hl : withLock s inum f = .error e) :
    e ≠ .freeBlock ∨ ∃ s₁, Locked sb inum s s₁ ∧ f (s₁.inode inum).copy s₁ = .error e := by
  obtain hlock | ⟨s₁, hlock, hl⟩ := bind_eq_error.mp hl
  · exact .inl (ilock_error hlock)
  · obtain hf | ⟨⟨ip₂, s₂⟩, hf, hl⟩ := bind_eq_error.mp hl
    · exact .inr ⟨s₁, ilock_locked h hlock, hf⟩
    · cases hl

/-! ### Operations on a locked inode -/

/-- What has been added goes to the disk, as the inode `v`. -/
theorem Grown.done (h : Grown sb inum ip s ip' s') (v : Dinode) (htype : v.type = ip'.type)
    (haddrs : v.addrs = ip'.addrs) (hcov : Covers inum (s'.iupdate inum ip') v.size.toNat) :
    Done sb inum s v (s'.iupdate inum v) := by
  have haddr : (s'.iupdate inum v).addr = (s'.iupdate inum ip').addr :=
    addr_iupdate_congr htype haddrs
  refine ⟨?_, ?_, ?_, h.inode, ?_, fun x slot hx hne => ?_⟩
  · rw [haddr]
    exact h.good.owns
  · rw [htype]
    exact h.good.type
  · rw [State.iupdate, h.dinode]
  · intro bn hbn
    rw [haddr]
    exact hcov bn hbn
  · have hold : (s.iupdate inum ip).addr (x, slot) = s.addr (x, slot) :=
      addr_iupdate_of_ne hx
    rw [haddr, h.kept (x, slot) (by rw [hold]; exact hne), hold]

theorem Done.self (h : Done sb inum s ip s) : s.iupdate inum ip = s := by
  rw [State.iupdate, ← h.dinode]

/-- `writei` is such an operation. -/
theorem Done.writei {buf : Buffer} {mem : Mem} {off n : BitVec 32} {r : Option Nat}
    (h : Done sb inum s ip s) (hw : writei sb s inum ip buf mem off n = .ok (r, ip', s')) :
    Done sb inum s ip' s' := by
  have hcov : Covers inum (s.iupdate inum ip) ip.size.toNat := h.self.symm ▸ h.covers
  unfold Fs.writei at hw
  split_ifs at hw with hoff hmax
  · obtain ⟨-, rfl, rfl⟩ := by simpa using hw
    exact h
  · obtain ⟨-, rfl, rfl⟩ := by simpa using hw
    exact h
  obtain ⟨⟨tot, off', ip₂, s₂⟩, hloop, hw⟩ := bind_eq_ok.mp hw
  obtain ⟨-, rfl, rfl⟩ := by simpa [pure, Except.pure] using hw
  -- off <= ip->size, so the blocks before `off` are there
  have hle : off.toNat ≤ ip.size.toNat := by
    rw [not_or] at hoff
    exact BitVec.le_def.mp (BitVec.not_lt.mp hoff.1)
  obtain ⟨hgrown, hcov', -⟩ := writeLoop_grown _ _ _ _ _ ⟨by rw [h.self]; exact h.owns, h.type⟩
    (hcov.le hle) hloop
  split_ifs with hgt
  · refine hgrown.done _ rfl rfl fun bn hbn => hcov' bn ?_
    rw [BitVec.toNat_ofNat] at hbn
    exact hbn.trans_le (Nat.mod_le _ _)
  · refine hgrown.done _ rfl rfl ?_
    rw [hgrown.size]
    exact hgrown.covers hcov

namespace Locked

variable {s₁ : State} (h : Locked sb inum s s₁)

include h

theorem covers : Covers inum (s₁.iupdate inum (s₁.inode inum).copy)
    (s₁.inode inum).copy.size.toNat := by
  rw [h.done.self]
  exact h.done.covers

theorem readi_same {buf : Buffer} {mem mem' : Mem} {off n : BitVec 32} {r : Option Nat}
    (hr : readi sb s₁ (s₁.inode inum).copy buf mem off n = .ok (r, mem', ip', s')) :
    ip' = (s₁.inode inum).copy ∧ s' = s₁ := by
  -- n is cut off at the size of the file
  have hloop : ∀ m : BitVec 32, off.toNat + m.toNat ≤ (s₁.inode inum).copy.size.toNat →
      readLoop sb buf m.toNat m.toNat 0 off.toNat mem (s₁.inode inum).copy s₁ =
        .ok (r, mem', ip', s') → ip' = (s₁.inode inum).copy ∧ s' = s₁ := by
    intro m hm hr
    obtain ⟨pieces, -, heq⟩ : ∃ pieces, _ ∧ readLoop sb buf m.toNat m.toNat 0 off.toNat mem _ _ = _ :=
      readLoop_pieces h.good _ 0 off.toNat mem (Nat.le_refl _) (h.covers.le hm)
    obtain ⟨-, -, rfl, rfl⟩ := by simpa using heq.symm.trans hr
    exact ⟨rfl, rfl⟩
  unfold readi at hr
  split_ifs at hr with hoff hend
  · obtain ⟨-, -, rfl, rfl⟩ := by simpa using hr
    exact ⟨rfl, rfl⟩
  · rw [not_or] at hoff
    have hle : off ≤ (s₁.inode inum).copy.size := BitVec.not_lt.mp hoff.1
    refine hloop _ ?_ hr
    rw [BitVec.toNat_sub_of_le hle]
    exact (Nat.add_sub_cancel' (BitVec.le_def.mp hle)).le
  · rw [not_or] at hoff
    refine hloop _ ?_ hr
    have hend : (off + n).toNat ≤ _ := BitVec.le_def.mp (BitVec.not_lt.mp hend)
    have hover : off.toNat ≤ (off + n).toNat := BitVec.le_def.mp (BitVec.not_lt.mp hoff.2)
    rw [BitVec.toNat_add] at hend hover
    have := off.isLt
    have := n.isLt
    omega

/-- `itrunc` is such an operation, and it does not panic. -/
theorem itrunc_done : ∃ ip' s', itrunc s₁ inum (s₁.inode inum).copy = .ok (ip', s') ∧
    Done sb inum s₁ ip' s' ∧ ∀ slot, s'.addr (inum, slot) = 0 := by
  obtain ⟨ip', s', htrunc, hgood, hsize, hdinode, hinode, hzero, hkept⟩ := itrunc_freed h.good
  have hself : s'.iupdate inum ip' = s' := by
    rw [State.iupdate, hdinode, update_idem, ← hdinode]
  have howns := hgood.owns
  rw [hself] at howns
  have hcov : Covers inum s' ip'.size.toNat := by
    rw [hsize]
    exact fun bn hbn => absurd hbn (Nat.not_lt_zero _)
  exact ⟨ip', s', htrunc,
    ⟨howns, hgood.type, hdinode, hinode, hcov, fun x slot hx _ => hkept x slot hx⟩, hzero⟩

theorem setNlink_done (nlink : BitVec 16) :
    Done sb inum s₁ { (s₁.inode inum).copy with nlink }
      (s₁.iupdate inum { (s₁.inode inum).copy with nlink }) :=
  h.good.grown.done _ rfl rfl h.covers

end Locked

/-! ### Inodes -/

section

variable (h : FsInv sb s)

include h

theorem FsInv.iget : FsInv sb (s.iget inum) := by
  refine ⟨h.owns, h.mapped, fun x href hvalid => ?_⟩
  simp only [State.iget, State.setInode] at href hvalid ⊢
  by_cases hx : x = inum
  · subst hx
    rw [update_self] at href hvalid ⊢
    split_ifs at href hvalid ⊢ with hpos
    exact h.sync x (Nat.ne_of_gt hpos) hvalid
  · rw [update_of_ne hx] at href hvalid ⊢
    exact h.sync x href hvalid

/-- A new inode is not one in memory, and has no blocks. -/
theorem FsInv.ialloc {type : BitVec 16}
    (hi : ialloc sb s type = .ok (inum, s')) : FsInv sb s' := by
  unfold Fs.ialloc at hi
  split at hi
  · next x hfind =>
    obtain rfl := (Prod.mk.inj (Except.ok.inj hi)).2
    have hfree : (s.dinode x).type = 0 := by
      have hx := List.find?_some hfind
      exact (of_decide_eq_true hx).2
    have haddr : (s.iupdate x ⟨type, 0, 0, fun _ => 0⟩).addr = s.addr := by
      funext r
      rw [addr_iupdate]
      split_ifs with hr htype
      · rw [State.addr, hr, if_pos hfree]
      · rw [State.addr, hr, if_pos hfree]
        cases r.2 with
        | direct | indirect | entry => rfl
      · rfl
    refine FsInv.iget ⟨?_, fun y bn htype hbn => ?_, fun y href hvalid => ?_⟩
    · rw [haddr]
      exact h.owns
    · rw [haddr]
      simp only [State.iupdate] at htype hbn
      by_cases hy : y = x
      · rw [hy, update_self] at hbn
        exact absurd hbn (Nat.not_lt_zero _)
      · rw [update_of_ne hy] at htype hbn
        exact h.mapped y bn htype hbn
    · obtain ⟨hcopy, htype⟩ := h.sync y href hvalid
      have hy : y ≠ x := by
        rintro rfl
        exact htype hfree
      simp only [State.iupdate, update_of_ne hy]
      exact ⟨hcopy, htype⟩
  · cases hi

/-- An inode in memory with a synchronous copy is as good as locked. -/
theorem FsInv.locked (href : (s.inode inum).ref ≠ 0)
    (hvalid : (s.inode inum).valid = true) : Locked sb inum s s := by
  refine ilock_locked h ?_
  simp only [ilock, if_neg (Nat.not_lt.mpr (Nat.pos_of_ne_zero href)), if_pos hvalid]

/-- `iput` does not panic, and keeps the invariant. -/
theorem FsInv.iput : ∃ s', iput s inum = .ok s' ∧ FsInv sb s' := by
  unfold Fs.iput
  dsimp only
  split_ifs with hlast
  · obtain ⟨href, hvalid, -⟩ := hlast
    have hlock := h.locked (by rw [href]; exact Nat.one_ne_zero) hvalid
    obtain ⟨ip', s', htrunc, hdone, hzero⟩ := hlock.itrunc_done
    rw [htrunc]
    refine ⟨_, rfl, ?_⟩
    have haddr : (s'.iupdate inum { ip' with type := 0 }).addr = s'.addr := by
      funext r
      rw [addr_iupdate]
      split_ifs with hr htype
      · rw [← hzero r.2, ← hr]
      · exact absurd rfl htype
      · rfl
    refine ⟨?_, fun x bn htype hbn => ?_, fun x hxref hxvalid => ?_⟩
    · have howns := hdone.owns
      rw [← haddr] at howns
      exact howns
    · have hx : x ≠ inum := by
        rintro rfl
        simp [State.setInode, State.iupdate] at htype
      simp only [State.setInode, State.iupdate, update_of_ne hx] at htype hbn
      obtain ⟨slot, hslot, hne⟩ := hdone.mapped h.mapped x bn htype hbn
      rw [← haddr] at hne
      exact ⟨slot, hslot, hne⟩
    · simp only [State.setInode, State.iupdate] at hxref hxvalid ⊢
      by_cases hx : x = inum
      · rw [hx, update_self] at hxref
        exact absurd rfl hxref
      · simp only [update_of_ne hx, hdone.inode, hdone.dinode] at hxref hxvalid ⊢
        exact h.sync x hxref hxvalid
  · refine ⟨_, rfl, h.owns, h.mapped, fun x hxref hxvalid => ?_⟩
    simp only [State.setInode] at hxref hxvalid ⊢
    by_cases hx : x = inum
    · subst hx
      rw [update_self] at hxref hxvalid ⊢
      refine h.sync x ?_ hxvalid
      intro hzero
      exact hxref (by rw [hzero])
    · rw [update_of_ne hx] at hxref hxvalid ⊢
      exact h.sync x hxref hxvalid

/-! ### Steps -/

/-- One operation keeps the invariant. -/
theorem FsInv.step {op : Op} (hop : Fs.step sb s op = some (.ok s')) :
    FsInv sb s' := by
  cases op with
  | ialloc type =>
    have hop := Option.some.inj hop
    cases hi : Fs.ialloc sb s type with rw [hi] at hop
    | error =>
      cases hop
    | ok =>
      obtain rfl := Except.ok.inj hop
      exact h.ialloc hi
  | iget =>
    obtain rfl := Except.ok.inj (Option.some.inj hop)
    exact h.iget
  | iput inum =>
    rw [Fs.step] at hop
    split_ifs at hop
    have hput : ∃ s', Fs.iput s inum = .ok s' ∧ FsInv sb s' := h.iput
    obtain ⟨s₁, hput, hinv⟩ := hput
    obtain rfl := Except.ok.inj (hput.symm.trans (Option.some.inj hop))
    exact hinv
  | readi =>
    obtain ⟨s₁, ip₂, s₂, hlock, hf, rfl⟩ := withLock_eq_ok h (Option.some.inj hop)
    obtain ⟨⟨r, mem', ip', s''⟩, hread, hf⟩ := bind_eq_ok.mp hf
    cases hf
    obtain ⟨rfl, rfl⟩ := hlock.readi_same hread
    exact hlock.inv.done hlock.done
  | writei =>
    obtain ⟨s₁, ip₂, s₂, hlock, hf, rfl⟩ := withLock_eq_ok h (Option.some.inj hop)
    obtain ⟨⟨r, ip', s''⟩, hwrite, hf⟩ := bind_eq_ok.mp hf
    cases hf
    exact hlock.inv.done (hlock.done.writei hwrite)
  | itrunc =>
    obtain ⟨s₁, ip₂, s₂, hlock, hf, rfl⟩ := withLock_eq_ok h (Option.some.inj hop)
    obtain ⟨ip', s'', htrunc, hdone, -⟩ := hlock.itrunc_done
    obtain ⟨rfl, rfl⟩ := Prod.mk.inj (Except.ok.inj (htrunc.symm.trans hf))
    exact hlock.inv.done hdone
  | setNlink inum nlink =>
    obtain ⟨s₁, ip₂, s₂, hlock, hf, rfl⟩ := withLock_eq_ok h (Option.some.inj hop)
    obtain ⟨rfl, rfl⟩ := Prod.mk.inj (Except.ok.inj hf)
    exact hlock.inv.done (hlock.setNlink_done nlink)

end

theorem readi_error {mem : Mem} (h : readi sb s ip buf mem off n = .error e) : e ≠ .freeBlock := by
  unfold readi at h
  split_ifs at h
  · exact readLoop_error _ _ _ _ _ _ h
  · exact readLoop_error _ _ _ _ _ _ h

theorem writei_error {mem : Mem} (h : writei sb s inum ip buf mem off n = .error e) :
    e ≠ .freeBlock := by
  unfold writei at h
  split_ifs at h
  obtain hloop | ⟨_, -, h⟩ := bind_eq_error.mp h
  · exact writeLoop_error _ _ _ _ _ hloop
  · cases h

/-- No operation frees a block that is free. -/
theorem FsInv.step_error (h : FsInv sb s) {op : Op} (hop : Fs.step sb s op = some (.error e)) :
    e ≠ .freeBlock := by
  cases op with
  | ialloc =>
    have hop := Option.some.inj hop
    unfold Fs.ialloc at hop
    split at hop
    · cases hop
    · obtain rfl := Except.error.inj hop
      nofun
  | iget => cases hop
  | iput inum =>
    rw [Fs.step] at hop
    split_ifs at hop
    have hput : ∃ s', Fs.iput s inum = .ok s' ∧ FsInv sb s' := h.iput
    obtain ⟨s', hput, -⟩ := hput
    cases hput.symm.trans (Option.some.inj hop)
  | readi =>
    obtain hne | ⟨s₁, hlock, hf⟩ := withLock_error h (Option.some.inj hop)
    · exact hne
    · obtain hread | ⟨_, -, hf⟩ := bind_eq_error.mp hf
      · exact readi_error hread
      · cases hf
  | writei =>
    obtain hne | ⟨s₁, hlock, hf⟩ := withLock_error h (Option.some.inj hop)
    · exact hne
    · obtain hwrite | ⟨_, -, hf⟩ := bind_eq_error.mp hf
      · exact writei_error hwrite
      · cases hf
  | itrunc =>
    obtain hne | ⟨s₁, hlock, hf⟩ := withLock_error h (Option.some.inj hop)
    · exact hne
    · obtain ⟨ip', s', htrunc, -⟩ := hlock.itrunc_done
      cases htrunc.symm.trans hf
  | setNlink =>
    obtain hne | ⟨s₁, hlock, hf⟩ := withLock_error h (Option.some.inj hop)
    · exact hne
    · cases hf

theorem FsInv.readi (h : FsInv sb s) {mem : Mem}
    (hop : Fs.step sb s (.readi inum buf mem off n) = some (.ok s')) :
    s'.bitmap = s.bitmap ∧ s'.block = s.block ∧ s'.dinode = s.dinode := by
  obtain ⟨s₁, ip₂, s₂, hlock, hf, rfl⟩ := withLock_eq_ok h (Option.some.inj hop)
  obtain ⟨⟨r, mem', ip', s''⟩, hread, hf⟩ := bind_eq_ok.mp hf
  cases hf
  obtain ⟨rfl, rfl⟩ := hlock.readi_same hread
  exact ⟨hlock.bitmap, hlock.block, hlock.dinode⟩

/-! ### Sequences of operations -/

theorem Start.inv (h : Start sb s) : FsInv sb s :=
  ⟨h.owns, h.mapped, fun inum href => absurd (h.ref inum) href⟩

theorem FsInv.blocksOk (h : FsInv sb s) : BlocksOk sb s where
  used := h.owns.used_iff
  once b hb hused := by
    obtain ⟨r, rfl⟩ := (h.owns.used_iff b hb).mp hused
    exact ⟨r, rfl, fun r' hr' => h.owns.once r' r (by rw [hr']; exact h.owns.ne_zero hb) hr'⟩
  mapped := h.mapped
  bfree _ hop := h.step_error hop rfl
  readi _ _ _ _ _ _ := h.readi

/-- **Every block has one owner**: from a consistent image, any sequence of operations leaves a data
block in use if and only if an allocated inode refers to it, at one place, and leaves no hole in a
file. -/
theorem blocks_owned (sb : Superblock) (s₀ s : State) (ops : List Op) (h₀ : Start sb s₀)
    (hrun : (machine sb).run s₀ ops = some s) : BlocksOk sb s := by
  have hstep : ∀ s op s', FsInv sb s → (machine sb).step s op = some s' → FsInv sb s' := by
    intro s op s' hinv hop
    obtain ⟨r, hr, hok⟩ := Option.bind_eq_some_iff.mp hop
    cases r with
    | error => cases hok
    | ok =>
      cases hok
      exact hinv.step hr
  exact ((machine sb).invariant_of_run hstep ops s₀ s h₀.inv hrun).blocksOk

/-! ### A small disk -/

def small : Superblock where
  size := 60
  ninodes := 4
  bmapstart := 45

/-- A disk without files. -/
def blank (sb : Superblock) : State where
  bitmap b := decide (b.toNat < sb.nmeta)
  block _ _ := 0
  dinode _ := ⟨0, 0, 0, fun _ => 0⟩
  inode _ := ⟨0, false, ⟨0, 0, 0, fun _ => 0⟩⟩

theorem blank_start : Start sb (blank sb) where
  owns := by
    refine ⟨fun r hr => absurd rfl hr, fun r _ hr => absurd rfl hr, fun b hb => ?_, fun b hb => ?_⟩
    · refine iff_of_false (fun hused => ?_) ?_
      · have hlt : b.toNat < sb.nmeta := of_decide_eq_true hused
        exact sb.region.apart b hlt hb
      · rintro ⟨r, rfl⟩
        exact sb.region.zero hb
    · have hlt : b.toNat < sb.nmeta := hb
      exact decide_eq_true hlt
  mapped _ _ htype _ := absurd rfl htype
  ref _ := rfl

/-- A file gets 3 KB; a write from a bad address fails behind its end; it is read; a second file is
written, and freed. -/
def session : List Op :=
  [.ialloc 2, .setNlink 1 1, .writei 1 ⟨none, 0⟩ (fun _ => 7) 0 3072,
    .writei 1 ⟨some fun _ => 0, 0⟩ (fun _ => 7) 3072 8, .readi 1 ⟨none, 0⟩ (fun _ => 0) 0 3072,
    .ialloc 2, .writei 2 ⟨none, 0⟩ (fun _ => 7) 0 1, .iput 2]

theorem session_owned : ∃ s, (machine small).run (blank small) session = some s ∧
    ((s.dinode 1).size = 3072 ∧ s.addr (1, .direct ⟨3, by decide⟩) = 49 ∧ s.bitmap 49 = true ∧
      s.bitmap 50 = false) ∧ BlocksOk small s := by
  have hrun : ((machine small).run (blank small) session).isSome = true := by decide +kernel
  have hfile : ((machine small).run (blank small) session).all (fun s =>
      (s.dinode 1).size = 3072 ∧ s.addr (1, .direct ⟨3, by decide⟩) = 49 ∧ s.bitmap 49 = true ∧
        s.bitmap 50 = false) = true := by decide +kernel
  obtain ⟨s, hs⟩ := Option.isSome_iff_exists.mp hrun
  rw [hs] at hfile
  exact ⟨s, hs, of_decide_eq_true hfile, blocks_owned small _ s session blank_start hs⟩

end Xv6.Fs
