import Xv6.Dir.Calls
import Xv6.Lib.Except

/-!
# A failed `open`

Until it fails, a call holds references to some inodes (`Holds`), and gives them back. A file that
`create` has made (`Made`) stays: `open` calls it before it looks for a file structure and a
descriptor.
-/

namespace Xv6.Dir

open Lib Function List

variable {m : Nat} {π : Type} {s : State m π} {i dp ip cwd : Inum m} {name : Name}
  {hs : List (Inum m)} {path : List Char} {P : State m π → Prop}

/-! ### References -/

/-- The state is `s`, but for the references `hs` and for the inodes that have been read. -/
def Holds (s : State m π) (hs : List (Inum m)) (t : State m π) : Prop :=
  ∃ v, t = { s with ref := fun i => s.ref i + hs.count i, valid := v } ∧
    ∀ i ∈ hs, v i = true → s.ref i = 0 → (s.dinode i).type ≠ .free

theorem Holds.refl (s : State m π) : Holds s [] s := ⟨s.valid, rfl, by simp⟩

theorem Holds.perm {hs' : List (Inum m)} {t : State m π} (h : Holds s hs t) (hp : hs.Perm hs') :
    Holds s hs' t := by
  obtain ⟨v, rfl, hv⟩ := h
  exact ⟨v, by simp only [hp.count_eq], fun i hi => hv i (hp.mem_iff.mpr hi)⟩

theorem update_ref {hs' : List (Inum m)} {n : Nat} (hn : n = s.ref i + hs'.count i)
    (hne : ∀ j, j ≠ i → hs'.count j = hs.count j) :
    update (fun j => s.ref j + hs.count j) i n = fun j => s.ref j + hs'.count j := by
  funext j
  by_cases hj : j = i
  · rw [hj, update_self, hn]
  · rw [update_of_ne hj, hne j hj]

theorem Holds.cons {v : Inum m → Bool} {n : Nat} (hn : n = s.ref i + hs.count i + 1)
    (hv : ∀ j ∈ i :: hs, v j = true → s.ref j = 0 → (s.dinode j).type ≠ .free) :
    Holds s (i :: hs)
      { s with ref := update (fun j => s.ref j + hs.count j) i n, valid := v } := by
  refine ⟨v, ?_, hv⟩
  rw [update_ref (by rw [hn, count_cons_self, Nat.add_assoc]) fun j hj =>
    count_cons_of_ne (Ne.symm hj)]

theorem ilock_holds : Ensures (Holds s hs) (ilock i) fun _ => Holds s hs := by
  refine .get_bind fun t ht => ?_
  split_ifs with _ _ hfree
  · exact .throw
  · exact .pure fun _ => id
  · exact .throw
  · obtain ⟨v, rfl, hv⟩ := ht
    refine .set ⟨update v i true, rfl, fun j hj hval => ?_⟩
    by_cases hji : j = i
    · exact fun _ => hji ▸ hfree
    · exact hv j hj (update_of_ne hji true v ▸ hval)

theorem iget_holds : Ensures (Holds s hs) (iget i) fun _ => Holds s (i :: hs) := by
  refine .get_bind fun t ht => ?_
  obtain ⟨v, rfl, hv⟩ := ht
  split_ifs with href
  · refine .modify fun t ht => ?_
    obtain ⟨v, rfl, hv⟩ := ht
    refine .cons rfl fun j hj hval hzero => ?_
    obtain rfl | hj := mem_cons.mp hj
    · exact hv _ (count_pos_iff.mp (by simpa [hzero] using href)) hval hzero
    · exact hv j hj hval hzero
  · exact .throw
  · refine .set (.cons (by dsimp only at href; omega) fun j hj hval => ?_)
    have hji : j ≠ i := fun h => by simp [h] at hval
    exact hv j ((mem_cons.mp hj).resolve_left hji) (update_of_ne hji false v ▸ hval)

/-- Inodes without links that are not free are in use. -/
def Consistent (s : State m π) : Prop :=
  ∀ i, (s.dinode i).type ≠ .free → (s.dinode i).nlink = 0 → 0 < s.ref i

theorem iput_holds (hcons : Consistent s) :
    Ensures (Holds s (i :: hs)) (iput i) fun _ => Holds s hs := by
  refine .modify fun t ht => ?_
  obtain ⟨v, rfl, hv⟩ := ht
  have hcount : (i :: hs).count i = hs.count i + 1 := count_cons_self
  rw [State.iput, if_neg]
  · refine ⟨v, ?_, fun j hj => hv j (mem_cons_of_mem i hj)⟩
    rw [State.setRef, update_ref (by dsimp only; omega) fun j hj =>
      (count_cons_of_ne (Ne.symm hj)).symm]
  · rintro ⟨href, hval, hnlink⟩
    have hzero : s.ref i = 0 := by
      dsimp only at href
      omega
    have := hcons i (hv i mem_cons_self hval hzero) hnlink
    omega

theorem iput_second (hcons : Consistent s) :
    Ensures (Holds s [ip, dp]) (iput dp) fun _ => Holds s [ip] :=
  fun t _ t' ht => iput_holds hcons t _ t' (ht.perm (.swap dp ip []))

theorem Holds.dinode {t : State m π} (h : Holds s hs t) : t.dinode = s.dinode := by
  obtain ⟨v, rfl, -⟩ := h
  rfl

theorem dirlookup_holds : Ensures (Holds s hs) (dirlookup dp name)
    fun r => Holds s (r.toList.map Prod.snd ++ hs) := by
  refine .get_bind fun t _ => ?_
  split_ifs
  · exact .throw
  · split
    · exact .bind iget_holds fun _ => .pure fun _ => id
    · exact .pure fun _ => id

theorem dirlookup_none : Ensures (Holds s hs) (dirlookup dp name)
    fun r _ => r = none ↔ scan name (s.dinode dp).entries 0 = none := by
  refine .get_bind fun t ht => ?_
  rw [ht.dinode]
  split_ifs
  · exact .throw
  · split <;> rename_i hscan
    · exact .bind (.trivial _) fun _ => .pure fun _ _ => by simp [hscan]
    · exact .pure fun _ _ => by simp [hscan]

theorem walk_holds (hcons : Consistent s) (nameiparent : Bool) (names : List Name) :
    Ensures (Holds s [ip]) (walk nameiparent names ip) fun r => Holds s (r.toList.map Prod.fst) := by
  induction names generalizing ip with
  | nil =>
    rw [walk]
    split_ifs
    · exact .bind (iput_holds hcons) fun _ => .pure fun _ => id
    · exact .pure fun _ => id
  | cons name names ih =>
    rw [walk]
    refine .bind ilock_holds fun _ => .get_bind fun t _ => ?_
    split_ifs
    · exact .bind (iput_holds hcons) fun _ => .pure fun _ => id
    · exact .pure fun _ => id
    · refine .bind dirlookup_holds fun r => ?_
      cases r with
      | none => exact .bind (iput_holds hcons) fun _ => .pure fun _ => id
      | some => exact .bind (iput_second hcons) fun _ => ih

theorem namex_holds (hcons : Consistent s) (hcwd : 0 < s.ref cwd) (nameiparent : Bool) :
    Ensures (Holds s []) (namex cwd path nameiparent) fun r => Holds s (r.toList.map Prod.fst) := by
  rw [namex]
  split_ifs
  · exact .bind iget_holds fun _ => walk_holds hcons nameiparent _
  · refine .bind (.modify fun t ht => ?_) fun _ => walk_holds hcons nameiparent _
    obtain ⟨v, rfl, -⟩ := ht
    refine .cons rfl fun j hj _ hzero => ?_
    rw [mem_singleton.mp hj] at hzero
    omega

/-! ### New files -/

/-- Inode `ip` is free in `s`, and now a file with that many links. -/
structure Made (s : State m π) (nlink : BitVec 16) (ip : Inum m) (t : State m π) : Prop where
  free : (s.dinode ip).type = .free
  type : (t.dinode ip).type = .file
  nlink : (t.dinode ip).nlink = nlink
  file : t.file = s.file
  ofile : t.ofile = s.ofile

section Made

variable {nlink : BitVec 16} {t : State m π}

/-- What is done to the inode `dp` of a directory. -/
theorem Made.setDinode (h : Made s nlink ip t) (hne : dp ≠ ip) (v : Dinode m) :
    Made s nlink ip (t.setDinode dp v) := by
  have hip : (t.setDinode dp v).dinode ip = t.dinode ip := update_of_ne hne.symm ..
  exact ⟨h.free, hip ▸ h.type, hip ▸ h.nlink, h.file, h.ofile⟩

theorem Made.iput (h : Made s nlink ip t) (hne : i = ip → nlink ≠ 0) : Made s nlink ip (t.iput i) :=
    by
  rw [State.iput]
  split_ifs with hlast
  · have hi : i ≠ ip := by
      rintro rfl
      exact hne rfl (h.nlink ▸ hlast.2.2)
    obtain ⟨free, type, nlink, file, ofile⟩ :=
      h.setDinode hi { t.dinode i with type := .free, entries := [], data := [] }
    exact ⟨free, type, nlink, file, ofile⟩
  · exact ⟨h.free, h.type, h.nlink, h.file, h.ofile⟩

theorem iget_made : Ensures (Made s nlink ip) (iget i) fun _ => Made s nlink ip := by
  refine .get_bind fun t ht => ?_
  split_ifs
  · exact .modify fun _ h => ⟨h.free, h.type, h.nlink, h.file, h.ofile⟩
  · exact .throw
  · exact .set ⟨ht.free, ht.type, ht.nlink, ht.file, ht.ofile⟩

theorem ilock_made : Ensures (Made s nlink ip) (ilock i) fun _ => Made s nlink ip := by
  refine .get_bind fun t ht => ?_
  split_ifs
  · exact .throw
  · exact .pure fun _ => id
  · exact .throw
  · exact .set ⟨ht.free, ht.type, ht.nlink, ht.file, ht.ofile⟩

theorem dirlink_made : Ensures (Made s nlink ip) (dirlink dp name ip)
    fun ok t => ok = true → Made s nlink ip t ∧ dp ≠ ip := by
  refine .bind (R := fun _ t => Made s nlink ip t ∧ dp ≠ ip) (.get_bind fun t ht => ?_) fun r => ?_
  · split_ifs with hdir
    · exact .throw
    have hne : dp ≠ ip := by
      rintro rfl
      simp [ht.type] at hdir
    split
    · exact .bind iget_made fun _ => .pure fun _ h => ⟨h, hne⟩
    · exact .pure fun _ h => ⟨h, hne⟩
  · cases r with
    | some => exact .bind (.trivial _) fun _ => .pure (by simp)
    | none =>
      refine .get_bind fun t ht => ?_
      split_ifs
      · exact .throw
      · exact .bind (.set (Q := fun _ t => Made s nlink ip t ∧ dp ≠ ip)
          ⟨ht.1.setDinode ht.2 _, ht.2⟩) fun _ => .pure fun _ h _ => h

end Made

theorem ialloc_made : Ensures (Holds s hs) (ialloc .file) fun ip t => Made s 0 ip t := by
  refine .get_bind fun t ht => ?_
  split
  · rename_i ip hfind
    have hfree : (s.dinode ip).type = .free := by
      have := find?_some hfind
      simp only [decide_eq_true_eq] at this
      exact ht.dinode ▸ this.2
    obtain ⟨v, rfl, -⟩ := ht
    refine .bind (.set (Q := fun _ => Made s 0 ip) ⟨hfree, ?_, ?_, rfl, rfl⟩) fun _ =>
      .bind iget_made fun _ => .pure fun _ => id
    all_goals simp [State.setDinode]
  · exact .throw

theorem createNew_made : Ensures (Holds s hs) (createNew dp name .file 0 0)
    fun ip t => Made s 1 ip t ∧ dp ≠ ip := by
  refine .bind ialloc_made fun ip => .bind ilock_made fun _ =>
    .bind (.modify (Q := fun _ => Made s 1 ip) fun t ht => ?_) fun _ =>
    .bind (.pure fun _ => id) fun _ => .bind dirlink_made fun ok => ?_
  · refine ⟨ht.free, ?_, ?_, ht.file, ht.ofile⟩
    · simp [State.setDinode, ht.type]
    · simp [State.setDinode]
  · cases ok with
    | false => exact .throw
    | true => exact .pure fun _ h => h rfl

/-- `create` makes a file exactly when the directory has no entry of that name. -/
theorem createIn_holds (hcons : Consistent s) : Ensures (Holds s [dp]) (createIn dp name .file 0 0)
    fun r t => scan name (s.dinode dp).entries 0 ≠ none ∧ Holds s r.toList t ∨
      scan name (s.dinode dp).entries 0 = none ∧ ∃ ip, r = some ip ∧ Made s 1 ip t := by
  refine .bind ilock_holds fun _ => .bind (dirlookup_none.and dirlookup_holds) fun r => ?_
  cases r with
  | some r =>
    refine .of_imp (P := Holds s [r.2, dp]) (A := scan name (s.dinode dp).entries 0 ≠ none)
      (fun t ht => ⟨by simpa using ht.1, ht.2⟩) fun hscan => ?_
    refine .bind (iput_second hcons) fun _ => .bind ilock_holds fun _ => .get_bind fun _ _ => ?_
    split_ifs
    · exact .pure fun _ h => .inl ⟨hscan, h⟩
    · exact .bind (iput_holds hcons) fun _ => .pure fun _ h => .inl ⟨hscan, h⟩
  | none =>
    refine .of_imp (P := Holds s [dp]) (A := scan name (s.dinode dp).entries 0 = none)
      (fun t ht => ⟨by simpa using ht.1, ht.2⟩) fun hscan => ?_
    exact .bind createNew_made fun ip => .bind
      (.modify (Q := fun _ => Made s 1 ip) fun t ht => ht.1.iput fun h => absurd h ht.2)
      fun _ => .pure fun _ h => .inr ⟨hscan, ip, rfl, h⟩

/-- The parent directory exists, and has no entry of that name. -/
def Missing (s : State m π) (cwd : Inum m) (path : List Char) : Prop :=
  ∃ dp name t, namex cwd path true s = .ok (some (dp, name), t) ∧
    scan name (s.dinode dp).entries 0 = none

theorem create_holds (hcons : Consistent s) (hcwd : 0 < s.ref cwd) {r : Option (Inum m)}
    {t : State m π} (h : create cwd path .file 0 0 s = .ok (r, t)) :
    ¬ Missing s cwd path ∧ Holds s r.toList t ∨
      Missing s cwd path ∧ ∃ ip, r = some ip ∧ Made s 1 ip t := by
  obtain ⟨⟨found, t'⟩, hnamex, hrest⟩ := bind_eq_ok.mp h
  have ht' := namex_holds hcons hcwd true s found t' (.refl s) hnamex
  -- the walk has one result
  have hmissing : Missing s cwd path ↔
      ∃ dp name, found = some (dp, name) ∧ scan name (s.dinode dp).entries 0 = none := by
    constructor
    · rintro ⟨dp, name, t'', h', hscan⟩
      rw [hnamex] at h'
      cases h'
      exact ⟨dp, name, rfl, hscan⟩
    · rintro ⟨dp, name, rfl, hscan⟩
      exact ⟨dp, name, t', hnamex, hscan⟩
  rw [hmissing]
  cases found with
  | none =>
    cases hrest
    exact .inl ⟨by simp, ht'⟩
  | some found =>
    obtain ⟨dp, name⟩ := found
    obtain ⟨hscan, hholds⟩ | ⟨hscan, hmade⟩ := createIn_holds hcons t' r t ht' hrest
    · refine .inl ⟨?_, hholds⟩
      rintro ⟨dp', name', heq, hnone⟩
      cases heq
      exact hscan hnone
    · exact .inr ⟨⟨dp, name, rfl, hscan⟩, hmade⟩

theorem openInode_holds (hcons : Consistent s) (hcwd : 0 < s.ref cwd) {omode : BitVec 32}
    {r : Option (Inum m)} {t : State m π} (h : openInode cwd path omode s = .ok (r, t)) :
    ¬ (omode &&& oCreate ≠ 0 ∧ Missing s cwd path) ∧ Holds s r.toList t ∨
      (omode &&& oCreate ≠ 0 ∧ Missing s cwd path) ∧ ∃ ip, r = some ip ∧ Made s 1 ip t := by
  rw [openInode] at h
  split_ifs at h with hcreate
  · obtain ⟨hmissing, h⟩ | ⟨hmissing, h⟩ := create_holds hcons hcwd h
    · exact .inl ⟨fun h => hmissing h.2, h⟩
    · exact .inr ⟨⟨hcreate, hmissing⟩, h⟩
  · refine .inl ⟨fun h => hcreate h.1, ?_⟩
    refine Ensures.bind (Q := fun r => Holds s r.toList) (namex_holds hcons hcwd false)
      (fun found => ?_) s r t (.refl s) h
    cases found with
    | none => exact .pure fun _ => id
    | some =>
      refine .bind ilock_holds fun _ => .get_bind fun _ _ => ?_
      split_ifs
      · exact .bind (iput_holds hcons) fun _ => .pure fun _ => id
      · exact .pure fun _ => id

variable [DecidableEq π]

/-- `open` makes a file for which there is no file structure or no descriptor. -/
structure Strands (s : State m π) (p : π) (cwd : Inum m) (path : List Char) (omode : BitVec 32) :
    Prop where
  create : omode &&& oCreate ≠ 0
  argstr : path.length < maxpath
  missing : Missing s cwd path
  full : filealloc s = none ∨ fdalloc s p = none

/-- The second part of `open` fails with the inode put back. -/
theorem openEnd_none (p : π) (omode : BitVec 32) {t : State m π} :
    Ensures (· = t) (openEnd p ip omode) fun r s' => r = none → s' = t.iput ip ∧
      ((t.dinode ip).type = .device ∨ filealloc t = none ∨ fdalloc t p = none) := by
  refine .get_bind_at fun t' ht => ?_
  subst ht
  split
  · rename_i hdevice
    exact .bind (.modify (Q := fun _ s' => s' = t'.iput ip) fun _ h => h ▸ rfl) fun _ =>
      .pure fun _ h _ => ⟨h, .inl hdevice.1⟩
  · split
    · exact .bind (.trivial _) fun _ => .pure (by simp)
    · rename_i hnone
      refine .bind (.modify (Q := fun _ s' => s' = t'.iput ip) fun _ h => h ▸ rfl) fun _ =>
        .pure fun _ h _ => ⟨h, .inr ?_⟩
      by_contra hsome
      rw [not_or] at hsome
      obtain ⟨f, hf⟩ := Option.ne_none_iff_exists'.mp hsome.1
      obtain ⟨fd, hfd⟩ := Option.ne_none_iff_exists'.mp hsome.2
      exact hnone f fd hf hfd

/-- **A failed `open` changes nothing** exactly when it has not made a file for which there is no
file structure or no descriptor. -/
theorem open_restores (p : π) (cwd : Inum m) (path : List Char) (omode : BitVec 32)
    {s s' : State m π} (hcons : Consistent s) (hcwd : 0 < s.ref cwd)
    (h : sysOpen p cwd path omode s = .ok (none, s')) :
    (∃ v, s' = { s with valid := v }) ↔ ¬ Strands s p cwd path omode := by
  rw [sysOpen] at h
  split_ifs at h with hlen
  swap
  · cases h
    exact iff_of_true ⟨s.valid, rfl⟩ fun h => hlen h.argstr
  obtain ⟨⟨r, t⟩, hinode, hrest⟩ := bind_eq_ok.mp h
  obtain ⟨hnot, hholds⟩ | ⟨⟨hcreate, hmissing⟩, ip, rfl, hmade⟩ := openInode_holds hcons hcwd hinode
  · -- nothing was made: the references are given back
    refine iff_of_true ?_ fun h => hnot ⟨h.create, h.missing⟩
    have hs' : Holds s [] s' := by
      cases r with
      | none =>
        cases hrest
        exact hholds
      | some ip =>
        rw [(openEnd_none p omode t none s' rfl hrest rfl).1]
        exact iput_holds hcons t () _ hholds rfl
    obtain ⟨v, rfl, -⟩ := hs'
    exact ⟨v, rfl⟩
  · -- a file was made, and it stays
    obtain ⟨rfl, hfail⟩ := openEnd_none p omode t none s' rfl hrest rfl
    rw [hmade.type, filealloc, hmade.file, fdalloc, hmade.ofile] at hfail
    refine iff_of_false ?_ (not_not.mpr ⟨hcreate, hlen, hmissing,
      hfail.resolve_left (by simp)⟩)
    rintro ⟨v, hv⟩
    have hstays : Made s 1 ip (t.iput ip) := hmade.iput fun _ => by decide
    have htype := hstays.type
    rw [hv] at htype
    exact absurd (hmade.free.symm.trans htype) (by decide)

/-- The root directory has the file `a` with one byte; every descriptor is in use. -/
def full : State 2 Unit where
  dinode i :=
    if i.val = 1 then ⟨.dir, 0, 0, 1, [⟨1, dot⟩, ⟨1, dotdot⟩, ⟨2, ['a']⟩], []⟩
    else if i.val = 2 then ⟨.file, 0, 0, 1, [], [7]⟩
    else ⟨.free, 0, 0, 0, [], []⟩
  ref i := if i.val = 1 then 1 else 0
  valid i := i.val = 1
  cwd _ := some rootino
  file f := ⟨if f.val = 0 then 16 else 0, none⟩
  ofile _ _ := some ⟨0, by decide⟩

theorem full_consistent : Consistent full := by
  unfold Consistent
  decide

/-- With `O_CREATE` and `O_TRUNC`, for a file that exists. -/
theorem open_restores_existing :
    ∃ s', sysOpen () rootino ['a'] (oCreate ||| oTrunc) full = .ok (none, s') ∧
      ¬ Strands full () rootino ['a'] (oCreate ||| oTrunc) ∧ (s'.dinode 2).data = [7] ∧
      ∃ v, s' = { full with valid := v } := by
  have hnot : ¬ Strands full () rootino ['a'] (oCreate ||| oTrunc) := by
    rintro ⟨-, -, ⟨dp, name, t, hwalk, hscan⟩, -⟩
    cases hwalk
    cases hscan
  exact ⟨_, rfl, hnot, rfl,
    (open_restores () rootino ['a'] (oCreate ||| oTrunc) full_consistent (by decide) rfl).mpr hnot⟩

/-- `open` fails after it has made the file. -/
theorem open_creates : ∃ s', sysOpen () rootino ['b'] oCreate full = .ok (none, s') ∧
    (s'.dinode 3).type = .file ∧ (full.dinode 3).type = .free ∧
    (s'.dinode 1).entries = (full.dinode 1).entries ++ [⟨3, ['b']⟩] :=
  ⟨_, rfl, rfl, rfl, rfl⟩

end Xv6.Dir
