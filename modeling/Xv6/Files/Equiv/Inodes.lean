import Xv6.Files.Equiv.Refs

/-!
# The references of inodes

`InodeInv`: an inode has a reference for each file that refers to it, and for each thread that has
one from `namei` or from a file that it has closed. `open` stores `f->type` before `f->ip`; in
between the file does not count for the inode that it names (`Counted`).
-/

namespace Xv6.Files

open Lib Function Finset

variable {θ : Type} {s s' : State θ} {c : θ} {ch : Choice} {op : LockOp InodeId}

def Line.own : Line → Option InodeId
  | .openLock ip | .openAlloc ip | .openTest ip _ _ | .openStore ip _ _ | .openType ip _
  | .openIp ip _ | .openClose ip _ | .openFail ip | .iput ip | .iputFree ip | .iputDrop ip =>
    some ip
  | _ => none

def Line.weight (ip : InodeId) (l : Line) : Nat := if l.own = some ip then 1 else 0

/-- The file has a reference to the inode. -/
def Counted (s : State θ) (ip : InodeId) (f : FileId) : Prop :=
  (s.data.file f).linked ip ∧ ∀ t ip', s.loc t ≠ .openIp ip' f

open Classical in
noncomputable def counted (s : State θ) (ip : InodeId) : Finset FileId :=
  Finset.univ.filter (Counted s ip)

variable {ip : InodeId}

theorem mem_counted {f : FileId} : f ∈ counted s ip ↔ Counted s ip f := by
  simp [counted]

def InodeInv [Fintype θ] (s : State θ) : Prop :=
  ∀ ip, ((counted s ip).card : Int) + (∑ t, (s.loc t).weight ip : Nat) ≤ (s.data.inode ip).ref

/-! ### Inodes in a step -/

inductive Links (s s' : State θ) (c : θ) : Prop where
  | same (files : ∀ ip f, Counted s' ip f → Counted s ip f)
      (own : (s'.loc c).own = (s.loc c).own)
      (ref : ∀ ip, (s'.data.inode ip).ref = (s.data.inode ip).ref)
  | get (ip : InodeId) (files : ∀ ip f, Counted s' ip f → Counted s ip f)
      (own : (s.loc c).own = none) (own' : (s'.loc c).own = some ip) (data : s'.data = s.data.iget ip)
  | put (ip : InodeId) (files : ∀ ip f, Counted s' ip f → Counted s ip f)
      (own : (s.loc c).own = some ip) (own' : (s'.loc c).own = none) (data : s'.data = s.data.idrop ip)
  -- the last `fileclose`
  | close (ip : InodeId) (f : FileId) (hf : Counted s ip f)
      (files : ∀ ip g, Counted s' ip g → g ≠ f ∧ Counted s ip g)
      (own : (s.loc c).own = none) (own' : (s'.loc c).own = some ip)
      (inode : s'.data.inode = s.data.inode)
  -- `f->ip = ip`
  | link (ip : InodeId) (f : FileId)
      (files : ∀ ip' g, Counted s' ip' g → Counted s ip' g ∨ g = f ∧ ip' = ip)
      (own : (s.loc c).own = some ip) (own' : (s'.loc c).own = none)
      (inode : s'.data.inode = s.data.inode)

theorem Stepped.counted (hs : Stepped s s' c ch op) {f : FileId}
    (hl : ∀ ip', s.loc c ≠ .openIp ip' f)
    (hfile : (s'.data.file f).linked ip → (s.data.file f).linked ip) (h : Counted s' ip f) :
    Counted s ip f := by
  refine ⟨hfile h.1, fun t ip' ht => ?_⟩
  by_cases hc : t = c
  · rw [hc] at ht
    exact hl ip' ht
  · rw [← hs.others t hc] at ht
    exact h.2 t ip' ht

theorem not_linked {v : File} (h : ¬v.isInode) : ¬v.linked ip :=
  fun hlinked => h hlinked.2.1

/-- A file that a thread works with counts, unless the thread is at `f->ip = ip`. -/
theorem RefInv.counted [Fintype θ] (h : RefInv s) {t : θ} {f : FileId}
    (hf : (s.loc t).file = some f) (hne : ∀ ip, s.loc t ≠ .openIp ip f)
    (htype : (s.data.file f).isInode) : Counted s (s.data.file f).ip f := by
  refine ⟨⟨h.call t f hf, htype, rfl⟩, fun t' ip ht' => ?_⟩
  by_cases ht : t' = t
  · rw [ht] at ht'
    exact hne ip ht'
  · refine h.apart t' t f ht ?_ ?_ hf
    · rw [ht']
      rfl
    · rw [ht']
      rfl

theorem RefInv.links [Fintype θ] (h : RefInv s) (hs : Stepped s s' c ch op) : Links s s' c := by
  -- of the two states, only the lines of `c` and the data matter
  suffices hmain : ∀ l l' d', s.loc c = l → s'.loc c = l' → s'.data = d' →
      Line.Step s.data ch l op l' d' → Known s.data l →
        (∀ f, l.file = some f → 1 ≤ (s.data.file f).ref) → Links s s' c from
    hmain _ _ _ rfl rfl rfl hs.instr (h.known c) (h.call c)
  intro l l' d' hl hl' hd' hstep hknown hcall
  have hfiles : d'.file = s.data.file → (∀ ip f, l ≠ .openIp ip f) →
      ∀ ip f, Counted s' ip f → Counted s ip f := by
    intro hfile hne ip f
    refine hs.counted (fun ip' => hl ▸ hne ip' f) fun hlinked => ?_
    rwa [hd', hfile] at hlinked
  have hset : ∀ f v, d' = s.data.setFile f v → (∀ ip f, l ≠ .openIp ip f) →
      (∀ ip, v.linked ip → (s.data.file f).linked ip) →
        ∀ ip f, Counted s' ip f → Counted s ip f := by
    intro f v hdata hne hv ip g
    refine hs.counted (fun ip' => hl ▸ hne ip' g) fun hlinked => ?_
    rw [hd', hdata] at hlinked
    exact of_setFile (P := fun v => v.linked ip) (hv ip) hlinked
  have hsame : l'.own = l.own → (∀ ip, (d'.inode ip).ref = (s.data.inode ip).ref) →
      (∀ ip f, Counted s' ip f → Counted s ip f) → Links s s' c := by
    intro hown href hcounted
    exact .same hcounted (by rw [hl, hl', hown]) (by rw [hd']; exact href)
  have hvalid : ∀ ip valid ip', ((s.data.setValid ip valid).inode ip').ref =
      (s.data.inode ip').ref := by
    intro ip valid ip'
    simp only [Data.setValid, Data.setInode, update_apply]
    split_ifs with hip
    · rw [hip]
    · rfl
  cases hstep with
  | callOpen ip =>
    exact .get ip (hfiles rfl (by simp)) (by rw [hl]; rfl) (by rw [hl']; rfl) hd'
  | iput ip | iputDrop ip =>
    exact .put ip (hfiles rfl (by simp)) (by rw [hl]; rfl) (by rw [hl']; rfl) hd'
  | closeInode f hone htype =>
    have hf : Counted s (s.data.file f).ip f := h.counted (by rw [hl]; rfl) (by rw [hl]; simp) htype
    refine .close _ f hf (fun ip g hg => ?_) (by rw [hl]; rfl) (by rw [hl']; rfl) (by rw [hd']; rfl)
    constructor
    · rintro rfl
      have hlinked := hg.1
      rw [hd', Data.setFile_self] at hlinked
      exact not_linked (by simp [File.isInode]) hlinked
    · exact hset f _ rfl (by simp) (fun ip hv => absurd hv (not_linked (by simp [File.isInode]))) ip g hg
  | openIp ip f =>
    refine .link ip f (fun ip' g hg => ?_) (by rw [hl]; rfl) (by rw [hl']; rfl) (by rw [hd']; rfl)
    have hlinked := hg.1
    rw [hd'] at hlinked
    by_cases hgf : g = f
    · subst hgf
      rw [Data.setFile_self] at hlinked
      exact .inr ⟨rfl, hlinked.2.2.symm⟩
    · refine .inl (hs.counted ?_ (fun _ => ?_) hg)
      · rw [hl]
        rintro ip' ⟨⟩
        exact hgf rfl
      · rwa [Data.setFile_of_ne hgf] at hlinked
  | openType ip f =>
    refine hsame rfl (fun _ => rfl) fun ip' g hg => ?_
    have hgf : g ≠ f := by
      rintro rfl
      exact hg.2 c ip hl'
    refine hs.counted (by rw [hl]; simp) (fun hlinked => ?_) hg
    rwa [hd', Data.setFile_of_ne hgf] at hlinked
  | dupRef f | closeMore f | openCloseMore ip f | openMode ip f =>
    exact hsame rfl (fun _ => rfl) (hset f _ rfl (by simp) fun ip hv => ⟨hcall f rfl, hv.2⟩)
  | closePipe f | closeNone f | openClose ip f =>
    exact hsame rfl (fun _ => rfl)
      (hset f _ rfl (by simp) fun ip hv => absurd hv (not_linked (by simp [File.isInode])))
  | openAlloc ip f hfree =>
    refine hsame rfl (fun _ => rfl)
      (hset f _ rfl (by simp) fun ip hv => absurd hv (not_linked ?_))
    simp [File.isInode, h.free f hfree]
  | lock | openLock | iputFree => exact hsame rfl (hvalid _ _) (hfiles rfl (by simp))
  | setNlink =>
    refine hsame rfl (fun ip' => ?_) (hfiles rfl (by simp))
    simp only [Data.setInode, update_apply]
    split_ifs with hip
    · rw [hip]
    · rfl
  | use u f l hstarts =>
    exact hsame (by cases hstarts <;> rfl) (fun _ => rfl) (hfiles rfl (by simp))
  | _ => exact hsame rfl (fun _ => rfl) (hfiles rfl (by simp))

/-! ### Steps -/

namespace InodeInv

variable [Fintype θ]

omit [Fintype θ] in
theorem card_mono (ip : InodeId) (hfiles : ∀ ip f, Counted s' ip f → Counted s ip f) :
    (Files.counted s' ip).card ≤ (Files.counted s ip).card :=
  card_le_card fun f hf => mem_counted.mpr (hfiles ip f (mem_counted.mp hf))

theorem step (h : InodeInv s) (hs : Stepped s s' c ch op) (hlinks : Links s s' c) :
    InodeInv s' := by
  intro ip
  have hinv := h ip
  have hsum : ∀ o o', (s.loc c).own = o → (s'.loc c).own = o' →
      ∑ t, (s'.loc t).weight ip + (if o = some ip then 1 else 0) =
        ∑ t, (s.loc t).weight ip + (if o' = some ip then 1 else 0) := by
    rintro o o' rfl rfl
    exact RefInv.sum_weight hs (Line.weight ip)
  cases hlinks with
  | same files own ref =>
    have hcard := card_mono ip files
    have hsum := hsum _ _ rfl own
    rw [ref]
    omega
  | get ip' files own own' data =>
    have hcard := card_mono ip files
    have hsum := hsum _ _ own own'
    simp only [reduceCtorEq, if_false, Option.some.injEq] at hsum
    simp only [data, Data.iget, Data.setInode, update_apply, eq_comm (a := ip)]
    split_ifs at hsum ⊢ with hip
    · subst hip
      dsimp only
      omega
    · omega
  | put ip' files own own' data =>
    have hcard := card_mono ip files
    have hsum := hsum _ _ own own'
    simp only [reduceCtorEq, if_false, Option.some.injEq] at hsum
    simp only [data, Data.idrop, Data.setInode, update_apply, eq_comm (a := ip)]
    split_ifs at hsum ⊢ with hip
    · subst hip
      dsimp only
      omega
    · omega
  | close ip' f hf files own own' inode =>
    have hsum := hsum _ _ own own'
    simp only [reduceCtorEq, if_false, Option.some.injEq] at hsum
    rw [inode]
    by_cases hip : ip' = ip
    · -- the reference of the file goes to the thread
      rw [if_pos hip] at hsum
      subst hip
      have hlt : (counted s' ip').card < (counted s ip').card := by
        refine card_lt_card (ssubset_iff_of_subset ?_ |>.mpr ⟨f, ?_, ?_⟩)
        · intro g hg
          exact mem_counted.mpr (files ip' g (mem_counted.mp hg)).2
        · exact mem_counted.mpr hf
        · intro hmem
          exact (files ip' f (mem_counted.mp hmem)).1 rfl
      omega
    · have hcard := card_mono ip fun ip g hg => (files ip g hg).2
      rw [if_neg hip] at hsum
      omega
  | link ip' f files own own' inode =>
    have hsum := hsum _ _ own own'
    simp only [reduceCtorEq, if_false, Option.some.injEq] at hsum
    rw [inode]
    by_cases hip : ip' = ip
    · -- and back
      rw [if_pos hip] at hsum
      subst hip
      have hle : (counted s' ip').card ≤ (counted s ip').card + 1 := by
        classical
        refine (card_le_card fun g hg => ?_).trans (card_insert_le f _)
        rw [mem_insert]
        obtain hold | ⟨rfl, -⟩ := files ip' g (mem_counted.mp hg)
        · exact .inr (mem_counted.mpr hold)
        · exact .inl rfl
      omega
    · have hcard : (counted s' ip).card ≤ (counted s ip).card := by
        refine card_le_card fun g hg => mem_counted.mpr ?_
        obtain hold | ⟨-, rfl⟩ := files ip g (mem_counted.mp hg)
        · exact hold
        · exact absurd rfl hip
      rw [if_neg hip] at hsum
      omega

end InodeInv

end Xv6.Files
