import Xv6.Files.Equiv.Refs

/-!
# The ends of a pipe

`PipeInv`: an end of a pipe has at most one file, and while it has one, or a thread is about to
close it, it is open and the pipe is not freed.
-/

namespace Xv6.Files

open Lib Function

variable {θ : Type} {s s' : State θ} {c : θ} {ch : Choice} {op : LockOp InodeId}

structure PipeInv (s : State θ) : Prop where
  ends : ∀ f f' pi w, (s.data.file f).isEnd pi w → (s.data.file f').isEnd pi w → f = f'
  opened : ∀ f pi w, (s.data.file f).isEnd pi w →
    (s.data.pipe pi).freed = false ∧ (s.data.pipe pi).isOpen w = true
  closing : ∀ t pi w, s.loc t = .pipeClose pi w →
    (s.data.pipe pi).freed = false ∧ (s.data.pipe pi).isOpen w = true ∧
      ∀ f, ¬(s.data.file f).isEnd pi w
  closingOne : ∀ t t' pi w, t ≠ t' → s.loc t = .pipeClose pi w → s.loc t' ≠ .pipeClose pi w

/-! ### `pipeclose` -/

section Pipeclose

variable {d : Data} {pi : Nat} {w w' : Bool}

theorem pipeclose_other (hw : w' ≠ w) (hfreed : (d.pipe pi).freed = false)
    (hopen : (d.pipe pi).isOpen w' = true) :
    ((d.pipeclose pi w).pipe pi).freed = false ∧ ((d.pipeclose pi w).pipe pi).isOpen w' = true := by
  cases w with
  | false =>
    obtain rfl := Bool.eq_true_of_not_eq_false hw
    have hwrite : (d.pipe pi).writeopen = true := hopen
    simp [Data.pipeclose, Data.setPipe, Pipe.isOpen, hwrite, hfreed]
  | true =>
    obtain rfl := Bool.eq_false_of_not_eq_true hw
    have hread : (d.pipe pi).readopen = true := hopen
    simp [Data.pipeclose, Data.setPipe, Pipe.isOpen, hread, hfreed]

theorem pipeclose_of_ne {pi' : Nat} (h : pi' ≠ pi) :
    (d.pipeclose pi w).pipe pi' = d.pipe pi' := update_of_ne h _ _

end Pipeclose

/-! ### Ends of pipes in a step -/

inductive Ends (s s' : State θ) (c : θ) : Prop where
  | same (pipe : s'.data.pipe = s.data.pipe)
      (ends : ∀ f pi w, (s'.data.file f).isEnd pi w → (s.data.file f).isEnd pi w)
      (hl' : ∀ pi w, s'.loc c ≠ .pipeClose pi w)
  | close (f : FileId) (pi : Nat) (w : Bool) (hend : (s.data.file f).isEnd pi w)
      (pipe : s'.data.pipe = s.data.pipe)
      (ends : ∀ g pi w, (s'.data.file g).isEnd pi w → g ≠ f ∧ (s.data.file g).isEnd pi w)
      (hl' : s'.loc c = .pipeClose pi w)
  | pipeclose (pi : Nat) (w : Bool) (hl : s.loc c = .pipeClose pi w) (hl' : s'.loc c = .user)
      (data : s'.data = s.data.pipeclose pi w)

theorem not_isEnd {v : File} {pi : Nat} {w : Bool} (h : v.type ≠ .pipe) : ¬v.isEnd pi w :=
  fun hend => h hend.2.1

theorem File.isInode.not_pipe {file : File} (h : file.isInode) : file.type ≠ .pipe := by
  rintro hpipe
  obtain htype | htype := h
  · cases hpipe.symm.trans htype
  · cases hpipe.symm.trans htype

theorem RefInv.ends [Fintype θ] (h : RefInv s) (hs : Stepped s s' c ch op) : Ends s s' c := by
  -- of the two states, only the lines of `c` and the data matter
  suffices hmain : ∀ l l' d', s.loc c = l → s'.loc c = l' → s'.data = d' →
      Line.Step s.data ch l op l' d' → Known s.data l →
        (∀ f, l.file = some f → 1 ≤ (s.data.file f).ref) → Ends s s' c from
    hmain _ _ _ rfl rfl rfl hs.instr (h.known c) (h.call c)
  intro l l' d' hl hl' hd' hstep hknown hcall
  have hsame : d'.file = s.data.file → d'.pipe = s.data.pipe →
      (∀ pi w, l' ≠ .pipeClose pi w) → Ends s s' c := by
    intro hfile hpipe hne
    refine .same (hd' ▸ hpipe) (fun f pi w hend => ?_) (hl' ▸ hne)
    rwa [hd', hfile] at hend
  have hset : ∀ f v, d' = s.data.setFile f v →
      (∀ pi w, v.isEnd pi w → (s.data.file f).isEnd pi w) → (∀ pi w, l' ≠ .pipeClose pi w) →
        Ends s s' c := by
    intro f v hdata hv hne
    refine .same (by rw [hd', hdata]; rfl) (fun g pi w hend => ?_) (hl' ▸ hne)
    rw [hd', hdata] at hend
    exact of_setFile (P := fun v => v.isEnd pi w) (hv pi w) hend
  cases hstep with
  | closePipe f hone htype =>
    refine .close f _ _ ⟨hone.ge, htype, rfl, rfl⟩ (by rw [hd']; rfl) (fun g pi w hend => ?_) hl'
    rw [hd'] at hend
    by_cases hg : g = f
    · rw [hg, Data.setFile_self] at hend
      exact absurd hend (not_isEnd (by simp))
    · rw [Data.setFile_of_ne hg] at hend
      exact ⟨hg, hend⟩
  | pipeClose pi w => exact .pipeclose pi w hl hl' hd'
  | dupRef f | closeMore f | openCloseMore ip f =>
    exact hset f _ rfl (fun pi w hv => ⟨hcall f rfl, hv.2⟩) (by simp)
  | closeInode f | closeNone f | openClose ip f =>
    exact hset f _ rfl (fun pi w hv => absurd hv (not_isEnd (by simp))) (by simp)
  | openAlloc ip f hfree =>
    refine hset f _ rfl (fun pi w hv => absurd hv (not_isEnd ?_)) (by simp)
    simp [h.free f hfree]
  | openType ip f isDevice =>
    refine hset f _ rfl (fun pi w hv => absurd hv (not_isEnd ?_)) (by simp)
    cases isDevice <;> simp
  | openIp ip f =>
    exact hset f _ rfl (fun pi w hv => absurd hv (not_isEnd (File.isInode.not_pipe hknown))) (by simp)
  | openMode ip f =>
    exact hset f _ rfl (fun pi w hv => absurd hv (not_isEnd (File.isInode.not_pipe hknown.1))) (by simp)
  | use u f l hstarts => exact hsame rfl rfl (by cases hstarts <;> simp)
  | _ => exact hsame rfl rfl (by simp)

/-! ### Steps -/

namespace PipeInv

variable (h : PipeInv s) (hs : Ends s s' c) (hothers : ∀ t, t ≠ c → s'.loc t = s.loc t)

include h hs

theorem step_ends (f f' : FileId) (pi : Nat) (w : Bool) (hf : (s'.data.file f).isEnd pi w)
    (hf' : (s'.data.file f').isEnd pi w) : f = f' := by
  cases hs with
  | same pipe ends => exact h.ends f f' pi w (ends _ _ _ hf) (ends _ _ _ hf')
  | close g pi' w' hend pipe ends =>
    exact h.ends f f' pi w (ends _ _ _ hf).2 (ends _ _ _ hf').2
  | pipeclose pi' w' hl hl' data =>
    rw [data] at hf hf'
    exact h.ends f f' pi w hf hf'

theorem step_opened (f : FileId) (pi : Nat) (w : Bool) (hf : (s'.data.file f).isEnd pi w) :
    (s'.data.pipe pi).freed = false ∧ (s'.data.pipe pi).isOpen w = true := by
  cases hs with
  | same pipe ends =>
    rw [pipe]
    exact h.opened f pi w (ends _ _ _ hf)
  | close g pi' w' hend pipe ends =>
    rw [pipe]
    exact h.opened f pi w (ends _ _ _ hf).2
  | pipeclose pi' w' hl hl' data =>
    rw [data] at hf ⊢
    by_cases hpi : pi = pi'
    · subst hpi
      -- the end that is closed has no file any more
      have hw : w ≠ w' := by
        rintro rfl
        exact (h.closing c pi w hl).2.2 f hf
      obtain ⟨hfreed, hopen⟩ := h.opened f pi w hf
      exact pipeclose_other hw hfreed hopen
    · rw [pipeclose_of_ne hpi]
      exact h.opened f pi w hf

include hothers

theorem step_closing (t : θ) (pi : Nat) (w : Bool) (ht : s'.loc t = .pipeClose pi w) :
    (s'.data.pipe pi).freed = false ∧ (s'.data.pipe pi).isOpen w = true ∧
      ∀ f, ¬(s'.data.file f).isEnd pi w := by
  cases hs with
  | same pipe ends hl' =>
    have hc : t ≠ c := by
      rintro rfl
      exact hl' pi w ht
    rw [hothers t hc] at ht
    rw [pipe]
    obtain ⟨hfreed, hopen, hnone⟩ := h.closing t pi w ht
    exact ⟨hfreed, hopen, fun f hf => hnone f (ends _ _ _ hf)⟩
  | close g pi' w' hend pipe ends hl' =>
    rw [pipe]
    by_cases hc : t = c
    · rw [hc, hl'] at ht
      cases ht
      obtain ⟨hfreed, hopen⟩ := h.opened g pi w hend
      refine ⟨hfreed, hopen, fun f hf => ?_⟩
      obtain ⟨hne, hold⟩ := ends _ _ _ hf
      exact hne (h.ends f g pi w hold hend)
    · rw [hothers t hc] at ht
      obtain ⟨hfreed, hopen, hnone⟩ := h.closing t pi w ht
      exact ⟨hfreed, hopen, fun f hf => hnone f (ends _ _ _ hf).2⟩
  | pipeclose pi' w' hl hl' data =>
    have hc : t ≠ c := by
      rintro rfl
      cases hl'.symm.trans ht
    rw [hothers t hc] at ht
    obtain ⟨hfreed, hopen, hnone⟩ := h.closing t pi w ht
    rw [data]
    by_cases hpi : pi = pi'
    · subst hpi
      have hw : w ≠ w' := by
        rintro rfl
        exact h.closingOne t c pi w hc ht hl
      obtain ⟨hfreed', hopen'⟩ := pipeclose_other hw hfreed hopen
      exact ⟨hfreed', hopen', hnone⟩
    · rw [pipeclose_of_ne hpi]
      exact ⟨hfreed, hopen, hnone⟩

theorem step_closingOne (t t' : θ) (pi : Nat) (w : Bool) (hne : t ≠ t')
    (ht : s'.loc t = .pipeClose pi w) : s'.loc t' ≠ .pipeClose pi w := by
  intro ht'
  have hboth : ∀ u u', u ≠ u' → u' ≠ c → s'.loc u = .pipeClose pi w →
      s'.loc u' = .pipeClose pi w → False := by
    intro u u' hu hc hloc hloc'
    rw [hothers u' hc] at hloc'
    by_cases huc : u = c
    · rw [huc] at hloc
      cases hs with
      | same pipe ends hl' => exact hl' pi w hloc
      | close g pi' w' hend pipe ends hl' =>
        cases hl'.symm.trans hloc
        exact (h.closing u' pi w hloc').2.2 g hend
      | pipeclose pi' w' hl hl' => cases hl'.symm.trans hloc
    · rw [hothers u huc] at hloc
      exact h.closingOne u u' pi w hu hloc hloc'
  by_cases hc : t' = c
  · exact hboth t' t hne.symm (hc ▸ hne) ht' ht
  · exact hboth t t' hne hc ht ht'

theorem step : PipeInv s' where
  ends := h.step_ends hs
  opened := h.step_opened hs
  closing := h.step_closing hs hothers
  closingOne := h.step_closingOne hs hothers

end PipeInv

end Xv6.Files
