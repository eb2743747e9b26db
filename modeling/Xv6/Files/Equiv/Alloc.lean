import Xv6.Files.Alloc
import Xv6.Files.Equiv.Refs
import Xv6.Vm.Equiv.User

/-!
# A failed `pipe` releases everything

`pipealloc_spec` gives the two files of a new pipe (`Opened`), which `closeBoth` takes back
(`Opened.closeBoth`), whatever descriptors are stored for them.
-/

namespace Xv6.Files

open Lib Function Data

variable {d d' : Data} {f f0 f1 : FileId} {fd fd0 fd1 : Fd} {pi : Nat} {kalloc : Option Nat}
  {w : Addr → Addr} {mem : Mem} {va : Addr}

/-! ### Files -/

theorem Data.filealloc_eq_some (h : d.filealloc = some (f, d')) :
    (d.file f).ref = 0 ∧ d' = d.setFile f { d.file f with ref := 1 } := by
  obtain ⟨g, hg, heq⟩ := Option.map_eq_some_iff.mp h
  cases heq
  exact ⟨by simpa using List.find?_some hg, rfl⟩

theorem Data.fdalloc_eq_some (h : d.fdalloc f = some (fd, d')) :
    d.ofile fd = none ∧ d' = d.setOfile fd (some f) := by
  obtain ⟨g, hg, heq⟩ := Option.map_eq_some_iff.mp h
  cases heq
  exact ⟨by simpa using List.find?_some hg, rfl⟩

theorem close_none (href : (d.file f).ref = 1) (htype : (d.file f).type = .none) :
    d.close f = some (d.setFile f { d.file f with ref := 0, type := .none }) := by
  simp [close, fileclose, href, htype]

theorem close_pipe (href : (d.file f).ref = 1) (htype : (d.file f).type = .pipe) :
    d.close f = some ((d.setFile f { d.file f with ref := 0, type := .none }).pipeclose
      (d.file f).pipe (d.file f).writable) := by
  simp [close, fileclose, href, htype]

theorem ref_setFile {v0 v1 : File} (h0 : v0.ref = (d.file f0).ref) (h1 : v1.ref = (d.file f1).ref)
    (h : ∀ f, f ≠ f0 → f ≠ f1 → d'.file f = d.file f) (f : FileId) :
    (((d'.setFile f0 v0).setFile f1 v1).file f).ref = (d.file f).ref := by
  by_cases hf1 : f = f1
  · rw [hf1, setFile_self, h1]
  · rw [setFile_of_ne hf1]
    by_cases hf0 : f = f0
    · rw [hf0, setFile_self, h0]
    · rw [setFile_of_ne hf0, h f hf0 hf1]

/-- The files of a new pipe in `d'`, which were free in `d`. -/
structure Opened (d d' : Data) (f0 f1 : FileId) (pi : Nat) : Prop where
  ne : f1 ≠ f0
  free : (d.file f0).ref = 0 ∧ (d.file f1).ref = 0
  read : d'.file f0 = { d'.file f0 with type := .pipe, ref := 1, writable := false, pipe := pi }
  write : d'.file f1 = { d'.file f1 with type := .pipe, ref := 1, writable := true, pipe := pi }
  others : ∀ f, f ≠ f0 → f ≠ f1 → d'.file f = d.file f
  page : (d.pipe pi).freed = true
  pipe : d'.pipe = update d.pipe pi ⟨true, true, false⟩

theorem Opened.setOfile {v : Option FileId} (h : Opened d d' f0 f1 pi) :
    Opened d (d'.setOfile fd v) f0 f1 pi :=
  ⟨h.ne, h.free, h.read, h.write, h.others, h.page, h.pipe⟩

/-- The second `pipeclose` frees the page. -/
theorem Opened.closeBoth (h : Opened d d' f0 f1 pi) (hofile : d'.ofile = d.ofile) :
    ∃ d₁, d'.closeBoth f0 f1 = some d₁ ∧ Released d d₁ := by
  have hread := close_pipe (d := d') (f := f0) (by rw [h.read]) (by rw [h.read])
  rw [Data.closeBoth, hread, Option.bind_some]
  have hfile : (((d'.setFile f0 { d'.file f0 with ref := 0, type := .none }).pipeclose
      (d'.file f0).pipe (d'.file f0).writable).file f1) = d'.file f1 := setFile_of_ne h.ne
  refine ⟨_, close_pipe (by rw [hfile, h.write]) (by rw [hfile, h.write]), hofile,
    ref_setFile h.free.1.symm h.free.2.symm h.others, fun q => ?_⟩
  rw [hfile, h.write, h.read]
  by_cases hq : q = pi
  · rw [hq, h.page]
    simp [pipeclose, setPipe, setFile, h.pipe]
  · simp [pipeclose, setPipe, setFile, h.pipe, hq]

theorem pipealloc_spec (hfree : ∀ f, (d.file f).ref = 0 → (d.file f).type = .none)
    (hpage : ∀ pi ∈ kalloc, (d.pipe pi).freed = true) :
    (∃ d', d.pipealloc kalloc = some (none, d') ∧ Released d d') ∨
      ∃ f0 f1 pi d', d.pipealloc kalloc = some (some (f0, f1), d') ∧ d'.ofile = d.ofile ∧
        Opened d d' f0 f1 pi := by
  rw [pipealloc]
  cases h0 : d.filealloc with
  | none => exact .inl ⟨d, rfl, rfl, fun _ => rfl, fun _ => rfl⟩
  | some r =>
    obtain ⟨f0, d₁⟩ := r
    obtain ⟨href0, hd₁⟩ := filealloc_eq_some h0
    have hfile0 : d₁.file f0 = { d.file f0 with ref := 1 } := hd₁ ▸ setFile_self
    have hone : (d₁.file f0).ref = 1 := by rw [hfile0]
    have htype : (d₁.file f0).type = .none := by
      rw [hfile0]
      exact hfree f0 href0
    have hothers : ∀ f, f ≠ f0 → d₁.file f = d.file f := fun f hf => hd₁ ▸ setFile_of_ne hf
    dsimp only
    cases h1 : d₁.filealloc with
    | none =>
      rw [close_none hone htype, hd₁]
      refine .inl ⟨_, rfl, rfl, fun f => ?_, fun _ => rfl⟩
      by_cases hf : f = f0
      · rw [hf, setFile_self, href0]
      · rw [setFile_of_ne hf, setFile_of_ne hf]
    | some r =>
      obtain ⟨f1, d₂⟩ := r
      obtain ⟨href1, hd₂⟩ := filealloc_eq_some h1
      have hne : f1 ≠ f0 := by
        rintro rfl
        rw [hfile0] at href1
        cases href1
      rw [hothers f1 hne] at href1 hd₂
      dsimp only
      cases kalloc with
      | none =>
        have hfile : d₂.file f0 = d₁.file f0 := hd₂ ▸ setFile_of_ne hne.symm
        rw [closeBoth, close_none (hfile ▸ hone) (hfile ▸ htype), Option.bind_some, hd₂,
          close_none (by rw [setFile_of_ne hne, setFile_self])
          (by rw [setFile_of_ne hne, setFile_self]; exact hfree f1 href1)]
        subst hd₁
        refine .inl ⟨_, rfl, rfl, ref_setFile href0.symm href1.symm fun f hf0 hf1 => ?_,
          fun _ => rfl⟩
        rw [setFile_of_ne hf1, hothers f hf0]
      | some pi =>
        rw [hd₂, hd₁]
        refine .inr ⟨f0, f1, pi, _, rfl, rfl, hne, ⟨href0, href1⟩, ?_, ?_, fun f hf0 hf1 => ?_,
          hpage pi rfl, rfl⟩
        · simp [setFile, setPipe, hne.symm]
        · simp [setFile, setPipe, hne]
        · simp [setFile, setPipe, hf0, hf1]

/-! ### Descriptors -/

theorem copyout_stored {src : List UInt8} (h : (copyout w mem va src).1 = true) :
    (copyout w mem va src).2 = storeBytes w mem va src := by
  obtain ⟨j, hj, heq⟩ := copyout_reach w mem va src
  rw [heq] at h ⊢
  rw [of_decide_eq_true h, List.take_length]

theorem copyFds_stored (hal : PageAligned w) (h : (copyFds w mem va fd0 fd1).1 = true) :
    userBytes w (copyFds w mem va fd0 fd1).2 va 8 = toBytes 4 fd0 ++ toBytes 4 fd1 := by
  rw [copyFds] at h ⊢
  split_ifs at h ⊢ with h0
  · have happend : storeBytes w mem va (toBytes 4 fd0 ++ toBytes 4 fd1) = _ := storeBytes_append ..
    rw [length_toBytes] at happend
    rw [copyout_stored h, copyout_stored h0]
    refine (congrArg (userBytes w · va 8) happend.symm).trans (storeBytes_get fun k l hkl hl => ?_)
    rw [List.length_append, length_toBytes, length_toBytes] at hl
    refine physAddr_ne hal (pgoffset_add_ne ?_ ?_ (by omega)) <;> rw [pgsize] <;> omega
  · exact absurd h h0

/-- `fd0` and `fd1` are new descriptors of the two ends of a new pipe. -/
structure Piped (pagetable : PageTable) (fdarray : Addr) (d d' : Data) (mem : Mem) (fd0 fd1 : Fd)
    (pi : Nat) : Prop where
  ne : fd0 ≠ fd1
  unused : d.ofile fd0 = none ∧ d.ofile fd1 = none
  read : ∃ f, d'.ofile fd0 = some f ∧ (d'.file f).isEnd pi false
  write : ∃ f, d'.ofile fd1 = some f ∧ (d'.file f).isEnd pi true
  fresh : (d.pipe pi).freed = true ∧ d'.pipe pi = ⟨true, true, false⟩
  stored : userBytes (walkaddr pagetable) mem fdarray 8 = toBytes 4 fd0 ++ toBytes 4 fd1

/-- All is done, or all is as it was. -/
def PipeOk (pagetable : PageTable) (fdarray : Addr) (d : Data) : Int × Data × Mem → Prop
  | (r, d', mem) => r = 0 ∧ (∃ fd0 fd1 pi, Piped pagetable fdarray d d' mem fd0 fd1 pi) ∨
    r = -1 ∧ Released d d'

/-- **A failed `pipe` releases everything.** -/
theorem sysPipe_releases (pagetable : PageTable) (fdarray : Addr) (mem : Mem)
    (hfree : ∀ f, (d.file f).ref = 0 → (d.file f).type = .none)
    (hpage : ∀ pi ∈ kalloc, (d.pipe pi).freed = true) :
    ∃ out, sysPipe pagetable fdarray kalloc d mem = some out ∧ PipeOk pagetable fdarray d out := by
  have hfail : ∀ {o : Option Data} {mem : Mem}, (∃ d₁, o = some d₁ ∧ Released d d₁) →
      ∃ out, o.map (fun d => (-1, d, mem)) = some out ∧ PipeOk pagetable fdarray d out := by
    rintro o mem ⟨d₁, rfl, hd₁⟩
    exact ⟨_, rfl, .inr ⟨rfl, hd₁⟩⟩
  rw [sysPipe]
  obtain ⟨d', heq, hd'⟩ | ⟨rf, wf, pi, d', heq, hofile, hd'⟩ := pipealloc_spec hfree hpage
  · rw [heq]
    exact ⟨_, rfl, .inr ⟨rfl, hd'⟩⟩
  rw [heq]
  dsimp only
  cases h0 : d'.fdalloc rf with
  | none => exact hfail (hd'.closeBoth hofile)
  | some r =>
    obtain ⟨fd0, d₁⟩ := r
    obtain ⟨hnone0, rfl⟩ := fdalloc_eq_some h0
    dsimp only
    cases h1 : (d'.setOfile fd0 (some rf)).fdalloc wf with
    | none =>
      refine hfail (hd'.setOfile.setOfile.closeBoth ?_)
      show update (update d'.ofile fd0 _) fd0 none = d.ofile
      rw [update_idem, ← hnone0, update_eq_self, hofile]
    | some r =>
      obtain ⟨fd1, d₂⟩ := r
      obtain ⟨hnone1, rfl⟩ := fdalloc_eq_some h1
      have hne : fd0 ≠ fd1 := by
        rintro rfl
        cases (update_self ..).symm.trans hnone1
      replace hnone1 : d'.ofile fd1 = none := (update_of_ne hne.symm ..).symm.trans hnone1
      dsimp only
      split_ifs with hok
      · refine ⟨_, rfl, .inl ⟨rfl, fd0, fd1, pi, hne, hofile ▸ ⟨hnone0, hnone1⟩, ⟨rf, ?_, ?_⟩,
          ⟨wf, update_self .., ?_⟩, ⟨hd'.page, ?_⟩, copyFds_stored (walkaddr_aligned pagetable) hok⟩⟩
        · exact (update_of_ne hne ..).trans (update_self ..)
        · show (d'.file rf).isEnd pi false
          rw [hd'.read]
          exact ⟨le_rfl, rfl, rfl, rfl⟩
        · show (d'.file wf).isEnd pi true
          rw [hd'.write]
          exact ⟨le_rfl, rfl, rfl, rfl⟩
        · exact (congrFun hd'.pipe pi).trans (update_self ..)
      · refine hfail (hd'.setOfile.setOfile.setOfile.setOfile.closeBoth ?_)
        rw [← hofile]
        funext fd
        simp only [Data.setOfile, update_apply]
        split_ifs with h1 h0
        · rw [h1, hnone1]
        · rw [h0, hnone0]
        · rfl

/-- Nothing is open, and all pages are free. -/
def idle : Data where
  ofile _ := none
  file _ := ⟨.none, 0, false, false, 0, 0⟩
  pipe _ := ⟨false, false, true⟩
  inode _ := ⟨0, false, 0⟩

theorem sysPipe_releases_idle : ∃ out,
    sysPipe (fun _ => none) 0 (some 7) idle (fun _ => 0) = some out ∧
      PipeOk (fun _ => none) 0 idle out :=
  sysPipe_releases _ 0 _ (fun _ _ => rfl) fun _ _ => rfl

end Xv6.Files
