import Xv6.Files.Equiv.Step
import Xv6.Lib.Sum

/-!
# The references of open files

A file has a reference for each descriptor, for a thread that is closing it and for one that has
allocated it and not stored it yet (`RefInv`); only `dup` stores a descriptor before it counts it.
`fdalloc` may store over a descriptor that another thread has stored since it was found free, whose
file keeps the reference, so these are inequalities.
-/

namespace Xv6.Files

open Lib Function Finset

variable {θ : Type} {s s' : State θ} {c : θ} {ch : Choice} {op : LockOp InodeId}

structure Stepped (s s' : State θ) (c : θ) (ch : Choice) (op : LockOp InodeId) : Prop where
  instr : Line.Step s.data ch (s.loc c) op (s'.loc c) s'.data
  others : ∀ t, t ≠ c → s'.loc t = s.loc t

theorem stepped [DecidableEq θ] (h : fileCode.machine.step s (c, ch) = some s') :
    ∃ op, Stepped s s' c ch op := by
  obtain ⟨op, l, d, owner, hinstr, -, rfl⟩ := SpinCode.step_eq_some h
  refine ⟨op, ?_, fun t ht => update_of_ne ht _ _⟩
  dsimp only
  rw [update_self]
  exact Line.instr_step hinstr

/-! ### What the lines know -/

def File.isInode (file : File) : Prop := file.type = .inode ∨ file.type = .device

/-- What a thread knows about its file. -/
def Known (d : Data) : Line → Prop
  | .pipe f pi => (d.file f).type = .pipe ∧ (d.file f).pipe = pi
  | .lock _ f | .done _ f | .openIp _ f => (d.file f).isInode
  | .io _ f ip | .unlock _ f ip | .openMode ip f | .openUnlock ip f =>
    (d.file f).isInode ∧ (d.file f).ip = ip
  | .openTest _ f _ | .openStore _ f _ | .openType _ f | .openClose _ f => (d.file f).type = .none
  | _ => True

variable {d d' : Data}

section SetFile

variable {f g : FileId} {v : File}

theorem Data.setFile_self : (d.setFile f v).file f = v := update_self ..

theorem Data.setFile_of_ne (h : g ≠ f) : (d.setFile f v).file g = d.file g := update_of_ne h ..

/-- When one file is changed, and has a property afterwards only if it had it before. -/
theorem of_setFile {P : File → Prop} (hv : P v → P (d.file f)) (h : P ((d.setFile f v).file g)) :
    P (d.file g) := by
  by_cases hg : g = f
  · subst hg
    rw [Data.setFile_self] at h
    exact hv h
  · rwa [Data.setFile_of_ne hg] at h

end SetFile

theorem Known.congr {l : Line} (h : Known d l)
    (hfile : ∀ f, l.file = some f → (d'.file f).type = (d.file f).type ∧
      (d'.file f).pipe = (d.file f).pipe ∧ (d'.file f).ip = (d.file f).ip) : Known d' l := by
  cases l with
  | pipe f =>
    obtain ⟨htype, hpipe, -⟩ := hfile f rfl
    exact ⟨htype.trans h.1, hpipe.trans h.2⟩
  | lock u f | done u f | openIp ip f =>
    obtain ⟨htype, -, -⟩ := hfile f rfl
    simp only [Known, File.isInode] at h ⊢
    rwa [htype]
  | io u f ip | unlock u f ip | openMode ip f | openUnlock ip f =>
    obtain ⟨htype, -, hip⟩ := hfile f rfl
    simp only [Known, File.isInode] at h ⊢
    rwa [htype, hip]
  | openTest ip f fd | openStore ip f fd | openType ip f | openClose ip f =>
    exact (hfile f rfl).1.trans h
  | _ => trivial

/-! ### The invariant -/

/-- The descriptor that a thread is about to clear. -/
def Line.clearing : Line → Finset Fd
  | .closeClear _ fd => {fd}
  | _ => ∅

/-- The reference for a descriptor that was cleared, or not stored yet. -/
def Line.owed : Line → Nat
  | .closeClear _ _ | .closeRef _ | .openTest _ _ _ | .openStore _ _ _ | .openClose _ _ => 1
  | _ => 0

/-- A descriptor that `dup` has stored without counting it. -/
def Line.duped (f : FileId) : Line → Nat
  | .dupRef f' => if f' = f then 1 else 0
  | _ => 0

structure RefInv [Fintype θ] (s : State θ) : Prop where
  known : ∀ t, Known s.data (s.loc t)
  apart : ∀ t t' f, t ≠ t' → (s.loc t).owns = true → (s.loc t).file = some f →
    (s.loc t').file ≠ some f
  slot : ∀ fd f, s.data.ofile fd = some f → 1 ≤ (s.data.file f).ref
  call : ∀ t f, (s.loc t).file = some f → 1 ≤ (s.data.file f).ref
  refs : ∀ f, ((s.data.slots f).card : Int) ≤
    (s.data.file f).ref + (∑ t, (s.loc t).duped f : Nat)
  owed : ∀ t f, (s.loc t).owns = true → (s.loc t).file = some f →
    ((s.data.slots f \ (s.loc t).clearing).card : Int) + (s.loc t).owed ≤ (s.data.file f).ref
  free : ∀ f, (s.data.file f).ref = 0 → (s.data.file f).type = .none

/-! ### Effects -/

/-- A call on a file begins, goes on or ends. -/
inductive Move (d : Data) (ch : Choice) (l l' : Line) : Prop where
  | call (fd : Fd) (f : FileId) (hofile : d.ofile fd = some f)
      (mem : (f, l'.owns) ∈ callOf d l ch) (file' : l'.file = some f)
      (clearing : l'.owns = true → l'.clearing = {fd} ∧ l'.owed = 1)
  | stay (file' : l'.file = l.file) (owns : l'.owns = l.owns) (clearing : l'.clearing = l.clearing)
      (owed : l'.owed = l.owed)
  | leave (file' : l'.file = none)

inductive Effect (d : Data) (ch : Choice) (l l' : Line) (d' : Data) : Prop where
  | none (ofile : d'.ofile = d.ofile) (file : d'.file = d.file) (move : Move d ch l l')
      (duped : ∀ g, l'.duped g = l.duped g)
  -- descriptors
  | dupStore (f : FileId) (fd : Fd) (hl : l = .dupStore f fd) (hl' : l' = .dupRef f)
      (data : d' = d.setOfile fd (some f))
  | openStore (ip : InodeId) (f : FileId) (fd : Fd) (hl : l = .openStore ip f fd)
      (hl' : l' = .openType ip f) (data : d' = d.setOfile fd (some f))
  | clear (f : FileId) (fd : Fd) (hl : l = .closeClear f fd) (hl' : l' = .closeRef f)
      (data : d' = d.setOfile fd none)
  -- references
  | dupRef (f : FileId) (hl : l = .dupRef f) (hl' : l' = .user)
      (data : d' = d.setFile f { d.file f with ref := (d.file f).ref + 1 })
  | alloc (ip : InodeId) (f : FileId) (hfree : (d.file f).ref = 0) (hl : l = .openAlloc ip)
      (hl' : l' = .openTest ip f 0) (data : d' = d.setFile f { d.file f with ref := 1 })
  | drop (f : FileId) (v : File) (ofile : d'.ofile = d.ofile)
      (data : d'.file = update d.file f v) (ref : v.ref = (d.file f).ref - 1)
      (type : v.ref = 0 → v.type = .none) (file : l.file = some f) (owns : l.owns = true)
      (clearing : l.clearing = ∅) (owed : l.owed = 1) (file' : l'.file = none)
      (duped : ∀ g, l'.duped g = l.duped g)
  -- the other fields of a file that is being opened
  | edit (f : FileId) (v : File) (ofile : d'.ofile = d.ofile)
      (data : d'.file = update d.file f v) (ref : v.ref = (d.file f).ref)
      (file : l.file = some f) (owns : l.owns = true) (file' : l'.file = some f)
      (owns' : l'.owns = true) (clearing : l'.clearing = l.clearing) (owed : l'.owed = l.owed)
      (duped : ∀ g, l'.duped g = l.duped g)

theorem Line.Step.effect {l l' : Line} (h : Line.Step d ch l op l' d') :
    Effect d ch l l' d' := by
  have hcall : ∀ {c : Syscall} {fd : Fd} {f : FileId} {close : Bool}, d.ofile fd = some f →
      c.fd = some (fd, close) → (f, close) ∈ callOf d .user (.call c) := by
    intro c fd f close hofile hc
    simp only [callOf, hc, Option.bind_some, hofile, Option.map_some]
    rfl
  cases h with
  | callUse u fd f hf | callDup fd f hf =>
    exact .none rfl rfl (.call fd f hf (hcall hf rfl) rfl nofun) fun _ => rfl
  | callClose fd f hf =>
    exact .none rfl rfl (.call fd f hf (hcall hf rfl) rfl fun _ => ⟨rfl, rfl⟩) fun _ => rfl
  | use u f l hstarts =>
    cases hstarts with
    | none => exact .none rfl rfl (.leave rfl) fun _ => rfl
    | _ => exact .none rfl rfl (.stay rfl rfl rfl rfl) fun _ => rfl
  | lock | io | unlock | again | dupFound | dupNext | openFound | openNext | openFull =>
    exact .none rfl rfl (.stay rfl rfl rfl rfl) fun _ => rfl
  | dupStore f fd => exact .dupStore f fd rfl rfl rfl
  | dupRef f => exact .dupRef f rfl rfl rfl
  | closeClear f fd => exact .clear f fd rfl rfl rfl
  | closeMore f | openCloseMore ip f =>
    refine .drop f _ rfl rfl rfl (fun hzero => ?_) rfl rfl rfl rfl rfl fun _ => rfl
    dsimp only at hzero
    omega
  | closePipe f hone | closeInode f hone | closeNone f hone | openClose ip f hone =>
    refine .drop f _ rfl rfl ?_ (fun _ => rfl) rfl rfl rfl rfl rfl fun _ => rfl
    dsimp only
    omega
  | openAlloc ip f hfree => exact .alloc ip f hfree rfl rfl rfl
  | openStore ip f fd => exact .openStore ip f fd rfl rfl rfl
  | openType ip f | openIp ip f | openMode ip f =>
    exact .edit f _ rfl rfl rfl rfl rfl rfl rfl rfl rfl fun _ => rfl
  | _ => exact .none rfl rfl (.leave rfl) fun _ => rfl

inductive Change (d : Data) (l l' : Line) (d' : Data) (f : FileId) : Prop where
  | same (file : d'.file f = d.file f)
  | dupRef (hl : l = .dupRef f) (file : d'.file f = { d.file f with ref := (d.file f).ref + 1 })
  | alloc (ip : InodeId) (hl : l = .openAlloc ip) (hl' : l' = .openTest ip f 0)
      (hfree : (d.file f).ref = 0) (file : d'.file f = { d.file f with ref := 1 })
  | drop (ref : (d'.file f).ref = (d.file f).ref - 1)
      (type : (d'.file f).ref = 0 → (d'.file f).type = .none) (file : l.file = some f)
      (owns : l.owns = true) (clearing : l.clearing = ∅) (owed : l.owed = 1) (file' : l'.file = none)
  | edit (ref : (d'.file f).ref = (d.file f).ref) (file : l.file = some f) (owns : l.owns = true)
      (file' : l'.file = some f)

theorem Effect.change {l l' : Line} (h : Effect d ch l l' d') (f : FileId) :
    Change d l l' d' f := by
  have hother : ∀ {g v}, f ≠ g → d'.file = update d.file g v → Change d l l' d' f := by
    intro g v hg hfile
    refine .same ?_
    rw [hfile, update_of_ne hg]
  cases h with
  | none ofile file => exact .same (congrFun file f)
  | dupStore g fd hl hl' data | openStore ip g fd hl hl' data | clear g fd hl hl' data =>
    exact .same (congrFun (congrArg Data.file data) f)
  | dupRef g hl hl' data =>
    by_cases hg : f = g
    · subst hg
      exact .dupRef hl (by rw [data, Data.setFile_self])
    · exact hother hg (congrArg Data.file data)
  | alloc ip g hfree hl hl' data =>
    by_cases hg : f = g
    · subst hg
      exact .alloc ip hl hl' hfree (by rw [data, Data.setFile_self])
    · exact hother hg (congrArg Data.file data)
  | drop g v ofile data ref type file owns clearing owed file' =>
    by_cases hg : f = g
    · subst hg
      have hv : d'.file f = v := by rw [data, update_self]
      refine .drop ?_ ?_ file owns clearing owed file'
      · rw [hv, ref]
      · rw [hv]
        exact type
    · exact hother hg data
  | edit g v ofile data ref file owns file' =>
    by_cases hg : f = g
    · subst hg
      refine .edit ?_ file owns file'
      rw [data, update_self, ref]
    · exact hother hg data

/-- The calls on a file are not disturbed by another thread. -/
theorem RefInv.others [Fintype θ] (h : RefInv s) (hs : Stepped s s' c ch op) {t : θ} {f : FileId}
    (ht : t ≠ c) (hf : (s.loc t).file = some f) :
    (s'.data.file f).type = (s.data.file f).type ∧ (s'.data.file f).pipe = (s.data.file f).pipe ∧
      (s'.data.file f).ip = (s.data.file f).ip ∧ (s.data.file f).ref ≤ (s'.data.file f).ref := by
  cases hs.instr.effect.change f with
  | same file =>
    rw [file]
    exact ⟨rfl, rfl, rfl, le_rfl⟩
  | dupRef hl file =>
    rw [file]
    exact ⟨rfl, rfl, rfl, Int.le_add_one le_rfl⟩
  | alloc =>
    have hcall := h.call t f hf
    omega
  | drop ref type file owns | edit ref file owns =>
    exact absurd hf (h.apart c t f ht.symm owns file)

/-! ### Descriptors -/

section Slots

variable {d : Data} {f g : FileId} {fd : Fd}

theorem Data.mem_slots : fd ∈ d.slots f ↔ d.ofile fd = some f := by
  simp [Data.slots]

theorem slots_congr {d' : Data} (h : d'.ofile = d.ofile) : d'.slots f = d.slots f := by
  rw [Data.slots, h, Data.slots]

theorem Data.slots_setOfile_self : (d.setOfile fd (some f)).slots f ⊆ insert fd (d.slots f) := by
  intro fd' hfd'
  rw [mem_slots, Data.setOfile] at hfd'
  rw [mem_insert, mem_slots]
  by_cases hfd : fd' = fd
  · exact .inl hfd
  · dsimp only at hfd'
    rw [update_of_ne hfd] at hfd'
    exact .inr hfd'

theorem slots_setOfile_of_ne {v : Option FileId} (h : v ≠ some g) :
    (d.setOfile fd v).slots g = d.slots g \ {fd} := by
  ext fd'
  rw [mem_sdiff, mem_singleton, Data.mem_slots, Data.mem_slots, Data.setOfile]
  dsimp only
  by_cases hfd : fd' = fd
  · rw [hfd, update_self]
    exact iff_of_false h fun h => h.2 rfl
  · rw [update_of_ne hfd]
    exact (and_iff_left hfd).symm

end Slots

/-! ### Steps -/

namespace RefInv

variable [Fintype θ] (h : RefInv s) (hs : Stepped s s' c ch op)

include h hs

theorem step_known_self : Known s'.data (s'.loc c) := by
  have hinstr := hs.instr
  have hknown := h.known c
  generalize s'.data = d' at hinstr ⊢
  generalize s.loc c = l at hinstr hknown
  generalize s'.loc c = l' at hinstr ⊢
  cases hinstr with
  | use u f l hstarts =>
    cases hstarts with
    | pipe htype => exact ⟨htype, rfl⟩
    | inode htype => exact htype
    | _ => trivial
  | lock => exact ⟨hknown, rfl⟩
  | unlock => exact hknown.1
  | openAlloc ip f hfree =>
    simp only [Known, Data.setFile, update_self]
    exact h.free f hfree
  | openType ip f isDevice =>
    simp only [Known, Data.setFile, update_self, File.isInode]
    cases isDevice with
    | false => exact .inl rfl
    | true => exact .inr rfl
  | openIp =>
    simp only [Known, Data.setFile, update_self, File.isInode, and_true] at hknown ⊢
    exact hknown
  | openMode =>
    simp only [Known, Data.setFile, update_self, File.isInode] at hknown ⊢
    exact hknown
  | io | again | openFound | openNext | openFull | openStore => exact hknown
  | _ => trivial

theorem step_known (t : θ) : Known s'.data (s'.loc t) := by
  by_cases ht : t = c
  · rw [ht]
    exact h.step_known_self hs
  · rw [hs.others t ht]
    refine (h.known t).congr fun f hf => ?_
    obtain ⟨htype, hpipe, hip, -⟩ := h.others hs ht hf
    exact ⟨htype, hpipe, hip⟩

theorem step_free (f : FileId) (hf : (s'.data.file f).ref = 0) :
    (s'.data.file f).type = .none := by
  cases hs.instr.effect.change f with
  | same file =>
    rw [file] at hf ⊢
    exact h.free f hf
  | dupRef hl file =>
    have hcall := h.call c f (by rw [hl]; rfl)
    rw [file] at hf
    dsimp only at hf
    omega
  | alloc ip hl hl' hfree file =>
    rw [file] at hf
    cases hf
  | drop ref type => exact type hf
  | edit ref file =>
    have hcall := h.call c f file
    omega

theorem step_call_self (f : FileId) (hf : (s'.loc c).file = some f) :
    1 ≤ (s'.data.file f).ref := by
  cases hs.instr.effect with
  | none ofile file move =>
    rw [file]
    cases move with rw [file'] at hf
    | call fd g hofile mem file' =>
      obtain rfl := Option.some.inj hf
      exact h.slot fd g hofile
    | stay file' =>
      exact h.call c f hf
    | leave file' =>
      cases hf
  | dupStore g fd hl hl' data | openStore ip g fd hl hl' data | clear g fd hl hl' data =>
    rw [hl'] at hf
    rw [data]
    exact h.call c f (by rw [hl]; exact hf)
  | alloc ip g hfree hl hl' data =>
    rw [hl'] at hf
    cases hf
    rw [data]
    simp [Data.setFile]
  | edit g v ofile data ref file owns file' =>
    rw [file'] at hf
    obtain rfl := Option.some.inj hf
    rw [data, update_self, ref]
    exact h.call c g file
  | dupRef g hl hl' =>
    rw [hl'] at hf
    cases hf
  | drop g v ofile data ref type file owns clearing owed file' =>
    rw [file'] at hf
    cases hf

theorem step_call (t : θ) (f : FileId) (hf : (s'.loc t).file = some f) :
    1 ≤ (s'.data.file f).ref := by
  by_cases ht : t = c
  · rw [ht] at hf
    exact h.step_call_self hs f hf
  · rw [hs.others t ht] at hf
    have hcall := h.call t f hf
    have hle := (h.others hs ht hf).2.2.2
    omega

omit hs in
theorem slots_of_free {f : FileId} (hfree : (s.data.file f).ref = 0) : s.data.slots f = ∅ := by
  rw [eq_empty_iff_forall_notMem]
  intro fd hfd
  have hslot := h.slot fd f (Data.mem_slots.mp hfd)
  omega

theorem step_slot (fd : Fd) (f : FileId) (hf : s'.data.ofile fd = some f) :
    1 ≤ (s'.data.file f).ref := by
  -- a descriptor that the thread has stored
  have hstore : ∀ g fd', s'.data = s.data.setOfile fd' (some g) → (s.loc c).file = some g →
      1 ≤ (s'.data.file f).ref := by
    intro g fd' hdata hg
    rw [hdata] at hf ⊢
    simp only [Data.setOfile, update_apply] at hf ⊢
    split_ifs at hf with hfd
    · obtain rfl := Option.some.inj hf
      exact h.call c g hg
    · exact h.slot fd f hf
  cases hs.instr.effect with
  | none ofile file =>
    rw [ofile] at hf
    rw [file]
    exact h.slot fd f hf
  | dupStore g fd' hl hl' data | openStore ip g fd' hl hl' data =>
    exact hstore g fd' data (by rw [hl]; rfl)
  | clear g fd' hl hl' data =>
    rw [data] at hf ⊢
    simp only [Data.setOfile, update_apply] at hf ⊢
    split_ifs at hf
    exact h.slot fd f hf
  | dupRef g hl hl' data =>
    rw [data] at hf ⊢
    have hslot := h.slot fd f hf
    simp only [Data.setFile, update_apply]
    split_ifs with hg
    · subst hg
      dsimp only
      omega
    · exact hslot
  | alloc ip g hfree hl hl' data =>
    rw [data] at hf ⊢
    have hslot := h.slot fd f hf
    have hg : f ≠ g := by
      rintro rfl
      omega
    rwa [Data.setFile_of_ne hg]
  | drop g v ofile data ref type file owns clearing owed =>
    rw [ofile] at hf
    by_cases hg : f = g
    · -- the descriptor is not the one that was closed
      subst hg
      have howed := h.owed c f owns file
      have hpos := card_pos.mpr ⟨fd, Data.mem_slots.mpr hf⟩
      rw [clearing, owed, sdiff_empty] at howed
      rw [data, update_self, ref]
      omega
    · rw [data, update_of_ne hg]
      exact h.slot fd f hf
  | edit g v ofile data ref =>
    rw [ofile] at hf
    have hslot := h.slot fd f hf
    rw [data, update_apply]
    split_ifs with hg
    · rwa [ref, ← hg]
    · exact hslot

omit h [Fintype θ] in
theorem came {f : FileId} (hf : (s'.loc c).file = some f) :
    (s.loc c).file = some f ∧ (s'.loc c).owns = (s.loc c).owns ∨
      (f, (s'.loc c).owns) ∈ callOf s.data (s.loc c) ch ∨ (s.data.file f).ref = 0 := by
  cases hs.instr.effect with
  | none ofile file move =>
    cases move with rw [file'] at hf
    | call fd g hofile mem file' =>
      cases hf
      exact .inr (.inl mem)
    | stay file' owns =>
      exact .inl ⟨hf, owns⟩
    | leave file' =>
      cases hf
  | dupStore g fd hl hl' data | openStore ip g fd hl hl' data | clear g fd hl hl' data =>
    rw [hl'] at hf ⊢
    rw [hl]
    exact .inl ⟨hf, rfl⟩
  | alloc ip g hfree hl hl' =>
    rw [hl'] at hf
    cases hf
    exact .inr (.inr hfree)
  | edit g v ofile data ref file owns file' owns' =>
    rw [file'] at hf
    cases hf
    exact .inl ⟨file, owns'.trans owns.symm⟩
  | dupRef g hl hl' =>
    rw [hl'] at hf
    cases hf
  | drop g v ofile data ref type file owns clearing owed file' =>
    rw [file'] at hf
    cases hf

theorem step_apart (hok : Apart s (c, ch)) (t t' : θ) (f : FileId) (hne : t ≠ t')
    (howns : (s'.loc t).owns = true) (hf : (s'.loc t).file = some f) :
    (s'.loc t').file ≠ some f := by
  intro hf'
  by_cases ht : t = c
  · subst ht
    rw [hs.others t' hne.symm] at hf'
    obtain ⟨hold, howns'⟩ | hcall | hfree := came hs hf
    · exact h.apart t t' f hne (howns'.symm.trans howns) hold hf'
    · have hfalse := (hok _ hcall t' hf').2
      exact nomatch hfalse.symm.trans howns
    · have hcall := h.call t' f hf'
      omega
  · rw [hs.others t ht] at howns hf
    by_cases ht' : t' = c
    · rw [ht'] at hf' hne
      obtain ⟨hold, -⟩ | hcall | hfree := came hs hf'
      · exact h.apart t c f hne howns hf hold
      · have hfalse := (hok _ hcall t hf).1
        exact nomatch hfalse.symm.trans howns
      · have hcall := h.call t f hf
        omega
    · rw [hs.others t' ht'] at hf'
      exact h.apart t t' f hne howns hf hf'

omit h in
theorem sum_weight (w : Line → Nat) :
    ∑ t, w (s'.loc t) + w (s.loc c) = ∑ t, w (s.loc t) + w (s'.loc c) := by
  classical
  refine sum_add_eq_of_agree (f := fun t => w (s.loc t)) (g := fun t => w (s'.loc t)) fun t ht => ?_
  rw [hs.others t ht]

omit h hs [Fintype θ] in
theorem card_slots_store {d d' : Data} {f g : FileId} {fd : Fd}
    (hdata : d' = d.setOfile fd (some g)) :
    (d'.slots f).card ≤ (d.slots f).card + if g = f then 1 else 0 := by
  rw [hdata]
  split_ifs with hg
  · rw [hg]
    exact (card_le_card Data.slots_setOfile_self).trans (card_insert_le _ _)
  · rw [slots_setOfile_of_ne (by simpa using hg)]
    exact card_le_card sdiff_subset

theorem step_refs (f : FileId) : ((s'.data.slots f).card : Int) ≤
    (s'.data.file f).ref + (∑ t, (s'.loc t).duped f : Nat) := by
  have hrefs := h.refs f
  have hsum : ∀ m n, (s.loc c).duped f = m → (s'.loc c).duped f = n →
      ∑ t, (s'.loc t).duped f + m = ∑ t, (s.loc t).duped f + n := by
    rintro m n rfl rfl
    exact sum_weight hs (Line.duped f)
  cases hs.instr.effect with
  | none ofile file move duped =>
    rw [slots_congr ofile, file]
    have hsum := hsum _ _ rfl (duped f)
    omega
  | dupStore g fd hl hl' data =>
    have hcard := card_slots_store (f := f) data
    have hfile : s'.data.file f = s.data.file f := by rw [data]; rfl
    have hsum := hsum 0 (if g = f then 1 else 0) (by rw [hl]; rfl) (by rw [hl']; rfl)
    rw [hfile]
    omega
  | openStore ip g fd hl hl' data =>
    have hcard := card_slots_store (f := f) data
    have hfile : s'.data.file f = s.data.file f := by rw [data]; rfl
    have hsum := hsum 0 0 (by rw [hl]; rfl) (by rw [hl']; rfl)
    rw [hfile]
    split_ifs at hcard with hg
    · -- the reference of the new file
      have howed := h.owed c g (by rw [hl]; rfl) (by rw [hl]; rfl)
      simp only [hl, Line.clearing, Line.owed, sdiff_empty, hg] at howed
      omega
    · omega
  | clear g fd hl hl' data =>
    have hcard : (s'.data.slots f).card ≤ (s.data.slots f).card := by
      rw [data, slots_setOfile_of_ne (v := none) nofun]
      exact card_le_card sdiff_subset
    have hfile : s'.data.file f = s.data.file f := by rw [data]; rfl
    have hsum := hsum 0 0 (by rw [hl]; rfl) (by rw [hl']; rfl)
    rw [hfile]
    omega
  | dupRef g hl hl' data =>
    have hslots : s'.data.slots f = s.data.slots f := slots_congr (by rw [data]; rfl)
    have hsum := hsum (if g = f then 1 else 0) 0 (by rw [hl]; rfl) (by rw [hl']; rfl)
    rw [hslots, data, Data.setFile]
    dsimp only
    rw [update_apply]
    by_cases hg : f = g
    · rw [if_pos hg.symm] at hsum
      rw [if_pos hg, ← hg]
      dsimp only
      omega
    · rw [if_neg (Ne.symm hg)] at hsum
      rw [if_neg hg]
      omega
  | alloc ip g hfree hl hl' data =>
    have hslots : s'.data.slots f = s.data.slots f := slots_congr (by rw [data]; rfl)
    have hsum := hsum 0 0 (by rw [hl]; rfl) (by rw [hl']; rfl)
    rw [hslots, data, Data.setFile]
    dsimp only
    rw [update_apply]
    split_ifs with hg
    · rw [hg, h.slots_of_free hfree, card_empty]
      dsimp only
      omega
    · omega
  | drop g v ofile data ref type file owns clearing owed file' duped =>
    have hslots : s'.data.slots f = s.data.slots f := slots_congr ofile
    have hsum := hsum _ _ rfl (duped f)
    rw [hslots, data, update_apply]
    split_ifs with hg
    · have howed := h.owed c g owns file
      rw [clearing, owed, sdiff_empty] at howed
      rw [hg, ref]
      omega
    · omega
  | edit g v ofile data ref file owns file' owns' clearing owed duped =>
    have hslots : s'.data.slots f = s.data.slots f := slots_congr ofile
    have hsum := hsum _ _ rfl (duped f)
    rw [hslots, data, update_apply]
    split_ifs with hg
    · rw [ref, ← hg]
      omega
    · omega

/-- A file that a thread is closing or opening is not touched by the others. -/
theorem owned_others {t : θ} {f : FileId} (ht : t ≠ c) (howns : (s.loc t).owns = true)
    (hf : (s.loc t).file = some f) :
    s'.data.file f = s.data.file f ∧ s'.data.slots f ⊆ s.data.slots f := by
  have hnot : (s.loc c).file ≠ some f := h.apart t c f ht howns hf
  constructor
  · cases hs.instr.effect.change f with
    | same file => exact file
    | dupRef hl =>
      rw [hl] at hnot
      exact absurd rfl hnot
    | alloc =>
      have hcall := h.call t f hf
      omega
    | drop ref type file | edit ref file => exact absurd file hnot
  · -- another descriptor is stored
    have hstore : ∀ g fd, s'.data = s.data.setOfile fd (some g) → (s.loc c).file = some g →
        s'.data.slots f ⊆ s.data.slots f := by
      intro g fd hdata hg
      have hne : some g ≠ some f := by rwa [← hg]
      rw [hdata, slots_setOfile_of_ne hne]
      exact sdiff_subset
    cases hs.instr.effect with
    | none ofile | drop g v ofile | edit g v ofile => exact (slots_congr ofile).subset
    | dupStore g fd hl hl' data | openStore ip g fd hl hl' data =>
      exact hstore g fd data (by rw [hl]; rfl)
    | clear g fd hl hl' data =>
      rw [data, slots_setOfile_of_ne (v := none) nofun]
      exact sdiff_subset
    | dupRef g hl hl' data | alloc ip g hfree hl hl' data =>
      exact (slots_congr (by rw [data]; rfl)).subset

theorem step_owed_self (hok : Apart s (c, ch)) (f : FileId) (howns : (s'.loc c).owns = true)
    (hf : (s'.loc c).file = some f) :
    ((s'.data.slots f \ (s'.loc c).clearing).card : Int) + (s'.loc c).owed ≤
      (s'.data.file f).ref := by
  cases hs.instr.effect with
  | none ofile file move duped =>
    rw [slots_congr ofile, file]
    cases move with
    | call fd g hofile mem file' clearing =>
      rw [file'] at hf
      obtain rfl := Option.some.inj hf
      obtain ⟨hclearing, howed⟩ := clearing howns
      -- no other call on the file is in progress
      have hzero : ∑ t, (s.loc t).duped g = 0 := by
        refine sum_eq_zero fun t _ => ?_
        by_contra hne
        have hfile : (s.loc t).file = some g := by
          generalize s.loc t = l at hne
          cases l with
          | dupRef =>
            simp only [Line.duped, ite_eq_right_iff, one_ne_zero, imp_false, not_not] at hne
            rw [hne]
            rfl
          | _ => exact absurd rfl hne
        have hfalse := (hok _ mem t hfile).2
        exact nomatch hfalse.symm.trans howns
      have hrefs := h.refs g
      have hcard := card_sdiff_add_card_eq_card
        (singleton_subset_iff.mpr (Data.mem_slots.mpr hofile))
      rw [card_singleton] at hcard
      rw [hclearing, howed]
      rw [hzero] at hrefs
      omega
    | stay file' owns clearing owed =>
      rw [clearing, owed]
      rw [file'] at hf
      exact h.owed c f (owns.symm.trans howns) hf
    | leave file' =>
      rw [file'] at hf
      cases hf
  | openStore ip g fd hl hl' data =>
    rw [hl'] at hf
    obtain rfl := Option.some.inj hf
    have hcard := card_slots_store (f := g) data
    rw [if_pos rfl] at hcard
    have howed := h.owed c g (by rw [hl]; rfl) (by rw [hl]; rfl)
    have hfile : s'.data.file g = s.data.file g := by rw [data]; rfl
    simp only [hl, Line.clearing, Line.owed, sdiff_empty] at howed
    simp only [hl', hfile, Line.clearing, Line.owed, sdiff_empty]
    omega
  | clear g fd hl hl' data =>
    rw [hl'] at hf
    obtain rfl := Option.some.inj hf
    have howed := h.owed c g (by rw [hl]; rfl) (by rw [hl]; rfl)
    have hfile : s'.data.file g = s.data.file g := by rw [data]; rfl
    rw [hl] at howed
    rw [hl', hfile, data, slots_setOfile_of_ne (v := none) nofun]
    simp only [Line.clearing, Line.owed, sdiff_empty] at howed ⊢
    exact howed
  | alloc ip g hfree hl hl' data =>
    rw [hl'] at hf
    obtain rfl := Option.some.inj hf
    have hslots : s'.data.slots g = s.data.slots g := slots_congr (by rw [data]; rfl)
    rw [hl', hslots, h.slots_of_free hfree, data]
    simp [Data.setFile, Line.clearing, Line.owed]
  | edit g v ofile data ref file owns file' owns' clearing owed =>
    rw [file'] at hf
    obtain rfl := Option.some.inj hf
    rw [slots_congr ofile, clearing, owed, data, update_self, ref]
    exact h.owed c g owns file
  | dupStore g fd hl hl' | dupRef g hl hl' =>
    rw [hl'] at howns
    cases howns
  | drop g v ofile data ref type file owns clearing owed file' =>
    rw [file'] at hf
    cases hf

theorem step_owed (hok : Apart s (c, ch)) (t : θ) (f : FileId) (howns : (s'.loc t).owns = true)
    (hf : (s'.loc t).file = some f) :
    ((s'.data.slots f \ (s'.loc t).clearing).card : Int) + (s'.loc t).owed ≤
      (s'.data.file f).ref := by
  by_cases ht : t = c
  · rw [ht] at howns hf ⊢
    exact h.step_owed_self hs hok f howns hf
  rw [hs.others t ht] at howns hf ⊢
  obtain ⟨hfile, hslots⟩ := h.owned_others hs ht howns hf
  have howed := h.owed t f howns hf
  have hcard := card_le_card (sdiff_subset_sdiff hslots
    (Finset.Subset.refl (s.loc t).clearing))
  rw [hfile]
  omega

theorem step (hok : Apart s (c, ch)) : RefInv s' where
  known := h.step_known hs
  apart := h.step_apart hs hok
  slot := h.step_slot hs
  call := h.step_call hs
  refs := h.step_refs hs
  owed := h.step_owed hs hok
  free := h.step_free hs

end RefInv

end Xv6.Files
