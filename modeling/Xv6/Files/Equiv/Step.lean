import Xv6.Files.Code

/-!
# The instructions of the calls on files, rule by rule

What an instruction can do (`Line.Step`), and the locks of inodes held at each line
(`fileCode_disciplined`).
-/

namespace Xv6.Files

open Lib

/-! ### Rules -/

inductive Use.Starts (f : FileId) (file : File) : Use → Line → Prop where
  | none (u : Use) : Starts f file u .user
  | pipe (u : Use) (h : file.type = .pipe) : Starts f file u (.pipe f file.pipe)
  | device (u : Use) : Starts f file u (.device f)
  | inode (u : Use) (h : file.type = .inode ∨ file.type = .device) : Starts f file u (.lock u f)

theorem Use.start_starts {u : Use} {f : FileId} {file : File} {l : Line}
    (h : u.start f file = some l) : Use.Starts f file u l := by
  unfold Use.start at h
  split at h
  case h_1 htype =>
    cases h
    exact .inode _ (.inl htype)
  case h_2 htype =>
    cases h
    exact .inode _ (.inr htype)
  case h_3 =>
    cases h
    exact .none _
  case h_4 | h_5 =>
    split_ifs at h
    · cases h
      exact .none _
    split at h
    · cases h
      exact .pipe _ ‹_›
    · cases h
      exact .device _
    · cases h
      exact .inode _ (.inl ‹_›)
    · cases h

inductive Line.Step (d : Data) : Choice → Line → LockOp InodeId → Line → Data → Prop where
  -- calls
  | badFd (c : Syscall) : Step d (.call c) .user .none .user d
  | callUse (u : Use) (fd : Fd) (f : FileId) (h : d.ofile fd = some f) :
      Step d (.call (.use u fd)) .user .none (.use u f) d
  | callDup (fd : Fd) (f : FileId) (h : d.ofile fd = some f) :
      Step d (.call (.dup fd)) .user .none (.dupTest f 0) d
  | callClose (fd : Fd) (f : FileId) (h : d.ofile fd = some f) :
      Step d (.call (.close fd)) .user .none (.closeClear f fd) d
  | callOpen (ip : InodeId) : Step d (.call (.open ip)) .user .none (.openLock ip) (d.iget ip)
  | setNlink (ip : InodeId) (nlink : Int) :
      Step d (.setNlink ip nlink) .user .none .user (d.setInode ip { d.inode ip with nlink })
  -- fileread, filewrite, filestat
  | use (u : Use) (f : FileId) (l : Line) (h : Use.Starts f (d.file f) u l) :
      Step d .next (.use u f) .none l d
  | pipe (f : FileId) (pi : Nat) : Step d .next (.pipe f pi) .none .user d
  | device (f : FileId) : Step d .next (.device f) .none .user d
  | lock (u : Use) (f : FileId) :
      Step d .next (.lock u f) (.acquire (d.file f).ip) (.io u f (d.file f).ip)
        (d.setValid (d.file f).ip true)
  | io (u : Use) (f : FileId) (ip : InodeId) : Step d .next (.io u f ip) .none (.unlock u f ip) d
  | unlock (u : Use) (f : FileId) (ip : InodeId) :
      Step d .next (.unlock u f ip) (.release ip) (.done u f) d
  | again (f : FileId) : Step d .again (.done .write f) .none (.lock .write f) d
  | done (u : Use) (f : FileId) : Step d .next (.done u f) .none .user d
  -- dup
  | dupFound (f : FileId) (fd : Fd) : Step d .next (.dupTest f fd) .none (.dupStore f fd) d
  | dupNext (f : FileId) (fd fd' : Fd) : Step d .next (.dupTest f fd) .none (.dupTest f fd') d
  | dupFull (f : FileId) (fd : Fd) : Step d .next (.dupTest f fd) .none .user d
  | dupStore (f : FileId) (fd : Fd) :
      Step d .next (.dupStore f fd) .none (.dupRef f) (d.setOfile fd (some f))
  | dupRef (f : FileId) :
      Step d .next (.dupRef f) .none .user
        (d.setFile f { d.file f with ref := (d.file f).ref + 1 })
  -- close
  | closeClear (f : FileId) (fd : Fd) :
      Step d .next (.closeClear f fd) .none (.closeRef f) (d.setOfile fd none)
  | closeMore (f : FileId) (h : 0 < (d.file f).ref - 1) :
      Step d .next (.closeRef f) .none .user
        (d.setFile f { d.file f with ref := (d.file f).ref - 1 })
  | closePipe (f : FileId) (h : (d.file f).ref = 1)
      (htype : (d.file f).type = .pipe) :
      Step d .next (.closeRef f) .none (.pipeClose (d.file f).pipe (d.file f).writable)
        (d.setFile f { d.file f with ref := 0, type := .none })
  | closeInode (f : FileId) (h : (d.file f).ref = 1)
      (htype : (d.file f).type = .inode ∨ (d.file f).type = .device) :
      Step d .next (.closeRef f) .none (.iput (d.file f).ip)
        (d.setFile f { d.file f with ref := 0, type := .none })
  | closeNone (f : FileId) (h : (d.file f).ref = 1)
      (htype : (d.file f).type = .none) :
      Step d .next (.closeRef f) .none .user
        (d.setFile f { d.file f with ref := 0, type := .none })
  | pipeClose (pi : Nat) (writable : Bool) :
      Step d .next (.pipeClose pi writable) .none .user (d.pipeclose pi writable)
  | iput (ip : InodeId) : Step d .next (.iput ip) .none .user (d.idrop ip)
  | iputLast (ip : InodeId) : Step d .next (.iput ip) (.acquire ip) (.iputFree ip) d
  | iputFree (ip : InodeId) :
      Step d .next (.iputFree ip) (.release ip) (.iputDrop ip) (d.setValid ip false)
  | iputDrop (ip : InodeId) : Step d .next (.iputDrop ip) .none .user (d.idrop ip)
  -- open
  | openLock (ip : InodeId) :
      Step d .next (.openLock ip) (.acquire ip) (.openAlloc ip) (d.setValid ip true)
  | openFailed (ip : InodeId) (ch : Choice) : Step d ch (.openAlloc ip) .none (.openFail ip) d
  | openAlloc (ip : InodeId) (f : FileId) (h : (d.file f).ref = 0) :
      Step d .next (.openAlloc ip) .none (.openTest ip f 0)
        (d.setFile f { d.file f with ref := 1 })
  | openFound (ip : InodeId) (f : FileId) (fd : Fd) :
      Step d .next (.openTest ip f fd) .none (.openStore ip f fd) d
  | openNext (ip : InodeId) (f : FileId) (fd fd' : Fd) :
      Step d .next (.openTest ip f fd) .none (.openTest ip f fd') d
  | openFull (ip : InodeId) (f : FileId) (fd : Fd) :
      Step d .next (.openTest ip f fd) .none (.openClose ip f) d
  | openStore (ip : InodeId) (f : FileId) (fd : Fd) :
      Step d .next (.openStore ip f fd) .none (.openType ip f) (d.setOfile fd (some f))
  | openType (ip : InodeId) (f : FileId) (isDevice : Bool) :
      Step d (.type isDevice) (.openType ip f) .none (.openIp ip f)
        (d.setFile f { d.file f with type := if isDevice then .device else .inode })
  | openIp (ip : InodeId) (f : FileId) :
      Step d .next (.openIp ip f) .none (.openMode ip f) (d.setFile f { d.file f with ip })
  | openMode (ip : InodeId) (f : FileId) (readable writable : Bool) :
      Step d (.mode readable writable) (.openMode ip f) .none (.openUnlock ip f)
        (d.setFile f { d.file f with readable, writable })
  | openUnlock (ip : InodeId) (f : FileId) : Step d .next (.openUnlock ip f) (.release ip) .user d
  | openCloseMore (ip : InodeId) (f : FileId) (h : 0 < (d.file f).ref - 1) :
      Step d .next (.openClose ip f) .none (.openFail ip)
        (d.setFile f { d.file f with ref := (d.file f).ref - 1 })
  | openClose (ip : InodeId) (f : FileId) (h : (d.file f).ref = 1)
      (htype : (d.file f).type = .none) :
      Step d .next (.openClose ip f) .none (.openFail ip)
        (d.setFile f { d.file f with ref := 0, type := .none })
  | openFail (ip : InodeId) : Step d .next (.openFail ip) (.release ip) (.iput ip) d

section Instr

variable {d d' : Data} {l l' : Line} {ch : Choice} {op : LockOp InodeId}

theorem start_step {c : Syscall} : Line.Step d (.call c) .user .none (c.start d).1
    (c.start d).2 := by
  cases c with
  | use u fd =>
    cases h : d.ofile fd with simp only [Syscall.start, h, Option.elim]
    | none =>
      exact .badFd _
    | some f =>
      exact .callUse u fd f h
  | dup fd =>
    cases h : d.ofile fd with simp only [Syscall.start, h, Option.elim]
    | none =>
      exact .badFd _
    | some f =>
      exact .callDup fd f h
  | close fd =>
    cases h : d.ofile fd with simp only [Syscall.start, h, Option.elim]
    | none =>
      exact .badFd _
    | some f =>
      exact .callClose fd f h
  | «open» ip => exact .callOpen ip

theorem fileclose_step {f : FileId}
    (h : fileclose d f = some (l', d')) : Line.Step d .next (.closeRef f) .none l' d' := by
  unfold fileclose at h
  dsimp only at h
  split_ifs at h with hpanic hmore
  · cases h
    exact .closeMore f hmore
  have hone : (d.file f).ref = 1 := by omega
  split at h
  case h_1 htype =>
    cases h
    exact .closePipe f hone htype
  case h_2 htype =>
    cases h
    exact .closeInode f hone (.inl htype)
  case h_3 htype =>
    cases h
    exact .closeInode f hone (.inr htype)
  case h_4 htype =>
    cases h
    exact .closeNone f hone htype

theorem Line.instr_step (h : l.instr d ch = some (op, l', d')) : Line.Step d ch l op l' d' := by
  unfold Line.instr at h
  split at h
  case h_1 c =>
    obtain ⟨rfl, hstart⟩ := Prod.mk.inj (Option.some.inj h)
    have hstep := start_step (d := d) (c := c)
    rw [hstart] at hstep
    exact hstep
  case h_3 u f =>
    obtain ⟨l₁, hl, heq⟩ := Option.map_eq_some_iff.mp h
    obtain ⟨rfl, rfl, rfl⟩ := by simpa using heq
    exact .use u f l₁ (Use.start_starts hl)
  case h_6 u f =>
    dsimp only at h
    split_ifs at h
    cases h
    exact .lock u f
  case h_8 u f ip =>
    split_ifs at h
    cases h
    exact .unlock u f ip
  case h_11 f fd =>
    split_ifs at h <;> cases h
    · exact .dupFound f fd
    · cases fdNext fd with
      | none => exact .dupFull f fd
      | some fd' => exact .dupNext f fd fd'
  case h_13 f =>
    split_ifs at h
    cases h
    exact .dupRef f
  case h_15 f =>
    obtain ⟨⟨l₁, d₁⟩, hclose, heq⟩ := Option.map_eq_some_iff.mp h
    cases heq
    exact fileclose_step hclose
  case h_17 ip =>
    split_ifs at h <;> cases h
    · exact .iputLast ip
    · exact .iput ip
  case h_20 ip =>
    split_ifs at h
    cases h
    exact .openLock ip
  case h_22 ip =>
    split at h
    case h_1 f hf =>
      cases h
      exact .openAlloc ip f (by simpa using List.find?_some hf)
    case h_2 =>
      cases h
      exact .openFailed ip _
  case h_23 ip f fd =>
    split_ifs at h <;> cases h
    · exact .openFound ip f fd
    · cases fdNext fd with
      | none => exact .openFull ip f fd
      | some fd' => exact .openNext ip f fd fd'
  case h_29 ip f =>
    split at h
    case h_1 d₁ hclose =>
      cases h
      have hstep := fileclose_step hclose
      generalize hl : Line.user = l₁ at hstep
      cases hstep with
      | closeMore f hmore => exact .openCloseMore ip f hmore
      | closeNone f hone htype => exact .openClose ip f hone htype
      | _ => cases hl
    case h_2 => cases h
  case h_31 => cases h
  all_goals
    cases h
    constructor

end Instr

/-! ### Locks -/

def Line.held : Line → InodeId → Prop
  | .io _ _ ip, m | .unlock _ _ ip, m | .openAlloc ip, m | .openTest ip _ _, m
  | .openStore ip _ _, m | .openType ip _, m | .openIp ip _, m | .openMode ip _, m
  | .openUnlock ip _, m | .openClose ip _, m | .openFail ip, m | .iputFree ip, m => m = ip
  | _, _ => False

theorem fileCode_disciplined : fileCode.Disciplined Line.held := by
  intro d l ch op l' d' hinstr m
  have hstep : Line.Step d ch l op l' d' := Line.instr_step hinstr
  cases hstep with
  | use u f l h => cases h <;> exact Iff.rfl
  | lock | openLock | iputLast => exact (iff_of_eq (false_or _)).symm
  | unlock | openUnlock | openFail | iputFree => exact iff_of_false nofun fun h => h.2 h.1
  | _ => exact Iff.rfl

end Xv6.Files
