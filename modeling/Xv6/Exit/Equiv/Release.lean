import Xv6.Exit.Release

/-!
# `exit` releases each reference once

The invariant counts the threads that are closing a descriptor, have dropped its reference, are
putting the current directory, or hold the inode of a closed file. In `bothClose_dropTwice` two
threads are not `Alone`.
-/

namespace Xv6.Exit

open Lib Function Finset

variable {ι φ ν : Type*}

/-! ### What a thread is doing -/

namespace Pc

/-- The descriptor whose reference the thread has dropped and that it has not yet cleared. -/
def dropped : Pc φ ν → Option (Fin nofile)
  | .pipeclose fd | .beginOp fd _ | .clear fd
  | .iput (.file fd) _ | .itrunc (.file fd) _ | .idrop (.file fd) _ | .endOp (.file fd) => some fd
  | _ => none

/-- The thread has put the current directory. -/
def putCwd : Pc φ ν → Bool
  | .endOp .cwd | .cwdClear | .zombie => true
  | _ => false

/-- The inode of the file that the thread has closed and whose reference it is to drop. -/
def held : Pc φ ν → Option ν
  | .beginOp _ ip | .iput (.file _) ip | .itrunc (.file _) ip | .idrop (.file _) ip => some ip
  | _ => none

/-- The current directory, on the way through `iput`. -/
def cwdIp : Pc φ ν → Option ν
  | .iput .cwd ip | .itrunc .cwd ip | .idrop .cwd ip => some ip
  | _ => none

/-- The loop over the open files is past descriptor `fd`. -/
def Passed (fd : Fin nofile) : Pc φ ν → Prop
  | .user => False
  | .test fd' => fd < fd'
  | pc => ∀ fd', pc.closing = some fd' → fd < fd'

/-! The same as numbers, for counting threads. -/

def closingN (fd : Fin nofile) (pc : Pc φ ν) : Nat := if pc.closing = some fd then 1 else 0

def droppedN (fd : Fin nofile) (pc : Pc φ ν) : Nat := if pc.dropped = some fd then 1 else 0

def puttingN (pc : Pc φ ν) : Nat := if pc.puttingCwd then 1 else 0

def putN (pc : Pc φ ν) : Nat := if pc.putCwd then 1 else 0

def heldN [DecidableEq ν] (ip : ν) (pc : Pc φ ν) : Nat := if pc.held = some ip then 1 else 0

variable {pc : Pc φ ν}

theorem closing_of_dropped {fd : Fin nofile} (h : pc.dropped = some fd) :
    pc.closing = some fd := by
  unfold dropped at h
  split at h <;> simp_all [closing]

theorem puttingCwd_of_putCwd (h : pc.putCwd = true) : pc.puttingCwd = true := by
  unfold putCwd at h
  split at h <;> simp_all [puttingCwd]

theorem droppedN_le_closingN (fd : Fin nofile) (pc : Pc φ ν) : pc.droppedN fd ≤ pc.closingN fd := by
  unfold droppedN
  split_ifs with hd
  · rw [closingN, if_pos (closing_of_dropped hd)]
  · exact Nat.zero_le _

theorem putN_le_puttingN (pc : Pc φ ν) : pc.putN ≤ pc.puttingN := by
  unfold putN
  split_ifs with hd
  · rw [puttingN, if_pos (puttingCwd_of_putCwd hd)]
  · exact Nat.zero_le _

/-- `testNext` is one of two lines, at which the thread is between descriptors. -/
theorem testNext_eq (fd : Fin nofile) :
    (∃ fd', (testNext fd : Pc φ ν) = .test fd') ∨ (testNext fd : Pc φ ν) = .cwdBeginOp := by
  unfold testNext
  split_ifs
  · exact .inl ⟨_, rfl⟩
  · exact .inr rfl

theorem passed_testNext {fd fd' : Fin nofile} (h : (testNext fd : Pc φ ν).Passed fd') :
    fd' ≤ fd := by
  unfold testNext at h
  split_ifs at h with hlast
  · exact Nat.le_of_lt_succ h
  · have hlt := fd'.isLt
    exact Fin.le_def.mpr (by omega)

/-- From one line to the next the thread closes, puts and holds the same. -/
structure Same (pc pc' : Pc φ ν) : Prop where
  closing : pc'.closing = pc.closing
  dropped : pc'.dropped = pc.dropped
  puttingCwd : pc'.puttingCwd = pc.puttingCwd
  putCwd : pc'.putCwd = pc.putCwd
  held : pc'.held = pc.held
  cwdIp : ∀ ip, pc'.cwdIp = some ip → pc.cwdIp = some ip

theorem same_testNext (fd : Fin nofile) (h : pc.Same .cwdBeginOp) :
    pc.Same (testNext fd) := by
  rcases testNext_eq (φ := φ) (ν := ν) fd with ⟨fd', heq⟩ | heq
  · rw [heq]
    exact ⟨h.closing, h.dropped, h.puttingCwd, h.putCwd, h.held, h.cwdIp⟩
  · rw [heq]
    exact h

theorem testNext_ne_close (fd fd' : Fin nofile) (f : φ) :
    (testNext fd : Pc φ ν) ≠ .close fd' f := by
  rcases testNext_eq (φ := φ) (ν := ν) fd with ⟨_, heq⟩ | heq <;> rw [heq] <;> exact nofun

end Pc

/-! ### The invariant -/

variable {pc : Pc φ ν}

/-- A sum over all threads after one of them has moved. -/
theorem sum_moved [Fintype ι] [DecidableEq ι] (g : Pc φ ν → Nat) {s : State ι φ ν} {t : ι}
    (s' : State ι φ ν) (hpc : s'.pc = update s.pc t pc) :
    ∑ u, g (s'.pc u) + g (s.pc t) = ∑ u, g (s.pc u) + g pc := by
  have hsum := sum_add_eq_of_agree (f := fun u => g (s.pc u)) (g := fun u => g (s'.pc u))
    (i := t) (by
      intro u hu
      rw [hpc, update_of_ne hu])
  have hself : s'.pc t = pc := by
    rw [hpc, update_self]
  rwa [hself] at hsum

theorem sum_moved_eq [Fintype ι] [DecidableEq ι] {g : Pc φ ν → Nat} {s s' : State ι φ ν} {t : ι}
    (hpc : s'.pc = update s.pc t pc) (h : g pc = g (s.pc t)) :
    ∑ u, g (s'.pc u) = ∑ u, g (s.pc u) := by
  have hsum := sum_moved g s' hpc
  omega

theorem forall_moved [DecidableEq ι] {P : ι → Pc φ ν → Prop} {s : State ι φ ν} {t : ι}
    (s' : State ι φ ν) (hpc : s'.pc = update s.pc t pc) (ht : P t pc)
    (hothers : ∀ u, u ≠ t → P u (s.pc u)) : ∀ u, P u (s'.pc u) := by
  rw [hpc]
  exact (forall_update_iff s.pc P).mpr ⟨ht, hothers⟩

/-- The descriptors: at most one thread is closing each, and it is open until that thread clears
it. -/
structure FdInv [Fintype ι] (s₀ s : State ι φ ν) : Prop where
  closers_le : ∀ fd, ∑ t, (s.pc t).closingN fd ≤ 1
  closing_open : ∀ t fd, (s.pc t).closing = some fd → s.ofile fd ≠ none
  close_file : ∀ t fd f, s.pc t = .close fd f → s.ofile fd = some f
  passed : ∀ t fd, (s.pc t).Passed fd → s.ofile fd = none
  ofile_open : ∀ fd, s.ofile fd ≠ none →
    s.ofile fd = s₀.ofile fd ∧ s.drops fd = ∑ t, (s.pc t).droppedN fd
  ofile_none : ∀ fd, s.ofile fd = none → s.drops fd = if s₀.ofile fd = none then 0 else 1

/-- What a thread in `exit` knows about the descriptors. -/
structure Pc.FdOk (ofile : Fin nofile → Option φ) (pc : Pc φ ν) : Prop where
  closing : ∀ fd, pc.closing = some fd → ofile fd ≠ none
  close : ∀ fd f, pc = .close fd f → ofile fd = some f
  passed : ∀ fd, pc.Passed fd → ofile fd = none

theorem FdInv.fdOk [Fintype ι] {s₀ s : State ι φ ν} (h : FdInv s₀ s) (t : ι) :
    (s.pc t).FdOk s.ofile :=
  ⟨h.closing_open t, h.close_file t, h.passed t⟩

/-- The current directory: at most one thread puts it. -/
structure CwdInv [Fintype ι] (s₀ s : State ι φ ν) : Prop where
  cwd_eq : ∀ ip, s.cwd = some ip → s₀.cwd = some ip
  cwdIp_eq : ∀ t ip, (s.pc t).cwdIp = some ip → s₀.cwd = some ip
  putting_le : ∑ t, (s.pc t).puttingN ≤ 1
  cwdDrops_eq : s.cwdDrops = ∑ t, (s.pc t).putN

section Refs

variable [DecidableEq φ] [DecidableEq ν]

/-- The references to file `f` through descriptors that are still to be dropped. -/
def pendingFile (s₀ s : State ι φ ν) (f : φ) : Nat :=
  ∑ fd, if s₀.ofile fd = some f ∧ s.drops fd = 0 then 1 else 0

/-- The references of the current directory, of the files, and of the threads that have closed a
file. -/
def pendingInode [Fintype ι] [Fintype φ] (s₀ s : State ι φ ν) (ip : ν) : Nat :=
  (if s₀.cwd = some ip ∧ s.cwdDrops = 0 then 1 else 0) +
    (∑ f, if 0 < (s.file f).ref ∧ (s.file f).kind.ip = some ip then 1 else 0) +
    ∑ t, (s.pc t).heldN ip

/-- The reference counts cover the references that are still to be dropped. -/
structure RefInv [Fintype ι] [Fintype φ] (s₀ s : State ι φ ν) : Prop where
  file_ref : ∀ f, (pendingFile s₀ s f : Int) ≤ (s.file f).ref
  inode_ref : ∀ ip, (pendingInode s₀ s ip : Int) ≤ (s.inode ip).ref

end Refs

variable [Fintype ι] [DecidableEq ι]

/-! ### Descriptors -/

namespace FdInv

variable {s₀ s s' : State ι φ ν} {t : ι} {fd : Fin nofile} {pc pc₀ : Pc φ ν}

theorem moved (hpc : s'.pc = update s.pc t pc) (ht : pc.FdOk s'.ofile)
    (hothers : ∀ u, u ≠ t → (s.pc u).FdOk s'.ofile)
    (hclosers : ∀ fd, ∑ t, (s'.pc t).closingN fd ≤ 1)
    (hopen : ∀ fd, s'.ofile fd ≠ none →
      s'.ofile fd = s₀.ofile fd ∧ s'.drops fd = ∑ t, (s'.pc t).droppedN fd)
    (hnone : ∀ fd, s'.ofile fd = none → s'.drops fd = if s₀.ofile fd = none then 0 else 1) :
    FdInv s₀ s' :=
  have hall := forall_moved (P := fun _ pc => pc.FdOk s'.ofile) s' hpc ht hothers
  ⟨hclosers, fun u => (hall u).closing, fun u => (hall u).close, fun u => (hall u).passed, hopen,
    hnone⟩

section

variable (h : FdInv s₀ s)

include h

theorem frame (hline : s.pc t = pc₀) (hpc : s'.pc = update s.pc t pc) (hofile : s'.ofile = s.ofile)
    (hdrops : s'.drops = s.drops) (hclosing : pc.closing = pc₀.closing)
    (hdropped : pc.dropped = pc₀.dropped)
    (hclose : ∀ fd f, pc = .close fd f → s.ofile fd = some f)
    (hpassed : ∀ fd, pc.Passed fd → s.ofile fd = none) : FdInv s₀ s' := by
  subst hline
  refine moved hpc ?_ ?_ (fun fd => ?_) (fun fd hne => ?_) (fun fd hnone => ?_)
  · rw [hofile]
    exact ⟨fun fd hfd => h.closing_open t fd (hclosing ▸ hfd), hclose, hpassed⟩
  · rw [hofile]
    exact fun u _ => h.fdOk u
  · rw [sum_moved_eq (g := Pc.closingN fd) hpc (by rw [Pc.closingN, Pc.closingN, hclosing])]
    exact h.closers_le fd
  · rw [hofile] at hne ⊢
    rw [hdrops, sum_moved_eq (g := Pc.droppedN fd) hpc (by rw [Pc.droppedN, Pc.droppedN, hdropped])]
    exact h.ofile_open fd hne
  · rw [hofile] at hnone
    rw [hdrops]
    exact h.ofile_none fd hnone

theorem read (hpc : s.pc t = .test fd) (hopen : s.ofile fd ≠ none)
    (halone : ∀ u, (s.pc u).closing ≠ some fd) : FdInv s₀ (s.goto t (.read fd)) := by
  refine moved rfl ⟨fun fd' hfd' => ?_, by simp, fun fd' hfd' => ?_⟩ (fun u _ => h.fdOk u)
    (fun fd' => ?_) (fun fd' hne => ?_) h.ofile_none
  · cases hfd'
    exact hopen
  · apply h.passed t fd'
    rw [hpc]
    exact hfd' fd rfl
  · have hsum := sum_moved (Pc.closingN fd') (s := s) (s.goto t (.read fd)) rfl
    by_cases hfd : fd' = fd
    · subst hfd
      have hzero : ∑ u, (s.pc u).closingN fd' = 0 := sum_eq_zero fun u _ => if_neg (halone u)
      have hone : (Pc.read fd' : Pc φ ν).closingN fd' = 1 := by
        simp [Pc.closingN, Pc.closing]
      omega
    · have hzero : (Pc.read fd : Pc φ ν).closingN fd' = 0 := by
        simp [Pc.closingN, Pc.closing, Ne.symm hfd]
      have hle := h.closers_le fd'
      omega
  · have hsame : ∑ u, ((s.goto t (.read fd)).pc u).droppedN fd' = ∑ u, (s.pc u).droppedN fd' :=
      sum_moved_eq rfl (by rw [hpc]; rfl)
    rw [hsame]
    exact h.ofile_open fd' hne

/-- One thread closes a descriptor. -/
theorem closer_unique {u : ι} (ht : (s.pc t).closing = some fd)
    (hu : (s.pc u).closing = some fd) : u = t := by
  by_contra hne
  -- without `t` there would be nobody left to close
  have hsum := sum_moved (Pc.closingN fd) (s := s) (s.goto t .user) rfl
  have hle := le_sum (fun u => ((s.goto t .user).pc u).closingN fd) u
  have hself : ((s.goto t .user).pc u).closingN fd = 1 := by
    simp [State.goto, hne, Pc.closingN, hu]
  have hone : (s.pc t).closingN fd = 1 := if_pos ht
  have hzero : (Pc.user : Pc φ ν).closingN fd = 0 := rfl
  have htotal := h.closers_le fd
  omega

theorem drops_eq_zero (ht : (s.pc t).closing = some fd)
    (hd : (s.pc t).dropped ≠ some fd) : s.drops fd = 0 := by
  obtain ⟨-, hdrops⟩ := h.ofile_open fd (h.closing_open t fd ht)
  rw [hdrops]
  refine sum_eq_zero fun u _ => if_neg fun hu => ?_
  rw [h.closer_unique ht (Pc.closing_of_dropped hu)] at hu
  exact hd hu

end

omit [DecidableEq ι] in

/-- A descriptor that was dropped was dropped once. -/
theorem drops_eq_one (h : FdInv s₀ s) (ht : (s.pc t).dropped = some fd) :
    s.drops fd = 1 ∧ s.ofile fd = s₀.ofile fd ∧ s.ofile fd ≠ none := by
  have hopen := h.closing_open t fd (Pc.closing_of_dropped ht)
  obtain ⟨hsame, hdrops⟩ := h.ofile_open fd hopen
  refine ⟨?_, hsame, hopen⟩
  have hge := le_sum (fun u => (s.pc u).droppedN fd) t
  have hone : (s.pc t).droppedN fd = 1 := if_pos ht
  have hle : ∑ u, (s.pc u).droppedN fd ≤ ∑ u, (s.pc u).closingN fd :=
    sum_le_sum fun u _ => (s.pc u).droppedN_le_closingN fd
  have htotal := h.closers_le fd
  omega

theorem close {f : φ} [DecidableEq φ] (h : FdInv s₀ s) (hpc : s.pc t = .close fd f)
    (hclosing : pc.closing = some fd) (hdropped : pc.dropped = some fd)
    (hpassed : ∀ fd', pc.Passed fd' → fd' < fd) (hclose : ∀ fd f, pc ≠ .close fd f) :
    FdInv s₀ ((s.dropFile fd f).goto t pc) := by
  refine moved (s := s) rfl
    ⟨fun fd' hfd' => ?_, fun fd' f' hpc' => absurd hpc' (hclose fd' f'), fun fd' hfd' => ?_⟩
    (fun u _ => h.fdOk u) (fun fd' => ?_) (fun fd' hne => ?_) (fun fd' hnone => ?_)
  · obtain rfl := Option.some.inj (hclosing.symm.trans hfd')
    exact h.closing_open t fd (by rw [hpc]; rfl)
  · apply h.passed t fd'
    rw [hpc]
    intro fd'' hfd''
    obtain rfl := Option.some.inj hfd''
    exact hpassed fd' hfd'
  · have hsame : ∑ u, (((s.dropFile fd f).goto t pc).pc u).closingN fd' =
        ∑ u, (s.pc u).closingN fd' :=
      sum_moved_eq rfl (by rw [Pc.closingN, Pc.closingN, hclosing, hpc]; rfl)
    rw [hsame]
    exact h.closers_le fd'
  · obtain ⟨hsame, hdrops⟩ := h.ofile_open fd' hne
    refine ⟨hsame, ?_⟩
    have hsum := sum_moved (Pc.droppedN fd') (s := s) ((s.dropFile fd f).goto t pc) rfl
    have hold : (s.pc t).droppedN fd' = 0 := by
      rw [hpc]
      rfl
    show update s.drops fd (s.drops fd + 1) fd' = _
    by_cases hfd : fd' = fd
    · subst hfd
      have hnew : pc.droppedN fd' = 1 := if_pos hdropped
      rw [update_self]
      omega
    · have hnew : pc.droppedN fd' = 0 := if_neg fun heq =>
        hfd (Option.some.inj (heq.symm.trans hdropped))
      rw [update_of_ne hfd]
      omega
  · have hfd : fd' ≠ fd := by
      rintro rfl
      exact h.closing_open t fd' (by rw [hpc]; rfl) hnone
    show update s.drops fd (s.drops fd + 1) fd' = _
    rw [update_of_ne hfd]
    exact h.ofile_none fd' hnone

theorem clear (h : FdInv s₀ s) (hpc : s.pc t = .clear fd) (hclosing : pc.closing = none)
    (hdropped : pc.dropped = none) (hclose : ∀ fd f, pc ≠ .close fd f)
    (hpassed : ∀ fd', pc.Passed fd' → fd' ≤ fd) :
    FdInv s₀ ((s.clearOfile fd).goto t pc) := by
  obtain ⟨hdrops, hsame, hopen⟩ := h.drops_eq_one
    (show (s.pc t).dropped = some fd by rw [hpc]; rfl)
  have hofile : ∀ fd', fd' ≠ fd → (s.clearOfile fd).ofile fd' = s.ofile fd' :=
    fun fd' hfd' => update_of_ne hfd' ..
  have hofile_self : (s.clearOfile fd).ofile fd = none := update_self ..
  have hkeep : ∀ fd', s.ofile fd' = none → (s.clearOfile fd).ofile fd' = none := by
    intro fd' hfd'
    by_cases heq : fd' = fd
    · rw [heq, hofile_self]
    · rw [hofile fd' heq, hfd']
  -- nobody else is closing this descriptor
  have hothers : ∀ u, u ≠ t → ∀ fd', (s.pc u).closing = some fd' → fd' ≠ fd := by
    rintro u hu fd' hfd' rfl
    exact hu (h.closer_unique (by rw [hpc]; rfl) hfd')
  refine moved (s := s) rfl
    ⟨fun fd' hfd' => ?_, fun fd' f hpc' => absurd hpc' (hclose fd' f), fun fd' hfd' => ?_⟩
    (fun u hu => ⟨fun fd' hfd' => ?_, fun fd' f hline => ?_, fun fd' hfd' => ?_⟩)
    (fun fd' => ?_) ?_ ?_
  · rw [hclosing] at hfd'
    cases hfd'
  · rcases (hpassed fd' hfd').eq_or_lt with rfl | hlt
    · exact hofile_self
    · refine hkeep fd' (h.passed t fd' ?_)
      rw [hpc]
      intro fd'' hfd''
      obtain rfl := Option.some.inj hfd''
      exact hlt
  · exact (hofile fd' (hothers u hu fd' hfd')).trans_ne (h.closing_open u fd' hfd')
  · refine (hofile fd' (hothers u hu fd' ?_)).trans (h.close_file u fd' f hline)
    rw [hline]
    rfl
  · exact hkeep fd' (h.passed u fd' hfd')
  · have hsum := sum_moved (Pc.closingN fd') (s := s) ((s.clearOfile fd).goto t pc) rfl
    have hzero : pc.closingN fd' = 0 := by
      simp [Pc.closingN, hclosing]
    have hle := h.closers_le fd'
    omega
  · intro fd' hne
    have hfd' : fd' ≠ fd := by
      rintro rfl
      exact hne hofile_self
    have hne' : s.ofile fd' ≠ none := hofile fd' hfd' ▸ hne
    have hsum : ∑ u, (((s.clearOfile fd).goto t pc).pc u).droppedN fd' =
        ∑ u, (s.pc u).droppedN fd' := sum_moved_eq rfl (by
      rw [Pc.droppedN, Pc.droppedN, hdropped, hpc]
      simp [Pc.dropped, Ne.symm hfd'])
    obtain ⟨hsame', hdrops'⟩ := h.ofile_open fd' hne'
    exact ⟨(hofile fd' hfd').trans hsame', hdrops'.trans hsum.symm⟩
  · intro fd' hnone
    by_cases hfd' : fd' = fd
    · subst hfd'
      rw [if_neg (hsame ▸ hopen)]
      exact hdrops
    · exact h.ofile_none fd' ((hofile fd' hfd').symm.trans hnone)

end FdInv

/-! ### The current directory -/

namespace CwdInv

variable {s₀ s s' : State ι φ ν} {t : ι} {pc pc₀ : Pc φ ν}

section

variable (h : CwdInv s₀ s)

include h

theorem frame (hline : s.pc t = pc₀) (hpc : s'.pc = update s.pc t pc)
    (hcwd : s'.cwd = s.cwd ∨ s'.cwd = none) (hdrops : s'.cwdDrops = s.cwdDrops)
    (hputting : pc.puttingCwd = pc₀.puttingCwd) (hput : pc.putCwd = pc₀.putCwd)
    (hcwdIp : ∀ ip, pc.cwdIp = some ip → pc₀.cwdIp = some ip) : CwdInv s₀ s' where
  cwd_eq ip hip := by
    rcases hcwd with hcwd | hcwd
    · exact h.cwd_eq ip (hcwd ▸ hip)
    · rw [hcwd] at hip
      cases hip
  cwdIp_eq := forall_moved (P := fun _ pc => ∀ ip, pc.cwdIp = some ip → s₀.cwd = some ip) s' hpc
    (fun ip hip => h.cwdIp_eq t ip (hline ▸ hcwdIp ip hip)) fun u _ => h.cwdIp_eq u
  putting_le := by
    rw [sum_moved_eq (g := Pc.puttingN) hpc (by rw [Pc.puttingN, Pc.puttingN, hputting, hline])]
    exact h.putting_le
  cwdDrops_eq := by
    rw [sum_moved_eq (g := Pc.putN) hpc (by rw [Pc.putN, Pc.putN, hput, hline]), hdrops]
    exact h.cwdDrops_eq

theorem read {ip : ν} (hpc : s.pc t = .cwdRead) (hcwd : s.cwd = some ip)
    (halone : ∀ u, (s.pc u).puttingCwd = false) : CwdInv s₀ (s.goto t (.iput .cwd ip)) where
  cwd_eq := h.cwd_eq
  cwdIp_eq := by
    refine forall_moved (P := fun _ pc => ∀ ip, pc.cwdIp = some ip → s₀.cwd = some ip)
      (s.goto t (.iput .cwd ip)) rfl ?_ fun u _ => h.cwdIp_eq u
    intro ip' hip'
    cases hip'
    exact h.cwd_eq _ hcwd
  putting_le := by
    have hsum := sum_moved Pc.puttingN (s := s) (s.goto t (.iput .cwd ip)) rfl
    have hzero : ∑ u, (s.pc u).puttingN = 0 := sum_eq_zero fun u _ => by
      simp [Pc.puttingN, halone u]
    have hone : (Pc.iput .cwd ip : Pc φ ν).puttingN = 1 := rfl
    omega
  cwdDrops_eq := by
    have hsame : ∑ u, ((s.goto t (.iput .cwd ip)).pc u).putN = ∑ u, (s.pc u).putN :=
      sum_moved_eq rfl (by rw [hpc]; rfl)
    rw [hsame]
    exact h.cwdDrops_eq

/-- Before the putting thread has dropped the reference, nobody has. -/
theorem cwdDrops_eq_zero (ht : (s.pc t).puttingCwd = true)
    (hput : (s.pc t).putCwd = false) : s.cwdDrops = 0 := by
  have hputting := sum_moved Pc.puttingN (s := s) (s.goto t .user) rfl
  have hputN := sum_moved Pc.putN (s := s) (s.goto t .user) rfl
  have hle : ∑ u, ((s.goto t .user).pc u).putN ≤ ∑ u, ((s.goto t .user).pc u).puttingN :=
    sum_le_sum fun u _ => ((s.goto t .user).pc u).putN_le_puttingN
  have hone : (s.pc t).puttingN = 1 := if_pos ht
  have hzero : (s.pc t).putN = 0 := by simp [Pc.putN, hput]
  have huser : (Pc.user : Pc φ ν).puttingN = 0 := rfl
  have huser' : (Pc.user : Pc φ ν).putN = 0 := rfl
  have htotal := h.putting_le
  have hdrops := h.cwdDrops_eq
  omega

theorem drop [DecidableEq ν] {ip : ν} (ht : (s.pc t).puttingCwd = true)
    (hput : (s.pc t).putCwd = false) :
    CwdInv s₀ ((s.dropInode .cwd ip).goto t (.endOp .cwd)) where
  cwd_eq := h.cwd_eq
  cwdIp_eq := forall_moved (P := fun _ pc => ∀ ip, pc.cwdIp = some ip → s₀.cwd = some ip)
    ((s.dropInode .cwd ip).goto t (.endOp .cwd)) rfl (by simp [Pc.cwdIp])
    fun u _ => h.cwdIp_eq u
  putting_le := by
    have hsame : ∑ u, (((s.dropInode .cwd ip).goto t (.endOp .cwd)).pc u).puttingN =
        ∑ u, (s.pc u).puttingN := sum_moved_eq rfl (by rw [Pc.puttingN, Pc.puttingN, ht]; rfl)
    rw [hsame]
    exact h.putting_le
  cwdDrops_eq := by
    have hsum := sum_moved Pc.putN (s := s) ((s.dropInode .cwd ip).goto t (.endOp .cwd)) rfl
    have hone : (Pc.endOp .cwd : Pc φ ν).putN = 1 := rfl
    have hzero : (s.pc t).putN = 0 := by simp [Pc.putN, hput]
    have hdrops := h.cwdDrops_eq
    show (if Ref.cwd = .cwd then s.cwdDrops + 1 else s.cwdDrops) = _
    rw [if_pos rfl]
    omega

end

end CwdInv

/-! ### Reference counts -/

section Refs

variable [Fintype φ] [DecidableEq φ] [DecidableEq ν] {s₀ s s' : State ι φ ν} {t : ι} {pc pc₀ : Pc φ ν}

omit [Fintype ι] [DecidableEq ι] [Fintype φ] [DecidableEq φ] [DecidableEq ν] in
/-- After it has dropped the reference, `fileclose` closes the pipe, puts the inode or returns. -/
theorem closeNext_eq (s : State ι φ ν) (fd : Fin nofile) (f : φ) :
    s.closeNext fd f = .clear fd ∨ s.closeNext fd f = .pipeclose fd ∨
      ∃ ip, s.closeNext fd f = .beginOp fd ip := by
  unfold State.closeNext
  split_ifs
  · exact .inl rfl
  · split
    · exact .inr (.inl rfl)
    · exact .inr (.inr ⟨_, rfl⟩)
    · exact .inr (.inr ⟨_, rfl⟩)
    · exact .inl rfl

def File.refN (ip : ν) (f : File ν) : Nat := if 0 < f.ref ∧ f.kind.ip = some ip then 1 else 0

omit [Fintype ι] [DecidableEq ι] [Fintype φ] in
/-- The last `fileclose` takes over the file's reference to its inode. -/
theorem refN_closeNext (fd : Fin nofile) (f : φ) (ip : ν) (hpos : 1 ≤ (s.file f).ref) :
    ((s.dropFile fd f).file f).refN ip + (s.closeNext fd f).heldN ip = (s.file f).refN ip := by
  have hfile : (s.dropFile fd f).file f =
      if (s.file f).ref - 1 > 0 then { s.file f with ref := (s.file f).ref - 1 } else ⟨0, .none⟩ :=
    update_self ..
  rw [hfile]
  unfold State.closeNext
  split_ifs with hmore
  · have hpos' : 0 < (s.file f).ref := by omega
    simp only [File.refN, hmore, hpos', true_and]
    rfl
  · have hpos' : 0 < (s.file f).ref := by omega
    simp only [File.refN, hpos', true_and]
    cases (s.file f).kind <;> simp [FileKind.ip, Pc.heldN, Pc.held]

namespace RefInv

theorem frame (h : RefInv s₀ s) (hline : s.pc t = pc₀) (hpc : s'.pc = update s.pc t pc)
    (hdrops : s'.drops = s.drops) (hfile : s'.file = s.file)
    (hinode : ∀ ip, (s'.inode ip).ref = (s.inode ip).ref)
    (hcwdDrops : s'.cwdDrops = s.cwdDrops) (hheld : pc.held = pc₀.held) : RefInv s₀ s' where
  file_ref f := by
    rw [hfile, pendingFile, hdrops]
    exact h.file_ref f
  inode_ref ip := by
    rw [hinode, pendingInode, hfile, hcwdDrops,
      sum_moved_eq (g := Pc.heldN ip) hpc (by rw [Pc.heldN, Pc.heldN, hheld, hline])]
    exact h.inode_ref ip

variable {fd : Fin nofile}

section

variable (h : RefInv s₀ s)

include h

omit [DecidableEq ι] in
/-- The reference that a thread is about to drop is one of those that are counted. -/
theorem close_pos {f : φ} (hofile : s₀.ofile fd = some f)
    (hdrops : s.drops fd = 0) : 1 ≤ (s.file f).ref := by
  have hle := le_sum (fun fd => if s₀.ofile fd = some f ∧ s.drops fd = 0 then 1 else 0) fd
  rw [if_pos ⟨hofile, hdrops⟩] at hle
  have href := h.file_ref f
  rw [pendingFile] at href
  omega

theorem close {f : φ} (hpc : s.pc t = .close fd f)
    (hofile : s₀.ofile fd = some f) (hdrops : s.drops fd = 0) :
    RefInv s₀ ((s.dropFile fd f).goto t (s.closeNext fd f)) where
  file_ref f' := by
    have hsum := sum_add_eq_of_agree
      (f := fun fd => if s₀.ofile fd = some f' ∧ s.drops fd = 0 then 1 else 0)
      (g := fun fd' => if s₀.ofile fd' = some f' ∧ (s.dropFile fd f).drops fd' = 0 then 1 else 0)
      (i := fd) (by
        intro fd' hfd'
        have hsame : (s.dropFile fd f).drops fd' = s.drops fd' := update_of_ne hfd' ..
        rw [hsame])
    have hgone : (if s₀.ofile fd = some f' ∧ (s.dropFile fd f).drops fd = 0 then 1 else 0) = 0 := by
      simp [State.dropFile]
    have href := h.file_ref f'
    rw [pendingFile] at href
    show ((∑ fd', if s₀.ofile fd' = some f' ∧ (s.dropFile fd f).drops fd' = 0 then 1 else 0 : Nat) :
      Int) ≤ ((s.dropFile fd f).file f').ref
    rw [hgone] at hsum
    by_cases hf : f' = f
    · subst hf
      rw [if_pos ⟨hofile, hdrops⟩] at hsum
      have hpos := h.close_pos hofile hdrops
      have hnew : ((s.dropFile fd f').file f').ref = (s.file f').ref - 1 := by
        simp only [State.dropFile, update_self]
        split_ifs with hmore
        · rfl
        · show (0 : Int) = _
          omega
      omega
    · have hnew : (s.dropFile fd f).file f' = s.file f' := update_of_ne hf ..
      rw [if_neg (fun hand => hf (Option.some.inj (hand.1.symm.trans hofile)))] at hsum
      rw [hnew]
      omega
  inode_ref ip := by
    have hheld := sum_moved (Pc.heldN ip) (s := s)
      ((s.dropFile fd f).goto t (s.closeNext fd f)) rfl
    have hfile := sum_add_eq_of_agree (f := fun f => (s.file f).refN ip)
      (g := fun f' => ((s.dropFile fd f).file f').refN ip) (i := f) (by
        intro f' hf'
        have hsame : (s.dropFile fd f).file f' = s.file f' := update_of_ne hf' ..
        rw [hsame])
    have hmoved := refN_closeNext fd f ip (h.close_pos hofile hdrops)
    have hnone : (s.pc t).heldN ip = 0 := by
      rw [hpc]
      rfl
    have href := h.inode_ref ip
    have hpending : pendingInode s₀ ((s.dropFile fd f).goto t (s.closeNext fd f)) ip =
        pendingInode s₀ s ip := by
      show (if s₀.cwd = some ip ∧ s.cwdDrops = 0 then 1 else 0) +
        (∑ f', ((s.dropFile fd f).file f').refN ip) +
          ∑ u, (((s.dropFile fd f).goto t (s.closeNext fd f)).pc u).heldN ip =
        (if s₀.cwd = some ip ∧ s.cwdDrops = 0 then 1 else 0) + (∑ f, (s.file f).refN ip) +
          ∑ u, (s.pc u).heldN ip
      omega
    rw [hpending]
    exact href

theorem drop {r : Ref} {ip : ν} (hpending : ∀ ip',
    pendingInode s₀ ((s.dropInode r ip).goto t pc) ip' + (if ip' = ip then 1 else 0) ≤
      pendingInode s₀ s ip') : RefInv s₀ ((s.dropInode r ip).goto t pc) where
  file_ref := h.file_ref
  inode_ref ip' := by
    have href := h.inode_ref ip'
    have hpend := hpending ip'
    by_cases hip : ip' = ip
    · subst hip
      have hnew : (((s.dropInode r ip').goto t pc).inode ip').ref = (s.inode ip').ref - 1 := by
        simp [State.dropInode, State.goto]
      rw [if_pos rfl] at hpend
      omega
    · have hnew : ((s.dropInode r ip).goto t pc).inode ip' = s.inode ip' :=
        update_of_ne hip ..
      rw [if_neg hip] at hpend
      rw [hnew]
      omega

/-- `iput` drops the reference of a file that is closed. -/
theorem dropFile {ip : ν} (hheld : (s.pc t).held = some ip) :
    RefInv s₀ ((s.dropInode (.file fd) ip).goto t (.endOp (.file fd))) := by
  apply h.drop
  intro ip'
  have hsum := sum_moved (Pc.heldN ip') (s := s)
    ((s.dropInode (.file fd) ip).goto t (.endOp (.file fd))) rfl
  have hnone : (Pc.endOp (.file fd) : Pc φ ν).heldN ip' = 0 := rfl
  have hone : (s.pc t).heldN ip' = if ip' = ip then 1 else 0 := by
    rw [Pc.heldN, hheld]
    simp only [Option.some.injEq, eq_comm]
  show (if s₀.cwd = some ip' ∧ s.cwdDrops = 0 then 1 else 0) + (∑ f, (s.file f).refN ip') +
      (∑ u, (((s.dropInode (.file fd) ip).goto t (.endOp (.file fd))).pc u).heldN ip') +
        (if ip' = ip then 1 else 0) ≤
    (if s₀.cwd = some ip' ∧ s.cwdDrops = 0 then 1 else 0) + (∑ f, (s.file f).refN ip') +
      ∑ u, (s.pc u).heldN ip'
  omega

theorem dropCwd {ip : ν} (hcwd : s₀.cwd = some ip) (hdrops : s.cwdDrops = 0)
    (hheld : (s.pc t).held = none) : RefInv s₀ ((s.dropInode .cwd ip).goto t (.endOp .cwd)) := by
  apply h.drop
  intro ip'
  have hsum : ∑ u, (((s.dropInode .cwd ip).goto t (.endOp .cwd)).pc u).heldN ip' =
      ∑ u, (s.pc u).heldN ip' := sum_moved_eq rfl (by rw [Pc.heldN, Pc.heldN, hheld]; rfl)
  have hnew : ((s.dropInode .cwd ip).goto t (.endOp .cwd)).cwdDrops = 1 := by
    show (if Ref.cwd = .cwd then s.cwdDrops + 1 else s.cwdDrops) = 1
    rw [if_pos rfl, hdrops]
  have hold : (if s₀.cwd = some ip' ∧ s.cwdDrops = 0 then 1 else 0) =
      if ip' = ip then 1 else 0 := by
    simp only [hcwd, hdrops, Option.some.injEq, and_true, eq_comm]
  rw [pendingInode, pendingInode, hsum, hnew, hold, if_neg (by simp)]
  show 0 + (∑ f, (s.file f).refN ip') + _ + _ ≤ _ + (∑ f, (s.file f).refN ip') + _
  omega

end

end RefInv

/-! ### Every step -/

/-- The invariant of the threads in `exit`. -/
structure ReleaseInv (s₀ s : State ι φ ν) : Prop where
  fd : FdInv s₀ s
  cwd : CwdInv s₀ s
  refs : RefInv s₀ s

namespace ReleaseInv

omit [DecidableEq ι] in
theorem alive {s : State ι φ ν} (h : Alive s) : ReleaseInv s s where
  fd := {
    closers_le fd := by simp [h.user, Pc.closingN, Pc.closing]
    closing_open t fd hfd := by simp [h.user, Pc.closing] at hfd
    close_file t fd f hpc := by simp [h.user] at hpc
    passed t fd hfd := by simp [h.user, Pc.Passed] at hfd
    ofile_open fd _ := ⟨rfl, by simp [h.user, h.drops, Pc.droppedN, Pc.dropped]⟩
    ofile_none fd hnone := by rw [h.drops, if_pos hnone] }
  cwd := {
    cwd_eq _ hip := hip
    cwdIp_eq t ip hip := by simp [h.user, Pc.cwdIp] at hip
    putting_le := by simp [h.user, Pc.puttingN, Pc.puttingCwd]
    cwdDrops_eq := by simp [h.user, h.cwdDrops, Pc.putN, Pc.putCwd] }
  refs := {
    file_ref f := by
      have hpending : pendingFile s s f =
          (Finset.univ.filter fun fd => s.ofile fd = some f).card := by
        simp only [pendingFile, h.drops, and_true, card_filter]
      rw [hpending]
      exact h.file_ref f
    inode_ref ip := by
      have hpending : pendingInode s s ip = s.inodeRefs ip := by
        simp [pendingInode, State.inodeRefs, h.user, h.cwdDrops, Pc.heldN, Pc.held]
      rw [hpending]
      exact h.inode_ref ip }

section

variable (h : ReleaseInv s₀ s)

include h

theorem frame (hline : s.pc t = pc₀) (hpc : s'.pc = update s.pc t pc) (hsame : pc₀.Same pc)
    (hclose : ∀ fd f, pc = .close fd f → s.ofile fd = some f)
    (hpassed : ∀ fd, pc.Passed fd → s.ofile fd = none) (hofile : s'.ofile = s.ofile)
    (hdrops : s'.drops = s.drops) (hcwd : s'.cwd = s.cwd ∨ s'.cwd = none)
    (hcwdDrops : s'.cwdDrops = s.cwdDrops) (hfile : s'.file = s.file)
    (hinode : ∀ ip, (s'.inode ip).ref = (s.inode ip).ref) : ReleaseInv s₀ s' where
  fd := h.fd.frame hline hpc hofile hdrops hsame.closing hsame.dropped hclose hpassed
  cwd := h.cwd.frame hline hpc hcwd hcwdDrops hsame.puttingCwd hsame.putCwd hsame.cwdIp
  refs := h.refs.frame hline hpc hdrops hfile hinode hcwdDrops hsame.held

theorem goto (hline : s.pc t = pc₀) (hsame : pc₀.Same pc)
    (hclose : ∀ fd f, pc = .close fd f → s.ofile fd = some f)
    (hpassed : ∀ fd, pc.Passed fd → s.ofile fd = none) : ReleaseInv s₀ (s.goto t pc) :=
  h.frame hline rfl hsame hclose hpassed rfl rfl (.inl rfl) rfl rfl fun _ => rfl

theorem close {fd : Fin nofile} {f : φ} (hpc : s.pc t = .close fd f) :
    ReleaseInv s₀ ((s.dropFile fd f).goto t (s.closeNext fd f)) := by
  have hofile := h.fd.close_file t fd f hpc
  obtain ⟨hsame, -⟩ := h.fd.ofile_open fd (by rw [hofile]; exact nofun)
  have hdrops := h.fd.drops_eq_zero (show (s.pc t).closing = some fd by rw [hpc]; rfl)
    (by rw [hpc]; exact nofun)
  refine ⟨?_, ?_, h.refs.close hpc (hsame.symm.trans hofile) hdrops⟩
  · rcases closeNext_eq s fd f with hnext | hnext | ⟨ip, hnext⟩ <;> rw [hnext] <;>
      exact h.fd.close hpc rfl rfl (fun fd' hfd' => hfd' fd rfl) nofun
  · rcases closeNext_eq s fd f with hnext | hnext | ⟨ip, hnext⟩ <;> rw [hnext] <;>
      exact h.cwd.frame hpc rfl (.inl rfl) rfl rfl rfl nofun

theorem clear {fd : Fin nofile} (hpc : s.pc t = .clear fd) :
    ReleaseInv s₀ ((s.clearOfile fd).goto t (.testNext fd)) := by
  have hsame : (Pc.cwdBeginOp : Pc φ ν).Same (.testNext fd) :=
    Pc.same_testNext fd ⟨rfl, rfl, rfl, rfl, rfl, nofun⟩
  refine ⟨?_, ?_, ?_⟩
  · exact h.fd.clear hpc hsame.closing hsame.dropped (Pc.testNext_ne_close fd)
      fun fd' => Pc.passed_testNext
  · exact h.cwd.frame hpc rfl (.inl rfl) rfl hsame.puttingCwd hsame.putCwd
      fun ip hip => absurd (hsame.cwdIp ip hip) nofun
  · exact h.refs.frame hpc rfl rfl rfl (fun _ => rfl) rfl hsame.held

/-- `ip->ref--` in `iput`, at either of its two places. -/
theorem dropInode {r : Ref} {ip : ν}
    (hpc : s.pc t = .iput r ip ∨ s.pc t = .idrop r ip) :
    ReleaseInv s₀ ((s.dropInode r ip).goto t (.endOp r)) := by
  cases r with
  | file fd =>
    have hsame : (s.pc t).closing = some fd ∧ (s.pc t).dropped = some fd ∧
        (s.pc t).puttingCwd = false ∧ (s.pc t).putCwd = false ∧ (s.pc t).held = some ip ∧
          ∀ fd', fd' < fd → (s.pc t).Passed fd' := by
      rcases hpc with hpc | hpc <;> rw [hpc] <;>
        exact ⟨rfl, rfl, rfl, rfl, rfl, fun fd' hlt fd'' hfd'' => by
          obtain rfl := Option.some.inj hfd''; exact hlt⟩
    obtain ⟨hclosing, hdropped, hputting, hput, hheld, hpassed⟩ := hsame
    refine ⟨?_, ?_, h.refs.dropFile hheld⟩
    · exact h.fd.frame rfl rfl rfl rfl hclosing.symm hdropped.symm nofun
        fun fd' hfd' => h.fd.passed t fd' (hpassed fd' (hfd' fd rfl))
    · exact h.cwd.frame rfl rfl (.inl rfl) rfl hputting.symm hput.symm nofun
  | cwd =>
    have hsame : (s.pc t).closing = none ∧ (s.pc t).dropped = none ∧
        (s.pc t).puttingCwd = true ∧ (s.pc t).putCwd = false ∧ (s.pc t).held = none ∧
          (s.pc t).cwdIp = some ip ∧ ∀ fd, (s.pc t).Passed fd := by
      rcases hpc with hpc | hpc <;> rw [hpc] <;>
        exact ⟨rfl, rfl, rfl, rfl, rfl, rfl, fun _ _ => nofun⟩
    obtain ⟨hclosing, hdropped, hputting, hput, hheld, hcwdIp, hpassed⟩ := hsame
    refine ⟨?_, h.cwd.drop hputting hput, ?_⟩
    · exact h.fd.frame rfl rfl rfl rfl hclosing.symm hdropped.symm nofun
        fun fd' _ => h.fd.passed t fd' (hpassed fd')
    · exact h.refs.dropCwd (h.cwd.cwdIp_eq t ip hcwdIp) (h.cwd.cwdDrops_eq_zero hputting hput) hheld

/-- **Step**: the next line of a thread that is alone keeps the invariant. -/
theorem next (halone : Alone s (.next t)) (hs : s.next t = some s') :
    ReleaseInv s₀ s' := by
  have hpassed := h.fd.passed t
  unfold State.next at hs
  cases hpc : s.pc t with
  | user | zombie => simp [hpc] at hs
  | test fd =>
    rw [hpc] at hpassed
    rw [hpc] at hs
    cases hofile : s.ofile fd with simp only [hofile, Option.some.injEq] at hs
    | none =>
      subst hs
      refine h.goto hpc (Pc.same_testNext fd ⟨rfl, rfl, rfl, rfl, rfl, nofun⟩)
        (fun fd' f heq => absurd heq (Pc.testNext_ne_close fd fd' f)) fun fd' hfd' => ?_
      rcases (Pc.passed_testNext hfd').eq_or_lt with rfl | hlt
      · exact hofile
      · exact hpassed fd' hlt
    | some =>
      subst hs
      refine ⟨h.fd.read hpc (by rw [hofile]; exact nofun) (halone.1 fd hpc), ?_, ?_⟩
      · exact h.cwd.frame hpc rfl (.inl rfl) rfl rfl rfl nofun
      · exact h.refs.frame hpc rfl rfl rfl (fun _ => rfl) rfl rfl
  | read =>
    rw [hpc] at hpassed
    rw [hpc, Option.map_eq_some_iff] at hs
    obtain ⟨f, hofile, rfl⟩ := hs
    refine h.goto hpc ⟨rfl, rfl, rfl, rfl, rfl, nofun⟩ ?_ hpassed
    intro fd' f' heq
    obtain ⟨rfl, rfl⟩ := Pc.close.inj heq
    exact hofile
  | close =>
    simp only [hpc] at hs
    split_ifs at hs with hpanic
    cases hs
    exact h.close hpc
  | pipeclose | beginOp | cwdBeginOp =>
    rw [hpc] at hpassed hs
    cases hs
    exact h.goto hpc ⟨rfl, rfl, rfl, rfl, rfl, nofun⟩ nofun hpassed
  | clear =>
    rw [hpc] at hs
    cases hs
    exact h.clear hpc
  | cwdRead =>
    rw [hpc] at hpassed
    rw [hpc, Option.map_eq_some_iff] at hs
    obtain ⟨ip, hcwd, rfl⟩ := hs
    refine ⟨?_, h.cwd.read hpc hcwd (halone.2 hpc), ?_⟩
    · exact h.fd.frame hpc rfl rfl rfl rfl rfl nofun hpassed
    · exact h.refs.frame hpc rfl rfl rfl (fun _ => rfl) rfl rfl
  | cwdClear =>
    rw [hpc] at hpassed hs
    cases hs
    exact h.frame hpc rfl ⟨rfl, rfl, rfl, rfl, rfl, nofun⟩ nofun hpassed rfl rfl
      (.inr rfl) rfl rfl fun _ => rfl
  | iput r =>
    rw [hpc] at hpassed
    simp only [hpc] at hs
    split_ifs at hs with hlast <;> cases hs
    · cases r <;>
        exact h.goto hpc ⟨rfl, rfl, rfl, rfl, rfl, fun _ => id⟩ nofun hpassed
    · exact h.dropInode (.inl hpc)
  | itrunc r ip =>
    rw [hpc] at hpassed hs
    cases hs
    have hinode : ∀ ip', ((s.truncInode ip).inode ip').ref = (s.inode ip').ref := by
      intro ip'
      by_cases hip : ip' = ip
      · subst hip
        simp [State.truncInode]
      · simp [State.truncInode, hip]
    cases r <;> exact h.frame hpc rfl ⟨rfl, rfl, rfl, rfl, rfl, fun _ => id⟩ nofun
      hpassed rfl rfl (.inl rfl) rfl rfl hinode
  | idrop =>
    rw [hpc] at hs
    cases hs
    exact h.dropInode (.inr hpc)
  | endOp r =>
    rw [hpc] at hpassed hs
    cases r with cases hs
    | file | cwd => exact h.goto hpc ⟨rfl, rfl, rfl, rfl, rfl, nofun⟩ nofun hpassed

/-- **Step**: a step that is alone keeps the invariant. -/
theorem step {a : Act ι} (halone : Alone s a)
    (hs : (exitMachine ι φ ν).step s a = some s') : ReleaseInv s₀ s' := by
  cases a with
  | exit =>
    simp only [exitMachine, State.step] at hs
    split_ifs at hs with hpc
    cases hs
    exact h.goto hpc ⟨rfl, rfl, rfl, rfl, rfl, nofun⟩ nofun
      fun fd hfd => absurd hfd (Fin.not_lt_zero fd)
  | next => exact h.next halone hs

end

omit [DecidableEq ι] in
theorem drops_le (h : ReleaseInv s₀ s) (fd : Fin nofile) : s.drops fd ≤ 1 := by
  by_cases hnone : s.ofile fd = none
  · rw [h.fd.ofile_none fd hnone]
    split_ifs <;> omega
  · calc s.drops fd = ∑ t, (s.pc t).droppedN fd := (h.fd.ofile_open fd hnone).2
      _ ≤ ∑ t, (s.pc t).closingN fd := sum_le_sum fun u _ => (s.pc u).droppedN_le_closingN fd
      _ ≤ 1 := h.fd.closers_le fd

omit [DecidableEq ι] in
theorem cwdDrops_le (h : ReleaseInv s₀ s) : s.cwdDrops ≤ 1 := by
  calc s.cwdDrops = ∑ t, (s.pc t).putN := h.cwd.cwdDrops_eq
    _ ≤ ∑ t, (s.pc t).puttingN := sum_le_sum fun u _ => (s.pc u).putN_le_puttingN
    _ ≤ 1 := h.cwd.putting_le

/-- The invariant says that every reference is released once. -/
theorem releasedOnce (h : ReleaseInv s₀ s) : ReleasedOnce s₀ s where
  file_once := h.drops_le
  cwd_once := h.cwdDrops_le
  released := by
    rintro ⟨t, hpc⟩
    constructor
    · intro fd hne
      rw [h.fd.ofile_none fd (h.fd.passed t fd (by rw [hpc]; exact nofun)), if_neg hne]
    have hone : (s.pc t).putN = 1 := by
      rw [hpc]
      rfl
    have hge := le_sum (fun u => (s.pc u).putN) t
    have hle := h.cwdDrops_le
    have hdrops := h.cwd.cwdDrops_eq
    omega
  close_ref t fd f hpc := by
    have hofile := h.fd.close_file t fd f hpc
    obtain ⟨hsame, -⟩ := h.fd.ofile_open fd (by rw [hofile]; exact nofun)
    exact h.refs.close_pos (hsame.symm.trans hofile)
      (h.fd.drops_eq_zero (t := t) (by rw [hpc]; rfl) (by rw [hpc]; exact nofun))
  file_ref f := by
    have href := h.refs.file_ref f
    omega
  inode_ref ip := by
    have href := h.refs.inode_ref ip
    omega

end ReleaseInv

/-- **Released once**: in every run of the threads of a process through `exit` in which no thread
releases what another one is releasing or has released, every reference is dropped at most once,
each exactly once by the time a thread is done, and no reference count goes below zero. -/
theorem released_once {s₀ : State ι φ ν} (halive : Alive s₀) (as : List (Act ι))
    (halone : (exitMachine ι φ ν).Meets Alone s₀ as) (s : State ι φ ν)
    (hrun : (exitMachine ι φ ν).run s₀ as = some s) : ReleasedOnce s₀ s := by
  have hinv := (exitMachine ι φ ν).invariant_of_meets (I := ReleaseInv s₀)
    (fun s a s' h hok hs => h.step hok hs) as s₀ s (.alive halive) halone hrun
  exact hinv.releasedOnce

end Refs

/-! ### Two runs -/

/-- Two threads; file 0 is shared with another process, and file 1 is unlinked. -/
def sharing : State (Fin 2) (Fin 2) (Fin 2) where
  ofile fd := if fd = 0 then some 0 else if fd = 1 then some 1 else none
  cwd := some 0
  file f := if f = 0 then ⟨2, .device 0⟩ else ⟨1, .inode 1⟩
  inode ip := if ip = 0 then ⟨3, true, 1⟩ else ⟨1, true, 0⟩
  pc _ := .user
  drops _ := 0
  cwdDrops := 0

theorem sharing_alive : Alive sharing where
  user _ := rfl
  drops _ := rfl
  cwdDrops := rfl
  file_ref := by decide
  inode_ref := by decide

/-- Thread 0 has closed both files before thread 1 tests them. -/
def oneAfterOther : List (Act (Fin 2)) :=
  [.exit 0, .exit 1] ++ List.replicate 13 (.next 0) ++ List.replicate 16 (.next 1) ++
    List.replicate 19 (.next 0)

theorem oneAfterOther_released :
    (exitMachine (Fin 2) (Fin 2) (Fin 2)).Meets Alone sharing oneAfterOther ∧ ∃ s,
      (exitMachine (Fin 2) (Fin 2) (Fin 2)).run sharing oneAfterOther = some s ∧
      s.pc 0 = .zombie ∧ ReleasedOnce sharing s := by
  have halone : (exitMachine (Fin 2) (Fin 2) (Fin 2)).Meets Alone sharing oneAfterOther := by
    decide +kernel
  have hend : ((exitMachine (Fin 2) (Fin 2) (Fin 2)).run sharing oneAfterOther).map (·.pc 0) =
      some .zombie := by decide +kernel
  obtain ⟨s, hs, hpc⟩ := Option.map_eq_some_iff.mp hend
  exact ⟨halone, s, hs, hpc, released_once sharing_alive oneAfterOther halone s hs⟩

/-- Thread 1 finds descriptor 0 open after thread 0 has dropped its reference. -/
def bothClose : List (Act (Fin 2)) :=
  [.exit 0, .next 0, .next 0, .next 0, .exit 1, .next 1, .next 1, .next 1]

/-- The reference is dropped twice, and with it the one that the other process still uses. -/
theorem bothClose_dropTwice : Alive sharing ∧ ∃ s,
    (exitMachine (Fin 2) (Fin 2) (Fin 2)).run sharing bothClose = some s ∧
      s.drops 0 = 2 ∧ (s.file 0).ref = 0 ∧ ¬ ReleasedOnce sharing s := by
  have hend : ((exitMachine (Fin 2) (Fin 2) (Fin 2)).run sharing bothClose).map
      (fun s => (s.drops 0, (s.file 0).ref)) = some (2, 0) := by decide +kernel
  obtain ⟨s, hs, hdata⟩ := Option.map_eq_some_iff.mp hend
  obtain ⟨hdrops, href⟩ := Prod.mk.inj hdata
  refine ⟨sharing_alive, s, hs, hdrops, href, fun hreleased => ?_⟩
  have hle := hreleased.file_once 0
  omega

end Xv6.Exit
