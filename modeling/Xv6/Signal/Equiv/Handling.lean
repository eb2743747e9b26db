import Mathlib.Data.BitVec
import Xv6.Lib.Loop
import Xv6.Signal.Due

/-!
# What a pass of `handling_signals` saves

`usersignal` saves the interrupted context in one place for each thread, and the mask in one for the
process. The pass goes on after a delivery, so a second one overwrites what the first has saved
(`handlingSignals_backup_iff`).
-/

namespace Xv6.Signal

open Lib

/-! ### Updates -/

@[simp] theorem setProc_proc_self (k : Kernel) (i : Fin nproc) (p : Proc) :
    (k.setProc i p).proc i = p := Function.update_self ..

theorem setProc_proc_of_ne {i l : Fin nproc} (h : l ≠ i) (k : Kernel) (p : Proc) :
    (k.setProc i p).proc l = k.proc l := Function.update_of_ne h ..

@[simp] theorem setThread_threads_self (p : Proc) (j : Fin nthread) (t : Thread) :
    (p.setThread j t).threads j = t := Function.update_self ..

/-! ### Bits -/

theorem and_bit_ne_zero (x : BitVec 32) (s : Sig) : x &&& bit s ≠ 0 ↔ x.getLsbD s = true := by
  have hs : (s : Nat) < 32 := s.isLt
  have htwo : bit s = BitVec.twoPow 32 s := (BitVec.twoPow_eq 32 s).symm
  have hne : BitVec.twoPow 32 s ≠ 0#32 := by
    intro h
    have hbit := congrArg (fun y => BitVec.getLsbD y s) h
    simp [hs] at hbit
  rw [htwo, BitVec.and_twoPow]
  split_ifs with hx
  · exact iff_of_true hne hx
  · exact iff_of_false (fun h => h rfl) hx

theorem getLsbD_bit (s d : Sig) : (bit s).getLsbD d = decide (s = d) := by
  have hs : (s : Nat) < 32 := s.isLt
  rw [bit, ← BitVec.twoPow_eq, BitVec.getLsbD_twoPow]
  simp [hs, Fin.ext_iff]

theorem or_bit_ne_zero (x : BitVec 32) (a s : Sig) :
    (x ||| bit a) &&& bit s ≠ 0 ↔ x &&& bit s ≠ 0 ∨ s = a := by
  rw [and_bit_ne_zero, and_bit_ne_zero, BitVec.getLsbD_or, getLsbD_bit, Bool.or_eq_true,
    decide_eq_true_iff, eq_comm (a := a)]

theorem xor_bit_ne_zero (x : BitVec 32) {a s : Sig} (h : s ≠ a) :
    (x ^^^ bit a) &&& bit s ≠ 0 ↔ x &&& bit s ≠ 0 := by
  rw [and_bit_ne_zero, and_bit_ne_zero, BitVec.getLsbD_xor, getLsbD_bit, decide_eq_false h.symm,
    Bool.xor_false]

theorem xor_bit_self {x : BitVec 32} {s : Sig} (h : x &&& bit s ≠ 0) :
    ¬ (x ^^^ bit s) &&& bit s ≠ 0 := by
  rw [and_bit_ne_zero] at h
  rw [and_bit_ne_zero, BitVec.getLsbD_xor, getLsbD_bit, h]
  simp

/-! ### What does not touch the context -/

/-- Equal contexts of thread `j`, and all that decides about deliveries except the pending set. -/
structure SameContext (i : Fin nproc) (j : Fin nthread) (k k' : Kernel) : Prop where
  pid : ∀ l, (k'.proc l).pid = (k.proc l).pid
  handlers : (k'.proc i).signalHandlers = (k.proc i).signalHandlers
  maskHandlers : (k'.proc i).maskHandlers = (k.proc i).maskHandlers
  mask : (k'.proc i).signalMask = (k.proc i).signalMask
  maskBackup : (k'.proc i).signalMaskBackup = (k.proc i).signalMaskBackup
  ignore : (k'.proc i).ignoreSignals = (k.proc i).ignoreSignals
  trapframe : ((k'.proc i).threads j).trapframe = ((k.proc i).threads j).trapframe
  backup : ((k'.proc i).threads j).userTrapFrameBackup = ((k.proc i).threads j).userTrapFrameBackup

namespace SameContext

variable {i : Fin nproc} {j : Fin nthread} {k k₁ k₂ : Kernel}

theorem refl (i : Fin nproc) (j : Fin nthread) (k : Kernel) : SameContext i j k k :=
  ⟨fun _ => rfl, rfl, rfl, rfl, rfl, rfl, rfl, rfl⟩

theorem trans (h₁ : SameContext i j k k₁) (h₂ : SameContext i j k₁ k₂) : SameContext i j k k₂ where
  pid l := (h₂.pid l).trans (h₁.pid l)
  handlers := h₂.handlers.trans h₁.handlers
  maskHandlers := h₂.maskHandlers.trans h₁.maskHandlers
  mask := h₂.mask.trans h₁.mask
  maskBackup := h₂.maskBackup.trans h₁.maskBackup
  ignore := h₂.ignore.trans h₁.ignore
  trapframe := h₂.trapframe.trans h₁.trapframe
  backup := h₂.backup.trans h₁.backup

theorem setProc {l : Fin nproc} {p : Proc} (hpid : p.pid = (k.proc l).pid)
    (hhandlers : p.signalHandlers = (k.proc l).signalHandlers)
    (hmaskHandlers : p.maskHandlers = (k.proc l).maskHandlers)
    (hmask : p.signalMask = (k.proc l).signalMask)
    (hmaskBackup : p.signalMaskBackup = (k.proc l).signalMaskBackup)
    (hignore : p.ignoreSignals = (k.proc l).ignoreSignals)
    (htrapframe : (p.threads j).trapframe = ((k.proc l).threads j).trapframe)
    (hbackup : (p.threads j).userTrapFrameBackup = ((k.proc l).threads j).userTrapFrameBackup) :
    SameContext i j k (k.setProc l p) := by
  have hpids : ∀ l', ((k.setProc l p).proc l').pid = (k.proc l').pid := by
    intro l'
    by_cases hl : l' = l
    · rw [hl, setProc_proc_self, hpid]
    · rw [setProc_proc_of_ne hl]
  by_cases hi : i = l
  · subst hi
    constructor
    · exact hpids
    all_goals rwa [setProc_proc_self]
  · constructor
    · exact hpids
    all_goals rw [setProc_proc_of_ne hi]

theorem find (h : SameContext i j k k₁) (pid : Int) : k₁.find pid = k.find pid := by
  unfold Kernel.find
  simp only [h.pid]

end SameContext

variable {code : SigretCode} {i l : Fin nproc} {j : Fin nthread} {k : Kernel}

theorem sameContext_receive (l : Fin nproc) (signum : Nat) :
    SameContext i j k (k.setProc l ((k.proc l).receive signum)) := by
  have hthread : ((((k.proc l).receive signum).threads j).trapframe =
      ((k.proc l).threads j).trapframe) ∧
      (((k.proc l).receive signum).threads j).userTrapFrameBackup
        = ((k.proc l).threads j).userTrapFrameBackup := by
    unfold Proc.receive
    by_cases hkill : signum = sigkill
    · simp only [hkill, if_true]
      split_ifs <;> exact ⟨rfl, rfl⟩
    · simp [hkill]
  refine .setProc ?_ ?_ ?_ ?_ ?_ ?_ hthread.1 hthread.2 <;>
    unfold Proc.receive <;> split_ifs <;> rfl

theorem sameContext_kill (pid signum : Int) : SameContext i j k (kill k pid signum).2 := by
  unfold kill
  split_ifs
  · exact .refl i j k
  · split
    · exact sameContext_receive _ _
    · exact .refl i j k

theorem sameContext_killAll (kills : Kills) : SameContext i j k (killAll k kills) := by
  unfold killAll
  induction kills generalizing k with
  | nil => exact .refl i j k
  | cons c kills ih => exact (sameContext_kill c.1 c.2).trans ih

theorem sameContext_flipPending (sig : Sig) : SameContext i j k (flipPending k l sig) :=
  .setProc rfl rfl rfl rfl rfl rfl rfl rfl

theorem sameContext_contSignal : SameContext i j k (contSignal k l) :=
  .setProc rfl rfl rfl rfl rfl rfl rfl rfl

theorem sameContext_stopSignal : SameContext i j k (stopSignal k l) :=
  .setProc rfl rfl rfl rfl rfl rfl rfl rfl

theorem sameContext_defaultAction (sig : Sig) : SameContext i j k (defaultAction k l sig) := by
  unfold defaultAction
  split_ifs
  · exact sameContext_stopSignal
  · exact sameContext_contSignal
  · exact sameContext_kill _ _

variable {yields : List Kills}

theorem sameContext_waitCont {k' : Kernel} (h : waitCont l yields k = some k') :
    SameContext i j k k' := by
  induction yields generalizing k with
  | nil =>
    unfold waitCont at h
    split_ifs at h
    cases h
    exact sameContext_contSignal.trans (sameContext_flipPending sigcont)
  | cons kills yields ih =>
    unfold waitCont at h
    split_ifs at h
    · cases h
      exact sameContext_contSignal.trans (sameContext_flipPending sigcont)
    · exact (sameContext_killAll kills).trans (ih h)

theorem sameContext_checkStopped {k' : Kernel} (h : checkStopped l yields k = some k') :
    SameContext i j k k' := by
  unfold checkStopped at h
  split_ifs at h
  · exact sameContext_waitCont h
  · cases h
    exact .refl i j k

/-! ### The pending set -/

theorem flipPending_pending {sig d : Sig} (h : d ≠ sig) :
    ((flipPending k i sig).proc i).Pending d ↔ (k.proc i).Pending d := by
  rw [flipPending, setProc_proc_self]
  exact xor_bit_ne_zero _ h

theorem receive_pending (p : Proc) (sig d : Sig) :
    (p.receive sig).Pending d ↔ p.Pending d ∨ d = sig := by
  have hpending : (p.receive sig).pendingSignals = p.pendingSignals ||| bit sig := by
    unfold Proc.receive
    split_ifs <;> rfl
  unfold Proc.Pending
  rw [hpending]
  exact or_bit_ne_zero _ sig d

/-- A default action other than stopping and continuing raises `SIGKILL`, if the pid leads `kill`
to this process. -/
theorem defaultAction_pending {sig d : Sig} :
    ((defaultAction k i sig).proc i).Pending d ↔
      (k.proc i).Pending d ∨
        (d = sigkill ∧ sig ≠ sigstop ∧ sig ≠ sigcont ∧ k.find (k.proc i).pid = some i) := by
  unfold defaultAction
  split_ifs with hstop hcont
  · simp [stopSignal, Proc.Pending, hstop]
  · simp [contSignal, Proc.Pending, hcont]
  unfold kill
  rw [if_neg (by decide)]
  split
  · rename_i l hl
    by_cases hil : i = l
    · subst hil
      show ((k.setProc i ((k.proc i).receive sigkill)).proc i).Pending d ↔ _
      rw [setProc_proc_self, receive_pending]
      simp [hl, hstop, hcont]
    · have hne : k.find (k.proc i).pid ≠ some i := by
        rw [hl]
        exact fun h => hil (Option.some.inj h).symm
      simp [setProc_proc_of_ne hil, hne]
  · rename_i hnone
    simp [hnone]

/-! ### Which signals are due -/

theorem FirstUser.unique {k : Kernel} {i : Fin nproc} {s s' : Sig} (h : FirstUser k i s)
    (h' : FirstUser k i s') : s = s' := by
  rcases lt_trichotomy s s' with hlt | heq | hgt
  · exact absurd h.1 (h'.2 s hlt)
  · exact heq
  · exact absurd h'.1 (h.2 s' hgt)

/-! ### The stack pointer -/

theorem sub_size_mul (sp size : BitVec 64) (c : Nat) :
    sp - BitVec.ofNat 64 c * size - size = sp - BitVec.ofNat 64 (c + 1) * size := by
  rw [BitVec.ofNat_add, BitVec.add_mul, BitVec.one_mul, sub_sub]

/-- Deliveries in one pass never bring the stack pointer back to where it was. -/
theorem sub_size_mul_ne (code : SigretCode) (sp : BitVec 64) {c : Nat} (hpos : 0 < c)
    (hlt : c < 2 ^ 32) : sp - BitVec.ofNat 64 c * code.size ≠ sp := by
  have hprod : c * code.bytes.length < 2 ^ 64 := (Nat.mul_lt_mul'' hlt code.lt).trans_le (by decide)
  have hprod_pos : 0 < c * code.bytes.length := Nat.mul_pos hpos code.pos
  rw [SigretCode.size, BitVec.ofNat_mul_ofNat]
  generalize c * code.bytes.length = n at hprod hprod_pos
  bv_omega

/-! ### The loop -/

/-- Before signal `n`: the mask `m`, and the first pending set, with `SIGKILL` as far as it was
raised. -/
structure Scanned (k₀ : Kernel) (i : Fin nproc) (m : Sig → BitVec 32) (n : Nat) (k : Kernel) :
    Prop where
  pid : ∀ l, (k.proc l).pid = (k₀.proc l).pid
  handlers : (k.proc i).signalHandlers = (k₀.proc i).signalHandlers
  maskHandlers : (k.proc i).maskHandlers = (k₀.proc i).maskHandlers
  mask : ∀ d : Sig, n ≤ d → (k.proc i).signalMask = m d
  pending : ∀ d : Sig, n ≤ d →
    ((k.proc i).Pending d ↔ (k₀.proc i).Pending d ∨
      (d = sigkill ∧ ∃ d' : Sig, (d' : Nat) < n ∧ RaisesKill k₀ i (m d') d'))

/-- What the loop has done before signal `n`, by the number of deliveries. -/
inductive Outcome (code : SigretCode) (k₀ : Kernel) (i : Fin nproc) (j : Fin nthread) (n : Nat)
    (k : Kernel) : Prop where
  | none (scanned : Scanned k₀ i (maskBefore k₀ i) n k)
      (notDue : ∀ d : Sig, (d : Nat) < n → ¬ UserDue k₀ i (maskBefore k₀ i) d)
      (ignore : (k.proc i).ignoreSignals = (k₀.proc i).ignoreSignals)
      (mask : (k.proc i).signalMask = (k₀.proc i).signalMask)
      (trapframe : ((k.proc i).threads j).trapframe = ((k₀.proc i).threads j).trapframe)
  | one (s : Sig) (lt : (s : Nat) < n) (first : FirstUser k₀ i s)
      (scanned : Scanned k₀ i (maskAfter k₀ i s) n k)
      (notDue : ∀ d : Sig, s < d → (d : Nat) < n → ¬ UserDue k₀ i (maskAfter k₀ i s) d)
      (ignore : (k.proc i).ignoreSignals = true)
      (sp : ((k.proc i).threads j).trapframe.sp = ((k₀.proc i).threads j).trapframe.sp - code.size)
      (maskBackup : (k.proc i).signalMaskBackup = (k₀.proc i).signalMask)
      (backup : ((k.proc i).threads j).userTrapFrameBackup = ((k₀.proc i).threads j).trapframe)
  | more (c : Nat) (pos : 0 < c) (lt : c < n) (second : SecondUser k₀ i)
      (ignore : (k.proc i).ignoreSignals = true)
      (sp : ((k.proc i).threads j).trapframe.sp =
        ((k₀.proc i).threads j).trapframe.sp - BitVec.ofNat 64 (c + 1) * code.size)
      (backup : ((k.proc i).threads j).userTrapFrameBackup.sp =
        ((k₀.proc i).threads j).trapframe.sp - BitVec.ofNat 64 c * code.size)

/-- An iteration leaves the state alone, takes a default action or delivers to the user. -/
theorem handleSignal_cases (code : SigretCode) (i : Fin nproc) (j : Fin nthread) (k : Kernel)
    (s : Sig) :
    ((¬ (k.proc i).Pending s ∨ Blocks (k.proc i).signalMask s ∨
        (k.proc i).signalHandlers s = sigIgn) ∧ handleSignal code i j k s = k) ∨
      ((k.proc i).Pending s ∧ ¬ Blocks (k.proc i).signalMask s) ∧
        ((k.proc i).signalHandlers s = sigDfl ∧
            handleSignal code i j k s = flipPending (defaultAction k i s) i s ∨
          (k.proc i).User s ∧
            handleSignal code i j k s = flipPending (usersignal code k i j s) i s) := by
  unfold handleSignal Blocks Proc.Pending Proc.User
  dsimp only
  split_ifs with hdue hdfl hign
  · exact .inr ⟨⟨hdue.1, not_not.mpr hdue.2⟩, .inl ⟨hdfl, rfl⟩⟩
  · exact .inr ⟨⟨hdue.1, not_not.mpr hdue.2⟩, .inr ⟨⟨hdfl, hign⟩, rfl⟩⟩
  · exact .inl ⟨.inr (.inr (not_not.mp hign)), rfl⟩
  · refine .inl ⟨?_, rfl⟩
    by_cases hp : (k.proc i).pendingSignals &&& bit s = 0
    · exact .inl (not_not.mpr hp)
    · exact .inr (.inl fun hm => hdue ⟨hp, hm⟩)

namespace Scanned

variable {k₀ k' : Kernel} {m m' : Sig → BitVec 32} {s : Sig}

section

variable (h : Scanned k₀ i m s k)

include h

theorem pendingAt : (k.proc i).Pending s ↔ PendingAt k₀ i m s := by
  rw [h.pending s le_rfl, PendingAt]
  refine or_congr Iff.rfl (and_congr_right fun hs => exists_congr fun d => ?_)
  exact ⟨fun hd => hd.2, fun hd => ⟨hs ▸ hd.lt, hd⟩⟩

theorem userDue :
    UserDue k₀ i m s ↔
      (k.proc i).Pending s ∧ ¬ Blocks (k.proc i).signalMask s ∧ (k.proc i).User s := by
  rw [UserDue, ← h.pendingAt, h.mask s le_rfl, Proc.User, Proc.User, h.handlers]

theorem succ (hpid : ∀ l, (k'.proc l).pid = (k.proc l).pid)
    (hhandlers : (k'.proc i).signalHandlers = (k.proc i).signalHandlers)
    (hmaskHandlers : (k'.proc i).maskHandlers = (k.proc i).maskHandlers)
    (hm : ∀ d ≤ s, m' d = m d) (hmask : ∀ d, s < d → (k'.proc i).signalMask = m' d)
    (hpending : ∀ d, s < d → ((k'.proc i).Pending d ↔
      (k.proc i).Pending d ∨ (d = sigkill ∧ RaisesKill k₀ i (m s) s))) :
    Scanned k₀ i m' (s + 1) k' where
  pid l := (hpid l).trans (h.pid l)
  handlers := hhandlers.trans h.handlers
  maskHandlers := hmaskHandlers.trans h.maskHandlers
  mask d hd := hmask d (Fin.lt_def.mpr (by omega))
  pending d hd := by
    have hlt : s < d := Fin.lt_def.mpr (by omega)
    rw [hpending d hlt, h.pending d (le_of_lt hlt), or_assoc, ← and_or_left]
    refine or_congr Iff.rfl (and_congr_right fun _ => ⟨?_, ?_⟩)
    · rintro (⟨d', hd', hr⟩ | hr)
      · exact ⟨d', by omega, by rwa [hm d' (Fin.le_def.mpr (by omega))]⟩
      · exact ⟨s, by omega, by rwa [hm s le_rfl]⟩
    · rintro ⟨d', hd', hr⟩
      rw [hm d' (Fin.le_def.mpr (by omega))] at hr
      rcases Nat.lt_succ_iff_lt_or_eq.mp hd' with hlt' | heq
      · exact .inl ⟨d', hlt', hr⟩
      · exact .inr (Fin.ext heq ▸ hr)

theorem skip (hm : ∀ d, s < d → m d = m s)
    (hno : ¬ (k.proc i).Pending s ∨ Blocks (k.proc i).signalMask s ∨
      (k.proc i).signalHandlers s = sigIgn) : Scanned k₀ i m (s + 1) k := by
  refine h.succ (fun _ => rfl) rfl rfl (fun _ _ => rfl) ?_ fun d _ => ?_
  · intro d hd
    rw [h.mask s le_rfl, hm d hd]
  have hnot : ¬ RaisesKill k₀ i (m s) s := by
    intro hr
    rcases hno with hno | hno | hno
    · exact hno (h.pendingAt.mpr (.inl hr.pending))
    · exact hr.unblocked (h.mask s le_rfl ▸ hno)
    · rw [h.handlers, hr.default] at hno
      exact absurd hno (by decide)
  simp [hnot]

theorem default (hm : ∀ d, s < d → m d = m s)
    (hpend : (k.proc i).Pending s) (hunblocked : ¬ Blocks (k.proc i).signalMask s)
    (hdfl : (k.proc i).signalHandlers s = sigDfl) :
    Scanned k₀ i m (s + 1) (flipPending (defaultAction k i s) i s) := by
  have hsame : SameContext i 0 k (flipPending (defaultAction k i s) i s) :=
    (sameContext_defaultAction s).trans (sameContext_flipPending s)
  refine h.succ hsame.pid hsame.handlers hsame.maskHandlers (fun _ _ => rfl) ?_ fun d hd => ?_
  · intro d hd
    rw [hsame.mask, h.mask s le_rfl, hm d hd]
  rw [flipPending_pending hd.ne', defaultAction_pending]
  refine or_congr Iff.rfl (and_congr_right fun hkill => ?_)
  rw [hkill] at hd
  have hfind : k.find (k.proc i).pid = k₀.find (k₀.proc i).pid := by
    rw [h.pid, Kernel.find, Kernel.find]
    simp only [h.pid]
  constructor
  · rintro ⟨-, -, hfound⟩
    -- below `SIGKILL` nothing has been raised yet, so `s` was pending from the start
    have hstart : (k₀.proc i).Pending s := (h.pendingAt.mp hpend).resolve_right fun hr => hd.ne hr.1
    exact ⟨hd, hstart, h.mask s le_rfl ▸ hunblocked, h.handlers ▸ hdfl, hfind ▸ hfound⟩
  · intro hr
    have hstop : s ≠ sigstop := by
      rintro rfl
      exact absurd hd (by decide)
    have hcont : s ≠ sigcont := by
      rintro rfl
      exact absurd hd (by decide)
    exact ⟨hstop, hcont, hfind.trans hr.found⟩

theorem deliver (huser : (k.proc i).User s)
    (hm : ∀ d ≤ s, m' d = m d) (hafter : ∀ d, s < d → m' d = (k₀.proc i).maskHandlers s) :
    Scanned k₀ i m' (s + 1) (flipPending (usersignal code k i j s) i s) := by
  have hproc : ∀ d, s < d →
      (((flipPending (usersignal code k i j s) i s).proc i).Pending d ↔ (k.proc i).Pending d) := by
    intro d hd
    rw [flipPending_pending hd.ne']
    simp [usersignal, Proc.setThread, Proc.Pending]
  refine h.succ (fun l => ?_) ?_ ?_ hm ?_ fun d hd => ?_
  · rw [(sameContext_flipPending (i := i) (j := j) s).pid l]
    by_cases hl : l = i
    · simp [hl, usersignal, Proc.setThread]
    · exact congrArg Proc.pid (setProc_proc_of_ne hl ..)
  · simp [flipPending, usersignal, Proc.setThread]
  · simp [flipPending, usersignal, Proc.setThread]
  · intro d hd
    rw [hafter d hd, ← h.maskHandlers]
    simp [flipPending, usersignal, Proc.setThread]
  · have hnot : ¬ RaisesKill k₀ i (m s) s := fun hr => huser.1 (h.handlers ▸ hr.default)
    simp [hproc d hd, hnot]

end

end Scanned

namespace Outcome

variable {k₀ : Kernel}

theorem init (code : SigretCode) (k₀ : Kernel) (i : Fin nproc) (j : Fin nthread) :
    Outcome code k₀ i j 0 k₀ := by
  refine .none ⟨fun _ => rfl, rfl, rfl, fun _ _ => rfl, fun d _ => ?_⟩ ?_ rfl rfl rfl
  · simp
  · intro d hd
    omega

theorem keep {k' : Kernel} {s : Sig} (h : Outcome code k₀ i j s k) (hsame : SameContext i j k k')
    (hno : ¬ ((k.proc i).Pending s ∧ ¬ Blocks (k.proc i).signalMask s ∧ (k.proc i).User s))
    (hscanned : ∀ m : Sig → BitVec 32, (∀ d, s < d → m d = m s) → Scanned k₀ i m s k →
      Scanned k₀ i m (s + 1) k') : Outcome code k₀ i j (s + 1) k' := by
  cases h with
  | none scanned notDue ignore mask trapframe =>
    refine .none (hscanned _ (fun _ _ => rfl) scanned) (fun d hd => ?_)
      (hsame.ignore.trans ignore) (hsame.mask.trans mask) (hsame.trapframe.trans trapframe)
    rcases Nat.lt_succ_iff_lt_or_eq.mp hd with hlt | heq
    · exact notDue d hlt
    · rw [Fin.ext heq, scanned.userDue]
      exact hno
  | one s₀ lt first scanned notDue ignore sp maskBackup backup =>
    have hm : ∀ d, s < d → maskAfter k₀ i s₀ d = maskAfter k₀ i s₀ s := by
      intro d hd
      have hs : s₀ < s := lt
      rw [maskAfter, maskAfter, if_neg (not_le.mpr (hs.trans hd)), if_neg (not_le.mpr hs)]
    refine .one s₀ (by omega) first (hscanned _ hm scanned) (fun d hd hlt => ?_)
      (hsame.ignore.trans ignore) (hsame.trapframe ▸ sp) (hsame.maskBackup.trans maskBackup)
      (hsame.backup.trans backup)
    rcases Nat.lt_succ_iff_lt_or_eq.mp hlt with hlt | heq
    · exact notDue d hd hlt
    · rw [Fin.ext heq, scanned.userDue]
      exact hno
  | more c pos lt second ignore sp backup =>
    exact .more c pos (by omega) second (hsame.ignore.trans ignore) (hsame.trapframe ▸ sp)
      (hsame.backup ▸ backup)

theorem deliver {s : Sig} (h : Outcome code k₀ i j s k)
    (hdue : (k.proc i).Pending s ∧ ¬ Blocks (k.proc i).signalMask s ∧ (k.proc i).User s) :
    Outcome code k₀ i j (s + 1) (flipPending (usersignal code k i j s) i s) := by
  have hignore : ((flipPending (usersignal code k i j s) i s).proc i).ignoreSignals = true := by
    simp [flipPending, usersignal, Proc.setThread]
  have hsp : (((flipPending (usersignal code k i j s) i s).proc i).threads j).trapframe.sp =
      ((k.proc i).threads j).trapframe.sp - code.size := by
    simp [flipPending, usersignal]
  have hbackup :
      (((flipPending (usersignal code k i j s) i s).proc i).threads j).userTrapFrameBackup
      = ((k.proc i).threads j).trapframe := by
    simp [flipPending, usersignal]
  have hmaskBackup : ((flipPending (usersignal code k i j s) i s).proc i).signalMaskBackup =
      (k.proc i).signalMask := by
    simp [flipPending, usersignal, Proc.setThread]
  cases h with
  | none scanned notDue ignore mask trapframe =>
    have hfirst : FirstUser k₀ i s :=
      ⟨scanned.userDue.mpr hdue, fun d hd => notDue d (Fin.lt_def.mp hd)⟩
    refine .one s (by omega) hfirst (scanned.deliver hdue.2.2 ?_ ?_) ?_ hignore ?_ ?_ ?_
    · intro d hd
      exact if_pos hd
    · intro d hd
      exact if_neg (not_le.mpr hd)
    · intro d hd hlt
      have := Fin.lt_def.mp hd
      omega
    · rw [hsp, trapframe]
    · rw [hmaskBackup, scanned.mask s le_rfl, maskBefore]
    · rw [hbackup, trapframe]
  | one s₀ lt first scanned notDue ignore sp =>
    refine .more 1 Nat.one_pos (by omega) ⟨s₀, s, first, lt, scanned.userDue.mpr hdue⟩ hignore ?_ ?_
    · rw [hsp, sp, ← sub_size_mul, BitVec.one_mul]
    · rw [hbackup, sp, BitVec.one_mul]
  | more c pos lt second ignore sp =>
    refine .more (c + 1) (by omega) (by omega) second hignore ?_ ?_
    · rw [hsp, sp, sub_size_mul]
    · rw [hbackup, sp]

end Outcome

theorem scanSignals_outcome (code : SigretCode) (i : Fin nproc) (j : Fin nthread) (k : Kernel) :
    Outcome code k i j signalsSize (scanSignals code i j k) := by
  refine foldl_finRange_invariant (P := Outcome code k i j) (Outcome.init code k i j) ?_
  intro s k' h
  rcases handleSignal_cases code i j k' s with ⟨hno, heq⟩ | ⟨⟨hpend, hunblocked⟩, hact⟩
  · rw [heq]
    refine h.keep (.refl i j k') ?_ fun m hm hscanned => hscanned.skip hm hno
    rintro ⟨hpend, hunblocked, huser⟩
    rcases hno with hno | hno | hno
    · exact hno hpend
    · exact hunblocked hno
    · exact huser.2 hno
  · rcases hact with ⟨hdfl, heq⟩ | ⟨huser, heq⟩
    · rw [heq]
      refine h.keep ((sameContext_defaultAction s).trans (sameContext_flipPending s)) ?_
        fun m hm hscanned => hscanned.default hm hpend hunblocked hdfl
      exact fun hdue => hdue.2.2.1 hdfl
    · rw [heq]
      exact h.deliver ⟨hpend, hunblocked, huser⟩

/-- After a pass that delivers, either one signal was delivered and the saved context is the
interrupted one, or more were, and the saved stack pointer is below the interrupted one. -/
theorem handlingSignals_saved {k₁ k' : Kernel} (hactive : (k.proc i).ignoreSignals = false)
    (hstart : checkStopped i yields k = some k₁)
    (hpass : handlingSignals code i j yields k = some k')
    (hdelivers : (k'.proc i).ignoreSignals = true) :
    (¬ SecondUser k₁ i ∧
        ((k'.proc i).threads j).userTrapFrameBackup = ((k.proc i).threads j).trapframe ∧
        (k'.proc i).signalMaskBackup = (k.proc i).signalMask) ∨
      (SecondUser k₁ i ∧ ∃ c, 0 < c ∧ c < signalsSize ∧
        ((k'.proc i).threads j).userTrapFrameBackup.sp =
          ((k.proc i).threads j).trapframe.sp - BitVec.ofNat 64 c * code.size) := by
  have hsame : SameContext i j k k₁ := sameContext_checkStopped hstart
  unfold handlingSignals at hpass
  rw [hstart] at hpass
  split_ifs at hpass
  · rw [← Option.some.inj hpass, hactive] at hdelivers
    exact absurd hdelivers (by decide)
  rw [Option.map_some, Option.some.injEq] at hpass
  subst hpass
  rw [← hsame.trapframe, ← hsame.mask]
  rcases scanSignals_outcome code i j k₁ with
    ⟨-, -, hignore, -, -⟩ | ⟨s, -, hfirst, -, hnot, -, -, hmask, hbackup⟩ |
      ⟨c, hpos, hlt, hsecond, -, -, hbackup⟩
  · rw [hignore, hsame.ignore, hactive] at hdelivers
    exact absurd hdelivers (by decide)
  · refine .inl ⟨?_, hbackup, hmask⟩
    rintro ⟨s', d, hfirst', hlt, hdue⟩
    rw [hfirst'.unique hfirst] at hlt hdue
    exact hnot d hlt d.isLt hdue
  · exact .inr ⟨hsecond, c, hpos, hlt, hbackup⟩

/-- **What a pass saves**: after a pass of `handling_signals` that delivers a signal, the thread's
`UserTrapFrameBackup` and the process's `signal_mask_backup` are the trapframe and the mask from
before the pass exactly when no second user-handled signal was due in the state `k₁` in which the
loop over the signals starts. -/
theorem handlingSignals_backup_iff (code : SigretCode) (i : Fin nproc) (j : Fin nthread)
    (yields : List Kills) {k k₁ k' : Kernel} (hactive : (k.proc i).ignoreSignals = false)
    (hstart : checkStopped i yields k = some k₁)
    (hpass : handlingSignals code i j yields k = some k')
    (hdelivers : (k'.proc i).ignoreSignals = true) :
    ((k'.proc i).threads j).userTrapFrameBackup = ((k.proc i).threads j).trapframe ∧
        (k'.proc i).signalMaskBackup = (k.proc i).signalMask ↔
      ¬ SecondUser k₁ i := by
  rcases handlingSignals_saved hactive hstart hpass hdelivers with
    ⟨hnot, hsaved⟩ | ⟨hsecond, c, hpos, hlt, hsp⟩
  · exact iff_of_true hsaved hnot
  · refine iff_of_false ?_ (not_not.mpr hsecond)
    rintro ⟨heq, -⟩
    rw [heq] at hsp
    exact sub_size_mul_ne code _ hpos (hlt.trans (by decide)) hsp.symm

def sigretCode : SigretCode := ⟨[0xe1, 0x48, 0x73, 0, 0, 0], by decide, by decide⟩

/-- Interrupted at `epc = 0x1234` with `sp = 0x3fd0`, no mask, and handlers wherever users may have
one. -/
def interrupted (pending : BitVec 32) (a0 : BitVec 64) : Kernel where
  proc l :=
    { state := if l = 0 then .running else .unused
      killed := false
      pid := if l = 0 then 1 else 0
      threads := fun j =>
        { state := if l = 0 ∧ j = 0 then .running else .unused
          kstack := 0
          trapframe := { (default : Trapframe) with epc := 0x1234, sp := 0x3fd0, a0 := a0 }
          userTrapFrameBackup := default }
      walkaddr := fun va => if va = 0x3000 then 0x87f00000 else 0
      pendingSignals := if l = 0 then pending else 0
      signalMask := 0
      signalHandlers := fun s => if s = sigkill ∨ s = sigstop then sigDfl else 0x100 + s.val
      stopped := false
      signalMaskBackup := 0
      ignoreSignals := false
      maskHandlers := fun _ => 0 }
  mem := fun _ => 0

/-- With signals 2 and 3 pending, the pass saves the context at the entry of the handler of 2. -/
theorem twoPending_backup :
    ((interrupted 0b1100 7).proc 0).ignoreSignals = false ∧
      ∃ k', handlingSignals sigretCode 0 0 [] (interrupted 0b1100 7) = some k' ∧
        (k'.proc 0).ignoreSignals = true ∧
        ((k'.proc 0).threads 0).userTrapFrameBackup ≠
          (((interrupted 0b1100 7).proc 0).threads 0).trapframe := by
  refine ⟨rfl, _, rfl, by decide +kernel, fun h => ?_⟩
  have hepc := congrArg Trapframe.epc h
  revert hepc
  decide +kernel

theorem onePending_backup :
    ∃ k', handlingSignals sigretCode 0 0 [] (interrupted 0b100 7) = some k' ∧
      ((k'.proc 0).threads 0).userTrapFrameBackup =
          (((interrupted 0b100 7).proc 0).threads 0).trapframe ∧
        (k'.proc 0).signalMaskBackup = ((interrupted 0b100 7).proc 0).signalMask := by
  refine ⟨_, rfl, (handlingSignals_backup_iff sigretCode 0 0 [] rfl rfl rfl ?_).mpr ?_⟩
  · decide +kernel
  · decide +kernel

end Xv6.Signal
