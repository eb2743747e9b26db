import Xv6.Signal.Equiv.Handling
import Xv6.Signal.Trap

/-!
# What a handler leaves behind

From the return to user space that delivers a signal to the return from `sigret` of its handler:
`handler_transparent_iff`.  `syscall` stores the result of `sys_sigret` over the restored `a0`.
-/

namespace Xv6.Signal

open Lib Option

variable {code : SigretCode} {hart : Hart} {i : Fin nproc} {j : Fin nthread} {k k' : Kernel}

/-! ### Trapframe updates -/

@[simp] theorem setTrapframe_trapframe (k : Kernel) (i : Fin nproc) (j : Fin nthread)
    (tf : Trapframe) : (k.setTrapframe i j tf).trapframe i j = tf := by
  simp [Kernel.trapframe, Kernel.setTrapframe]

/-- The parts of the state that decide which signals a pass delivers, the mask apart. -/
structure SameSignals (i : Fin nproc) (k k' : Kernel) : Prop where
  pid : ∀ l, (k'.proc l).pid = (k.proc l).pid
  handlers : (k'.proc i).signalHandlers = (k.proc i).signalHandlers
  pending : (k'.proc i).pendingSignals = (k.proc i).pendingSignals
  stopped : (k'.proc i).stopped = (k.proc i).stopped

/-- What a handler that is running cannot change. -/
structure Held (i : Fin nproc) (j : Fin nthread) (k k' : Kernel) : Prop where
  ignore : (k'.proc i).ignoreSignals = (k.proc i).ignoreSignals
  maskBackup : (k'.proc i).signalMaskBackup = (k.proc i).signalMaskBackup
  backup : ((k'.proc i).threads j).userTrapFrameBackup = ((k.proc i).threads j).userTrapFrameBackup

namespace SameSignals

variable {k₁ k₂ : Kernel}

theorem trans (h₁ : SameSignals i k k₁) (h₂ : SameSignals i k₁ k₂) : SameSignals i k k₂ where
  pid l := (h₂.pid l).trans (h₁.pid l)
  handlers := h₂.handlers.trans h₁.handlers
  pending := h₂.pending.trans h₁.pending
  stopped := h₂.stopped.trans h₁.stopped

theorem setProc {p : Proc} (hpid : p.pid = (k.proc i).pid)
    (hhandlers : p.signalHandlers = (k.proc i).signalHandlers)
    (hpending : p.pendingSignals = (k.proc i).pendingSignals)
    (hstopped : p.stopped = (k.proc i).stopped) : SameSignals i k (k.setProc i p) := by
  refine ⟨fun l => ?_, ?_, ?_, ?_⟩
  · by_cases hl : l = i
    · rw [hl, setProc_proc_self, hpid]
    · rw [setProc_proc_of_ne hl]
  all_goals rwa [setProc_proc_self]

theorem setTrapframe (tf : Trapframe) : SameSignals i k (k.setTrapframe i j tf) :=
  .setProc rfl rfl rfl rfl

theorem find (h : SameSignals i k k') : k'.find (k'.proc i).pid = k.find (k.proc i).pid := by
  unfold Kernel.find
  simp only [h.pid]

theorem userDue (h : SameSignals i k k') (m : Sig → BitVec 32) (s : Sig) :
    UserDue k' i m s ↔ UserDue k i m s := by
  unfold UserDue PendingAt Proc.User
  simp only [raisesKill_iff, Proc.Pending, h.pending, h.handlers, h.find]

theorem dueUnder (h : SameSignals i k k') (m : BitVec 32) :
    DueUnder k' i m ↔ DueUnder k i m := by
  unfold DueUnder
  simp only [h.userDue, h.stopped]

end SameSignals

/-! ### The way back to user space -/

theorem usertrapret_eq_some {yields : List Kills} {s : Kernel × UserCpu}
    (h : usertrapret code hart i j yields k = some s) :
    ∃ kd tf, handlingSignals code i j yields k = some kd ∧ s.1 = kd.setTrapframe i j tf ∧
      tf.toRegs = (kd.trapframe i j).toRegs ∧ tf.epc = (kd.trapframe i j).epc := by
  unfold usertrapret at h
  rw [map_eq_some_iff] at h
  obtain ⟨kd, hkd, rfl⟩ := h
  exact ⟨kd, _, hkd, rfl, rfl, rfl⟩

theorem handlingSignals_of_ignore (h : (k.proc i).ignoreSignals = true) (yields : List Kills) :
    handlingSignals code i j yields k = some k := by
  unfold handlingSignals
  rw [if_pos (.inr h)]

/-! ### A pass with no further signals -/

/-- A stopped process that finds a `SIGCONT` consumes it; nothing else changes for the loop. -/
theorem userDue_contSignal (m : Sig → BitVec 32) (s : Sig)
    (hpend : (k.proc i).Pending sigcont) :
    UserDue (flipPending (contSignal k i) i sigcont) i m s ↔ UserDue k i m s ∧ s ≠ sigcont := by
  have hsame : SameContext i 0 k (flipPending (contSignal k i) i sigcont) :=
    sameContext_contSignal.trans (sameContext_flipPending sigcont)
  have hfind : (flipPending (contSignal k i) i sigcont).find (k.proc i).pid =
      k.find (k.proc i).pid := hsame.find _
  have hother : ∀ d, d ≠ sigcont →
      (((flipPending (contSignal k i) i sigcont).proc i).Pending d ↔ (k.proc i).Pending d) := by
    intro d hd
    rw [flipPending_pending hd]
    simp [contSignal, Proc.Pending]
  have hcont : ¬ ((flipPending (contSignal k i) i sigcont).proc i).Pending sigcont := by
    simp only [flipPending, contSignal, setProc_proc_self]
    exact xor_bit_self hpend
  -- `SIGKILL` is raised by signals below it only, so the consumed signal does not matter
  have hraises : ∀ d, RaisesKill (flipPending (contSignal k i) i sigcont) i (m d) d ↔
      RaisesKill k i (m d) d := by
    intro d
    rw [raisesKill_iff, raisesKill_iff]
    refine and_congr_right fun hlt => ?_
    have hd : d ≠ sigcont := by
      rintro rfl
      exact absurd hlt (by decide)
    rw [hother d hd, hsame.handlers, hsame.pid, hfind]
  unfold UserDue PendingAt Proc.User
  simp only [hraises, hsame.handlers]
  by_cases hs : s = sigcont
  · subst hs
    simp [hcont, show sigcont ≠ sigkill by decide]
  · simp [hother s hs, hs]

theorem scanSignals_due (code : SigretCode) (i : Fin nproc) (j : Fin nthread) (k : Kernel) :
    (¬ (∃ s, UserDue k i (maskBefore k i) s) ∧
        (scanSignals code i j k).trapframe i j = k.trapframe i j ∧
        ((scanSignals code i j k).proc i).signalMask = (k.proc i).signalMask ∧
        ((scanSignals code i j k).proc i).ignoreSignals = (k.proc i).ignoreSignals) ∨
      ((∃ s, UserDue k i (maskBefore k i) s) ∧ ∃ c, 0 < c ∧ c ≤ signalsSize ∧
        ((scanSignals code i j k).trapframe i j).sp =
          (k.trapframe i j).sp - BitVec.ofNat 64 c * code.size) := by
  rcases scanSignals_outcome code i j k with
    ⟨-, hnot, hignore, hmask, htf⟩ | ⟨s, -, hfirst, -, -, -, hsp, -, -⟩ |
      ⟨c, hpos, hlt, ⟨s, d, hfirst, -⟩, -, hsp, -⟩
  · exact .inl ⟨fun ⟨s, hs⟩ => hnot s s.isLt hs, htf, hmask, hignore⟩
  · refine .inr ⟨⟨s, hfirst.1⟩, 1, Nat.one_pos, by decide, ?_⟩
    rw [BitVec.one_mul]
    exact hsp
  · exact .inr ⟨⟨s, hfirst.1⟩, c + 1, by omega, hlt, hsp⟩

theorem not_dueUnder_all (k : Kernel) (i : Fin nproc) : ¬ DueUnder k i 0xffffffff := by
  rintro ⟨s, ⟨-, hunblocked, -⟩, -⟩
  have hall : ∀ s : Sig, Blocks 0xffffffff s := by decide
  exact hunblocked (hall s)

/-- A pass during which no signal is sent delivers exactly when a signal is due. -/
theorem handlingSignals_outcome (hactive : (k.proc i).ignoreSignals = false)
    (hpass : handlingSignals code i j [] k = some k') :
    (¬ DueUnder k i (k.proc i).signalMask ∧ k'.trapframe i j = k.trapframe i j ∧
        (k'.proc i).signalMask = (k.proc i).signalMask ∧ (k'.proc i).ignoreSignals = false) ∨
      (DueUnder k i (k.proc i).signalMask ∧ ∃ c, 0 < c ∧ c ≤ signalsSize ∧
        (k'.trapframe i j).sp = (k.trapframe i j).sp - BitVec.ofNat 64 c * code.size) := by
  unfold handlingSignals at hpass
  split_ifs at hpass with hskip
  · cases hpass
    have hmask : (k.proc i).signalMask = 0xffffffff := by
      rcases hskip with hmask | hignore
      · exact hmask
      · rw [hactive] at hignore
        exact absurd hignore (by decide)
    exact .inl ⟨hmask ▸ not_dueUnder_all k i, rfl, rfl, hactive⟩
  rw [map_eq_some_iff] at hpass
  obtain ⟨k₁, hstart, rfl⟩ := hpass
  have hsame : SameContext i j k k₁ := sameContext_checkStopped hstart
  -- the loop starts in `k₁`, where the signals due are those of `DueUnder`
  have hdue : DueUnder k i (k.proc i).signalMask ↔ ∃ s, UserDue k₁ i (maskBefore k₁ i) s := by
    have hmask : maskBefore k₁ i = fun _ => (k.proc i).signalMask := funext fun _ => hsame.mask
    rw [hmask]
    unfold checkStopped at hstart
    split_ifs at hstart with hstop
    · unfold waitCont at hstart
      split_ifs at hstart with hcont
      cases hstart
      have hunblocked : ¬ Blocks (k.proc i).signalMask sigstop := not_not.mpr hstop.2
      simp only [userDue_contSignal _ _ hcont, DueUnder, hstop.1, hunblocked, not_false_eq_true,
        and_true]
    · cases hstart
      refine exists_congr fun s => and_iff_left ?_
      rintro ⟨-, hstopped, hunblocked⟩
      exact hstop ⟨hstopped, not_not.mp hunblocked⟩
  have htf : k₁.trapframe i j = k.trapframe i j := hsame.trapframe
  rw [hdue]
  rcases scanSignals_due code i j k₁ with ⟨hnot, htf', hmask, hignore⟩ | ⟨hs, c, hpos, hle, hsp⟩
  · exact .inl ⟨hnot, htf'.trans htf, hmask.trans hsame.mask,
      (hignore.trans hsame.ignore).trans hactive⟩
  · exact .inr ⟨hs, c, hpos, hle, by rw [hsp, htf]⟩

/-! ### The handler -/

namespace Held

variable {k₁ k₂ : Kernel}

theorem refl (i : Fin nproc) (j : Fin nthread) (k : Kernel) : Held i j k k := ⟨rfl, rfl, rfl⟩

theorem trans (h₁ : Held i j k k₁) (h₂ : Held i j k₁ k₂) : Held i j k k₂ where
  ignore := h₂.ignore.trans h₁.ignore
  maskBackup := h₂.maskBackup.trans h₁.maskBackup
  backup := h₂.backup.trans h₁.backup

theorem setTrapframe (tf : Trapframe) : Held i j k (k.setTrapframe i j tf) := by
  constructor <;> simp [Kernel.setTrapframe, Proc.setThread]

theorem apply (e : Effect) : Held i j k (e.apply i j k) := by
  constructor <;> simp [Effect.apply]

end Held

variable {e : Effect} {sepc : BitVec 64}

theorem held_syscall (h : syscallNum (k.trapframe i j).toRegs ≠ sysSigret) :
    Held i j k (syscall e i j k) := by
  unfold syscall
  dsimp only
  rw [if_neg h]
  split_ifs
  · exact (Held.apply e).trans (.setTrapframe _)
  · exact .setTrapframe _

theorem held_usertrapEcall (hnum : syscallNum (k.trapframe i j).toRegs ≠ sysSigret)
    (h : usertrapEcall e i j sepc k = some k') : Held i j k k' := by
  unfold usertrapEcall at h
  dsimp only at h
  split_ifs at h
  cases h
  refine (Held.setTrapframe _).trans ((Held.setTrapframe _).trans (held_syscall ?_))
  simpa [setEpc] using hnum

theorem held_usertrapTimer (h : usertrapTimer e i j sepc k = some k') : Held i j k k' := by
  unfold usertrapTimer at h
  dsimp only at h
  split_ifs at h
  cases h
  exact (Held.setTrapframe _).trans (.apply e)

theorem held_usertrapret {yields : List Kills} {s : Kernel × UserCpu}
    (hignore : (k.proc i).ignoreSignals = true)
    (h : usertrapret code hart i j yields k = some s) : Held i j k s.1 := by
  obtain ⟨kd, tf, hkd, hs, -, -⟩ := usertrapret_eq_some h
  rw [handlingSignals_of_ignore hignore, Option.some.injEq] at hkd
  rw [hs, ← hkd]
  exact .setTrapframe tf

theorem held_handlerStep {s s' : Kernel × UserCpu} {ev : HandlerEvent}
    (hignore : (s.1.proc i).ignoreSignals = true)
    (h : handlerStep code i j s ev = some s') : Held i j s.1 s'.1 := by
  have hvec : Held i j s.1 (uservec s.1 i j s.2.regs) := .setTrapframe _
  cases ev with
  | user =>
    cases h
    exact ⟨rfl, rfl, rfl⟩
  | timer =>
    obtain ⟨k', hk', hret⟩ := bind_eq_some_iff.mp h
    have htrap := hvec.trans (held_usertrapTimer hk')
    exact htrap.trans (held_usertrapret (htrap.ignore.trans hignore) hret)
  | ecall =>
    simp only [handlerStep] at h
    split_ifs at h with hnum
    obtain ⟨k', hk', hret⟩ := bind_eq_some_iff.mp h
    have hsig : syscallNum ((uservec s.1 i j s.2.regs).trapframe i j).toRegs ≠ sysSigret := by
      simp only [uservec, setTrapframe_trapframe]
      exact fun hh => hnum (.inr (.inr hh))
    have htrap := hvec.trans (held_usertrapEcall hsig hk')
    exact htrap.trans (held_usertrapret (htrap.ignore.trans hignore) hret)

theorem held_handlerRun {evs : List HandlerEvent} {s s' : Kernel × UserCpu}
    (hignore : (s.1.proc i).ignoreSignals = true)
    (h : handlerRun code i j evs s = some s') : Held i j s.1 s'.1 := by
  induction evs generalizing s with
  | nil =>
    obtain rfl := Option.some.inj h
    exact .refl i j s.1
  | cons ev evs ih =>
    obtain ⟨s₁, hs₁, hrun⟩ := bind_eq_some_iff.mp h
    have hstep := held_handlerStep hignore hs₁
    exact hstep.trans (ih (hstep.ignore.trans hignore) hrun)

/-! ### `sigret` -/

theorem sameSignals_sigret : SameSignals i k (sigret k i j) := .setProc rfl rfl rfl rfl

theorem usertrapEcall_sigret (hnum : syscallNum (k.trapframe i j).toRegs = sysSigret)
    (h : usertrapEcall e i j sepc k = some k') :
    k'.trapframe i j = ((k.proc i).threads j).userTrapFrameBackup.setA0 0 ∧
      (k'.proc i).signalMask = (k.proc i).signalMaskBackup ∧
      (k'.proc i).ignoreSignals = false ∧ SameSignals i k k' := by
  unfold usertrapEcall at h
  dsimp only at h
  split_ifs at h
  cases h
  -- the two writes of `epc` keep what `sigret` restores
  generalize hk₁ : setEpc k i j sepc = k₁
  have hheld₁ : Held i j k k₁ := hk₁ ▸ Held.setTrapframe _
  have hsame₁ : SameSignals i k k₁ := hk₁ ▸ SameSignals.setTrapframe _
  have hregs₁ : (k₁.trapframe i j).toRegs = (k.trapframe i j).toRegs := by
    rw [← hk₁, setEpc, setTrapframe_trapframe]
  generalize hk₂ : setEpc k₁ i j ((k₁.trapframe i j).epc + 4) = k₂
  have hheld : Held i j k k₂ := hheld₁.trans (hk₂ ▸ Held.setTrapframe _)
  have hsame : SameSignals i k k₂ := hsame₁.trans (hk₂ ▸ SameSignals.setTrapframe _)
  have hregs : (k₂.trapframe i j).toRegs = (k.trapframe i j).toRegs := by
    rw [← hk₂, setEpc, setTrapframe_trapframe, hregs₁]
  have hcall : syscall e i j k₂ = setA0 (sigret k₂ i j) i j 0 := by
    unfold syscall sysSigretCall
    dsimp only
    rw [hregs, hnum, if_pos (by decide), if_pos rfl]
  rw [hcall]
  refine ⟨?_, ?_, ?_, hsame.trans (sameSignals_sigret.trans (SameSignals.setTrapframe _))⟩
  · rw [← hheld.backup]
    simp [setA0, Kernel.trapframe, Kernel.setTrapframe, sigret]
  · rw [← hheld.maskBackup]
    simp [setA0, Kernel.setTrapframe, sigret, Proc.setThread]
  · simp [setA0, Kernel.setTrapframe, sigret, Proc.setThread]

theorem user_sp {tf tf' : Trapframe} (h : tf.user = tf'.user) : tf.sp = tf'.sp :=
  congrArg (fun u => u.2.sp) h

/-- Storing 0 in `a0` restores a context exactly when its `a0` was 0. -/
theorem user_setA0_zero_iff (tf : Trapframe) : (tf.setA0 0).user = tf.user ↔ tf.a0 = 0 := by
  constructor
  · intro h
    exact (congrArg (fun u => u.2.a0) h).symm
  · intro h
    rw [← h]
    rfl

/-- **Handler transparency**: from the return to user space that delivers a signal, through a
handler and its `sigret`, back to user space, the user registers and the signal mask are as they
were before the delivery, and signals are no longer ignored, exactly when the interrupted `a0` was
0, no second user-handled signal was due when the loop over the signals started (in `k₁`), and none
is due under the saved mask when the handler calls `sigret` (in `s₂`). -/
theorem handler_transparent_iff {yields : List Kills} {hart' : Hart} {e : Effect} {k₁ : Kernel}
    {evs : List HandlerEvent} {s₁ s₂ s₃ : Kernel × UserCpu}
    (hactive : (k.proc i).ignoreSignals = false) (hstart : checkStopped i yields k = some k₁)
    (hdeliver : usertrapret code hart i j yields k = some s₁)
    (hdelivers : (s₁.1.proc i).ignoreSignals = true)
    (hhandler : handlerRun code i j evs s₁ = some s₂)
    (hnum : syscallNum s₂.2.regs = sysSigret)
    (hreturn : ecall code hart' e i j [] s₂ = some s₃) :
    (s₃.1.trapframe i j).user = (k.trapframe i j).user ∧
        (s₃.1.proc i).signalMask = (k.proc i).signalMask ∧
        (s₃.1.proc i).ignoreSignals = false ↔
      (k.trapframe i j).a0 = 0 ∧ ¬ SecondUser k₁ i ∧
        ¬ DueUnder s₂.1 i (s₂.1.proc i).signalMaskBackup := by
  obtain ⟨kd, tf₁, hkd, hs₁, -, -⟩ := usertrapret_eq_some hdeliver
  have hheld₁ : Held i j kd s₁.1 := hs₁ ▸ Held.setTrapframe tf₁
  have hrun : Held i j kd s₂.1 := hheld₁.trans (held_handlerRun hdelivers hhandler)
  have hvec : Held i j s₂.1 (uservec s₂.1 i j s₂.2.regs) := .setTrapframe _
  have hvecSame : SameSignals i s₂.1 (uservec s₂.1 i j s₂.2.regs) := .setTrapframe _
  -- the state after `sigret`, and after the pass on the way back
  obtain ⟨kb, hkb, hret⟩ := bind_eq_some_iff.mp hreturn
  obtain ⟨htf, hmask, hignore, hsame⟩ := usertrapEcall_sigret
    (by rw [uservec, setTrapframe_trapframe]; exact hnum) hkb
  obtain ⟨kc, tf₃, hkc, hs₃, hregs, hepc⟩ := usertrapret_eq_some hret
  have huser : (s₃.1.trapframe i j).user = (kc.trapframe i j).user := by
    rw [hs₃, setTrapframe_trapframe, Trapframe.user, hregs, hepc, Trapframe.user]
  have hmask₃ : (s₃.1.proc i).signalMask = (kc.proc i).signalMask := by
    simp [hs₃, Kernel.setTrapframe, Proc.setThread]
  have hignore₃ : (s₃.1.proc i).ignoreSignals = (kc.proc i).ignoreSignals := by
    simp [hs₃, Kernel.setTrapframe, Proc.setThread]
  rw [hvec.backup, hrun.backup] at htf
  rw [hvec.maskBackup] at hmask
  have hdue : DueUnder kb i (kb.proc i).signalMask ↔
      DueUnder s₂.1 i (s₂.1.proc i).signalMaskBackup := by
    rw [hmask]
    exact (hvecSame.trans hsame).dueUnder _
  have hsaved := handlingSignals_saved hactive hstart hkd (hheld₁.ignore ▸ hdelivers)
  rw [huser, hmask₃, hignore₃, ← hdue]
  rcases handlingSignals_outcome hignore hkc with
    ⟨hnotdue, htfc, hmaskc, hignorec⟩ | ⟨hisdue, c, hpos, hle, hsp⟩
  · rw [htfc, htf, hmaskc, hmask, hrun.maskBackup]
    rw [hmask, hrun.maskBackup] at hnotdue
    rcases hsaved with ⟨hnot, hbackup, hmaskBackup⟩ | ⟨hsecond, c', hpos', hlt', hsp'⟩
    · rw [hmaskBackup] at hnotdue ⊢
      rw [hbackup]
      exact ⟨fun h => ⟨(user_setA0_zero_iff _).mp h.1, hnot, hnotdue⟩,
        fun h => ⟨(user_setA0_zero_iff _).mpr h.1, rfl, hignorec⟩⟩
    · refine iff_of_false ?_ (fun h => h.2.1 hsecond)
      rintro ⟨heq, -⟩
      have hspeq := user_sp heq
      exact sub_size_mul_ne code _ hpos' (hlt'.trans (by decide)) (hsp'.symm.trans hspeq)
  · refine iff_of_false ?_ (fun h => h.2.2 hisdue)
    rintro ⟨heq, -⟩
    -- every delivery, in this pass or a second one in the first, lowers the stack pointer
    have hlow : ∃ c', c' < signalsSize ∧ (kb.trapframe i j).sp =
        (k.trapframe i j).sp - BitVec.ofNat 64 c' * code.size := by
      rcases hsaved with ⟨-, hbackup, -⟩ | ⟨-, c', -, hlt', hsp'⟩
      · refine ⟨0, by decide, ?_⟩
        rw [htf, hbackup, BitVec.zero_mul, BitVec.sub_zero]
        rfl
      · refine ⟨c', hlt', ?_⟩
        rw [htf]
        exact hsp'
    obtain ⟨c', hlt', hsp'⟩ := hlow
    have hsum : (k.trapframe i j).sp - BitVec.ofNat 64 (c' + c) * code.size =
        (k.trapframe i j).sp := by
      rw [BitVec.ofNat_add, BitVec.add_mul, ← sub_sub, ← hsp', ← hsp]
      exact user_sp heq
    have hbound : c' + c < 2 ^ 32 := by
      have : signalsSize = 32 := rfl
      omega
    exact sub_size_mul_ne code _ (by omega) hbound hsum

def hart0 : Hart := ⟨0x8000000000087fff, 0, 0x80002a00⟩

def quietEffect : Effect :=
  let p := (interrupted 0 0).proc 0
  { others := (interrupted 0 0).proc
    siblings := p.threads
    state := .running
    killed := false
    walkaddr := p.walkaddr
    signalMask := 0
    signalHandlers := p.signalHandlers
    maskHandlers := p.maskHandlers
    mem := fun _ => 0
    result := 0 }

/-- A handler that the timer interrupts, and that returns to the code on its stack. -/
def shortHandler : List HandlerEvent :=
  [.timer hart0 quietEffect, .user ⟨0x3fcc, { (default : Regs) with a7 := 24 }⟩ fun _ => 0]

def delivered (a0 : BitVec 64) : Option (Kernel × UserCpu) :=
  usertrapret sigretCode hart0 0 0 [] (interrupted 0b100 a0)

def handled (a0 : BitVec 64) : Option (Kernel × UserCpu) :=
  (delivered a0).bind (handlerRun sigretCode 0 0 shortHandler)

/-- The process is back in user space. -/
def returned (a0 : BitVec 64) : Option (Kernel × UserCpu) :=
  (handled a0).bind (ecall sigretCode hart0 quietEffect 0 0 [])

/-- An interrupted `a0` of 7 comes back as 0. -/
theorem shortHandler_a0 :
    (∃! s, UserDue (interrupted 0b100 7) 0 (maskBefore (interrupted 0b100 7) 0) s) ∧
      (delivered 7).map (fun s => (s.1.proc 0).ignoreSignals) = some true ∧
      (handled 7).map (fun s => syscallNum s.2.regs) = some sysSigret ∧
      ((interrupted 0b100 7).trapframe 0 0).a0 = 7 ∧
      (returned 7).map (fun s => (s.1.trapframe 0 0).a0) = some 0 := by
  refine ⟨⟨2, ?_, ?_⟩, ?_, ?_, rfl, ?_⟩
  · show UserDue (interrupted 0b100 7) 0 (maskBefore (interrupted 0b100 7) 0) 2
    decide +kernel
  · show ∀ s, UserDue (interrupted 0b100 7) 0 (maskBefore (interrupted 0b100 7) 0) s → s = 2
    decide +kernel
  all_goals decide +kernel

/-- An interrupted `a0` of 0 comes back, with everything else. -/
theorem shortHandler_transparent :
    ∃ s₃, returned 0 = some s₃ ∧
      (s₃.1.trapframe 0 0).user = ((interrupted 0b100 0).trapframe 0 0).user ∧
      (s₃.1.proc 0).signalMask = ((interrupted 0b100 0).proc 0).signalMask ∧
      (s₃.1.proc 0).ignoreSignals = false := by
  obtain ⟨s₃, h₃⟩ := isSome_iff_exists.mp (show (returned 0).isSome by decide +kernel)
  obtain ⟨s₂, h₂, hreturn⟩ := bind_eq_some_iff.mp h₃
  obtain ⟨s₁, h₁, hhandler⟩ := bind_eq_some_iff.mp h₂
  have hdelivers : (delivered 0).map (fun s => (s.1.proc 0).ignoreSignals) = some true := by
    decide +kernel
  have hnum : (handled 0).map (fun s => syscallNum s.2.regs) = some sysSigret := by
    decide +kernel
  have hdue : (handled 0).map
      (fun s => decide (DueUnder s.1 0 (s.1.proc 0).signalMaskBackup)) = some false := by
    decide +kernel
  rw [h₁, map_some, Option.some.injEq] at hdelivers
  rw [h₂, map_some, Option.some.injEq] at hnum hdue
  refine ⟨s₃, h₃, (handler_transparent_iff rfl rfl h₁ hdelivers hhandler hnum hreturn).mpr ?_⟩
  exact ⟨rfl, by decide +kernel, of_decide_eq_false hdue⟩

end Xv6.Signal
