import Xv6.Signal.Equiv.Action
import Xv6.Signal.Equiv.Inherit
import Xv6.Signal.Equiv.Threads
import Xv6.Signal.Ignore

/-!
# Ignored signals

The code leaves an ignored signal pending, so that a later action takes it up (`ignored_acted`),
unless `ignored_discarded` applies.
-/

namespace Xv6.Signal

open Lib Function

variable {code : SigretCode} {i : Fin nproc} {j : Fin nthread} {d : Sig}

/-! ### One line of `handling_signals` -/

structure Moved (i : Fin nproc) (j : Fin nthread) (d : Sig) (s s' : Threads) : Prop where
  handlers : (s'.kernel.proc i).signalHandlers = (s.kernel.proc i).signalHandlers
  others : ∀ u, u ≠ j → s'.pc u = s.pc u
  pending : ¬ Raises i s d (.next j) → s.pc j ≠ .flip d → (s'.Pending i d ↔ s.Pending i d)
  act : s'.pc j = .act d → s.Pending i d
  flip : s'.pc j = .flip d → s.pc j = .act d ∧ (s.kernel.proc i).signalHandlers d ≠ sigIgn

section Moved

variable {s s₁ s' : Threads} {pc : Pc}

theorem Moved.goto (hpc : s₁.pc = s.pc)
    (hhandlers : (s₁.kernel.proc i).signalHandlers = (s.kernel.proc i).signalHandlers)
    (hpending : ¬ Raises i s d (.next j) → s.pc j ≠ .flip d → (s₁.Pending i d ↔ s.Pending i d))
    (hact : pc = .act d → s.Pending i d)
    (hflip : pc = .flip d → s.pc j = .act d ∧ (s.kernel.proc i).signalHandlers d ≠ sigIgn) :
    Moved i j d s (s₁.goto j pc) where
  handlers := hhandlers
  others u hu := (update_of_ne hu ..).trans (congrFun hpc u)
  pending := hpending
  act h := hact ((update_self ..).symm.trans h)
  flip h := hflip ((update_self ..).symm.trans h)

theorem Moved.jump (hact : pc = .act d → s.Pending i d) (hflip : pc ≠ .flip d) :
    Moved i j d s (s.goto j pc) :=
  .goto rfl rfl (fun _ _ => Iff.rfl) hact fun h => absurd h hflip

theorem testNext_ne (sig d : Sig) : Pc.testNext sig ≠ .act d ∧ Pc.testNext sig ≠ .flip d := by
  unfold Pc.testNext
  split_ifs <;> simp

theorem Moved.testNext (sig : Sig) (hpc : s₁.pc = s.pc)
    (hhandlers : (s₁.kernel.proc i).signalHandlers = (s.kernel.proc i).signalHandlers)
    (hpending : ¬ Raises i s d (.next j) → s.pc j ≠ .flip d → (s₁.Pending i d ↔ s.Pending i d)) :
    Moved i j d s (s₁.goto j (.testNext sig)) :=
  .goto hpc hhandlers hpending (fun h => absurd h (testNext_ne sig d).1)
    fun h => absurd h (testNext_ne sig d).2

theorem next_moved (hd : d ≠ sigcont) (h : s.next i code j = some s') : Moved i j d s s' := by
  unfold Threads.next at h
  dsimp only at h
  split at h
  case h_1 => cases h
  case h_2 =>
    split_ifs at h <;> obtain rfl := Option.some.inj h <;> exact .jump (by simp) (by simp)
  case h_3 =>
    split_ifs at h <;> obtain rfl := Option.some.inj h <;> exact .jump (by simp) (by simp)
  case h_4 hpc =>
    split_ifs at h <;> cases h
    · exact .jump (by simp) (by simp)
    · exact ⟨rfl, fun _ _ => rfl, fun _ _ => Iff.rfl, by simp [hpc], by simp [hpc]⟩
  case h_5 =>
    cases h
    refine .goto rfl (sameContext_contSignal (j := 0)).handlers (fun _ _ => ?_) (by simp) (by simp)
    simp [Threads.Pending, Threads.consume, contSignal, Proc.Pending]
  case h_6 =>
    cases h
    exact .goto rfl (sameContext_flipPending (j := 0) sigcont).handlers
      (fun _ _ => flipPending_pending hd) (by simp) (by simp)
  case h_7 sig hpc =>
    split_ifs at h with hdue <;> cases h
    · refine .jump (fun heq => ?_) (by simp)
      obtain rfl := Pc.act.inj heq
      exact hdue.1
    · exact .testNext sig rfl rfl fun _ _ => Iff.rfl
  case h_8 sig hpc =>
    split_ifs at h with hdfl hign <;> cases h
    · refine .goto rfl (sameContext_defaultAction (j := 0) sig).handlers (fun hraise _ => ?_) (by simp)
        fun heq => ?_
      · refine defaultAction_pending.trans (or_iff_left fun hk => hraise ?_)
        exact ⟨hk.1, sig, hpc, hdfl, hk.2.1, hk.2.2.1⟩
      · obtain rfl := Pc.flip.inj heq
        exact ⟨hpc, by rw [hdfl]; decide⟩
    · refine .goto rfl ?_ (fun _ _ => ?_) (by simp) fun heq => ?_
      · simp [Threads.consume, usersignal, Proc.setThread]
      · simp [Threads.Pending, Threads.consume, usersignal, Proc.setThread, Proc.Pending]
      · obtain rfl := Pc.flip.inj heq
        exact ⟨hpc, hign⟩
    · exact .testNext sig rfl rfl fun _ _ => Iff.rfl
  case h_9 sig hpc =>
    have hne : s.pc j ≠ .flip d → d ≠ sig := fun hline heq => hline (heq ▸ hpc)
    split_ifs at h <;> cases h
    · exact .testNext sig rfl (sameContext_flipPending (j := 0) sig).handlers
        fun _ hline => flipPending_pending (hne hline)
    · exact .testNext sig rfl (sameContext_flipPending (j := 0) sig).handlers
        fun _ hline => flipPending_pending (hne hline)

end Moved

/-! ### Runs -/

/-- A signal that was ignored still is, or it is not pending and no thread is about to act on it. -/
def IgnoreInv (i : Fin nproc) (s : Ignoring) : Prop :=
  ∀ d, s.ignored d = true → d ≠ sigcont ∧ ((s.proc i).signalHandlers d = sigIgn ∨
    ¬ (s.proc i).Pending d ∧ ∀ j, s.threads.pc j ≠ .act d ∧ s.threads.pc j ≠ .flip d)

theorem IgnoreInv.discardOk {s : Ignoring} (h : IgnoreInv i s) : DiscardOk i s := by
  intro j sig hacts
  by_contra hne
  obtain ⟨hcont, hcase⟩ := h sig (by simpa using hne)
  unfold Pc.actsOn at hacts
  split at hacts
  case h_1 e hpc =>
    obtain ⟨rfl, hign⟩ := hacts
    rcases hcase with hign' | ⟨-, hpcs⟩
    · exact hign hign'
    · exact (hpcs j).1 hpc
  case h_2 => exact hcont hacts
  case h_3 => exact hacts

section Step

variable {s s' : Ignoring}

theorem IgnoreInv.keep (h : IgnoreInv i s)
    (hignored : ∀ d, s'.ignored d = true → s.ignored d = true)
    (hpc : ∀ j d, s'.threads.pc j = .act d ∨ s'.threads.pc j = .flip d →
      s'.threads.pc j = s.threads.pc j)
    (hhandlers : (s'.proc i).signalHandlers = (s.proc i).signalHandlers)
    (hpending : ∀ d, s'.ignored d = true → ((s'.proc i).Pending d ↔ (s.proc i).Pending d)) :
    IgnoreInv i s' := by
  intro d hd
  obtain ⟨hcont, hcase⟩ := h d (hignored d hd)
  refine ⟨hcont, hcase.imp (fun hign => by rw [hhandlers, hign]) fun hoff => ?_⟩
  refine ⟨fun hp => hoff.1 ((hpending d hd).mp hp), fun j => ⟨fun hj => ?_, fun hj => ?_⟩⟩
  · exact (hoff.2 j).1 ((hpc j d (.inl hj)).symm.trans hj)
  · exact (hoff.2 j).2 ((hpc j d (.inr hj)).symm.trans hj)

theorem IgnoreInv.call (h : IgnoreInv i s) {k : Kernel}
    (hhandlers : (k.proc i).signalHandlers = (s.proc i).signalHandlers)
    (hpending : (k.proc i).pendingSignals = (s.proc i).pendingSignals)
    (hstep : s.call j k = some s') : IgnoreInv i s' := by
  unfold Ignoring.call at hstep
  split_ifs at hstep
  cases hstep
  refine h.keep (fun _ hd => hd) (fun _ _ _ => rfl) hhandlers fun d _ => ?_
  rw [Proc.Pending, Proc.Pending, ← hpending]
  rfl

theorem step_thread {a : ThreadsAct} (hstep : s.step i code (.thread a) = some s') :
    s.threads.step i code a = some s'.threads ∧ ∀ d, s'.ignored d = true →
      ¬ Raises i s.threads d a ∧ (s.ignored d = true ∨ Ignores i s.threads d a) := by
  rw [Ignoring.step] at hstep
  obtain ⟨t, ht, rfl⟩ := Option.map_eq_some_iff.mp hstep
  refine ⟨ht, fun d hd => ?_⟩
  simpa using hd

section

variable (h : IgnoreInv i s)

include h

theorem IgnoreInv.next (hok : Heeds i s (.thread (.next j)))
    (hstep : s.step i code (.thread (.next j)) = some s') : IgnoreInv i s' := by
  obtain ⟨ht, hghost⟩ := step_thread hstep
  intro d hd
  obtain ⟨hraise, hold | hnew⟩ := hghost d hd
  · obtain ⟨hcont, hcase⟩ := h d hold
    have hmoved : Moved i j d s.threads s'.threads := next_moved hcont ht
    refine ⟨hcont, hcase.imp (fun hign => hmoved.handlers ▸ hign) fun hoff => ⟨fun hp => ?_, fun u => ?_⟩⟩
    · exact hoff.1 ((hmoved.pending hraise (hoff.2 j).2).mp hp)
    by_cases hu : u = j
    · subst hu
      exact ⟨fun hact => hoff.1 (hmoved.act hact), fun hflip => (hoff.2 u).1 (hmoved.flip hflip).1⟩
    · have hsame := hmoved.others u hu
      exact ⟨fun hact => (hoff.2 u).1 (hsame.symm.trans hact),
        fun hflip => (hoff.2 u).2 (hsame.symm.trans hflip)⟩
  · have hcont : d ≠ sigcont := by
      rintro rfl
      exact hok hnew
    exact ⟨hcont, .inl ((congrFun (next_moved hcont ht).handlers d).trans hnew.2)⟩

theorem IgnoreInv.thread {a : ThreadsAct} (hok : Heeds i s (.thread a))
    (hstep : s.step i code (.thread a) = some s') : IgnoreInv i s' := by
  obtain ⟨ht, hghost⟩ := step_thread hstep
  cases a with
  | next => exact h.next hok hstep
  | kill pid signum =>
    have ht := Option.some.inj ht
    refine h.keep (fun d hd => (hghost d hd).2.resolve_right id) (fun _ _ _ => by rw [← ht]; rfl) ?_
      fun d hd => ?_
    · rw [Ignoring.proc, ← ht]
      exact (sameContext_kill (j := 0) pid signum).handlers
    · rw [Ignoring.proc, ← ht]
      exact (kill_pending pid signum).trans (or_iff_left (hghost d hd).1)
  | enter =>
    simp only [Threads.step] at ht
    split_ifs at ht
    have ht := Option.some.inj ht
    refine h.keep (fun d hd => (hghost d hd).2.resolve_right id) (fun u d hu => ?_) ?_ fun d _ => ?_
    · rw [← ht] at hu ⊢
      refine update_of_ne ?_ _ _
      rintro rfl
      simp [Threads.goto] at hu
    · rw [Ignoring.proc, ← ht]
      rfl
    · rw [Ignoring.proc, ← ht]
      exact Iff.rfl
  | sigret =>
    simp only [Threads.step] at ht
    split_ifs at ht
    have ht := Option.some.inj ht
    refine h.keep (fun d hd => (hghost d hd).2.resolve_right id) (fun _ _ _ => by rw [← ht]) ?_
      fun d _ => ?_
    · simp [Ignoring.proc, ← ht, sigret, Proc.setThread]
    · simp [Ignoring.proc, ← ht, sigret, Proc.setThread, Proc.Pending]

theorem IgnoreInv.sigaction {signum : Int} {act oldact : Addr}
    (hok : Heeds i s (.sigaction j signum act oldact))
    (hstep : (ignoreMachine code i).step s (.sigaction j signum act oldact) = some s') :
    IgnoreInv i s' := by
  obtain ⟨⟨r, w⟩, hcall, hrest⟩ := Option.bind_eq_some_iff.mp hstep
  obtain ⟨hpending, -⟩ := sigaction_keeps (l := i) rfl hcall
  dsimp only [Ignoring.call] at hrest
  split_ifs at hrest
  cases hrest
  intro d hd
  obtain ⟨hcont, hcase⟩ := h d hd
  have hoff : ¬ (s.proc i).Pending d → ¬ (w.proc i).Pending d := fun hno hp =>
    hno (by rw [Proc.Pending, hpending] at hp; exact hp)
  refine ⟨hcont, ?_⟩
  by_cases hnew : (w.proc i).signalHandlers d = sigIgn
  · exact .inl hnew
  right
  rcases hcase with hign | ⟨hno, hpcs⟩
  · obtain ⟨hno, husers⟩ := hok _ hcall d hign hnew
    refine ⟨hoff hno, fun u => ?_⟩
    have hu : (s.setKernel w.kernel).threads.pc u = .user := husers u
    rw [hu]
    simp
  · exact ⟨hoff hno, hpcs⟩

theorem IgnoreInv.step {a : IgnoreAct} (hok : Heeds i s a)
    (hstep : (ignoreMachine code i).step s a = some s') : IgnoreInv i s' := by
  cases a with
  | thread => exact h.thread hok hstep
  | sigaction => exact h.sigaction hok hstep
  | sigprocmask =>
    exact h.call (by rw [setProc_proc_self]) (by rw [setProc_proc_self]) hstep
  | exec =>
    refine h.call ?_ ?_ hstep
    · rw [exec_proc]
      rfl
    · rw [exec_proc]
      rfl
  | other l p =>
    simp only [ignoreMachine, Ignoring.step] at hstep
    split_ifs at hstep with hl
    cases hstep
    have hproc : (s.setKernel (s.threads.kernel.setProc l p)).proc i = s.proc i :=
      setProc_proc_of_ne (Ne.symm hl) ..
    exact h.keep (fun _ hd => hd) (fun _ _ _ => rfl) (by rw [hproc]) fun d _ => by rw [hproc]

end

end Step

/-- **Ignored signals are discarded** in every run that meets the condition. -/
theorem ignored_discarded (code : SigretCode) (i : Fin nproc) {s s' : Ignoring} {as : List IgnoreAct}
    (hinit : ∀ d, s.ignored d = false) (hmeets : (ignoreMachine code i).Meets (Heeds i) s as)
    (hrun : (ignoreMachine code i).run s as = some s') : DiscardOk i s' := by
  refine IgnoreInv.discardOk (i := i) ?_
  refine (ignoreMachine code i).invariant_of_meets (I := IgnoreInv i)
    (fun s a s' h hok hstep => h.step hok hstep) as s s' (fun d hd => ?_) hmeets hrun
  rw [hinit] at hd
  cases hd

/-- Process 0 with signal 2 pending and ignored. -/
def ignoring : Ignoring where
  threads := threadsStart 0 (oneHandler sigIgn)
  ignored _ := false

def onePass : List IgnoreAct := .thread (.enter 0) :: List.replicate 35 (.thread (.next 0))

/-- Signal 2 is ignored by a pass; then its action becomes `SIG_DFL`, which is at `0x3000`, and the
next pass takes it. -/
theorem ignored_acted : (∀ d, ignoring.ignored d = false) ∧
    ∃ s, (ignoreMachine sigretCode 0).run ignoring (onePass ++ .sigaction 0 2 0x3000 0 ::
      .thread (.enter 0) :: List.replicate 5 (.thread (.next 0))) = some s ∧ ¬ DiscardOk 0 s := by
  refine ⟨fun _ => rfl, ?_⟩
  obtain ⟨s, hrun, hs⟩ : ∃ s, (ignoreMachine sigretCode 0).run ignoring
      (onePass ++ .sigaction 0 2 0x3000 0 :: .thread (.enter 0) ::
        List.replicate 5 (.thread (.next 0))) = some s ∧
      (s.threads.pc 0 = .act 2 ∧ (s.proc 0).signalHandlers 2 ≠ sigIgn ∧ s.ignored 2 = true) :=
    Machine.exists_run _ (by decide +kernel)
  refine ⟨s, hrun, fun hok => ?_⟩
  have hno := hok 0 2 (by rw [hs.1]; exact ⟨rfl, hs.2.1⟩)
  rw [hs.2.2] at hno
  cases hno

/-- Between two passes the ignored action is read to `0x3000`, and registered from there again. -/
theorem onePass_discarded :
    ∃ s, (ignoreMachine sigretCode 0).run ignoring (onePass ++ .sigaction 0 2 0 0x3000 ::
      .sigaction 0 2 0x3000 0 :: onePass) = some s ∧ s.ignored 2 = true ∧ DiscardOk 0 s := by
  obtain ⟨s, hrun, hs⟩ : ∃ s, (ignoreMachine sigretCode 0).run ignoring (onePass ++
      .sigaction 0 2 0 0x3000 :: .sigaction 0 2 0x3000 0 :: onePass) = some s ∧
      s.ignored 2 = true := Machine.exists_run _ (by decide +kernel)
  exact ⟨s, hrun, hs, ignored_discarded sigretCode 0 (fun _ => rfl) (by decide +kernel) hrun⟩

end Xv6.Signal
