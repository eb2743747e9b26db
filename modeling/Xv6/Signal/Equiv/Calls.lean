import Xv6.Signal.Calls
import Xv6.Signal.Equiv.Action
import Xv6.Signal.Equiv.Inherit

/-!
# Passes in every state that the calls reach

`sigaction` refuses `SIGKILL`, and no other call gives a process a handler that neither it nor its
parent had: the handler of `SIGKILL` is `SIG_DFL` in all processes (`killDefault_run`).  So the
default actions of a pass, which raise `SIGKILL`, call no user handler (`handlingSignals_default`).
-/

namespace Xv6.Signal

open Lib Function

variable {code : SigretCode} {k k' : Kernel} {s s' s₀ : Slots} {i : Fin nproc}

/-! ### Passes keep the handlers -/

theorem handlers_usersignal (l : Fin nproc) (j : Fin nthread) (d : Sig) :
    ((usersignal code k l j d).proc i).signalHandlers = (k.proc i).signalHandlers := by
  by_cases hl : i = l
  · subst hl
    simp [usersignal, Proc.setThread]
  · exact (sameContext_usersignal (j := 0) hl j d).handlers

theorem handlers_handleSignal (l : Fin nproc) (j : Fin nthread) (d : Sig) :
    ((handleSignal code l j k d).proc i).signalHandlers = (k.proc i).signalHandlers := by
  rcases handleSignal_cases code l j k d with ⟨-, heq⟩ | ⟨-, ⟨-, heq⟩ | ⟨-, heq⟩⟩
  · rw [heq]
  · rw [heq, (sameContext_flipPending (j := 0) d).handlers,
      (sameContext_defaultAction (j := 0) d).handlers]
  · rw [heq, (sameContext_flipPending (j := 0) d).handlers, handlers_usersignal]

theorem handlers_handlingSignals {l : Fin nproc} {j : Fin nthread} {yields : List Kills}
    (h : handlingSignals code l j yields k = some k') :
    (k'.proc i).signalHandlers = (k.proc i).signalHandlers := by
  unfold handlingSignals at h
  split_ifs at h
  · cases h
    rfl
  obtain ⟨k₁, hstop, rfl⟩ := Option.map_eq_some_iff.mp h
  have h₁ : SameContext i 0 k k₁ := sameContext_checkStopped hstop
  refine foldl_finRange_invariant
    (P := fun _ (k' : Kernel) => (k'.proc i).signalHandlers = (k.proc i).signalHandlers) h₁.handlers ?_
  exact fun d k₂ h₂ => (handlers_handleSignal l j d).trans h₂

/-! ### Runs -/

/-- No process has a handler for `SIGKILL`. -/
def KillDefault (s : Slots) : Prop := ∀ i, (s.kernel.proc i).signalHandlers sigkill = sigDfl

/-- A step that changes the handlers of one process at most, and gives it `SIG_DFL` for
`SIGKILL`. -/
theorem KillDefault.setProc (h : KillDefault s) {l : Fin nproc} {p : Proc}
    (hk : s'.kernel.proc = (s.kernel.setProc l p).proc) (hp : p.signalHandlers sigkill = sigDfl) :
    KillDefault s' := by
  intro i
  rw [hk]
  by_cases hi : i = l
  · subst hi
    rwa [setProc_proc_self]
  · rw [setProc_proc_of_ne hi]
    exact h i

theorem KillDefault.slot (h : KillDefault s) {op : SlotOp} (hstep : slotsMachine.step s op = some s') :
    KillDefault s' := by
  cases op with
  | kill pid signum =>
    cases hstep
    exact fun i => (congrFun (sameContext_kill (j := 0) pid signum).handlers sigkill).trans (h i)
  | fork p j pages =>
    simp only [slotsMachine] at hstep
    split_ifs at hstep
    cases hstep
    unfold Slots.fork
    split
    · exact h
    · split_ifs
      · exact h.setProc rfl (h p)
      · exact h.setProc rfl rfl
  | exit p =>
    simp only [slotsMachine] at hstep
    split_ifs at hstep
    cases hstep
    exact h.setProc rfl (h p)
  | wait p =>
    simp only [slotsMachine] at hstep
    split_ifs at hstep
    obtain ⟨c, -, rfl⟩ := Option.map_eq_some_iff.mp hstep
    exact h.setProc rfl (h c)

theorem KillDefault.step (h : KillDefault s) {a : SignalAct}
    (hstep : (signalMachine code).step s a = some s') : KillDefault s' := by
  cases a with
  | slot op => exact h.slot hstep
  | sigaction i signum act oldact =>
    obtain ⟨⟨r, w⟩, hcall, rfl⟩ := Option.map_eq_some_iff.mp hstep
    intro l
    have hkeep := (sigaction_keeps (l := l) rfl hcall).2 sigkill (.inr (.inr fun hs => hs.kill rfl))
    exact hkeep.trans (h l)
  | sigprocmask i sigmask =>
    cases hstep
    exact h.setProc rfl (h i)
  | exec i j image =>
    cases hstep
    exact h.setProc (l := i) (p := (s.kernel.proc i).exec j image) rfl (h i)
  | pass i j yields =>
    obtain ⟨k', hpass, rfl⟩ := Option.map_eq_some_iff.mp hstep
    exact fun l => (congrFun (handlers_handlingSignals hpass) sigkill).trans (h l)
  | sigret i j =>
    cases hstep
    exact h.setProc rfl (h i)

theorem killDefault_run (h₀ : NoHandlers s₀) {as : List SignalAct}
    (hrun : (signalMachine code).run s₀ as = some s) : KillDefault s :=
  (signalMachine code).invariant_of_run (fun _ _ _ h hstep => h.step hstep) as s₀ s
    (fun i => h₀ i sigkill) hrun

/-- **Default and ignored signals**: the effect of a pass, in every state that the calls reach in
which no signal that is due has a user handler. -/
theorem handlingSignals_default (h₀ : NoHandlers s₀) {as : List SignalAct}
    (hrun : (signalMachine code).run s₀ as = some s) (h : Ordinary s.kernel i)
    (huser : ∀ d, (s.kernel.proc i).Due d → ¬ (s.kernel.proc i).User d) (j : Fin nthread)
    (yields : List Kills) :
    ∃ k', handlingSignals code i j yields s.kernel = some k' ∧ PassOk s.kernel k' i := by
  have hkill : ¬ (s.kernel.proc i).User sigkill := fun hu => hu.1 (killDefault_run h₀ hrun i)
  exact ⟨_, h.handlingSignals yields, (scanSignals_passed h.pid hkill huser).passOk⟩

/-- One process, whose memory holds bytes 1. -/
def oneProcess : Slots where
  kernel :=
    { proc := fun l => { (interrupted 0 7).proc l with signalHandlers := fun _ => sigDfl }
      mem := fun _ => 1 }
  parent _ := none
  nextpid := 2

/-- It registers a handler for signal 2, and is sent signals 1 and `SIGSTOP`. -/
def handlerAndKills : List SignalAct :=
  [.sigaction 0 2 0x3000 0, .slot (.kill 1 1), .slot (.kill 1 17)]

theorem handlerAndKills_passOk :
    ∃ s k', (signalMachine sigretCode).run oneProcess handlerAndKills = some s ∧
      handlingSignals sigretCode 0 0 [] s.kernel = some k' ∧ PassOk s.kernel k' 0 := by
  obtain ⟨s, hrun, hmask, hstopped, hignore, hpid, huser⟩ : ∃ s,
      (signalMachine sigretCode).run oneProcess handlerAndKills = some s ∧
      ((s.kernel.proc 0).signalMask ≠ 0xffffffff ∧ (s.kernel.proc 0).stopped = false ∧
        (s.kernel.proc 0).ignoreSignals = false ∧
        (∀ l, l ≠ 0 → (s.kernel.proc l).pid ≠ (s.kernel.proc 0).pid) ∧
        ∀ d, (s.kernel.proc 0).Due d → ¬ (s.kernel.proc 0).User d) :=
    Machine.exists_run _ (by decide +kernel)
  obtain ⟨k', hpass, hok⟩ := handlingSignals_default (fun _ _ => rfl) hrun
    ⟨hmask, hstopped, hignore, hpid⟩ huser 0 []
  exact ⟨s, k', hrun, hpass, hok⟩

end Xv6.Signal
