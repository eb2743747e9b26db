import Xv6.Signal.Equiv.Kill
import Xv6.Signal.Equiv.Stop
import Xv6.Signal.Pass

/-!
# Default and ignored signals

The loop reads a word that its own actions change: a default action sets the bit of `SIGKILL` and
clears its own. Before the iteration for signal `n` (`Passed`), the other bits are those of the
start without the default actions below `n`; that of `SIGKILL` is set only if it was at the start or
such an action has killed the process, so that acting on it changes nothing more.
-/

namespace Xv6.Signal

open Lib

variable {code : SigretCode} {i : Fin nproc} {j : Fin nthread} {k k₀ k' : Kernel} {s d : Sig}

/-! ### What the actions leave alone -/

/-- Only `killed`, `stopped`, the pending signals and states may have changed. -/
structure Proc.Marked (p p' : Proc) : Prop where
  pid : p'.pid = p.pid
  mask : p'.signalMask = p.signalMask
  handlers : p'.signalHandlers = p.signalHandlers
  maskHandlers : p'.maskHandlers = p.maskHandlers
  trapframe : ∀ j, (p'.threads j).trapframe = (p.threads j).trapframe

namespace Proc.Marked

theorem refl (p : Proc) : p.Marked p := ⟨rfl, rfl, rfl, rfl, fun _ => rfl⟩

theorem trans {p p' p'' : Proc} (h : p.Marked p') (h' : p'.Marked p'') : p.Marked p'' where
  pid := h'.pid.trans h.pid
  mask := h'.mask.trans h.mask
  handlers := h'.handlers.trans h.handlers
  maskHandlers := h'.maskHandlers.trans h.maskHandlers
  trapframe j := (h'.trapframe j).trans (h.trapframe j)

theorem receive (p : Proc) (signum : Nat) : p.Marked (p.receive signum) := by
  obtain ⟨killed, pendingSignals, state, states, h⟩ := p.killed_receive signum
  rw [h]
  exact ⟨rfl, rfl, rfl, rfl, fun _ => rfl⟩

theorem flip (k : Kernel) (i : Fin nproc) (s : Sig) :
    (k.proc i).Marked ((flipPending k i s).proc i) := by
  rw [flipPending, setProc_proc_self]
  exact ⟨rfl, rfl, rfl, rfl, fun _ => rfl⟩

end Proc.Marked

theorem receive_killed (p : Proc) : (p.receive sigkill).killed = true := by
  unfold Proc.receive
  rw [if_pos rfl]

/-- No other slot has the `pid`: `kill` finds the process itself. -/
theorem find_self (h : ∀ l, l ≠ i → (k.proc l).pid ≠ (k.proc i).pid) :
    k.find (k.proc i).pid = some i := by
  unfold Kernel.find
  cases hfind : (List.finRange nproc).find? fun l => (k.proc l).pid = (k.proc i).pid with
  | none =>
    have hno := List.find?_eq_none.mp hfind i (List.mem_finRange i)
    simp at hno
  | some l =>
    have hl := List.find?_some hfind
    by_cases hli : l = i
    · rw [hli]
    · exact absurd (by simpa using hl) (h l hli)

section

variable (h : k.find (k.proc i).pid = some i)

include h

theorem kill_sigkill :
    (kill k (k.proc i).pid sigkill).2 = k.setProc i ((k.proc i).receive sigkill) := by
  unfold kill
  rw [if_neg (by decide), h]
  rfl

theorem defaultAction_eq : defaultAction k i s =
    k.setProc i (if s = sigstop then { k.proc i with stopped := true }
      else if s = sigcont then { k.proc i with stopped := false }
      else (k.proc i).receive sigkill) := by
  unfold defaultAction
  split_ifs
  · rfl
  · rfl
  · exact kill_sigkill h

theorem defaultAction_marked :
    (k.proc i).Marked ((flipPending (defaultAction k i s) i s).proc i) := by
  refine Proc.Marked.trans ?_ (Proc.Marked.flip _ i s)
  rw [defaultAction_eq h, setProc_proc_self]
  split_ifs
  · exact ⟨rfl, rfl, rfl, rfl, fun _ => rfl⟩
  · exact ⟨rfl, rfl, rfl, rfl, fun _ => rfl⟩
  · exact .receive _ _

theorem defaultAction_others {l : Fin nproc} (hl : l ≠ i) :
    (flipPending (defaultAction k i s) i s).proc l = k.proc l := by
  rw [flipPending, setProc_proc_of_ne hl, defaultAction_eq h, setProc_proc_of_ne hl]

theorem defaultAction_killed :
    ((flipPending (defaultAction k i s) i s).proc i).killed = true ↔
      (k.proc i).killed = true ∨ s ≠ sigstop ∧ s ≠ sigcont := by
  rw [flipPending, setProc_proc_self, defaultAction_eq h, setProc_proc_self]
  split_ifs with hstop hcont
  · simp [hstop]
  · simp [hcont]
  · simp [receive_killed, hstop, hcont]

end

/-! ### The loop -/

structure Passed (k₀ : Kernel) (i : Fin nproc) (n : Nat) (k : Kernel) : Prop where
  marked : (k₀.proc i).Marked (k.proc i)
  others : ∀ l, l ≠ i → k.proc l = k₀.proc l
  killed : (k.proc i).killed = true ↔
    (k₀.proc i).killed = true ∨ ∃ d : Sig, d.val < n ∧ (k₀.proc i).KillDue d
  stopped : (k.proc i).stopped =
    if sigcont.val < n ∧ (k₀.proc i).DefaultDue sigcont then false
    else if sigstop.val < n ∧ (k₀.proc i).DefaultDue sigstop then true
    else (k₀.proc i).stopped
  pending : ∀ d : Sig, d ≠ sigkill →
    ((k.proc i).Pending d ↔ (k₀.proc i).Pending d ∧ ¬ (d.val < n ∧ (k₀.proc i).DefaultDue d))
  raised : n ≤ sigkill.val → ((k.proc i).Pending sigkill ↔
    (k₀.proc i).Pending sigkill ∨ ∃ d : Sig, d.val < n ∧ (k₀.proc i).KillDue d)

theorem lt_succ_iff (s : Sig) (P : Sig → Prop) :
    (∃ d : Sig, d.val < s.val + 1 ∧ P d) ↔ (∃ d : Sig, d.val < s.val ∧ P d) ∨ P s := by
  constructor
  · rintro ⟨d, hlt, hd⟩
    rcases Nat.lt_succ_iff_lt_or_eq.mp hlt with hlt | heq
    · exact .inl ⟨d, hlt, hd⟩
    · obtain rfl : d = s := Fin.ext heq
      exact .inr hd
  · rintro (⟨d, hlt, hd⟩ | hs)
    · exact ⟨d, hlt.trans (Nat.lt_succ_self _), hd⟩
    · exact ⟨s, Nat.lt_succ_self _, hs⟩

theorem lt_succ_and_iff (s d : Sig) (P : Prop) :
    (d.val < s.val + 1 ∧ P) ↔ (d.val < s.val ∧ P) ∨ (d = s ∧ P) := by
  rw [Nat.lt_succ_iff_lt_or_eq, or_and_right, Fin.ext_iff]

namespace Passed

theorem init (k₀ : Kernel) (i : Fin nproc) : Passed k₀ i 0 k₀ where
  marked := .refl _
  others _ _ := rfl
  killed := by simp
  stopped := by simp
  pending d _ := by simp
  raised _ := by simp

section

variable (h : Passed k₀ i s k)

include h

theorem find (hpid : ∀ l, l ≠ i → (k₀.proc l).pid ≠ (k₀.proc i).pid) :
    k.find (k.proc i).pid = some i := by
  refine find_self fun l hl => ?_
  rw [h.others l hl, h.marked.pid]
  exact hpid l hl

/-- The signal that the loop comes to is due at the start, or it is a `SIGKILL` that an earlier
default action has raised. -/
theorem due (hpend : (k.proc i).Pending s)
    (hblock : ¬ Blocks (k.proc i).signalMask s) :
    (k₀.proc i).Due s ∨ s = sigkill ∧ ∃ d : Sig, d.val < s.val ∧ (k₀.proc i).KillDue d := by
  rw [h.marked.mask] at hblock
  by_cases hs : s = sigkill
  · subst hs
    rcases (h.raised le_rfl).mp hpend with hp | hd
    · exact .inl ⟨hp, hblock⟩
    · exact .inr ⟨rfl, hd⟩
  · exact .inl ⟨((h.pending s hs).mp hpend).1, hblock⟩

/-- A signal that is due for a default action at the start still is when the loop comes to it. -/
theorem finds (hdue : (k₀.proc i).DefaultDue s) : (k.proc i).DefaultDue s := by
  obtain ⟨⟨hpend, hblock⟩, hdfl⟩ := hdue
  refine ⟨⟨?_, by rwa [h.marked.mask]⟩, by rwa [h.marked.handlers]⟩
  by_cases hs : s = sigkill
  · subst hs
    exact (h.raised le_rfl).mpr (.inl hpend)
  · exact (h.pending s hs).mpr ⟨hpend, fun hlt => lt_irrefl _ hlt.1⟩

theorem skip (hno : ¬ (k.proc i).Pending s ∨
    Blocks (k.proc i).signalMask s ∨ (k.proc i).signalHandlers s = sigIgn) :
    Passed k₀ i (s + 1) k := by
  have hnot : ¬ (k₀.proc i).DefaultDue s := by
    intro hdue
    obtain ⟨⟨hpend, hblock⟩, hdfl⟩ := h.finds hdue
    rcases hno with hno | hno | hno
    · exact hno hpend
    · exact hblock hno
    · exact absurd (hdfl.symm.trans hno) (by decide)
  have hsame : ∀ d : Sig, (d = s ∧ (k₀.proc i).DefaultDue d) ↔ False :=
    fun d => ⟨fun hd => hnot (hd.1 ▸ hd.2), False.elim⟩
  have hkill : ¬ (k₀.proc i).KillDue s := fun hd => hnot hd.1
  refine { h with killed := ?_, stopped := ?_, pending := fun d hd => ?_, raised := fun hn => ?_ }
  · rw [lt_succ_iff, or_iff_left hkill, h.killed]
  · simp only [lt_succ_and_iff, hsame, or_false]
    exact h.stopped
  · rw [lt_succ_and_iff, hsame, or_false]
    exact h.pending d hd
  · rw [lt_succ_iff, or_iff_left hkill]
    exact h.raised (Nat.le_of_succ_le hn)

theorem default (hpid : ∀ l, l ≠ i → (k₀.proc l).pid ≠ (k₀.proc i).pid)
    (hdue : (k.proc i).DefaultDue s) :
    Passed k₀ i (s + 1) (flipPending (defaultAction k i s) i s) := by
  have hfind := h.find hpid
  obtain ⟨⟨hpend, hblock⟩, hdfl⟩ := hdue
  have hdfl₀ : (k₀.proc i).signalHandlers s = sigDfl := by rw [← h.marked.handlers, hdfl]
  -- what acts here is due at the start, or the process is killed already
  have hcase : (k₀.proc i).DefaultDue s ∨ s = sigkill ∧
      ∃ d : Sig, d.val < s.val ∧ (k₀.proc i).KillDue d :=
    (h.due hpend hblock).imp_left fun hd => ⟨hd, hdfl₀⟩
  have hdue₀ : s ≠ sigkill → (k₀.proc i).DefaultDue s :=
    fun hs => hcase.resolve_right fun hraised => hs hraised.1
  refine ⟨h.marked.trans (defaultAction_marked hfind), fun l hl => ?_, ?_, ?_, fun d hd => ?_,
    fun hn => ?_⟩
  · rw [defaultAction_others hfind hl, h.others l hl]
  · rw [defaultAction_killed hfind, h.killed, lt_succ_iff, or_assoc]
    refine or_congr_right ?_
    rcases hcase with hd | ⟨hs, hraised⟩
    · rw [Proc.KillDue, and_iff_right hd]
    · simp only [hraised, true_or]
  · have hkeep : ∀ {d}, s ≠ d → ((d.val < s.val ∧ (k₀.proc i).DefaultDue d ∨
        d = s ∧ (k₀.proc i).DefaultDue d) ↔ d.val < s.val ∧ (k₀.proc i).DefaultDue d) :=
      fun hne => or_iff_left fun hd => hne hd.1.symm
    rw [flipPending_stopped, defaultAction_stopped, h.stopped]
    simp only [lt_succ_and_iff]
    by_cases hstop : s = sigstop
    · subst hstop
      have hlt : ¬ sigcont.val < sigstop.val := by decide
      have hne : sigcont ≠ sigstop := by decide
      simp [hlt, hne, hdue₀ (by decide)]
    · by_cases hcont : s = sigcont
      · subst hcont
        simp [hstop, hdue₀ (by decide)]
      · rw [if_neg hstop, if_neg hcont]
        simp only [hkeep hstop, hkeep hcont]
  · by_cases hds : d = s
    · subst hds
      have hoff : ¬ ((flipPending (defaultAction k i d) i d).proc i).Pending d := by
        have hon : ((defaultAction k i d).proc i).Pending d := defaultAction_pending.mpr (.inl hpend)
        rw [flipPending, setProc_proc_self]
        exact xor_bit_self hon
      simp [hoff, hdue₀ hd]
    · rw [flipPending_pending hds, defaultAction_pending, or_iff_left fun hk => hd hk.1,
        h.pending d hd, lt_succ_and_iff, or_iff_left fun hk => hds hk.1]
  · have hne : sigkill ≠ s := by
      rintro rfl
      exact absurd hn (by decide)
    rw [flipPending_pending hne, defaultAction_pending, h.raised (Nat.le_of_succ_le hn),
      lt_succ_iff, or_assoc]
    refine or_congr_right (or_congr_right ?_)
    simp only [hfind, and_true, true_and]
    rw [Proc.KillDue, and_iff_right (hdue₀ hne.symm)]

end

end Passed

/-- The loop of `handling_signals`, when no signal that it comes to has a user handler. -/
theorem scanSignals_passed (hpid : ∀ l, l ≠ i → (k₀.proc l).pid ≠ (k₀.proc i).pid)
    (hkill : ¬ (k₀.proc i).User sigkill)
    (huser : ∀ d, (k₀.proc i).Due d → ¬ (k₀.proc i).User d) :
    Passed k₀ i signalsSize (scanSignals code i j k₀) := by
  refine foldl_finRange_invariant (P := Passed k₀ i) (.init k₀ i) fun s k h => ?_
  rcases handleSignal_cases code i j k s with ⟨hno, heq⟩ | ⟨hfinds, ⟨hdfl, heq⟩ | ⟨hu, heq⟩⟩
  · rw [heq]
    exact h.skip hno
  · rw [heq]
    exact h.default hpid ⟨hfinds, hdfl⟩
  · rw [Proc.User, h.marked.handlers] at hu
    rcases h.due hfinds.1 hfinds.2 with hd | ⟨rfl, _⟩
    · exact absurd hu (huser s hd)
    · exact absurd hu hkill

theorem Passed.passOk (h : Passed k₀ i signalsSize k) : PassOk k₀ k i where
  killed := by
    rw [h.killed]
    exact or_congr_right (exists_congr fun d => and_iff_right d.isLt)
  stopped := by
    rw [h.stopped]
    simp only [sigcont.isLt, sigstop.isLt, true_and]
  pending d hd := by rw [h.pending d hd, and_iff_right d.isLt]
  mask := h.marked.mask
  handlers := h.marked.handlers
  maskHandlers := h.marked.maskHandlers
  trapframe := h.marked.trapframe
  others := h.others

/-- Outside of handlers, and not stopped, a process goes straight to the loop. -/
theorem Ordinary.handlingSignals (h : Ordinary k i) (yields : List Kills) :
    handlingSignals code i j yields k = some (scanSignals code i j k) := by
  have hskip : ¬ ((k.proc i).signalMask = 0xffffffff ∨ (k.proc i).ignoreSignals = true) := by
    rw [h.ignore]
    exact fun hor => hor.elim h.mask (by decide)
  have hgo : ¬ ((k.proc i).stopped = true ∧ (k.proc i).signalMask &&& bit sigstop = 0) := by
    rw [h.stopped]
    exact fun hand => absurd hand.1 (by decide)
  rw [Signal.handlingSignals, if_neg hskip, checkStopped, if_neg hgo]
  rfl

end Xv6.Signal
