import Xv6.Signal.Equiv.Handling
import Xv6.Signal.Stop

/-!
# When a stopped process is let go

The loop follows `front` (`Followed`): it has the mask, the pending signals and the flag that
`front` says before each iteration.
-/

namespace Xv6.Signal

open Lib

variable {code : SigretCode} {i : Fin nproc} {j : Fin nthread} {k k₀ k' : Kernel} {s : Sig}

/-! ### The flag -/

theorem receive_stopped (p : Proc) (signum : Nat) : (p.receive signum).stopped = p.stopped := by
  unfold Proc.receive
  split_ifs <;> rfl

theorem kill_stopped (pid signum : Int) :
    ((kill k pid signum).2.proc i).stopped = (k.proc i).stopped := by
  unfold kill
  split_ifs
  · rfl
  split
  · rename_i l _
    by_cases hl : i = l
    · subst hl
      rw [setProc_proc_self, receive_stopped]
    · rw [setProc_proc_of_ne hl]
  · rfl

theorem defaultAction_stopped :
    ((defaultAction k i s).proc i).stopped =
      if s = sigstop then true else if s = sigcont then false else (k.proc i).stopped := by
  unfold defaultAction
  split_ifs
  · rw [stopSignal, setProc_proc_self]
  · rw [contSignal, setProc_proc_self]
  · exact kill_stopped ..

theorem flipPending_stopped : ((flipPending k i s).proc i).stopped = (k.proc i).stopped := by
  rw [flipPending, setProc_proc_self]

/-! ### The loop -/

def stoppedAt (k : Kernel) (i : Fin nproc) (n : Nat) : Bool :=
  if sigcont.val < n ∧ TakesDefault k i sigcont then false
  else if sigstop.val < n ∧ TakesDefault k i sigstop then true
  else (k.proc i).stopped

theorem stoppedAt_succ_of_not (hstop : s = sigstop → ¬ TakesDefault k i s)
    (hcont : s = sigcont → ¬ TakesDefault k i s) : stoppedAt k i (s + 1) = stoppedAt k i s := by
  have hlt : ∀ d : Sig, (s = d → ¬ TakesDefault k i s) →
      ((d.val < s.val + 1 ∧ TakesDefault k i d) ↔ (d.val < s.val ∧ TakesDefault k i d)) := by
    intro d hd
    refine and_congr_left fun htakes => ⟨fun h => ?_, fun h => h.trans (Nat.lt_succ_self _)⟩
    rcases Nat.lt_succ_iff_lt_or_eq.mp h with h | h
    · exact h
    · obtain rfl : d = s := Fin.ext h
      exact absurd htakes (hd rfl)
  simp only [stoppedAt, hlt sigcont hcont, hlt sigstop hstop]

theorem stoppedAt_succ_of_takes (h : TakesDefault k i s) :
    stoppedAt k i (s + 1) =
      if s = sigstop then true else if s = sigcont then false else stoppedAt k i s := by
  split_ifs with hstop hcont
  · subst hstop
    have hlt : ¬ (sigcont.val < sigstop.val + 1 ∧ TakesDefault k i sigcont) :=
      fun h => absurd h.1 (by decide)
    rw [stoppedAt, if_neg hlt, if_pos ⟨Nat.lt_succ_self _, h⟩]
  · subst hcont
    rw [stoppedAt, if_pos ⟨Nat.lt_succ_self _, h⟩]
  · exact stoppedAt_succ_of_not (fun h => absurd h hstop) fun h => absurd h hcont

/-- A loop that starts in `k₀` is in state `k` before the iteration for signal `n`. -/
structure Followed (k₀ : Kernel) (i : Fin nproc) (n : Nat) (k : Kernel) : Prop where
  pid : ∀ l, (k.proc l).pid = (k₀.proc l).pid
  handlers : (k.proc i).signalHandlers = (k₀.proc i).signalHandlers
  maskHandlers : (k.proc i).maskHandlers = (k₀.proc i).maskHandlers
  mask : (k.proc i).signalMask = (front k₀ i n).mask
  pending : ∀ d : Sig, n ≤ d → ((k.proc i).Pending d ↔
    (k₀.proc i).Pending d ∨ d = sigkill ∧ (front k₀ i n).raised = true)
  stopped : (k.proc i).stopped = stoppedAt k₀ i n

theorem front_succ (k : Kernel) (i : Fin nproc) (s : Sig) :
    front k i (s + 1) = (front k i s).next k i s := by
  rw [front, dif_pos s.isLt]

namespace Followed

theorem init (k₀ : Kernel) (i : Fin nproc) : Followed k₀ i 0 k₀ where
  pid _ := rfl
  handlers := rfl
  maskHandlers := rfl
  mask := rfl
  pending d _ := by simp [front]
  stopped := by simp [stoppedAt]

section

variable (h : Followed k₀ i s k)

include h

theorem finds : (front k₀ i s).Finds k₀ i s ↔
    (k.proc i).Pending s ∧ ¬ Blocks (k.proc i).signalMask s := by
  rw [Front.Finds, h.pending s le_rfl, h.mask]

theorem takesDefault : TakesDefault k₀ i s ↔
    ((k.proc i).Pending s ∧ ¬ Blocks (k.proc i).signalMask s) ∧
      (k.proc i).signalHandlers s = sigDfl := by
  rw [TakesDefault, h.finds, h.handlers]

theorem skip (hno : ¬ (k.proc i).Pending s ∨
    Blocks (k.proc i).signalMask s ∨ (k.proc i).signalHandlers s = sigIgn) :
    Followed k₀ i (s + 1) k := by
  have hnext : front k₀ i (s + 1) = front k₀ i s := by
    rw [front_succ, Front.next]
    split_ifs with hfinds hdfl hign
    · rw [h.finds] at hfinds
      rw [← h.handlers] at hdfl
      rcases hno with hno | hno | hno
      · exact absurd hfinds.1 hno
      · exact absurd hno hfinds.2
      · exact absurd (hdfl.symm.trans hno) (by decide)
    · rw [h.finds] at hfinds
      rw [← h.handlers] at hign
      rcases hno with hno | hno | hno
      · exact absurd hfinds.1 hno
      · exact absurd hno hfinds.2
      · exact absurd hno hign
    · rfl
    · rfl
  have htakes : ¬ TakesDefault k₀ i s := by
    rw [h.takesDefault]
    rintro ⟨⟨hpend, hunblocked⟩, hdfl⟩
    rcases hno with hno | hno | hno
    · exact hno hpend
    · exact hunblocked hno
    · exact absurd (hdfl.symm.trans hno) (by decide)
  exact
    { h with
      mask := by rw [hnext, h.mask]
      pending := fun d hd => by rw [hnext, h.pending d (by omega)]
      stopped := by rw [stoppedAt_succ_of_not (fun _ => htakes) fun _ => htakes, h.stopped] }

theorem default
    (hfinds : (k.proc i).Pending s ∧ ¬ Blocks (k.proc i).signalMask s)
    (hdfl : (k.proc i).signalHandlers s = sigDfl) :
    Followed k₀ i (s + 1) (flipPending (defaultAction k i s) i s) := by
  have hsame : SameContext i 0 k (flipPending (defaultAction k i s) i s) :=
    (sameContext_defaultAction s).trans (sameContext_flipPending s)
  have hfind : k.find (k.proc i).pid = k₀.find (k₀.proc i).pid := by
    rw [h.pid, Kernel.find, Kernel.find]
    simp only [h.pid]
  have hnext : front k₀ i (s + 1) =
      { front k₀ i s with raised := (front k₀ i s).raised || Front.Kills k₀ i s } := by
    rw [front_succ, Front.next, if_pos (h.finds.mpr hfinds), if_pos (h.handlers ▸ hdfl)]
  refine ⟨fun l => (hsame.pid l).trans (h.pid l), hsame.handlers.trans h.handlers,
    hsame.maskHandlers.trans h.maskHandlers, ?_, fun d hd => ?_, ?_⟩
  · rw [hsame.mask, h.mask, hnext]
  · have hne : d ≠ s := by
      rintro rfl
      omega
    rw [flipPending_pending hne, defaultAction_pending, h.pending d (by omega), hnext, hfind]
    rw [Bool.or_eq_true, decide_eq_true_eq, and_or_left, or_assoc, Front.Kills]
  · rw [flipPending_stopped, defaultAction_stopped, h.stopped,
      stoppedAt_succ_of_takes (h.takesDefault.mpr ⟨hfinds, hdfl⟩)]

theorem deliver
    (hfinds : (k.proc i).Pending s ∧ ¬ Blocks (k.proc i).signalMask s) (huser : (k.proc i).User s) :
    Followed k₀ i (s + 1) (flipPending (usersignal code k i j s) i s) := by
  have hnext : front k₀ i (s + 1) =
      { front k₀ i s with mask := (k₀.proc i).maskHandlers s } := by
    rw [front_succ, Front.next, if_pos (h.finds.mpr hfinds), if_neg (h.handlers ▸ huser.1),
      if_pos (h.handlers ▸ huser.2)]
  have htakes : ¬ TakesDefault k₀ i s := fun ht => huser.1 (h.takesDefault.mp ht).2
  refine ⟨fun l => ?_, ?_, ?_, ?_, fun d hd => ?_, ?_⟩
  · rw [(sameContext_flipPending (i := i) (j := j) s).pid l, ← h.pid l]
    by_cases hl : l = i
    · simp [hl, usersignal, Proc.setThread]
    · exact congrArg Proc.pid (setProc_proc_of_ne hl ..)
  · rw [← h.handlers]
    simp [flipPending, usersignal, Proc.setThread]
  · rw [← h.maskHandlers]
    simp [flipPending, usersignal, Proc.setThread]
  · rw [hnext, ← h.maskHandlers]
    simp [flipPending, usersignal, Proc.setThread]
  · have hne : d ≠ s := by
      rintro rfl
      omega
    rw [flipPending_pending hne, hnext, ← h.pending d (by omega)]
    simp [usersignal, Proc.setThread, Proc.Pending]
  · rw [flipPending_stopped, stoppedAt_succ_of_not (fun _ => htakes) fun _ => htakes, ← h.stopped]
    simp [usersignal, Proc.setThread]

end

end Followed

theorem scanSignals_followed (code : SigretCode) (i : Fin nproc) (j : Fin nthread) (k : Kernel) :
    Followed k i signalsSize (scanSignals code i j k) := by
  refine foldl_finRange_invariant (P := Followed k i) (Followed.init k i) ?_
  intro s k' h
  rcases handleSignal_cases code i j k' s with ⟨hno, heq⟩ | ⟨hfinds, hact⟩
  · rw [heq]
    exact h.skip hno
  · rcases hact with ⟨hdfl, heq⟩ | ⟨huser, heq⟩
    · rw [heq]
      exact h.default hfinds hdfl
    · rw [heq]
      exact h.deliver hfinds huser

theorem scanSignals_holdsStopped (code : SigretCode) (i : Fin nproc) (j : Fin nthread)
    (k : Kernel) :
    (¬ Blocks ((scanSignals code i j k).proc i).signalMask sigstop →
        ((scanSignals code i j k).proc i).stopped = false) ↔ HoldsStopped k i := by
  have h := scanSignals_followed code i j k
  have hcont : sigcont.val < signalsSize := sigcont.isLt
  have hstop : sigstop.val < signalsSize := sigstop.isLt
  rw [h.mask, h.stopped, stoppedAt, HoldsStopped, ← or_iff_not_imp_left]
  refine or_congr Iff.rfl ?_
  simp only [hcont, hstop, true_and]
  split_ifs with htakes hstops
  · exact iff_of_true rfl (.inl htakes)
  · refine iff_of_false (by decide) ?_
    rintro (hc | ⟨-, hs⟩)
    · exact htakes hc
    · exact hs hstops
  · constructor
    · exact fun hflag => .inr ⟨hflag, hstops⟩
    · rintro (hc | ⟨hflag, -⟩)
      · exact absurd hc htakes
      · exact hflag

theorem blocks_all (s : Sig) : Blocks 0xffffffff s := by
  rw [Blocks, and_bit_ne_zero]
  revert s
  decide

/-- **A stopped process executes no user code**, except here: a pass of `handling_signals` that
returns with `SIGSTOP` unblocked leaves `p->stopped` clear exactly when

* in a signal handler, where the pass returns at once, the process is not stopped or `SIGSTOP` is
  blocked;
* elsewhere, the loop over the signals starts in a state with `HoldsStopped`. -/
theorem handlingSignals_stopped_iff (code : SigretCode) (i : Fin nproc) (j : Fin nthread)
    (yields : List Kills) (k : Kernel) :
    (∀ k', handlingSignals code i j yields k = some k' →
        ¬ Blocks (k'.proc i).signalMask sigstop → (k'.proc i).stopped = false) ↔
      ((k.proc i).ignoreSignals = true →
          Blocks (k.proc i).signalMask sigstop ∨ (k.proc i).stopped = false) ∧
        ((k.proc i).ignoreSignals = false → (k.proc i).signalMask ≠ 0xffffffff →
          ∀ k₁, checkStopped i yields k = some k₁ → HoldsStopped k₁ i) := by
  unfold handlingSignals
  split_ifs with hearly
  · simp only [Option.some.injEq, forall_eq']
    rw [← or_iff_not_imp_left]
    cases hignore : (k.proc i).ignoreSignals with
    | true => simp
    | false =>
      have hmask : (k.proc i).signalMask = 0xffffffff := by simpa [hignore] using hearly
      exact iff_of_true (.inl (hmask ▸ blocks_all sigstop)) ⟨nofun, fun _ h => absurd hmask h⟩
  · obtain ⟨hmask, hignore⟩ : (k.proc i).signalMask ≠ 0xffffffff ∧
        (k.proc i).ignoreSignals = false := by simpa using hearly
    rw [hignore]
    constructor
    · intro h
      refine ⟨nofun, fun _ _ k₁ hk₁ => ?_⟩
      rw [← scanSignals_holdsStopped code i j k₁]
      exact h _ (by rw [hk₁, Option.map_some])
    · rintro ⟨-, h⟩ k' hk'
      obtain ⟨k₁, hk₁, rfl⟩ := Option.map_eq_some_iff.mp hk'
      exact (scanSignals_holdsStopped code i j k₁).mpr (h rfl hmask k₁ hk₁)

/-- With `SIGSTOP` pending, the pass stops the process and returns to user space. -/
theorem sigstop_returns :
    ∃ k', handlingSignals sigretCode 0 0 [] (interrupted (bit sigstop) 7) = some k' ∧
      ¬ Blocks (k'.proc 0).signalMask sigstop ∧ (k'.proc 0).stopped = true := by
  refine ⟨_, rfl, ?_, ?_⟩
  · decide +kernel
  · decide +kernel

end Xv6.Signal
