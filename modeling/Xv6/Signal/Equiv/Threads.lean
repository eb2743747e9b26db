import Xv6.Signal.Equiv.Stop
import Xv6.Signal.Threads

/-!
# Signals consumed once, and by all

A pending bit is tested by one step and flipped by another, without a lock. `Once`: a thread that
owes the update of a signal is the only one, and the signal is pending.
-/

namespace Xv6.Signal

open Lib Function

/-! ### The accounting -/

/-- The signal that a thread has acted upon and not yet turned off. -/
def Pc.acted : Pc → Option Sig
  | .contFlip => some sigcont
  | .flip sig => some sig
  | _ => none

/-- Each thread owes the update of at most one signal; a signal was raised once for each action, and
once more while it is pending and not acted upon. -/
structure Once (pending : Sig → Prop) (owes acted : Fin nthread → Option Sig)
    (raised consumed : Sig → Nat) : Prop where
  owed : ∀ j sig, owes j = some sig → pending sig
  unique : ∀ j u sig, owes j = some sig → owes u = some sig → j = u
  acted_owes : ∀ j sig, acted j = some sig → owes j = some sig
  idle : ∀ sig, (pending sig ∧ ∀ j, acted j ≠ some sig) → raised sig = consumed sig + 1
  busy : ∀ sig, ¬ (pending sig ∧ ∀ j, acted j ≠ some sig) → raised sig = consumed sig

namespace Once

variable {pending pending' : Sig → Prop} {owes acted : Fin nthread → Option Sig}
  {raised raised' consumed : Sig → Nat} {j : Fin nthread} {sig : Sig}

section

variable (h : Once pending owes acted raised consumed)

include h

theorem consumed_le (sig : Sig) :
    consumed sig ≤ raised sig := by
  by_cases hidle : pending sig ∧ ∀ j, acted j ≠ some sig
  · rw [h.idle sig hidle]
    exact Nat.le_succ _
  · rw [h.busy sig hidle]

theorem claim (hpending : pending sig)
    (hnone : ∀ u, u ≠ j → owes u ≠ some sig) (hacted : acted j = none) :
    Once pending (update owes j (some sig)) acted raised consumed where
  owed u d hu := by
    rcases eq_or_ne u j with rfl | hne
    · rw [update_self, Option.some.injEq] at hu
      exact hu ▸ hpending
    · rw [update_of_ne hne] at hu
      exact h.owed u d hu
  unique u v d hu hv := by
    rcases eq_or_ne u j with hju | hune <;> rcases eq_or_ne v j with hjv | hvne
    · rw [hju, hjv]
    · rw [hju, update_self, Option.some.injEq] at hu
      rw [update_of_ne hvne] at hv
      exact absurd (hu ▸ hv) (hnone v hvne)
    · rw [hjv, update_self, Option.some.injEq] at hv
      rw [update_of_ne hune] at hu
      exact absurd (hv ▸ hu) (hnone u hune)
    · rw [update_of_ne hune] at hu
      rw [update_of_ne hvne] at hv
      exact h.unique u v d hu hv
  acted_owes u d hu := by
    have hne : u ≠ j := by
      rintro rfl
      rw [hacted] at hu
      cases hu
    rw [update_of_ne hne]
    exact h.acted_owes u d hu
  idle := h.idle
  busy := h.busy

theorem raise (hmono : ∀ d, pending d → pending' d)
    (hold : ∀ d, pending d → raised' d = raised d)
    (hnew : ∀ d, ¬ pending d → pending' d → raised' d = raised d + 1)
    (hoff : ∀ d, ¬ pending' d → raised' d = raised d) :
    Once pending' owes acted raised' consumed := by
  have hfree : ∀ d, ¬ pending d → ∀ u, acted u ≠ some d :=
    fun d hp u hu => hp (h.owed u d (h.acted_owes u d hu))
  refine ⟨fun u d hu => hmono d (h.owed u d hu), h.unique, h.acted_owes, fun d hd => ?_,
    fun d hd => ?_⟩
  · by_cases hp : pending d
    · rw [hold d hp, h.idle d ⟨hp, hd.2⟩]
    · rw [hnew d hp hd.1, h.busy d fun hidle => hp hidle.1]
  · by_cases hp : pending d
    · rw [hold d hp, h.busy d fun hidle => hd ⟨hmono d hp, hidle.2⟩]
    · rw [hoff d fun hp' => hd ⟨hp', hfree d hp⟩, h.busy d fun hidle => hp hidle.1]

theorem act (howes : owes j = some sig)
    (hacted : acted j = none) :
    Once pending owes (update acted j (some sig)) raised
      (update consumed sig (consumed sig + 1)) := by
  have hother : ∀ u, acted u ≠ some sig := by
    intro u hu
    obtain rfl := h.unique u j sig (h.acted_owes u sig hu) howes
    rw [hacted] at hu
    cases hu
  have hacted' : ∀ d, d ≠ sig → ((∀ u, update acted j (some sig) u ≠ some d) ↔
      ∀ u, acted u ≠ some d) := by
    intro d hd
    refine forall_congr' fun u => ?_
    rcases eq_or_ne u j with rfl | hne
    · rw [update_self, hacted]
      exact iff_of_true (fun heq => hd (Option.some.inj heq).symm) nofun
    · rw [update_of_ne hne]
  refine ⟨h.owed, h.unique, fun u d hu => ?_, fun d hd => ?_, fun d hd => ?_⟩
  · rcases eq_or_ne u j with rfl | hne
    · rw [update_self] at hu
      rw [howes, hu]
    · rw [update_of_ne hne] at hu
      exact h.acted_owes u d hu
  · rcases eq_or_ne d sig with rfl | hne
    · exact absurd (update_self j (some d) acted) (hd.2 j)
    · rw [update_of_ne hne]
      exact h.idle d ⟨hd.1, (hacted' d hne).mp hd.2⟩
  · rcases eq_or_ne d sig with rfl | hne
    · rw [update_self, h.idle d ⟨h.owed j d howes, hother⟩]
    · rw [update_of_ne hne]
      exact h.busy d fun hidle => hd ⟨hidle.1, (hacted' d hne).mpr hidle.2⟩

theorem flip (hacted : acted j = some sig)
    (hsig : ¬ pending' sig) (hsame : ∀ d, d ≠ sig → (pending' d ↔ pending d)) :
    Once pending' (update owes j none) (update acted j none) raised
      consumed := by
  have howes := h.acted_owes j sig hacted
  have hacted' : ∀ d, d ≠ sig → ((∀ u, update acted j none u ≠ some d) ↔
      ∀ u, acted u ≠ some d) := by
    intro d hd
    refine forall_congr' fun u => ?_
    rcases eq_or_ne u j with rfl | hne
    · rw [update_self, hacted]
      exact iff_of_true nofun fun heq => hd (Option.some.inj heq).symm
    · rw [update_of_ne hne]
  have hne_of : ∀ u d, update owes j none u = some d → u ≠ j ∧ owes u = some d := by
    intro u d hu
    rcases eq_or_ne u j with rfl | hne
    · rw [update_self] at hu
      cases hu
    · rw [update_of_ne hne] at hu
      exact ⟨hne, hu⟩
  refine ⟨fun u d hu => ?_, fun u v d hu hv => ?_, fun u d hu => ?_, fun d hd => ?_, fun d hd => ?_⟩
  · obtain ⟨hne, hu⟩ := hne_of u d hu
    have hd : d ≠ sig := by
      rintro rfl
      exact hne (h.unique u j d hu howes)
    exact (hsame d hd).mpr (h.owed u d hu)
  · exact h.unique u v d (hne_of u d hu).2 (hne_of v d hv).2
  · rcases eq_or_ne u j with rfl | hne
    · rw [update_self] at hu
      cases hu
    · rw [update_of_ne hne] at hu ⊢
      exact h.acted_owes u d hu
  · rcases eq_or_ne d sig with rfl | hne
    · exact absurd hd.1 hsig
    · exact h.idle d ⟨(hsame d hne).mp hd.1, (hacted' d hne).mp hd.2⟩
  · rcases eq_or_ne d sig with rfl | hne
    · exact h.busy d fun hidle => hidle.2 j hacted
    · exact h.busy d fun hidle => hd ⟨(hsame d hne).mpr hidle.1, (hacted' d hne).mpr hidle.2⟩

end

end Once

/-! ### What the steps do to the pending signals -/

section Pending

variable {code : SigretCode} {i : Fin nproc} {j : Fin nthread} {k : Kernel} {d sig : Sig}

theorem kill_pending (pid signum : Int) :
    ((kill k pid signum).2.proc i).Pending d ↔
      (k.proc i).Pending d ∨ signum = d.val ∧ k.find pid = some i := by
  unfold kill
  split_ifs with hrange
  · have hne : signum ≠ d.val := by
      have := d.isLt
      omega
    simp [hne]
  obtain ⟨n, rfl⟩ : ∃ n : Sig, signum = n.val := ⟨⟨signum.toNat, by omega⟩, by simp only; omega⟩
  split
  · rename_i l hl
    rw [hl]
    by_cases hi : i = l
    · subst hi
      rw [setProc_proc_self, Int.toNat_natCast, receive_pending]
      simp [Fin.ext_iff, eq_comm]
    · simp [setProc_proc_of_ne hi, Ne.symm hi]
  · rename_i hnone
    simp [hnone]

theorem usersignal_pending :
    ((usersignal code k i j sig).proc i).Pending d ↔ (k.proc i).Pending d := by
  simp [usersignal, Proc.setThread, Proc.Pending]

theorem flipPending_self (h : (k.proc i).Pending sig) :
    ¬ ((flipPending k i sig).proc i).Pending sig := by
  rw [flipPending, setProc_proc_self]
  exact xor_bit_self h

end Pending

namespace Threads

variable {code : SigretCode} {i : Fin nproc} {j : Fin nthread} {s s' : Threads} {a : ThreadsAct}
  {pc : Pc} {d sig : Sig}

/-- The signal whose pending bit a thread is about to clear. -/
def owes (i : Fin nproc) (s : Threads) : Fin nthread → Option Sig :=
  fun j => (s.pc j).owes (s.kernel.proc i)

def acted (s : Threads) : Fin nthread → Option Sig := fun j => (s.pc j).acted

theorem owes_of_pc (h : s.pc j = pc) : s.owes i j = pc.owes (s.kernel.proc i) := by
  rw [owes, h]

theorem acted_of_pc (h : s.pc j = pc) : s.acted j = pc.acted := by
  rw [acted, h]

theorem goto_pc_of_ne {u : Fin nthread} (h : u ≠ j) : (s.goto j pc).pc u = s.pc u :=
  update_of_ne h ..

theorem owes_goto : (s.goto j pc).owes i =
    update (s.owes i) j (pc.owes (s.kernel.proc i)) := by
  ext1 u
  rcases eq_or_ne u j with rfl | hne
  · simp [owes, goto]
  · simp [owes, goto, hne]

theorem acted_goto : (s.goto j pc).acted = update s.acted j pc.acted := by
  ext1 u
  rcases eq_or_ne u j with rfl | hne
  · simp [acted, goto]
  · simp [acted, goto, hne]

theorem owes_testNext (p : Proc) (sig : Sig) : (Pc.testNext sig).owes p = none := by
  unfold Pc.testNext
  split_ifs <;> rfl

theorem acted_testNext (sig : Sig) : (Pc.testNext sig).acted = none := by
  unfold Pc.testNext
  split_ifs <;> rfl

/-- A step makes a signal pending only if it raises it, or if it is the update of a signal that a
thread has acted upon. -/
theorem newly_pending (h : s.step i code a = some s') (hnot : ¬ s.Pending i d)
    (hpend : s'.Pending i d) : Raises i s d a ∨ ∃ j, a = .next j ∧ s.acted j = some d := by
  cases a with
  | kill pid signum =>
    cases h
    exact .inl (((kill_pending pid signum).mp hpend).resolve_left hnot)
  | enter =>
    simp only [step] at h
    split_ifs at h
    cases h
    exact absurd hpend hnot
  | sigret =>
    simp only [step] at h
    split_ifs at h
    cases h
    refine absurd ?_ hnot
    simpa [Pending, sigret, Proc.setThread, Proc.Pending] using hpend
  | next j =>
    simp only [step, next] at h
    -- a flip of another signal leaves `d` alone
    have hflip : ∀ sig, ((flipPending s.kernel i sig).proc i).Pending d → sig = d := by
      intro sig hsig
      by_contra hne
      exact hnot ((flipPending_pending (Ne.symm hne)).mp hsig)
    split at h
    case h_1 => cases h
    case h_5 hpc =>
      cases h
      refine absurd ?_ hnot
      simpa [Pending, contSignal, Threads.goto, consume, Proc.Pending] using hpend
    case h_6 hpc =>
      cases h
      obtain rfl := hflip sigcont hpend
      exact .inr ⟨j, rfl, acted_of_pc hpc⟩
    case h_8 sig hpc =>
      split_ifs at h with hdfl <;> cases h
      · obtain ⟨hkill, hstop, hcont, -⟩ := (defaultAction_pending.mp hpend).resolve_left hnot
        exact .inl ⟨hkill, sig, hpc, hdfl, hstop, hcont⟩
      · exact absurd (usersignal_pending.mp hpend) hnot
      · exact absurd hpend hnot
    case h_9 sig hpc =>
      split_ifs at h
      all_goals
        cases h
        obtain rfl := hflip sig hpend
        exact .inr ⟨j, rfl, acted_of_pc hpc⟩
    all_goals
      split_ifs at h
      all_goals
        cases h
        exact absurd hpend hnot

/-! ### Each step keeps the accounts -/

/-- The invariant under which a signal is acted on once. -/
def OnceInv (i : Fin nproc) (s : Threads) : Prop :=
  Once (s.Pending i) (s.owes i) s.acted s.raised s.consumed

namespace OnceInv

theorem start (i : Fin nproc) (k : Kernel) : OnceInv i (threadsStart i k) where
  owed _ _ h := by cases h
  unique _ _ _ h := by cases h
  acted_owes _ _ h := by cases h
  idle sig h := by
    show (if (k.proc i).Pending sig then 1 else 0) = 0 + 1
    exact if_pos h.1
  busy sig h := by
    show (if (k.proc i).Pending sig then 1 else 0) = 0
    exact if_neg fun hp => h ⟨hp, fun _ => nofun⟩

section

variable (h : OnceInv i s)

include h

/-- A thread goes to a line at which it owes nothing, from one at which it owed nothing. -/
theorem quiet (howes : s.owes i j = none) (hacted : s.acted j = none)
    (hpcOwes : pc.owes (s.kernel.proc i) = none) (hpcActed : pc.acted = none) :
    OnceInv i (s.goto j pc) := by
  have howes' : (s.goto j pc).owes i = s.owes i := by
    rw [owes_goto, hpcOwes, ← howes, update_eq_self]
  have hacted' : (s.goto j pc).acted = s.acted := by
    rw [acted_goto, hpcActed, ← hacted, update_eq_self]
  show Once (s.Pending i) ((s.goto j pc).owes i) (s.goto j pc).acted s.raised s.consumed
  rw [howes', hacted']
  exact h

theorem claim (hpending : s.Pending i sig)
    (hnone : ∀ u, u ≠ j → s.owes i u ≠ some sig) (hacted : s.acted j = none)
    (hpcOwes : pc.owes (s.kernel.proc i) = some sig) (hpcActed : pc.acted = none) :
    OnceInv i (s.goto j pc) := by
  have hacted' : (s.goto j pc).acted = s.acted := by
    rw [acted_goto, hpcActed, ← hacted, update_eq_self]
  show Once (s.Pending i) ((s.goto j pc).owes i) (s.goto j pc).acted s.raised s.consumed
  rw [owes_goto, hpcOwes, hacted']
  exact Once.claim h hpending hnone hacted

theorem kernel {k : Kernel}
    (hpending : ∀ d, (k.proc i).Pending d ↔ s.Pending i d)
    (hhandlers : (k.proc i).signalHandlers = (s.kernel.proc i).signalHandlers) :
    OnceInv i { s with kernel := k } := by
  have hpend : ({ s with kernel := k } : Threads).Pending i = s.Pending i :=
    funext fun d => propext (hpending d)
  have howes : ({ s with kernel := k } : Threads).owes i = s.owes i := by
    ext1 u
    unfold owes Pc.owes
    simp only [hhandlers]
  unfold OnceInv
  rw [hpend, howes]
  exact h

theorem raise {k : Kernel} (hmono : ∀ d, s.Pending i d → (k.proc i).Pending d)
    (hhandlers : (k.proc i).signalHandlers = (s.kernel.proc i).signalHandlers) :
    OnceInv i (s.raise i k) := by
  have howes : (s.raise i k).owes i = s.owes i := by
    ext1 u
    unfold owes Pc.owes
    simp only [Threads.raise, hhandlers]
  unfold OnceInv
  rw [howes]
  refine Once.raise h hmono (fun d hd => ?_) (fun d hd hd' => ?_) fun d hd => ?_
  · exact if_neg fun hnew => hnew.1 hd
  · exact if_pos ⟨hd, hd'⟩
  · exact if_neg fun hnew => hd hnew.2

theorem act (howes : s.owes i j = some sig) (hacted : s.acted j = none)
    (hpcOwes : pc.owes (s.kernel.proc i) = some sig) (hpcActed : pc.acted = some sig) :
    OnceInv i ((s.consume sig).goto j pc) := by
  have howes' : ((s.consume sig).goto j pc).owes i = s.owes i := by
    rw [owes_goto]
    show update (s.owes i) j (pc.owes (s.kernel.proc i)) = s.owes i
    rw [hpcOwes, ← howes, update_eq_self]
  show Once (s.Pending i) (((s.consume sig).goto j pc).owes i) ((s.consume sig).goto j pc).acted
    s.raised (update s.consumed sig (s.consumed sig + 1))
  rw [howes', acted_goto, hpcActed]
  exact Once.act h howes hacted

theorem flip (hacted : s.acted j = some sig)
    (hpcOwes : ∀ p, pc.owes p = none) (hpcActed : pc.acted = none) :
    OnceInv i ((s.flip i sig).goto j pc) := by
  have howes : (s.flip i sig).owes i = s.owes i := by
    ext1 u
    unfold owes Pc.owes
    simp [Threads.flip, flipPending]
  have hpend : s.Pending i sig := h.owed j sig (h.acted_owes j sig hacted)
  show Once ((s.flip i sig).Pending i) (((s.flip i sig).goto j pc).owes i)
    ((s.flip i sig).goto j pc).acted s.raised s.consumed
  rw [owes_goto, acted_goto, hpcOwes, hpcActed, howes]
  exact Once.flip h hacted (flipPending_self hpend) fun d hd => flipPending_pending hd

theorem step (hexcl : Exclusive i s a) (hstep : s.step i code a = some s') :
    OnceInv i s' := by
  cases a with
  | kill pid signum =>
    cases hstep
    exact h.raise (fun d hd => (kill_pending pid signum).mpr (.inl hd))
      (sameContext_kill (j := 0) pid signum).handlers
  | enter =>
    simp only [Threads.step] at hstep
    split_ifs at hstep with hpc
    cases hstep
    exact h.quiet (owes_of_pc hpc) (acted_of_pc hpc) rfl rfl
  | sigret =>
    simp only [Threads.step] at hstep
    split_ifs at hstep
    cases hstep
    refine h.kernel (fun d => ?_) ?_
    · simp [Threads.Pending, sigret, Proc.setThread, Proc.Pending]
    · simp [sigret, Proc.setThread]
  | next j =>
    simp only [Threads.step, Threads.next] at hstep
    split at hstep
    case h_1 => cases hstep
    case h_2 hpc =>
      split_ifs at hstep
      all_goals
        cases hstep
        exact h.quiet (owes_of_pc hpc) (acted_of_pc hpc) rfl rfl
    case h_3 hpc =>
      split_ifs at hstep
      all_goals
        cases hstep
        exact h.quiet (owes_of_pc hpc) (acted_of_pc hpc) rfl rfl
    case h_4 hpc =>
      split_ifs at hstep with hpend <;> cases hstep
      · simp only [Exclusive, hpc] at hexcl
        exact h.claim hpend (hexcl hpend) (acted_of_pc hpc) rfl rfl
      · exact h
    case h_5 hpc =>
      cases hstep
      have hcont : OnceInv i { s with kernel := contSignal s.kernel i } := by
        refine h.kernel (fun d => ?_) ?_
        · simp [Threads.Pending, contSignal, Proc.Pending]
        · simp [contSignal]
      refine hcont.act ?_ (acted_of_pc hpc) rfl rfl
      show (s.pc j).owes _ = some sigcont
      rw [hpc, Pc.owes]
    case h_6 hpc =>
      cases hstep
      exact OnceInv.flip (s := (s.pass j).leave j) h (acted_of_pc hpc) (fun _ => rfl) rfl
    case h_7 sig hpc =>
      split_ifs at hstep with hfinds <;> cases hstep
      · by_cases hign : (s.kernel.proc i).signalHandlers sig = sigIgn
        · refine h.quiet (owes_of_pc hpc) (acted_of_pc hpc) ?_ rfl
          rw [Pc.owes, if_neg (not_not.mpr hign)]
        · simp only [Exclusive, hpc] at hexcl
          refine h.claim hfinds.1 (hexcl hfinds.1 (not_not.mpr hfinds.2) hign) (acted_of_pc hpc) ?_ rfl
          rw [Pc.owes, if_pos hign]
      · exact h.quiet (owes_of_pc hpc) (acted_of_pc hpc) (owes_testNext _ sig) (acted_testNext sig)
    case h_8 sig hpc =>
      split_ifs at hstep with hdfl hign <;> cases hstep
      · have hhandlers := (sameContext_defaultAction (k := s.kernel) (i := i) (l := i) (j := 0) sig).handlers
        have hraise : OnceInv i (s.raise i (defaultAction s.kernel i sig)) :=
          h.raise (fun d hd => defaultAction_pending.mpr (.inl hd)) hhandlers
        refine hraise.act ?_ (acted_of_pc hpc) rfl rfl
        show (s.pc j).owes ((defaultAction s.kernel i sig).proc i) = some sig
        rw [hpc, Pc.owes, hhandlers, if_pos (hdfl ▸ by decide)]
      · have hhandlers : ((usersignal code s.kernel i j sig).proc i).signalHandlers =
            (s.kernel.proc i).signalHandlers := by
          simp [usersignal, Proc.setThread]
        have huser : OnceInv i { s with kernel := usersignal code s.kernel i j sig } :=
          h.kernel (fun d => usersignal_pending) hhandlers
        refine huser.act ?_ (acted_of_pc hpc) rfl rfl
        show (s.pc j).owes ((usersignal code s.kernel i j sig).proc i) = some sig
        rw [hpc, Pc.owes, hhandlers, if_pos hign]
      · refine h.quiet ?_ (acted_of_pc hpc) (owes_testNext _ sig) (acted_testNext sig)
        rw [owes_of_pc hpc, Pc.owes, if_neg hign]
    case h_9 sig hpc =>
      split_ifs at hstep <;> cases hstep
      · exact OnceInv.flip (s := s.pass j) h (acted_of_pc hpc) (fun p => owes_testNext p sig)
          (acted_testNext sig)
      · exact h.flip (acted_of_pc hpc) (fun p => owes_testNext p sig) (acted_testNext sig)

end

end OnceInv

end Threads

open Threads

/-- **Consumption**: in every run of the threads of a process and of `kill` calls in which no thread
passes its test of a signal while another one is between test and update of it, no signal is acted
upon more often than it has become pending, and the next step of the run makes a signal pending only
if it is a `kill`, or a default action that kills. -/
theorem signals_consumed_once (code : SigretCode) (i : Fin nproc) (k : Kernel)
    (as : List ThreadsAct) (s : Threads)
    (hexcl : (threadsMachine code i).Meets (Exclusive i) (threadsStart i k) as)
    (hrun : (threadsMachine code i).run (threadsStart i k) as = some s) :
    (∀ sig, s.consumed sig ≤ s.raised sig) ∧
      ∀ a s', Exclusive i s a → (threadsMachine code i).step s a = some s' →
        ∀ sig, ¬ s.Pending i sig → s'.Pending i sig → Raises i s sig a := by
  have hinv : OnceInv i s :=
    (threadsMachine code i).invariant_of_meets (fun _ _ _ h ha hstep => h.step ha hstep)
      as _ s (OnceInv.start i k) hexcl hrun
  refine ⟨hinv.consumed_le, fun a s' _ hstep sig hnot hpend => ?_⟩
  rcases newly_pending hstep hnot hpend with hraises | ⟨j, -, hacted⟩
  · exact hraises
  · exact absurd (hinv.owed j sig (hinv.acted_owes j sig hacted)) hnot

/-- Thread `j` runs a pass up to its test of signal `n`. -/
def passTo (j : Fin nthread) (n : Nat) : List ThreadsAct :=
  .enter j :: List.replicate (n + 2) (.next j)

def oneStops : List ThreadsAct := passTo 1 3 ++ passTo 0 17 ++ List.replicate 3 (.next 0)

theorem oneStops_consumed :
    (threadsMachine sigretCode 0).Meets (Exclusive 0) (threadsStart 0 (interrupted (bit sigstop) 7))
        oneStops ∧
      ∃ s, (threadsMachine sigretCode 0).run (threadsStart 0 (interrupted (bit sigstop) 7))
          oneStops = some s ∧
        (∀ sig, s.consumed sig ≤ s.raised sig) ∧
        ∀ a s', Exclusive 0 s a → (threadsMachine sigretCode 0).step s a = some s' →
          ∀ sig, ¬ s.Pending 0 sig → s'.Pending 0 sig → Raises 0 s sig a := by
  have hexcl : (threadsMachine sigretCode 0).Meets (Exclusive 0)
      (threadsStart 0 (interrupted (bit sigstop) 7)) oneStops := by decide +kernel
  obtain ⟨s, hs⟩ := Option.isSome_iff_exists.mp (show ((threadsMachine sigretCode 0).run
    (threadsStart 0 (interrupted (bit sigstop) 7)) oneStops).isSome by decide +kernel)
  exact ⟨hexcl, s, hs, signals_consumed_once sigretCode 0 _ oneStops s hexcl hs⟩

def bothStop : List ThreadsAct :=
  passTo 0 17 ++ passTo 1 17 ++ [.next 0, .next 1, .next 0, .next 1, .next 0]

/-- Both take the action, and the second update sets the bit again. -/
theorem bothStop_consumedTwice :
    ∃ s s', (threadsMachine sigretCode 0).run (threadsStart 0 (interrupted (bit sigstop) 7))
        bothStop = some s ∧
      (threadsMachine sigretCode 0).step s (.next 1) = some s' ∧
      s.consumed sigstop = 2 ∧ s.raised sigstop = 1 ∧
      ¬ s.Pending 0 sigstop ∧ s'.Pending 0 sigstop ∧ ¬ Raises 0 s sigstop (.next 1) := by
  refine ⟨_, _, rfl, rfl, ?_⟩
  refine ⟨by decide +kernel, by decide +kernel, by decide +kernel, by decide +kernel, ?_⟩
  exact fun h => absurd h.1 (by decide)

/-! ### Continuing all threads -/

namespace Resumed

variable {code : SigretCode} {i : Fin nproc} {j : Fin nthread} {s s' : Threads} {a : ThreadsAct}
  {pc : Pc}

theorem goto (h : Resumed s) (hcont : s.pc j ≠ .cont) (hflip : s.pc j ≠ .contFlip) :
    Resumed (s.goto j pc) := by
  intro u hu
  have hne : u ≠ j := by
    rintro rfl
    exact (h u hu).elim hcont hflip
  rw [goto_pc_of_ne hne]
  exact h u hu

/-- A thread consumes the `SIGCONT` while no other one has yet to find it. -/
theorem pass (h : Resumed s) (hnone : ∀ u, u ≠ j → s.pc u ≠ .poll) : Resumed (s.pass j) := by
  intro u hu
  rcases Bool.or_eq_true _ _ |>.mp hu with hu | hu
  · exact h u hu
  obtain ⟨hne, hloop⟩ : u ≠ j ∧ (s.pc u).inLoop = true := by simpa using hu
  show s.pc u = .cont ∨ s.pc u = .contFlip
  have hpoll := hnone u hne
  cases hpc : s.pc u with
  | poll => exact absurd hpc hpoll
  | cont => exact .inl rfl
  | contFlip => exact .inr rfl
  | _ =>
    rw [hpc] at hloop
    cases hloop

theorem step (h : Resumed s) (hnone : NoneWaiting i s a) (hstep : s.step i code a = some s') :
    Resumed s' := by
  cases a with
  | kill =>
    cases hstep
    exact h
  | enter =>
    simp only [Threads.step] at hstep
    split_ifs at hstep with hpc
    cases hstep
    exact h.goto (by simp [hpc]) (by simp [hpc])
  | sigret =>
    simp only [Threads.step] at hstep
    split_ifs at hstep
    cases hstep
    exact h
  | next j =>
    simp only [Threads.step, Threads.next] at hstep
    split at hstep
    case h_1 => cases hstep
    case h_4 hpc =>
      split_ifs at hstep <;> cases hstep
      · exact h.goto (by simp [hpc]) (by simp [hpc])
      · exact h
    case h_5 hpc =>
      cases hstep
      intro u hu
      rcases eq_or_ne u j with rfl | hne
      · exact .inr (update_self ..)
      · rw [goto_pc_of_ne hne]
        exact h u hu
    case h_6 hpc =>
      cases hstep
      intro u hu
      -- the thread itself has left the loop
      have hne : u ≠ j := by
        rintro rfl
        simp [Threads.goto, Threads.flip, Threads.leave] at hu
      have hpassed : (s.pass j).passed u = true := by
        rwa [← update_of_ne hne false (s.pass j).passed]
      rw [goto_pc_of_ne hne]
      exact h.pass (hnone (.inl hpc)) u hpassed
    case h_8 hpc =>
      split_ifs at hstep
      all_goals
        cases hstep
        exact Resumed.goto (s := { s with kernel := _, raised := _, consumed := _ }) h (by simp [hpc])
          (by simp [hpc])
    case h_9 sig hpc =>
      split_ifs at hstep with hcont
      · obtain ⟨rfl, hdfl⟩ := hcont
        cases hstep
        exact Resumed.goto (s := (s.pass j).flip i sigcont) (h.pass (hnone (.inr ⟨hpc, hdfl⟩)))
          (by simp [Threads.flip, Threads.pass, hpc]) (by simp [Threads.flip, Threads.pass, hpc])
      · cases hstep
        exact Resumed.goto (s := s.flip i sig) h (by simp [Threads.flip, hpc])
          (by simp [Threads.flip, hpc])
    all_goals
      rename_i hpc
      split_ifs at hstep
      all_goals
        cases hstep
        exact h.goto (by simp [hpc]) (by simp [hpc])

/-- A thread that polls while another one turns the `SIGCONT` off is left in the loop. -/
theorem noneWaiting (hstep : s.step i code a = some s') (h : Resumed s') : NoneWaiting i s a := by
  cases a with
  | kill | enter | sigret => trivial
  | next j =>
    intro hflips u hu hpoll
    -- it is passed by, where it polls
    have hleft : s'.passed u = true ∧ s'.pc u = .poll := by
      have hloop : (s.pass j).passed u = true := by
        simp [Threads.pass, hu, hpoll, Pc.inLoop]
      rcases hflips with hpc | ⟨hpc, hdfl⟩
      · simp only [Threads.step, Threads.next, hpc, Option.some.injEq] at hstep
        have hkeep : ((s.pass j).leave j).passed u = true := by
          show update (s.pass j).passed j false u = true
          rwa [update_of_ne hu]
        rw [← hstep]
        exact ⟨hkeep, (goto_pc_of_ne hu).trans hpoll⟩
      · simp only [Threads.step, Threads.next, hpc, hdfl, and_self, if_true,
          Option.some.injEq] at hstep
        rw [← hstep]
        exact ⟨hloop, (goto_pc_of_ne hu).trans hpoll⟩
    rcases h u hleft.1 with hpc | hpc
    · rw [hleft.2] at hpc
      cases hpc
    · rw [hleft.2] at hpc
      cases hpc

end Resumed

/-- A step that is not possible meets the condition. -/
theorem noneWaiting_of_step_none {code : SigretCode} {i : Fin nproc} {s : Threads} {a : ThreadsAct}
    (h : s.step i code a = none) : NoneWaiting i s a := by
  cases a with
  | kill | enter | sigret => trivial
  | next j =>
    rintro (hpc | ⟨hpc, hdfl⟩)
    · simp [Threads.step, Threads.next, hpc] at h
    · simp [Threads.step, Threads.next, hpc, hdfl] at h

/-- **Continuing**: in a run no thread is left in the loop by another one that consumes a `SIGCONT`,
exactly if a `SIGCONT` that clears `p->stopped` is turned off only while no other thread has yet to
find it. -/
theorem continued_all (code : SigretCode) (i : Fin nproc) (k : Kernel) (as : List ThreadsAct) :
    (threadsMachine code i).Along Resumed (threadsStart i k) as ↔
      (threadsMachine code i).Meets (NoneWaiting i) (threadsStart i k) as :=
  (threadsMachine code i).along_iff_meets
    (fun _ _ _ h hstep => ⟨Resumed.noneWaiting hstep, fun ha => h.step ha hstep⟩)
    (fun _ _ => noneWaiting_of_step_none) (fun _ hu => by cases hu) as

def stoppedKernel : Kernel := stopSignal (interrupted 0 7) 0

/-- Threads 0 and 1 wait, and both find a `SIGCONT` before the first one consumes it. -/
def bothContinue : List ThreadsAct :=
  passTo 0 0 ++ passTo 1 0 ++ [.kill 1 19, .next 0, .next 1, .next 0, .next 0, .next 1, .next 1]

theorem bothContinue_resumed :
    (threadsMachine sigretCode 0).Along Resumed (threadsStart 0 stoppedKernel) bothContinue ∧
      ∃ s, (threadsMachine sigretCode 0).run (threadsStart 0 stoppedKernel) bothContinue = some s ∧
        s.pc 0 = .test 0 ∧ s.pc 1 = .test 0 :=
  ⟨(continued_all sigretCode 0 _ bothContinue).mpr (by decide +kernel),
    Machine.exists_run _ (by decide +kernel)⟩

/-- Thread 0 waits, receives a `SIGCONT` and consumes it. -/
def oneContinues : List ThreadsAct := passTo 0 0 ++ .kill 1 19 :: List.replicate 3 (.next 0)

/-- Thread 1 waits, too, and is left waiting although the process is not stopped any more. -/
theorem twoWait_notResumed :
    ∃ s, (threadsMachine sigretCode 0).run (threadsStart 0 stoppedKernel)
        (passTo 1 0 ++ oneContinues) = some s ∧
      (s.kernel.proc 0).stopped = false ∧ s.passed 1 = true ∧ s.pc 1 = .poll ∧
      ¬ s.Pending 0 sigcont ∧ ¬ Resumed s := by
  refine ⟨_, rfl, by decide +kernel, by decide +kernel, by decide +kernel, by decide +kernel, ?_⟩
  intro h
  exact absurd (h 1 (by decide +kernel)) (by decide +kernel)

end Xv6.Signal
