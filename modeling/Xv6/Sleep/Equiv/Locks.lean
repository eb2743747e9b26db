import Xv6.Sleep.Locks

/-!
# Who holds a sleep-lock

A lock belongs to one thread, but it only knows the process: `holdingsleep` is true for every thread
of it.
-/

namespace Xv6.Sleeplock

open Lib
open Function (update update_self update_of_ne)

variable {θ ι : Type} [DecidableEq θ] [DecidableEq ι] {pid : θ → Int} {s s' : State θ ι} {t : θ}
  {n : ι}

/-- The lock is free, or it is held by a thread of the process that it names. -/
def Held (pid : θ → Int) (l : Lock) (inside : List θ) : Prop :=
  l = ⟨false, 0⟩ ∧ inside = [] ∨ ∃ t, l = ⟨true, pid t⟩ ∧ inside = [t]

def Inv (pid : θ → Int) (s : State θ ι) : Prop := ∀ n, Held pid (s.lk n) (s.inside n)

theorem Inv.acquiresleep (h : Inv pid s) (t : θ) (n : ι) : Inv pid (s.acquiresleep pid t n) := by
  rw [State.acquiresleep]
  split_ifs with hlocked
  · exact h
  intro m
  by_cases hm : m = n
  · subst hm
    obtain ⟨-, hin⟩ | ⟨t', hl, -⟩ := h m
    · simp only [update_self, hin]
      exact .inr ⟨t, rfl, rfl⟩
    · rw [hl] at hlocked
      exact absurd rfl hlocked
  · simp only [update_of_ne hm]
    exact h m

theorem Inv.releasesleep (h : Inv pid s) (ht : t ∈ s.inside n) : Inv pid (s.releasesleep t n) := by
  intro m
  rw [State.releasesleep]
  by_cases hm : m = n
  · subst hm
    obtain ⟨-, hin⟩ | ⟨t', -, hin⟩ := h m
    · rw [hin] at ht
      exact absurd ht List.not_mem_nil
    · rw [hin, List.mem_singleton] at ht
      simp only [update_self, hin, ht, List.erase_cons_head]
      exact .inl ⟨rfl, rfl⟩
  · simp only [update_of_ne hm]
    exact h m

theorem Inv.step {a : Act θ ι} (h : Inv pid s) (hstep : (lockMachine pid).step s a = some s') :
    Inv pid s' := by
  cases a with
  | acquire t n =>
    obtain ⟨-, ⟨⟩⟩ := Option.ite_none_right_eq_some.mp hstep
    exact h.acquiresleep t n
  | wake t =>
    obtain ⟨n, -, rfl⟩ := Option.map_eq_some_iff.mp hstep
    exact h.acquiresleep t n
  | release t n =>
    obtain ⟨⟨-, ht⟩, ⟨⟩⟩ := Option.ite_none_right_eq_some.mp hstep
    exact h.releasesleep ht

theorem inv_of_run {as : List (Act θ ι)}
    (h : (lockMachine pid).run initsleeplock as = some s) : Inv pid s :=
  (lockMachine pid).invariant_of_run (fun _ _ _ => Inv.step) as _ s (fun _ => .inl ⟨rfl, rfl⟩) h

/-- **Sleep-locks exclude each other**, and a check is for the thread that holds the lock, exactly if
no other thread of its process holds it. -/
theorem holdingsleep_iff (as : List (Act θ ι))
    (h : (lockMachine pid).run initsleeplock as = some s) :
    (∀ n, (s.inside n).length ≤ 1) ∧
    ∀ t n, ((s.holdingsleep pid t n = true ↔ t ∈ s.inside n) ∧
      (s.rejects pid t n = true ↔ t ∉ s.inside n)) ↔
        ∀ t' ∈ s.inside n, pid t' = pid t → t' = t := by
  have hinv := inv_of_run h
  refine ⟨fun n => ?_, fun t n => ?_⟩
  · obtain ⟨-, hin⟩ | ⟨t, -, hin⟩ := hinv n
    · rw [hin]; exact Nat.zero_le 1
    · rw [hin]; exact Nat.le_refl 1
  rw [State.rejects, Bool.not_eq_true', ← Bool.not_eq_true, not_iff_not, and_self,
    State.holdingsleep]
  obtain ⟨hl, hin⟩ | ⟨t', hl, hin⟩ := hinv n
  · simp [hl, hin]
  · rw [hl, hin, List.mem_singleton, Bool.true_and, beq_iff_eq, List.forall_mem_singleton]
    refine ⟨fun hiff hpid => (hiff.mp hpid).symm, fun hother => ?_⟩
    exact ⟨fun hpid => (hother hpid).symm, fun ht => ht ▸ rfl⟩

/-- The first of two threads of process 3 has acquired a lock. -/
def firstInside : State (Fin 2) Unit := State.acquiresleep (fun _ => 3) initsleeplock 0 ()

theorem holdingsleep_iff_first :
    (firstInside.holdingsleep (fun _ => 3) 0 () = true ↔ 0 ∈ firstInside.inside ()) ∧
      (firstInside.rejects (fun _ => 3) 0 () = true ↔ 0 ∉ firstInside.inside ()) :=
  ((holdingsleep_iff [.acquire 0 ()] rfl).2 0 ()).mpr (by decide)

/-- The lock of the first thread passes the check of the second one. -/
theorem holdingsleep_process :
    (lockMachine fun _ => 3).run initsleeplock [.acquire 0 ()] = some firstInside ∧
      firstInside.inside () = [0] ∧ firstInside.holdingsleep (fun _ => 3) 1 () = true :=
  ⟨rfl, rfl, rfl⟩

end Xv6.Sleeplock
