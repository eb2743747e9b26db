import Xv6.Kthread.Equiv.Last

/-!
# Reuse of thread slots

From its `acquire(&p->lock)` on, a thread in `kthread_exit` holds that lock until it has switched to
the scheduler, or it has seen that no live thread is left to call `kthread_create`.
-/

namespace Xv6.Kthread

open Lib

variable {κ : Type*}

theorem Loc.goneThread_eq_some {l : Loc} {j : Fin nthread} :
    l.goneThread = some j ↔ l.on = some (j, .gone) := by
  cases l with
  | run i line =>
    by_cases hgone : line.gone = true
    · simp [Loc.goneThread, Loc.on, Line.phase, hgone]
    · have hphase : line.phase ≠ .gone := fun h => hgone (gone_of_phase h)
      simp [Loc.goneThread, Loc.on, hgone, hphase]
  | _ => simp [Loc.goneThread, Loc.on]

theorem Loc.goneThread_cases {d : Table} {l : Loc} {j : Fin nthread} (hl : l.Holds d)
    (h : l.goneThread = some j) : l = .run j .exitLock ∨ l.held .proc ∨ d.AllDead := by
  cases l with
  | run i line =>
    by_cases hgone : line.gone = true
    · rw [Loc.goneThread, if_pos hgone] at h
      cases h
      cases line with
      | exitLock => exact .inl rfl
      | check | lastUnlock | found => exact .inr (.inl (.inr rfl))
      | exitSched => exact .inr (.inl rfl)
      | lastRelease | exit | exited => exact .inr (.inr hl)
      | wakeup w chan ret =>
        cases ret with
        | exit => exact .inr (.inr hl.2)
        | _ => cases hgone
      | _ => cases hgone
    · rw [Loc.goneThread, if_neg hgone] at h
      cases h
  | _ => cases h

variable {ch : Choice} {s : State κ}

theorem Line.instr_allocFound {d d' : Table} {j k : Fin nthread} {line : Line}
    {op : LockOp LockId} (h : line.instr d j ch = some (op, some (.allocFound k), d')) :
    line = .alloc k ∧ d' = d := by
  unfold Line.instr at h
  split at h
  case h_4 e =>
    cases e with
    | joinTest =>
      simp only [Entry.instr] at h
      split_ifs at h
      all_goals simp at h
    | _ => simp [Entry.instr] at h
  case h_5 w chan ret =>
    obtain ⟨w', -, heq⟩ := Line.instr_wakeup h
    cases w' with
    | none =>
      cases ret with
      | treparent =>
        simp only [Option.elim_none, Ret.line, Line.treparentNext] at heq
        split_ifs at heq
        all_goals simp at heq
      | _ => cases heq
    | some => cases heq
  case h_17 l =>
    split_ifs at h
    · obtain ⟨-, rfl, rfl⟩ := by simpa using h
      exact ⟨rfl, rfl⟩
    · unfold Line.allocNext at h
      split_ifs at h
      all_goals simp at h
  case h_6 =>
    unfold Line.treparentNext at h
    split_ifs at h
    all_goals simp at h
  case h_7 =>
    split at h
    all_goals simp at h
  case h_10 =>
    unfold Line.checkNext at h
    split_ifs at h
    all_goals simp at h
  case h_21 =>
    unfold Line.joinNext at h
    split_ifs at h
    all_goals simp at h
  case h_1 =>
    split_ifs at h
    all_goals simp at h
  case h_16 | h_33 | h_37 =>
    unfold sched at h
    split_ifs at h
    simp at h
  case h_26 | h_40 => cases h
  all_goals simp at h

theorem Loc.instr_allocFound {d d' : Table} {l : Loc} {j k : Fin nthread} {op : LockOp LockId}
    (h : l.instr d ch = some (op, .run j (.allocFound k), d')) :
    l = .run j (.alloc k) ∧ d' = d := by
  unfold Loc.instr at h
  split at h
  case h_6 wait w chan =>
    obtain ⟨_ | w', -, heq⟩ := Loc.instr_wakeup h
    · cases heq
    · cases heq
  case h_7 =>
    unfold Loc.lookNext at h
    split_ifs at h
    all_goals simp at h
  case h_8 i =>
    cases hc : d.context i
    all_goals simp [hc, Saved.line] at h
  case h_10 =>
    rename_i i line
    rcases hline : line.instr d i ch with _ | ⟨op', _ | line', d''⟩
    · simp [hline] at h
    · simp only [hline, Loc.lookNext] at h
      split_ifs at h
      all_goals simp at h
    · obtain ⟨-, ⟨rfl, rfl⟩, rfl⟩ := by simpa [hline] using h
      obtain ⟨rfl, rfl⟩ := Line.instr_allocFound hline
      exact ⟨rfl, rfl⟩
  case h_11 => cases h
  all_goals simp at h

/-! ### The invariant -/

/-- The invariant under which no slot of an exiting thread is taken. -/
structure ReuseInv (s : State κ) : Prop where
  last : LastInv s
  -- the slot that `allocthread` has found is not in use
  free : ∀ c j l, s.loc c = .run j (.allocFound l) → ∀ c', (s.loc c').goneThread ≠ some l

theorem ReuseInv.notInUse (h : ReuseInv s) (a : κ × Choice) : NotInUse s a := by
  unfold NotInUse
  split
  · rename_i j l hloc
    exact h.free a.1 j l hloc
  · trivial

/-- When `allocthread` finds a slot its last thread is not in `kthread_exit`. -/
theorem ReuseInv.found_free (h : ReuseInv s) {c : κ} (hok : Settled s (c, ch)) {j l : Fin nthread}
    (hloc : s.loc c = .run j (.alloc l)) (c' : κ) :
    (s.loc c').goneThread ≠ some l := by
  intro hgone
  obtain hlock | hheld | hall := Loc.goneThread_cases (h.last.threads.holds c') hgone
  · simp only [Settled, hloc] at hok
    exact hok c' hlock
  · -- it would hold the lock that `allocthread` holds
    have hc : c' = c := h.last.threads.owned.unique hheld (by rw [hloc]; rfl)
    rw [hc, hloc] at hgone
    cases hgone
  · -- the thread that creates another one is live
    have hrun := h.last.threads.active c j (by rw [hloc]; rfl)
    exact hall j (live_of_state hrun rfl)

section Step

variable [DecidableEq κ] {s s' : State κ} {c : κ} {ch : Choice}

/-- No thread of a slot without a live one enters `kthread_exit`. -/
theorem ReuseInv.step_goneThread (h : ReuseInv s) (hs : Stepped s s' c) {l : Fin nthread}
    (hdead : ¬ s.data.proc.Live l) (hfree : ∀ c', (s.loc c').goneThread ≠ some l) (c' : κ) :
    (s'.loc c').goneThread ≠ some l := by
  by_cases hc : c' = c
  · rw [hc]
    intro hgone
    obtain hold | ⟨hactive, -⟩ := hs.effect.on_gone (Loc.goneThread_eq_some.mp hgone)
    · exact hfree c (Loc.goneThread_eq_some.mpr hold)
    · exact hdead (live_of_state (h.last.threads.active c l hactive) rfl)
  · rw [hs.others c' hc]
    exact hfree c'

/-- One step keeps the invariant. -/
theorem ReuseInv.step (h : ReuseInv s) (hok : Settled s (c, ch))
    (hstep : kthreadCode.machine.step s (c, ch) = some s') : ReuseInv s' := by
  have hs := h.last.threads.stepped hstep
  refine ⟨h.last.step (h.notInUse (c, ch)) hstep, fun c₁ j l hloc' => ?_⟩
  by_cases hc : c₁ = c
  · rw [hc] at hloc'
    obtain ⟨op, l₁, d, owner, hinstr, -, rfl⟩ := SpinCode.step_eq_some hstep
    have hl₁ : l₁ = .run j (.allocFound l) := by simpa using hloc'
    rw [hl₁] at hinstr
    obtain ⟨hloc, rfl⟩ := Loc.instr_allocFound hinstr
    have hdead := hs.holds
    rw [hloc'] at hdead
    exact h.step_goneThread hs hdead (h.found_free hok hloc)
  · rw [hs.others c₁ hc] at hloc'
    have hdead := h.last.threads.holds c₁
    rw [hloc'] at hdead
    exact h.step_goneThread hs hdead (h.free c₁ j l hloc')

end Step

/-! ### Runs -/

theorem ReuseInv.reuseOk (h : ReuseInv s) : ReuseOk s := by
  intro c j line l hloc hre c' hgone
  -- a slot that has been taken is `USED`, that of a thread in `kthread_exit` is not
  have hused : ∀ b, line.making = some (l, b) → False := by
    intro b hmaking
    have hz := h.last.gone c' l (Loc.goneThread_eq_some.mp hgone)
    rw [h.last.threads.used (.inl c) l b (.cpu c (by rw [hloc]; exact hmaking))] at hz
    cases hz
  cases line with
  | allocFound k =>
    obtain rfl := Option.some.inj hre
    exact h.free c j k hloc c' hgone
  | allocUnlock =>
    cases hre
    exact hused false rfl
  | out e =>
    cases e with
    | setup =>
      cases hre
      exact hused false rfl
    | _ => cases hre
  | _ => cases hre

theorem Start.reuseInv (h : Start s) : ReuseInv s := by
  refine ⟨h.lastInv, fun c j l hloc => ?_⟩
  rw [h.loc c] at hloc
  cases hloc

/-- **Slot reuse**: as long as `allocthread` looks at no slot whose thread is about to acquire the
lock of the process in `kthread_exit`, no slot is reinitialised before its last thread has left. -/
theorem reuse_safe [DecidableEq κ] (s₀ s : State κ) (as : List (κ × Choice)) (h₀ : Start s₀)
    (hok : kthreadCode.machine.Meets Settled s₀ as) (hrun : kthreadCode.machine.run s₀ as = some s) :
    ReuseOk s := by
  refine ReuseInv.reuseOk ?_
  exact Machine.invariant_of_meets _ (fun s a s' h hok hstep => h.step hok hstep) as s₀ s
    h₀.reuseInv hok hrun

def startTwo : State (Fin 2) where
  owner _ := none
  loc _ := .away false
  data := startState.data

theorem startTwo_start : Start startTwo := by
  obtain ⟨-, -, fresh, context, exits, exitedWith⟩ := startState_start
  exact ⟨fun _ => rfl, fun _ => rfl, fresh, context, exits, exitedWith⟩

def nextsOn (c : Fin 2) (n : Nat) : List (Fin 2 × Choice) := List.replicate n (c, .next)

/-- Thread 0 creates thread 1, which calls `kthread_exit` and comes as far as `acquire(&p->lock)`.
-/
def oneLeaves : List (Fin 2 × Choice) :=
  nextsOn 0 4 ++ (0, .call .create) :: nextsOn 0 7 ++ nextsOn 1 5 ++ (1, .call (.exit 0)) ::
    nextsOn 1 21

def createMore : List (Fin 2 × Choice) := (0, .call .create) :: nextsOn 0 3

/-- Once thread 1 has switched to the scheduler its slot is taken. -/
theorem left_reused :
    Start startTwo ∧
      kthreadCode.machine.Meets Settled startTwo (oneLeaves ++ nextsOn 1 11 ++ createMore) ∧
      ∃ s, kthreadCode.machine.run startTwo (oneLeaves ++ nextsOn 1 11 ++ createMore) = some s ∧
        s.loc 0 = .run 0 (.allocFound 1) ∧ ReuseOk s := by
  have hok : kthreadCode.machine.Meets Settled startTwo
      (oneLeaves ++ nextsOn 1 11 ++ createMore) := by decide +kernel
  exact ⟨startTwo_start, hok, _, rfl, rfl, reuse_safe startTwo _ _ startTwo_start hok rfl⟩

/-- Thread 1 has stored `ZOMBIE` and still runs, and its slot is taken. -/
theorem reused_in_use :
    Start startTwo ∧
      ∃ s, kthreadCode.machine.run startTwo (oneLeaves ++ createMore) = some s ∧
        s.loc 0 = .run 0 (.allocFound 1) ∧ s.loc 1 = .run 1 .exitLock ∧ ¬ ReuseOk s := by
  refine ⟨startTwo_start, _, rfl, rfl, rfl, fun h => ?_⟩
  exact h 0 0 (.allocFound 1) 1 rfl rfl 1 rfl

end Xv6.Kthread
