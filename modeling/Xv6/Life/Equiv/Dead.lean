import Xv6.Life.Equiv.Tree

/-!
# Dead processes

A process that is `ZOMBIE` stays so until `wait` frees its slot, which then stays `UNUSED` until
`allocproc` takes it for another process (`Gone`).  By `LifeInv` no thread of such a process runs.
-/

namespace Xv6.Life

open Lib Function

variable {κ : Type*} {s s' : State κ} {c : κ} {p : Fin nproc} {line : Line} {n : Nat}

/-! ### The slot of a dead process -/

/-- The process that had slot `p` after `allocproc` had taken it `n` times is dead. -/
structure Gone (p : Fin nproc) (n : Nat) (s : State κ) : Prop where
  le : n ≤ s.data.gen p
  state : s.data.gen p = n → s.data.procState p = .zombie ∨ s.data.procState p = .unused

/-- `allocproc` counts the times it takes a slot, and leaves the others alone. -/
theorem Loc.Allocs.gen {d d' : Table} {l : Loc} {k : Fin nproc} (h : l.Allocs d d' k) :
    d'.gen k = d.gen k + 1 ∧ ∀ q, q ≠ k → d'.gen q = d.gen q ∧ d'.procState q = d.procState q := by
  obtain ⟨x, -, -, htable⟩ := h
  rw [htable]
  exact ⟨update_self _ _ _, fun q hq => ⟨update_of_ne hq _ _, update_of_ne hq _ _⟩⟩

theorem Gone.step (h : Gone p n s) (hstep : Stepped s s' c) : Gone p n s' := by
  obtain ⟨op, hinstr⟩ := hstep.instr
  obtain ⟨hgen, -⟩ | ⟨k, hallocs⟩ := hinstr.forker
  · refine ⟨hgen ▸ h.le, fun heq => ?_⟩
    rw [hgen] at heq
    cases hstep.change.fate p with
    | same state =>
      rw [state]
      exact h.state heq
    | dies _ _ _ state => exact .inl state
    | freed _ _ state _ => exact .inr state
    | taken allocs =>
      have hmore := allocs.gen.1
      rw [hgen] at hmore
      omega
  obtain ⟨hmore, hothers⟩ := hallocs.gen
  by_cases hk : p = k
  · subst hk
    have hle := h.le
    exact ⟨by omega, fun heq => by omega⟩
  · obtain ⟨hgen, hstate⟩ := hothers p hk
    exact ⟨hgen ▸ h.le, fun heq => hstate ▸ h.state (hgen ▸ heq)⟩

/-! ### Its threads -/

section

variable {j : Fin nthread} (h : LifeInv s)
  (hgone : s.data.procState p = .zombie ∨ s.data.procState p = .unused)

include h hgone

/-- A thread of a dead process that is on a CPU is behind the store of `ZOMBIE`. -/
theorem LifeInv.phase_of_gone (hloc : s.loc c = .run (p, j) line) : line.phase = .dead := by
  have hok := (h.loc c).phase (p, j) line (on_of_loc hloc)
  have hzombie := hgone.resolve_right hok.ne_unused
  cases hph : line.phase with
  | dead => rfl
  | marked | leaving =>
    rw [hph] at hok
    exact absurd hzombie hok.1.2

theorem LifeInv.dead : Dead p s where
  loc c j line hloc := by
    have hphase := h.phase_of_gone hgone hloc
    cases line with
    | exitUnlock | exitSched => rfl
    | wakeup w chan ret => cases ret <;> cases hphase
    | _ => cases hphase
  threads j := by
    rcases hgone with hzombie | hunused
    · rw [h.table.zombie p hzombie j]
      decide
    · rw [h.table.unused p hunused j]
      decide
  free c x hloc c' j line hloc' := by
    have hphase := h.phase_of_gone hgone hloc'
    have hlock := line.held_of_phase p
    rw [hphase] at hlock
    -- both hold `p->lock`, so they are on one CPU
    obtain rfl : c = c' := by
      refine h.owned.unique (m := .proc p) ?_ ?_
      · rw [hloc]
        exact .inr rfl
      · rw [hloc']
        exact hlock
    cases hloc.symm.trans hloc'
    cases hphase

end

/-- **A dead process does not run**: in every run in which `exit` stores to the state of a sibling
only while that is not `RUNNING` and nobody is about to overwrite it, once a process is `ZOMBIE`
none of its threads is on a CPU, but for the exiting one until its `swtch`, none is `RUNNABLE` or
`RUNNING` any more, and none is on a CPU when `wait` frees the process, until `allocproc` takes its
slot for another process. -/
theorem dead_does_not_run [DecidableEq κ] {s₀ s s' : State κ} {p : Fin nproc} (h₀ : Start s₀)
    (as bs : List (κ × Choice)) (has : lifeCode.machine.Meets Still s₀ as)
    (hrun : lifeCode.machine.run s₀ as = some s) (hzombie : s.data.procState p = .zombie)
    (hbs : lifeCode.machine.Meets Still s bs) (hrun' : lifeCode.machine.run s bs = some s')
    (hgen : s'.data.gen p = s.data.gen p) : Dead p s' := by
  have hinv : LifeInv s := Machine.invariant_of_meets _
    (fun s a s' h hok hs => h.step hok hs) as s₀ s h₀.lifeInv has hrun
  obtain ⟨hinv', hgone⟩ := lifeCode.machine.invariant_of_meets
    (I := fun t => LifeInv t ∧ Gone p (s.data.gen p) t)
    (fun s a s' h hok hs => ⟨h.1.step hok hs, h.2.step (stepped hs)⟩) bs s s'
    ⟨hinv, le_rfl, fun _ => .inl hzombie⟩ hbs hrun'
  exact hinv'.dead (hgone.state hgen)

/-! ### Two runs -/

/-- `init` and a child with two threads. -/
def siblings : State (Fin 4) where
  owner _ := none
  loc _ := .scan 0
  data :=
    { procState := fun p => if p.val < 2 then .used else .unused
      parent := fun p => if p = 1 then some initproc else none
      threadState := fun x =>
        if x = (initproc, 0) ∨ x.1 = 1 ∧ x.2.val < 2 then .runnable else .unused
      chan := fun _ => none
      context := fun _ => .forkret
      mainThread := 0
      locked := fun _ => false
      holder := fun _ => none
      gen := fun _ => 0
      forker := fun p => if p = 1 then some (initproc, 0) else none }

theorem siblings_start : Start siblings where
  owner _ := rfl
  loc _ := rfl
  procs := by decide +kernel
  init := by decide
  threads := by decide +kernel
  context _ := rfl
  locked _ := rfl
  tree := by decide +kernel
  unused := by decide +kernel
  parent := by decide +kernel

def steps (c : Fin 4) (n : Nat) : List (Fin 4 × Choice) := List.replicate n (c, .next)

def exits (c : Fin 4) : List (Fin 4 × Choice) := [(c, .call .fs), (c, .call .exit)]

def oneRuns : List (Fin 4 × Choice) := steps 0 4 ++ steps 1 14 ++ exits 1

/-- `init` kills the dead child, and comes to free it. -/
def killAndWait : List (Fin 4 × Choice) :=
  steps 1 9 ++ [(0, .call (.kill true)), (0, .next), (0, .alt)] ++ steps 0 11 ++
    [(0, .call .wait)] ++ steps 0 5

def bothRun : List (Fin 4 × Choice) := steps 0 4 ++ steps 1 14 ++ steps 2 15 ++ exits 1

/-- The second thread gives up CPU 2 and goes on on CPU 3; then `init` comes to free the child. -/
def yieldAndWait : List (Fin 4 × Choice) :=
  steps 1 9 ++ [(2, .timer)] ++ steps 2 10 ++ steps 3 15 ++ [(0, .call .wait)] ++ steps 0 5

/-- The child dies while its second thread waits for a CPU. -/
theorem oneRuns_dead : Start siblings ∧ ∃ s s', lifeCode.machine.Reaches Still siblings s ∧
    s.data.procState 1 = .zombie ∧ lifeCode.machine.Reaches Still s s' ∧
      s'.data.gen 1 = s.data.gen 1 ∧ s'.loc 0 = .run (0, 0) (.waitFree 1) ∧ Dead 1 s' := by
  have hmeets : lifeCode.machine.Meets Still siblings oneRuns := by decide +kernel
  obtain ⟨s, hrun, hs⟩ := (Option.any_eq_true _ _).mp (show
    (lifeCode.machine.run siblings oneRuns).any (fun s =>
      (CanExit s 1 (1, 0) ∧ ∀ i : Fin nthread, Still (((s.hold 1 .wait).setData
        ((s.data.reparentTo 1 nproc).markTo 1 i.val)).goto 1 (.run (1, 0) (.mark i))) (1, .next)) ∧
      (exited s 1 (1, 0)).data.procState 1 = .zombie ∧
      lifeCode.machine.Meets Still (exited s 1 (1, 0)) killAndWait ∧
      (lifeCode.machine.run (exited s 1 (1, 0)) killAndWait).any (fun t =>
        t.data.gen 1 = (exited s 1 (1, 0)).data.gen 1 ∧
          t.loc 0 = .run (0, 0) (.waitFree 1)) = true) = true by decide +kernel)
  obtain ⟨⟨hexit, hmark⟩, hzombie, hbs, hs⟩ := of_decide_eq_true hs
  obtain ⟨s', hrun', hs'⟩ := (Option.any_eq_true _ _).mp hs
  obtain ⟨hgen, hloc⟩ := of_decide_eq_true hs'
  have hstill : ∀ (s : State (Fin 4)) (line : Line), (∀ i, line ≠ .mark i) →
      Still (s.goto 1 (.run (1, 0) line)) (1, .next) :=
    fun s _ h => (marksOnly_goto (p := fun _ => True) s h).still
  have hdies : lifeCode.machine.Reaches Still siblings s := ⟨_, hmeets, hrun⟩
  have hdied : lifeCode.machine.Reaches Still s (exited s 1 (1, 0)) :=
    hexit.exited (fun s line _ => hstill s line) (fun _ => hstill _ _ fun _ h => by cases h) hmark
  obtain ⟨as, has, hdead⟩ := hdies.trans hdied
  exact ⟨siblings_start, _, s', ⟨as, has, hdead⟩, hzombie, ⟨_, hbs, hrun'⟩, hgen, hloc,
    dead_does_not_run siblings_start as _ has hdead hzombie hbs hrun' hgen⟩

/-- The child dies while its second thread runs on CPU 2, which then makes itself `RUNNABLE`; CPU 3
goes on with it, and it is `RUNNING` in user space when `wait` frees the process. -/
theorem bothRun_notDead : Start siblings ∧ ∃ s s',
    lifeCode.machine.Reaches (fun _ _ => True) siblings s ∧ s.data.procState 1 = .zombie ∧
      lifeCode.machine.Reaches (fun _ _ => True) s s' ∧ s'.data.gen 1 = s.data.gen 1 ∧
      s'.data.threadState (1, 1) = .running ∧ s'.loc 3 = .run (1, 1) (.out .user) ∧
        s'.loc 0 = .run (0, 0) (.waitFree 1) ∧ ¬ Dead 1 s' := by
  obtain ⟨s, hrun, hs⟩ := (Option.any_eq_true _ _).mp (show
    (lifeCode.machine.run siblings bothRun).any (fun s =>
      CanExit s 1 (1, 0) ∧ (exited s 1 (1, 0)).data.procState 1 = .zombie ∧
      (lifeCode.machine.run (exited s 1 (1, 0)) yieldAndWait).any (fun t =>
        t.data.gen 1 = (exited s 1 (1, 0)).data.gen 1 ∧ t.data.threadState (1, 1) = .running ∧
          t.loc 3 = .run (1, 1) (.out .user) ∧ t.loc 0 = .run (0, 0) (.waitFree 1)) = true) = true
    by decide +kernel)
  obtain ⟨hexit, hzombie, hs⟩ := of_decide_eq_true hs
  obtain ⟨s', hrun', hs'⟩ := (Option.any_eq_true _ _).mp hs
  obtain ⟨hgen, hthread, hloc, hwait⟩ := of_decide_eq_true hs'
  have hdies : lifeCode.machine.Reaches (fun _ _ => True) s (exited s 1 (1, 0)) :=
    hexit.exited (fun _ _ _ _ => trivial) (fun _ => trivial) fun _ => trivial
  have hboth : lifeCode.machine.Reaches (fun _ _ => True) siblings s :=
    ⟨_, lifeCode.machine.meets_true _ _, hrun⟩
  refine ⟨siblings_start, _, s', hboth.trans hdies, hzombie,
    ⟨_, lifeCode.machine.meets_true _ _, hrun'⟩, hgen, hthread, hloc, hwait, fun hdead => ?_⟩
  exact (hdead.threads 1).2 hthread

end Xv6.Life
