import Mathlib.Data.List.Basic

/-!
# Machines with a partial step function

A `Machine` is a state space with a partial step function: `step s a = none` says that the action
`a` is not enabled in `s`.  A run is a list of actions (`run`).

`Meets ok s as` says that every step of the run of `as` from `s` is taken in a state where `ok`
allows it, `Along P s as` that `P` holds in every state of it, and `Reaches ok s s'` that some run
whose steps `ok` allows leads from `s` to `s'`.  The inductions are `invariant_of_meets` over a run,
with the guard of each step, and `Reaches.loop` over the rounds of a loop.
-/

namespace Xv6.Lib

-- named, so that the threads `0` and `1` of a run do not carry a proof each
instance neZeroTwo : @NeZero Nat Zero.ofOfNat0 2 := ⟨Nat.succ_ne_zero 1⟩

/-- A state space with a partial step function. -/
structure Machine (σ α : Type*) where
  /-- One step; `none` when the action is not enabled. -/
  step : σ → α → Option σ

namespace Machine

variable {σ α : Type*} (M : Machine σ α)

def run (s : σ) : List α → Option σ
  | [] => some s
  | a :: as =>
    match M.step s a with
    | some s' => run s' as
    | none => none

/-- Every step of the run of `as` from `s` is taken in a state in which `ok` allows it. -/
def Meets (ok : σ → α → Prop) (s : σ) : List α → Prop
  | [] => True
  | a :: as =>
    ok s a ∧
      match M.step s a with
      | some s' => Meets ok s' as
      | none => True

/-- `P` holds in every state of the run of `as` from `s`. -/
def Along (P : σ → Prop) (s : σ) : List α → Prop
  | [] => P s
  | a :: as =>
    P s ∧
      match M.step s a with
      | some s' => Along P s' as
      | none => True

instance decidableMeets (ok : σ → α → Prop) [∀ s a, Decidable (ok s a)] (s : σ) (as : List α) :
    Decidable (M.Meets ok s as) :=
  match as with
  | [] => isTrue trivial
  | a :: as =>
    match h : M.step s a with
    | some s' =>
      have := decidableMeets ok s' as
      decidable_of_iff (ok s a ∧ M.Meets ok s' as) (by rw [Meets, h])
    | none => decidable_of_iff (ok s a) (by rw [Meets, h, and_true])

def Reaches (ok : σ → α → Prop) (s s' : σ) : Prop := ∃ as, M.Meets ok s as ∧ M.run s as = some s'

/-! ### Runs -/

@[simp] theorem run_nil (s : σ) : M.run s [] = some s := rfl

variable {a : α} {as : List α} {ok : σ → α → Prop} {s s₁ : σ}

theorem run_cons_eq_some {s s' : σ} :
    M.run s (a :: as) = some s' ↔ ∃ s₁, M.step s a = some s₁ ∧ M.run s₁ as = some s' := by
  rw [run]
  cases M.step s a with
  | none | some => simp

theorem run_append (as bs : List α) (s : σ) :
    M.run s (as ++ bs) = (M.run s as).bind fun s' => M.run s' bs := by
  induction as generalizing s with
  | nil => rfl
  | cons a as ih =>
    rw [List.cons_append, run, run]
    cases M.step s a with
    | none => rfl
    | some s' => exact ih s'

theorem run_concat_eq_some {s₀ s' : σ} (h : M.run s₀ (as ++ [a]) = some s') :
    ∃ s, M.run s₀ as = some s ∧ M.step s a = some s' := by
  rw [M.run_append, Option.bind_eq_some_iff] at h
  obtain ⟨s, hs, hstep⟩ := h
  obtain ⟨s₁, hs₁, hnil⟩ := M.run_cons_eq_some.mp hstep
  rw [run_nil, Option.some.injEq] at hnil
  exact ⟨s, hs, by rw [← hnil, hs₁]⟩

/-- A run on a fixed input, evaluated. -/
theorem exists_run {p : σ → Prop} [DecidablePred p] {s : σ}
    (h : (M.run s as).any (fun s' => decide (p s')) = true) : ∃ s', M.run s as = some s' ∧ p s' := by
  obtain ⟨s', hs', hp⟩ := (Option.any_eq_true _ _).mp h
  exact ⟨s', hs', of_decide_eq_true hp⟩

theorem meets_cons (h : M.step s a = some s₁) :
    M.Meets ok s (a :: as) ↔ ok s a ∧ M.Meets ok s₁ as := by
  rw [Meets, h]

theorem along_cons {P : σ → Prop} (h : M.step s a = some s₁) :
    M.Along P s (a :: as) ↔ P s ∧ M.Along P s₁ as := by
  rw [Along, h]

theorem along_head {P : σ → Prop} {s : σ} (h : M.Along P s as) : P s := by
  cases as with
  | nil => exact h
  | cons => exact h.1

theorem meets_append {as bs : List α} (has : M.Meets ok s as) (h : M.run s as = some s₁)
    (hbs : M.Meets ok s₁ bs) : M.Meets ok s (as ++ bs) := by
  induction as generalizing s with
  | nil =>
    rw [run_nil, Option.some.injEq] at h
    rwa [h]
  | cons a as ih =>
    obtain ⟨s₂, hs₂, hrun⟩ := M.run_cons_eq_some.mp h
    obtain ⟨hok, hrest⟩ := (M.meets_cons hs₂).mp has
    exact (M.meets_cons hs₂).mpr ⟨hok, ih hrest hrun⟩

/-! ### Reaching a state -/

namespace Reaches

variable {M} {ok : σ → α → Prop} {s s₁ s₂ : σ}

theorem refl (s : σ) : M.Reaches ok s s := ⟨[], trivial, rfl⟩

theorem single {a : α} (hok : ok s a) (h : M.step s a = some s₁) : M.Reaches ok s s₁ :=
  ⟨[a], (M.meets_cons h).mpr ⟨hok, trivial⟩, M.run_cons_eq_some.mpr ⟨s₁, h, rfl⟩⟩

theorem trans (h₁ : M.Reaches ok s s₁) (h₂ : M.Reaches ok s₁ s₂) : M.Reaches ok s s₂ := by
  obtain ⟨as, has, hrun⟩ := h₁
  obtain ⟨bs, hbs, hrun'⟩ := h₂
  refine ⟨as ++ bs, M.meets_append has hrun hbs, ?_⟩
  rw [M.run_append, hrun]
  exact hrun'

/-- A loop: from each round to the next, so from the first one to the end. -/
theorem loop {f : Nat → σ} {n : Nat} (h : ∀ i, i < n → M.Reaches ok (f i) (f (i + 1))) :
    M.Reaches ok (f 0) (f n) := by
  induction n with
  | zero => exact refl (f 0)
  | succ n ih =>
    have hinit := ih fun i hi => h i (Nat.lt_succ_of_lt hi)
    exact hinit.trans (h n n.lt_succ_self)

end Reaches

/-! ### Invariants -/

/-- **Guarded invariant rule**: a predicate that every allowed step preserves holds at the end
of every run whose steps are all allowed. -/
theorem invariant_of_meets {I : σ → Prop}
    (hstep : ∀ s a s', I s → ok s a → M.step s a = some s' → I s') :
    ∀ (as : List α) (s s' : σ), I s → M.Meets ok s as → M.run s as = some s' → I s' := by
  intro as
  induction as with
  | nil =>
    intro s s' hI _ h
    rw [run_nil, Option.some.injEq] at h
    rwa [← h]
  | cons a as ih =>
    intro s s' hI hmeets h
    obtain ⟨s₁, hs₁, hrun⟩ := M.run_cons_eq_some.mp h
    obtain ⟨hok, hrest⟩ := (M.meets_cons hs₁).mp hmeets
    exact ih s₁ s' (hstep s a s₁ hI hok hs₁) hrest hrun

/-- **Exact conditions**: where a step from a good state leads to a good one exactly if it is
allowed, the states of a run are good exactly if its steps are allowed. -/
theorem along_iff_meets {P : σ → Prop} (hstep : ∀ s a s', P s → M.step s a = some s' → (P s' ↔ ok s a))
    (hnone : ∀ s a, M.step s a = none → ok s a) {s : σ} (h : P s) (as : List α) :
    M.Along P s as ↔ M.Meets ok s as := by
  induction as generalizing s with
  | nil => exact iff_of_true h trivial
  | cons a as ih =>
    cases hs : M.step s a with
    | none =>
      rw [Along, Meets, hs]
      exact iff_of_true ⟨h, trivial⟩ ⟨hnone s a hs, trivial⟩
    | some s' =>
      rw [M.along_cons hs, M.meets_cons hs, ← hstep s a s' h hs]
      constructor
      · rintro ⟨-, halong⟩
        have hok := M.along_head halong
        exact ⟨hok, (ih hok).mp halong⟩
      · rintro ⟨hok, hmeets⟩
        exact ⟨h, (ih hok).mpr hmeets⟩

theorem meets_true (s : σ) (as : List α) : M.Meets (fun _ _ => True) s as := by
  induction as generalizing s with
  | nil => trivial
  | cons a as ih =>
    refine ⟨trivial, ?_⟩
    cases M.step s a with
    | none => trivial
    | some s' => exact ih s'

/-- The same without a guard. -/
theorem invariant_of_run {I : σ → Prop} (hstep : ∀ s a s', I s → M.step s a = some s' → I s')
    (as : List α) (s s' : σ) (hI : I s) (h : M.run s as = some s') : I s' :=
  M.invariant_of_meets (fun s a s' hI _ => hstep s a s' hI) as s s' hI (M.meets_true s as) h

end Machine

/-- **One thread moves**: at most one thread satisfies `Q` still, if no other one does when the
thread `c` that has moved comes to satisfy it. -/
theorem unique_step {κ π : Type*} {l l' : κ → π} {c : κ} {Q : π → Prop}
    (hothers : ∀ c', c' ≠ c → l' c' = l c') (hold : ∀ c₁ c₂, Q (l c₁) → Q (l c₂) → c₁ = c₂)
    (hnew : ∀ c', c' ≠ c → Q (l' c) → ¬ Q (l c')) (c₁ c₂ : κ) (h₁ : Q (l' c₁)) (h₂ : Q (l' c₂)) :
    c₁ = c₂ := by
  by_cases hc₁ : c₁ = c
  · by_cases hc₂ : c₂ = c
    · rw [hc₁, hc₂]
    · rw [hc₁] at h₁
      rw [hothers c₂ hc₂] at h₂
      exact absurd h₂ (hnew c₂ hc₂ h₁)
  · rw [hothers c₁ hc₁] at h₁
    by_cases hc₂ : c₂ = c
    · rw [hc₂] at h₂
      exact absurd h₁ (hnew c₁ hc₁ h₂)
    · rw [hothers c₂ hc₂] at h₂
      exact hold c₁ c₂ h₁ h₂

end Xv6.Lib
