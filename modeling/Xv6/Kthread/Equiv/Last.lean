import Xv6.Kthread.Equiv.Join

/-!
# The last thread of a process terminates it

A call of `kthread_exit` goes through stages (`Stage`). At most one CPU is past the decision to call
`exit(0)`, and then none is before it (`LastInv.finish`); when no thread is live some CPU is at one
of these (`LastInv.closing`).
-/

namespace Xv6.Kthread

open Lib
open Function (update update_of_ne update_self)

/-! ### The stages of `kthread_exit` -/

/-- The stages of `kthread_exit`. -/
inductive Stage where
  | none
  -- about to mark itself
  | marking
  -- it has marked itself, and looks for a live thread
  | undecided
  -- it has found none, or one
  | last
  | found
  -- it has called `exit(0)`, or is about to switch to the scheduler
  | exited
  | sched
  deriving DecidableEq

def Stage.next : Stage → Stage → Bool
  | .none, .none | .none, .marking | .marking, .undecided | .undecided, .undecided
  | .undecided, .last | .undecided, .found | .last, .last | .last, .exited | .found, .sched => true
  | _, _ => false

def Stage.closing : Stage → Bool
  | .undecided | .last | .exited => true
  | _ => false

/-- No other thread is left. -/
def Stage.finishing : Stage → Bool
  | .last | .exited => true
  | _ => false

def Line.stage : Line → Stage
  | .zombie _ => .marking
  | .exitLock | .check _ => .undecided
  | .lastUnlock | .lastRelease | .exit | .wakeup _ _ .exit => .last
  | .exited => .exited
  | .found => .found
  | .exitSched => .sched
  | _ => .none

def Loc.stage : Loc → Stage
  | .run _ line => line.stage
  | _ => .none

section Stages

variable {d d' : Table} {j l : Fin nthread} {status : Int}

theorem stage_treparentNext : (Line.treparentNext status l).stage = .none := by
  unfold Line.treparentNext
  split_ifs <;> rfl

theorem stage_checkNext : Stage.undecided.next (Line.checkNext l).stage = true ∧
    (Line.checkNext l).stage ≠ .exited := by
  unfold Line.checkNext
  split_ifs <;> exact ⟨rfl, nofun⟩

theorem stage_allocNext : (Line.allocNext l).stage = .none := by
  unfold Line.allocNext
  split_ifs <;> rfl

theorem stage_joinNext {tid : Int} : (Line.joinNext tid status l).stage = .none := by
  unfold Line.joinNext
  split_ifs <;> rfl

theorem stage_lookNext : (Loc.lookNext j).stage = .none := by
  unfold Loc.lookNext
  split_ifs <;> rfl

theorem stage_saved {c : Saved} : c.line.stage = .none := by
  cases c <;> rfl

/-- The stages follow each other, and the last one counts a call of `exit`. -/
structure Stage.Goes (d : Table) (st : Stage) (d' : Table) (st' : Stage) : Prop where
  next : st.next st' = true
  exits : d'.exits = if st' = .exited then d.exits + 1 else d.exits

theorem Stage.Goes.none {st st' : Stage} (h : st = .none) (h' : st' = .none)
    (hexits : d'.exits = d.exits) : Stage.Goes d st d' st' := by
  subst h h'
  exact ⟨rfl, hexits⟩

variable {op : LockOp LockId} {ch : Choice}

theorem instr_exits {me : Option (Fin nthread)} {chan : Chan} {w : Wake} {w' : Option Wake}
    (h : w.instr d me chan = (op, w', d')) : d'.exits = d.exits := by
  obtain rfl | ⟨l, -, -, rfl⟩ := Wake.instr_cases h
  · rfl
  · rfl

theorem wakeup_goes {w : Wake} {chan : Chan} (ret : Ret) {w' : Option Wake}
    (h : w.instr d (some j) chan = (op, w', d')) :
    Stage.Goes d (Line.wakeup w chan ret).stage d'
      (w'.elim ret.line fun w' => .wakeup w' chan ret).stage := by
  have hexits := instr_exits h
  cases ret with
  | exit | parent | signal | resume => cases w' <;> exact ⟨rfl, hexits⟩
  | treparent =>
    cases w' with
    | none => exact .none rfl stage_treparentNext hexits
    | some => exact ⟨rfl, hexits⟩

theorem Line.instr_goes {line line' : Line} (h : line.instr d j ch = some (op, some line', d')) :
    Stage.Goes d line.stage d' line'.stage := by
  unfold Line.instr at h
  split at h
  case h_4 e =>
    cases e with
    | joinTest =>
      simp only [Entry.instr] at h
      split_ifs at h
      all_goals
        cases h
        exact ⟨rfl, rfl⟩
    | _ =>
      cases h
      exact ⟨rfl, rfl⟩
  case h_5 w chan ret =>
    obtain ⟨w', hw, heq⟩ := Line.instr_wakeup h
    cases heq
    exact wakeup_goes ret hw
  case h_6 =>
    split_ifs at h
    · cases h
      exact ⟨rfl, rfl⟩
    all_goals
      cases h
      exact .none rfl stage_treparentNext rfl
  case h_7 =>
    split at h
    all_goals
      cases h
      exact ⟨rfl, rfl⟩
  case h_10 =>
    split_ifs at h <;> cases h
    · exact ⟨rfl, rfl⟩
    · exact ⟨stage_checkNext.1, by rw [if_neg stage_checkNext.2]⟩
  case h_17 =>
    split_ifs at h <;> cases h
    · exact ⟨rfl, rfl⟩
    · exact .none rfl stage_allocNext rfl
  case h_21 =>
    split_ifs at h <;> cases h
    · exact ⟨rfl, rfl⟩
    · exact .none rfl stage_joinNext rfl
  case h_1 =>
    split_ifs at h
    all_goals
      cases h
      exact ⟨rfl, rfl⟩
  case h_16 | h_33 | h_37 =>
    unfold sched at h
    split_ifs at h
    simp at h
  case h_26 | h_40 => cases h
  all_goals
    cases h
    exact ⟨rfl, rfl⟩

theorem Line.instr_leaves {line : Line} (h : line.instr d j ch = some (op, none, d')) :
    (line.stage = .none ∨ line.stage = .sched) ∧ d'.exits = d.exits := by
  unfold Line.instr at h
  split at h
  case h_16 | h_33 | h_37 =>
    unfold sched at h
    split_ifs at h
    cases h
    first | exact ⟨.inl rfl, rfl⟩ | exact ⟨.inr rfl, rfl⟩
  case h_4 e =>
    rcases he : e.instr d with ⟨op', line₁, d''⟩
    simp [he] at h
  case h_5 w chan ret =>
    obtain ⟨_, -, heq⟩ := Line.instr_wakeup h
    cases heq
  case h_7 =>
    split at h
    all_goals simp at h
  case h_1 | h_6 | h_10 | h_17 | h_21 =>
    split_ifs at h
    all_goals simp at h
  case h_26 | h_40 => cases h
  all_goals simp at h

/-- An instruction takes a thread to the next stage. -/
theorem Loc.instr_goes {l l' : Loc} (h : l.instr d ch = some (op, l', d')) :
    Stage.Goes d l.stage d' l'.stage ∨
      l.stage = .sched ∧ l'.stage = .none ∧ d'.exits = d.exits := by
  unfold Loc.instr at h
  split at h
  case h_6 wait w chan =>
    obtain ⟨w', hw, rfl⟩ := Loc.instr_wakeup h
    have hexits := instr_exits hw
    cases w' with
    | none | some => exact .inl ⟨rfl, hexits⟩
  case h_7 =>
    split_ifs at h <;> cases h
    · exact .inl ⟨rfl, rfl⟩
    · exact .inl (.none rfl stage_lookNext rfl)
  case h_8 =>
    cases h
    exact .inl (.none rfl stage_saved rfl)
  case h_10 =>
    obtain ⟨line', hline, rfl⟩ := instr_run h
    cases line' with
    | none =>
      obtain ⟨hnone | hsched, hexits⟩ := Line.instr_leaves hline
      · exact .inl (.none hnone stage_lookNext hexits)
      · exact .inr ⟨hsched, stage_lookNext, hexits⟩
    | some =>
      exact .inl (Line.instr_goes hline)
  case h_11 => cases h
  all_goals
    cases h
    exact .inl ⟨rfl, rfl⟩

/-- What is known at each stage. -/
structure Loc.AtStage (d : Table) (l : Loc) : Prop where
  marking : l.stage = .marking → ∃ j status, l = .run j (.zombie status)
  undecided : l.stage = .undecided → l.held .wait
  finishing : l.stage.finishing = true → d.AllDead
  found : l.stage = .found → ∃ j, l = .run j .found

theorem Loc.Holds.atStage {l : Loc} (hl : l.Holds d) : l.AtStage d := by
  cases l with
  | run j line =>
    cases line with
    | zombie status => exact ⟨fun _ => ⟨j, status, rfl⟩, nofun, nofun, nofun⟩
    | exitLock => exact ⟨nofun, fun _ => rfl, nofun, nofun⟩
    | check => exact ⟨nofun, fun _ => .inl rfl, nofun, nofun⟩
    | lastUnlock | lastRelease | exit | exited => exact ⟨nofun, nofun, fun _ => hl, nofun⟩
    | found => exact ⟨nofun, nofun, nofun, fun _ => ⟨j, rfl⟩⟩
    | wakeup w chan ret =>
      cases ret with
      | exit => exact ⟨nofun, nofun, fun _ => hl.2, nofun⟩
      | _ => exact ⟨nofun, nofun, nofun, nofun⟩
    | _ => exact ⟨nofun, nofun, nofun, nofun⟩
  | _ => exact ⟨nofun, nofun, nofun, nofun⟩

theorem gone_of_phase {line : Line} (h : line.phase = .gone) : line.gone = true := by
  by_contra hne
  unfold Line.phase at h
  rw [if_neg hne] at h
  split at h <;> cases h

end Stages

/-! ### Effects on the dead -/

section Dead

variable {d d' : Table} {l l' : Loc} {i : Fin nthread}

/-- A thread dies by its own `kthread_exit`. -/
theorem Effect.dies (h : Effect d l d' l') (hi : d.proc.Live i)
    (hdead : ¬ d'.proc.Live i) :
    (∃ status, l = .run i (.zombie status)) ∧ l' = .run i .exitLock := by
  -- a store of a live state kills no one
  have hkeep : ∀ k st, d'.state = update d.state k st → live st = true →
      d'.proc.Live i := by
    intro k st hstates hst
    rw [live_iff, hstates]
    by_cases hik : i = k
    · subst hik
      rwa [update_self]
    · rw [update_of_ne hik]
      exact hi
  cases h with
  | quiet _ _ states => exact absurd ((live_congr (congrFun states i)).mpr hi) hdead
  | wake k _ _ _ _ states _ => exact absurd (hkeep k _ states rfl) hdead
  | start j _ _ _ _ _ states _ => exact absurd (hkeep j _ states rfl) hdead
  | rest j st hst _ _ _ _ states _ =>
    refine absurd (hkeep j st states ?_) hdead
    obtain rfl | rfl := hst <;> rfl
  | leave _ _ _ _ _ _ _ data | exit _ _ _ data | setup _ _ _ _ data =>
    rw [data] at hdead
    exact absurd hi hdead
  | zombie j status loc loc' data =>
    have hij : i = j := by
      by_contra hne
      rw [data, live_iff, zombie_state, update_of_ne hne] at hdead
      exact hdead hi
    subst hij
    exact ⟨⟨status, loc⟩, loc'⟩
  | alloc j k _ _ data =>
    refine absurd (hkeep k .used ?_ rfl) hdead
    rw [data, alloc_state]
  | create j k _ _ data =>
    refine absurd (hkeep k .runnable ?_ rfl) hdead
    rw [data, setState_state]

/-- A dead thread stays dead until its slot is taken. -/
theorem Effect.zombie_stays (h : Effect d l d' l') (hown : Own d l) (hi : d.state i = .zombie) :
    d'.state i = .zombie ∨ ∃ j, l = .run j (.allocFound i) := by
  -- the thread whose state is stored is in another state
  have hkeep : ∀ k st, d.state k ≠ .zombie → update d.state k st i = .zombie := by
    intro k st hk
    rw [update_of_ne, hi]
    rintro rfl
    exact hk hi
  cases h with
  | quiet _ _ states => exact .inl (by rw [states, hi])
  | wake k _ hk _ _ states _ =>
    rw [states]
    exact .inl (hkeep k _ (by rw [hk]; exact nofun))
  | start j _ hj _ _ _ states _ =>
    rw [states]
    exact .inl (hkeep j _ (by rw [hj]; exact nofun))
  | rest j st _ _ on _ _ states _ =>
    rw [states]
    exact .inl (hkeep j _ (by rw [hown.active j on]; exact nofun))
  | leave _ _ _ _ _ _ _ data | exit _ _ _ data | setup _ _ _ _ data =>
    rw [data]
    exact .inl hi
  | zombie j status loc _ data =>
    rw [data, zombie_state]
    exact .inl (hkeep j _ (by rw [hown.active j (by rw [loc]; rfl)]; exact nofun))
  | alloc j k loc _ data =>
    by_cases hik : i = k
    · subst hik
      exact .inr ⟨j, loc⟩
    · rw [data, alloc_state, update_of_ne hik, hi]
      exact .inl rfl
  | create j k loc _ data =>
    subst loc
    rw [data, setState_state]
    exact .inl (hkeep k _ (by rw [hown.used k true rfl]; exact nofun))

/-- The thread on a CPU that has marked itself did so in this step, or before. -/
theorem Effect.on_gone (h : Effect d l d' l') (hi : l'.on = some (i, .gone)) :
    l.on = some (i, .gone) ∨ l.on = some (i, .active) ∧ d'.state i = .zombie := by
  cases h with
  | quiet on _ _ _ | wake _ _ _ on _ _ _ =>
    rw [on] at hi
    exact .inl hi
  | start j _ _ _ _ loc' _ _ =>
    rw [loc', Loc.on, (phase_saved _).1] at hi
    cases hi
  | rest _ _ _ _ _ on' | leave _ _ _ _ _ on' =>
    rw [on'] at hi
    cases hi
  | zombie j status loc loc' data =>
    rw [loc'] at hi
    obtain ⟨rfl, -⟩ := Prod.mk.inj (Option.some.inj hi)
    rw [loc, data, zombie_state, update_self]
    exact .inr ⟨rfl, rfl⟩
  | exit j loc loc' =>
    rw [loc'] at hi
    rw [loc]
    exact .inl hi
  | alloc j k _ loc' | setup j k _ loc' | create j k _ loc' =>
    rw [loc'] at hi
    cases hi

end Dead

/-! ### The invariant -/

variable {κ : Type*}

/-- The invariant of the exits of all threads. -/
structure LastInv (s : State κ) : Prop where
  threads : ThreadInv s
  -- a thread in `kthread_exit` stays marked, and keeps its slot
  gone : ∀ c j, (s.loc c).on = some (j, .gone) → s.data.state j = .zombie
  goneUnique : ∀ c c' j, (s.loc c).on = some (j, .gone) → (s.loc c').on = some (j, .gone) → c = c'
  finish : ∀ c c', (s.loc c).stage.finishing = true → (s.loc c').stage.closing = true → c = c'
  closing : s.data.AllDead → ∃ c, (s.loc c).stage.closing = true
  sched : ∀ c j, s.loc c = .run j .exitSched →
    (∃ i, i ≠ j ∧ s.data.proc.Live i) ∨ ∃ c' i, i ≠ j ∧ s.loc c' = .run i .exitLock
  exits : s.data.exits = 0 ∧ (∀ c, (s.loc c).stage ≠ .exited) ∨
    s.data.exits = 1 ∧ ∃ c, (s.loc c).stage = .exited

variable {s : State κ}

/-- A thread that goes to `sched` has left a live one. -/
theorem LastInv.found_live (h : LastInv s) {c : κ} {j : Fin nthread}
    (hloc : s.loc c = .run j .found) : ∃ i, i ≠ j ∧ s.data.proc.Live i := by
  have hholds := h.threads.holds c
  rw [hloc] at hholds
  obtain ⟨i, hi⟩ := hholds
  refine ⟨i, ?_, hi⟩
  rintro rfl
  have hz := h.gone c i (by rw [hloc]; rfl)
  rw [live_iff, hz] at hi
  cases hi

section Step

variable [DecidableEq κ] {s s' : State κ} {c : κ} {ch : Choice}

variable {st st' : Stage}

section

variable (h : st.next st' = true)

include h

theorem next_finishing (h' : st'.finishing = true) :
    st = .undecided ∨ st = .last := by
  cases st <;> cases st' <;> simp_all [Stage.next, Stage.finishing]

theorem next_closing (h' : st'.closing = true) :
    st = .marking ∨ st.closing = true := by
  cases st <;> cases st' <;> simp_all [Stage.next, Stage.closing]

theorem closing_next (h' : st.closing = true) :
    st' = .found ∨ st'.closing = true := by
  cases st <;> cases st' <;> simp_all [Stage.next, Stage.closing]

theorem next_exited :
    st ≠ .exited ∧ (st' = .exited → st = .last) := by
  cases st <;> cases st' <;> simp_all [Stage.next]

end

theorem next_sched {st : Stage} (h : st.next .sched = true) : st = .found := by
  cases st with
  | found => rfl
  | _ => cases h

theorem step_goes (hstep : kthreadCode.machine.step s (c, ch) = some s') :
    Stage.Goes s.data (s.loc c).stage s'.data (s'.loc c).stage ∨
      (s.loc c).stage = .sched ∧ (s'.loc c).stage = .none ∧ s'.data.exits = s.data.exits := by
  obtain ⟨op, l, d, owner, hinstr, -, rfl⟩ := SpinCode.step_eq_some hstep
  show Stage.Goes s.data (s.loc c).stage d (update s.loc c l c).stage ∨
    (s.loc c).stage = .sched ∧ (update s.loc c l c).stage = .none ∧ d.exits = s.data.exits
  rw [update_self]
  exact Loc.instr_goes hinstr

theorem exitLock_waits {i : Fin nthread} (hloc : s.loc c = .run i .exitLock)
    (howner : s.owner .proc ≠ none) : kthreadCode.machine.step s (c, ch) = none := by
  rw [← Option.not_isSome_iff_eq_none, Option.isSome_iff_exists]
  rintro ⟨s', hstep⟩
  obtain ⟨op, l, d, owner, hinstr, hlock, -⟩ := SpinCode.step_eq_some hstep
  rw [hloc] at hinstr
  cases ch with
  | next =>
    have hop : some (LockOp.acquire LockId.proc, Loc.run i (.check 0), s.data) = some (op, l, d) :=
      hinstr
    obtain ⟨rfl, -⟩ := Prod.mk.inj (Option.some.inj hop)
    rw [lockStep, if_neg howner] at hlock
    cases hlock
  | _ =>
    have hnone : none = some (op, l, d) := hinstr
    cases hnone

variable (h : LastInv s) (hs : Stepped s s' c)

include h hs

theorem LastInv.step_gone {a : κ × Choice} (ha : a.1 = c) (hok : NotInUse s a) (c' : κ)
    (j : Fin nthread) (hj : (s'.loc c').on = some (j, .gone)) : s'.data.state j = .zombie := by
  -- the guard: the slot of a thread in `kthread_exit` is not taken
  have hstays : ∀ c₁, (s.loc c₁).on = some (j, .gone) → s'.data.state j = .zombie := by
    intro c₁ hc₁
    obtain hz | ⟨i, hi⟩ := hs.effect.zombie_stays (h.threads.own c) (h.gone c₁ j hc₁)
    · exact hz
    exfalso
    cases hl : s.loc c₁ with rw [hl] at hc₁
    | run =>
      obtain ⟨rfl, hphase⟩ := Prod.mk.inj (Option.some.inj hc₁)
      rw [NotInUse, ha, hi] at hok
      refine hok c₁ ?_
      rw [hl, Loc.goneThread, if_pos (gone_of_phase hphase)]
    | _ =>
      cases hc₁
  by_cases hc : c' = c
  · rw [hc] at hj
    obtain hgone | ⟨-, hz⟩ := hs.effect.on_gone hj
    · exact hstays c hgone
    · exact hz
  · rw [hs.others c' hc] at hj
    exact hstays c' hj

omit [DecidableEq κ] in
theorem LastInv.step_goneUnique_aux {c' : κ} {j : Fin nthread} (hc : c' ≠ c)
    (hj : (s'.loc c).on = some (j, .gone)) (hj' : (s.loc c').on = some (j, .gone)) : False := by
  obtain hgone | ⟨hactive, -⟩ := hs.effect.on_gone hj
  · exact hc (h.goneUnique c' c j hj' hgone)
  · have hz := h.gone c' j hj'
    rw [h.threads.active c j hactive] at hz
    cases hz

omit [DecidableEq κ] in
theorem LastInv.step_goneUnique (c₁ c₂ : κ) (j : Fin nthread)
    (h₁ : (s'.loc c₁).on = some (j, .gone)) (h₂ : (s'.loc c₂).on = some (j, .gone)) :
    c₁ = c₂ :=
  unique_step (Q := fun l => l.on = some (j, .gone)) hs.others (fun c₁ c₂ => h.goneUnique c₁ c₂ j)
    (fun _ hc => h.step_goneUnique_aux hs hc) c₁ c₂ h₁ h₂

variable (hstep : kthreadCode.machine.step s (c, ch) = some s')

include hstep

/-- One thread finds itself the last one. -/
theorem LastInv.step_finish (c₁ c₂ : κ) (h₁ : (s'.loc c₁).stage.finishing = true)
    (h₂ : (s'.loc c₂).stage.closing = true) : c₁ = c₂ := by
  by_cases hc₁ : c₁ = c
  · by_cases hc₂ : c₂ = c
    · rw [hc₁, hc₂]
    rw [hc₁] at h₁
    rw [hs.others c₂ hc₂] at h₂
    obtain hgoes | ⟨-, hnone, -⟩ := step_goes hstep
    · obtain hund | hlast := next_finishing hgoes.next h₁
      · -- it has decided with `wait_lock`, so that no other one is undecided
        have hwait := (h.threads.holds c).atStage.undecided hund
        cases hst : (s.loc c₂).stage with
        | undecided =>
          have hwait₂ := (h.threads.holds c₂).atStage.undecided hst
          exact absurd hwait₂ (hs.locks c₂ hc₂ _ hwait)
        | last | exited =>
          exact absurd (h.finish c₂ c (by rw [hst]; rfl) (by rw [hund]; rfl)) hc₂
        | _ =>
          rw [hst] at h₂
          cases h₂
      · rw [hc₁]
        exact h.finish c c₂ (by rw [hlast]; rfl) h₂
    · rw [hnone] at h₁
      cases h₁
  · rw [hs.others c₁ hc₁] at h₁
    by_cases hc₂ : c₂ = c
    · rw [hc₂] at h₂ ⊢
      obtain hgoes | ⟨-, hnone, -⟩ := step_goes hstep
      · obtain hmark | hclosing := next_closing hgoes.next h₂
        · -- the thread that marks itself was live
          exfalso
          obtain ⟨j, status, hloc⟩ := (h.threads.holds c).atStage.marking hmark
          have hrun := h.threads.active c j (by rw [hloc]; rfl)
          exact (h.threads.holds c₁).atStage.finishing h₁ j (live_of_state hrun rfl)
        · exact h.finish c₁ c h₁ hclosing
      · rw [hnone] at h₂
        cases h₂
    · rw [hs.others c₂ hc₂] at h₂
      exact h.finish c₁ c₂ h₁ h₂

/-- When all threads are dead, one of them is in the part that looks for others. -/
theorem LastInv.step_closing (hdead : s'.data.AllDead) :
    ∃ c', (s'.loc c').stage.closing = true := by
  by_cases hall : s.data.AllDead
  · obtain ⟨c', hc'⟩ := h.closing hall
    by_cases hc : c' = c
    · rw [hc] at hc'
      obtain hgoes | ⟨hsched, -⟩ := step_goes hstep
      · obtain hfound | hclosing := closing_next hgoes.next hc'
        · obtain ⟨j, hloc'⟩ := hs.holds.atStage.found hfound
          have hholds := hs.holds
          rw [hloc'] at hholds
          obtain ⟨i, hi⟩ := hholds
          exact absurd hi (hdead i)
        · exact ⟨c, hclosing⟩
      · rw [hsched] at hc'
        cases hc'
    · exact ⟨c', by rwa [hs.others c' hc]⟩
  · -- the last live thread has marked itself
    obtain ⟨i, hi⟩ := not_forall_not.mp hall
    obtain ⟨-, hloc'⟩ := hs.effect.dies hi (hdead i)
    exact ⟨c, by rw [hloc']; rfl⟩

theorem LastInv.step_sched (c' : κ) (j : Fin nthread) (hloc' : s'.loc c' = .run j .exitSched) :
    (∃ i, i ≠ j ∧ s'.data.proc.Live i) ∨ ∃ c₁ i, i ≠ j ∧ s'.loc c₁ = .run i .exitLock := by
  -- a thread that was live is so still, or has marked itself
  have hlives : (∃ i, i ≠ j ∧ s.data.proc.Live i) →
      (∃ i, i ≠ j ∧ s'.data.proc.Live i) ∨ ∃ c₁ i, i ≠ j ∧ s'.loc c₁ = .run i .exitLock := by
    rintro ⟨i, hij, hi⟩
    by_cases hi' : s'.data.proc.Live i
    · exact .inl ⟨i, hij, hi'⟩
    · exact .inr ⟨c, i, hij, (hs.effect.dies hi hi').2⟩
  by_cases hc : c' = c
  · subst hc
    obtain hgoes | ⟨-, hnone, -⟩ := step_goes hstep
    · rw [hloc'] at hgoes
      obtain ⟨i, hloc⟩ := (h.threads.holds c').atStage.found (next_sched hgoes.next)
      obtain hgone | ⟨hactive, -⟩ := hs.effect.on_gone (by rw [hloc']; rfl)
      · rw [hloc] at hgone
        obtain ⟨rfl, -⟩ := Prod.mk.inj (Option.some.inj hgone)
        exact hlives (h.found_live hloc)
      · rw [hloc] at hactive
        cases hactive
    · rw [hloc'] at hnone
      cases hnone
  · rw [hs.others c' hc] at hloc'
    obtain hlive | ⟨c₁, i, hij, hc₁⟩ := h.sched c' j hloc'
    · exact hlives hlive
    by_cases hcc : c₁ = c
    · -- it waits for the lock that `c'` holds
      exfalso
      subst hcc
      have howner := (h.threads.owned .proc c').mpr (by rw [hloc']; rfl)
      rw [exitLock_waits hc₁ (by rw [howner]; exact nofun)] at hstep
      cases hstep
    · exact .inr ⟨c₁, i, hij, by rw [hs.others c₁ hcc, hc₁]⟩

/-- `exit` is called once at most. -/
theorem LastInv.step_exits :
    s'.data.exits = 0 ∧ (∀ c, (s'.loc c).stage ≠ .exited) ∨
      s'.data.exits = 1 ∧ ∃ c, (s'.loc c).stage = .exited := by
  by_cases hexited : (s'.loc c).stage = .exited
  · obtain hgoes | ⟨-, hnone, -⟩ := step_goes hstep
    · -- the call of `exit(0)`; no other CPU is as far
      have hlast := (next_exited hgoes.next).2 hexited
      have hexits := hgoes.exits
      rw [if_pos hexited] at hexits
      obtain ⟨hzero, -⟩ | ⟨-, c', hc'⟩ := h.exits
      · exact .inr ⟨by rw [hexits, hzero], c, hexited⟩
      · obtain rfl := h.finish c' c (by rw [hc']; rfl) (by rw [hlast]; rfl)
        rw [hlast] at hc'
        cases hc'
    · rw [hnone] at hexited
      cases hexited
  · have hkeep : s'.data.exits = s.data.exits ∧ (s.loc c).stage ≠ .exited := by
      obtain hgoes | ⟨hsched, -, hexits⟩ := step_goes hstep
      · have hexits := hgoes.exits
        rw [if_neg hexited] at hexits
        exact ⟨hexits, (next_exited hgoes.next).1⟩
      · exact ⟨hexits, by rw [hsched]; exact nofun⟩
    obtain ⟨hzero, hnone⟩ | ⟨hone, c', hc'⟩ := h.exits
    · refine .inl ⟨by rw [hkeep.1, hzero], fun c' => ?_⟩
      by_cases hc : c' = c
      · rwa [hc]
      · rw [hs.others c' hc]
        exact hnone c'
    · have hc : c' ≠ c := by
        rintro rfl
        exact hkeep.2 hc'
      exact .inr ⟨by rw [hkeep.1, hone], c', by rwa [hs.others c' hc]⟩

end Step

/-! ### Runs -/

/-- One step keeps the invariant, if no slot of an exiting thread is taken. -/
theorem LastInv.step [DecidableEq κ] {s s' : State κ} {a : κ × Choice} (h : LastInv s)
    (hok : NotInUse s a) (hstep : kthreadCode.machine.step s a = some s') : LastInv s' := by
  obtain ⟨c, ch⟩ := a
  have hs := h.threads.stepped hstep
  exact {
    threads := h.threads.step hstep
    gone := h.step_gone hs rfl hok
    goneUnique := h.step_goneUnique hs
    finish := h.step_finish hs hstep
    closing := h.step_closing hs hstep
    sched := h.step_sched hs hstep
    exits := h.step_exits hs hstep }

theorem unused_or_zombie {st : ProcState} (h : ¬ live st = true) : st = .unused ∨ st = .zombie := by
  cases st with
  | unused => exact .inl rfl
  | zombie => exact .inr rfl
  | _ => exact absurd rfl h

/-- The invariant says that the last thread ends the process. -/
theorem LastInv.lastOut (h : LastInv s) : LastOut s where
  exit c j hloc l _ := by
    have hall := h.threads.holds c
    rw [hloc] at hall
    exact unused_or_zombie (hall l)
  found c j hloc := h.found_live hloc
  sched c j hloc := by
    obtain hlive | ⟨c', i, hij, hc'⟩ := h.sched c j hloc
    · exact .inl hlive
    · exact .inr ⟨c', i, .exitLock, hij, hc', rfl⟩
  once := by
    obtain ⟨hzero, -⟩ | ⟨hone, -⟩ := h.exits
    · omega
    · omega
  all hdead hleft := by
    obtain ⟨-, hnone⟩ | ⟨hone, -⟩ := h.exits
    · -- some CPU would be on its way to `exit(0)`
      exfalso
      obtain ⟨c, hc⟩ := h.closing hdead
      cases hl : s.loc c with
      | run j line =>
        have hexiting := hleft c j line hl
        have hne := hnone c
        rw [hl] at hc hne
        cases line with
        | exitLock | check | lastUnlock | lastRelease | exit => cases hexiting
        | exited => exact hne rfl
        | wakeup w chan ret =>
          cases ret with
          | exit => cases hexiting
          | _ => cases hc
        | _ => cases hc
      | _ =>
        rw [hl] at hc
        cases hc
    · exact hone

theorem Start.lastInv (h : Start s) : LastInv s := by
  refine ⟨h.threadInv, fun c j hj => ?_, fun c c' j hj => ?_, fun c c' hc => ?_, fun hdead => ?_,
    fun c j hloc => ?_, .inl ⟨h.exits, fun c => ?_⟩⟩
  · rw [h.loc c] at hj
    cases hj
  · rw [h.loc c] at hj
    cases hj
  · rw [h.loc c] at hc
    cases hc
  · refine absurd (live_of_state (h.fresh.state 0) ?_) (hdead 0)
    rw [if_pos rfl]
    rfl
  · rw [h.loc c] at hloc
    cases hloc
  · rw [h.loc c]
    exact nofun

/-- **Last thread out**: as long as no slot is taken whose last thread is still in `kthread_exit`,
`exit(0)` is called by the last thread and by no other one. -/
theorem last_thread_out [DecidableEq κ] (s₀ s : State κ) (as : List (κ × Choice)) (h₀ : Start s₀)
    (hok : kthreadCode.machine.Meets NotInUse s₀ as) (hrun : kthreadCode.machine.run s₀ as = some s) :
    LastOut s := by
  refine LastInv.lastOut ?_
  exact Machine.invariant_of_meets _ (fun s a s' h hok hstep => h.step hok hstep) as s₀ s
    h₀.lastInv hok hrun

def oneExits : List (Unit × Choice) := ((), .call (.exit 0)) :: nexts 23

/-- Thread 2 leaves thread 1 behind; thread 1 is the last one. -/
theorem oneExits_lastOut :
    Start startState ∧
      kthreadCode.machine.Meets NotInUse startState (createTwo ++ twoExits ++ oneExits) ∧
      ∃ s, kthreadCode.machine.run startState (createTwo ++ twoExits ++ oneExits) = some s ∧
        s.loc () = .run 0 .exited ∧ s.data.exits = 1 ∧ LastOut s := by
  have hok : kthreadCode.machine.Meets NotInUse startState
      (createTwo ++ twoExits ++ oneExits) := by decide +kernel
  exact ⟨startState_start, hok, _, rfl, rfl, rfl,
    last_thread_out startState _ _ startState_start hok rfl⟩

end Xv6.Kthread
