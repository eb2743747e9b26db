import Xv6.Kthread.Equiv.Effect

/-!
# The threads of a process on the CPUs

`ThreadInv` holds in every reachable state: what a CPU relies on is true, a thread that runs is
`RUNNING` and on one CPU, and a slot that `kthread_create` has taken is `USED` until its one creator
(`Makes`) makes it `RUNNABLE`.
-/

namespace Xv6.Kthread

open Lib
open Function (update update_of_ne update_self)

variable {κ : Type*}

def waiting (st : ProcState) : Prop := st = .sleeping ∨ st = .runnable

/-- A CPU, or a thread that is to run again, is about to make slot `k` `RUNNABLE`. -/
inductive Makes (s : State κ) (k : Fin nthread) (b : Bool) : κ ⊕ Fin nthread → Prop where
  | cpu (c : κ) (h : (s.loc c).making = some (k, b)) : Makes s k b (.inl c)
  | saved (j : Fin nthread) (hj : waiting (s.data.state j))
      (hon : ∀ c, (s.loc c).on ≠ some (j, .leaving))
      (h : (s.data.context j).making = some (k, b)) : Makes s k b (.inr j)

/-- The invariant of the threads of one process on several CPUs. -/
structure ThreadInv (s : State κ) : Prop where
  owned : SpinCode.Owned Loc.held s
  holds : ∀ c, (s.loc c).Holds s.data
  active : ∀ c j, (s.loc c).on = some (j, .active) → s.data.state j = .running
  unique : ∀ c c' j, (s.loc c).on = some (j, .active) → (s.loc c').on = some (j, .active) → c = c'
  used : ∀ x k b, Makes s k b x → s.data.state k = .used
  ready : ∀ x k, Makes s k true x → (s.data.context k).making = none
  maker : ∀ x y k b b', Makes s k b x → Makes s k b' y → x = y

/-! ### Effects on the states -/

section States

variable {d d' : Table} {l l' : Loc} {i j k : Fin nthread}

theorem live_of_state {st : ProcState} (h : d.state i = st) (hst : live st = true) :
    d.proc.Live i := by
  rw [live_iff, h]
  exact hst

theorem live_congr (h : d'.state i = d.state i) : d'.proc.Live i ↔ d.proc.Live i := by
  rw [live_iff, h, live_iff]

theorem alloc_state : (d.alloc j k).state = update d.state k .used := by
  ext i
  by_cases hi : i = k
  · subst hi
    rw [update_self, Table.state, Table.alloc, Proc.alloc_threads_same]
  · rw [update_of_ne hi, Table.state, Table.alloc, Proc.alloc_threads_of_ne hi, Table.state]

theorem zombie_state {status : Int} :
    (d.zombie j status).state = update d.state j .zombie := by
  ext i
  by_cases hi : i = j
  · subst hi
    rw [update_self, Table.state, Table.zombie, Proc.setThread_threads_same]
  · rw [update_of_ne hi, Table.state, Table.zombie, Proc.setThread_threads_of_ne hi, Table.state]

@[simp] theorem save_context_same {context : Saved} : (d.save j context).context j = context :=
  update_self ..

theorem save_context_of_ne {context : Saved} (h : i ≠ j) :
    (d.save j context).context i = d.context i := update_of_ne h ..

/-- What the CPU of an instruction knows of its own thread. -/
structure Own (d : Table) (l : Loc) : Prop where
  holds : l.Holds d
  active : ∀ j, l.on = some (j, .active) → d.state j = .running
  used : ∀ k b, l.making = some (k, b) → d.state k = .used

theorem ThreadInv.own {s : State κ} (h : ThreadInv s) (c : κ) : Own s.data (s.loc c) :=
  ⟨h.holds c, h.active c, fun k b hk => h.used (.inl c) k b (.cpu c hk)⟩

/-- An instruction changes at most the state of one thread, and then some thread is live; without
the lock of the process only that of a thread which exits, or that of one which is created. -/
theorem Effect.states (h : Effect d l d' l') (hown : Own d l) :
    d'.state = d.state ∨ (∃ i, d.proc.Live i) ∧
      (l.held .proc ∨
        (∃ j, d.state j = .running ∧ l.held .wait ∧ d'.state = update d.state j .zombie) ∨
        ∃ k, d.state k = .used ∧ d'.state = update d.state k .runnable) := by
  cases h with
  | quiet _ _ states => exact .inl states
  | wake k held hk => exact .inr ⟨⟨k, live_of_state hk rfl⟩, .inl held⟩
  | start j held hj => exact .inr ⟨⟨j, live_of_state hj rfl⟩, .inl held⟩
  | rest j st _ held on =>
    exact .inr ⟨⟨j, live_of_state (hown.active j on) rfl⟩, .inl held⟩
  | leave _ _ _ _ _ _ _ data | exit j _ _ data | setup j k _ _ data =>
    rw [data]
    exact .inl rfl
  | zombie j status loc _ data =>
    subst loc
    have hj := hown.active j rfl
    rw [data]
    exact .inr ⟨⟨j, live_of_state hj rfl⟩, .inr (.inl ⟨j, hj, rfl, zombie_state⟩)⟩
  | alloc j k loc =>
    subst loc
    exact .inr ⟨⟨j, live_of_state (hown.active j rfl) rfl⟩, .inl rfl⟩
  | create j k loc _ data =>
    subst loc
    have hk := hown.used k true rfl
    rw [data]
    exact .inr ⟨⟨k, live_of_state hk rfl⟩, .inr (.inr ⟨k, hk, setState_state k _⟩)⟩

/-- A thread on another CPU stays `RUNNING`. -/
theorem Effect.running (h : Effect d l d' l') (hown : Own d l) (hi : d.state i = .running)
    (hne : l.on ≠ some (i, .active)) : d'.state i = .running := by
  -- the thread whose state is stored is in another state, or it is on this CPU
  have hkeep : ∀ k st, d.state k ≠ .running → update d.state k st i = .running := by
    intro k st hk
    rw [update_of_ne, hi]
    rintro rfl
    exact hk hi
  have hself : ∀ j st, l.on = some (j, .active) → update d.state j st i = .running := by
    intro j st hj
    rw [update_of_ne, hi]
    rintro rfl
    exact hne hj
  cases h with
  | quiet _ _ states => rw [states, hi]
  | wake k _ hk _ _ states _ =>
    rw [states]
    exact hkeep k _ (by rw [hk]; exact nofun)
  | start j _ hj _ _ _ states _ =>
    rw [states]
    exact hkeep j _ (by rw [hj]; exact nofun)
  | rest j st _ _ on _ _ states =>
    rw [states]
    exact hself j st on
  | leave _ _ _ _ _ _ _ data | exit j _ _ data | setup j k _ _ data =>
    rw [data]
    exact hi
  | zombie j status loc _ data =>
    rw [data, zombie_state]
    exact hself j _ (by rw [loc]; rfl)
  | alloc j k loc _ data =>
    rw [data, alloc_state]
    refine hkeep k _ fun hk => ?_
    subst loc
    exact hown.holds (live_of_state hk rfl)
  | create j k loc _ data =>
    rw [data, setState_state]
    refine hkeep k _ ?_
    subst loc
    rw [hown.used k true rfl]
    exact nofun

/-- The thread that runs on the CPU after the instruction ran there before, or was `RUNNABLE`. -/
theorem Effect.active (h : Effect d l d' l') (hown : Own d l) (hj : l'.on = some (j, .active)) :
    d'.state j = .running ∧ (l.on = some (j, .active) ∨ d.state j = .runnable) := by
  cases h with
  | quiet on _ states =>
    rw [on] at hj
    rw [states]
    exact ⟨hown.active j hj, .inl hj⟩
  | wake k _ hk on _ states _ =>
    rw [on] at hj
    have hrun := hown.active j hj
    refine ⟨?_, .inl hj⟩
    rw [states, update_of_ne, hrun]
    rintro rfl
    rw [hrun] at hk
    cases hk
  | start i _ hi _ _ loc' states _ =>
    rw [loc', Loc.on, (phase_saved _).1] at hj
    obtain ⟨rfl, -⟩ := Prod.mk.inj (Option.some.inj hj)
    rw [states, update_self]
    exact ⟨rfl, .inr hi⟩
  | rest i st _ _ _ on' | leave _ _ _ _ _ on' =>
    rw [on'] at hj
    cases hj
  | zombie i status _ loc' | exit i _ loc' =>
    rw [loc'] at hj
    cases hj
  | alloc i k loc loc' data =>
    subst loc loc'
    have hrun := hown.active j hj
    refine ⟨?_, .inl hj⟩
    rw [data, alloc_state, update_of_ne, hrun]
    rintro rfl
    exact hown.holds (live_of_state hrun rfl)
  | setup i k loc loc' data =>
    subst loc loc'
    rw [data]
    exact ⟨hown.active j hj, .inl hj⟩
  | create i k loc loc' data =>
    subst loc loc'
    have hrun := hown.active j hj
    refine ⟨?_, .inl hj⟩
    rw [data, setState_state, update_of_ne, hrun]
    rintro rfl
    rw [hown.used j true rfl] at hrun
    cases hrun

end States

/-! ### What the other CPUs rely on -/

section Stable

variable {d d' : Table} {l l' l₂ : Loc}

theorem Wake.Holds.congr {w : Wake} (hw : w.Holds d) (h : ∀ k, w = .set k → d'.state k = d.state k)
    : w.Holds d' := by
  cases w with
  | set k =>
    show d'.state k = .sleeping
    rw [h k rfl]
    exact hw
  | lock | test | unlock => trivial

theorem Loc.Holds.congr (hl : l.Holds d) (h : d'.state = d.state) : l.Holds d' := by
  have hlive : ∀ i, d'.proc.Live i ↔ d.proc.Live i := fun i => live_congr (congrFun h i)
  cases l with
  | away | look | unlock => trivial
  | wakeup => exact Wake.Holds.congr hl fun k _ => congrFun h k
  | set j => exact (congrFun h j).trans hl
  | run j line =>
    cases line with
    | wakeup w chan ret =>
      cases ret with
      | exit =>
        exact ⟨hl.1.congr fun k _ => congrFun h k, fun i hi => hl.2 i ((hlive i).mp hi)⟩
      | _ => exact Wake.Holds.congr hl fun k _ => congrFun h k
    | check => exact fun i hi hlv => hl i hi ((hlive i).mp hlv)
    | lastUnlock | lastRelease | exit | exited => exact fun i hi => hl i ((hlive i).mp hi)
    | found =>
      obtain ⟨i, hi⟩ := hl
      exact ⟨i, (hlive i).mpr hi⟩
    | allocFound k => exact fun hi => hl ((hlive k).mp hi)
    | sleepSched | yieldSched => exact (congrFun h j).trans hl
    | _ => trivial

/-- A CPU that does not hold the lock of the process relies on nothing but that no thread is
left. -/
theorem Loc.Holds.of_not_held (hl : l.Holds d) (hheld : ¬ l.held .proc)
    (hlive : ∃ i, d.proc.Live i) : l.Holds d' := by
  obtain ⟨i, hi⟩ := hlive
  cases l with
  | away | look | unlock => trivial
  | wakeup wait w =>
    cases w with
    | lock => trivial
    | _ => exact absurd (.inr rfl) hheld
  | set => exact absurd rfl hheld
  | run j line =>
    cases line with
    | wakeup w chan ret =>
      cases w with
      | lock =>
        cases ret with
        | exit => exact absurd hi (hl.2 i)
        | _ => trivial
      | _ => exact absurd (.inr rfl) hheld
    | lastRelease | exit | exited => exact absurd hi (hl i)
    | check tt | lastUnlock | found => exact absurd (.inr rfl) hheld
    | allocFound | sleepSched | yieldSched => exact absurd rfl hheld
    | _ => trivial

/-- A CPU does not rely on the state of a thread that is `RUNNING` or `USED`, but for a live thread
that `kthread_exit` has found. -/
theorem Loc.Holds.of_update {j : Fin nthread} {st : ProcState} (hl : l.Holds d)
    (hj : d.state j = .running ∨ d.state j = .used) (h : d'.state = update d.state j st)
    (hfound : live st = true ∨ ¬ l.held .wait) : l.Holds d' := by
  have hjlive : d.proc.Live j := by
    obtain hj | hj := hj
    · exact live_of_state hj rfl
    · exact live_of_state hj rfl
  have hkeep : ∀ k, d.state k = .sleeping ∨ d.state k = .runnable → d'.state k = d.state k := by
    intro k hk
    rw [h, update_of_ne]
    rintro rfl
    obtain hj | hj := hj
    · rw [hj] at hk
      simp at hk
    · rw [hj] at hk
      simp at hk
  have hdead : ∀ k, ¬ d.proc.Live k → ¬ d'.proc.Live k := by
    intro k hk
    rwa [live_congr]
    rw [h, update_of_ne]
    rintro rfl
    exact hk hjlive
  have hwake : ∀ w : Wake, w.Holds d → w.Holds d' := by
    intro w hw
    refine hw.congr fun k hk => hkeep k (.inl ?_)
    rw [hk] at hw
    exact hw
  cases l with
  | away | look | unlock => trivial
  | wakeup wait w => exact hwake w hl
  | set k => exact (hkeep k (.inr hl)).trans hl
  | run i line =>
    cases line with
    | wakeup w chan ret =>
      cases ret with
      | exit => exact ⟨hwake w hl.1, fun k => hdead k (hl.2 k)⟩
      | _ => exact hwake w hl
    | check => exact fun k hk => hdead k (hl k hk)
    | lastUnlock | lastRelease | exit | exited => exact fun k => hdead k (hl k)
    | found =>
      obtain hst | hwait := hfound
      · refine ⟨j, live_of_state ?_ hst⟩
        rw [h, update_self]
      · exact absurd (.inl rfl) hwait
    | allocFound k => exact hdead k hl
    | sleepSched => exact (hkeep i (.inl hl)).trans hl
    | yieldSched => exact (hkeep i (.inr hl)).trans hl
    | _ => trivial

/-- What a CPU relies on stays true when another one, which does not hold its locks, executes an
instruction. -/
theorem Effect.stable (h : Effect d l d' l') (hown : Own d l) (hl₂ : l₂.Holds d)
    (hlock : ∀ m, l.held m → ¬ l₂.held m) : l₂.Holds d' := by
  obtain heq | ⟨hlive, hproc | ⟨j, hj, hwait, hz⟩ | ⟨k, hk, hr⟩⟩ := h.states hown
  · exact hl₂.congr heq
  · exact hl₂.of_not_held (hlock _ hproc) hlive
  · exact hl₂.of_update (.inl hj) hz (.inr (hlock _ hwait))
  · exact hl₂.of_update (.inr hk) hr (.inl rfl)

end Stable

/-! ### Steps -/

theorem ThreadInv.on_ne {s : State κ} (h : ThreadInv s) {c c' : κ} {j : Fin nthread} (hc : c' ≠ c)
    (hj : (s.loc c').on = some (j, .active)) : (s.loc c).on ≠ some (j, .active) := fun hj' =>
  hc (h.unique c' c j hj hj')

section Step

variable [DecidableEq κ] {s s' : State κ} {c : κ} {ch : Choice}

/-- What a step does to its own CPU and leaves to the others. -/
structure Stepped (s s' : State κ) (c : κ) : Prop where
  effect : Effect s.data (s.loc c) s'.data (s'.loc c)
  others : ∀ c', c' ≠ c → s'.loc c' = s.loc c'
  holds : (s'.loc c).Holds s'.data
  locks : ∀ c', c' ≠ c → ∀ m, (s.loc c).held m → ¬ (s.loc c').held m

/-- A step has an effect that respects what every CPU owns. -/
theorem ThreadInv.stepped (h : ThreadInv s) (hstep : kthreadCode.machine.step s (c, ch) = some s') :
    Stepped s s' c := by
  obtain ⟨op, l, d, owner, hinstr, -, rfl⟩ := SpinCode.step_eq_some hstep
  refine ⟨?_, fun c' hc' => update_of_ne hc' .., ?_, ?_⟩
  · show Effect s.data (s.loc c) d (update s.loc c l c)
    rw [update_self]
    exact Loc.instr_effect (h.holds c) hinstr
  · show (update s.loc c l c).Holds d
    rw [update_self]
    exact Loc.holds_instr (h.holds c) hinstr
  · intro c' hc' m hm hm'
    exact hc' (h.owned.unique hm' hm)

variable (h : ThreadInv s) (hs : Stepped s s' c)

include h hs

theorem ThreadInv.step_holds (c' : κ) : (s'.loc c').Holds s'.data := by
  by_cases hc : c' = c
  · rw [hc]
    exact hs.holds
  · rw [hs.others c' hc]
    exact hs.effect.stable (h.own c) (h.holds c') (hs.locks c' hc)

/-- An active thread is `RUNNING`. -/
theorem ThreadInv.step_active (c' : κ) (j : Fin nthread) (hj : (s'.loc c').on = some (j, .active)) :
    s'.data.state j = .running := by
  by_cases hc : c' = c
  · rw [hc] at hj
    exact (hs.effect.active (h.own c) hj).1
  · rw [hs.others c' hc] at hj
    exact hs.effect.running (h.own c) (h.active c' j hj) (h.on_ne hc hj)

omit [DecidableEq κ] in
theorem ThreadInv.step_unique_aux {c' : κ} {j : Fin nthread} (hc : c' ≠ c)
    (hj : (s'.loc c).on = some (j, .active)) (hj' : (s.loc c').on = some (j, .active)) : False := by
  obtain hsame | hrunnable := (hs.effect.active (h.own c) hj).2
  · exact h.on_ne hc hj' hsame
  · rw [h.active c' j hj'] at hrunnable
    cases hrunnable

omit [DecidableEq κ] in

/-- A thread is active on one CPU only. -/
theorem ThreadInv.step_unique (c₁ c₂ : κ) (j : Fin nthread)
    (h₁ : (s'.loc c₁).on = some (j, .active)) (h₂ : (s'.loc c₂).on = some (j, .active)) :
    c₁ = c₂ :=
  unique_step (Q := fun l => l.on = some (j, .active)) hs.others (fun c₁ c₂ => h.unique c₁ c₂ j)
    (fun _ hc => h.step_unique_aux hs hc) c₁ c₂ h₁ h₂

end Step

/-! ### Creators -/

section Makes

/-- A thread that is about to switch to the scheduler holds the lock of its process, and its state
says that it is to run again. -/
theorem Loc.leaving {d : Table} {l : Loc} {j : Fin nthread} (h : l.on = some (j, .leaving))
    (hl : l.Holds d) : l.held .proc ∧ waiting (d.state j) := by
  cases l with
  | run i line =>
    cases line with
    | sleepSched =>
      obtain ⟨rfl, -⟩ := Prod.mk.inj (Option.some.inj h)
      exact ⟨rfl, .inl hl⟩
    | yieldSched =>
      obtain ⟨rfl, -⟩ := Prod.mk.inj (Option.some.inj h)
      exact ⟨rfl, .inr hl⟩
    | wakeup w chan ret => cases ret <;> cases h
    | _ => cases h
  | _ => cases h

variable {s s' : State κ} {c : κ} {k : Fin nthread} {b : Bool} {x : κ ⊕ Fin nthread}

section

variable (hothers : ∀ c', c' ≠ c → s'.loc c' = s.loc c')

include hothers

/-- A thread off the CPUs, which was off this one before the step as well. -/
theorem Makes.saved_of {j : Fin nthread}
    (hj : waiting (s.data.state j)) (hon : ∀ c', (s'.loc c').on ≠ some (j, .leaving))
    (honc : (s.loc c).on ≠ some (j, .leaving))
    (hctx : (s.data.context j).making = some (k, b)) : Makes s k b (.inr j) := by
  refine .saved j hj (fun c' => ?_) hctx
  by_cases hc : c' = c
  · rwa [hc]
  · rw [← hothers c' hc]
    exact hon c'

/-- The creators other than this CPU, when none of them leaves it or is started there. -/
theorem Makes.back_of_ne
    (hsaved : ∀ j, waiting (s'.data.state j) → (s'.loc c).on ≠ some (j, .leaving) →
      (s'.data.context j).making ≠ none →
      waiting (s.data.state j) ∧ (s.loc c).on ≠ some (j, .leaving) ∧
        s'.data.context j = s.data.context j)
    (h : Makes s' k b x) (hx : x ≠ .inl c) : Makes s k b x := by
  cases h with
  | cpu c' h =>
    have hc : c' ≠ c := fun he => hx (by rw [he])
    rw [hothers c' hc] at h
    exact .cpu c' h
  | saved j hj hon h =>
    obtain ⟨hwait, honc, hcontext⟩ := hsaved j hj (hon c) (by rw [h]; exact nofun)
    exact .saved_of hothers hwait hon honc (hcontext ▸ h)

theorem Makes.back
    (hcpu : ∀ k b, (s'.loc c).making = some (k, b) → (s.loc c).making = some (k, b))
    (hsaved : ∀ j, waiting (s'.data.state j) → (s'.loc c).on ≠ some (j, .leaving) →
      (s'.data.context j).making ≠ none →
      waiting (s.data.state j) ∧ (s.loc c).on ≠ some (j, .leaving) ∧
        s'.data.context j = s.data.context j)
    (h : Makes s' k b x) : Makes s k b x := by
  by_cases hx : x = .inl c
  · rw [hx] at h ⊢
    cases h with
    | cpu _ h => exact .cpu c (hcpu k b h)
  · exact h.back_of_ne hothers hsaved hx

end

/-- A state that is stored is that of a thread to run again only if it was before. -/
theorem waiting_of_update {f : Fin nthread → ProcState} {i j : Fin nthread} {st : ProcState}
    (hst : waiting st → waiting (f j)) (h : waiting (update f j st i)) :
    waiting (f i) := by
  by_cases hi : i = j
  · subst hi
    rw [update_self] at h
    exact hst h
  · rwa [update_of_ne hi] at h

theorem ThreadInv.create_back (h : ThreadInv s) (hothers : ∀ c', c' ≠ c → s'.loc c' = s.loc c')
    {i l : Fin nthread} (loc : s.loc c = .run i (.out (.created l)))
    (loc' : s'.loc c = .run i (.out .user)) (data : s'.data = s.data.setState l .runnable)
    (hx : Makes s' k b x) : Makes s k b x := by
  refine hx.back hothers ?_ fun j hj _ hne => ?_
  · rw [loc']
    exact nofun
  rw [data] at hj hne ⊢
  -- the thread that was created has no slot of its own to create
  have hjl : j ≠ l := by
    rintro rfl
    exact hne (h.ready (.inl c) j (.cpu c (by rw [loc]; rfl)))
  rw [setState_state, update_of_ne hjl] at hj
  rw [loc]
  exact ⟨hj, nofun, rfl⟩

variable [DecidableEq κ]

omit [DecidableEq κ] in
theorem swap_inl [DecidableEq (κ ⊕ Fin nthread)] {c c' : κ} {i : Fin nthread} (h : c' ≠ c) :
    Equiv.swap (.inl c) (.inr i) (.inl c' : κ ⊕ Fin nthread) = .inl c' :=
  Equiv.swap_apply_of_ne_of_ne (fun he => h (Sum.inl.inj he)) Sum.inl_ne_inr

omit [DecidableEq κ] in
theorem swap_inr [DecidableEq (κ ⊕ Fin nthread)] {c : κ} {i j : Fin nthread} (h : j ≠ i) :
    Equiv.swap (.inl c) (.inr i) (.inr j : κ ⊕ Fin nthread) = .inr j :=
  Equiv.swap_apply_of_ne_of_ne Sum.inr_ne_inl (fun he => h (Sum.inr.inj he))

/-- After a step each creator was one before, on its CPU or not, unless the step has taken the
slot. -/
theorem ThreadInv.step_makes (h : ThreadInv s) (hs : Stepped s s' c) :
    ∃ σ : Equiv.Perm (κ ⊕ Fin nthread), ∀ k b x, Makes s' k b x →
      (∃ b', Makes s k b' (σ x) ∧ (b' = b ∨ s'.data.context k = .forkret)) ∨
        x = .inl c ∧ b = false ∧ s'.data.state k = .used ∧
          ∃ j, s.loc c = .run j (.allocFound k) := by
  cases hs.effect with
  | quiet on making states frame =>
    refine ⟨.refl _, fun k b x hx => .inl ⟨b, hx.back hs.others ?_ ?_, .inl rfl⟩⟩
    · rw [making]
      exact fun _ _ => id
    · intro j hj hon _
      rw [states] at hj
      rw [on] at hon
      exact ⟨hj, hon, congrFun frame.context j⟩
  | wake i _ hi on making states frame =>
    refine ⟨.refl _, fun k b x hx => .inl ⟨b, hx.back hs.others ?_ ?_, .inl rfl⟩⟩
    · rw [making]
      exact fun _ _ => id
    · intro j hj hon _
      rw [states] at hj
      rw [on] at hon
      exact ⟨waiting_of_update (fun _ => .inl hi) hj, hon, congrFun frame.context j⟩
  | start i held hi on making loc' states frame =>
    refine ⟨Equiv.swap (.inl c) (.inr i), fun k b x hx => .inl ⟨b, ?_, .inl rfl⟩⟩
    cases hx with
    | cpu c' hc' =>
      by_cases hc : c' = c
      · -- the thread that is started
        rw [hc, loc', Loc.making, (phase_saved _).2] at hc'
        rw [hc, Equiv.swap_apply_left]
        refine .saved i (.inr hi) (fun c₁ hc₁ => ?_) hc'
        by_cases hcc : c₁ = c
        · rw [hcc, on] at hc₁
          cases hc₁
        · exact hs.locks c₁ hcc _ held (Loc.leaving hc₁ (h.holds c₁)).1
      · rw [swap_inl hc]
        rw [hs.others c' hc] at hc'
        exact .cpu c' hc'
    | saved j hj hon hctx =>
      have hji : j ≠ i := by
        rintro rfl
        rw [states, update_self] at hj
        obtain hj | hj := hj <;> cases hj
      rw [swap_inr hji]
      rw [states, update_of_ne hji] at hj
      rw [frame.context] at hctx
      exact .saved_of hs.others hj hon (by rw [on]; exact nofun) hctx
  | rest i st hst _ on on' making states frame =>
    refine ⟨.refl _, fun k b x hx => .inl ⟨b, hx.back hs.others ?_ ?_, .inl rfl⟩⟩
    · rw [making]
      exact fun _ _ => id
    intro j hj hon _
    have hji : j ≠ i := by
      rintro rfl
      exact hon on'
    rw [states, update_of_ne hji] at hj
    rw [on]
    exact ⟨hj, nofun, congrFun frame.context j⟩
  | leave i line context loc saved on' making' data =>
    obtain ⟨-, hmaking, -⟩ := saved_spec saved
    refine ⟨Equiv.swap (.inl c) (.inr i), fun k b x hx => .inl ⟨b, ?_, .inl rfl⟩⟩
    cases hx with
    | cpu c' hc' =>
      have hc : c' ≠ c := by
        rintro rfl
        rw [making'] at hc'
        cases hc'
      rw [swap_inl hc]
      rw [hs.others c' hc] at hc'
      exact .cpu c' hc'
    | saved j hj hon hctx =>
      rw [data] at hj hctx
      by_cases hji : j = i
      · -- the thread that leaves the CPU
        subst hji
        rw [save_context_same, hmaking] at hctx
        rw [Equiv.swap_apply_right]
        exact .cpu c (by rw [loc]; exact hctx)
      · rw [swap_inr hji]
        rw [save_context_of_ne hji] at hctx
        refine .saved_of hs.others hj hon (fun hc => ?_) hctx
        rw [loc] at hc
        exact hji (Prod.mk.inj (Option.some.inj hc)).1.symm
  | zombie i status loc loc' data =>
    refine ⟨.refl _, fun k b x hx => .inl ⟨b, hx.back hs.others ?_ ?_, .inl rfl⟩⟩
    · rw [loc']
      exact nofun
    · intro j hj _ _
      rw [data, zombie_state] at hj
      rw [data, loc]
      refine ⟨waiting_of_update (fun hz => ?_) hj, nofun, rfl⟩
      obtain hz | hz := hz <;> cases hz
  | exit i loc loc' data =>
    refine ⟨.refl _, fun k b x hx => .inl ⟨b, hx.back hs.others ?_ ?_, .inl rfl⟩⟩
    · rw [loc']
      exact nofun
    · intro j hj _ _
      rw [data] at hj
      rw [data, loc]
      exact ⟨hj, nofun, rfl⟩
  | alloc i l loc loc' data =>
    refine ⟨.refl _, fun k b x hx => ?_⟩
    by_cases hx' : x = .inl c
    · rw [hx'] at hx
      cases hx with
      | cpu _ hc =>
        rw [loc'] at hc
        cases hc
        refine .inr ⟨hx', rfl, ?_, i, loc⟩
        rw [data, alloc_state, update_self]
    · refine .inl ⟨b, hx.back_of_ne hs.others (fun j hj _ _ => ?_) hx', .inl rfl⟩
      rw [data, alloc_state] at hj
      rw [data, loc]
      refine ⟨waiting_of_update (fun hu => ?_) hj, nofun, rfl⟩
      obtain hu | hu := hu <;> cases hu
  | setup i l loc loc' data =>
    refine ⟨.refl _, fun k b x hx => .inl ?_⟩
    by_cases hx' : x = .inl c
    · rw [hx'] at hx ⊢
      cases hx with
      | cpu _ hc =>
        rw [loc'] at hc
        cases hc
        refine ⟨false, .cpu c (by rw [loc]; rfl), .inr ?_⟩
        rw [data, save_context_same]
    · refine ⟨b, hx.back_of_ne hs.others (fun j hj _ hne => ?_) hx', .inl rfl⟩
      rw [data] at hj hne ⊢
      have hjl : j ≠ l := by
        rintro rfl
        rw [save_context_same] at hne
        exact hne rfl
      rw [loc]
      exact ⟨hj, nofun, save_context_of_ne hjl⟩
  | create i l loc loc' data =>
    exact ⟨.refl _, fun k b x hx => .inl ⟨b, h.create_back hs.others loc loc' data hx, .inl rfl⟩⟩

/-- A slot that has been taken changes its state when its creator makes it `RUNNABLE`. -/
theorem Effect.used_state {d d' : Table} {l l' : Loc} (h : Effect d l d' l') (hown : Own d l)
    {k : Fin nthread} (hk : d.state k = .used) :
    d'.state k = .used ∨ ∃ j, l = .run j (.out (.created k)) ∧ l' = .run j (.out .user) ∧
      d' = d.setState k .runnable := by
  -- the thread whose state is stored is in another state
  have hkeep : ∀ i st, d.state i ≠ .used → update d.state i st k = .used := by
    intro i st hi
    rw [update_of_ne, hk]
    rintro rfl
    exact hi hk
  cases h with
  | quiet _ _ states => exact .inl (by rw [states, hk])
  | wake i _ hi _ _ states _ | start i _ hi _ _ _ states _ =>
    rw [states]
    exact .inl (hkeep i _ (by rw [hi]; exact nofun))
  | rest i st _ _ on _ _ states _ =>
    rw [states]
    exact .inl (hkeep i _ (by rw [hown.active i on]; exact nofun))
  | leave _ _ _ _ _ _ _ data | exit _ _ _ data | setup _ _ _ _ data =>
    rw [data]
    exact .inl hk
  | zombie i status loc _ data =>
    rw [data, zombie_state]
    exact .inl (hkeep i _ (by rw [hown.active i (by rw [loc]; rfl)]; exact nofun))
  | alloc i l₁ loc _ data =>
    subst loc
    rw [data, alloc_state]
    refine .inl (hkeep l₁ _ fun hl => hown.holds (live_of_state hl rfl))
  | create i l₁ loc loc' data =>
    by_cases hl : k = l₁
    · subst hl
      exact .inr ⟨i, loc, loc', data⟩
    · rw [data, setState_state, update_of_ne hl, hk]
      exact .inl rfl

/-- A new slot has one maker. -/
theorem ThreadInv.step_maker (h : ThreadInv s) (hs : Stepped s s' c) (x y : κ ⊕ Fin nthread)
    (k : Fin nthread) (b b' : Bool) (hx : Makes s' k b x) (hy : Makes s' k b' y) : x = y := by
  obtain ⟨σ, hσ⟩ := h.step_makes hs
  -- a slot that the step takes had no creator
  have hfresh : ∀ z b, Makes s k b z → ¬ ∃ j, s.loc c = .run j (.allocFound k) := by
    rintro z b hz ⟨j, hj⟩
    have hdead := h.holds c
    rw [hj] at hdead
    exact hdead (live_of_state (h.used z k b hz) rfl)
  obtain ⟨bx, hbx, -⟩ | ⟨hxc, -, -, hjx⟩ := hσ k b x hx
  · obtain ⟨by', hby, -⟩ | ⟨-, -, -, hjy⟩ := hσ k b' y hy
    · exact σ.injective (h.maker _ _ k bx by' hbx hby)
    · exact absurd hjy (hfresh _ _ hbx)
  · obtain ⟨by', hby, -⟩ | ⟨hyc, -⟩ := hσ k b' y hy
    · exact absurd hjx (hfresh _ _ hby)
    · rw [hxc, hyc]

/-- A slot that is being made is `USED`. -/
theorem ThreadInv.step_used (h : ThreadInv s) (hs : Stepped s s' c) (x : κ ⊕ Fin nthread)
    (k : Fin nthread) (b : Bool) (hx : Makes s' k b x) : s'.data.state k = .used := by
  obtain ⟨σ, hσ⟩ := h.step_makes hs
  obtain ⟨b', hb', -⟩ | ⟨-, -, hused, -⟩ := hσ k b x hx
  · obtain hused | ⟨j, loc, loc', data⟩ := hs.effect.used_state (h.own c) (h.used _ k b' hb')
    · exact hused
    -- its only creator, which has just made it `RUNNABLE`, is one no more
    exfalso
    have hback := h.create_back hs.others loc loc' data hx
    obtain rfl := h.maker _ (.inl c) k b true hback (.cpu c (by rw [loc]; rfl))
    cases hx with
    | cpu _ hc =>
      rw [loc'] at hc
      cases hc
  · exact hused

theorem ThreadInv.step_ready (h : ThreadInv s) (hs : Stepped s s' c) (x : κ ⊕ Fin nthread)
    (k : Fin nthread) (hx : Makes s' k true x) : (s'.data.context k).making = none := by
  obtain ⟨σ, hσ⟩ := h.step_makes hs
  obtain ⟨b', hb', hb | hctx⟩ | ⟨-, hfalse, -⟩ := hσ k true x hx
  · subst hb
    have hready := h.ready _ k hb'
    cases hs.effect with
    | quiet _ _ _ frame | wake _ _ _ _ _ _ frame | start _ _ _ _ _ _ _ frame
    | rest _ _ _ _ _ _ _ _ frame =>
      rw [frame.context]
      exact hready
    | leave j line context loc saved _ _ data =>
      rw [data]
      by_cases hkj : k = j
      · subst hkj
        rw [save_context_same]
        obtain ⟨-, -, hleaving | ⟨-, hnone⟩⟩ := saved_spec saved
        · -- a thread that leaves its CPU to run again is not being created
          have hon : (s.loc c).on = some (k, .leaving) := by rw [loc, Loc.on, hleaving]
          obtain hw | hw := (Loc.leaving hon (h.holds c)).2
          all_goals
            rw [h.used _ k true hb'] at hw
            cases hw
        · exact hnone
      · rw [save_context_of_ne hkj]
        exact hready
    | zombie _ _ _ _ data | exit _ _ _ data | alloc _ _ _ _ data | create _ _ _ _ data =>
      rw [data]
      exact hready
    | setup j l _ _ data =>
      rw [data]
      by_cases hkl : k = l
      · rw [hkl, save_context_same]
        rfl
      · rw [save_context_of_ne hkl]
        exact hready
  · rw [hctx]
    rfl
  · cases hfalse

/-- **The threads of the process**: every step keeps the invariant. -/
theorem ThreadInv.step {ch : Choice} (h : ThreadInv s)
    (hstep : kthreadCode.machine.step s (c, ch) = some s') : ThreadInv s' := by
  have hs := h.stepped hstep
  exact {
    owned := h.owned.step kthreadCode_disciplined hstep
    holds := h.step_holds hs
    active := h.step_active hs
    unique := h.step_unique hs
    used := h.step_used hs
    ready := h.step_ready hs
    maker := h.step_maker hs }

omit [DecidableEq κ] in
theorem Start.threadInv (h : Start s) : ThreadInv s := by
  have hmakes : ∀ x k b, ¬ Makes s k b x := by
    intro x k b hx
    cases hx with
    | cpu c hc =>
      rw [h.loc c] at hc
      cases hc
    | saved j _ _ hctx =>
      rw [h.context j] at hctx
      cases hctx
  refine ⟨fun m c => ?_, fun c => ?_, fun c j hj => ?_, fun c c' j hj => ?_,
    fun x k b hx => absurd hx (hmakes x k b), fun x k hx => absurd hx (hmakes x k true),
    fun x y k b b' hx => absurd hx (hmakes x k b)⟩
  · rw [h.owner, h.loc]
    simp [Loc.held]
  · rw [h.loc]
    trivial
  · rw [h.loc c] at hj
    cases hj
  · rw [h.loc c] at hj
    cases hj

end Makes

end Xv6.Kthread
