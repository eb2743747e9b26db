import Xv6.Sleep.Equiv.Threads

/-!
# No wakeup is lost

The thread between its `release(lk)` and its store of `SLEEPING` holds the lock of its process, for
which `wakeup` has to wait. So while a CPU holds the lock of a condition no thread begins to wait
for it (`Waits`), and those that `wakeup` has passed do not wait (`WakeInv.passed`,
`WakeInv.woken`); a thread that waits for a true condition is owed a wakeup by the holder of the
lock (`WakeInv.raised`).
-/

namespace Xv6.Sleep

open Lib

variable {κ σ π ι χ : Type} {P : Program σ π ι χ}

/-! ### What an instruction does for the program -/

/-- The code that a thread or a handler executes. -/
def Loc.code : Loc π ι → Option (Code π)
  | .run _ (.code c) | .intr _ c => some c
  | _ => none

variable (P) in
/-- What an instruction does to the data of the program and to what is known of its conditions. -/
inductive Loc.Acts (d : Table σ π ι) (ch : Choice χ) (l : Loc π ι) (op : LockOp LockId)
    (d' : Table σ π ι) : Prop where
  | acquire (n : Nat) (hop : op = .acquire (.other n)) (data : d'.data = d.data)
      (raised : ∀ i, d'.raised i = true ↔ d.raised i = true ∧ P.lock i ≠ n)
      (woken : ∀ i, d'.woken i = true ↔ d.woken i = true ∧ P.lock i ≠ n)
  | store (hs : Finset Nat) (v : σ) (q : π) (hstore : l.op P d.data ch = some (hs, .store v q))
      (hheld : ∀ n, l.held P (.other n) ↔ n ∈ hs) (hop : op = .none) (data : d'.data = v)
      (raised : ∀ i, d'.raised i = true ↔
        d.raised i = true ∨ P.cond i d.data = false ∧ P.cond i v = true)
      (woken : d'.woken = d.woken)
  | announce (k : Fin nproc) (t : Target) (hs : Finset Nat) (p : π)
      (hcode : l.code = some (.wake (.unlock k) t hs p))
      (hk : (∀ ch, t ≠ .chan ch) ∨ k.val + 1 = nproc) (hop : op = .release (.proc k))
      (data : d'.data = d.data) (raised : d'.raised = d.raised)
      (woken : ∀ i, d'.woken i = true ↔ d.woken i = true ∨ t = .chan (P.chan i) ∧ P.lock i ∈ hs)
  | quiet (hacq : ∀ n, op ≠ .acquire (.other n))
      (hrel : ∀ n, op = .release (.other n) → l.releases P d.data ch = some n)
      (data : d'.data = d.data) (raised : d'.raised = d.raised) (woken : d'.woken = d.woken)

section Acts

variable {d d' : Table σ π ι} {ch : Choice χ} {op : LockOp LockId}

theorem Code.Step.acts {me : Option Slot} {c c' : Code π} {l : Loc π ι}
    (h : Code.Step P d me ch c op c' d') (hl : (∃ x, l = .run x (.code c)) ∨ ∃ b, l = .intr b c) :
    Loc.Acts P d ch l op d' := by
  have hcode : l.code = some c := by
    obtain ⟨x, rfl⟩ | ⟨b, rfl⟩ := hl <;> rfl
  have hheld : l.held P = c.held := by
    obtain ⟨x, rfl⟩ | ⟨b, rfl⟩ := hl <;> rfl
  have hlop : ∀ hs p ch', c = .out hs p → ch = .op ch' →
      l.op P d.data ch = (P.op d.data p ch').map fun op => (hs, op) := by
    rintro hs p ch' rfl rfl
    obtain ⟨x, rfl⟩ | ⟨b, rfl⟩ := hl <;> rfl
  cases h with
  | acquire hs p q ch n =>
    refine .acquire n rfl rfl (fun i => ?_) fun i => ?_
    · simp [Table.enter]
    · simp [Table.enter]
  | release hs p q ch n hop =>
    refine .quiet nofun (fun n' hn' => ?_) rfl rfl rfl
    obtain rfl : n = n' := by simpa using hn'
    simp [Loc.releases, hlop hs p ch rfl rfl, hop]
  | store hs p q ch v hop =>
    refine .store hs v q ?_ (fun n => ?_) rfl rfl (fun i => ?_) rfl
    · simp [hlop hs p ch rfl rfl, hop]
    · rw [hheld]
      exact heldOf_other
    · simp [Table.store]
  | wake => exact .quiet nofun nofun rfl rfl rfl
  | walk w w' t hs p op d' h => cases h <;> exact .quiet nofun nofun rfl rfl rfl
  | walked k t hs p hk =>
    refine .announce k t hs p hcode hk rfl rfl rfl fun i => ?_
    simp [Table.announce]

theorem Loc.Step.acts {l l' : Loc π ι} (h : Loc.Step P d ch l op l' d') :
    Loc.Acts P d ch l op d' := by
  cases h with
  | intr ch b c c' op d' h => exact h.acts (.inr ⟨b, rfl⟩)
  | run ch x line line' op d' h =>
    cases h with
    | code ch c c' op d' h => exact h.acts (.inl ⟨x, rfl⟩)
    | sleepUnlock i =>
      refine .quiet nofun (fun n hn => ?_) rfl rfl rfl
      obtain rfl : P.lock i = n := by simpa using hn
      rfl
    | relock i =>
      refine .acquire (P.lock i) rfl rfl (fun j => ?_) fun j => ?_
      · simp [Table.enter]
      · simp [Table.enter]
    | _ => exact .quiet nofun nofun rfl rfl rfl
  | _ => exact .quiet nofun nofun rfl rfl rfl

end Acts

/-! ### Waiting threads -/

/-- Thread `x` waits for condition `i`: it sleeps, or is about to, without its lock. -/
def Waits (s : State κ σ π ι) (x : Slot) (i : ι) : Prop :=
  ∃ line, (places s).At x line ∧ line.waits (s.data.threadState x) = some i

/-- The threads that a loop over them has passed. -/
def Wake.passed (x : Slot) : Wake → Prop
  | .lock k => x.1 < k
  | .test k l | .set k l => x.1 < k ∨ x.1 = k ∧ x.2 < l
  | .unlock k => x.1 ≤ k

/-- The thread at which a loop over the threads is. -/
def Wake.at (x : Slot) : Wake → Prop
  | .test k l | .set k l => x = (k, l)
  | _ => False

variable {x : Slot}

/-- A loop over the threads passes the thread at which it is. -/
theorem Wake.Step.passed {d d' : Table σ π ι} {me : Option Slot} {ch : Nat} {w w' : Wake}
    {op : LockOp LockId} (h : Wake.Step d me (.chan ch) w op w' d') (hx : w'.passed x) :
    w.passed x ∨ w.at x := by
  obtain ⟨p, j⟩ := x
  cases h with
  | lockPass k ht => exact absurd rfl (ht ch)
  | lock =>
    simp only [Wake.passed] at hx ⊢
    exact .inl (hx.resolve_right fun h => Nat.not_lt_zero _ h.2)
  | test => exact .inl hx
  | skip k l l' hl | set k l l' hl =>
    simp only [Wake.passed, Wake.at, Prod.mk.injEq] at hx ⊢
    obtain hx | ⟨hp, hj⟩ := hx
    · exact .inl (.inl hx)
    have hle : j ≤ l := by
      rw [Fin.lt_def] at hj
      rw [Fin.le_def]
      omega
    obtain hlt | heq := lt_or_eq_of_le hle
    · exact .inl (.inr ⟨hp, hlt⟩)
    · exact .inr ⟨hp, heq⟩
  | skipLast k l hl | setLast k l hl =>
    simp only [Wake.passed, Wake.at, Prod.mk.injEq] at hx ⊢
    have hle : j ≤ l := by
      have := j.isLt
      rw [Fin.le_def]
      omega
    obtain hlt | hp := lt_or_eq_of_le hx
    · exact .inl (.inl hlt)
    · obtain hlt | heq := lt_or_eq_of_le hle
      · exact .inl (.inr ⟨hp, hlt⟩)
      · exact .inr ⟨hp, heq⟩
  | unlock =>
    simp only [Wake.passed, Fin.lt_def, Fin.le_def] at hx ⊢
    exact .inl (by omega)

variable {s s' : State κ σ π ι} {c : κ} {ch : Choice χ} {op : LockOp LockId}

/-- A thread waits because it did, or because it has just released the lock of the condition in
`sleep`. -/
theorem ThreadInv.waits_cases (h : ThreadInv P s) (hs : Stepped P s s' c ch op) {i : ι}
    (hw : Waits s' x i) :
    Waits s x i ∨ ∃ p, s.loc c = .run x (.sleepUnlock i p) ∧ s'.loc c = .run x (.sleepState i p) ∧
      op = .release (.other (P.lock i)) := by
  obtain ⟨line, hat, hi⟩ := hw
  cases h.arrived hs hat with
  | go line₀ loc loc' step =>
    generalize s'.data = d' at step hi
    cases step with
    | sleepUnlock j p =>
      cases hi
      exact .inr ⟨p, loc, loc', rfl⟩
    | sleepState =>
      refine .inl ⟨_, Placement.at_of_on (on_of_loc loc), ?_⟩
      simp only [Line.waits] at hi
      split_ifs at hi
      exact hi
    | _ => cases hi
  | leave line₀ context loc saved place table =>
    refine .inl ⟨line₀, Placement.at_of_on (on_of_loc loc), ?_⟩
    rw [place, table] at hi
    cases line₀ with
    | sleepSched =>
      cases saved
      exact hi
    | exitSched | yieldSched =>
      cases saved
      cases hi
    | _ => cases saved
  | stay place chan state =>
    refine .inl ⟨line, place, ?_⟩
    cases line with
    | sleepState => exact hi
    | sleepSched | slept =>
      simp only [Line.waits] at hi ⊢
      split_ifs at hi with hst
      rw [if_pos (state hst)]
      exact hi
    | _ => cases hi

theorem held_of_code {l : Loc π ι} {c₁ : Code π} (h : l.code = some c₁) :
    l.held P = c₁.held := by
  cases l with
  | run y line =>
    cases line with
    | code =>
      cases h
      rfl
    | _ => cases h
  | intr =>
    cases h
    rfl
  | _ => cases h

/-- A thread on a CPU that waits is on its way to the scheduler, with the lock of its process. -/
theorem ThreadInv.waits_on (h : ThreadInv P s) {i : ι} {line : Line π ι}
    (hon : (s.loc c).on = some (x, line)) (hi : line.waits (s.data.threadState x) = some i) :
    (s.loc c).held P (.proc x.1) ∧ (s.loc c).code = none := by
  cases hl : s.loc c with rw [hl] at hon
  | run y line₁ =>
    obtain ⟨rfl, rfl⟩ := Prod.mk.inj (Option.some.inj hon)
    cases line₁ with
    | sleepState | sleepSched => exact ⟨rfl, rfl⟩
    | slept =>
      have hbusy := h.on c y _ (on_of_loc hl) rfl
      simp only [Line.waits] at hi
      split_ifs at hi with hst
      exact absurd hst hbusy.2
    | _ => cases hi
  | intr b =>
    cases b with
    | scan => cases hon
    | run y r =>
      cases hon
      cases r <;> cases hi
  | _ =>
    cases hon

/-- While another CPU has the lock of its process, a thread that waits is on no CPU, and sleeps on
the channel of the condition. -/
theorem ThreadInv.waits_of_held (h : ThreadInv P s) {i : ι} {c₁ : Code π}
    (hcode : (s.loc c).code = some c₁) (hheld : c₁.held (.proc x.1)) (hw : Waits s x i) :
    (places s).Off x ∧ s.data.threadState x = .sleeping ∧ s.data.chan x = some (P.chan i) := by
  obtain ⟨line, hat, hi⟩ := hw
  obtain ⟨c', hc'⟩ | ⟨hoff, hline⟩ := hat
  · exfalso
    obtain ⟨hheld', hnone⟩ := h.waits_on hc' hi
    rw [← held_of_code (P := P) hcode] at hheld
    obtain rfl := h.owned.unique hheld hheld'
    rw [hnone] at hcode
    cases hcode
  have hsaved : (s.data.context x).line = line := hline
  cases hc : s.data.context x with rw [hc] at hsaved
  | slept =>
    subst hsaved
    simp only [Saved.line, Line.waits] at hi
    split_ifs at hi with hst
    exact ⟨hoff, hst, h.chan x _ i (.inr ⟨hoff, hline⟩) hi⟩
  | _ =>
    subst hsaved
    cases hi

/-! ### The invariant -/

variable (P) in
structure WakeInv (s : State κ σ π ι) : Prop where
  threads : ThreadInv P s
  -- a thread that has called `sleep` found the condition false
  tested : ∀ c x i p, s.loc c = .run x (.sleepLock i p) ∨ s.loc c = .run x (.sleepUnlock i p) →
    P.cond i s.data.data = false
  -- the holder of the lock of a condition has called `wakeup`, or does so
  woken : ∀ c i, (s.loc c).held P (.other (P.lock i)) → s.data.woken i = true → ∀ x, ¬ Waits s x i
  passed : ∀ c w hs p i, (s.loc c).code = some (.wake w (.chan (P.chan i)) hs p) → P.lock i ∈ hs →
    ∀ x, w.passed x → ¬ Waits s x i
  -- and it owes that to threads that wait for a condition which is true
  raised : ∀ x i, Waits s x i → P.cond i s.data.data = true →
    s.data.raised i = true ∧ ∃ c, (s.loc c).held P (.other (P.lock i))

variable (P) in
/-- The discipline of a monitor, but that a condition for which no thread waits may become true
without `wakeup`. -/
structure Heeds (s : State κ σ π ι) (a : κ × Choice χ) : Prop where
  op : ∀ y ∈ (s.loc a.1).op P s.data.data a.2, y.2.Careful P s.data.data y.1
  release : ∀ n ∈ (s.loc a.1).releases P s.data.data a.2, ∀ i, P.lock i = n →
    s.data.raised i = true → P.cond i s.data.data = true →
      s.data.woken i = true ∨ ∀ x, ¬ Waits s x i

theorem Careful.heeds {a : κ × Choice χ} (h : Careful P s a) : Heeds P s a :=
  ⟨h.op, fun n hn i hi hr hc => .inl (h.release n hn i hi hr hc)⟩

section Step

variable (h : WakeInv P s) (hs : Stepped P s s' c ch op) (hok : Heeds P s (c, ch))

omit hs in
theorem Stepped.held_back (hs : Stepped P s s' c ch op) {n : Nat} {c' : κ}
    (hop : op ≠ .acquire (.other n)) (hheld : (s'.loc c').held P (.other n)) :
    (s.loc c').held P (.other n) := by
  by_cases hc : c' = c
  · rw [hc] at hheld ⊢
    rw [hs.instr.held] at hheld
    cases op with
    | none => exact hheld
    | acquire =>
      obtain hheld | hm := hheld
      · exact hheld
      · exact absurd (by rw [hm]) hop
    | release => exact hheld.1
  · rwa [hs.others c' hc] at hheld

theorem Stepped.held_forth (hs : Stepped P s s' c ch op) {n : Nat} {c' : κ}
    (hop : op ≠ .release (.other n)) (hheld : (s.loc c').held P (.other n)) :
    (s'.loc c').held P (.other n) := by
  by_cases hc : c' = c
  · rw [hc] at hheld ⊢
    rw [hs.instr.held]
    cases op with
    | none => exact hheld
    | acquire => exact .inl hheld
    | release =>
      refine ⟨hheld, ?_⟩
      rintro rfl
      exact hop rfl
  · rwa [hs.others c' hc]

include h hs

/-- No thread begins to wait for a condition while a CPU holds its lock after the step. -/
theorem WakeInv.waits_back {x : Slot} {i : ι} {c' : κ}
    (hheld : (s'.loc c').held P (.other (P.lock i))) (hw : Waits s' x i) : Waits s x i := by
  obtain hw | ⟨p, hl, hl', rfl⟩ := h.threads.waits_cases hs hw
  · exact hw
  · exfalso
    have hold : (s.loc c').held P (.other (P.lock i)) := hs.held_back nofun hheld
    have hc : c' = c := h.threads.owned.unique hold (by rw [hl]; exact .inl rfl)
    rw [hc, hl'] at hheld
    exact nomatch hheld

theorem WakeInv.step_woken (c' : κ) (i : ι) (hheld : (s'.loc c').held P (.other (P.lock i)))
    (hwoken : s'.data.woken i = true) (x : Slot) : ¬ Waits s' x i := by
  intro hw'
  have hw := h.waits_back hs hheld hw'
  cases hs.instr.acts with
  | acquire n hop data raised woken =>
    obtain ⟨hold, hne⟩ := (woken i).mp hwoken
    refine h.woken c' i (hs.held_back ?_ hheld) hold x hw
    rw [hop]
    simpa using Ne.symm hne
  | store hs' v q hstore hheld' hop data raised woken =>
    rw [woken] at hwoken
    exact h.woken c' i (hs.held_back (by rw [hop]; exact nofun) hheld) hwoken x hw
  | announce k t hs' p hcode hk hop data raised woken =>
    obtain hold | ⟨rfl, hmem⟩ := (woken i).mp hwoken
    · exact h.woken c' i (hs.held_back (by rw [hop]; exact nofun) hheld) hold x hw
    -- the loop of `wakeup` has come to its end
    refine h.passed c _ hs' p i hcode hmem x ?_ hw
    obtain ht | hk := hk
    · exact absurd rfl (ht _)
    · have hx := x.1.isLt
      rw [Wake.passed, Fin.le_def]
      omega
  | quiet hacq hrel data raised woken =>
    rw [woken] at hwoken
    exact h.woken c' i (hs.held_back (hacq _) hheld) hwoken x hw

omit hs in
/-- A loop of `wakeup` that passes a thread has woken it up, or found it awake. -/
theorem WakeInv.walk_passed (h' : ThreadInv P s') {me : Option Slot} {w w' : Wake} {i : ι}
    {hs : Finset Nat} {p : π} (hcode : (s.loc c).code = some (.wake w (.chan (P.chan i)) hs p))
    (hcode' : (s'.loc c).code = some (.wake w' (.chan (P.chan i)) hs p))
    (hstep : Wake.Step s.data me (.chan (P.chan i)) w op w' s'.data)
    (hme : ∀ y, me = some y → ∃ line, (s.loc c).on = some (y, line)) (hmem : P.lock i ∈ hs)
    {x : Slot} (hx : w'.passed x) (hw : Waits s x i) : ¬ Waits s' x i := by
  intro hw'
  obtain hpassed | hat := hstep.passed hx
  · exact h.passed c w hs p i hcode hmem x hpassed hw
  -- a thread that the test passes over is not asleep on the channel
  have hskip : ∀ k l, w = .test k l → x = (k, l) →
      (Target.chan (P.chan i)).wakes s.data me (k, l) = true := by
    rintro k l rfl rfl
    obtain ⟨hoff, hst, hchan⟩ := h.threads.waits_of_held (x := (k, l)) hcode (.inr rfl) hw
    refine decide_eq_true ⟨?_, hst, hchan⟩
    intro hself
    obtain ⟨line, hline⟩ := hme (k, l) hself
    exact hoff c line hline
  -- and one that is woken up is `RUNNABLE`
  have hset : ∀ k l, s'.data = s.data.setThreadState (k, l) .runnable → x = (k, l) →
      (Code.wake w' (.chan (P.chan i)) hs p).held (.proc k) → False := by
    rintro k l hd rfl hheld
    obtain ⟨-, hst, -⟩ := h'.waits_of_held hcode' hheld hw'
    rw [hd, Table.setThreadState] at hst
    dsimp only at hst
    rw [Function.update_self] at hst
    cases hst
  generalize hd : s'.data = d' at hstep
  cases hstep with
  | test k l =>
    obtain rfl : x = (k, l) := hat
    simp [Wake.passed] at hx
  | skip k l l' hl hnot | skipLast k l hl hnot => exact hnot (hskip k l rfl hat)
  | set k l | setLast k l => exact hset k l hd hat (.inr rfl)
  | _ => exact hat

theorem WakeInv.step_passed (h' : ThreadInv P s') (c' : κ) (w : Wake) (hs' : Finset Nat) (p : π)
    (i : ι) (hcode : (s'.loc c').code = some (.wake w (.chan (P.chan i)) hs' p))
    (hmem : P.lock i ∈ hs') (x : Slot) (hx : w.passed x) : ¬ Waits s' x i := by
  intro hw'
  have hheld : (s'.loc c').held P (.other (P.lock i)) := by
    rw [held_of_code hcode]
    exact .inl (heldOf_other.mpr hmem)
  have hw := h.waits_back hs hheld hw'
  by_cases hc : c' = c
  · rw [hc] at hcode
    -- the loop begins, or goes on
    have hstep : ∀ {me : Option Slot} {c₁ c₂ : Code π}, Code.Step P s.data me ch c₁ op c₂ s'.data →
        (s.loc c).code = some c₁ → (s'.loc c).code = some c₂ →
        (∀ y, me = some y → ∃ line, (s.loc c).on = some (y, line)) → False := by
      intro me c₁ c₂ hstep h₁ h₂ hme
      obtain rfl : c₂ = .wake w (.chan (P.chan i)) hs' p := Option.some.inj (h₂.symm.trans hcode)
      generalize hd : s'.data = d' at hstep
      cases hstep with
      | wake => exact absurd hx (Nat.not_lt_zero _)
      | walk w₀ _ t hs p op d' hstep =>
        rw [← hd] at hstep
        exact h.walk_passed h' h₁ hcode hstep hme hmem hx hw hw'
    have hinstr := hs.instr
    generalize hl : s.loc c = l at hinstr hstep
    generalize hl' : s'.loc c = l' at hinstr hcode hstep
    generalize hd : s'.data = d' at hinstr hstep
    cases hinstr with
    | interrupt => cases hcode
    | iret b =>
      cases b with
      | scan => cases hcode
      | run y r => cases r <;> cases hcode
    | intr ch b c₁ c₂ op d' hcs =>
      refine hstep hcs rfl rfl fun y hy => ?_
      cases b with
      | scan => cases hy
      | run z r =>
        cases hy
        exact ⟨r.line, rfl⟩
    | set p j =>
      cases hctx : s.data.context (p, j) <;> rw [hctx] at hcode <;> cases hcode
    | run ch y line line' op d' hline =>
      cases hline with
      | code ch c₁ c₂ op d' hcs =>
        refine hstep hcs rfl rfl fun z hz => ?_
        cases hz
        exact ⟨_, rfl⟩
      | _ => cases hcode
    | leave | lookSkip =>
      unfold Loc.lookNext at hcode
      split_ifs at hcode <;> cases hcode
    | _ => cases hcode
  · rw [hs.others c' hc] at hcode
    exact h.passed c' w hs' p i hcode hmem x hx hw

include hok

theorem WakeInv.step_tested_self (x : Slot) (i : ι) (p : π)
    (hl' : s'.loc c = .run x (.sleepLock i p) ∨ s'.loc c = .run x (.sleepUnlock i p)) :
    P.cond i s'.data.data = false := by
  have hinstr := hs.instr
  have hop := hok.op
  have htested := h.tested c x i p
  generalize s.loc c = l at hinstr hop htested
  generalize s'.loc c = l' at hinstr hl'
  generalize s'.data = d' at hinstr ⊢
  cases hinstr with
  | run ch y line line' op d' hline =>
    obtain hl' | hl' := hl'
    · obtain ⟨rfl, rfl⟩ := Loc.run.inj hl'
      cases hline with
      | sleep q _ ch _ hsleep =>
        refine hop ({P.lock i}, .sleep i p) ?_
        simp [Loc.op, hsleep]
    · obtain ⟨rfl, rfl⟩ := Loc.run.inj hl'
      cases hline with
      | sleepLock => exact htested (.inl rfl)
  | iret b =>
    cases b with
    | scan => simp [Back.loc] at hl'
    | run y r => cases r <;> simp [Back.loc, Resume.line] at hl'
  | set q j => cases hc : s.data.context (q, j) <;> simp [hc, Saved.line] at hl'
  | leave | lookSkip =>
    unfold Loc.lookNext at hl'
    split_ifs at hl' <;> simp at hl'
  | _ => simp at hl'

theorem WakeInv.step_tested (c' : κ) (x : Slot) (i : ι) (p : π)
    (hl' : s'.loc c' = .run x (.sleepLock i p) ∨ s'.loc c' = .run x (.sleepUnlock i p)) :
    P.cond i s'.data.data = false := by
  by_cases hc : c' = c
  · rw [hc] at hl'
    exact h.step_tested_self hs hok x i p hl'
  rw [hs.others c' hc] at hl'
  have hfalse := h.tested c' x i p hl'
  cases hs.instr.acts with
  | store hs' v q hstore hheld hop data =>
    -- it is made true with the lock only
    rw [data]
    by_contra htrue
    have hmem := hok.op _ hstore i hfalse (by simpa using htrue)
    have hheld' : (s.loc c').held P (.other (P.lock i)) := by
      obtain hl' | hl' := hl'
      · rw [hl']
        exact rfl
      · rw [hl']
        exact .inl rfl
    exact hc (h.threads.owned.unique hheld' ((hheld _).mpr hmem))
  | acquire n hop data | announce k t hs' p hcode hk hop data | quiet hacq hrel data => rwa [data]

theorem WakeInv.step_raised [DecidableEq κ] (howner : lockStep s.owner c op = some s'.owner)
    (x : Slot) (i : ι) (hw' : Waits s' x i)
    (hcond : P.cond i s'.data.data = true) :
    s'.data.raised i = true ∧ ∃ c, (s'.loc c).held P (.other (P.lock i)) := by
  have hacts := hs.instr.acts
  obtain hw | ⟨p, hl, hl', hrelease⟩ := h.threads.waits_cases hs hw'
  · cases hacts with rw [data] at hcond
    | acquire n hop data raised =>
      obtain ⟨hraised, c₁, hheld⟩ := h.raised x i hw hcond
      have hne : P.lock i ≠ n := by
        rintro rfl
        have hown := (h.threads.owned _ c₁).mpr hheld
        rw [hop, lockStep, if_neg (by rw [hown]; simp)] at howner
        cases howner
      exact ⟨(raised i).mpr ⟨hraised, hne⟩, c₁, hs.held_forth (by rw [hop]; simp) hheld⟩
    | store hs' v q hstore hheld hop data raised =>
      by_cases hold : P.cond i s.data.data = true
      · obtain ⟨hraised, c₁, hheld⟩ := h.raised x i hw hold
        exact ⟨(raised i).mpr (.inl hraised), c₁, hs.held_forth (by rw [hop]; simp) hheld⟩
      · -- it is made true with the lock
        have hfalse : P.cond i s.data.data = false := by simpa using hold
        have hmem := hok.op _ hstore i hfalse hcond
        exact ⟨(raised i).mpr (.inr ⟨hfalse, hcond⟩), c,
          hs.held_forth (by rw [hop]; simp) ((hheld _).mpr hmem)⟩
    | announce k t hs' p hcode hk hop data raised =>
      obtain ⟨hraised, c₁, hheld⟩ := h.raised x i hw hcond
      exact ⟨by rw [raised]; exact hraised, c₁, hs.held_forth (by rw [hop]; simp) hheld⟩
    | quiet hacq hrel data raised woken =>
      obtain ⟨hraised, c₁, hheld⟩ := h.raised x i hw hcond
      refine ⟨by rw [raised]; exact hraised, c₁, hs.held_forth (fun hop => ?_) hheld⟩
      -- the lock is released after `wakeup`
      have hc : c₁ = c := by
        have hown := (h.threads.owned _ c₁).mpr hheld
        rw [hop, lockStep] at howner
        split_ifs at howner with hc
        rw [hown] at hc
        exact Option.some.inj hc
      rw [hc] at hheld
      obtain hwoken | hnone := hok.release _ (hrel _ hop) i rfl hraised hcond
      · exact h.woken c i hheld hwoken x hw
      · exact hnone x hw
  · -- it found the condition false
    exfalso
    have hfalse := h.tested c x i p (.inr hl)
    cases hacts with
    | acquire n hop | store hs' v q hstore hheld hop | announce k t hs' p hcode hk hop =>
      rw [hrelease] at hop
      cases hop
    | quiet hacq hrel data =>
      rw [data, hfalse] at hcond
      cases hcond

end Step

/-! ### Runs -/

theorem WakeInv.step [DecidableEq κ] (h : WakeInv P s) (hok : Heeds P s (c, ch))
    (hstep : (sleepCode P).machine.step s (c, ch) = some s') : WakeInv P s' := by
  obtain ⟨op, hs, howner⟩ := stepped hstep
  have h' := h.threads.step hstep
  exact {
    threads := h'
    tested := h.step_tested hs hok
    woken := h.step_woken hs
    passed := h.step_passed hs h'
    raised := h.step_raised hs hok howner }

theorem Start.wakeInv (h : Start s) : WakeInv P s := by
  have hwaits : ∀ x i, ¬ Waits s x i := by
    rintro x i ⟨line, hat, hi⟩
    have hoff : (places s).Off x := by
      intro c line hc
      obtain ⟨p, hp⟩ := h.loc c
      have hon : (s.loc c).on = some (x, line) := hc
      rw [hp] at hon
      cases hon
    obtain ⟨p, hp⟩ := h.context x
    have hline : line = (s.data.context x).line := hoff.eq_saved hat
    rw [hline, hp] at hi
    cases hi
  refine ⟨h.threadInv, fun c x i p hl => ?_, fun c i _ _ x => hwaits x i,
    fun c w hs p i _ _ x _ => hwaits x i, fun x i hw => absurd hw (hwaits x i)⟩
  obtain ⟨q, hq⟩ := h.loc c
  rw [hq] at hl
  simp at hl

theorem WakeInv.noLostWakeup (h : WakeInv P s) : NoLostWakeup P s := by
  rintro x i ⟨-, -, hw⟩ hcond
  obtain ⟨-, c, hheld⟩ := h.raised x i hw hcond
  rw [(h.threads.owned _ c).mpr hheld]
  exact nofun

/-- **No lost wakeup**: no thread sleeps for a condition that is true while its lock is free, in
every run of threads that keep to the discipline of a monitor. -/
theorem no_lost_wakeup [DecidableEq κ] (P : Program σ π ι χ) (s₀ s : State κ σ π ι)
    (as : List (κ × Choice χ)) (h₀ : Start s₀)
    (hok : (sleepCode P).machine.Meets (Careful P) s₀ as)
    (hrun : (sleepCode P).machine.run s₀ as = some s) : NoLostWakeup P s := by
  refine WakeInv.noLostWakeup ?_
  exact Machine.invariant_of_meets _ (fun s a s' h hok hstep => h.step hok.heeds hstep) as s₀ s
    h₀.wakeInv hok hrun

/-! ### A flag -/

/-- Threads that wait for a flag, and threads that set it. -/
inductive FlagLine where
  | wait -- acquire(lk)
  | test -- while(!flag) sleep(chan, lk)
  | set -- acquire(lk)
  | store -- flag = 1
  | wakeup -- wakeup(chan)
  | leave -- release(lk)
  | done

def flagProgram : Program Bool FlagLine Unit Unit where
  lock _ := 0
  chan _ := 0
  cond _ flag := flag
  op flag p _ :=
    match p with
    | .wait => some (.acquire 0 .test)
    | .test => if flag then some (.release 0 .done) else some (.sleep () .test)
    | .set => some (.acquire 0 .store)
    | .store => some (.store true .wakeup)
    | .wakeup => some (.wake (.chan 0) .leave)
    | .leave => some (.release 0 .done)
    | .done => none
  intr _ := none

/-- The first of two threads waits, the second one sets the flag. -/
def flagState : State Unit Bool FlagLine Unit where
  owner _ := none
  loc _ := .scan 0
  data :=
    { threadState := fun x => if x = (0, 0) ∨ x = (0, 1) then .runnable else .unused
      chan := fun _ => none
      context := fun x => .forkret (if x = (0, 0) then .wait else .set)
      data := false
      raised := fun _ => false
      woken := fun _ => false }

def flagNexts (n : Nat) : List (Unit × Choice Unit) := List.replicate n ((), .next)

def flagOps (n : Nat) : List (Unit × Choice Unit) := List.replicate n ((), .op ())

def flagSet : List (Unit × Choice Unit) := flagNexts 4 ++ flagOps 2 ++ flagNexts 7 ++ flagOps 2

theorem flagState_start : Start flagState := ⟨fun _ => rfl, fun _ => ⟨0, rfl⟩, fun _ => ⟨_, rfl⟩⟩

/-- The first thread sleeps, the flag is set, and the second thread holds the lock. -/
theorem flagSet_kept :
    Start flagState ∧ (sleepCode flagProgram).machine.Meets (Careful flagProgram) flagState flagSet ∧
      ∃ s, (sleepCode flagProgram).machine.run flagState flagSet = some s ∧
        s.data.threadState (0, 0) = .sleeping ∧ s.data.data = true ∧
        NoLostWakeup flagProgram s := by
  have hok : (sleepCode flagProgram).machine.Meets (Careful flagProgram) flagState flagSet := by
    decide +kernel
  exact ⟨flagState_start, hok, _, rfl, rfl, rfl,
    no_lost_wakeup flagProgram flagState _ flagSet flagState_start hok rfl⟩

end Xv6.Sleep
