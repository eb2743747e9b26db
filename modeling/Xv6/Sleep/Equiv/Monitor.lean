import Xv6.Sleep.Equiv.Wakeup

/-!
# Programs with one lock

A `Monitor` says at which points the lock is held, what is true of the data at all times, and what a
thread with the lock knows at each point. The CPUs keep to it (`MonitorInv.step`); when the wakeups
that are due are called before the lock is released, none is lost (`MonitorInv.heeds`).
-/

namespace Xv6.Sleep

open Lib Finset

variable {κ σ π ι χ : Type}

structure Monitor (σ π ι : Type) where
  n : Nat
  locked : π → Bool
  G : σ → Prop
  J : π → σ → (ι → Bool) → (ι → Bool) → Prop

section Defs

variable (P : Program σ π ι χ) (M : Monitor σ π ι)

def announced (t : Target) (w : ι → Bool) (i : ι) : Bool := w i || t = .chan (P.chan i)

/-- The conditions that have become true, after a store. -/
def newly (v v' : σ) (r : ι → Bool) (i : ι) : Bool := r i || !P.cond i v && P.cond i v'

/-- Of those that have become true, the ones that still are have had their `wakeup`. -/
def Heed (v : σ) (r w : ι → Bool) : Prop := ∀ i, r i = true → P.cond i v = true → w i = true

/-- A point that is reached with the lock just acquired. -/
structure Monitor.Entry (p : π) : Prop where
  locked : M.locked p = true
  knows : ∀ v, M.G v → M.J p v (fun _ => false) fun _ => false

def Monitor.Keeps (v : σ) (p : π) (r w : ι → Bool) : Op σ π ι → Prop
  | .acquire n q => n = M.n ∧ M.locked p = false ∧ M.Entry q
  | .release n q => n = M.n ∧ M.locked p = true ∧ M.locked q = false
  | .store v' q =>
    M.locked q = M.locked p ∧ M.G v' ∧
      (M.locked p = true → M.J q v' (newly P v v' r) w) ∧
      (M.locked p = false → (∀ i, P.cond i v' = P.cond i v) ∧
        ∀ p' r' w', M.J p' v r' w' → M.J p' v' r' w')
  | .wake t q => M.locked q = M.locked p ∧ (M.locked p = true → M.J q v r (announced P t w))
  | .sleep i q => M.locked p = true ∧ M.Entry q ∧ P.cond i v = false ∧ Heed P v r w
  | .mark _ q => M.locked q = M.locked p ∧ (M.locked p = true → M.J q v r w)
  | .exit => M.locked p = false

/-- The program keeps to the monitor, and has no interrupt handlers. -/
structure Monitor.Sound : Prop where
  lock : ∀ i, P.lock i = M.n
  intr : ∀ ch, P.intr ch = none
  op : ∀ v p ch o r w, P.op v p ch = some o → M.G v → (M.locked p = true → M.J p v r w) →
    M.Keeps P v p r w o

def Monitor.locks (p : π) : Finset Nat := if M.locked p = true then {M.n} else ∅

def Monitor.FitsResume : Resume π ι → Prop
  | .go p => M.locked p = false
  | .relock _ p => M.Entry p

/-- What a line of a thread says about its point. -/
def Monitor.Fits : Line π ι → Prop
  | .code (.out hs p) | .code (.wake _ _ hs p) => hs = M.locks p
  | .sleepLock _ p | .sleepUnlock _ p | .sleepState _ p | .sleepSched _ p | .slept _ p
  | .relock _ p => M.Entry p
  | .yieldLock r | .yieldState r | .yieldSched r | .yielded r => M.FitsResume r
  | .forkret p => M.locked p = false
  | .exitLock | .exitSched | .zombieExit => True

def Monitor.Fact (d : Table σ π ι) : Line π ι → Prop
  | .code (.out _ p) => M.locked p = true → M.J p d.data d.raised d.woken
  | .code (.wake _ t _ p) => M.locked p = true → M.J p d.data d.raised (announced P t d.woken)
  | .sleepLock i _ | .sleepUnlock i _ => P.cond i d.data = false ∧ Heed P d.data d.raised d.woken
  | _ => True

structure MonitorInv (s : State κ σ π ι) : Prop where
  threads : ThreadInv P s
  noIntr : ∀ c b code, s.loc c ≠ .intr b code
  fits : ∀ x line, (places s).At x line → M.Fits line
  data : M.G s.data.data
  facts : ∀ c x line, s.loc c = .run x line → M.Fact P s.data line

end Defs

variable {P : Program σ π ι χ} {M : Monitor σ π ι}

/-! ### Lines -/

theorem Monitor.locks_true {p : π} (h : M.locked p = true) : M.locks p = {M.n} := if_pos h

theorem Monitor.locks_false {p : π} (h : M.locked p = false) : M.locks p = ∅ := by
  unfold Monitor.locks
  rw [if_neg (by rw [h]; exact nofun)]

theorem enter_raised (hM : M.Sound P) (d : Table σ π ι) :
    (d.enter P M.n).raised = fun _ => false := by
  funext i
  simp [Table.enter, hM.lock]

theorem enter_woken (hM : M.Sound P) (d : Table σ π ι) :
    (d.enter P M.n).woken = fun _ => false := by
  funext i
  simp [Table.enter, hM.lock]

theorem announce_woken (hM : M.Sound P) (d : Table σ π ι) (t : Target) :
    (d.announce P t {M.n}).woken = announced P t d.woken := by
  funext i
  simp [Table.announce, announced, hM.lock]

section Lines

variable {d d' : Table σ π ι} {x : Slot} {ch : Choice χ} {line line' : Line π ι}
  {op : LockOp LockId}

/-- A loop over the threads does not touch what the program knows. -/
theorem Wake.Step.program {me : Option Slot} {t : Target} {w w' : Wake}
    (h : Wake.Step d me t w op w' d') :
    d'.data = d.data ∧ d'.raised = d.raised ∧ d'.woken = d.woken := by
  cases h <;> exact ⟨rfl, rfl, rfl⟩

theorem Monitor.fits_step (hM : M.Sound P) (h : Line.Step P d x ch line op (some line') d')
    (hG : M.G d.data) (hfits : M.Fits line) (hfact : M.Fact P d line) : M.Fits line' := by
  cases h with
  | code ch c c' op d' h =>
    cases h with
    | acquire hs p q ch n hop =>
      obtain ⟨rfl, hp, hq⟩ := hM.op _ _ _ _ _ _ hop hG hfact
      simp only [Monitor.Fits] at hfits ⊢
      rw [hfits, M.locks_false hp, M.locks_true hq.locked]
      rfl
    | release hs p q ch n hop =>
      obtain ⟨rfl, hp, hq⟩ := hM.op _ _ _ _ _ _ hop hG hfact
      simp only [Monitor.Fits] at hfits ⊢
      rw [hfits, M.locks_true hp, M.locks_false hq]
      exact erase_singleton _
    | store hs p q ch v hop | wake hs p q ch t hop =>
      obtain ⟨hpq, -⟩ := hM.op _ _ _ _ _ _ hop hG hfact
      simp only [Monitor.Fits] at hfits ⊢
      rw [hfits, Monitor.locks, Monitor.locks, hpq]
    | walk | walked => exact hfits
  | sleep p q ch i hop => exact (hM.op _ _ _ _ _ _ hop hG hfact).2.1
  | mark hs p q ch l hop =>
    obtain ⟨hpq, -⟩ := hM.op _ _ _ _ _ _ hop hG hfact
    simp only [Monitor.Fits] at hfits ⊢
    rw [hfits, Monitor.locks, Monitor.locks, hpq]
  | exit | exitLock => trivial
  | sleepLock i p | sleepUnlock i p | sleepState i p | slept i p | yieldRelock
  | yieldLock r | yieldState r | yieldedRelock => exact hfits
  | relock =>
    simp only [Monitor.Fits] at hfits ⊢
    rw [M.locks_true hfits.locked, hM.lock]
  | yield =>
    -- a thread that can be interrupted has no lock
    simp only [Monitor.Fits] at hfits
    simp only [Monitor.Fits, Monitor.FitsResume]
    by_contra hp
    rw [M.locks_true (by simpa using hp)] at hfits
    exact absurd hfits.symm (singleton_ne_empty _)
  | yielded | forkret => exact (M.locks_false hfits).symm

theorem Monitor.fits_saved {context : Saved π ι} (h : line.saved = some context)
    (hfits : M.Fits line) : M.Fits context.line := by
  cases line with
  | exitSched =>
    cases h
    trivial
  | sleepSched i p | yieldSched r =>
    cases h
    exact hfits
  | _ => cases h

theorem Monitor.fact_step (hM : M.Sound P) (h : Line.Step P d x ch line op (some line') d')
    (hG : M.G d.data) (hfits : M.Fits line) (hfact : M.Fact P d line) :
    M.G d'.data ∧ M.Fact P d' line' := by
  -- behind a point without the lock nothing is known
  have hout : ∀ {p : π} {d' : Table σ π ι}, M.locked p = false →
      M.Fact P d' (.code (.out ∅ p)) := by
    intro p d' hp hlocked
    rw [hp] at hlocked
    cases hlocked
  cases h with
  | code ch c c' op d' h =>
    cases h with
    | acquire hs p q ch n hop =>
      obtain ⟨rfl, -, hq⟩ := hM.op _ _ _ _ _ _ hop hG hfact
      refine ⟨hG, fun _ => ?_⟩
      rw [enter_raised hM, enter_woken hM]
      exact hq.knows _ hG
    | release hs p q ch n hop =>
      obtain ⟨-, -, hq⟩ := hM.op _ _ _ _ _ _ hop hG hfact
      refine ⟨hG, fun hlocked => ?_⟩
      rw [hq] at hlocked
      cases hlocked
    | store hs p q ch v hop =>
      obtain ⟨hpq, hG', hknows, -⟩ := hM.op _ _ _ _ _ _ hop hG hfact
      refine ⟨hG', fun hlocked => ?_⟩
      rw [hpq] at hlocked
      exact hknows hlocked
    | wake hs p q ch t hop =>
      obtain ⟨hpq, hknows⟩ := hM.op _ _ _ _ _ _ hop hG hfact
      refine ⟨hG, fun hlocked => ?_⟩
      rw [hpq] at hlocked
      exact hknows hlocked
    | walk w w' t hs p op d' h =>
      obtain ⟨hdata, hraised, hwoken⟩ := h.program
      simp only [Monitor.Fact] at hfact ⊢
      rw [hdata, hraised, hwoken]
      exact ⟨hG, hfact⟩
    | walked =>
      refine ⟨hG, fun hlocked => ?_⟩
      simp only [Monitor.Fits] at hfits
      rw [hfits, M.locks_true hlocked, announce_woken hM]
      exact hfact hlocked
  | sleep p q ch i hop =>
    obtain ⟨-, -, hcond, hheed⟩ := hM.op _ _ _ _ _ _ hop hG hfact
    exact ⟨hG, hcond, hheed⟩
  | mark hs p q ch l hop =>
    obtain ⟨hpq, hknows⟩ := hM.op _ _ _ _ _ _ hop hG hfact
    refine ⟨hG, fun hlocked => ?_⟩
    rw [hpq] at hlocked
    exact hknows hlocked
  | sleepLock => exact ⟨hG, hfact⟩
  | relock i p =>
    have hentry : M.Entry p := hfits
    refine ⟨hG, fun _ => ?_⟩
    rw [hM.lock i, enter_raised hM, enter_woken hM]
    exact hentry.knows _ hG
  | yielded | forkret => exact ⟨hG, hout hfits⟩
  | _ => exact ⟨hG, trivial⟩

structure Monitor.Same (P : Program σ π ι χ) (M : Monitor σ π ι) (d d' : Table σ π ι) : Prop where
  knows : ∀ p r w, M.J p d.data r w → M.J p d'.data r w
  cond : ∀ i, P.cond i d'.data = P.cond i d.data
  raised : d'.raised = d.raised
  woken : d'.woken = d.woken

theorem Monitor.Same.fact (h : M.Same P d d') (hfact : M.Fact P d line) : M.Fact P d' line := by
  cases line with
  | code c =>
    cases c with intro hlocked
    | out =>
      rw [h.raised, h.woken]
      exact h.knows _ _ _ (hfact hlocked)
    | wake =>
      rw [h.raised, h.woken]
      exact h.knows _ _ _ (hfact hlocked)
  | sleepLock i p | sleepUnlock i p =>
    obtain ⟨hcond, hheed⟩ := hfact
    refine ⟨(h.cond i).trans hcond, fun j hj hj' => ?_⟩
    rw [h.raised] at hj
    rw [h.cond] at hj'
    rw [h.woken]
    exact hheed j hj hj'
  | _ => trivial

end Lines

/-! ### Steps -/

namespace MonitorInv

variable {s s' : State κ σ π ι} {c c' : κ} {ch : Choice χ} {op : LockOp LockId}

variable {x : Slot} {hs : Finset Nat}

section

variable (h : MonitorInv P M s)

include h

theorem locks {p : π} (hl : s.loc c = .run x (.code (.out hs p))) :
    hs = M.locks p :=
  h.fits x _ (Placement.at_of_on (on_of_loc hl))

theorem op_eq {o : Op σ π ι}
    (hop : (s.loc c).op P s.data.data ch = some (hs, o)) :
    ∃ x p ch', s.loc c = .run x (.code (.out hs p)) ∧ ch = .op ch' ∧
      P.op s.data.data p ch' = some o := by
  simp only [Loc.op] at hop
  split at hop
  case h_1 x hs' p ch' hl =>
    obtain ⟨o', ho, heq⟩ := Option.map_eq_some_iff.mp hop
    obtain ⟨rfl, rfl⟩ := Prod.mk.inj heq
    exact ⟨x, p, ch', hl, rfl, ho⟩
  case h_2 b hs' p ch' hl => exact absurd hl (h.noIntr c b _)
  case h_3 => cases hop

theorem keeps (hM : M.Sound P) {p : π} {ch' : χ} {o : Op σ π ι}
    (hl : s.loc c = .run x (.code (.out hs p))) (hop : P.op s.data.data p ch' = some o) :
    M.Keeps P s.data.data p s.data.raised s.data.woken o :=
  hM.op _ _ _ _ _ _ hop h.data (h.facts c x _ hl)

theorem same (hM : M.Sound P) [DecidableEq κ]
    (hs : Stepped P s s' c ch op) (howner : lockStep s.owner c op = some s'.owner)
    (hc : c' ≠ c) (hheld : (s.loc c').held P (.other M.n)) : M.Same P s.data s'.data := by
  have hnot : ¬(s.loc c).held P (.other M.n) := fun hheld' => hc (h.threads.owned.unique hheld hheld')
  have hquiet : s'.data.data = s.data.data → s'.data.raised = s.data.raised →
      s'.data.woken = s.data.woken → M.Same P s.data s'.data := by
    intro hdata hraised hwoken
    refine ⟨fun p r w hJ => ?_, fun i => ?_, hraised, hwoken⟩
    · rwa [hdata]
    · rw [hdata]
  have hfree : ∀ n, op = .acquire (.other n) → n ≠ M.n := by
    rintro n rfl rfl
    rw [lockStep, (h.threads.owned _ c').mpr hheld] at howner
    cases howner
  cases hs.instr.acts with
  | acquire n hop data raised woken =>
    have hn := hfree n hop
    refine hquiet data ?_ ?_
    · funext i
      have := raised i
      rw [hM.lock] at this
      exact Bool.eq_iff_iff.mpr (this.trans ⟨fun h => h.1, fun h => ⟨h, hn.symm⟩⟩)
    · funext i
      have := woken i
      rw [hM.lock] at this
      exact Bool.eq_iff_iff.mpr (this.trans ⟨fun h => h.1, fun h => ⟨h, hn.symm⟩⟩)
  | store hs' v q hstore hheld' hop data raised woken =>
    obtain ⟨x, p, ch', hl, -, hpop⟩ := h.op_eq hstore
    obtain ⟨-, -, -, hout⟩ := h.keeps hM hl hpop
    have hp : M.locked p = false := by
      by_contra hp
      refine hnot ((hheld' _).mpr ?_)
      rw [h.locks hl, M.locks_true (by simpa using hp)]
      exact mem_singleton_self _
    obtain ⟨hcond, hknows⟩ := hout hp
    refine ⟨fun p r w hJ => ?_, fun i => ?_, ?_, woken⟩
    · rw [data]
      exact hknows p r w hJ
    · rw [data]
      exact hcond i
    · funext i
      refine Bool.eq_iff_iff.mpr ((raised i).trans ⟨?_, .inl⟩)
      rintro (hr | ⟨hfalse, htrue⟩)
      · exact hr
      · rw [hcond i, hfalse] at htrue
        cases htrue
  | announce k t hs' p hcode hk hop data raised woken =>
    refine hquiet data raised ?_
    funext i
    refine Bool.eq_iff_iff.mpr ((woken i).trans ⟨?_, .inl⟩)
    rintro (hw | ⟨-, hmem⟩)
    · exact hw
    · refine absurd ?_ hnot
      rw [held_of_code hcode]
      rw [hM.lock] at hmem
      exact .inl (heldOf_other.mpr hmem)
  | quiet hacq hrel data raised woken => exact hquiet data raised woken

theorem held_or (hM : M.Sound P) {line : Line π ι}
    (hl : s.loc c = .run x line) :
    (s.loc c).held P (.other M.n) ∨ ∀ d : Table σ π ι, M.Fact P d line := by
  have hfits := h.fits x line (Placement.at_of_on (on_of_loc hl))
  rw [hl]
  cases line with
  | code code =>
    cases code with
    | out hs p =>
      by_cases hp : M.locked p = true
      · simp only [Monitor.Fits] at hfits
        rw [hfits, M.locks_true hp]
        exact .inl (heldOf_other.mpr (mem_singleton_self _))
      · exact .inr fun d hlocked => absurd hlocked hp
    | wake w t hs p =>
      by_cases hp : M.locked p = true
      · simp only [Monitor.Fits] at hfits
        rw [hfits, M.locks_true hp]
        exact .inl (.inl (heldOf_other.mpr (mem_singleton_self _)))
      · exact .inr fun d hlocked => absurd hlocked hp
  | sleepLock i =>
    refine .inl ?_
    show LockId.other M.n = .other (P.lock i)
    rw [hM.lock]
  | sleepUnlock =>
    refine .inl (.inl ?_)
    rw [hM.lock]
  | _ => exact .inr fun d => trivial

theorem step_fits (hM : M.Sound P) (hs : Stepped P s s' c ch op) (x : Slot)
    (line' : Line π ι) (hat : (places s').At x line') : M.Fits line' := by
  cases h.threads.arrived hs hat with
  | go line loc loc' step =>
    exact M.fits_step hM step h.data (h.fits x line (Placement.at_of_on (on_of_loc loc)))
      (h.facts c x line loc)
  | leave line context loc saved place =>
    rw [place]
    exact M.fits_saved saved (h.fits x line (Placement.at_of_on (on_of_loc loc)))
  | stay place => exact h.fits x line' place

theorem step_data (hM : M.Sound P) (hs : Stepped P s s' c ch op) :
    M.G s'.data.data := by
  have hG := h.data
  cases hs.instr.acts with
  | acquire n hop data | announce k t hs' p hcode hk hop data | quiet hacq hrel data => rwa [data]
  | store hs' v q hstore hheld' hop data =>
    obtain ⟨x, p, ch', hl, -, hpop⟩ := h.op_eq hstore
    rw [data]
    exact (h.keeps hM hl hpop).2.1

theorem step_facts [DecidableEq κ] (hM : M.Sound P)
    (hs : Stepped P s s' c ch op) (howner : lockStep s.owner c op = some s'.owner) (c' : κ) (x : Slot)
    (line' : Line π ι) (hl' : s'.loc c' = .run x line') : M.Fact P s'.data line' := by
  by_cases hc : c' = c
  · rw [hc] at hl'
    obtain ⟨line, hl, hstep⟩ | ⟨⟨context, rfl⟩, -⟩ := hs.came (h.noIntr c) hl'
    · have hfits := h.fits x line (Placement.at_of_on (on_of_loc hl))
      exact (M.fact_step hM hstep h.data hfits (h.facts c x line hl)).2
    · cases context <;> trivial
  · have hl := hl'
    rw [hs.others c' hc] at hl
    obtain hheld | hall := h.held_or hM hl
    · exact (h.same hM hs howner hc hheld).fact (h.facts c' x line' hl)
    · exact hall s'.data

theorem step [DecidableEq κ] (hM : M.Sound P)
    (hstep : (sleepCode P).machine.step s (c, ch) = some s') : MonitorInv P M s' := by
  obtain ⟨op, hs, howner⟩ := stepped hstep
  exact {
    threads := h.threads.step hstep
    noIntr := hs.noIntr hM.intr h.noIntr
    fits := h.step_fits hM hs
    data := h.step_data hM hs
    facts := h.step_facts hM hs howner }

/-- **The discipline of a monitor**, when the thread that releases the lock has called the wakeups
that are due. -/
theorem heeds (hM : M.Sound P) (a : κ × Choice χ)
    (hrelease : ∀ x hs p ch' n q, s.loc a.1 = .run x (.code (.out hs p)) → a.2 = .op ch' →
      P.op s.data.data p ch' = some (.release n q) →
        Heed P s.data.data s.data.raised s.data.woken) : Heeds P s a := by
  obtain ⟨c, ch⟩ := a
  constructor
  · rintro ⟨hs, o⟩ hop
    obtain ⟨x, p, ch', hl, -, hpop⟩ := h.op_eq hop
    have hkeeps := h.keeps hM hl hpop
    cases o with
    | sleep => exact hkeeps.2.2.1
    | store =>
      intro i hfalse htrue
      obtain ⟨-, -, -, hout⟩ := hkeeps
      have hp : M.locked p = true := by
        by_contra hp
        have hcond := (hout (by simpa using hp)).1 i
        rw [htrue, hfalse] at hcond
        cases hcond
      show P.lock i ∈ hs
      rw [h.locks hl, M.locks_true hp, hM.lock]
      exact mem_singleton_self _
    | _ => trivial
  · intro n hn i hi hraised hcond
    simp only [Loc.releases, Option.mem_def] at hn
    split at hn
    case h_1 l hs n' p hop =>
      obtain ⟨x, p', ch', hl, hch, hpop⟩ := h.op_eq hop
      exact .inl (hrelease x _ p' ch' _ _ hl hch hpop i hraised hcond)
    case h_2 x j p hl _ =>
      obtain ⟨-, hheed⟩ := h.facts c x _ hl
      exact .inl (hheed i hraised hcond)
    case h_3 => cases hn

end

end MonitorInv

/-- No thread has run yet, and all are at points without the lock. -/
theorem Start.monitorInv {s : State κ σ π ι} (h : Start s)
    (hpoint : ∀ x p, s.data.context x = .forkret p → M.locked p = false) (hG : M.G s.data.data) :
    MonitorInv P M s := by
  have hscan : ∀ c x line, s.loc c ≠ .run x line := by
    intro c x line hl
    obtain ⟨p, hp⟩ := h.loc c
    rw [hp] at hl
    cases hl
  refine ⟨h.threadInv, fun c b code hl => ?_, fun x line hat => ?_, hG,
    fun c x line hl => absurd hl (hscan c x line)⟩
  · obtain ⟨p, hp⟩ := h.loc c
    rw [hp] at hl
    cases hl
  have hoff : (places s).Off x := by
    intro c line hc
    obtain ⟨p, hp⟩ := h.loc c
    have hon : (s.loc c).on = some (x, line) := hc
    rw [hp] at hon
    cases hon
  obtain ⟨p, hp⟩ := h.context x
  have hline : line = (s.data.context x).line := hoff.eq_saved hat
  rw [hline, hp]
  exact hpoint x p hp

end Xv6.Sleep
