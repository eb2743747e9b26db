import Xv6.Sleep.Equiv.Step

/-!
# The threads of sleepers and wakers

`ThreadInv` holds whatever the program does: no thread is on two CPUs, one on a CPU is `RUNNABLE` or
`SLEEPING` only while it is about to switch to the scheduler, one that a CPU is about to start or to
wake up is on none, and one that sleeps has its channel in `t->chan`.
-/

namespace Xv6.Sleep

open Lib
open Function (update update_of_ne update_self)

variable {κ σ π ι χ : Type} {P : Program σ π ι χ}

/-! ### What an instruction stores -/

/-- The thread that a loop over the threads has found, and is about to wake up. -/
def Code.tested : Code π → Option Slot
  | .wake (.set k l) _ _ _ => some (k, l)
  | _ => none

/-- The thread that a CPU is about to start or to wake up. -/
def Loc.tested : Loc π ι → Option Slot
  | .set p j => some (p, j)
  | .run _ (.code c) | .intr _ c => c.tested
  | _ => none

theorem Code.held_of_tested {c : Code π} {y : Slot} (h : c.tested = some y) :
    c.held (.proc y.1) := by
  cases c with
  | out => cases h
  | wake w =>
    cases w with
    | set =>
      cases h
      exact .inr rfl
    | _ => cases h

theorem Loc.held_of_tested {l : Loc π ι} {y : Slot} (h : l.tested = some y) :
    l.held P (.proc y.1) := by
  cases l with
  | set =>
    cases h
    exact rfl
  | run x line =>
    cases line with
    | code => exact Code.held_of_tested h
    | _ => cases h
  | intr => exact Code.held_of_tested h
  | _ => cases h

/-- The state that the instruction stores to a thread. -/
inductive Loc.Stores (l : Loc π ι) : Slot → ProcState → Prop where
  -- `scheduler`, `wakeup` and `kill`
  | tested (y : Slot) (st : ProcState) (h : l.tested = some y)
      (hst : st = .running ∨ st = .runnable) : Stores l y st
  | mark (y : Slot) : Stores l y .zombie
  | sleep (x : Slot) (i : ι) (p : π) (h : l = .run x (.sleepState i p)) : Stores l x .sleeping
  | yield (x : Slot) (r : Resume π ι) (h : l = .run x (.yieldState r)) : Stores l x .runnable

section Stores

variable {d d' : Table σ π ι} {me : Option Slot} {ch : Choice χ} {op : LockOp LockId}

theorem Code.Step.states {c c' : Code π} (h : Code.Step P d me ch c op c' d') :
    d'.threadState = d.threadState ∨
      ∃ y, c.tested = some y ∧ d'.threadState = update d.threadState y .runnable := by
  cases h with
  | walk w w' t hs p op d' h =>
    cases h with
    | set k l | setLast k l => exact .inr ⟨(k, l), rfl, rfl⟩
    | _ => exact .inl rfl
  | _ => exact .inl rfl

/-- A thread's state changes only by such a store. -/
theorem Loc.Step.states {l l' : Loc π ι} (h : Loc.Step P d ch l op l' d') :
    d'.threadState = d.threadState ∨
      ∃ y st, l.Stores y st ∧ d'.threadState = update d.threadState y st := by
  cases h with
  | intr ch b c c' op d' h =>
    obtain hsame | ⟨y, hy, hstates⟩ := h.states
    · exact .inl hsame
    · exact .inr ⟨y, _, .tested y _ hy (.inr rfl), hstates⟩
  | set p j => exact .inr ⟨(p, j), _, .tested (p, j) _ rfl (.inl rfl), rfl⟩
  | run ch x line line' op d' h =>
    cases h with
    | code ch c c' op d' h =>
      obtain hsame | ⟨y, hy, hstates⟩ := h.states
      · exact .inl hsame
      · exact .inr ⟨y, _, .tested y _ hy (.inr rfl), hstates⟩
    | mark hs p q ch l => exact .inr ⟨(x.1, l), _, .mark _, rfl⟩
    | sleepState i p => exact .inr ⟨x, _, .sleep x i p rfl, rfl⟩
    | yieldState r => exact .inr ⟨x, _, .yield x r rfl, rfl⟩
    | _ => exact .inl rfl
  | _ => exact .inl rfl

theorem Code.Step.threads {c c' : Code π} (h : Code.Step P d me ch c op c' d') :
    d'.chan = d.chan ∧ d'.context = d.context := by
  cases h with
  | walk w w' t hs p op d' h => cases h <;> exact ⟨rfl, rfl⟩
  | _ => exact ⟨rfl, rfl⟩

theorem Loc.Step.threads {l l' : Loc π ι} (h : Loc.Step P d ch l op l' d') {y : Slot}
    (hy : ∀ line, l ≠ .run y line) : d'.chan y = d.chan y ∧ d'.context y = d.context y := by
  cases h with
  | intr ch b c c' op d' h => exact ⟨congrFun h.threads.1 y, congrFun h.threads.2 y⟩
  | run ch x line line' op d' h =>
    have hne : y ≠ x := by
      rintro rfl
      exact hy line rfl
    cases h with
    | code ch c c' op d' h => exact ⟨congrFun h.threads.1 y, congrFun h.threads.2 y⟩
    | sleepState | slept => exact ⟨update_of_ne hne _ _, rfl⟩
    | _ => exact ⟨rfl, rfl⟩
  | leave ch x line =>
    have hne : y ≠ x := by
      rintro rfl
      exact hy line rfl
    exact ⟨rfl, update_of_ne hne _ _⟩
  | _ => exact ⟨rfl, rfl⟩

end Stores

/-! ### The invariant -/

def busy (st : ProcState) : Prop := st ≠ .runnable ∧ st ≠ .sleeping

/-- The condition for which a thread has called `sleep`, from its store of `SLEEPING` on. -/
def Line.asleep : Line π ι → Option ι
  | .sleepSched i _ | .slept i _ => some i
  | _ => none

variable (P) in

/-- The invariant of the threads and their places. -/
structure ThreadInv (s : State κ σ π ι) : Prop where
  owned : SpinCode.Owned (Loc.held P) s
  once : (places s).Once
  on : ∀ c x line, (places s).on c = some (x, line) → line.saved = none →
    busy (s.data.threadState x)
  off : ∀ c y, (s.loc c).tested = some y → (places s).Off y
  chan : ∀ x line i, (places s).At x line → line.asleep = some i → s.data.chan x = some (P.chan i)

variable {s s' : State κ σ π ι} {c : κ} {ch : Choice χ} {x y : Slot} {line line' : Line π ι}

variable (P) in

/-- What one step of CPU `c` is, without the locks. -/
structure Stepped (s s' : State κ σ π ι) (c : κ) (ch : Choice χ) (op : LockOp LockId) : Prop where
  instr : Loc.Step P s.data ch (s.loc c) op (s'.loc c) s'.data
  others : ∀ c', c' ≠ c → s'.loc c' = s.loc c'

theorem stepped [DecidableEq κ] (h : (sleepCode P).machine.step s (c, ch) = some s') :
    ∃ op, Stepped P s s' c ch op ∧ lockStep s.owner c op = some s'.owner := by
  obtain ⟨op, l, d, owner, hinstr, hlock, rfl⟩ := SpinCode.step_eq_some h
  refine ⟨op, ⟨?_, fun c' hc => update_of_ne hc _ _⟩, hlock⟩
  dsimp only
  rw [update_self]
  exact Loc.instr_step hinstr

theorem Stepped.came (hs : Stepped P s s' c ch op) (hnone : ∀ b code, s.loc c ≠ .intr b code)
    {x : Slot} {line' : Line π ι} (hl' : s'.loc c = .run x line') :
    (∃ line, s.loc c = .run x line ∧ Line.Step P s.data x ch line op (some line') s'.data) ∨
      (∃ context : Saved π ι, line' = context.line) ∧ s'.data.data = s.data.data := by
  have hinstr := hs.instr
  rw [hl'] at hinstr
  generalize hl : s.loc c = l at hinstr hnone
  generalize s'.data = d' at hinstr ⊢
  generalize hl₁ : Loc.run x line' = l' at hinstr
  cases hinstr with
  | run ch y line line₁ op d' h =>
    obtain ⟨rfl, rfl⟩ := Loc.run.inj hl₁
    exact .inl ⟨line, rfl, h⟩
  | iret b => exact absurd rfl (hnone b _)
  | set => exact .inr ⟨⟨_, (Loc.run.inj hl₁).2⟩, rfl⟩
  | leave | lookSkip =>
    unfold Loc.lookNext at hl₁
    split_ifs at hl₁
  | _ => cases hl₁

theorem Stepped.noIntr (hs : Stepped P s s' c ch op) (hintr : ∀ ch, P.intr ch = none)
    (hnone : ∀ c b code, s.loc c ≠ .intr b code) (c' : κ) (b : Back π ι) (code : Code π) :
    s'.loc c' ≠ .intr b code := by
  intro hl'
  by_cases hc : c' = c
  · rw [hc] at hl'
    have hinstr := hs.instr
    have hnone := hnone c
    rw [hl'] at hinstr
    generalize s.loc c = l at hinstr hnone
    generalize s'.data = d' at hinstr
    generalize hl₁ : Loc.intr b code = l' at hinstr
    cases hinstr with
    | interrupt ch l b p hb hp =>
      rw [hintr] at hp
      cases hp
    | iret b => exact hnone b _ rfl
    | intr ch b c₁ => exact hnone b c₁ rfl
    | leave | lookSkip =>
      unfold Loc.lookNext at hl₁
      split_ifs at hl₁
    | _ => cases hl₁
  · rw [hs.others c' hc] at hl'
    exact hnone c' b code hl'

theorem on_of_loc (h : s.loc c = .run x line) : (places s).on c = some (x, line) :=
  congrArg Loc.on h

theorem Resume.saved_line (r : Resume π ι) : r.line.saved = none := by
  cases r <;> rfl

theorem on_lookNext {p : Fin nproc} {j : Fin nthread} : (Loc.lookNext p j : Loc π ι).on = none := by
  unfold Loc.lookNext
  split_ifs <;> rfl

theorem tested_lookNext {p : Fin nproc} {j : Fin nthread} :
    (Loc.lookNext p j : Loc π ι).tested = none := by
  unfold Loc.lookNext
  split_ifs <;> rfl

theorem Back.on_loc (b : Back π ι) (c : Code π) : b.loc.on = (Loc.intr b c).on := by
  cases b <;> rfl

/-- A thread about to switch to the scheduler is not interrupted, and has the lock of its
process. -/
theorem Loc.of_saved {l : Loc π ι} (h : l.on = some (x, line)) (hsaved : line.saved ≠ none) :
    l = .run x line ∧ l.held P (.proc x.1) := by
  cases l with
  | run z =>
    obtain ⟨rfl, rfl⟩ := Prod.mk.inj (Option.some.inj h)
    obtain ⟨context, hcontext⟩ := Option.ne_none_iff_exists'.mp hsaved
    exact ⟨rfl, (Line.held_of_saved hcontext z.1 _).mpr rfl⟩
  | intr b =>
    cases b with
    | run z r =>
      cases h
      exact absurd r.saved_line hsaved
    | scan => cases h
  | _ => cases h

/-- A thread that is `RUNNABLE` or `SLEEPING` is on no CPU, when another one has the lock of its
process. -/
theorem ThreadInv.off_of_held (h : ThreadInv P s) (hheld : (s.loc c).held P (.proc y.1))
    (hst : ¬ busy (s.data.threadState y))
    (hc : ∀ line, (s.loc c).on = some (y, line) → line.saved = none) : (places s).Off y := by
  intro c' line hc'
  by_cases hsaved : line.saved = none
  · exact hst (h.on c' y line hc' hsaved)
  · obtain ⟨-, hheld'⟩ := Loc.of_saved (P := P) hc' hsaved
    obtain rfl := h.owned.unique hheld' hheld
    exact hsaved (hc line hc')

variable {op : LockOp LockId}

/-- A step moves one thread. -/
theorem ThreadInv.move (h : ThreadInv P s) (hs : Stepped P s s' c ch op) :
    (places s).Move (places s') c := by
  have hinstr := hs.instr
  have hon : ∀ {s : State κ σ π ι} {l : Loc π ι}, s.loc c = l → (places s).on c = l.on := by
    rintro s l rfl
    rfl
  have hsame : ∀ o, (places s).on c = o → (places s').on c = o →
      (places s).Move (places s') c := by
    intro o ho ho'
    cases o with
    | none => exact .idle ho ho'
    | some y => exact .go y.1 y.2 y.2 ho ho'
  generalize hl : s.loc c = l at hinstr
  generalize hl' : s'.loc c = l' at hinstr
  generalize s'.data = d' at hinstr
  have hon₁ := hon hl
  have hon₂ := hon hl'
  cases hinstr with
  | interrupt ch l b p hb =>
    rw [(not_held_of_back (P := P) (m := .other 0) hb).2, b.on_loc (.out ∅ p)] at hon₁
    exact hsame _ hon₁ hon₂
  | iret b p =>
    rw [b.on_loc (.out ∅ p)] at hon₂
    exact hsame _ hon₁ hon₂
  | intr ch b =>
    rw [← b.on_loc] at hon₁ hon₂
    exact hsame _ hon₁ hon₂
  | set p j =>
    have htested : (s.loc c).tested = some (p, j) := by
      rw [hl]
      rfl
    exact .start (p, j) hon₁ (h.off c (p, j) htested) hon₂
  | run ch x line line' => exact .go x line line' hon₁ hon₂
  | leave ch x line =>
    rw [on_lookNext] at hon₂
    exact .leave x line hon₁ hon₂
  | lookSkip =>
    rw [on_lookNext] at hon₂
    exact .idle hon₁ hon₂
  | _ => exact .idle hon₁ hon₂

theorem Stepped.on (h : Stepped P s s' c ch op) (c' : κ) (hc : c' ≠ c) :
    (places s').on c' = (places s).on c' := congrArg Loc.on (h.others c' hc)

/-! ### Where the threads are after a step -/

variable (P) in

/-- How a thread has come to its line. -/
inductive Arrived (s s' : State κ σ π ι) (c : κ) (ch : Choice χ) (op : LockOp LockId) (y : Slot)
    (line' : Line π ι) : Prop where
  -- it is on the CPU
  | go (line : Line π ι) (loc : s.loc c = .run y line) (loc' : s'.loc c = .run y line')
      (step : Line.Step P s.data y ch line op (some line') s'.data)
  -- it has switched to the scheduler
  | leave (line : Line π ι) (context : Saved π ι) (loc : s.loc c = .run y line)
      (saved : line.saved = some context) (place : line' = context.line)
      (table : s'.data = s.data.save y context)
  -- it was there
  | stay (place : (places s).At y line') (chan : s'.data.chan y = s.data.chan y)
      (state : s'.data.threadState y = .sleeping → s.data.threadState y = .sleeping)

theorem Stepped.sleeping (hs : Stepped P s s' c ch op) (hy : ∀ line, s.loc c ≠ .run y line)
    (hst : s'.data.threadState y = .sleeping) :
    s.data.threadState y = .sleeping := by
  obtain hsame | ⟨z, st, hstores, hstates⟩ := hs.instr.states
  · rwa [← hsame]
  by_cases hyz : y = z
  · subst hyz
    rw [hstates, update_self] at hst
    subst hst
    cases hstores with
    | tested _ h hst => obtain hst | hst := hst <;> cases hst
    | sleep i p h => exact absurd h (hy _)
  · rwa [hstates, update_of_ne hyz] at hst

/-- **How a thread has come to its place.** -/
theorem ThreadInv.arrived (h : ThreadInv P s) (hs : Stepped P s s' c ch op)
    (hy : (places s').At y line') : Arrived P s s' c ch op y line' := by
  obtain ⟨line, hcame⟩ | ⟨hoff, hplace⟩ := (h.move hs).at_cases hs.on h.once hy
  · have hon : (s.loc c).on = some (y, line) := hcame.1
    have hinstr := hs.instr
    generalize hl : s.loc c = l at hinstr hon
    generalize hl' : s'.loc c = l' at hinstr
    generalize hd' : s'.data = d' at hinstr
    have hcame₂ : l'.on = some (y, line') ∨ l'.on = none ∧ (s'.data.context y).line = line' :=
      hl' ▸ hcame.2
    -- an interrupted thread is where it was
    have hstay : l'.on = l.on → s'.data.chan y = s.data.chan y →
        (s'.data.threadState y = .sleeping → s.data.threadState y = .sleeping) →
        Arrived P s s' c ch op y line' := by
      intro hsame hchan hstate
      rw [hsame, hon] at hcame₂
      obtain hthread | ⟨hthread, -⟩ := hcame₂
      · obtain ⟨-, rfl⟩ := Prod.mk.inj (Option.some.inj hthread)
        exact .stay (Placement.at_of_on hcame.1) hchan hstate
      · cases hthread
    cases hinstr with
    | interrupt ch l b p hb =>
      refine hstay ?_ (by rw [hd']) (by rw [hd']; exact id)
      rw [(not_held_of_back (P := P) (m := .other 0) hb).2, b.on_loc (.out ∅ p)]
    | iret b => exact hstay (b.on_loc _) (by rw [hd']) (by rw [hd']; exact id)
    | intr ch b =>
      have hne : ∀ line, s.loc c ≠ .run y line := by
        rw [hl]
        exact nofun
      refine hstay ?_ (hs.instr.threads hne).1 (hs.sleeping hne)
      rw [← b.on_loc, ← b.on_loc]
    | run ch x₁ line₁ line₂ op d' hline =>
      obtain ⟨rfl, rfl⟩ := Prod.mk.inj (Option.some.inj hon)
      obtain hthread | ⟨hthread, -⟩ := hcame₂
      · obtain ⟨-, rfl⟩ := Prod.mk.inj (Option.some.inj hthread)
        rw [← hd'] at hline
        exact .go line₁ hl hl' hline
      · cases hthread
    | leave ch x₁ line₁ context hcontext =>
      obtain ⟨rfl, rfl⟩ := Prod.mk.inj (Option.some.inj hon)
      rw [on_lookNext] at hcame₂
      obtain hthread | ⟨-, hsaved⟩ := hcame₂
      · cases hthread
      · refine .leave line₁ context hl hcontext ?_ hd'
        rw [← hsaved, hd', Table.save]
        dsimp only
        rw [update_self]
    | _ => cases hon
  · have hoff' : ∀ line, s.loc c ≠ .run y line := fun line hl => hoff line (on_of_loc hl)
    obtain ⟨hchan, hcontext⟩ := hs.instr.threads hoff'
    refine .stay ?_ hchan (hs.sleeping hoff')
    obtain hplace | ⟨-, -, hne⟩ := hplace
    · exact hplace
    · exact absurd (congrArg Saved.line hcontext) hne

/-! ### Steps -/

section Step

variable {op : LockOp LockId} (h : ThreadInv P s) (hs : Stepped P s s' c ch op)

include h hs

theorem ThreadInv.state_of_ne {c' : κ} (hc : c' ≠ c) (hx : (places s).on c' = some (x, line)) :
    s'.data.threadState x = s.data.threadState x ∨ s'.data.threadState x = .zombie := by
  obtain hsame | ⟨y, st, hstores, hstates⟩ := hs.instr.states
  · exact .inl (congrFun hsame x)
  by_cases hxy : x = y
  · subst hxy
    rw [hstates, update_self]
    cases hstores with
    | tested _ hy => exact absurd hx (h.off c x hy c' line)
    | mark => exact .inr rfl
    | sleep i p hl | yield r hl => exact absurd (h.once c' c x line _ hx (on_of_loc hl)) hc
  · rw [hstates, update_of_ne hxy]
    exact .inl rfl

omit hs in
/-- The thread on the CPU keeps its state when the CPU wakes up other ones. -/
theorem ThreadInv.state_of_code {d' : Table σ π ι} {me : Option Slot} {c₁ c₂ : Code π}
    (hstep : Code.Step P s.data me ch c₁ op c₂ d') (htested : (s.loc c).tested = c₁.tested)
    (hx : (places s).on c = some (x, line)) : d'.threadState x = s.data.threadState x := by
  obtain hsame | ⟨y, hy, hstates⟩ := hstep.states
  · exact congrFun hsame x
  · rw [hstates, update_of_ne]
    rintro rfl
    exact h.off c x (htested.trans hy) c line hx

omit h hs in
theorem Line.Step.saved_eq {d d' : Table σ π ι}
    (hstep : Line.Step P d x ch line op (some line') d') : line.saved = none := by
  cases hstep <;> rfl

theorem ThreadInv.step_on_self (x : Slot) (line : Line π ι)
    (hx : (s'.loc c).on = some (x, line)) (hsaved : line.saved = none) :
    busy (s'.data.threadState x) := by
  have hinstr := hs.instr
  generalize hl : s.loc c = l at hinstr
  generalize s'.loc c = l' at hinstr hx
  generalize s'.data = d' at hinstr ⊢
  have hon : ∀ {line}, l.on = some (x, line) → (places s).on c = some (x, line) := by
    intro line hline
    rw [← hl] at hline
    exact hline
  cases hinstr with
  | interrupt ch l b p hb =>
    rw [← b.on_loc, ← (not_held_of_back (P := P) (m := .other 0) hb).2] at hx
    exact h.on c x line (hon hx) hsaved
  | iret b p =>
    rw [b.on_loc (.out ∅ p)] at hx
    exact h.on c x line (hon hx) hsaved
  | intr ch b c₁ c₂ op d' hstep =>
    rw [← b.on_loc, b.on_loc c₁] at hx
    rw [h.state_of_code hstep (congrArg Loc.tested hl) (hon hx)]
    exact h.on c x line (hon hx) hsaved
  | set =>
    obtain ⟨rfl, -⟩ := Prod.mk.inj (Option.some.inj hx)
    rw [Table.setThreadState]
    dsimp only
    rw [update_self]
    exact ⟨nofun, nofun⟩
  | run ch x₁ line₁ line₂ op d' hstep =>
    obtain ⟨rfl, rfl⟩ := Prod.mk.inj (Option.some.inj hx)
    have hbusy := h.on c x₁ line₁ (hon rfl) hstep.saved_eq
    cases hstep with
    | code ch c₁ c₂ op d' hcode =>
      rw [h.state_of_code hcode (congrArg Loc.tested hl) (hon rfl)]
      exact hbusy
    | mark hs p q ch i =>
      by_cases hi : x₁ = (x₁.1, i)
      · rw [hi, Table.setThreadState]
        dsimp only
        rw [update_self]
        exact ⟨nofun, nofun⟩
      · rw [Table.setThreadState]
        dsimp only
        rw [update_of_ne hi]
        exact hbusy
    | sleepState | yieldState => cases hsaved
    | _ => exact hbusy
  | leave | lookSkip =>
    rw [on_lookNext] at hx
    cases hx
  | _ => cases hx

theorem ThreadInv.step_on (c' : κ) (x : Slot) (line : Line π ι)
    (hx : (places s').on c' = some (x, line)) (hsaved : line.saved = none) :
    busy (s'.data.threadState x) := by
  by_cases hc : c' = c
  · rw [hc] at hx
    exact h.step_on_self hs x line hx hsaved
  rw [hs.on c' hc] at hx
  obtain hsame | hzombie := h.state_of_ne hs hc hx
  · rw [hsame]
    exact h.on c' x line hx hsaved
  · rw [hzombie]
    exact ⟨nofun, nofun⟩

/-- A thread that a CPU has found is on no CPU: its state says so, and the CPU has its lock. -/
theorem ThreadInv.step_off_self (y : Slot) (hy : (s'.loc c).tested = some y) :
    (places s).Off y := by
  have hinstr := hs.instr
  generalize hl : s.loc c = l at hinstr
  generalize s'.loc c = l' at hinstr hy
  generalize s'.data = d' at hinstr
  -- a loop over the threads has found `y`
  have hcode : ∀ {me : Option Slot} {c₁ c₂ : Code π}, Code.Step P s.data me ch c₁ op c₂ d' →
      c₂.tested = some y → (s.loc c).held P = c₁.held →
      (∀ line, (s.loc c).on = some (y, line) → line.saved = none) → (places s).Off y := by
    intro me c₁ c₂ hstep hy hheld hc
    cases hstep with
    | walk w w' t hs p op d' hw =>
      cases hw with
      | test k l hwakes =>
        cases hy
        refine h.off_of_held (by rw [hheld]; exact .inr rfl) (fun hbusy => hbusy.2 ?_) hc
        cases t with
        | chan => exact (of_decide_eq_true hwakes).2.1
        | kill => exact of_decide_eq_true hwakes
      | _ => cases hy
    | _ => cases hy
  cases hinstr with
  | interrupt => cases hy
  | iret b =>
    cases b with
    | scan => cases hy
    | run x r => cases r <;> cases hy
  | intr ch b c₁ c₂ op d' hstep =>
    refine hcode hstep hy (by rw [hl]; rfl) fun line hline => ?_
    rw [hl] at hline
    cases b with
    | scan => cases hline
    | run x r =>
      obtain ⟨-, rfl⟩ := Prod.mk.inj (Option.some.inj hline)
      exact r.saved_line
  | lookFound p j hrunnable =>
    cases hy
    refine h.off_of_held (by rw [hl]; exact rfl) (fun hbusy => hbusy.1 hrunnable) ?_
    rw [hl]
    exact nofun
  | set p j => cases hc : s.data.context (p, j) <;> rw [hc] at hy <;> cases hy
  | run ch x₁ line₁ line₂ op d' hstep =>
    have hsaved := hstep.saved_eq
    cases hstep with
    | code ch c₁ c₂ op d' hstep =>
      refine hcode hstep hy (by rw [hl]; rfl) fun line hline => ?_
      rw [hl] at hline
      obtain ⟨-, rfl⟩ := Prod.mk.inj (Option.some.inj hline)
      exact hsaved
    | _ => cases hy
  | leave | lookSkip =>
    rw [tested_lookNext] at hy
    cases hy
  | _ => cases hy

omit h hs in
/-- A thread on the CPU was there before, or has just been started. -/
theorem Loc.Step.on_cases {d d' : Table σ π ι} {l l' : Loc π ι}
    (hstep : Loc.Step P d ch l op l' d') (hy : l'.on = some (y, line')) :
    (∃ line, l.on = some (y, line)) ∨ l.tested = some y ∧ l'.tested = none := by
  cases hstep with
  | interrupt ch l b p hb =>
    rw [(not_held_of_back (P := P) (m := .other 0) hb).2, b.on_loc (.out ∅ p)]
    exact .inl ⟨line', hy⟩
  | iret b => exact .inl ⟨line', (b.on_loc _).symm.trans hy⟩
  | intr ch b c₁ =>
    rw [← b.on_loc, b.on_loc c₁] at hy
    exact .inl ⟨line', hy⟩
  | set p j =>
    obtain ⟨rfl, -⟩ := Prod.mk.inj (Option.some.inj hy)
    refine .inr ⟨rfl, ?_⟩
    cases d.context (p, j) <;> rfl
  | run ch x₁ line₁ =>
    obtain ⟨rfl, -⟩ := Prod.mk.inj (Option.some.inj hy)
    exact .inl ⟨line₁, rfl⟩
  | leave | lookSkip =>
    rw [on_lookNext] at hy
    cases hy
  | _ => cases hy

/-- A thread whose state is about to be stored to is on no CPU. -/
theorem ThreadInv.step_off (c' : κ) (y : Slot) (hy : (s'.loc c').tested = some y) :
    (places s').Off y := by
  have hoff : (places s).Off y := by
    by_cases hc : c' = c
    · rw [hc] at hy
      exact h.step_off_self hs y hy
    · rw [hs.others c' hc] at hy
      exact h.off c' y hy
  intro c₁ line hline
  by_cases hc₁ : c₁ = c
  · rw [hc₁] at hline
    obtain ⟨line₀, hline₀⟩ | ⟨htested, hnone⟩ := hs.instr.on_cases hline
    · exact hoff c line₀ hline₀
    -- two CPUs would have the lock of its process
    by_cases hc : c' = c
    · rw [hc, hnone] at hy
      cases hy
    · rw [hs.others c' hc] at hy
      exact hc (h.owned.unique (Loc.held_of_tested hy) (Loc.held_of_tested htested))
  · rw [hs.on c₁ hc₁] at hline
    exact hoff c₁ line hline

/-- A thread that sleeps for a condition sleeps on its channel. -/
theorem ThreadInv.step_chan (x : Slot) (line : Line π ι) (i : ι) (hx : (places s').At x line)
    (hi : line.asleep = some i) : s'.data.chan x = some (P.chan i) := by
  cases h.arrived hs hx with
  | go line₀ loc loc' step =>
    generalize s'.data = d' at step ⊢
    cases step with
    | sleepState =>
      cases hi
      exact update_self ..
    | _ => cases hi
  | leave line₀ context loc saved place table =>
    rw [table]
    refine h.chan x line₀ i (Placement.at_of_on (on_of_loc loc)) ?_
    rw [place] at hi
    cases line₀ with
    | sleepSched =>
      cases saved
      exact hi
    | exitSched | yieldSched =>
      cases saved
      cases hi
    | _ => cases saved
  | stay place chan =>
    rw [chan]
    exact h.chan x line i place hi

end Step

/-- One step keeps the invariant. -/
theorem ThreadInv.step [DecidableEq κ] (h : ThreadInv P s)
    (hstep : (sleepCode P).machine.step s (c, ch) = some s') : ThreadInv P s' := by
  obtain ⟨op, hs, -⟩ := stepped hstep
  exact {
    owned := h.owned.step sleepCode_disciplined hstep
    once := (h.move hs).once hs.on h.once
    on := h.step_on hs
    off := h.step_off hs
    chan := h.step_chan hs }

theorem Start.threadInv (h : Start s) : ThreadInv P s := by
  have hoff : ∀ x, (places s).Off x := by
    intro x c line hc
    obtain ⟨p, hp⟩ := h.loc c
    have hon : (s.loc c).on = some (x, line) := hc
    rw [hp] at hon
    cases hon
  refine ⟨fun m c => ?_, fun c c' x l l' hc => absurd hc (hoff x c l),
    fun c x line hc => absurd hc (hoff x c line), fun c y hy => ?_, fun x line i hx hi => ?_⟩
  · obtain ⟨p, hp⟩ := h.loc c
    rw [h.owner, hp]
    simp [Loc.held]
  · obtain ⟨p, hp⟩ := h.loc c
    rw [hp] at hy
    cases hy
  · obtain ⟨p, hp⟩ := h.context x
    rw [(hoff x).eq_saved hx] at hi
    have hline : (s.data.context x).line.asleep = some i := hi
    rw [hp] at hline
    cases hline

/-! ### What a step does for the program -/

theorem point_saved {context : Saved π ι} (h : line.saved = some context) :
    context.line.point = line.point := by
  cases line with
  | exitSched | sleepSched | yieldSched =>
    cases h
    rfl
  | _ => cases h

/-- A step leaves the program alone, or it executes an operation of it for one thread; there are no
interrupt handlers. -/
theorem ThreadInv.program_step (h : ThreadInv P s) (h' : ThreadInv P s')
    (hs : Stepped P s s' c ch op) (hnone : ∀ ch, P.intr ch = none)
    (hintr : ∀ b c₁, s.loc c ≠ .intr b c₁) :
    (s'.data.data = s.data.data ∧
        ∀ y line', (places s').At y line' → ∃ line, (places s).At y line ∧ line'.point = line.point) ∨
      ∃ x hs p ch' o, s.loc c = .run x (.code (.out hs p)) ∧ ch = .op ch' ∧
        P.op s.data.data p ch' = some o ∧ s'.data.data = o.data s.data.data ∧
        ∀ y line', (places s').At y line' →
          y = x ∧ line'.point = o.next ∨ y ≠ x ∧ (places s).At y line' := by
  -- the threads that do not run on the CPU
  have hother : ∀ y line', (∀ line, s.loc c ≠ .run y line) → (places s').At y line' →
      (places s).At y line' := by
    intro y line' hy hat
    cases h.arrived hs hat with
    | go line loc | leave line context loc => exact absurd loc (hy line)
    | stay place => exact place
  -- a CPU that runs no thread
  have hidle : (∀ y line, s.loc c ≠ .run y line) → s'.data.data = s.data.data →
      s'.data.data = s.data.data ∧
        ∀ y line', (places s').At y line' → ∃ line, (places s).At y line ∧ line'.point = line.point :=
    fun hne hdata => ⟨hdata, fun y line' hat => ⟨line', hother y line' (hne y) hat, rfl⟩⟩
  have hinstr := hs.instr
  generalize hl : s.loc c = l at hinstr
  generalize hl' : s'.loc c = l' at hinstr
  generalize hd : s'.data = d' at hinstr
  rw [← hd]
  cases hinstr with
  | intr ch b c₁ => exact absurd hl (hintr b c₁)
  | iret b => exact absurd hl (hintr b _)
  | interrupt ch l b p hb hp =>
    rw [hnone ch] at hp
    cases hp
  | run ch x line line' op d' hline =>
    have hat' : (places s').At x line' := Placement.at_of_on (on_of_loc hl')
    have hne : ∀ y, y ≠ x → ∀ line, s.loc c ≠ .run y line := by
      intro y hy line₁ hrun
      rw [hl] at hrun
      exact hy (Loc.run.inj hrun).1.symm
    obtain ⟨hpoint, hdata⟩ | ⟨hs', p, ch', o, rfl, rfl, hop, hnext, hdata⟩ := hline.program
    · refine .inl ⟨by rw [hd, hdata], fun y line₁ hat => ?_⟩
      by_cases hy : y = x
      · subst hy
        rw [h'.once.at_unique hat hat']
        exact ⟨line, Placement.at_of_on (on_of_loc hl), hpoint⟩
      · exact ⟨line₁, hother y line₁ (hne y hy) hat, rfl⟩
    · refine .inr ⟨x, hs', p, ch', o, rfl, rfl, hop, by rw [hd, hdata], fun y line₁ hat => ?_⟩
      by_cases hy : y = x
      · subst hy
        rw [h'.once.at_unique hat hat']
        exact .inl ⟨rfl, hnext⟩
      · exact .inr ⟨hy, hother y line₁ (hne y hy) hat⟩
  | leave =>
    refine .inl ⟨by rw [hd]; rfl, fun y line₁ hat => ?_⟩
    cases h.arrived hs hat with
    | go line₂ loc loc' =>
      have hon := on_of_loc loc'
      have hoff : (s'.loc c).on = none := by rw [hl', on_lookNext]
      exact nomatch hoff.symm.trans hon
    | leave line₂ context₂ loc saved place =>
      exact ⟨line₂, Placement.at_of_on (on_of_loc loc), by rw [place, point_saved saved]⟩
    | stay place => exact ⟨line₁, place, rfl⟩
  | set => exact .inl (hidle (by rw [hl]; exact nofun) (by rw [hd]; rfl))
  | _ => exact .inl (hidle (by rw [hl]; exact nofun) (by rw [hd]))

end Xv6.Sleep
