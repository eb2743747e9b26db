import Xv6.Life.Equiv.Change
import Xv6.Life.Safety

/-!
# Threads, their states and their places

As long as `exit` marks a sibling only while that is `Still`, the states of the threads agree with
what the CPUs do (`LifeInv`): no thread is on two CPUs, a thread on a CPU is in the state of its
phase, a dead process has dead threads only, and the process that a live thread is making in `fork`
is its own (`Makes`, `Embryo`). `Stepped.at_cases` says how a thread has come to its place.
-/

namespace Xv6.Life

open Lib Function

/-- A live thread is in `fork` with the slot `k`. -/
def Makes {κ : Type*} (s : State κ) (x : Slot) (k : Fin nproc) : Prop :=
  ∃ line, (places s).At x line ∧ alive (s.data.threadState x) ∧ line.making = some k

/-- The invariant of all processes and threads. -/
structure LifeInv {κ : Type*} (s : State κ) : Prop where
  owned : SpinCode.Owned Loc.held s
  once : (places s).Once
  loc : ∀ c, (s.loc c).Ok s.data
  table : s.data.Ok
  embryo : ∀ x k, Makes s x k → Embryo s.data k
  maker : ∀ x y k, Makes s x k → Makes s y k → x = y


variable {κ : Type*} {s s' : State κ} {c : κ} {x y : Slot} {line line' : Line} {k : Fin nproc}

/-! ### Where the threads are after a step -/

/-- What one step of CPU `c` is, without the locks. -/
structure Stepped (s s' : State κ) (c : κ) : Prop where
  instr : ∃ op, Loc.Step s.data (s.loc c) op (s'.loc c) s'.data
  others : ∀ c', c' ≠ c → s'.loc c' = s.loc c'

variable {ch : Choice}

theorem stepped [DecidableEq κ] (h : lifeCode.machine.step s (c, ch) = some s') :
    Stepped s s' c := by
  obtain ⟨op, l, d, owner, hinstr, -, rfl⟩ := SpinCode.step_eq_some h
  refine ⟨⟨op, ?_⟩, fun c' hc => update_of_ne hc _ _⟩
  dsimp only
  rw [update_self]
  exact Loc.instr_step hinstr

theorem Stepped.change (h : Stepped s s' c) : (s.loc c).Change s.data s'.data := by
  obtain ⟨op, hinstr⟩ := h.instr
  exact hinstr.change

theorem on_of_loc (h : s.loc c = .run x line) : (places s).on c = some (x, line) :=
  congrArg Loc.thread h

section

variable (h : LifeInv s)

include h

/-- A thread that executes code, and does not leave, is `RUNNING`. -/
theorem LifeInv.running (hl : s.loc c = .run x line)
    (hph : line.phase = .marked 0) : s.data.threadState x = .running := by
  have hok := (h.loc c).phase x line (on_of_loc hl)
  rw [hph] at hok
  exact hok.2.2 (Nat.zero_le _)

theorem LifeInv.alive_at (hl : s.loc c = .run x line)
    (hph : line.phase = .marked 0) : alive (s.data.threadState x) := by
  rw [h.running hl hph]
  decide

theorem LifeInv.makes (hl : s.loc c = .run x line)
    (hph : line.phase = .marked 0) (hk : line.making = some k) : Makes s x k :=
  ⟨line, Placement.at_of_on (on_of_loc hl), h.alive_at hl hph, hk⟩

theorem LifeInv.making (c : κ) (x : Slot) (line : Line) (k : Fin nproc)
    (hl : s.loc c = .run x line) (hph : line.phase = .marked 0) (hk : line.making = some k) :
    Embryo s.data k := h.embryo x k (h.makes hl hph hk)

theorem LifeInv.used (hl : (s.loc c).thread = some (x, line)) :
    s.data.procState x.1 ≠ .unused := ((h.loc c).phase x line hl).ne_unused

/-- A thread whose state is about to be stored to is on no CPU. -/
theorem LifeInv.off_of_tested (hy : (s.loc c).tested = some y) :
    (places s).Off y := by
  have hwait := (h.loc c).tested y hy
  have hheld := Loc.held_of_tested hy
  intro c' line hc'
  by_cases hcc : c' = c
  · -- the CPU runs a thread that has marked no other one, and is `RUNNING` itself
    subst hcc
    have hok := (h.loc c').phase y line hc'
    have hrun := eq_run hc'
    rw [hrun] at hy
    cases line with
    | wakeup w chan ret =>
      obtain ⟨n, hn⟩ := ret.phase_eq
      have hret : ret.phase.Ok s.data y := hok
      rw [hn] at hret
      by_cases hle : n ≤ y.2.val
      · exact hwait.ne.2.2.2 (hret.2.2 hle)
      · exact hwait.ne.2.2.1 (hret.2.1 y.2 (not_le.mp hle))
    | killSet => exact hwait.ne.2.2.2 (hok.2.2 (Nat.zero_le _))
    | _ => cases hy
  · refine (h.loc c').ne_of_waiting hwait (fun hheld' => hcc ?_) line hc'
    exact h.owned.unique hheld' hheld

/-- A step moves one thread. -/
theorem LifeInv.move (hstep : Stepped s s' c) :
    (places s).Move (places s') c := by
  obtain ⟨op, hinstr⟩ := hstep.instr
  have hon : ∀ {s : State κ} {l : Loc}, s.loc c = l → (places s).on c = l.thread := by
    rintro s l rfl
    rfl
  generalize hl : s.loc c = l at hinstr
  generalize hl' : s'.loc c = l' at hinstr
  generalize s'.data = d' at hinstr
  have hon₁ := hon hl
  have hon₂ := hon hl'
  cases hinstr with
  | set p j =>
    have htested : (s.loc c).tested = some (p, j) := by
      rw [hl]
      rfl
    exact .start (p, j) hon₁ (h.off_of_tested htested) hon₂
  | run x line line' => exact .go x line line' hon₁ hon₂
  | leave x line =>
    rw [thread_lookNext] at hon₂
    exact .leave x line hon₁ hon₂
  | lookSkip =>
    rw [thread_lookNext] at hon₂
    exact .idle hon₁ hon₂
  | _ => exact .idle hon₁ hon₂

end

theorem Stepped.on (h : Stepped s s' c) (c' : κ) (hc : c' ≠ c) :
    (places s').on c' = (places s).on c' := congrArg Loc.thread (h.others c' hc)

/-- How thread `y` has come to `line'` in a step of CPU `c`. -/
inductive Arrived (s s' : State κ) (c : κ) (y : Slot) (line' : Line) : Prop where
  -- it is on the CPU
  | go (line : Line) (op : LockOp LockId) (loc : s.loc c = .run y line)
      (step : Line.Step s.data y line op (some line') s'.data)
  -- it has switched to the scheduler
  | leave (line : Line) (context : Saved) (loc : s.loc c = .run y line)
      (saved : line.saved = some context) (place : line' = context.line)
      (table : s'.data = s.data.save y context)
  -- it was there
  | stay (off : ∀ line, s.loc c ≠ .run y line) (place : (places s).At y line')
      (live : alive (s'.data.threadState y) → alive (s.data.threadState y))
  -- `allocproc` has made it
  | fresh (main : y.2 = 0) (allocs : (s.loc c).Allocs s.data s'.data y.1)
      (place : line' = .forkret)

/-- A thread that `allocproc` makes is about to start at `forkret`. -/
theorem LifeInv.fresh (h : LifeInv s) (hstep : Stepped s s' c) (hmain : y.2 = 0)
    (hallocs : (s.loc c).Allocs s.data s'.data y.1) (hy : (places s').At y line') :
    line' = .forkret := by
  obtain ⟨x, hl, hunused, htable⟩ := hallocs
  have hoff : (places s').Off y := by
    intro c' l hc'
    by_cases hcc : c' = c
    · subst hcc
      obtain ⟨op, hinstr⟩ := hstep.instr
      rw [hl] at hinstr
      have hx := h.used (on_of_loc hl)
      have hxy : x ≠ y := by
        rintro rfl
        exact hx hunused
      generalize hl' : s'.loc c' = l' at hinstr
      generalize s'.data = d' at hinstr
      have hthread : l'.thread = some (y, l) := hl' ▸ hc'
      cases hinstr with
      | run =>
        obtain ⟨rfl, -⟩ := Prod.mk.inj (Option.some.inj hthread)
        exact hxy rfl
      | leave =>
        rw [thread_lookNext] at hthread
        cases hthread
    · rw [hstep.on c' hcc] at hc'
      exact h.used hc' hunused
  obtain ⟨p, i⟩ := y
  obtain rfl : i = 0 := hmain
  rw [hoff.eq_saved hy]
  show (s'.data.context (p, 0)).line = .forkret
  rw [htable, Table.alloc]
  dsimp only
  rw [update_self]
  rfl

/-- **How a thread has come to its place.** -/
theorem LifeInv.arrived (h : LifeInv s) (hstep : Stepped s s' c) (hy : (places s').At y line') :
    Arrived s s' c y line' := by
  by_cases hfresh : y.2 = 0 ∧ (s.loc c).Allocs s.data s'.data y.1
  · exact .fresh hfresh.1 hfresh.2 (h.fresh hstep hfresh.1 hfresh.2 hy)
  obtain ⟨line, hcame⟩ | ⟨hoff, hplace⟩ := (h.move hstep).at_cases hstep.on h.once hy
  · have hl : s.loc c = .run y line := eq_run hcame.1
    obtain ⟨op, hinstr⟩ := hstep.instr
    rw [hl] at hinstr
    generalize hl' : s'.loc c = l' at hinstr
    generalize hd' : s'.data = d' at hinstr
    have hcame₂ : l'.thread = some (y, line') ∨
        l'.thread = none ∧ (s'.data.context y).line = line' := hl' ▸ hcame.2
    cases hinstr with
    | run _ _ line₂ op d' hline =>
      obtain hthread | ⟨hthread, -⟩ := hcame₂
      · obtain ⟨-, rfl⟩ := Prod.mk.inj (Option.some.inj hthread)
        rw [← hd'] at hline
        exact .go line op hl hline
      · cases hthread
    | leave _ _ context hcontext =>
      rw [thread_lookNext] at hcame₂
      obtain hthread | ⟨-, hsaved⟩ := hcame₂
      · cases hthread
      · refine .leave line context hl hcontext ?_ hd'
        rw [← hsaved, hd', Table.save]
        dsimp only
        rw [update_self]
  · have hoff' : ∀ line, s.loc c ≠ .run y line :=
      fun line hl => hoff line (on_of_loc hl)
    refine .stay hoff' ?_ fun halive => ?_
    · obtain hplace | ⟨-, -, hne⟩ := hplace
      · exact hplace
      · obtain hsame | ⟨line, hl⟩ | hallocs := hstep.change.context y
        · exact absurd (congrArg Saved.line hsame) hne
        · exact absurd hl (hoff line)
        · exact absurd hallocs hfresh
    · obtain hold | hallocs := hstep.change.alive (h.loc c) (h.making c) halive
      · exact hold
      · exact absurd hallocs hfresh

/-- **Where a live thread goes**: it executes an instruction, switches to the scheduler, or
stays. -/
theorem LifeInv.goes (h : LifeInv s) (hstep : Stepped s s' c) (hat : (places s).At x line)
    (halive : alive (s.data.threadState x)) (hat' : (places s').At x line') :
    (∃ op, s.loc c = .run x line ∧ Line.Step s.data x line op (some line') s'.data) ∨
      (∃ context, line.saved = some context ∧ line' = context.line) ∨
      (∀ line, s.loc c ≠ .run x line) ∧ line' = line := by
  cases h.arrived hstep hat' with
  | go line₀ op loc step =>
    obtain rfl := h.once.eq_of_on (on_of_loc loc) hat
    exact .inl ⟨op, loc, step⟩
  | leave line₀ context loc saved place =>
    obtain rfl := h.once.eq_of_on (on_of_loc loc) hat
    exact .inr (.inl ⟨context, saved, place⟩)
  | stay off place => exact .inr (.inr ⟨off, h.once.at_unique place hat⟩)
  | fresh main allocs =>
    obtain ⟨-, -, hunused, -⟩ := allocs
    exact absurd (h.table.unused x.1 hunused x.2) halive.1

/-- A thread that is alive after the step was alive before it, at a line where `p` holds. -/
theorem LifeInv.alive_step (h : LifeInv s) (hstep : Stepped s s' c) {p : Line → Prop}
    (hok : MarksOnly p s (c, ch)) (hmark : ∀ i, p (.mark i)) (hforkret : p .forkret)
    (hat : (places s).At x line) (halive : alive (s.data.threadState x)) (hp : ¬ p line) :
    alive (s'.data.threadState x) := by
  obtain hold | ⟨z, i, hloc, rfl⟩ | ⟨z, hloc, hmain⟩ := hstep.change.dead (h.loc c) h.table halive
  · exact hold
  · by_cases hi : i = z.2
    · subst hi
      rw [h.once.eq_of_on (on_of_loc hloc) hat] at hp
      exact absurd (hmark z.2) hp
    · have hmarks : (s.loc c).marks = some (z.1, i) := by
        rw [hloc]
        exact if_neg hi
      exact absurd (hok.place (z.1, i) hmarks line hat) hp
  · -- the main thread of a process that is being made has not started
    have hemb := h.making c z _ x.1 hloc rfl rfl
    have hoff : (places s).Off x := by
      intro c' line hc'
      exact hemb.ne_of_phase ((h.loc c').phase x line hc') rfl
    obtain ⟨q, i⟩ := x
    obtain rfl : i = 0 := hmain
    have hline : line = .forkret := (hoff.eq_saved hat).trans (congrArg Saved.line hemb.context)
    rw [hline] at hp
    exact absurd hforkret hp

/-! ### The invariant -/

section Making

variable {d d' : Table} {op : LockOp LockId}

theorem making_saved {context : Saved} (h : line.saved = some context) :
    context.line.making = line.making := by
  cases line with
  | exitSched | sleepSched | yieldSched =>
    cases h
    rfl
  | _ => cases h

/-- A thread is making a process because it was, or because `allocproc` has found the slot. -/
theorem Line.Step.making (h : Line.Step d x line op (some line') d')
    (hk : line'.making = some k) :
    line.making = some k ∨ (Loc.run x line).Allocs d d' k := by
  cases h with
  | wakeup w w' chan ret =>
    refine .inl (Eq.trans ?_ hk)
    cases ret <;> rfl
  | allocFound q hq =>
    cases hk
    exact .inr ⟨x, rfl, hq, rfl⟩
  | yield | ignore | interrupt | enterLink | enterStart | wokenResume | setup | setupUnlock
  | setParent | linkUnlock | yieldLock | yieldState | yielded => exact .inl hk
  | _ => cases hk

end Making

theorem LifeInv.alive_of_run (h : LifeInv s) (hstep : Stepped s s' c)
    (hl : s.loc c = .run y line) (halive : alive (s'.data.threadState y)) :
    alive (s.data.threadState y) := by
  obtain hold | ⟨-, x, -, hunused, -⟩ := hstep.change.alive (h.loc c) (h.making c) halive
  · exact hold
  · exact absurd hunused (h.used (on_of_loc hl))

/-- A thread that does not leave its CPU executes an instruction. -/
theorem Stepped.run (hstep : Stepped s s' c) (hl : s.loc c = .run x line)
    (hsaved : line.saved = none) :
    ∃ op line', s'.loc c = .run x line' ∧ Line.Step s.data x line op (some line') s'.data := by
  obtain ⟨op, hinstr⟩ := hstep.instr
  rw [hl] at hinstr
  generalize s'.loc c = l' at hinstr ⊢
  generalize s'.data = d' at hinstr ⊢
  cases hinstr with
  | run _ _ line' op d' h => exact ⟨op, line', rfl, h⟩
  | leave _ _ context hcontext => exact nomatch hsaved.symm.trans hcontext

/-- A thread on a CPU has executed an instruction there, or has just been put on it. -/
theorem Stepped.came (hstep : Stepped s s' c) (hl' : s'.loc c = .run x line') :
    (∃ op line, s.loc c = .run x line ∧ Line.Step s.data x line op (some line') s'.data) ∨
      line' = (s.data.context x).line := by
  obtain ⟨op, hinstr⟩ := hstep.instr
  rw [hl'] at hinstr
  generalize s.loc c = l at hinstr ⊢
  generalize s'.data = d' at hinstr ⊢
  generalize hrun : Loc.run x line' = l' at hinstr
  cases hinstr with
  | set =>
    obtain ⟨rfl, rfl⟩ := Loc.run.inj hrun
    exact .inr rfl
  | run z line line₂ op d' h =>
    obtain ⟨rfl, rfl⟩ := Loc.run.inj hrun
    exact .inl ⟨op, line, rfl, h⟩
  | lookSkip | leave =>
    have hthread := congrArg Loc.thread hrun
    rw [thread_lookNext] at hthread
    cases hthread
  | _ => cases hrun

/-- A thread makes a process because it did so before, or because `allocproc` has just found the
slot. -/
theorem LifeInv.makes_cases (h : LifeInv s) (hstep : Stepped s s' c) (hy : Makes s' y k) :
    Makes s y k ∨ s.loc c = .run y (.allocTest k) ∧ (s.loc c).Allocs s.data s'.data k := by
  obtain ⟨line', hat, halive, hk⟩ := hy
  cases h.arrived hstep hat with
  | go line op loc step =>
    have hold := h.alive_of_run hstep loc halive
    obtain hmaking | hallocs := step.making hk
    · exact .inl ⟨line, Placement.at_of_on (on_of_loc loc), hold, hmaking⟩
    · obtain ⟨x, hx, hunused, htable⟩ := hallocs
      obtain ⟨-, rfl⟩ := Loc.run.inj hx
      rw [loc]
      exact .inr ⟨rfl, x, hx, hunused, htable⟩
  | leave line context loc saved place =>
    rw [place, making_saved saved] at hk
    exact .inl ⟨line, Placement.at_of_on (on_of_loc loc), h.alive_of_run hstep loc halive, hk⟩
  | stay off place live => exact .inl ⟨line', place, live halive, hk⟩
  | fresh main allocs place =>
    rw [place] at hk
    cases hk

/-- Two CPUs are apart: they hold different locks and run different threads. -/
theorem LifeInv.apart (h : LifeInv s) (hstill : Still s (c, ch)) {c' : κ} (hc : c' ≠ c) :
    Loc.Apart s.data (s.loc c) (s.loc c') where
  locks _ hm hm' := hc (h.owned.unique hm' hm)
  threads x line line₂ hx hx' := hc (h.once c' c x line₂ line hx' hx)
  still y hy := ⟨(hstill y hy).1, (hstill y hy).2 c'⟩

/-- A process that was being made is still one, or its thread has gone on. -/
theorem LifeInv.embryo_step (h : LifeInv s) (hstep : Stepped s s' c) (hold : Makes s y k)
    (hnew : Makes s' y k) : Embryo s'.data k := by
  have hemb := h.embryo y k hold
  -- a thread on the CPU that is at a line of `fork` for `k` is `y`, and goes on with `k`
  have hself : ∀ x line, s.loc c = .run x line → line.phase = .marked 0 → line.making = some k →
      ∃ line' op, line'.making = some k ∧ Line.Step s.data x line op (some line') s'.data := by
    intro x line hl hph hk
    obtain rfl := h.maker x y k (h.makes hl hph hk) hold
    obtain ⟨line', hat, -, hk'⟩ := hnew
    cases h.arrived hstep hat with
    | go line₁ op loc step =>
      obtain ⟨-, rfl⟩ := Loc.run.inj (hl.symm.trans loc)
      exact ⟨line', op, hk', step⟩
    | leave line₁ context loc saved =>
      obtain ⟨-, rfl⟩ := Loc.run.inj (hl.symm.trans loc)
      cases line with
      | exitSched | sleepSched | yieldSched => cases hph
      | _ => cases saved
    | stay off => exact absurd hl (off line)
    | fresh main allocs place =>
      rw [place] at hk'
      cases hk'
  refine hstep.change.embryo hemb (h.loc c) (fun x hl => ?_) (fun x hl => ?_)
  · obtain ⟨line', op, hk', hline⟩ := hself x _ hl rfl rfl
    generalize s'.data = d' at hline
    cases hline with
    | setup => exact hemb.proc.1
    | setupFail => cases hk'
  · obtain ⟨line', op, hk', hline⟩ := hself x _ hl rfl rfl
    generalize s'.data = d' at hline
    cases hline with
    | startState => cases hk'

/-- A slot that `allocproc` has just taken is an embryo. -/
theorem Embryo.alloc {d : Table} (hd : d.Ok) (hk : d.procState k = .unused) (q : Fin nproc) :
    Embryo (d.alloc q k) k where
  ne_init := by
    rintro rfl
    exact hd.init.1 hk
  proc := by
    rw [alloc_self]
    decide
  main := update_self _ _ _
  others i hi := by
    refine (update_of_ne ?_ _ _).trans (hd.unused k hk i)
    exact fun hx => hi (congrArg Prod.snd hx)
  context := update_self _ _ _

/-- **A step that marks no sibling that is on its way keeps the invariant.** -/
theorem LifeInv.step [DecidableEq κ] (h : LifeInv s) {a : κ × Choice} (hstill : Still s a)
    (hmachine : lifeCode.machine.step s a = some s') : LifeInv s' := by
  obtain ⟨c, ch⟩ := a
  have hstep := stepped hmachine
  refine ⟨h.owned.step lifeCode_disciplined hmachine, (h.move hstep).once hstep.on h.once, ?_,
    hstep.change.table (h.loc c) h.table (h.making c), ?_, ?_⟩
  · intro c'
    by_cases hc : c' = c
    · subst hc
      obtain ⟨op, hinstr⟩ := hstep.instr
      exact hinstr.ok (h.loc c') h.table (h.making c')
    · rw [hstep.others c' hc]
      exact hstep.change.other (h.loc c') (h.loc c) h.table (h.making c) (h.apart hstill hc)
  · intro x k hx
    obtain hold | ⟨-, z, -, hunused, htable⟩ := h.makes_cases hstep hx
    · exact h.embryo_step hstep hold hx
    · rw [htable]
      exact .alloc h.table hunused z.1
  · -- a slot that `allocproc` has just found was nobody's
    have hfound : ∀ {x y : Slot} {k : Fin nproc}, Makes s x k → (s.loc c).Allocs s.data s'.data k →
        x = y := by
      rintro x y k hx ⟨-, -, hunused, -⟩
      exact absurd hunused (h.embryo x k hx).proc.1
    intro x y k hx hy
    obtain hx | ⟨hlx, hallocs⟩ := h.makes_cases hstep hx
    · obtain hy | ⟨-, hallocs⟩ := h.makes_cases hstep hy
      · exact h.maker x y k hx hy
      · exact hfound hx hallocs
    · obtain hy | ⟨hly, -⟩ := h.makes_cases hstep hy
      · exact (hfound hy hallocs).symm
      · exact (Loc.run.inj (hlx.symm.trans hly)).1

/-! ### At the start -/

theorem Start.idle (h : Start s) (c : κ) (x : Slot) (line : Line) : s.loc c ≠ .run x line := by
  intro hl
  rw [h.loc c] at hl
  cases hl

theorem Start.at_eq (h : Start s) (hat : (places s).At x line) : line = .forkret := by
  obtain ⟨c, hc⟩ | ⟨-, hsaved⟩ := hat
  · exact absurd (eq_run hc) (h.idle c x line)
  · exact hsaved.symm.trans (congrArg Saved.line (h.context x))

theorem Start.not_makes (h : Start s) (x : Slot) (k : Fin nproc) : ¬ Makes s x k := by
  rintro ⟨line, hat, -, hk⟩
  rw [h.at_eq hat] at hk
  cases hk

/-- The invariant holds at the start. -/
theorem Start.lifeInv (h : Start s) : LifeInv s := by
  refine ⟨fun m c => ?_, ?_, fun c => ?_, ⟨?_, ?_, ?_⟩, ?_, ?_⟩
  · rw [h.owner m, h.loc c]
    exact ⟨nofun, False.elim⟩
  · exact fun c c' x l l' hc => absurd (eq_run hc) (h.idle c x l)
  · rw [h.loc c]
    exact .of_idle rfl nofun
  · exact fun p hp => absurd hp (h.procs p)
  · intro p hp i
    obtain hi | ⟨-, hi⟩ := h.threads (p, i)
    · exact hi
    · exact absurd hp hi
  · exact ⟨h.init.1, h.procs initproc⟩
  · exact fun x k hx => absurd hx (h.not_makes x k)
  · exact fun x y k hx => absurd hx (h.not_makes x k)

end Xv6.Life
