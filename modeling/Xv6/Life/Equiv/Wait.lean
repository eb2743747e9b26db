import Xv6.Life.Equiv.Parents
import Xv6.Life.Equiv.Progress

/-!
# `wait` does not miss a dead child

A thread that waits while it has a dead child is `owed` the `wakeup` of an exiting process that
still holds `wait_lock` (`WaitInv`). Without `HandsOver` one is lost: `reparent` calls `wakeup` for
the main thread of `initproc`, while `wait` sleeps on the process (`handedOver_lost`).
-/

namespace Xv6.Life

open Lib Function

/-! ### `wakeup(p->parent)` -/

/-- `wakeup` has passed thread `y`. -/
def Wake.past (y : Slot) : Wake → Prop
  | .lock k => y.1 < k
  | .test k l | .set k l => y.1 < k ∨ y.1 = k ∧ y.2 < l
  | .unlock k => y.1 ≤ k

/-- The lines of `exit` where `wakeup(p->parent)` has passed thread `y`. -/
def Line.woke (y : Slot) : Line → Prop
  | .wakeup w _ .parent => w.past y
  | .wakeup _ _ (.marked _) | .mark _ | .exitLock | .zombie => True
  | _ => False

/-- The lines of `exit` where `wakeup(p->parent)` has yet to come to thread `y`. -/
def Line.owes (y : Slot) : Line → Prop
  | .reparent _ | .wakeup _ _ (.reparent _) | .wakeParent => True
  | .wakeup w _ .parent => ¬ w.past y
  | _ => False

/-- `wakeup(chan)` of thread `x` passes thread `y`, which does not sleep there or no longer. -/
def Passes (d : Table) (x : Slot) (chan : Option Chan) (w : Wake) (y : Slot) (d' : Table) : Prop :=
  w = .test y.1 y.2 ∧ ¬ (some x ≠ some y ∧ d.threadState y = .sleeping ∧ d.chan y = chan) ∨
    w = .set y.1 y.2 ∧ d' = d.setThreadState y .runnable

section Past

variable {d d' : Table} {x y : Slot} {chan : Option Chan} {w w' : Wake} {op : LockOp LockId}
  {line line' : Line} {k : Fin nproc} {l l' : Fin nthread}

theorem past_next (hl : l'.val = l.val + 1) (hy : y ≠ (k, l)) :
    (Wake.test k l').past y ↔ (Wake.test k l).past y := by
  refine or_congr_right (and_congr_right fun hk => ?_)
  have hne : y.2.val ≠ l.val := fun h => hy (Prod.ext hk (Fin.ext h))
  rw [Fin.lt_def, Fin.lt_def]
  omega

theorem past_last (hl : l.val + 1 = nthread) (hy : y ≠ (k, l)) :
    (Wake.unlock k).past y ↔ (Wake.test k l).past y := by
  refine le_iff_lt_or_eq.trans (or_congr_right (iff_self_and.mpr fun hk => ?_))
  have hne : y.2.val ≠ l.val := fun h => hy (Prod.ext hk (Fin.ext h))
  rw [Fin.lt_def]
  omega

/-- A `wakeup` passes one thread at a time, which it wakes up if that sleeps on the channel. -/
theorem Wake.Step.past (h : Wake.Step d (some x) chan w op w' d') :
    (w'.past y ↔ w.past y) ∨ Passes d x chan w y d' := by
  cases h with
  | lock k =>
    refine .inl ?_
    show y.1 < k ∨ y.1 = k ∧ y.2 < 0 ↔ y.1 < k
    rw [or_iff_left]
    exact fun h => absurd h.2 (Fin.not_lt_zero _)
  | test => exact .inl Iff.rfl
  | skip k l l' hl hcond =>
    by_cases hy : y = (k, l)
    · subst hy
      exact .inr (.inl ⟨rfl, hcond⟩)
    · exact .inl (past_next hl hy)
  | skipLast k l hl hcond =>
    by_cases hy : y = (k, l)
    · subst hy
      exact .inr (.inl ⟨rfl, hcond⟩)
    · exact .inl (past_last hl hy)
  | set k l l' hl =>
    by_cases hy : y = (k, l)
    · subst hy
      exact .inr (.inr ⟨rfl, rfl⟩)
    · exact .inl (past_next hl hy)
  | setLast k l hl =>
    by_cases hy : y = (k, l)
    · subst hy
      exact .inr (.inr ⟨rfl, rfl⟩)
    · exact .inl (past_last hl hy)
  | unlock k k' hk =>
    refine .inl ?_
    show y.1 < k' ↔ y.1 ≤ k
    rw [Fin.lt_def, Fin.le_def, hk]
    exact Nat.lt_succ_iff

/-- At its end a `wakeup` has passed every thread. -/
theorem past_all (hk : k.val + 1 = nproc) : (Wake.unlock k).past y := by
  show y.1 ≤ k
  rw [Fin.le_def]
  omega

/-- The thread goes on in `exit`, or its `wakeup` passes `y`. -/
theorem Line.Step.owes (h : Line.Step d x line op (some line') d') (hline : line.owes y) :
    line'.owes y ∨ ∃ w chan, line = .wakeup w chan .parent ∧ Passes d x chan w y d' := by
  cases h with
  | wakeup w w' chan ret op d' h =>
    cases ret with
    | reparent => exact .inl trivial
    | parent =>
      obtain hsame | hpasses := h.past (y := y)
      · exact .inl fun hpast => hline (hsame.mp hpast)
      · exact .inr ⟨w, chan, rfl, hpasses⟩
    | _ => exact hline.elim
  | wokenParent q hq => exact absurd (past_all hq) hline
  | wokenReparent | wokenReparentLast | reparent | reparentSkip | reparentSkipLast =>
    exact .inl trivial
  | wakeParent => exact .inl (Fin.not_lt_zero _)
  | _ => exact hline.elim

/-- A thread has been woken up because it was before, or because the `wakeup` has just passed it. -/
theorem Line.Step.woke (h : Line.Step d x line op (some line') d') (hline : line'.woke y) :
    line.woke y ∨ ∃ w chan, line = .wakeup w chan .parent ∧ Passes d x chan w y d' := by
  cases h with
  | wakeup w w' chan ret op d' h =>
    cases ret with
    | parent =>
      obtain hsame | hpasses := h.past (y := y)
      · exact .inl (hsame.mp hline)
      · exact .inr ⟨w, chan, rfl, hpasses⟩
    | marked => exact .inl trivial
    | _ => exact hline.elim
  | wokenParent q hq => exact .inl (past_all hq)
  | wokenMark | wokenMarkLast | mark | exitLock => exact .inl trivial
  | wakeParent => exact absurd hline (Fin.not_lt_zero _)
  | _ => exact hline.elim

/-- A `wakeup` is owed with `wait_lock`. -/
theorem held_of_owes {p : Fin nproc} (h : line.owes y) : line.held p .wait := by
  cases line with
  | reparent | wakeParent => rfl
  | wakeup w chan ret =>
    cases ret with
    | reparent | parent => exact .inl rfl
    | _ => exact h.elim
  | _ => exact h.elim

theorem Line.saved_of_owes (h : line.owes y) : line.saved = none := by
  cases line with
  | exitSched | sleepSched | yieldSched => exact h.elim
  | _ => rfl

theorem Line.held_of_woke {p : Fin nproc} (h : line.woke y) : line.held p .wait := by
  cases line with
  | mark | exitLock => rfl
  | zombie => exact .inl rfl
  | wakeup w chan ret =>
    cases ret with
    | parent | marked => exact .inl rfl
    | _ => exact h.elim
  | _ => exact h.elim

end Past

/-! ### The scan of `wait` -/

/-- How many processes `wait` has looked at. -/
def Line.scanned : Line → Nat
  | .waitScan k _ | .waitLock k | .waitTest k => k.val
  | .waitEnd _ | .sleepLock .wait | .sleepUnlock .wait => nproc
  | _ => 0

theorem Line.held_of_scanned {line : Line} {p : Fin nproc} (h : 0 < line.scanned) :
    line.held p .wait := by
  cases line with
  | waitScan | waitLock | waitEnd => rfl
  | waitTest => exact .inl rfl
  | sleepLock sl =>
    cases sl with
    | wait => rfl
    | _ => exact absurd h (lt_irrefl 0)
  | sleepUnlock sl =>
    cases sl with
    | wait => exact .inl rfl
    | _ => exact absurd h (lt_irrefl 0)
  | _ => exact absurd h (lt_irrefl 0)

variable {context : Saved} {d d' : Table} {op : LockOp LockId} {state : ProcState}

theorem scanned_saved : context.line.scanned = 0 := by
  cases context <;> rfl

/-- A line of the scan is behind one, and `wait` has found no dead child. -/
theorem Line.Step.scanned {x : Slot} {line line' : Line} (h : Line.Step d x line op (some line') d')
    (hline : ∀ k : Fin nproc, k.val < line.scanned → d.parent k = some x.1 →
      d.procState k ≠ .zombie) (k : Fin nproc) (hk : k.val < line'.scanned)
    (hchild : d'.parent k = some x.1) : d'.procState k ≠ .zombie := by
  -- `wait` looks at process `q`
  have hlook : ∀ q : Fin nproc, k.val < q.val + 1 → (k = q → d.procState k ≠ .zombie) →
      (k.val < q.val → d.procState k ≠ .zombie) → d.procState k ≠ .zombie := by
    intro q hlt hq hbefore
    by_cases hkq : k = q
    · exact hq hkq
    · have hne := Fin.val_ne_of_ne hkq
      exact hbefore (by omega)
  cases h with
  | waitSkip q q' b hq' hq =>
    refine hlook q (Nat.lt_of_lt_of_eq hk hq') (fun heq => ?_) fun hlt => hline k hlt hchild
    exact absurd (heq ▸ hchild) hq
  | waitSkipLast q b hq' hq =>
    refine hlook q (Nat.lt_of_lt_of_eq hk hq'.symm) (fun heq => ?_) fun hlt => hline k hlt hchild
    exact absurd (heq ▸ hchild) hq
  | waitAlive q q' hq' hq =>
    refine hlook q (Nat.lt_of_lt_of_eq hk hq') (fun heq => ?_) fun hlt => hline k hlt hchild
    exact heq ▸ hq
  | waitAliveLast q hq' hq =>
    refine hlook q (Nat.lt_of_lt_of_eq hk hq'.symm) (fun heq => ?_) fun hlt => hline k hlt hchild
    exact heq ▸ hq
  | waitFound | waitLock | waitSleep => exact hline k hk hchild
  | sleepLock sl =>
    cases sl with
    | wait => exact hline k hk hchild
    | _ => exact absurd hk (Nat.not_lt_zero _)
  | _ => exact absurd hk (Nat.not_lt_zero _)

/-! ### Threads that wait -/

theorem waits_of_waits {line : Line} {state state' : ProcState}
    (h : state' = .sleeping → state = .sleeping) (hwaits : line.waits state' = true) :
    line.waits state = true := by
  cases line with
  | sleepState sl => cases sl <;> exact hwaits
  | sleepSched sl | slept sl =>
    cases sl with
    | wait => exact decide_eq_true (h (of_decide_eq_true hwaits))
    | _ => cases hwaits
  | _ => cases hwaits

/-! ### The invariant -/

/-- A thread that sleeps in `wait` with a dead child is owed a `wakeup`. -/
structure WaitInv {κ : Type*} (s : State κ) : Prop where
  life : LifeInv s
  parents : ParentInv s
  -- a thread that sleeps in `wait` does so on its process
  chan : ∀ x, Waits s x → s.data.threadState x = .sleeping → s.data.chan x = some (.proc x.1)
  call : ∀ c x w chan, s.loc c = .run x (.wakeup w chan .parent) →
    chan = (s.data.parent x.1).map .proc
  scan : ∀ c x line, s.loc c = .run x line → ∀ k : Fin nproc, k.val < line.scanned →
    s.data.parent k = some x.1 → s.data.procState k ≠ .zombie
  woke : ∀ c x line y, s.loc c = .run x line → line.woke y → s.data.parent x.1 = some y.1 →
    ¬ Waits s y
  owed : ∀ y k, Waits s y → s.data.parent k = some y.1 → s.data.procState k = .zombie →
    ∃ c x line, s.loc c = .run x line ∧ s.data.parent x.1 = some y.1 ∧ line.owes y

variable {κ : Type*} {s s' : State κ} {c : κ} {x y : Slot} {line : Line}

theorem waits_saved (h : context.line.waits state = true) :
    context = .slept .wait ∧ state = .sleeping := by
  cases context with
  | slept sl =>
    cases sl with
    | wait => exact ⟨rfl, of_decide_eq_true h⟩
    | _ => cases h
  | _ => cases h

/-- How a thread comes to sleep in `wait`. -/
theorem Line.Step.waits {line' : Line} (h : Line.Step d x line op (some line') d')
    (hwaits : line'.waits state = true) :
    line = .sleepUnlock .wait ∧ d' = d ∨ line = .sleepState .wait ∧
      d' = (d.setChan x (some (.proc x.1))).setThreadState x .sleeping := by
  cases h with
  | sleepUnlock sl =>
    cases sl with
    | wait => exact .inl ⟨rfl, rfl⟩
    | _ => cases hwaits
  | sleepState sl =>
    cases sl with
    | wait => exact .inr ⟨rfl, rfl⟩
    | _ => cases hwaits
  | _ => cases hwaits

theorem waits_of_saved (hsaved : line.saved = some context) (h : context = .slept .wait) :
    line = .sleepSched .wait := by
  subst h
  cases line with
  | sleepSched => rw [Saved.slept.inj (Option.some.inj hsaved)]
  | _ => cases hsaved

/-- A thread waits because it did, or because it has just released `wait_lock`. -/
theorem LifeInv.waits_cases (h : LifeInv s) (hstep : Stepped s s' c) (hy : Waits s' y) :
    Waits s y ∨ s.loc c = .run y (.sleepUnlock .wait) := by
  obtain ⟨line', hat, hwaits⟩ := hy
  cases h.arrived hstep hat with
  | go line op loc step =>
    have hplace : (places s).At y line := Placement.at_of_on (on_of_loc loc)
    obtain ⟨rfl, -⟩ | ⟨rfl, -⟩ := step.waits hwaits
    · exact .inr loc
    · exact .inl ⟨_, hplace, rfl⟩
  | leave line context loc saved place table =>
    have hplace : (places s).At y line := Placement.at_of_on (on_of_loc loc)
    rw [place] at hwaits
    obtain ⟨hcontext, hstate⟩ := waits_saved hwaits
    rw [table] at hstate
    obtain rfl := waits_of_saved saved hcontext
    exact .inl ⟨_, hplace, decide_eq_true hstate⟩
  | stay off place =>
    refine .inl ⟨line', place, ?_⟩
    have hstate : s'.data.threadState y = .sleeping → s.data.threadState y = .sleeping := by
      intro hsleeping
      obtain hold | ⟨line, hl⟩ := hstep.change.sleeping hsleeping
      · exact hold
      · exact absurd hl (off line)
    exact waits_of_waits hstate hwaits
  | fresh main allocs place =>
    rw [place] at hwaits
    cases hwaits

/-- A thread that waits and that is on a CPU holds the lock of its process. -/
theorem Line.held_of_waits {p : Fin nproc} (h : line.waits state = true) :
    line.held p (.proc p) := by
  cases line with
  | sleepState sl | sleepSched sl | slept sl => rfl
  | _ => cases h

/-- The `wakeup` for the parent does not pass a thread that goes on waiting. -/
theorem WaitInv.not_waits_of_passes (h : WaitInv s) (hstep : Stepped s s' c) {w : Wake}
    {chan : Option Chan} (hl : s.loc c = .run x (.wakeup w chan .parent))
    (hparent : s.data.parent x.1 = some y.1) (hpasses : Passes s.data x chan w y s'.data) :
    ¬ Waits s' y := by
  intro hwaits'
  obtain ⟨line, hat, hwaits⟩ : Waits s y := by
    obtain hold | hnew := h.life.waits_cases hstep hwaits'
    · exact hold
    · cases hl.symm.trans hnew
  obtain ⟨rfl, hnot⟩ | ⟨rfl, htable⟩ := hpasses
  · -- `y` sleeps on the channel of the `wakeup`, off the CPUs
    have hxy : x ≠ y := by
      rintro rfl
      rw [h.life.once.eq_of_on (on_of_loc hl) hat] at hwaits
      cases hwaits
    obtain ⟨c', hc'⟩ | ⟨hoff, hsaved⟩ := hat
    · have hc : c' ≠ c := by
        rintro rfl
        obtain ⟨hrun, -⟩ := Loc.run.inj (hl.symm.trans (eq_run hc'))
        exact hxy hrun
      refine h.life.locks hc hl (eq_run hc') (.inr rfl) ?_
      exact Line.held_of_waits hwaits
    · obtain ⟨-, hstate⟩ := waits_saved (hsaved ▸ hwaits :)
      have hchan := h.chan y ⟨line, .inr ⟨hoff, hsaved⟩, hwaits⟩ hstate
      refine hnot ⟨fun heq => hxy (Option.some.inj heq), hstate, ?_⟩
      rw [hchan, h.call c x _ chan hl, hparent]
      rfl
  · -- `y` has just been woken up
    have htested : (s.loc c).tested = some y := by
      rw [hl]
      rfl
    have hoff := h.life.off_of_tested htested
    obtain ⟨line', hat', hwaits'⟩ := hwaits'
    have hstate : s'.data.threadState y = .runnable := by
      rw [htable]
      exact update_self _ _ _
    cases h.life.arrived hstep hat' with
    | go line op loc | leave line context loc => exact hoff c line (on_of_loc loc)
    | stay off place =>
      rw [hoff.eq_saved place] at hwaits'
      exact nomatch hstate.symm.trans (waits_saved hwaits').2
    | fresh main allocs place =>
      rw [place] at hwaits'
      cases hwaits'

/-- What a thread sleeps on is stored by itself, or cleared when its process is given back. -/
theorem Loc.Step.chan {l l' : Loc} (h : Loc.Step d l op l' d') (y : Slot) :
    d'.chan y = d.chan y ∨ (∃ line, l = .run y line) ∨
      ∃ x, l = .run x (.waitFree y.1) ∨ l = .run x (.setup y.1) := by
  have hwake : ∀ {me chan w op w' d'}, Wake.Step d me chan w op w' d' → d'.chan y = d.chan y := by
    intro me chan w op w' d' h
    cases h <;> rfl
  cases h with
  | intr _ _ _ _ _ _ h => exact .inl (hwake h)
  | run x line line' op d' h =>
    cases h with
    | wakeup _ _ _ _ _ _ h => exact .inl (hwake h)
    | waitFree k =>
      by_cases hk : y.1 = k
      · exact .inr (.inr ⟨x, .inl (by rw [hk])⟩)
      · exact .inl (if_neg fun h => hk h.1)
    | setupFail k =>
      by_cases hk : y.1 = k
      · exact .inr (.inr ⟨x, .inr (by rw [hk])⟩)
      · exact .inl (update_of_ne (fun h => hk (congrArg Prod.fst h)) _ _)
    | sleepState | sleptWait | sleptLock | sleptBlock =>
      by_cases hx : x = y
      · subst hx
        exact .inr (.inl ⟨_, rfl⟩)
      · exact .inl (update_of_ne (Ne.symm hx) _ _)
    | _ => exact .inl rfl
  | _ => exact .inl rfl

section

variable (h : WaitInv s)

include h

/-- A thread asleep in `wait` sleeps on its process. -/
theorem WaitInv.chan_step (hstep : Stepped s s' c) (hy : Waits s' y)
    (hstate : s'.data.threadState y = .sleeping) : s'.data.chan y = some (.proc y.1) := by
  obtain ⟨line', hat, hwaits⟩ := hy
  cases h.life.arrived hstep hat with
  | go line op loc step =>
    obtain ⟨rfl, hd'⟩ | ⟨rfl, hd'⟩ := step.waits hwaits
    · rw [hd', h.life.running loc rfl] at hstate
      cases hstate
    · rw [hd']
      exact update_self _ _ _
  | leave line context loc saved place table =>
    rw [place] at hwaits
    obtain rfl := waits_of_saved saved (waits_saved hwaits).1
    rw [table] at hstate ⊢
    exact h.chan y ⟨_, Placement.at_of_on (on_of_loc loc), decide_eq_true hstate⟩ hstate
  | stay off place =>
    have hold : s.data.threadState y = .sleeping := by
      obtain hold | ⟨line, hl⟩ := hstep.change.sleeping hstate
      · exact hold
      · exact absurd hl (off line)
    have hchan := h.chan y ⟨line', place, waits_of_waits (fun _ => hold) hwaits⟩ hold
    obtain ⟨op, hinstr⟩ := hstep.instr
    obtain hsame | ⟨line, hl⟩ | ⟨x, hl | hl⟩ := hinstr.chan y
    · exact hsame.trans hchan
    · exact absurd hl (off line)
    · have hdead := (h.life.loc c).reaping x _ y.1 (on_of_loc hl) rfl
      exact nomatch hold.symm.trans (h.life.table.zombie y.1 hdead y.2)
    · have hemb := h.life.making c x _ y.1 hl rfl rfl
      exact absurd rfl (hemb.ne_of_waiting (.inl hold))
  | fresh main allocs place =>
    rw [place] at hwaits
    cases hwaits

/-- `exit` wakes up the parent that it has read with `wait_lock`. -/
theorem WaitInv.call_step (hstep : Stepped s s' c) (c' : κ) (x : Slot) (w : Wake)
    (chan : Option Chan) (hl : s'.loc c' = .run x (.wakeup w chan .parent)) :
    chan = (s'.data.parent x.1).map .proc := by
  by_cases hc : c' = c
  · subst hc
    obtain ⟨op, line, hl₀, hline⟩ | hsaved := hstep.came hl
    · have hparent := h.parents.own h.life hstep hl₀
      generalize s'.data = d' at hline hparent ⊢
      cases hline with
      | wakeParent => rfl
      | wakeup w₀ =>
        rw [hparent]
        exact h.call c' x w₀ chan hl₀
    · cases hcontext : s.data.context x <;> rw [hcontext] at hsaved <;> cases hsaved
  · rw [hstep.others c' hc] at hl
    rw [h.parents.stable h.life hstep hl (.inl rfl)]
    exact h.call c' x w chan hl

/-- A child that `wait` has passed is not dead. -/
theorem WaitInv.scan_step (hstep : Stepped s s' c) (c' : κ) (x : Slot) (line : Line)
    (hl : s'.loc c' = .run x line) (k : Fin nproc) (hk : k.val < line.scanned)
    (hchild : s'.data.parent k = some x.1) : s'.data.procState k ≠ .zombie := by
  by_cases hc : c' = c
  · subst hc
    obtain ⟨op, line₀, hl₀, hline⟩ | hsaved := hstep.came hl
    · exact hline.scanned (h.scan c' x line₀ hl₀) k hk hchild
    · rw [hsaved, scanned_saved] at hk
      exact absurd hk (Nat.not_lt_zero _)
  rw [hstep.others c' hc] at hl
  have hheld : line.held x.1 .wait := Line.held_of_scanned (by omega)
  have hparent : s.data.parent k = some x.1 := by
    cases hstep.kin with
    | same parent =>
      rw [parent] at hchild
      exact hchild
    | hand z q loc | link z q loc => exact absurd hheld (h.life.locks hc loc hl rfl)
    | clear z q loc state parent =>
      rw [parent, update_apply] at hchild
      split_ifs at hchild
      exact hchild
  intro hzombie
  obtain hold | ⟨z, hz, -⟩ := hstep.change.zombie hzombie
  · exact h.scan c' x line hl k hk hparent hold
  · exact h.life.locks hc hz hl (.inl rfl) hheld

/-- The threads that the `wakeup` has passed do not sleep in `wait`. -/
theorem WaitInv.woke_step (hstep : Stepped s s' c) (c' : κ) (x : Slot) (line : Line)
    (y : Slot) (hl : s'.loc c' = .run x line) (hwoke : line.woke y)
    (hparent : s'.data.parent x.1 = some y.1) : ¬ Waits s' y := by
  by_cases hc : c' = c
  · subst hc
    obtain ⟨op, line₀, hl₀, hline⟩ | hsaved := hstep.came hl
    · rw [h.parents.own h.life hstep hl₀] at hparent
      obtain hold | ⟨w, chan, rfl, hpasses⟩ := hline.woke hwoke
      · intro hy
        obtain hy | hnew := h.life.waits_cases hstep hy
        · exact h.woke c' x line₀ y hl₀ hold hparent hy
        · obtain ⟨-, rfl⟩ := Loc.run.inj (hl₀.symm.trans hnew)
          exact hold
      · exact h.not_waits_of_passes hstep hl₀ hparent hpasses
    · rw [hsaved] at hwoke
      cases hcontext : s.data.context x <;> rw [hcontext] at hwoke <;> exact hwoke.elim
  · rw [hstep.others c' hc] at hl
    have hheld : line.held x.1 .wait := Line.held_of_woke hwoke
    rw [h.parents.stable h.life hstep hl hheld] at hparent
    intro hy
    obtain hy | hnew := h.life.waits_cases hstep hy
    · exact h.woke c' x line y hl hwoke hparent hy
    · exact h.life.locks hc hnew hl (.inl rfl) hheld

/-- A thread that goes on waiting is still owed the `wakeup` for a child that was dead before. -/
theorem WaitInv.owed_kept (hstep : Stepped s s' c) {k : Fin nproc}
    (hy : Waits s' y) (hold : Waits s y) (hparent : s.data.parent k = some y.1)
    (hk : s.data.procState k = .zombie) :
    ∃ c x line, s'.loc c = .run x line ∧ s'.data.parent x.1 = some y.1 ∧ line.owes y := by
  obtain ⟨c₁, z, line, hl, hparent₁, howes⟩ := h.owed y k hold hparent hk
  have hstable := h.parents.stable h.life hstep hl (held_of_owes howes)
  by_cases hc : c₁ = c
  · subst hc
    obtain ⟨op, line', hl', hline⟩ := hstep.run hl (Line.saved_of_owes howes)
    obtain howes' | ⟨w, chan, rfl, hpasses⟩ := hline.owes howes
    · exact ⟨c₁, z, line', hl', hstable.trans hparent₁, howes'⟩
    · exact absurd hy (h.not_waits_of_passes hstep hl hparent₁ hpasses)
  · exact ⟨c₁, z, line, (hstep.others c₁ hc).trans hl, hstable.trans hparent₁, howes⟩

/-- After the step a sleeper with a dead child is still owed its `wakeup`. -/
theorem WaitInv.owed_step (hstep : Stepped s s' c) {ch : Choice}
    (hok : HandsOver s (c, ch)) (y : Slot) (k : Fin nproc) (hy : Waits s' y)
    (hparent : s'.data.parent k = some y.1) (hk : s'.data.procState k = .zombie) :
    ∃ c x line, s'.loc c = .run x line ∧ s'.data.parent x.1 = some y.1 ∧ line.owes y := by
  obtain hold | hnew := h.life.waits_cases hstep hy
  · obtain hdead | ⟨x, hl, rfl⟩ := hstep.change.zombie hk
    · cases hstep.kin with
      | same parent =>
        rw [parent] at hparent
        exact h.owed_kept hstep hy hold hparent hdead
      | hand x q loc child parent =>
        by_cases hkq : k = q
        · subst hkq
          rw [parent, update_self] at hparent
          obtain ⟨p, j⟩ := y
          obtain rfl : initproc = p := Option.some.inj hparent
          by_cases hx : s.data.parent x.1 = some initproc
          · -- the exiting process is a child of `initproc`, too
            obtain ⟨op, line', hl', hline⟩ := hstep.run loc rfl
            refine ⟨c, x, line', hl', (h.parents.own h.life hstep loc).trans hx, ?_⟩
            obtain howes | ⟨w, chan, hwakeup, -⟩ := hline.owes (y := (initproc, j)) trivial
            · exact howes
            · cases hwakeup
          · have hhands : (s.loc c).handsDead s.data = true := by
              rw [loc]
              exact decide_eq_true ⟨child, hdead, hx⟩
            obtain ⟨line, hat, hwaits⟩ := hold
            exact nomatch (hok.awake hhands j line hat).symm.trans hwaits
        · rw [parent, update_of_ne hkq] at hparent
          exact h.owed_kept hstep hy hold hparent hdead
      | link x q loc parent =>
        have hkq : k ≠ q := by
          rintro rfl
          exact (h.life.making c x _ k loc rfl rfl).proc.2 hdead
        rw [parent, update_of_ne hkq] at hparent
        exact h.owed_kept hstep hy hold hparent hdead
      | clear x q loc state parent =>
        rw [parent, update_apply] at hparent
        split_ifs at hparent
        exact h.owed_kept hstep hy hold hparent hdead
    · -- the process has just died: its `wakeup` has passed `y`
      rw [h.parents.own h.life hstep hl] at hparent
      exact absurd hold (h.woke c x _ y hl trivial hparent)
  · -- `wait` has just looked at all processes
    obtain ⟨op, line', -, hline⟩ := hstep.run hnew rfl
    generalize s'.data = d' at hline hparent hk
    cases hline
    exact absurd hk (h.scan c y _ hnew k k.isLt hparent)

/-- One step keeps the invariant, if `reparent` hands over as it should. -/
theorem WaitInv.step [DecidableEq κ] {a : κ × Choice} (hok : HandsOver s a)
    (hmachine : lifeCode.machine.step s a = some s') : WaitInv s' where
  life := h.life.step hok.still hmachine
  parents := h.parents.step h.life (stepped hmachine)
  chan _ := h.chan_step (stepped hmachine)
  call := h.call_step (stepped hmachine)
  scan := h.scan_step (stepped hmachine)
  woke := h.woke_step (stepped hmachine)
  owed := h.owed_step (stepped hmachine) hok

end

theorem Start.waitInv (h : Start s) : WaitInv s := by
  have hwaits : ∀ x, ¬ Waits s x := by
    rintro x ⟨line, hat, hwaits⟩
    rw [h.at_eq hat] at hwaits
    cases hwaits
  exact {
    life := h.lifeInv
    parents := h.parentInv
    chan := fun x hx => absurd hx (hwaits x)
    call := fun c x w chan hl => absurd hl (h.idle c x _)
    scan := fun c x line hl => absurd hl (h.idle c x line)
    woke := fun c x line y hl => absurd hl (h.idle c x line)
    owed := fun y k hy => absurd hy (hwaits y) }

/-- **No lost child**: in every run in which `reparent` gives a dead child to `initproc` only as
`HandsOver` says, no thread sleeps in `wait` while its process has a dead child, unless a process is
exiting. -/
theorem children_noticed [DecidableEq κ] (s₀ s : State κ) (as : List (κ × Choice)) (h₀ : Start s₀)
    (hok : lifeCode.machine.Meets HandsOver s₀ as)
    (hrun : lifeCode.machine.run s₀ as = some s) : NoLostChild s := by
  have hinv : WaitInv s := Machine.invariant_of_meets _
    (fun s a s' h hok hstep => h.step hok hstep) as s₀ s h₀.waitInv hok hrun
  intro hfree x _ hwaits k hchild hzombie
  obtain ⟨c, z, line, hl, -, howes⟩ := hinv.owed x k hwaits hchild hzombie
  -- the CPU that owes the `wakeup` holds `wait_lock`
  have hheld : (s.loc c).held .wait := by
    rw [hl]
    exact held_of_owes howes
  exact nomatch hfree.symm.trans ((hinv.life.owned .wait c).mpr hheld)

/-! ### Two runs -/

def ExitsOver (s : State Unit) (x : Slot) : Prop :=
  CanExit s () x ∧
    (∀ k : Fin nproc, HandsOver (((s.hold () .wait).setData (s.data.reparentTo x.1 k.val)).goto ()
      (.run x (.reparent k))) ((), .next)) ∧
    ∀ i : Fin nthread, HandsOver (((s.hold () .wait).setData ((s.data.reparentTo x.1 nproc).markTo
      x.1 i.val)).goto () (.run x (.mark i))) ((), .next)

instance (s : State Unit) (x : Slot) : Decidable (ExitsOver s x) :=
  inferInstanceAs (Decidable (_ ∧ _ ∧ _))

theorem ExitsOver.exited {s : State Unit} (h : ExitsOver s x) :
    lifeCode.machine.Reaches HandsOver s (exited s () x) :=
  h.1.exited (fun s _ => handsOver_goto s) h.2.1 h.2.2

/-- `init` looks for a dead child, and sleeps. -/
def initWaits : List (Unit × Choice) := nexts 4 ++ calls [.wait] ++ nexts 80

def childExits : List (Unit × Choice) := nexts 4 ++ calls [.fs, .exit]

def parentExits : List (Unit × Choice) := nexts 13 ++ calls [.fs, .exit]

theorem handedOver_noticed : Start family ∧ ∃ s,
    lifeCode.machine.Reaches HandsOver family s ∧ s.data.parent 1 = some initproc ∧
      s.data.procState 1 = .zombie ∧ NoLostChild s := by
  have hmeets : lifeCode.machine.Meets HandsOver family (yields ++ childExits) := by
    decide +kernel
  obtain ⟨s₁, hrun₁, hs₁⟩ := (Option.any_eq_true _ _).mp (show
    (lifeCode.machine.run family (yields ++ childExits)).any (fun s =>
      ExitsOver s (1, 0) ∧ lifeCode.machine.Meets HandsOver (exited s () (1, 0)) parentExits ∧
        (lifeCode.machine.run (exited s () (1, 0)) parentExits).any (fun s =>
          ExitsOver s (2, 0) ∧ (exited s () (2, 0)).data.parent 1 = some initproc ∧
            (exited s () (2, 0)).data.procState 1 = .zombie) = true) = true by decide +kernel)
  obtain ⟨hexit₁, hmeets₂, hs₁⟩ := of_decide_eq_true hs₁
  obtain ⟨s₂, hrun₂, hs₂⟩ := (Option.any_eq_true _ _).mp hs₁
  obtain ⟨hexit₂, hparent, hzombie⟩ := of_decide_eq_true hs₂
  have hchild : lifeCode.machine.Reaches HandsOver family s₁ := ⟨_, hmeets, hrun₁⟩
  have hnext : lifeCode.machine.Reaches HandsOver (exited s₁ () (1, 0)) s₂ := ⟨_, hmeets₂, hrun₂⟩
  obtain ⟨as, hok, hrun⟩ := hchild.trans (hexit₁.exited.trans (hnext.trans hexit₂.exited))
  exact ⟨family_start, _, ⟨as, hok, hrun⟩, hparent, hzombie,
    children_noticed family _ as family_start hok hrun⟩

/-- A process hands its dead child to `init`, which goes on sleeping in `wait`. -/
theorem handedOver_lost : Start family ∧ ∃ s,
    lifeCode.machine.Reaches (fun _ _ => True) family s ∧ s.owner .wait = none ∧
      s.data.threadState (initproc, 0) = .sleeping ∧ Waits s (initproc, 0) ∧
      s.data.parent 1 = some initproc ∧ s.data.procState 1 = .zombie ∧ ¬ NoLostChild s := by
  obtain ⟨s₁, hrun₁, hs₁⟩ := (Option.any_eq_true _ _).mp (show
    (lifeCode.machine.run family (initWaits ++ childExits)).any (fun s =>
      CanExit s () (1, 0) ∧ (lifeCode.machine.run (exited s () (1, 0)) parentExits).any (fun s =>
        CanExit s () (2, 0) ∧ (exited s () (2, 0)).owner .wait = none ∧
          (exited s () (2, 0)).data.threadState (initproc, 0) = .sleeping ∧
          ((exited s () (2, 0)).data.context (initproc, 0)).line = .slept .wait ∧
          (exited s () (2, 0)).data.parent 1 = some initproc ∧
          (exited s () (2, 0)).data.procState 1 = .zombie) = true) = true by decide +kernel)
  obtain ⟨hexit₁, hs₁⟩ := of_decide_eq_true hs₁
  obtain ⟨s₂, hrun₂, hs₂⟩ := (Option.any_eq_true _ _).mp hs₁
  obtain ⟨hexit₂, hfree, hstate, hcontext, hparent, hzombie⟩ := of_decide_eq_true hs₂
  have hchild : lifeCode.machine.Reaches (fun _ _ => True) family s₁ :=
    ⟨_, lifeCode.machine.meets_true _ _, hrun₁⟩
  have hnext : lifeCode.machine.Reaches (fun _ _ => True) (exited s₁ () (1, 0)) s₂ :=
    ⟨_, lifeCode.machine.meets_true _ _, hrun₂⟩
  have hdead₁ : lifeCode.machine.Reaches (fun _ _ => True) s₁ (exited s₁ () (1, 0)) :=
    hexit₁.exited (fun _ _ _ _ => trivial) (fun _ => trivial) fun _ => trivial
  have hdead₂ : lifeCode.machine.Reaches (fun _ _ => True) s₂ (exited s₂ () (2, 0)) :=
    hexit₂.exited (fun _ _ _ _ => trivial) (fun _ => trivial) fun _ => trivial
  have hwaits : Waits (exited s₂ () (2, 0)) (initproc, 0) := by
    have hoff : (places (exited s₂ () (2, 0))).Off (initproc, 0) := by
      rintro ⟨⟩ line hl
      obtain ⟨hx, -⟩ := Prod.mk.inj (Option.some.inj hl)
      cases hx
    refine ⟨_, Placement.at_of_off hoff, ?_⟩
    show ((exited s₂ () (2, 0)).data.context (initproc, 0)).line.waits _ = true
    rw [hcontext, hstate]
    rfl
  refine ⟨family_start, _, hchild.trans (hdead₁.trans (hnext.trans hdead₂)), hfree, hstate, hwaits,
    hparent, hzombie, fun h => ?_⟩
  exact h hfree (initproc, 0) hstate hwaits 1 hparent hzombie

end Xv6.Life
