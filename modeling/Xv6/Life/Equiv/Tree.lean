import Xv6.Life.Equiv.Parents
import Xv6.Life.Equiv.Progress

/-!
# The tree of processes

A process that is not linked is one that a live thread is about to link (`Links`). The parent of a
process is alive and not being made (`TreeInv.parent`): `exit` gives away the children under the
`wait_lock` with which its process dies (`Line.passed`).
-/

namespace Xv6.Life

open Lib Function

/-- A live thread is in `fork` before the store of the parent of `k`. -/
def Links {κ : Type*} (s : State κ) (x : Slot) (k : Fin nproc) : Prop :=
  ∃ line, (places s).At x line ∧ alive (s.data.threadState x) ∧ line.linking = some k

/-- How many processes `reparent` has passed. -/
def Ret.passed : Ret → Nat
  | .reparent k => k.val + 1
  | .parent | .marked _ => nproc
  | _ => 0

@[inherit_doc Ret.passed]
def Line.passed : Line → Nat
  | .reparent k => k.val
  | .wakeup _ _ ret => ret.passed
  | .wakeParent | .mark _ | .exitLock | .zombie => nproc
  | _ => 0

/-- The child that `wait` has found. -/
def Line.found : Line → Option (Fin nproc)
  | .waitLock k | .waitTest k | .waitFree k => some k
  | _ => none

/-! ### Lines -/

section Lines

variable {d d' : Table} {x : Slot} {line line' : Line} {l l' : Loc} {op : LockOp LockId}
  {k : Fin nproc}

theorem making_of_linking (h : line.linking = some k) : line.making = some k := by
  have hentry : ∀ e : Entry, e.linking = some k → e.making = some k := by
    intro e he
    cases e with
    | link => exact he
    | _ => cases he
  cases line with
  | out e | yieldLock e | yieldState e | yieldSched e | yielded e => exact hentry e h
  | wakeup w chan ret =>
    cases ret with
    | resume e => exact hentry e h
    | _ => cases h
  | setup | setupUnlock | setParent => exact h
  | _ => cases h

theorem inFork_of_making (h : line.making = some k) : line.inFork = true := by
  have hentry : ∀ e : Entry, e.making = some k → e.inFork = true := by
    intro e he
    cases e with
    | link | start => rfl
    | _ => cases he
  cases line with
  | out e | yieldLock e | yieldState e | yieldSched e | yielded e => exact hentry e h
  | wakeup w chan ret =>
    cases ret with
    | resume e => exact hentry e h
    | _ => cases h
  | setup | setupUnlock | setParent | linkUnlock | startState => rfl
  | _ => cases h

variable {context : Saved}

theorem linking_saved (h : line.saved = some context) :
    context.line.linking = line.linking := by
  cases line with
  | exitSched | sleepSched | yieldSched =>
    cases h
    rfl
  | _ => cases h

section

variable (h : Line.Step d x line op (some line') d')

include h

/-- A thread is about to link a process because it was, or because `allocproc` has found the
slot. -/
theorem Line.Step.linking
    (hk : line'.linking = some k) :
    line.linking = some k ∨ (Loc.run x line).Allocs d d' k := by
  cases h with
  | wakeup w w' chan ret =>
    refine .inl (Eq.trans ?_ hk)
    cases ret <;> rfl
  | allocFound q hq =>
    cases hk
    exact .inr ⟨x, rfl, hq, rfl⟩
  | yield | ignore | interrupt | enterLink | wokenResume | setup | setupUnlock | yieldLock
  | yieldState | yielded => exact .inl hk
  | _ => cases hk

/-- A thread that is about to link a process goes on to do so, unless `fork` fails. -/
theorem Line.Step.links
    (hk : line.linking = some k) :
    line'.linking = some k ∨ line = .setParent k ∨ d' = d.allocFail k := by
  cases h with
  | wakeup w w' chan ret =>
    refine .inl (Eq.trans ?_ hk)
    cases ret <;> rfl
  | setParent =>
    cases hk
    exact .inr (.inl rfl)
  | setupFail =>
    cases hk
    exact .inr (.inr rfl)
  | yield | ignore | interrupt | enterLink | wokenResume | setup | setupUnlock | yieldLock
  | yieldState | yielded => exact .inl hk
  | _ => cases hk

/-- A thread that is making a process goes on to start it, unless `fork` fails. -/
theorem Line.Step.makes
    (hk : line.making = some k) :
    line'.making = some k ∨ d' = d.setThreadState (k, 0) .runnable ∨ d' = d.allocFail k := by
  cases h with
  | wakeup w w' chan ret =>
    refine .inl (Eq.trans ?_ hk)
    cases ret <;> rfl
  | startState =>
    cases hk
    exact .inr (.inl rfl)
  | setupFail =>
    cases hk
    exact .inr (.inr rfl)
  | yield | ignore | interrupt | enterLink | enterStart | wokenResume | setup | setupUnlock
  | setParent | linkUnlock | yieldLock | yieldState | yielded => exact .inl hk
  | _ => cases hk

/-- `reparent` has passed one process more, or none. -/
theorem Line.Step.passed
    (hexits : line.exits → x.1 ≠ initproc)
    (hline : ∀ k : Fin nproc, k.val < line.passed → d.parent k ≠ some x.1) (k : Fin nproc)
    (hk : k.val < line'.passed) : d'.parent k ≠ some x.1 := by
  -- `reparent` looks at process `q`
  have hlook : ∀ q : Fin nproc, k.val < q.val + 1 → d.parent q ≠ some x.1 →
      (k.val < q.val → d.parent k ≠ some x.1) → d.parent k ≠ some x.1 := by
    intro q hlt hq hbefore
    by_cases hkq : k = q
    · rw [hkq]
      exact hq
    · have hne := Fin.val_ne_of_ne hkq
      exact hbefore (by omega)
  cases h with
  | wakeup w w' chan ret op d' h => cases h <;> exact hline k hk
  | wokenReparent q hq chan j j' hj => exact hline k (Nat.lt_of_lt_of_eq hk hj)
  | wokenReparentLast q hq chan j hj => exact hline k (Nat.lt_of_lt_of_eq hk hj.symm)
  | reparent j =>
    have hlt : k.val < j.val + 1 := hk
    show update d.parent j (some initproc) k ≠ some x.1
    rw [update_apply]
    split_ifs with hkj
    · exact fun h => hexits trivial (Option.some.inj h).symm
    · have hne := Fin.val_ne_of_ne hkj
      refine hline k ?_
      show k.val < j.val
      omega
  | reparentSkip j j' hj hne => exact hlook j (Nat.lt_of_lt_of_eq hk hj) hne (hline k)
  | reparentSkipLast j hj hne => exact hlook j (Nat.lt_of_lt_of_eq hk hj.symm) hne (hline k)
  | wokenParent | wokenMark | wokenMarkLast | wakeParent | mark | exitLock => exact hline k hk
  | _ => exact absurd hk (Nat.not_lt_zero _)

end

/-- `reparent` runs with `wait_lock`. -/
theorem Line.held_of_passed {p : Fin nproc} (h : 0 < line.passed) : line.held p .wait := by
  cases line with
  | reparent | wakeParent | mark | exitLock => rfl
  | zombie => exact .inl rfl
  | wakeup w chan ret =>
    cases ret with
    | reparent | parent | marked => exact .inl rfl
    | _ => exact absurd h (lt_irrefl 0)
  | _ => exact absurd h (lt_irrefl 0)

/-- `wait` has found a child before, or finds it now. -/
theorem Line.Step.found (h : Line.Step d x line op (some line') d')
    (hline : ∀ k, line.found = some k → d.parent k = some x.1) (hk : line'.found = some k) :
    d'.parent k = some x.1 := by
  cases h with
  | waitFound q b hchild =>
    cases hk
    exact hchild
  | waitLock | waitZombie => exact hline k hk
  | _ => cases hk

/-- `wait` looks at a child with `wait_lock`. -/
theorem Line.held_of_found {p : Fin nproc} (h : line.found = some k) : line.held p .wait := by
  cases line with
  | waitLock => rfl
  | waitTest | waitFree => exact .inl rfl
  | _ => cases h

theorem passed_saved : context.line.passed = 0 := by
  cases context <;> rfl

theorem found_saved : context.line.found = none := by
  cases context <;> rfl

/-- Only `allocproc` writes down who forked a process. -/
theorem Loc.Step.forker (h : Loc.Step d l op l' d') :
    d'.gen = d.gen ∧ d'.forker = d.forker ∨ ∃ k, l.Allocs d d' k := by
  have hwake : ∀ {me chan w op w' d'}, Wake.Step d me chan w op w' d' →
      d'.gen = d.gen ∧ d'.forker = d.forker := by
    intro me chan w op w' d' h
    cases h <;> exact ⟨rfl, rfl⟩
  cases h with
  | intr _ _ _ _ _ _ h => exact .inl (hwake h)
  | run x line line' op d' h =>
    cases h with
    | wakeup _ _ _ _ _ _ h => exact .inl (hwake h)
    | allocFound k hk => exact .inr ⟨k, x, rfl, hk, rfl⟩
    | _ => exact .inl ⟨rfl, rfl⟩
  | _ => exact .inl ⟨rfl, rfl⟩

end Lines

/-! ### The invariant -/

/-- The invariant of the process tree. -/
structure TreeInv {κ : Type*} (s : State κ) : Prop where
  life : LifeInv s
  parents : ParentInv s
  linked : ∀ k, k ≠ initproc → s.data.procState k ≠ .unused → Linked s.data k ∨ ∃ x, Links s x k
  links : ∀ x k, Links s x k → s.data.parent k = none ∧ s.data.forker k = some (x.1, s.data.gen x.1)
  unused : ∀ k, s.data.procState k = .unused → s.data.parent k = none
  parent : ∀ k q, s.data.parent k = some q → alive (s.data.procState q) ∧ ∀ x, ¬ Makes s x q
  passed : ∀ c x line, s.loc c = .run x line → ∀ k : Fin nproc, k.val < line.passed →
    s.data.parent k ≠ some x.1
  found : ∀ c x line k, s.loc c = .run x line → line.found = some k → s.data.parent k = some x.1
  used : ∀ x, s.data.threadState x = .used → ∃ y, Makes s y x.1

variable {κ : Type*} {s s' : State κ} {c : κ} {x y : Slot} {line : Line} {k q : Fin nproc}

theorem Links.makes (h : Links s x k) : Makes s x k := by
  obtain ⟨line, hat, halive, hk⟩ := h
  exact ⟨line, hat, halive, making_of_linking hk⟩

/-- Who forked a process that is in use is not written down anew. -/
theorem Stepped.forker_kept (hstep : Stepped s s' c) (hk : s.data.procState k ≠ .unused)
    (hq : s.data.procState q ≠ .unused) :
    s'.data.forker k = s.data.forker k ∧ s'.data.gen q = s.data.gen q := by
  obtain ⟨op, hinstr⟩ := hstep.instr
  obtain ⟨hgen, hforker⟩ | ⟨j, x, -, hunused, htable⟩ := hinstr.forker
  · rw [hgen, hforker]
    exact ⟨rfl, rfl⟩
  have hkj : k ≠ j := by
    rintro rfl
    exact hk hunused
  have hqj : q ≠ j := by
    rintro rfl
    exact hq hunused
  rw [htable]
  exact ⟨update_of_ne hkj _ _, update_of_ne hqj _ _⟩

/-- A parent does not die while it is a parent. -/
theorem TreeInv.alive_kept (h : TreeInv s) (hstep : Stepped s s' c)
    (hq : s.data.parent k = some q) : alive (s'.data.procState q) := by
  obtain ⟨halive, hmakes⟩ := h.parent k q hq
  cases hstep.change.fate q with
  | same state =>
    rw [state]
    exact halive
  | dies x loc proc =>
    subst proc
    exact absurd hq (h.passed c x _ loc k k.isLt)
  | freed x loc =>
    obtain loc | loc := loc
    · exact absurd ((h.life.loc c).reaping x _ q (on_of_loc loc) rfl) halive.2
    · exact absurd (h.life.makes loc rfl rfl) (hmakes x)
  | taken allocs =>
    obtain ⟨x, -, hunused, -⟩ := allocs
    exact absurd hunused halive.1

/-- A process with a parent keeps it, or gets `initproc`. -/
theorem TreeInv.linked_kept (h : TreeInv s) (hstep : Stepped s s' c) (hlinked : Linked s.data k)
    (hk : s.data.procState k ≠ .unused) (hparent : s'.data.parent k = s.data.parent k) :
    Linked s'.data k := by
  obtain ⟨q, hq, hused, hfork⟩ := hlinked
  obtain ⟨hforker, hgen⟩ := hstep.forker_kept hk hused
  refine ⟨q, hparent.trans hq, (h.alive_kept hstep hq).1, ?_⟩
  rw [hforker, hgen]
  exact hfork

theorem LifeInv.links (h : LifeInv s) (hl : s.loc c = .run x line)
    (hph : line.phase = .marked 0) (hk : line.linking = some k) : Links s x k :=
  ⟨line, Placement.at_of_on (on_of_loc hl), h.alive_at hl hph, hk⟩

/-- `allocproc` goes on with the slot that it has found. -/
theorem Stepped.taken (hstep : Stepped s s' c) (hallocs : (s.loc c).Allocs s.data s'.data k) :
    ∃ x, s'.loc c = .run x (.setup k) := by
  obtain ⟨x, loc, hunused, htable⟩ := hallocs
  obtain ⟨op, line', hl', hline⟩ := hstep.run loc rfl
  refine ⟨x, ?_⟩
  generalize s'.data = d' at hline htable
  cases hline with
  | allocFound => exact hl'
  | allocSkip | allocSkipLast =>
    have hstate : s.data.procState k = .used := by
      rw [htable]
      exact alloc_self
    exact nomatch hunused.symm.trans hstate

section Step

variable (h : TreeInv s) (h' : LifeInv s') (hstep : Stepped s s' c)

include h hstep

/-- How a thread has come to be about to link a process. -/
theorem TreeInv.links_cases (hlinks : Links s' x k) :
    Links s x k ∨ s.loc c = .run x (.allocTest k) ∧ s.data.procState k = .unused ∧
      s'.data = s.data.alloc x.1 k := by
  obtain ⟨line', hat, halive, hk⟩ := hlinks
  cases h.life.arrived hstep hat with
  | go line op loc step =>
    have hold := h.life.alive_of_run hstep loc halive
    obtain hlinking | ⟨z, hz, hunused, htable⟩ := step.linking hk
    · exact .inl ⟨line, Placement.at_of_on (on_of_loc loc), hold, hlinking⟩
    · obtain ⟨rfl, rfl⟩ := Loc.run.inj hz
      exact .inr ⟨loc, hunused, htable⟩
  | leave line context loc saved place =>
    rw [place, linking_saved saved] at hk
    have hold := h.life.alive_of_run hstep loc halive
    exact .inl ⟨line, Placement.at_of_on (on_of_loc loc), hold, hk⟩
  | stay off place live => exact .inl ⟨line', place, live halive, hk⟩
  | fresh main allocs place =>
    rw [place] at hk
    cases hk

theorem TreeInv.links_step (hlinks : Links s' x k) :
    s'.data.parent k = none ∧ s'.data.forker k = some (x.1, s'.data.gen x.1) := by
  obtain hold | ⟨loc, hunused, htable⟩ := h.links_cases hstep hlinks
  · obtain ⟨hnone, hforker⟩ := h.links x k hold
    have hemb := h.life.embryo x k hold.makes
    obtain ⟨line, hat, halive, hk⟩ := hold
    have hused : s.data.procState x.1 ≠ .unused :=
      fun hx => halive.1 (h.life.table.unused x.1 hx x.2)
    refine ⟨?_, ?_⟩
    · obtain hno | ⟨z, loc⟩ := hstep.kin.none hnone
      · exact hno
      -- the thread itself links the process, and is not about to do so any more
      obtain rfl := h.life.maker x z k ⟨line, hat, halive, making_of_linking hk⟩
        (h.life.makes loc rfl rfl)
      obtain ⟨line', hat', -, hk'⟩ := hlinks
      have hat : (places s).At x _ := Placement.at_of_on (on_of_loc loc)
      obtain ⟨op, -, step⟩ | ⟨context, saved, -⟩ | ⟨off, -⟩ := h.life.goes hstep hat halive hat'
      · generalize s'.data = d' at step
        cases step
        cases hk'
      · cases saved
      · exact (off _ loc).elim
    · obtain ⟨hkeeps, hgen⟩ := hstep.forker_kept hemb.proc.1 hused
      rw [hkeeps, hgen, hforker]
  · have hne : x.1 ≠ k := by
      rintro rfl
      exact h.life.used (on_of_loc loc) hunused
    rw [htable]
    refine ⟨h.unused k hunused, (update_self _ _ _).trans ?_⟩
    have hgen : (s.data.alloc x.1 k).gen x.1 = s.data.gen x.1 := update_of_ne hne _ _
    rw [hgen]

theorem TreeInv.unused_step (hk : s'.data.procState k = .unused) : s'.data.parent k = none := by
  cases hstep.change.fate k with
  | same state =>
    rw [state] at hk
    have hnone := h.unused k hk
    obtain hno | ⟨z, loc⟩ := hstep.kin.none hnone
    · exact hno
    · exact ((h.life.making c z _ k loc rfl rfl).proc.1 hk).elim
  | dies x loc proc state => exact nomatch state.symm.trans hk
  | freed x loc state parent => exact parent
  | taken allocs =>
    obtain ⟨x, -, -, htable⟩ := allocs
    rw [htable, alloc_self] at hk
    cases hk

/-- No child is left behind `reparent`. -/
theorem TreeInv.passed_step (c' : κ) (x : Slot) (line : Line) (hl : s'.loc c' = .run x line)
    (k : Fin nproc) (hk : k.val < line.passed) : s'.data.parent k ≠ some x.1 := by
  by_cases hc : c' = c
  · subst hc
    obtain ⟨op, line₀, hl₀, hline⟩ | hsaved := hstep.came hl
    · exact hline.passed ((h.life.loc c').exits x line₀ (on_of_loc hl₀)) (h.passed c' x line₀ hl₀) k hk
    · rw [hsaved, passed_saved] at hk
      exact absurd hk (Nat.not_lt_zero _)
  rw [hstep.others c' hc] at hl
  have hheld : line.held x.1 .wait := Line.held_of_passed (by omega)
  have hold := h.passed c' x line hl k hk
  cases hstep.kin with
  | same parent => rwa [parent]
  | hand z j loc | link z j loc => exact absurd hheld (h.life.locks hc loc hl rfl)
  | clear z j loc state parent =>
    rw [parent, update_apply]
    split_ifs
    · exact nofun
    · exact hold

/-- The child that `wait` has found stays a child of its process. -/
theorem TreeInv.found_step (c' : κ) (x : Slot) (line : Line) (k : Fin nproc)
    (hl : s'.loc c' = .run x line) (hk : line.found = some k) : s'.data.parent k = some x.1 := by
  by_cases hc : c' = c
  · subst hc
    obtain ⟨op, line₀, hl₀, hline⟩ | hsaved := hstep.came hl
    · exact hline.found (fun k => h.found c' x line₀ k hl₀) hk
    · rw [hsaved, found_saved] at hk
      cases hk
  rw [hstep.others c' hc] at hl
  have hheld : line.held x.1 .wait := Line.held_of_found hk
  have hold := h.found c' x line k hl hk
  cases hstep.kin with
  | same parent => rwa [parent]
  | hand z j loc | link z j loc => exact absurd hheld (h.life.locks hc loc hl rfl)
  | clear z j loc state parent =>
    rw [parent, update_of_ne, hold]
    rintro rfl
    obtain loc | loc := loc
    · exact h.life.locks hc loc hl (.inl rfl) hheld
    · -- a process that is not linked yet is nobody's child
      exact nomatch (h.links z k (h.life.links loc rfl rfl)).1.symm.trans hold

/-- A process that a live thread is about to link before the step. -/
theorem TreeInv.linked_of_links {ch : Choice}
    (hok : MarksOnly (fun line => line.making = none) s (c, ch)) (hlinks : Links s x k)
    (hk' : s'.data.procState k ≠ .unused) :
    Linked s'.data k ∨ ∃ x, Links s' x k := by
  obtain ⟨hnone, hforker⟩ := h.links x k hlinks
  obtain ⟨line, hat, halive, hk⟩ := hlinks
  have hmaking : line.making ≠ none := by
    rw [making_of_linking hk]
    exact nofun
  have halive' := h.life.alive_step hstep hok (fun _ => rfl) rfl hat halive hmaking
  obtain ⟨line', hat'⟩ := (places s').exists_at x
  obtain ⟨op, loc, step⟩ | ⟨context, saved, rfl⟩ | ⟨-, rfl⟩ := h.life.goes hstep hat halive hat'
  · obtain hlinking | rfl | hfail := step.links hk
    · exact .inr ⟨x, line', hat', halive', hlinking⟩
    · refine .inl ⟨x.1, ?_⟩
      have hused := h.life.used (on_of_loc loc)
      generalize s'.data = d' at step ⊢
      cases step
      exact ⟨update_self _ _ _, hused, .inr hforker⟩
    · rw [hfail, allocFail_self] at hk'
      exact absurd rfl hk'
  · exact .inr ⟨x, context.line, hat', halive', (linking_saved saved).trans hk⟩
  · exact .inr ⟨x, line', hat', halive', hk⟩

include h'

/-- A parent is alive, and not an embryo. -/
theorem TreeInv.parent_step (hq : s'.data.parent k = some q) :
    alive (s'.data.procState q) ∧ ∀ x, ¬ Makes s' x q := by
  have hold : s.data.parent k = some q →
      alive (s'.data.procState q) ∧ ∀ x, ¬ Makes s' x q := by
    intro hq
    obtain ⟨halive, hmakes⟩ := h.parent k q hq
    refine ⟨h.alive_kept hstep hq, fun x hx => ?_⟩
    obtain hx | ⟨-, z, -, hunused, -⟩ := h.life.makes_cases hstep hx
    · exact hmakes x hx
    · exact halive.1 hunused
  cases hstep.kin with
  | same parent =>
    rw [parent] at hq
    exact hold hq
  | hand z j loc child parent =>
    rw [parent, update_apply] at hq
    split_ifs at hq
    · cases hq
      exact ⟨h'.table.init, fun x hx => (h'.embryo x _ hx).ne_init rfl⟩
    · exact hold hq
  | link z j loc parent =>
    rw [parent, update_apply] at hq
    split_ifs at hq
    · cases hq
      obtain ⟨op, line', hl', hline⟩ := hstep.run loc rfl
      have hphase := (h'.loc c).phase z line' (on_of_loc hl')
      refine ⟨?_, fun x hx => (h'.embryo x _ hx).ne_of_phase hphase rfl⟩
      generalize s'.data = d' at hline hphase ⊢
      cases hline
      exact hphase.1
    · exact hold hq
  | clear z j loc state parent =>
    rw [parent, update_apply] at hq
    split_ifs at hq
    exact hold hq

theorem TreeInv.linked_of_linked (hlinked : Linked s.data k) (hk : s.data.procState k ≠ .unused)
    (hk' : s'.data.procState k ≠ .unused) : Linked s'.data k := by
  cases hstep.kin with
  | same parent => exact h.linked_kept hstep hlinked hk (by rw [parent])
  | hand x j loc child parent =>
    by_cases hkj : k = j
    · subst hkj
      refine ⟨initproc, ?_, h'.table.init.1, .inl rfl⟩
      rw [parent, update_self]
    · exact h.linked_kept hstep hlinked hk (by rw [parent, update_of_ne hkj])
  | link x j loc parent =>
    have hkj : k ≠ j := by
      rintro rfl
      obtain ⟨q, hq, -, -⟩ := hlinked
      exact nomatch (h.links x k (h.life.links loc rfl rfl)).1.symm.trans hq
    exact h.linked_kept hstep hlinked hk (by rw [parent, update_of_ne hkj])
  | clear x j loc state parent =>
    have hkj : k ≠ j := by
      rintro rfl
      exact hk' state
    exact h.linked_kept hstep hlinked hk (by rw [parent, update_of_ne hkj])

variable {ch : Choice} (hok : MarksOnly (fun line => line.making = none) s (c, ch))

include hok

/-- A process that is in use is linked, or its maker is about to link it. -/
theorem TreeInv.linked_step (hk : k ≠ initproc) (hk' : s'.data.procState k ≠ .unused) :
    Linked s'.data k ∨ ∃ x, Links s' x k := by
  by_cases hunused : s.data.procState k = .unused
  · cases hstep.change.fate k with
    | same state => exact absurd (state.trans hunused) hk'
    | dies x loc proc =>
      subst proc
      exact absurd hunused (h.life.used (on_of_loc loc))
    | freed x loc state => exact absurd state hk'
    | taken allocs =>
      obtain ⟨x, hl'⟩ := hstep.taken allocs
      exact .inr ⟨x, h'.links hl' rfl rfl⟩
  · obtain hlinked | ⟨x, hlinks⟩ := h.linked k hk hunused
    · exact .inl (h.linked_of_linked h' hstep hlinked hunused hk')
    · exact h.linked_of_links hstep hok hlinks hk'

theorem TreeInv.used_step (hx : s'.data.threadState x = .used) : ∃ y, Makes s' y x.1 := by
  obtain hold | ⟨-, hallocs⟩ := hstep.change.used hx
  · obtain ⟨y, line, hat, halive, hk⟩ := h.used x hold
    have hmaking : line.making ≠ none := by
      rw [hk]
      exact nofun
    have halive' := h.life.alive_step hstep hok (fun _ => rfl) rfl hat halive hmaking
    obtain ⟨line', hat'⟩ := (places s').exists_at y
    obtain ⟨op, loc, step⟩ | ⟨context, saved, rfl⟩ | ⟨-, rfl⟩ := h.life.goes hstep hat halive hat'
    · -- the thread that is `USED` is the main thread of the process that is being made
      have hemb := h.life.embryo y x.1 ⟨line, hat, halive, hk⟩
      have hmain : x = (x.1, 0) := by
        refine Prod.ext rfl ?_
        by_contra hne
        exact nomatch hold.symm.trans (hemb.others x.2 hne)
      rw [hmain] at hx
      obtain hmakes | hstart | hfail := step.makes hk
      · exact ⟨y, line', hat', halive', hmakes⟩
      · rw [hstart, setThreadState_apply, if_pos rfl] at hx
        cases hx
      · rw [hfail, Table.allocFail] at hx
        dsimp only at hx
        rw [update_self] at hx
        cases hx
    · exact ⟨y, context.line, hat', halive', (making_saved saved).trans hk⟩
    · exact ⟨y, line', hat', halive', hk⟩
  · obtain ⟨z, hl'⟩ := hstep.taken hallocs
    exact ⟨z, h'.makes hl' rfl rfl⟩

end Step

/-- One step keeps the tree, if `exit` marks no sibling that is in `fork`. -/
theorem TreeInv.step [DecidableEq κ] (h : TreeInv s) {a : κ × Choice}
    (hok : MarksOnly (fun line => line.making = none) s a)
    (hmachine : lifeCode.machine.step s a = some s') : TreeInv s' := by
  have h' := h.life.step hok.still hmachine
  have hstep := stepped hmachine
  exact {
    life := h'
    parents := h.parents.step h.life hstep
    linked := fun k => h.linked_step h' hstep hok
    links := fun x k => h.links_step hstep
    unused := fun k => h.unused_step hstep
    parent := fun k q => h.parent_step h' hstep
    passed := h.passed_step hstep
    found := h.found_step hstep
    used := fun x => h.used_step h' hstep hok }

theorem Start.treeInv (h : Start s) : TreeInv s := by
  have hlinks : ∀ x k, ¬ Links s x k := fun x k hx => h.not_makes x k hx.makes
  have hparent : ∀ k q, s.data.parent k = some q → s.data.procState q ≠ .unused := by
    intro k q hq
    have hk : k ≠ initproc := by
      rintro rfl
      exact nomatch h.init.2.symm.trans hq
    have hused : s.data.procState k ≠ .unused :=
      fun hunused => nomatch (h.unused k hunused).symm.trans hq
    obtain ⟨q', hq', hused', -⟩ := h.tree k hk hused
    obtain rfl := Option.some.inj (hq.symm.trans hq')
    exact hused'
  exact {
    life := h.lifeInv
    parents := h.parentInv
    linked := fun k hk hused => .inl (h.tree k hk hused)
    links := fun x k hx => absurd hx (hlinks x k)
    unused := h.unused
    parent := fun k q hq => ⟨⟨hparent k q hq, h.procs q⟩, fun x => h.not_makes x q⟩
    passed := fun c x line hl => absurd hl (h.idle c x line)
    found := fun c x line k hl => absurd hl (h.idle c x line)
    used := by
      intro x hx
      obtain hx' | ⟨hx', -⟩ := h.threads x
      · exact nomatch hx.symm.trans hx'
      · exact nomatch hx.symm.trans hx' }

/-- **The tree of processes**: in every run in which `exit` marks siblings only while they are still
and not in the middle of `fork`, every process is linked while no live thread is inside `fork`, and
`wait` frees only processes that its own process forked or inherited. -/
theorem tree_kept [DecidableEq κ] (s₀ s : State κ) (as : List (κ × Choice)) (h₀ : Start s₀)
    (hok : lifeCode.machine.Meets (MarksOnly fun line => line.making = none) s₀ as)
    (hrun : lifeCode.machine.run s₀ as = some s) : TreeOk s := by
  have hinv : TreeInv s := Machine.invariant_of_meets _
    (fun s a s' h hok hstep => h.step hok hstep) as s₀ s h₀.treeInv hok hrun
  have hmakes : NoFork s → ∀ x k, ¬ Makes s x k := by
    rintro hfork x k ⟨line, hat, halive, hk⟩
    exact nomatch (hfork x halive line hat).symm.trans (inFork_of_making hk)
  refine ⟨fun hfork k hk hused => ?_, fun hfork x hx => ?_, fun c x k hl => ?_⟩
  · obtain hlinked | ⟨x, hlinks⟩ := hinv.linked k hk hused
    · exact hlinked
    · exact absurd hlinks.makes (hmakes hfork x k)
  · obtain ⟨y, hy⟩ := hinv.used x hx
    exact hmakes hfork y x.1 hy
  · -- the process is dead, and so it is linked
    have hdead : s.data.procState k = .zombie := (hinv.life.loc c).reaping x _ k (on_of_loc hl) rfl
    have hk : k ≠ initproc := by
      rintro rfl
      exact hinv.life.table.init.2 hdead
    obtain ⟨q, hq, -, hfork⟩ | ⟨z, hlinks⟩ := hinv.linked k hk (by rw [hdead]; exact nofun)
    · obtain rfl := Option.some.inj (hq.symm.trans (hinv.found c x _ k hl rfl))
      exact hfork
    · exact absurd hdead (hinv.life.embryo z k hlinks.makes).proc.2

/-! ### Two runs -/

/-- A thread yields after `n` instructions of `fork`, and its sibling calls `exit`. -/
def forkExits (n : Nat) : List (Unit × Choice) :=
  yields ++ yields ++ nexts 4 ++ calls [.fork] ++ nexts n ++ [((), .timer)] ++ nexts 6 ++
    calls [.fs, .exit]

theorem forked_inherited : Start family ∧ ∃ s,
    lifeCode.machine.Reaches (MarksOnly fun line => line.making = none) family s ∧ NoFork s ∧
      s.data.procState 2 = .zombie ∧ s.data.procState 4 = .used ∧
      s.data.parent 4 = some initproc ∧ s.data.forker 4 = some (2, 0) ∧ TreeOk s := by
  have hmeets : lifeCode.machine.Meets (MarksOnly fun line => line.making = none) family
      (forkExits 18) := by decide +kernel
  obtain ⟨s, hrun, hs⟩ := (Option.any_eq_true _ _).mp (show
    (lifeCode.machine.run family (forkExits 18)).any (fun s => CanExit s () (2, 1) ∧
      (∀ i : Fin nthread, MarksOnly (fun line => line.making = none)
        (((s.hold () .wait).setData ((s.data.reparentTo 2 nproc).markTo 2 i.val)).goto ()
          (.run (2, 1) (.mark i))) ((), .next)) ∧
      NoFork (exited s () (2, 1)) ∧ (exited s () (2, 1)).data.procState 2 = .zombie ∧
      (exited s () (2, 1)).data.procState 4 = .used ∧
      (exited s () (2, 1)).data.parent 4 = some initproc ∧
      (exited s () (2, 1)).data.forker 4 = some (2, 0)) = true by decide +kernel)
  obtain ⟨hexit, hmark, hfork, hdead, hused, hparent, hforker⟩ := of_decide_eq_true hs
  have hbefore : lifeCode.machine.Reaches (MarksOnly fun line => line.making = none) family s :=
    ⟨_, hmeets, hrun⟩
  have hexited := hexit.exited (fun s _ _ h => marksOnly_goto s h)
    (fun _ => marksOnly_goto _ nofun) hmark
  obtain ⟨as, hok, hrun⟩ := hbefore.trans hexited
  exact ⟨family_start, _, ⟨as, hok, hrun⟩, hfork, hdead, hused, hparent, hforker,
    tree_kept family _ as family_start hok hrun⟩

/-- Process 2 dies after one of its threads has allocated process 4 and not linked it. -/
theorem unlinked_lost : Start family ∧ ∃ s,
    lifeCode.machine.Reaches (fun _ _ => True) family s ∧ NoFork s ∧
      s.data.procState 2 = .zombie ∧ s.data.procState 4 = .used ∧ s.data.parent 4 = none ∧
      ¬ TreeOk s := by
  obtain ⟨s, hrun, hs⟩ := (Option.any_eq_true _ _).mp (show
    (lifeCode.machine.run family (forkExits 12)).any (fun s => CanExit s () (2, 1) ∧
      NoFork (exited s () (2, 1)) ∧ (exited s () (2, 1)).data.procState 2 = .zombie ∧
      (exited s () (2, 1)).data.procState 4 = .used ∧
      (exited s () (2, 1)).data.parent 4 = none) = true by decide +kernel)
  obtain ⟨hexit, hfork, hdead, hused, hparent⟩ := of_decide_eq_true hs
  have hbefore : lifeCode.machine.Reaches (fun _ _ => True) family s :=
    ⟨_, lifeCode.machine.meets_true _ _, hrun⟩
  have hexited : lifeCode.machine.Reaches (fun _ _ => True) s (exited s () (2, 1)) :=
    hexit.exited (fun _ _ _ _ => trivial) (fun _ => trivial) fun _ => trivial
  refine ⟨family_start, _, hbefore.trans hexited, hfork, hdead, hused, hparent, fun h => ?_⟩
  have hne : (exited s () (2, 1)).data.procState 4 ≠ .unused :=
    fun hunused => nomatch hused.symm.trans hunused
  obtain ⟨q, hq, -, -⟩ := h.linked hfork 4 (by decide) hne
  exact nomatch hparent.symm.trans hq

end Xv6.Life
