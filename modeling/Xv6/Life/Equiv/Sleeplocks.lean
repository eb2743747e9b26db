import Xv6.Life.Equiv.Progress
import Xv6.Life.Equiv.Threads

/-!
# Sleep-locks and `exit`

The holders of the locks (`HeldInv`) are the live threads at lines where they are held. In
`blockedHolder_orphan`, `exit` marks a sibling that sleeps in the middle of the file system.
-/

namespace Xv6.Life

open Lib Function Finset

variable {κ : Type*} {s s' : State κ} {c : κ} {x y : Slot} {line line' : Line} {n : Nat}
  {d d' : Table} {l l' : Loc} {op : LockOp LockId}

/-! ### What a thread holds after an instruction -/

theorem hs_saved {context : Saved} (h : line.saved = some context) : context.line.hs = line.hs := by
  cases line with
  | exitSched | sleepSched | yieldSched =>
    cases h
    rfl
  | _ => cases h

/-- Thread `x` takes sleep-lock `n`. -/
structure Acquires (d : Table) (l : Loc) (d' : Table) (x : Slot) (n : Nat) : Prop where
  loc : ∃ hs, l = .run x (.lockTest n hs)
  free : d.locked n = false
  table : d' = d.lock n x

/-- Thread `x` gives sleep-lock `n` back. -/
structure Releases (d : Table) (l : Loc) (d' : Table) (x : Slot) (n : Nat) : Prop where
  loc : ∃ hs, l = .run x (.unlockSet n hs)
  table : d' = d.unlock n

/-- **What a thread holds changes only when it acquires or releases a sleep-lock.** -/
theorem Line.Step.hs (h : Line.Step d x line op (some line') d') (n : Nat) :
    (n ∈ line'.hs ↔ n ∈ line.hs) ∨ n ∈ line'.hs ∧ Acquires d (.run x line) d' x n ∨
      n ∉ line'.hs ∧ Releases d (.run x line) d' x n := by
  cases h with
  | callUnlock m hs hm =>
    refine .inl (Iff.of_eq (congrArg (n ∈ ·) ?_))
    exact insert_eq_of_mem hm
  | lockFree m hs hfree =>
    by_cases hn : n = m
    · subst hn
      exact .inr (.inl ⟨mem_insert_self n hs, ⟨hs, rfl⟩, hfree, rfl⟩)
    · exact .inl (mem_insert.trans (or_iff_right hn))
  | unlockSet m hs =>
    by_cases hn : n = m
    · subst hn
      exact .inr (.inr ⟨notMem_erase n hs, ⟨hs, rfl⟩, rfl⟩)
    · refine .inl (mem_erase.trans ?_)
      exact (and_iff_right hn).trans (mem_insert.trans (or_iff_right hn)).symm
  | _ => exact .inl Iff.rfl

theorem Wake.Step.locks {me : Option Slot} {chan : Option Chan} {w w' : Wake}
    (h : Wake.Step d me chan w op w' d') (n : Nat) :
    d'.locked n = d.locked n ∧ d'.holder n = d.holder n := by
  cases h <;> exact ⟨rfl, rfl⟩

theorem Line.Step.locks {v : Option Line} (h : Line.Step d x line op v d') (n : Nat) :
    d'.locked n = d.locked n ∧ d'.holder n = d.holder n ∨ Acquires d (.run x line) d' x n ∨
      Releases d (.run x line) d' x n := by
  have hother : ∀ {α : Type} (f : Nat → α) (m : Nat) (a : α), n ≠ m → update f m a n = f n :=
    fun f m a hn => update_of_ne hn a f
  cases h with
  | wakeup w w' chan ret op d' h => exact .inl (h.locks n)
  | lockFree m hs hfree =>
    by_cases hn : n = m
    · subst hn
      exact .inr (.inl ⟨⟨hs, rfl⟩, hfree, rfl⟩)
    · exact .inl ⟨hother _ m _ hn, hother _ m _ hn⟩
  | unlockSet m hs =>
    by_cases hn : n = m
    · subst hn
      exact .inr (.inr ⟨⟨hs, rfl⟩, rfl⟩)
    · exact .inl ⟨hother _ m _ hn, hother _ m _ hn⟩
  | _ => exact .inl ⟨rfl, rfl⟩

/-- A sleep-lock changes only when its holder takes it or gives it back. -/
theorem Loc.Step.locks (h : Loc.Step d l op l' d') (n : Nat) :
    d'.locked n = d.locked n ∧ d'.holder n = d.holder n ∨ ∃ x, Acquires d l d' x n ∨
      Releases d l d' x n := by
  cases h with
  | intr p w w' chan op d' h => exact .inl (h.locks n)
  | run x line line' op d' h => exact (h.locks n).imp_right fun h => ⟨x, h⟩
  | _ => exact .inl ⟨rfl, rfl⟩

/-! ### The holders -/

/-- What the live threads hold is locked by them, and what is locked is held by a live thread. -/
structure HeldInv (s : State κ) : Prop where
  life : LifeInv s
  held : ∀ x line n, (places s).At x line → alive (s.data.threadState x) → n ∈ line.hs →
    s.data.locked n = true ∧ s.data.holder n = some x
  holder : ∀ n, s.data.locked n = true → ∃ x, s.data.holder n = some x ∧
    alive (s.data.threadState x) ∧ ∀ line, (places s).At x line → n ∈ line.hs

/-- A sleep-lock of a live thread stays locked by it. -/
theorem HeldInv.keep (h : HeldInv s) (hstep : Stepped s s' c) (hat : (places s).At x line)
    (halive : alive (s.data.threadState x)) (hn : n ∈ line.hs) :
    s'.data.locked n = true ∧ s'.data.holder n = some x ∨
      Releases s.data (s.loc c) s'.data x n := by
  obtain ⟨hlocked, hholder⟩ := h.held x line n hat halive hn
  obtain ⟨op, hinstr⟩ := hstep.instr
  obtain ⟨hl, hh⟩ | ⟨z, hacquires | hreleases⟩ := hinstr.locks n
  · exact .inl ⟨hl.trans hlocked, hh.trans hholder⟩
  · exact nomatch hacquires.free.symm.trans hlocked
  -- the thread that releases the lock holds it
  obtain ⟨hs, hz⟩ := hreleases.loc
  have hzalive := h.life.alive_at hz rfl
  have hzn : n ∈ (Line.unlockSet n hs).hs := mem_insert_self n hs
  have hzholder := (h.held z _ n (Placement.at_of_on (on_of_loc hz)) hzalive hzn).2
  obtain rfl := Option.some.inj (hzholder.symm.trans hholder)
  exact .inr hreleases

/-- The sleep-locks that a live thread has taken are locked by it. -/
theorem HeldInv.held_step (h : HeldInv s) (hstep : Stepped s s' c) (hat : (places s').At x line')
    (halive : alive (s'.data.threadState x)) (hn : n ∈ line'.hs) :
    s'.data.locked n = true ∧ s'.data.holder n = some x := by
  cases h.life.arrived hstep hat with
  | go line op loc step =>
    have hold := h.life.alive_of_run hstep loc halive
    obtain hsame | ⟨-, hacquires⟩ | ⟨hnot, -⟩ := step.hs n
    · obtain hkeep | hreleases :=
        h.keep hstep (Placement.at_of_on (on_of_loc loc)) hold (hsame.mp hn)
      · exact hkeep
      · obtain ⟨hs, hloc⟩ := hreleases.loc
        obtain ⟨-, rfl⟩ := Loc.run.inj (loc.symm.trans hloc)
        generalize s'.data = d' at step
        cases step
        exact absurd hn (notMem_erase n hs)
    · rw [hacquires.table, Table.lock]
      exact ⟨update_self _ _ _, update_self _ _ _⟩
    · exact absurd hn hnot
  | leave line context loc saved place table =>
    rw [place, hs_saved saved] at hn
    have hold := h.life.alive_of_run hstep loc halive
    have hheld := h.held x line n (Placement.at_of_on (on_of_loc loc)) hold hn
    rw [table]
    exact hheld
  | stay off place live =>
    obtain hkeep | hreleases := h.keep hstep place (live halive) hn
    · exact hkeep
    · obtain ⟨hs, hloc⟩ := hreleases.loc
      exact absurd hloc (off _)
  | fresh main allocs place =>
    rw [place] at hn
    exact absurd hn (notMem_empty n)

/-- A sleep-lock that is locked has a live holder. -/
theorem HeldInv.holder_step (h : HeldInv s) (hstep : Stepped s s' c) {ch : Choice}
    (hok : MarksOnly (fun line => line.hs = ∅) s (c, ch)) (hn : s'.data.locked n = true) :
    ∃ x, s'.data.holder n = some x ∧ alive (s'.data.threadState x) ∧
      ∀ line, (places s').At x line → n ∈ line.hs := by
  obtain ⟨op, hinstr⟩ := hstep.instr
  obtain ⟨hl, hh⟩ | ⟨x, hacquires | hreleases⟩ := hinstr.locks n
  · rw [hl] at hn
    obtain ⟨x, hholder, halive, hplace⟩ := h.holder n hn
    obtain ⟨line, hat⟩ := (places s).exists_at x
    have hline := hplace line hat
    refine ⟨x, hh.trans hholder, ?_, fun line' hat' => ?_⟩
    · refine h.life.alive_step hstep hok (fun _ => rfl) rfl hat halive ?_
      exact ne_empty_of_mem hline
    obtain ⟨op, loc, step⟩ | ⟨context, saved, rfl⟩ | ⟨-, rfl⟩ := h.life.goes hstep hat halive hat'
    · obtain hsame | ⟨hn', -⟩ | ⟨-, hreleases⟩ := step.hs n
      · exact hsame.mpr hline
      · exact hn'
      · rw [hreleases.table, Table.unlock] at hl
        dsimp only at hl
        rw [update_self] at hl
        exact nomatch hl.trans hn
    · rw [hs_saved saved]
      exact hline
    · exact hline
  · obtain ⟨hs, hloc⟩ := hacquires.loc
    have halive := h.life.alive_at hloc rfl
    refine ⟨x, ?_, ?_, fun line' hat' => ?_⟩
    · rw [hacquires.table]
      exact update_self _ _ _
    · rw [hacquires.table]
      exact halive
    have hat : (places s).At x _ := Placement.at_of_on (on_of_loc hloc)
    obtain ⟨op, -, step⟩ | ⟨context, saved, -⟩ | ⟨off, -⟩ := h.life.goes hstep hat halive hat'
    · generalize hd' : s'.data = d' at step
      cases step with
      | lockBusy =>
        rw [hd', hacquires.free] at hn
        cases hn
      | lockFree => exact mem_insert_self n hs
    · cases saved
    · exact absurd hloc (off _)
  · rw [hreleases.table, Table.unlock] at hn
    dsimp only at hn
    rw [update_self] at hn
    cases hn

/-- One step keeps this, if `exit` marks no sibling with a sleep-lock. -/
theorem HeldInv.step [DecidableEq κ] (h : HeldInv s) {a : κ × Choice}
    (hok : MarksOnly (fun line => line.hs = ∅) s a)
    (hmachine : lifeCode.machine.step s a = some s') : HeldInv s' where
  life := h.life.step hok.still hmachine
  held _ _ _ hat halive hn := h.held_step (stepped hmachine) hat halive hn
  holder _ hn := h.holder_step (stepped hmachine) hok hn

theorem Start.heldInv (h : Start s) : HeldInv s := by
  refine ⟨h.lifeInv, fun x line n hat halive hn => ?_, fun n hn => ?_⟩
  · rw [h.at_eq hat] at hn
    exact absurd hn (notMem_empty n)
  · rw [h.locked n] at hn
    cases hn

/-- **No orphaned sleep-locks**: in every run in which `exit` marks siblings only while they are
still and hold no sleep-lock, a sleep-lock that is locked was acquired by a live thread. -/
theorem sleeplocks_alive [DecidableEq κ] (s₀ s : State κ) (as : List (κ × Choice)) (h₀ : Start s₀)
    (hok : lifeCode.machine.Meets (MarksOnly fun line => line.hs = ∅) s₀ as)
    (hrun : lifeCode.machine.run s₀ as = some s) : NoOrphan s := by
  have hinv : HeldInv s := Machine.invariant_of_meets _
    (fun s a s' h hok hstep => h.step hok hstep) as s₀ s h₀.heldInv hok hrun
  intro n hn
  obtain ⟨x, hholder, halive, -⟩ := hinv.holder n hn
  exact ⟨x, hholder, halive⟩

/-! ### Two runs -/

def initLocks : List (Unit × Choice) :=
  nexts 4 ++ calls [.fs, .lock 0] ++ nexts 3 ++ calls [.block 0 (.other 0)] ++ nexts 14 ++
    nexts 4 ++ [((), .timer)] ++ nexts 11

/-- The first thread sleeps in the file system, after `before`, and the second one calls `exit`. -/
def siblingExits (before : List (Unit × Choice)) : List (Unit × Choice) :=
  nexts 4 ++ calls [.fs] ++ before ++ calls [.block 1 (.other 1)] ++ nexts 9 ++ calls [.fs, .exit]

theorem blockedFree_marked : Start family ∧ ∃ s,
    lifeCode.machine.Reaches (MarksOnly fun line => line.hs = ∅) family s ∧
      s.data.threadState (2, 0) = .zombie ∧ s.data.locked 0 = true ∧ NoOrphan s := by
  have hmeets : lifeCode.machine.Meets (MarksOnly fun line => line.hs = ∅) family
      (initLocks ++ siblingExits []) := by decide +kernel
  obtain ⟨s, hrun, hs⟩ := (Option.any_eq_true _ _).mp (show
    (lifeCode.machine.run family (initLocks ++ siblingExits [])).any (fun s =>
      CanExit s () (2, 1) ∧ s.data.locked 0 = true ∧
        MarksOnly (fun line => line.hs = ∅) (marking s () (2, 1)) ((), .next)) = true by
          decide +kernel)
  obtain ⟨hexit, hlocked, hmark⟩ := of_decide_eq_true hs
  have hbefore : lifeCode.machine.Reaches (MarksOnly fun line => line.hs = ∅) family s :=
    ⟨_, hmeets, hrun⟩
  have hmarked := hexit.markedOne (fun s _ _ h => marksOnly_goto s h)
    (fun _ => marksOnly_goto _ nofun) hmark
  obtain ⟨as, hok, hrun⟩ := hbefore.trans hmarked
  exact ⟨family_start, _, ⟨as, hok, hrun⟩, markedOne_state s () (2, 1), hlocked,
    sleeplocks_alive family _ as family_start hok hrun⟩

/-- `exit` marks a thread that sleeps with sleep-lock 1. -/
theorem blockedHolder_orphan : Start family ∧ ∃ s,
    lifeCode.machine.Reaches (fun _ _ => True) family s ∧ s.data.locked 1 = true ∧
      s.data.holder 1 = some (2, 0) ∧ s.data.threadState (2, 0) = .zombie ∧ ¬ NoOrphan s := by
  obtain ⟨s, hrun, hs⟩ := (Option.any_eq_true _ _).mp (show
    (lifeCode.machine.run family (initLocks ++ siblingExits (calls [.lock 1] ++ nexts 3))).any
      (fun s => CanExit s () (2, 1) ∧ s.data.locked 1 = true ∧ s.data.holder 1 = some (2, 0)) =
        true by decide +kernel)
  obtain ⟨hexit, hlocked, hholder⟩ := of_decide_eq_true hs
  have hbefore : lifeCode.machine.Reaches (fun _ _ => True) family s :=
    ⟨_, lifeCode.machine.meets_true _ _, hrun⟩
  have hmarked : lifeCode.machine.Reaches (fun _ _ => True) s (markedOne s () (2, 1)) :=
    hexit.markedOne (fun _ _ _ _ => trivial) (fun _ => trivial) trivial
  have hzombie := markedOne_state s () (2, 1)
  refine ⟨family_start, _, hbefore.trans hmarked, hlocked, hholder, hzombie, fun h => ?_⟩
  obtain ⟨x, hx, halive⟩ := h 1 hlocked
  obtain rfl := Option.some.inj (hholder.symm.trans hx)
  exact halive.2 hzombie

end Xv6.Life
