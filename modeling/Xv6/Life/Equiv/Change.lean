import Xv6.Life.Equiv.Step

/-!
# What an instruction stores, and what the CPUs rely on

`Loc.Change`: what an instruction does to the states of processes and threads. `Loc.Ok`: what a CPU
relies on, the state of a thread that it has tested and that of the thread it runs, as its phase
says. It is so after an instruction of the CPU itself (`Loc.Step.ok`), and of another one
(`Loc.Change.other`) that does not mark a thread that is `RUNNING` or that the CPU has tested.
-/

namespace Xv6.Life

open Lib Function

/-! ### What a CPU relies on -/

/-- A thread in `exit`, which has marked the first `k` threads, or on its way to the scheduler. -/
inductive Phase where
  | marked (k : Nat)
  | leaving
  | dead

def Ret.phase : Ret → Phase
  | .marked l => .marked (l.val + 1)
  | _ => .marked 0

def Line.phase : Line → Phase
  | .wakeup _ _ ret => ret.phase
  | .mark l => .marked l.val
  | .exitLock | .zombie => .marked nthread
  | .exitUnlock | .exitSched => .dead
  | .sleepSched _ | .yieldSched _ => .leaving
  | _ => .marked 0

/-- The thread is not `RUNNING`, but may be woken up or run. -/
def waiting (state : ProcState) : Prop := state = .sleeping ∨ state = .runnable

/-- What the states are in each phase of thread `x`. -/
def Phase.Ok (d : Table) (x : Slot) : Phase → Prop
  | .marked k => alive (d.procState x.1) ∧ (∀ i : Fin nthread, i.val < k →
      d.threadState (x.1, i) = .zombie) ∧ (k ≤ x.2.val → d.threadState x = .running)
  | .leaving => alive (d.procState x.1) ∧ (waiting (d.threadState x) ∨ d.threadState x = .zombie)
  | .dead => d.procState x.1 = .zombie

/-- The lines of `exit` behind the test for `initproc`. -/
def Ret.exits : Ret → Prop
  | .reparent _ | .parent | .marked _ => True
  | _ => False

@[inherit_doc Ret.exits]
def Line.exits : Line → Prop
  | .wakeup _ _ ret => ret.exits
  | .reparent _ | .wakeParent | .mark _ | .exitLock | .zombie => True
  | _ => False

/-- The process that `wait` is about to free. -/
def Line.reaping : Line → Option (Fin nproc)
  | .waitFree k => some k
  | _ => none

/-- What the table says while a CPU is at a location. -/
structure Loc.Ok (d : Table) (l : Loc) : Prop where
  tested : ∀ y, l.tested = some y → waiting (d.threadState y)
  phase : ∀ x line, l.thread = some (x, line) → line.phase.Ok d x
  exits : ∀ x line, l.thread = some (x, line) → line.exits → x.1 ≠ initproc
  reaping : ∀ x line k, l.thread = some (x, line) → line.reaping = some k → d.procState k = .zombie

/-- All threads of a dead process are dead, and a free slot has none. -/
structure Table.Ok (d : Table) : Prop where
  zombie : ∀ p, d.procState p = .zombie → ∀ i, d.threadState (p, i) = .zombie
  unused : ∀ p, d.procState p = .unused → ∀ i, d.threadState (p, i) = .unused
  init : alive (d.procState initproc)

/-- The process that a thread is making, from `allocproc` until its main thread is `RUNNABLE`. -/
def Entry.making : Entry → Option (Fin nproc)
  | .link k | .start k => some k
  | _ => none

@[inherit_doc Entry.making]
def Line.making : Line → Option (Fin nproc)
  | .out e | .wakeup _ _ (.resume e) | .yieldLock e | .yieldState e | .yieldSched e | .yielded e =>
    e.making
  | .setup k | .setupUnlock k | .setParent k | .linkUnlock k | .startState k => some k
  | _ => none

/-- A process that cannot run yet. -/
structure Embryo (d : Table) (k : Fin nproc) : Prop where
  ne_init : k ≠ initproc
  proc : alive (d.procState k)
  main : d.threadState (k, 0) = .used
  others : ∀ i, i ≠ 0 → d.threadState (k, i) = .unused
  context : d.context (k, 0) = .forkret

/-! ### Where a thread goes on, and the scheduler -/

section Next

variable {c : Saved} {p : Fin nproc} {l : Fin nthread}

theorem phase_saved : c.line.phase = .marked 0 := by
  cases c <;> rfl

theorem not_exits_saved : ¬ c.line.exits := by
  cases c <;> exact id

theorem reaping_saved : c.line.reaping = none := by
  cases c <;> rfl

theorem tested_saved {x : Slot} : (Loc.run x c.line).tested = none := by
  cases c <;> rfl

theorem tested_lookNext : (Loc.lookNext p l).tested = none := by
  unfold Loc.lookNext
  split_ifs <;> rfl

theorem thread_lookNext : (Loc.lookNext p l).thread = none := by
  unfold Loc.lookNext
  split_ifs <;> rfl

end Next

/-! ### Tables that agree on a process -/

/-- The two tables agree on process `p` and its threads. -/
structure Table.Agrees (d d' : Table) (p : Fin nproc) : Prop where
  proc : d'.procState p = d.procState p
  thread : ∀ i, d'.threadState (p, i) = d.threadState (p, i)
  context : ∀ i, d'.context (p, i) = d.context (p, i)

/-- A thread that waits is neither new, free, dead nor running. -/
theorem waiting.ne {state : ProcState} (h : waiting state) :
    state ≠ .used ∧ state ≠ .unused ∧ state ≠ .zombie ∧ state ≠ .running := by
  obtain rfl | rfl := h <;> decide

section Agrees

variable {d d' : Table} {x y : Slot} {p k : Fin nproc} {ph : Phase} {state : ProcState}

theorem setThreadState_apply (d : Table) (x y : Slot) (state : ProcState) :
    (d.setThreadState x state).threadState y = if y = x then state else d.threadState y :=
  update_apply d.threadState x state y

theorem Table.Agrees.setThreadState (h : p ≠ x.1) : d.Agrees (d.setThreadState x state) p where
  proc := rfl
  thread i := by
    rw [setThreadState_apply, if_neg]
    rintro rfl
    exact h rfl
  context _ := rfl

theorem Table.Agrees.setProcState (h : p ≠ k) : d.Agrees (d.setProcState k state) p where
  proc := update_of_ne h _ _
  thread _ := rfl
  context _ := rfl

theorem Table.Agrees.free (h : p ≠ k) : d.Agrees (d.free k) p where
  proc := update_of_ne h _ _
  thread _ := if_neg h
  context _ := rfl

theorem Table.Agrees.alloc {q : Fin nproc} (h : p ≠ k) : d.Agrees (d.alloc q k) p where
  proc := update_of_ne h _ _
  thread _ := update_of_ne (fun hx => h (congrArg Prod.fst hx)) _ _
  context _ := update_of_ne (fun hx => h (congrArg Prod.fst hx)) _ _

theorem Table.Agrees.allocFail (h : p ≠ k) : d.Agrees (d.allocFail k) p where
  proc := update_of_ne h _ _
  thread _ := update_of_ne (fun hx => h (congrArg Prod.fst hx)) _ _
  context _ := rfl

theorem setProcState_self : (d.setProcState k state).procState k = state := update_self _ _ _

theorem free_self : (d.free k).procState k = .unused := update_self _ _ _

theorem alloc_self {q : Fin nproc} : (d.alloc q k).procState k = .used := update_self _ _ _

theorem allocFail_self : (d.allocFail k).procState k = .unused := update_self _ _ _

/-- The phase of a thread depends on its own process only. -/
theorem Phase.Ok.of_agrees (h : ph.Ok d x) (hag : d.Agrees d' x.1) : ph.Ok d' x := by
  have hstate := hag.thread x.2
  cases ph with
  | marked =>
    refine ⟨?_, fun i hi => ?_, fun hn => ?_⟩
    · rw [hag.proc]
      exact h.1
    · rw [hag.thread i]
      exact h.2.1 i hi
    · exact hstate.trans (h.2.2 hn)
  | leaving =>
    refine ⟨?_, ?_⟩
    · rw [hag.proc]
      exact h.1
    · exact hstate ▸ h.2
  | dead => exact hag.proc.trans h

/-- A process with a thread on a CPU is in use. -/
theorem Phase.Ok.ne_unused (h : ph.Ok d x) : d.procState x.1 ≠ .unused := by
  cases ph with
  | marked | leaving => exact h.1.1
  | dead =>
    intro hp
    exact nomatch hp.symm.trans h

theorem Embryo.of_agrees (h : Embryo d k) (hag : d.Agrees d' k) : Embryo d' k where
  ne_init := h.ne_init
  proc := by
    rw [hag.proc]
    exact h.proc
  main := (hag.thread 0).trans h.main
  others i hi := (hag.thread i).trans (h.others i hi)
  context := (hag.context 0).trans h.context

/-- A thread that has started is not of the process that is being made. -/
theorem Embryo.ne (h : Embryo d k) (hused : d.threadState x ≠ .used)
    (hunused : d.threadState x ≠ .unused) : x.1 ≠ k := by
  rintro rfl
  by_cases hx : x.2 = 0
  · have hmain := h.main
    rw [← hx] at hmain
    exact hused hmain
  · exact hunused (h.others x.2 hx)

theorem Embryo.ne_of_waiting (h : Embryo d k) (hx : waiting (d.threadState x)) : x.1 ≠ k :=
  h.ne hx.ne.1 hx.ne.2.1

/-- A process that is being made is not on a CPU. -/
theorem Embryo.ne_of_phase (h : Embryo d k) (hph : ph.Ok d x) : x.1 ≠ k := by
  have hzombie : d.threadState x = .zombie → x.1 ≠ k := by
    intro hx
    exact h.ne (by simp [hx]) (by simp [hx])
  cases ph with
  | marked n =>
    by_cases hn : n ≤ x.2.val
    · have hrun := hph.2.2 hn
      exact h.ne (by simp [hrun]) (by simp [hrun])
    · exact hzombie (hph.2.1 x.2 (not_le.mp hn))
  | leaving =>
    obtain hx | hx := hph.2
    · exact h.ne_of_waiting hx
    · exact hzombie hx
  | dead =>
    rintro rfl
    exact h.proc.2 hph

end Agrees

/-! ### What a CPU relies on after its own instruction -/

section Own

variable {d d' : Table} {x y : Slot} {line line' : Line} {l l' : Loc} {op : LockOp LockId}
  {k : Fin nproc}

theorem Wake.Step.tested {me : Option Slot} {chan : Option Chan} {w w' : Wake}
    (h : Wake.Step d me chan w op w' d') (hy : w'.tested = some y) :
    waiting (d'.threadState y) := by
  cases h with
  | test k i hcond =>
    cases hy
    exact .inl hcond.2.1
  | _ => cases hy

section

variable (h : Line.Step d x line op (some line') d')

include h

/-- Who is about to store a thread's state has just seen that it waits. -/
theorem Line.Step.tested
    (hy : (Loc.run x line').tested = some y) : waiting (d'.threadState y) := by
  cases h with
  | wakeup w w' chan ret op d' h => exact h.tested hy
  | killSleeps k i h =>
    cases hy
    exact .inl h
  | _ => cases hy

/-- `wait` has just seen that the process is `ZOMBIE`. -/
theorem Line.Step.reaping
    (hk : line'.reaping = some k) : d'.procState k = .zombie := by
  cases h with
  | waitZombie k' h =>
    cases hk
    exact h
  | _ => cases hk

/-- `initproc` does not come behind its test in `exit`. -/
theorem Line.Step.exits
    (hline : line.exits → x.1 ≠ initproc) (hexits : line'.exits) : x.1 ≠ initproc := by
  cases h with
  | enterExit h => exact h
  | wakeup => exact hline hexits
  | wokenReparent | wokenReparentLast | wokenParent | wokenMark | wokenMarkLast | reparent
  | reparentSkip | reparentSkipLast | wakeParent | mark | exitLock => exact hline trivial
  | _ => exact hexits.elim

end

/-- `wakeup` and the scheduler store to the state of a waiting thread. -/
theorem Phase.Ok.setWaiting {n : Nat} {state : ProcState} (h : (Phase.marked n).Ok d x)
    (hy : waiting (d.threadState y)) : (Phase.marked n).Ok (d.setThreadState y state) x := by
  refine ⟨h.1, fun i hi => ?_, fun hn => ?_⟩
  · rw [setThreadState_apply, if_neg]
    · exact h.2.1 i hi
    · rintro rfl
      exact hy.ne.2.2.1 (h.2.1 i hi)
  · rw [setThreadState_apply, if_neg]
    · exact h.2.2 hn
    · rintro rfl
      exact hy.ne.2.2.2 (h.2.2 hn)

theorem Ret.phase_eq (ret : Ret) : ∃ n, ret.phase = .marked n := by
  cases ret <;> exact ⟨_, rfl⟩

/-- An instruction takes a thread from one phase to the next, with what the phase says. -/
theorem Line.Step.phase (h : Line.Step d x line op (some line') d') (hok : (Loc.run x line).Ok d)
    (hmaking : ∀ k, line.phase = .marked 0 → line.making = some k → Embryo d k) :
    line'.phase.Ok d' x := by
  have hph := hok.phase x line rfl
  cases h with
  | wakeup w w' chan ret op d' h =>
    cases h with
    | set k i | setLast k i =>
      obtain ⟨n, hn⟩ := ret.phase_eq
      have hret : ret.phase.Ok d x := hph
      rw [hn] at hret
      show ret.phase.Ok _ x
      rw [hn]
      exact hret.setWaiting (hok.tested (k, i) rfl)
    | _ => exact hph
  | wokenMark q hq chan i i' hi =>
    show (Phase.marked i'.val).Ok d x
    rw [hi]
    exact hph
  | wokenMarkLast q hq chan i hi =>
    show (Phase.marked nthread).Ok d x
    rw [← hi]
    exact hph
  | mark i =>
    refine ⟨hph.1, fun a ha => ?_, fun ha => ?_⟩
    · rw [setThreadState_apply]
      split_ifs with hcond
      · rfl
      · have hne : a ≠ i := fun hai => hcond (by rw [hai])
        have hlt : a.val < i.val := by
          have := Fin.val_ne_of_ne hne
          omega
        exact hph.2.1 a hlt
    · have hle : i.val ≤ x.2.val := by omega
      rw [setThreadState_apply, if_neg]
      · exact hph.2.2 hle
      · intro hx
        have hval : x.2 = i := congrArg Prod.snd hx
        rw [hval] at ha
        omega
  | killSet k i | killSetLast k i => exact Phase.Ok.setWaiting hph (hok.tested (k, i) rfl)
  | zombie => exact update_self _ _ _
  | waitFree =>
    refine hph.of_agrees (.free ?_)
    rintro rfl
    exact hph.1.2 (hok.reaping x _ x.1 rfl rfl)
  | allocFound k hk =>
    refine hph.of_agrees (.alloc ?_)
    rintro rfl
    exact hph.1.1 hk
  | setupFail k => exact hph.of_agrees (.allocFail ((hmaking k rfl rfl).ne_of_phase hph))
  | startState k =>
    exact hph.of_agrees (.setThreadState ((hmaking k rfl rfl).ne_of_phase hph))
  | sleepState => exact ⟨hph.1, .inl (.inl (update_self _ _ _))⟩
  | yieldState => exact ⟨hph.1, .inl (.inr (update_self _ _ _))⟩
  | _ => exact hph

/-- A CPU without a thread only owes what it has tested. -/
theorem Loc.Ok.of_idle (hthread : l.thread = none)
    (htested : ∀ y, l.tested = some y → waiting (d.threadState y)) : l.Ok d := by
  have hnone : ∀ x line, l.thread ≠ some (x, line) := by
    intro x line hx
    rw [hthread] at hx
    cases hx
  refine ⟨htested, ?_, ?_, ?_⟩
  · exact fun x line hx => absurd hx (hnone x line)
  · exact fun x line hx => absurd hx (hnone x line)
  · exact fun x line k hx => absurd hx (hnone x line)

/-- **What a CPU relies on after its own instruction.** -/
theorem Loc.Step.ok (h : Loc.Step d l op l' d') (hok : l.Ok d) (hd : d.Ok)
    (hmaking : ∀ x line k, l = .run x line → line.phase = .marked 0 → line.making = some k →
      Embryo d k) : l'.Ok d' := by
  cases h with
  | scan | interrupt | unlock | intrDone => exact .of_idle rfl nofun
  | lookFound p j hstate =>
    refine .of_idle rfl fun y hy => ?_
    cases hy
    exact .inr hstate
  | lookSkip | leave =>
    refine .of_idle thread_lookNext fun y hy => ?_
    rw [tested_lookNext] at hy
    cases hy
  | set p j =>
    have hwait := hok.tested (p, j) rfl
    have halive : alive (d.procState p) := by
      refine ⟨fun hp => hwait.ne.2.1 (hd.unused p hp j), fun hp => hwait.ne.2.2.1 (hd.zombie p hp j)⟩
    refine ⟨fun y hy => ?_, ?_, ?_, ?_⟩
    · rw [tested_saved] at hy
      cases hy
    · rintro x line hx
      cases hx
      rw [phase_saved]
      exact ⟨halive, nofun, fun _ => update_self _ _ _⟩
    · rintro x line hx hexits
      cases hx
      exact absurd hexits not_exits_saved
    · rintro x line k hx hk
      cases hx
      rw [reaping_saved] at hk
      cases hk
  | intr p w w' chan op d' h => exact .of_idle rfl fun y hy => h.tested hy
  | run x line line' op d' h =>
    refine ⟨fun y hy => h.tested hy, ?_, ?_, ?_⟩
    · rintro x' line'' hx
      cases hx
      exact h.phase hok fun k => hmaking x line k rfl
    · rintro x' line'' hx hexits
      cases hx
      exact h.exits (hok.exits x line rfl) hexits
    · rintro x' line'' k hx hk
      cases hx
      exact h.reaping hk

end Own

/-! ### What an instruction stores -/

/-- What an instruction does to the states of processes and threads. -/
inductive Loc.Change (d : Table) (l : Loc) (d' : Table) : Prop where
  | same (agrees : ∀ p, d.Agrees d' p)
  | wake (y : Slot) (state : ProcState) (tested : l.tested = some y)
      (state_eq : state = .runnable ∨ state = .running) (table : d' = d.setThreadState y state)
  | rest (x : Slot) (line : Line) (state : ProcState) (loc : l = .run x line)
      (phase : line.phase = .marked 0) (state_eq : waiting state)
      (agrees : ∀ p, (d.setThreadState x state).Agrees d' p)
  | save (x : Slot) (line : Line) (context : Saved) (loc : l = .run x line)
      (saved : line.saved = some context) (table : d' = d.save x context)
  | mark (x : Slot) (i : Fin nthread) (loc : l = .run x (.mark i))
      (table : d' = d.setThreadState (x.1, i) .zombie)
  | die (x : Slot) (loc : l = .run x .zombie) (table : d' = d.setProcState x.1 .zombie)
  | free (x : Slot) (k : Fin nproc) (loc : l = .run x (.waitFree k)) (table : d' = d.free k)
  | alloc (x : Slot) (k : Fin nproc) (loc : l = .run x (.allocTest k))
      (unused : d.procState k = .unused) (table : d' = d.alloc x.1 k)
  | fail (x : Slot) (k : Fin nproc) (loc : l = .run x (.setup k)) (table : d' = d.allocFail k)
  | start (x : Slot) (k : Fin nproc) (loc : l = .run x (.startState k))
      (table : d' = d.setThreadState (k, 0) .runnable)

section Change

variable {d d' : Table} {x y : Slot} {l l' : Loc} {op : LockOp LockId} {k : Fin nproc}

theorem Wake.Step.change {me : Option Slot} {chan : Option Chan} {w w' : Wake}
    (h : Wake.Step d me chan w op w' d') (hl : ∀ y, w.tested = some y → l.tested = some y) :
    l.Change d d' := by
  cases h with
  | set k i | setLast k i => exact .wake (k, i) .runnable (hl _ rfl) (.inl rfl) rfl
  | _ => exact .same fun p => ⟨rfl, fun _ => rfl, fun _ => rfl⟩

variable {line : Line}

/-- Every instruction of a thread is one of the changes. -/
theorem Line.Step.change {v : Option Line} (h : Line.Step d x line op v d') :
    (Loc.run x line).Change d d' := by
  cases h with
  | wakeup w w' chan ret op d' h => exact h.change fun _ => id
  | killSet k i | killSetLast k i => exact .wake (k, i) .runnable rfl (.inl rfl) rfl
  | mark i => exact .mark x i rfl rfl
  | zombie => exact .die x rfl rfl
  | sched line context hsaved => exact .save x line context rfl hsaved rfl
  | waitFree k => exact .free x k rfl rfl
  | allocFound k hk => exact .alloc x k rfl hk rfl
  | setupFail k => exact .fail x k rfl rfl
  | startState k => exact .start x k rfl rfl
  | sleepState =>
    exact .rest x _ .sleeping rfl rfl (.inl rfl) fun p => ⟨rfl, fun _ => rfl, fun _ => rfl⟩
  | yieldState =>
    exact .rest x _ .runnable rfl rfl (.inr rfl) fun p => ⟨rfl, fun _ => rfl, fun _ => rfl⟩
  | _ => exact .same fun p => ⟨rfl, fun _ => rfl, fun _ => rfl⟩

/-- Every instruction of a CPU is one of the changes. -/
theorem Loc.Step.change (h : Loc.Step d l op l' d') : l.Change d d' := by
  cases h with
  | set p j => exact .wake (p, j) .running rfl (.inr rfl) rfl
  | intr p w w' chan op d' h => exact h.change fun _ => id
  | run x line line' op d' h => exact h.change
  | leave x line context hsaved => exact .save x line context rfl hsaved rfl
  | _ => exact .same fun p => ⟨rfl, fun _ => rfl, fun _ => rfl⟩

/-! What a CPU holds. -/

/-- A thread's state is stored to with the lock of its process. -/
theorem Loc.held_of_tested (h : l.tested = some y) : l.held (.proc y.1) := by
  have hwake : ∀ w : Wake, w.tested = some y → w.held (.proc y.1) := by
    intro w hw
    cases w with
    | set =>
      cases hw
      rfl
    | _ => cases hw
  cases l with
  | set =>
    cases h
    rfl
  | intr p w => exact hwake w h
  | run x line =>
    cases line with
    | wakeup w => exact .inr (hwake w h)
    | killSet =>
      cases h
      rfl
    | _ => cases h
  | _ => cases h

/-- A thread that is about to leave its CPU holds the lock of its process, and one that has marked
another thread holds `wait_lock`. -/
theorem Line.held_of_phase (line : Line) (p : Fin nproc) :
    match line.phase with
    | .leaving | .dead => line.held p (.proc p)
    | .marked n => 0 < n → line.held p .wait := by
  cases line with
  | wakeup w chan ret =>
    cases ret with
    | marked => exact fun _ => .inl rfl
    | _ => exact fun hpos => absurd hpos (lt_irrefl 0)
  | mark | exitLock => exact fun _ => rfl
  | zombie => exact fun _ => .inl rfl
  | exitUnlock => exact .inr rfl
  | exitSched | sleepSched | yieldSched => exact rfl
  | _ => exact fun hpos => absurd hpos (lt_irrefl 0)

/-- `wait` frees a process with `wait_lock` and the lock of the process. -/
theorem Line.held_of_reaping {p : Fin nproc} (h : line.reaping = some k) :
    line.held p .wait ∧ line.held p (.proc k) := by
  cases line with
  | waitFree =>
    cases h
    exact ⟨.inl rfl, .inr rfl⟩
  | _ => cases h

theorem eq_run (h : l.thread = some (x, line)) : l = .run x line := by
  cases l with
  | run =>
    cases h
    rfl
  | _ => cases h

/-! What a CPU relies on when another one stores to the table. -/

/-- A process changes that the CPU has nothing to do with. -/
theorem Loc.Ok.frame (h : l.Ok d) (hag : ∀ p, p ≠ k → d.Agrees d' p)
    (htested : ∀ y, l.tested = some y → y.1 ≠ k)
    (hthread : ∀ x line, l.thread = some (x, line) → x.1 ≠ k)
    (hreaping : ∀ x line q, l.thread = some (x, line) → line.reaping = some q → q ≠ k) :
    l.Ok d' where
  tested y hy := by
    have hstate := (hag y.1 (htested y hy)).thread y.2
    exact hstate ▸ h.tested y hy
  phase x line hx := (h.phase x line hx).of_agrees (hag x.1 (hthread x line hx))
  exits := h.exits
  reaping x line q hx hq := by
    rw [(hag q (hreaping x line q hx hq)).proc]
    exact h.reaping x line q hx hq

theorem Loc.Ok.of_agrees (h : l.Ok d) (hag : ∀ p, d.Agrees d' p) : l.Ok d' where
  tested y hy := (hag y.1).thread y.2 ▸ h.tested y hy
  phase x line hx := (h.phase x line hx).of_agrees (hag x.1)
  exits := h.exits
  reaping x line q hx hq := by
    rw [(hag q).proc]
    exact h.reaping x line q hx hq

/-- The state of a thread changes that the CPU has not tested and does not run, or that `exit` marks
while the CPU does not rely on it. -/
theorem Loc.Ok.setState {state : ProcState} (h : l.Ok d)
    (hold : d.threadState y = .zombie → state = .zombie) (htested : l.tested ≠ some y)
    (hthread : ∀ line, l.thread = some (y, line) →
      state = .zombie ∧ ∀ n, line.phase = .marked n → y.2.val < n) :
    l.Ok (d.setThreadState y state) where
  tested z hz := by
    rw [setThreadState_apply, if_neg]
    · exact h.tested z hz
    · rintro rfl
      exact htested hz
  phase x line hx := by
    have hok := h.phase x line hx
    cases hph : line.phase with rw [hph] at hok
    | marked n =>
      refine ⟨hok.1, fun i hi => ?_, fun hn => ?_⟩
      · rw [setThreadState_apply]
        split_ifs with hcond
        · exact hold (hcond ▸ hok.2.1 i hi)
        · exact hok.2.1 i hi
      · rw [setThreadState_apply, if_neg]
        · exact hok.2.2 hn
        · rintro rfl
          have := (hthread line hx).2 n hph
          omega
    | leaving =>
      refine ⟨hok.1, ?_⟩
      rw [setThreadState_apply]
      split_ifs with hcond
      · subst hcond
        exact .inr (hthread line hx).1
      · exact hok.2
    | dead =>
      exact hok
  exits := h.exits
  reaping := h.reaping

/-- A waiting thread that another CPU has tested is on no CPU. -/
theorem Loc.Ok.ne_of_waiting (h : l.Ok d) (hy : waiting (d.threadState y))
    (hheld : ¬ l.held (.proc y.1)) (line : Line) : l.thread ≠ some (y, line) := by
  intro hthread
  obtain rfl := eq_run hthread
  have hok := h.phase y line rfl
  have hlock := line.held_of_phase y.1
  cases hph : line.phase with
  | marked n =>
    rw [hph] at hok
    by_cases hn : n ≤ y.2.val
    · exact hy.ne.2.2.2 (hok.2.2 hn)
    · exact hy.ne.2.2.1 (hok.2.1 y.2 (not_le.mp hn))
  | leaving | dead =>
    rw [hph] at hlock
    exact hheld hlock

/-- What is so of two CPUs before an instruction of the first one. -/
structure Loc.Apart (d : Table) (l l₂ : Loc) : Prop where
  locks : ∀ m, l.held m → ¬ l₂.held m
  threads : ∀ x line line₂, l.thread = some (x, line) → l₂.thread ≠ some (x, line₂)
  still : ∀ y, l.marks = some y → d.threadState y ≠ .running ∧ l₂.tested ≠ some y

section Other

variable {l₂ : Loc}

/-- Marking a sibling leaves alone what the other CPUs know. -/
theorem Loc.Ok.mark {i : Fin nthread} (hok₂ : l₂.Ok d) (hok : (Loc.run x (.mark i)).Ok d)
    (hap : Loc.Apart d (.run x (.mark i)) l₂) : l₂.Ok (d.setThreadState (x.1, i) .zombie) := by
  have hphase := hok.phase x _ rfl
  have hself : i = x.2 → d.threadState x = .running := by
    rintro rfl
    exact hphase.2.2 le_rfl
  refine hok₂.setState (fun _ => rfl) ?_ fun line hline => ⟨rfl, fun n hn => ?_⟩
  · by_cases hi : i = x.2
    · intro htested
      have hwait := hok₂.tested _ htested
      rw [hi] at hwait
      exact hwait.ne.2.2.2 (hself hi)
    · exact (hap.still (x.1, i) (if_neg hi)).2
  · have hi : i ≠ x.2 := by
      rintro rfl
      exact hap.threads x _ line rfl hline
    by_contra hlt
    have hrun := hok₂.phase _ line hline
    rw [hn] at hrun
    exact (hap.still (x.1, i) (if_neg hi)).1 (hrun.2.2 (not_lt.mp hlt))

/-- The store of `ZOMBIE` to the process leaves alone what the other CPUs know. -/
theorem Loc.Ok.die (hok₂ : l₂.Ok d) (hok : (Loc.run x .zombie).Ok d)
    (hap : Loc.Apart d (.run x .zombie) l₂) : l₂.Ok (d.setProcState x.1 .zombie) := by
  have hphase := hok.phase x _ rfl
  have hall : ∀ i, d.threadState (x.1, i) = .zombie := fun i => hphase.2.1 i i.isLt
  refine ⟨hok₂.tested, fun z line hz => ?_, hok₂.exits, fun z line q hz hq => ?_⟩
  · by_cases hzx : z.1 = x.1
    · obtain rfl := eq_run hz
      have hok := hok₂.phase z line rfl
      have hlock := line.held_of_phase z.1
      -- the other thread of the process would hold a lock that `exit` holds
      cases hph : line.phase with
      | marked n =>
        rw [hph] at hok hlock
        have hstate : d.threadState z = .zombie := by
          have := hall z.2
          rwa [← hzx] at this
        have hn : ¬ n ≤ z.2.val := by
          intro hn
          exact nomatch hstate.symm.trans (hok.2.2 hn)
        exact absurd (hlock (by omega)) (hap.locks .wait (.inl rfl))
      | leaving | dead =>
        rw [hph] at hlock
        exact absurd hlock (hap.locks (.proc z.1) (.inr (by rw [hzx])))
    · exact (hok₂.phase z line hz).of_agrees (.setProcState hzx)
  · show update d.procState x.1 .zombie q = .zombie
    rw [update_apply]
    split_ifs
    · rfl
    · exact hok₂.reaping z line q hz hq

/-- Freeing a process leaves alone what the other CPUs know. -/
theorem Loc.Ok.free (hok₂ : l₂.Ok d) (hok : (Loc.run x (.waitFree k)).Ok d) (hd : d.Ok)
    (hap : Loc.Apart d (.run x (.waitFree k)) l₂) : l₂.Ok (d.free k) := by
  have hk : d.procState k = .zombie := hok.reaping x _ k rfl rfl
  refine hok₂.frame (fun p hp => .free hp) ?_ ?_ ?_
  · rintro y hy rfl
    exact (hok₂.tested y hy).ne.2.2.1 (hd.zombie y.1 hk y.2)
  · rintro z line hz rfl
    obtain rfl := eq_run hz
    have hok := hok₂.phase z line rfl
    have hlock := line.held_of_phase z.1
    cases hph : line.phase with
    | marked | leaving =>
      rw [hph] at hok
      exact hok.1.2 hk
    | dead =>
      rw [hph] at hlock
      exact hap.locks (.proc z.1) (.inr rfl) hlock
  · rintro z line q hz hq
    obtain rfl := eq_run hz
    exact absurd (Line.held_of_reaping hq).1 (hap.locks .wait (.inl rfl))

/-- **What a CPU relies on after the instruction of another one.** -/
theorem Loc.Change.other (h : l.Change d d') (hok₂ : l₂.Ok d) (hok : l.Ok d) (hd : d.Ok)
    (hmaking : ∀ x line k, l = .run x line → line.phase = .marked 0 → line.making = some k →
      Embryo d k)
    (hap : Loc.Apart d l l₂) : l₂.Ok d' := by
  cases h with
  | same agrees => exact hok₂.of_agrees agrees
  | wake y state tested state_eq table =>
    have hwait := hok.tested y tested
    have hfree := hap.locks (.proc y.1) (Loc.held_of_tested tested)
    rw [table]
    refine hok₂.setState (fun hy => absurd hy hwait.ne.2.2.1) ?_ fun line hline => ?_
    · intro htested
      exact hfree (Loc.held_of_tested htested)
    · exact absurd hline (hok₂.ne_of_waiting hwait hfree line)
  | rest x line state loc phase state_eq agrees =>
    subst loc
    have hrun := hok.phase x line rfl
    rw [phase] at hrun
    have hstate := hrun.2.2 (Nat.zero_le _)
    refine Loc.Ok.of_agrees (hok₂.setState ?_ ?_ fun line₂ hline₂ => ?_) agrees
    · intro hx
      exact nomatch hstate.symm.trans hx
    · intro htested
      exact (hok₂.tested x htested).ne.2.2.2 hstate
    · exact absurd hline₂ (hap.threads x line line₂ rfl)
  | save x line context loc saved table =>
    rw [table]
    exact ⟨hok₂.tested, hok₂.phase, hok₂.exits, hok₂.reaping⟩
  | mark x i loc table =>
    subst loc
    rw [table]
    exact hok₂.mark hok hap
  | die x loc table =>
    subst loc
    rw [table]
    exact hok₂.die hok hap
  | free x k loc table =>
    subst loc
    rw [table]
    exact hok₂.free hok hd hap
  | alloc x k loc unused table =>
    rw [table]
    refine hok₂.frame (fun p hp => .alloc hp) ?_ ?_ ?_
    · rintro y hy rfl
      exact (hok₂.tested y hy).ne.2.1 (hd.unused y.1 unused y.2)
    · rintro z line hz rfl
      exact (hok₂.phase z line hz).ne_unused unused
    · rintro z line q hz hq rfl
      exact nomatch unused.symm.trans (hok₂.reaping z line q hz hq)
  | fail x k loc table =>
    subst loc
    have hemb := hmaking x _ k rfl rfl rfl
    rw [table]
    refine hok₂.frame (fun p hp => .allocFail hp) ?_ ?_ ?_
    · exact fun y hy => hemb.ne_of_waiting (hok₂.tested y hy)
    · exact fun z line hz => hemb.ne_of_phase (hok₂.phase z line hz)
    · rintro z line q hz hq rfl
      exact hemb.proc.2 (hok₂.reaping z line q hz hq)
  | start x k loc table =>
    subst loc
    have hemb := hmaking x _ k rfl rfl rfl
    rw [table]
    refine hok₂.frame (fun p hp => .setThreadState hp) ?_ ?_ ?_
    · exact fun y hy => hemb.ne_of_waiting (hok₂.tested y hy)
    · exact fun z line hz => hemb.ne_of_phase (hok₂.phase z line hz)
    · rintro z line q hz hq rfl
      exact hemb.proc.2 (hok₂.reaping z line q hz hq)

end Other

/-! The table. -/

theorem Table.Ok.setState {state : ProcState} (h : d.Ok) (hy : alive (d.procState y.1)) :
    (d.setThreadState y state).Ok where
  zombie p hp i := by
    rw [setThreadState_apply, if_neg]
    · exact h.zombie p hp i
    · rintro rfl
      exact hy.2 hp
  unused p hp i := by
    rw [setThreadState_apply, if_neg]
    · exact h.unused p hp i
    · rintro rfl
      exact hy.1 hp
  init := h.init

theorem Table.Ok.of_agrees (h : d.Ok) (hag : ∀ p, d.Agrees d' p) : d'.Ok where
  zombie p hp i := by
    rw [(hag p).proc] at hp
    rw [(hag p).thread i]
    exact h.zombie p hp i
  unused p hp i := by
    rw [(hag p).proc] at hp
    rw [(hag p).thread i]
    exact h.unused p hp i
  init := by
    rw [(hag initproc).proc]
    exact h.init

/-- A change to one process keeps the table well formed if that process is. -/
theorem Table.Ok.frame (h : d.Ok) (hag : ∀ p, p ≠ k → d.Agrees d' p) (hk : k ≠ initproc)
    (hzombie : d'.procState k = .zombie → ∀ i, d'.threadState (k, i) = .zombie)
    (hunused : d'.procState k = .unused → ∀ i, d'.threadState (k, i) = .unused) : d'.Ok where
  zombie p hp i := by
    by_cases hpk : p = k
    · subst hpk
      exact hzombie hp i
    · rw [(hag p hpk).proc] at hp
      rw [(hag p hpk).thread i]
      exact h.zombie p hp i
  unused p hp i := by
    by_cases hpk : p = k
    · subst hpk
      exact hunused hp i
    · rw [(hag p hpk).proc] at hp
      rw [(hag p hpk).thread i]
      exact h.unused p hp i
  init := by
    rw [(hag initproc hk.symm).proc]
    exact h.init

theorem Table.Ok.alive_of_waiting (h : d.Ok) (hy : waiting (d.threadState y)) :
    alive (d.procState y.1) :=
  ⟨fun hp => hy.ne.2.1 (h.unused y.1 hp y.2), fun hp => hy.ne.2.2.1 (h.zombie y.1 hp y.2)⟩

/-- The changes keep the table well formed. -/
theorem Loc.Change.table (h : l.Change d d') (hok : l.Ok d) (hd : d.Ok)
    (hmaking : ∀ x line k, l = .run x line → line.phase = .marked 0 → line.making = some k →
      Embryo d k) : d'.Ok := by
  cases h with
  | same agrees => exact hd.of_agrees agrees
  | wake y state tested state_eq table =>
    rw [table]
    exact hd.setState (hd.alive_of_waiting (hok.tested y tested))
  | rest x line state loc phase state_eq agrees =>
    subst loc
    have hrun := hok.phase x line rfl
    rw [phase] at hrun
    exact (hd.setState hrun.1).of_agrees agrees
  | save x line context loc saved table =>
    rw [table]
    exact ⟨hd.zombie, hd.unused, hd.init⟩
  | mark x i loc table =>
    subst loc
    rw [table]
    have hrun := hok.phase x _ rfl
    exact hd.setState hrun.1
  | die x loc table =>
    subst loc
    have hphase := hok.phase x _ rfl
    rw [table]
    refine hd.frame (fun p hp => .setProcState hp) (hok.exits x _ rfl trivial) ?_ ?_
    · exact fun _ i => hphase.2.1 i i.isLt
    · rw [setProcState_self]
      exact nofun
  | free x k loc table =>
    subst loc
    have hk : d.procState k = .zombie := hok.reaping x _ k rfl rfl
    rw [table]
    refine hd.frame (fun p hp => .free hp) ?_ ?_ ?_
    · rintro rfl
      exact hd.init.2 hk
    · rw [free_self]
      exact nofun
    · exact fun _ i => if_pos rfl
  | alloc x k loc unused table =>
    rw [table]
    refine hd.frame (fun p hp => .alloc hp) ?_ ?_ ?_
    · rintro rfl
      exact hd.init.1 unused
    · rw [alloc_self]
      exact nofun
    · rw [alloc_self]
      exact nofun
  | fail x k loc table =>
    subst loc
    have hemb := hmaking x _ k rfl rfl rfl
    rw [table]
    refine hd.frame (fun p hp => .allocFail hp) hemb.ne_init ?_ ?_
    · rw [allocFail_self]
      exact nofun
    intro _ i
    show update d.threadState (k, 0) .unused (k, i) = .unused
    rw [update_apply]
    split_ifs with hi
    · rfl
    · exact hemb.others i fun h0 => hi (by rw [h0])
  | start x k loc table =>
    subst loc
    rw [table]
    have hemb := hmaking x _ k rfl rfl rfl
    exact hd.setState hemb.proc

/-! Processes that are being made. -/

/-- A process that is being made stays so until it is started or given up. -/
theorem Loc.Change.embryo (h : l.Change d d') (he : Embryo d k) (hok : l.Ok d)
    (hfail : ∀ x, l = .run x (.setup k) → d'.procState k ≠ .unused)
    (hstart : ∀ x, l ≠ .run x (.startState k)) : Embryo d' k := by
  have hne : ∀ x line, l = .run x line → k ≠ x.1 := by
    rintro x line rfl
    exact (he.ne_of_phase (hok.phase x line rfl)).symm
  cases h with
  | same agrees => exact he.of_agrees (agrees k)
  | wake y state tested state_eq table =>
    rw [table]
    exact he.of_agrees (.setThreadState (he.ne_of_waiting (hok.tested y tested)).symm)
  | rest x line state loc phase state_eq agrees =>
    exact (he.of_agrees (.setThreadState (hne x line loc))).of_agrees (agrees k)
  | save x line context loc saved table =>
    rw [table]
    refine he.of_agrees ⟨rfl, fun _ => rfl, fun i => update_of_ne ?_ _ _⟩
    exact fun hx => hne x line loc (congrArg Prod.fst hx)
  | mark x i loc table =>
    rw [table]
    exact he.of_agrees (.setThreadState (hne x _ loc))
  | die x loc table =>
    rw [table]
    exact he.of_agrees (.setProcState (hne x _ loc))
  | free x q loc table =>
    subst loc
    rw [table]
    refine he.of_agrees (.free ?_)
    rintro rfl
    exact he.proc.2 (hok.reaping x _ k rfl rfl)
  | alloc x q loc unused table =>
    rw [table]
    refine he.of_agrees (.alloc ?_)
    rintro rfl
    exact he.proc.1 unused
  | fail x q loc table =>
    subst loc
    have hq : k ≠ q := by
      rintro rfl
      refine hfail x rfl ?_
      rw [table, allocFail_self]
    rw [table]
    exact he.of_agrees (.allocFail hq)
  | start x q loc table =>
    rw [table]
    refine he.of_agrees (.setThreadState ?_)
    rintro rfl
    exact hstart x loc

/-- `allocproc` takes slot `k` for the process of thread `x`. -/
def Loc.Allocs (d : Table) (l : Loc) (d' : Table) (k : Fin nproc) : Prop :=
  ∃ x, l = .run x (.allocTest k) ∧ d.procState k = .unused ∧ d' = d.alloc x.1 k

/-- What an instruction does to the state of thread `y`. -/
inductive Loc.Turn (d : Table) (l : Loc) (d' : Table) (y : Slot) : Prop where
  | same (state : d'.threadState y = d.threadState y)
  | woken (tested : l.tested = some y)
      (state : d'.threadState y = .runnable ∨ d'.threadState y = .running)
  | rests (line : Line) (loc : l = .run y line) (phase : line.phase = .marked 0)
      (state : waiting (d'.threadState y))
  | marked (x : Slot) (i : Fin nthread) (loc : l = .run x (.mark i)) (thread : y = (x.1, i))
      (state : d'.threadState y = .zombie)
  | freed (x : Slot) (loc : l = .run x (.waitFree y.1)) (state : d'.threadState y = .unused)
  | made (main : y.2 = 0) (allocs : l.Allocs d d' y.1) (state : d'.threadState y = .used)
  | failed (x : Slot) (loc : l = .run x (.setup y.1)) (main : y.2 = 0)
      (state : d'.threadState y = .unused)
  | started (x : Slot) (loc : l = .run x (.startState y.1)) (main : y.2 = 0)
      (state : d'.threadState y = .runnable)

section

variable (h : l.Change d d')

include h

/-- A thread's state changes in one of these ways. -/
theorem Loc.Change.turn (y : Slot) : l.Turn d d' y := by
  have hset : ∀ (z : Slot) (state : ProcState),
      d'.threadState y = (d.setThreadState z state).threadState y →
      (y = z → d'.threadState y = state → l.Turn d d' y) → l.Turn d d' y := by
    intro z state hd' hz
    rw [setThreadState_apply] at hd'
    split_ifs at hd' with hyz
    · exact hz hyz hd'
    · exact .same hd'
  cases h with
  | same agrees => exact .same ((agrees y.1).thread y.2)
  | wake z state tested state_eq table =>
    refine hset z state (by rw [table]) fun hyz hstate => .woken (hyz ▸ tested) ?_
    rw [hstate]
    exact state_eq
  | rest x line state loc phase state_eq agrees =>
    refine hset x state ((agrees y.1).thread y.2) fun hyx hstate => ?_
    refine .rests line (hyx ▸ loc) phase ?_
    rw [hstate]
    exact state_eq
  | save x line context loc saved table | die x loc table => exact .same (by rw [table]; rfl)
  | mark x i loc table =>
    refine hset (x.1, i) .zombie (by rw [table]) fun hyx hstate => ?_
    exact .marked x i loc hyx hstate
  | free x k loc table =>
    by_cases hk : y.1 = k
    · subst hk
      exact .freed x loc (by rw [table]; exact if_pos rfl)
    · exact .same (by rw [table]; exact if_neg hk)
  | alloc x k loc unused table =>
    refine hset (k, 0) .used (by rw [table]; rfl) fun hyk hstate => ?_
    subst hyk
    exact .made rfl ⟨x, loc, unused, table⟩ hstate
  | fail x k loc table =>
    refine hset (k, 0) .unused (by rw [table]; rfl) fun hyk hstate => ?_
    subst hyk
    exact .failed x loc rfl hstate
  | start x k loc table =>
    refine hset (k, 0) .runnable (by rw [table]) fun hyk hstate => ?_
    subst hyk
    exact .started x loc rfl hstate

/-- A thread is live because it was, or because `allocproc` has made it. -/
theorem Loc.Change.alive (hok : l.Ok d)
    (hmaking : ∀ x line k, l = .run x line → line.phase = .marked 0 → line.making = some k →
      Embryo d k)
    (hy : Life.alive (d'.threadState y)) :
    Life.alive (d.threadState y) ∨ y.2 = 0 ∧ l.Allocs d d' y.1 := by
  cases h.turn y with
  | same state =>
    rw [state] at hy
    exact .inl hy
  | woken tested =>
    have hwait := (hok.tested y tested).ne
    exact .inl ⟨hwait.2.1, hwait.2.2.1⟩
  | rests line loc phase =>
    subst loc
    have hrun := hok.phase y line rfl
    rw [phase] at hrun
    rw [hrun.2.2 (Nat.zero_le _)]
    exact .inl (by decide)
  | marked x i loc thread state => exact absurd state hy.2
  | freed x loc state | failed x loc main state => exact absurd state hy.1
  | made main allocs => exact .inr ⟨main, allocs⟩
  | started x loc main =>
    subst loc
    have hmain := (hmaking x _ y.1 rfl rfl rfl).main
    rw [← main] at hmain
    rw [hmain]
    exact .inl (by decide)

/-- A live thread stays one unless `exit` marks it, or `fork` fails. -/
theorem Loc.Change.dead (hok : l.Ok d) (hd : d.Ok)
    (hy : Life.alive (d.threadState y)) :
    Life.alive (d'.threadState y) ∨ (∃ x i, l = .run x (.mark i) ∧ y = (x.1, i)) ∨
      ∃ x, l = .run x (.setup y.1) ∧ y.2 = 0 := by
  cases h.turn y with
  | same state =>
    rw [state]
    exact .inl hy
  | woken tested state => obtain state | state := state <;> rw [state] <;> exact .inl (by decide)
  | rests line loc phase state => exact .inl ⟨state.ne.2.1, state.ne.2.2.1⟩
  | marked x i loc thread => exact .inr (.inl ⟨x, i, loc, thread⟩)
  | freed x loc =>
    subst loc
    exact absurd (hd.zombie y.1 (hok.reaping x _ y.1 rfl rfl) y.2) hy.2
  | made main allocs state | started x loc main state =>
    rw [state]
    exact .inl (by decide)
  | failed x loc main => exact .inr (.inr ⟨x, loc, main⟩)

/-- A thread sleeps because it did, or because it has just gone to sleep itself. -/
theorem Loc.Change.sleeping (hy : d'.threadState y = .sleeping) :
    d.threadState y = .sleeping ∨ ∃ line, l = .run y line := by
  cases h.turn y with
  | same state => exact .inl (state.symm.trans hy)
  | rests line loc => exact .inr ⟨line, loc⟩
  | woken tested state => obtain state | state := state <;> exact nomatch state.symm.trans hy
  | marked _ _ _ _ state | freed _ _ state | made _ _ state | failed _ _ _ state
  | started _ _ _ state => exact nomatch state.symm.trans hy

/-- A thread is `USED` because it was, or because `allocproc` has made it. -/
theorem Loc.Change.used (hy : d'.threadState y = .used) :
    d.threadState y = .used ∨ y.2 = 0 ∧ l.Allocs d d' y.1 := by
  cases h.turn y with
  | same state => exact .inl (state.symm.trans hy)
  | made main allocs => exact .inr ⟨main, allocs⟩
  | woken tested state => obtain state | state := state <;> exact nomatch state.symm.trans hy
  | rests line loc phase state => exact absurd hy state.ne.1
  | marked _ _ _ _ state | freed _ _ state | failed _ _ _ state | started _ _ _ state =>
    exact nomatch state.symm.trans hy

/-- A thread's context is saved by the thread itself, or written by `allocproc`. -/
theorem Loc.Change.context (y : Slot) :
    d'.context y = d.context y ∨ (∃ line, l.thread = some (y, line)) ∨
      y.2 = 0 ∧ l.Allocs d d' y.1 := by
  cases h with
  | same agrees | rest x line state loc phase state_eq agrees =>
    exact .inl ((agrees y.1).context y.2)
  | save x line context loc saved table =>
    subst loc
    by_cases hyx : y = x
    · exact .inr (.inl ⟨line, by rw [hyx]; rfl⟩)
    · rw [table]
      exact .inl (update_of_ne hyx _ _)
  | alloc x k loc unused table =>
    by_cases hyk : y = (k, 0)
    · subst hyk
      exact .inr (.inr ⟨rfl, x, loc, unused, table⟩)
    · rw [table]
      exact .inl (update_of_ne hyk _ _)
  | wake _ _ _ _ table | mark _ _ _ table | die _ _ table | free _ _ _ table | fail _ _ _ table
  | start _ _ _ table =>
    rw [table]
    exact .inl rfl

end

end Change

end Xv6.Life
