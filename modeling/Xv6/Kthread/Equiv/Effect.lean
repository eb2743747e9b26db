import Xv6.Kthread.Code
import Xv6.Kthread.Equiv.Tree

/-!
# What the instructions of the `kthread` calls do

The locks that a CPU holds at each location (`kthreadCode_disciplined`), what it relies on there
(`Loc.Holds`), and the effect of an instruction (`Loc.instr_effect`).
-/

namespace Xv6.Kthread

open Lib

/-! ### `wakeup`, and the thread on a CPU -/

section Instr

variable {d d' : Table} {j : Fin nthread} {w : Wake} {chan : Chan} {op : LockOp LockId} {l' : Loc}

theorem Line.instr_wakeup {ret : Ret} {line' : Option Line}
    (h : (Line.wakeup w chan ret).instr d j .next = some (op, line', d')) :
    ∃ w', w.instr d (some j) chan = (op, w', d') ∧
      line' = some (w'.elim ret.line fun w' => .wakeup w' chan ret) := by
  simp only [Line.instr] at h
  rcases hw : w.instr d (some j) chan with ⟨op', w', d''⟩
  rw [hw] at h
  cases w' with cases h
  | none => exact ⟨none, rfl, rfl⟩
  | some w' => exact ⟨some w', rfl, rfl⟩

theorem Loc.instr_wakeup {wait : Bool}
    (h : (Loc.wakeup wait w chan).instr d .next = some (op, l', d')) :
    ∃ w', w.instr d none chan = (op, w', d') ∧
      l' = w'.elim (.away wait) fun w' => .wakeup wait w' chan := by
  simp only [Loc.instr] at h
  rcases hw : w.instr d none chan with ⟨op', w', d''⟩
  rw [hw] at h
  cases w' with cases h
  | none => exact ⟨none, rfl, rfl⟩
  | some w' => exact ⟨some w', rfl, rfl⟩

theorem instr_run {line : Line} {ch : Choice}
    (h : (Loc.run j line).instr d ch = some (op, l', d')) :
    ∃ line', line.instr d j ch = some (op, line', d') ∧ l' = line'.elim (.lookNext j) (.run j) := by
  simp only [Loc.instr] at h
  rcases hline : line.instr d j ch with _ | ⟨op', line', d''⟩
  · simp [hline] at h
  rw [hline] at h
  cases line' with cases h
  | none => exact ⟨none, rfl, rfl⟩
  | some line' => exact ⟨some line', rfl, rfl⟩

end Instr

/-! ### The locks held at each location -/

def Wake.held : Wake → LockId → Prop
  | .lock, _ => False
  | .test _, m | .set _, m | .unlock, m => m = .proc

def Ret.held : Ret → LockId → Prop
  | .treparent .., m | .parent _, m => m = .wait
  | .signal n, m => m = .other n
  | .exit, _ | .resume _, _ => False

def Line.held : Line → LockId → Prop
  | .out _, _ | .exit, _ | .exited, _ | .createdNone, _ | .joined .., _ | .joinSleep, _
  | .yieldLock _, _ => False
  | .wakeup w _ ret, m => ret.held m ∨ w.held m
  | .treparent .., m | .wakeParent _, m | .zombie _, m | .exitLock, m | .lastRelease, m => m = .wait
  | .check _, m | .lastUnlock, m | .found, m => m = .wait ∨ m = .proc
  | .exitSched, m | .zombieExit, m | .alloc _, m | .allocFound _, m | .allocUnlock _, m
  | .allocNone, m | .joinScan .., m | .joinFound .., m | .joinNone, m | .joinRelease, m
  | .sleepState .., m | .sleepSched .., m | .slept .., m | .yieldState _, m | .yieldSched _, m
  | .yielded _, m | .forkret, m => m = .proc
  | .blocked n _, m | .signalled n, m | .sleepLock n _, m => m = .other n
  | .sleepUnlock n _, m => m = .other n ∨ m = .proc

def Loc.held : Loc → LockId → Prop
  | .away wait, m => wait = true ∧ m = .wait
  | .wakeup wait w _, m => (wait = true ∧ m = .wait) ∨ w.held m
  | .look _, m | .set _, m | .unlock, m => m = .proc
  | .run _ line, m => line.held m

section Held

variable {j l : Fin nthread} {m : LockId} {status : Int}

@[simp] theorem held_testNext : (Wake.testNext l).held m ↔ m = .proc := by
  unfold Wake.testNext
  split_ifs <;> exact Iff.rfl

@[simp] theorem held_treparentNext : (Line.treparentNext status l).held m ↔ m = .wait := by
  unfold Line.treparentNext
  split_ifs <;> exact Iff.rfl

@[simp] theorem held_checkNext : (Line.checkNext l).held m ↔ m = .wait ∨ m = .proc := by
  unfold Line.checkNext
  split_ifs <;> exact Iff.rfl

@[simp] theorem held_allocNext : (Line.allocNext l).held m ↔ m = .proc := by
  unfold Line.allocNext
  split_ifs <;> exact Iff.rfl

@[simp] theorem held_joinNext {tid : Int} : (Line.joinNext tid status l).held m ↔ m = .proc := by
  unfold Line.joinNext
  split_ifs <;> exact Iff.rfl

@[simp] theorem held_line {ret : Ret} : ret.line.held m ↔ ret.held m := by
  cases ret with
  | treparent => exact held_treparentNext
  | _ => exact Iff.rfl

@[simp] theorem held_saved {c : Saved} : c.line.held m ↔ m = .proc := by
  cases c <;> exact Iff.rfl

@[simp] theorem held_lookNext : (Loc.lookNext j).held m ↔ m = .proc := by
  unfold Loc.lookNext
  split_ifs <;> exact Iff.rfl

theorem Ret.not_held_proc {ret : Ret} : ¬ ret.held .proc := by
  cases ret <;> simp [Ret.held]

theorem Wake.held_instr {d d' : Table} {me : Option (Fin nthread)} {chan : Chan} {w : Wake}
    {w' : Option Wake} {op : LockOp LockId} (h : w.instr d me chan = (op, w', d'))
    (ret : LockId → Prop) (hret : ¬ ret .proc) (m : LockId) :
    (w'.elim (ret m) fun w' => ret m ∨ w'.held m) ↔ op.after (fun m => ret m ∨ w.held m) m := by
  cases w with
  | lock =>
    cases h
    simp [Wake.held, LockOp.after]
  | test =>
    simp only [Wake.instr] at h
    split_ifs at h
    all_goals
      cases h
      simp only [Option.elim_some, held_testNext]
      exact Iff.rfl
  | set =>
    cases h
    simp only [Option.elim_some, held_testNext]
    exact Iff.rfl
  | unlock =>
    cases h
    simp only [Option.elim_none, LockOp.after, Wake.held]
    constructor
    · intro hm
      refine ⟨.inl hm, ?_⟩
      rintro rfl
      exact hret hm
    · rintro ⟨hm | hm, hne⟩
      · exact hm
      · exact absurd hm hne

theorem Entry.held_instr {d d' : Table} {e : Entry} {line : Line} {op : LockOp LockId}
    (h : e.instr d = (op, line, d')) (m : LockId) :
    line.held m ↔ op.after (Line.out e).held m := by
  cases e with
  | joinTest =>
    simp only [Entry.instr] at h
    split_ifs at h
    all_goals
      cases h
      exact Iff.rfl
  | _ =>
    cases h
    simp [Line.held, Wake.held, Ret.held, LockOp.after]

end Held

theorem Line.held_instr {d d' : Table} {j : Fin nthread} {line : Line} {ch : Choice}
    {op : LockOp LockId} {line' : Option Line} (h : line.instr d j ch = some (op, line', d'))
    (m : LockId) : (line'.elim (m = .proc) fun line' => line'.held m) ↔ op.after line.held m := by
  unfold Line.instr at h
  split at h
  case h_4 e =>
    rcases he : e.instr d with ⟨op', line₁, d''⟩
    rw [he] at h
    cases h
    exact Entry.held_instr he m
  case h_5 w chan ret =>
    obtain ⟨w', hw, rfl⟩ := Line.instr_wakeup h
    have hheld := Wake.held_instr hw ret.held Ret.not_held_proc m
    cases w' with
    | none => exact held_line.trans hheld
    | some => exact hheld
  case h_7 =>
    split at h
    all_goals
      cases h
      simp [Line.held, Wake.held, Ret.held, LockOp.after]
  -- `sched`
  case h_16 | h_33 | h_37 =>
    unfold sched at h
    split_ifs at h
    cases h
    exact Iff.rfl
  case h_26 | h_40 => cases h
  -- the lines with a condition
  case h_1 =>
    split_ifs at h
    all_goals
      cases h
      exact Iff.rfl
  case h_6 =>
    split_ifs at h
    · cases h
      simp [Line.held, Wake.held, Ret.held, LockOp.after]
    all_goals
      cases h
      exact held_treparentNext
  case h_10 | h_17 | h_21 =>
    split_ifs at h <;> cases h
    · exact Iff.rfl
    · first | exact held_checkNext | exact held_allocNext | exact held_joinNext
  all_goals
    cases h
    simp only [Option.elim_some, LockOp.after]
    cases m <;> simp [Line.held, Wake.held, Ret.held]

/-- The code releases only the locks that it holds. -/
theorem kthreadCode_disciplined : kthreadCode.Disciplined Loc.held := by
  intro d l ch op l' d' h m
  simp only [kthreadCode] at h
  unfold Loc.instr at h
  split at h
  case h_6 wait w chan =>
    obtain ⟨w', hw, rfl⟩ := Loc.instr_wakeup h
    have hheld := Wake.held_instr hw (fun m => wait = true ∧ m = .wait) (by simp) m
    cases w' with
    | none | some => exact hheld
  case h_7 =>
    split_ifs at h <;> cases h
    · exact Iff.rfl
    · exact held_lookNext
  case h_8 =>
    cases h
    exact held_saved
  case h_10 =>
    obtain ⟨line', hline, rfl⟩ := instr_run h
    have hheld := Line.held_instr hline m
    cases line' with
    | none => exact held_lookNext.trans hheld
    | some => exact hheld
  case h_11 => cases h
  all_goals
    cases h
    simp [Loc.held, Wake.held, LockOp.after]

/-! ### What a CPU relies on -/

def Table.AllDead (d : Table) : Prop := ∀ i, ¬ d.proc.Live i

def Wake.Holds (d : Table) : Wake → Prop
  | .set l => d.state l = .sleeping
  | _ => True

/-- What a thread knows at a line. -/
def Line.Holds (d : Table) (j : Fin nthread) : Line → Prop
  | .wakeup w _ .exit => w.Holds d ∧ d.AllDead
  | .wakeup w _ _ => w.Holds d
  | .check tt => ∀ i, i < tt → ¬ d.proc.Live i
  | .lastUnlock | .lastRelease | .exit | .exited => d.AllDead
  | .found => ∃ i, d.proc.Live i
  | .allocFound l => ¬ d.proc.Live l
  | .sleepSched .. => d.state j = .sleeping
  | .yieldSched _ => d.state j = .runnable
  | _ => True

/-- What a CPU has tested, and relies on. -/
def Loc.Holds (d : Table) : Loc → Prop
  | .wakeup _ w _ => w.Holds d
  | .set j => d.state j = .runnable
  | .run j line => line.Holds d j
  | _ => True

section Holds

variable {d d' : Table} {j l : Fin nthread} {status : Int}

theorem live_iff {i : Fin nthread} : d.proc.Live i ↔ live (d.state i) = true := Iff.rfl

theorem setThread_state (th : Thread) :
    Table.state { d with proc := d.proc.setThread j th } = Function.update d.state j th.state := by
  ext i
  by_cases hi : i = j
  · subst hi
    rw [Function.update_self, Table.state, Proc.setThread_threads_same]
  · rw [Function.update_of_ne hi, Table.state, Proc.setThread_threads_of_ne hi, Table.state]

theorem setState_state (i : Fin nthread) (st : ProcState) :
    (d.setState i st).state = Function.update d.state i st := setThread_state _

theorem holds_testNext : (Wake.testNext l).Holds d := by
  unfold Wake.testNext
  split_ifs <;> trivial

theorem holds_treparentNext : (Line.treparentNext status l).Holds d j := by
  unfold Line.treparentNext
  split_ifs <;> trivial

theorem holds_allocNext : (Line.allocNext l).Holds d j := by
  unfold Line.allocNext
  split_ifs <;> trivial

theorem holds_joinNext {tid : Int} : (Line.joinNext tid status l).Holds d j := by
  unfold Line.joinNext
  split_ifs <;> trivial

theorem holds_saved {c : Saved} : c.line.Holds d j := by
  cases c <;> trivial

theorem holds_lookNext : (Loc.lookNext j).Holds d := by
  unfold Loc.lookNext
  split_ifs <;> trivial

/-- The loop of `kthread_exit` has seen one more slot. -/
theorem holds_checkNext (h : ∀ i, i < l → ¬ d.proc.Live i) (hl : ¬ d.proc.Live l) :
    (Line.checkNext l).Holds d j := by
  have hle : ∀ i, i.val ≤ l.val → ¬ d.proc.Live i := by
    intro i hi
    obtain hlt | heq := Nat.lt_or_eq_of_le hi
    · exact h i hlt
    · rwa [Fin.ext heq]
  unfold Line.checkNext
  split_ifs with hlast
  · intro i hi
    exact hle i (Nat.le_of_lt_succ hi)
  · intro i
    have hi := i.isLt
    exact hle i (by omega)

variable {chan : Chan} {op : LockOp LockId}

theorem Wake.holds_instr {me : Option (Fin nthread)} {w : Wake} {w' : Wake}
    (h : w.instr d me chan = (op, some w', d')) : w'.Holds d' := by
  cases w with
  | lock =>
    cases h
    trivial
  | test =>
    simp only [Wake.instr] at h
    split_ifs at h with hcond <;> cases h
    · exact hcond.2.1
    · exact holds_testNext
  | set =>
    cases h
    exact holds_testNext
  | unlock => simp [Wake.instr] at h

theorem Wake.instr_cases {me : Option (Fin nthread)} {w : Wake} {w' : Option Wake}
    (h : w.instr d me chan = (op, w', d')) :
    d' = d ∨ ∃ l, w = .set l ∧ w' = some (.testNext l) ∧ d' = d.setState l .runnable := by
  cases w with
  | test =>
    simp only [Wake.instr] at h
    split_ifs at h
    all_goals
      cases h
      exact .inl rfl
  | set l =>
    cases h
    exact .inr ⟨l, rfl, rfl, rfl⟩
  | lock | unlock =>
    cases h
    exact .inl rfl

theorem live_of_sleeping {i : Fin nthread} (h : d.state i = .sleeping) : d.proc.Live i := by
  rw [live_iff, h]
  rfl

theorem wakeup_holds {w : Wake} (ret : Ret) {w' : Option Wake}
    (hw : w.instr d (some j) chan = (op, w', d')) (hl : (Line.wakeup w chan ret).Holds d j) :
    (w'.elim ret.line fun w' => .wakeup w' chan ret).Holds d' j := by
  cases ret with
  | exit =>
    have hd : d' = d := by
      obtain heq | ⟨l, rfl, -, -⟩ := Wake.instr_cases hw
      · exact heq
      · exact absurd (live_of_sleeping hl.1) (hl.2 l)
    subst hd
    cases w' with
    | none => exact hl.2
    | some => exact ⟨Wake.holds_instr hw, hl.2⟩
  | treparent =>
    cases w' with
    | none => exact holds_treparentNext
    | some => exact Wake.holds_instr hw
  | parent | signal | resume =>
    cases w' with
    | none => trivial
    | some => exact Wake.holds_instr hw

/-- An instruction keeps what the thread knows. -/
theorem Line.holds_instr {line : Line} {ch : Choice} {line' : Line} (hl : line.Holds d j)
    (h : line.instr d j ch = some (op, some line', d')) :
    line'.Holds d' j := by
  unfold Line.instr at h
  split at h
  case h_4 e =>
    cases e with
    | joinTest =>
      simp only [Entry.instr] at h
      split_ifs at h
      all_goals
        cases h
        trivial
    | _ =>
      cases h
      trivial
  case h_5 w chan ret =>
    obtain ⟨w', hw, heq⟩ := Line.instr_wakeup h
    cases heq
    exact wakeup_holds ret hw hl
  case h_6 =>
    split_ifs at h
    · cases h
      trivial
    all_goals
      cases h
      exact holds_treparentNext
  case h_7 =>
    split at h
    all_goals
      cases h
      trivial
  case h_10 tt =>
    split_ifs at h with hlive <;> cases h
    · exact ⟨tt, hlive⟩
    · exact holds_checkNext hl hlive
  case h_17 l =>
    split_ifs at h with hdead <;> cases h
    · show ¬ _
      obtain hu | hz := hdead
      · simp [live_iff, hu, live]
      · simp [live_iff, hz, live]
    · exact holds_allocNext
  case h_21 =>
    split_ifs at h <;> cases h
    · trivial
    · exact holds_joinNext
  case h_1 =>
    split_ifs at h
    all_goals
      cases h
      trivial
  case h_16 | h_33 | h_37 =>
    unfold sched at h
    split_ifs at h
    simp at h
  case h_26 | h_40 => cases h
  all_goals
    cases h
  case h_9 => exact fun i hi => absurd hi (Nat.not_lt_zero i)
  case h_11 | h_12 | h_13 => exact hl
  case h_14 => exact ⟨trivial, hl⟩
  case h_32 | h_36 =>
    show Table.state _ j = _
    first
    | rw [setState_state, Function.update_self]
    | rw [Table.sleep, setThread_state, Function.update_self]
  all_goals trivial

/-- An instruction leads to where its CPU may rely on what it has tested. -/
theorem Loc.holds_instr {l l' : Loc} {ch : Choice} (hl : l.Holds d)
    (h : l.instr d ch = some (op, l', d')) : l'.Holds d' := by
  unfold Loc.instr at h
  split at h
  case h_6 wait w chan =>
    obtain ⟨w', hw, rfl⟩ := Loc.instr_wakeup h
    cases w' with
    | none => trivial
    | some => exact Wake.holds_instr hw
  case h_7 =>
    split_ifs at h with hrunnable <;> cases h
    · exact hrunnable
    · exact holds_lookNext
  case h_8 =>
    cases h
    exact holds_saved
  case h_10 =>
    obtain ⟨line', hline, rfl⟩ := instr_run h
    cases line' with
    | none => exact holds_lookNext
    | some => exact Line.holds_instr hl hline
  case h_11 => cases h
  all_goals
    cases h
    trivial

end Holds

/-! ### What an instruction does -/

/-- What a thread on a CPU is about. -/
inductive Phase where
  -- it is running
  | active
  -- it has set its state and is about to switch to the scheduler
  | leaving
  -- it has marked itself in `kthread_exit`
  | gone
  deriving DecidableEq

def Line.phase (line : Line) : Phase :=
  if line.gone then .gone else
    match line with
    | .sleepSched .. | .yieldSched _ => .leaving
    | _ => .active

/-- The thread on the CPU, and whether it is active. -/
def Loc.on : Loc → Option (Fin nthread × Phase)
  | .run j line => some (j, line.phase)
  | _ => none

/-- The slot that `kthread_create` has taken, and whether its context is set up. -/
def Entry.making : Entry → Option (Fin nthread × Bool)
  | .setup l => some (l, false)
  | .created l => some (l, true)
  | _ => none

/-- The slot that `kthread_create` has taken, and whether it is ready. -/
def Line.making : Line → Option (Fin nthread × Bool)
  | .out e | .wakeup _ _ (.resume e) | .yieldLock e | .yieldState e | .yieldSched e | .yielded e =>
    e.making
  | .allocUnlock l => some (l, false)
  | _ => none

def Saved.making : Saved → Option (Fin nthread × Bool)
  | .yielded e => e.making
  | _ => none

def Loc.making : Loc → Option (Fin nthread × Bool)
  | .run _ line => line.making
  | _ => none

def Line.saved : Line → Option Saved
  | .sleepSched n chan => some (.slept n chan)
  | .yieldSched e => some (.yielded e)
  | .exitSched => some .zombieExit
  | _ => none

/-- The identifiers, exit statuses and results of the threads are as before. -/
structure Frame (d d' : Table) : Prop where
  tid : d'.tid = d.tid
  xstate : d'.xstate = d.xstate
  context : d'.context = d.context
  exits : d'.exits = d.exits
  exitedWith : d'.exitedWith = d.exitedWith

/-- What an instruction does to the states of the threads. -/
inductive Effect (d : Table) (l : Loc) (d' : Table) (l' : Loc) : Prop where
  -- no thread changes its state
  | quiet (on : l'.on = l.on) (making : l'.making = l.making) (states : d'.state = d.state)
      (frame : Frame d d')
  -- `wakeup`
  | wake (k : Fin nthread) (held : l.held .proc) (hk : d.state k = .sleeping) (on : l'.on = l.on)
      (making : l'.making = l.making) (states : d'.state = Function.update d.state k .runnable)
      (frame : Frame d d')
  -- `scheduler` starts a thread
  | start (j : Fin nthread) (held : l.held .proc) (hj : d.state j = .runnable) (on : l.on = none)
      (making : l.making = none) (loc' : l' = .run j (d.context j).line)
      (states : d'.state = Function.update d.state j .running) (frame : Frame d d')
  -- `yield` and `sleep`
  | rest (j : Fin nthread) (st : ProcState) (hst : st = .sleeping ∨ st = .runnable)
      (held : l.held .proc) (on : l.on = some (j, .active)) (on' : l'.on = some (j, .leaving))
      (making : l'.making = l.making) (states : d'.state = Function.update d.state j st)
      (frame : Frame d d')
  -- `swtch` to the scheduler
  | leave (j : Fin nthread) (line : Line) (context : Saved) (loc : l = .run j line)
      (saved : line.saved = some context) (on' : l'.on = none) (making' : l'.making = none)
      (data : d' = d.save j context)
  -- `kthread_exit`
  | zombie (j : Fin nthread) (status : Int) (loc : l = .run j (.zombie status))
      (loc' : l' = .run j .exitLock) (data : d' = d.zombie j status)
  | exit (j : Fin nthread) (loc : l = .run j .exit) (loc' : l' = .run j .exited)
      (data : d' = d.callExit)
  -- `kthread_create`
  | alloc (j k : Fin nthread) (loc : l = .run j (.allocFound k))
      (loc' : l' = .run j (.allocUnlock k)) (data : d' = d.alloc j k)
  | setup (j k : Fin nthread) (loc : l = .run j (.out (.setup k)))
      (loc' : l' = .run j (.out (.created k))) (data : d' = d.save k .forkret)
  | create (j k : Fin nthread) (loc : l = .run j (.out (.created k)))
      (loc' : l' = .run j (.out .user)) (data : d' = d.setState k .runnable)

section Effect

variable {d d' : Table} {j l : Fin nthread} {status : Int}

theorem Frame.refl (d : Table) : Frame d d := ⟨rfl, rfl, rfl, rfl, rfl⟩

theorem Frame.setThread {th : Thread} (htid : th.tid = d.tid j) (hx : th.xstate = d.xstate j) :
    Frame d { d with proc := d.proc.setThread j th } := by
  refine ⟨?_, ?_, rfl, rfl, rfl⟩
  · ext i
    by_cases hi : i = j
    · subst hi
      rw [Table.tid, Proc.setThread_threads_same, htid]
    · rw [Table.tid, Proc.setThread_threads_of_ne hi, Table.tid]
  · ext i
    by_cases hi : i = j
    · subst hi
      rw [Table.xstate, Proc.setThread_threads_same, hx]
    · rw [Table.xstate, Proc.setThread_threads_of_ne hi, Table.xstate]

theorem Frame.setState (st : ProcState) : Frame d (d.setState j st) := Frame.setThread rfl rfl

theorem setThread_state_eq {th : Thread} (h : th.state = d.state j) :
    Table.state { d with proc := d.proc.setThread j th } = d.state := by
  rw [setThread_state, h, Function.update_eq_self]

/-- The thread is as active, and makes the same slot, as before. -/
structure Line.Like (line line' : Line) : Prop where
  phase : line'.phase = line.phase
  making : line'.making = line.making

theorem Effect.goto {line line' : Line} (h : line.Like line') (hstates : d'.state = d.state)
    (hframe : Frame d d') : Effect d (.run j line) d' (.run j line') := by
  refine .quiet ?_ h.making hstates hframe
  rw [Loc.on, Loc.on, h.phase]

theorem like_treparentNext : (Line.treparent status l).Like (.treparentNext status l) := by
  unfold Line.treparentNext
  split_ifs <;> exact ⟨rfl, rfl⟩

theorem like_checkNext : (Line.check l).Like (.checkNext l) := by
  unfold Line.checkNext
  split_ifs <;> exact ⟨rfl, rfl⟩

theorem like_allocNext : (Line.alloc l).Like (.allocNext l) := by
  unfold Line.allocNext
  split_ifs <;> exact ⟨rfl, rfl⟩

theorem like_joinNext {tid : Int} : (Line.joinScan tid status l).Like (.joinNext tid status l) := by
  unfold Line.joinNext
  split_ifs <;> exact ⟨rfl, rfl⟩

variable {chan : Chan} {line : Line} {op : LockOp LockId}

theorem like_wakeup {w w' : Wake} {ret : Ret} :
    (Line.wakeup w chan ret).Like (.wakeup w' chan ret) := by
  cases ret <;> exact ⟨rfl, rfl⟩

theorem like_line {w : Wake} {ret : Ret} :
    (Line.wakeup w chan ret).Like ret.line := by
  cases ret with
  | treparent status tt =>
    obtain ⟨hphase, hmaking⟩ : (Line.treparent status tt).Like (.treparentNext status tt) :=
      like_treparentNext
    exact ⟨hphase, hmaking⟩
  | _ => exact ⟨rfl, rfl⟩

theorem on_lookNext : (Loc.lookNext j).on = none ∧ (Loc.lookNext j).making = none := by
  unfold Loc.lookNext
  split_ifs <;> exact ⟨rfl, rfl⟩

theorem phase_saved (c : Saved) : c.line.phase = .active ∧ c.line.making = c.making := by
  cases c <;> exact ⟨rfl, rfl⟩

theorem sched_effect {line' : Option Line} {context : Saved}
    (h : sched d j context = some (op, line', d')) (hsaved : line.saved = some context) :
    Effect d (.run j line) d' (line'.elim (.lookNext j) (.run j)) := by
  unfold sched at h
  split_ifs at h
  cases h
  exact .leave j line context rfl hsaved on_lookNext.1 on_lookNext.2 rfl

theorem saved_spec {context : Saved} (h : line.saved = some context) :
    line.held .proc ∧ context.making = line.making ∧
      (line.phase = .leaving ∨ line.phase = .gone ∧ context.making = none) := by
  cases line with
  | sleepSched | yieldSched =>
    cases h
    exact ⟨rfl, rfl, .inl rfl⟩
  | exitSched =>
    cases h
    exact ⟨rfl, rfl, .inr ⟨rfl, rfl⟩⟩
  | _ => cases h

theorem wakeup_effect {w : Wake} (ret : Ret) {w' : Option Wake}
    (hl : (Line.wakeup w chan ret).Holds d j) (h : w.instr d (some j) chan = (op, w', d')) :
    Effect d (.run j (.wakeup w chan ret)) d'
      (.run j (w'.elim ret.line fun w' => .wakeup w' chan ret)) := by
  obtain rfl | ⟨k, rfl, rfl, rfl⟩ := Wake.instr_cases h
  · cases w' with
    | none => exact .goto like_line rfl (Frame.refl _)
    | some => exact .goto like_wakeup rfl (Frame.refl _)
  have hk : d.state k = .sleeping := by
    cases ret with
    | exit => exact hl.1
    | _ => exact hl
  obtain ⟨hphase, hmaking⟩ :
    (Line.wakeup (.set k) chan ret).Like (.wakeup (.testNext k) chan ret) := like_wakeup
  refine .wake k (.inr rfl) hk ?_ hmaking (setState_state k _) (Frame.setState _)
  rw [Option.elim_some, Loc.on, Loc.on, hphase]

theorem Entry.instr_effect {e : Entry} (h : e.instr d = (op, line, d')) :
    Effect d (.run j (.out e)) d' (.run j line) := by
  cases e with
  | setup k =>
    cases h
    exact .setup j k rfl rfl rfl
  | created k =>
    cases h
    exact .create j k rfl rfl rfl
  | joinTest =>
    simp only [Entry.instr] at h
    split_ifs at h
    all_goals
      cases h
      exact .goto ⟨rfl, rfl⟩ rfl (Frame.refl _)
  | _ =>
    cases h
    exact .goto ⟨rfl, rfl⟩ rfl (Frame.refl _)

/-- Every instruction of a thread has one of the effects. -/
theorem Line.instr_effect {ch : Choice} {line' : Option Line} (hl : line.Holds d j)
    (h : line.instr d j ch = some (op, line', d')) :
    Effect d (.run j line) d' (line'.elim (.lookNext j) (.run j)) := by
  unfold Line.instr at h
  split at h
  case h_4 e =>
    rcases he : e.instr d with ⟨op', line₁, d''⟩
    rw [he] at h
    cases h
    exact Entry.instr_effect he
  case h_5 w chan ret =>
    obtain ⟨w', hw, rfl⟩ := Line.instr_wakeup h
    exact wakeup_effect ret hl hw
  case h_6 =>
    split_ifs at h <;> cases h
    · exact .goto ⟨rfl, rfl⟩ (setThread_state_eq rfl) (Frame.setThread rfl rfl)
    · exact .goto like_treparentNext rfl ⟨rfl, rfl, rfl, rfl, rfl⟩
    · exact .goto like_treparentNext rfl (Frame.refl _)
  case h_7 =>
    split at h
    all_goals
      cases h
      exact .goto ⟨rfl, rfl⟩ rfl (Frame.refl _)
  case h_10 =>
    split_ifs at h <;> cases h
    · exact .goto ⟨rfl, rfl⟩ rfl (Frame.refl _)
    · exact .goto like_checkNext rfl (Frame.refl _)
  case h_17 =>
    split_ifs at h <;> cases h
    · exact .goto ⟨rfl, rfl⟩ rfl (Frame.refl _)
    · exact .goto like_allocNext rfl (Frame.refl _)
  case h_21 =>
    split_ifs at h <;> cases h
    · exact .goto ⟨rfl, rfl⟩ rfl (Frame.refl _)
    · exact .goto like_joinNext rfl (Frame.refl _)
  case h_1 =>
    split_ifs at h
    all_goals
      cases h
      exact .goto ⟨rfl, rfl⟩ rfl (Frame.refl _)
  case h_16 | h_33 | h_37 => exact sched_effect h rfl
  case h_26 | h_40 => cases h
  all_goals
    cases h
  case h_3 c => exact .goto ⟨rfl, by cases c <;> rfl⟩ rfl (Frame.refl _)
  case h_8 status => exact .zombie j status rfl rfl rfl
  case h_13 => exact .exit j rfl rfl rfl
  case h_18 k => exact .alloc j k rfl rfl rfl
  case h_32 =>
    exact .rest j .sleeping (.inl rfl) rfl rfl rfl rfl (setThread_state _) (Frame.setThread rfl rfl)
  case h_34 => exact .goto ⟨rfl, rfl⟩ (setThread_state_eq rfl) (Frame.setThread rfl rfl)
  case h_36 =>
    exact .rest j .runnable (.inr rfl) rfl rfl rfl rfl (setState_state j _) (Frame.setState _)
  all_goals exact .goto ⟨rfl, rfl⟩ rfl (Frame.refl _)

/-- Every instruction of a CPU has one of the effects. -/
theorem Loc.instr_effect {l l' : Loc} {ch : Choice} (hl : l.Holds d)
    (h : l.instr d ch = some (op, l', d')) : Effect d l d' l' := by
  unfold Loc.instr at h
  split at h
  case h_5 =>
    cases h
    exact .quiet rfl rfl rfl ⟨rfl, rfl, rfl, rfl, rfl⟩
  case h_6 wait w chan =>
    obtain ⟨w', hw, rfl⟩ := Loc.instr_wakeup h
    obtain rfl | ⟨k, rfl, rfl, rfl⟩ := Wake.instr_cases hw
    · cases w' with
      | none | some => exact .quiet rfl rfl rfl (Frame.refl _)
    · exact .wake k (.inr rfl) hl rfl rfl (setState_state k _) (Frame.setState _)
  case h_7 =>
    split_ifs at h <;> cases h
    · exact .quiet rfl rfl rfl (Frame.refl _)
    · exact .quiet on_lookNext.1 on_lookNext.2 rfl (Frame.refl _)
  case h_8 j =>
    cases h
    exact .start j rfl hl rfl rfl rfl (setState_state j _) (Frame.setState _)
  case h_10 =>
    obtain ⟨line', hline, rfl⟩ := instr_run h
    exact Line.instr_effect hl hline
  case h_11 => cases h
  all_goals
    cases h
    exact .quiet rfl rfl rfl (Frame.refl _)

end Effect

end Xv6.Kthread
