import Xv6.Sleep.Code

/-!
# The instructions of `sleep` and `wakeup`, rule by rule

What an instruction can do, one rule for each outcome (`Wake.Step`, `Code.Step`, `Line.Step`,
`Loc.Step`), and the locks that a CPU holds at each location (`sleepCode_disciplined`).
-/

namespace Xv6.Sleep

open Lib

variable {σ π ι χ : Type} {P : Program σ π ι χ}

/-! ### Rules -/

inductive Wake.Step (d : Table σ π ι) (me : Option Slot) (t : Target) :
    Wake → LockOp LockId → Wake → Table σ π ι → Prop where
  | lock (k : Fin nproc) : Step d me t (.lock k) (.acquire (.proc k)) (.test k 0) d
  | lockPass (k : Fin nproc) (ht : ∀ ch, t ≠ .chan ch) :
      Step d me t (.lock k) (.acquire (.proc k)) (.unlock k) d
  | test (k : Fin nproc) (l : Fin nthread) (h : t.wakes d me (k, l) = true) :
      Step d me t (.test k l) .none (.set k l) d
  | skip (k : Fin nproc) (l l' : Fin nthread) (hl : l'.val = l.val + 1)
      (h : ¬ t.wakes d me (k, l) = true) : Step d me t (.test k l) .none (.test k l') d
  | skipLast (k : Fin nproc) (l : Fin nthread) (hl : l.val + 1 = nthread)
      (h : ¬ t.wakes d me (k, l) = true) : Step d me t (.test k l) .none (.unlock k) d
  | set (k : Fin nproc) (l l' : Fin nthread) (hl : l'.val = l.val + 1) :
      Step d me t (.set k l) .none (.test k l') (d.setThreadState (k, l) .runnable)
  | setLast (k : Fin nproc) (l : Fin nthread) (hl : l.val + 1 = nthread) :
      Step d me t (.set k l) .none (.unlock k) (d.setThreadState (k, l) .runnable)
  | unlock (k k' : Fin nproc) (hk : k'.val = k.val + 1) :
      Step d me t (.unlock k) (.release (.proc k)) (.lock k') d

variable {d d' : Table σ π ι} {op : LockOp LockId} {ch : Choice χ}

/-- An instruction of the loop, or its end; `wakeup` then has come to the last process. -/
theorem Wake.instr_step {me : Option Slot} {t : Target} {w : Wake} {v : Option Wake}
    (h : w.instr d me t = (op, v, d')) :
    (∃ w', v = some w' ∧ Wake.Step d me t w op w' d') ∨
      v = none ∧ ∃ k, w = .unlock k ∧ op = .release (.proc k) ∧ d' = d ∧
        ((∀ ch, t ≠ .chan ch) ∨ k.val + 1 = nproc) := by
  cases w with
  | lock k =>
    cases h
    refine .inl ⟨_, rfl, ?_⟩
    cases t with
    | chan => exact .lock k
    | kill =>
      simp only [Wake.first]
      split_ifs
      · exact .lock k
      · exact .lockPass k nofun
  | test k l =>
    simp only [Wake.instr, Wake.testNext] at h
    split_ifs at h with hcond hl <;> cases h
    · exact .inl ⟨_, rfl, .test k l hcond⟩
    · exact .inl ⟨_, rfl, .skip k l ⟨l.val + 1, hl⟩ rfl hcond⟩
    · exact .inl ⟨_, rfl, .skipLast k l (by omega) hcond⟩
  | set k l =>
    simp only [Wake.instr, Wake.testNext] at h
    split_ifs at h with hl <;> cases h
    · exact .inl ⟨_, rfl, .set k l ⟨l.val + 1, hl⟩ rfl⟩
    · exact .inl ⟨_, rfl, .setLast k l (by omega)⟩
  | unlock k =>
    simp only [Wake.instr, Wake.lockNext] at h
    split_ifs at h with ht hk <;> cases h
    · exact .inr ⟨rfl, k, rfl, rfl, rfl, .inl (by simp [ht])⟩
    · exact .inl ⟨_, rfl, .unlock k ⟨k.val + 1, hk⟩ rfl⟩
    · exact .inr ⟨rfl, k, rfl, rfl, rfl, .inr (by omega)⟩

variable (P) in
/-- The instructions of a thread or a handler. -/
inductive Code.Step (d : Table σ π ι) (me : Option Slot) :
    Choice χ → Code π → LockOp LockId → Code π → Table σ π ι → Prop where
  | acquire (hs : Finset Nat) (p q : π) (ch : χ) (n : Nat)
      (hop : P.op d.data p ch = some (.acquire n q)) (hn : n ∉ hs) :
      Step d me (.op ch) (.out hs p) (.acquire (.other n)) (.out (insert n hs) q) (d.enter P n)
  | release (hs : Finset Nat) (p q : π) (ch : χ) (n : Nat)
      (hop : P.op d.data p ch = some (.release n q)) (hn : n ∈ hs) :
      Step d me (.op ch) (.out hs p) (.release (.other n)) (.out (hs.erase n) q) d
  | store (hs : Finset Nat) (p q : π) (ch : χ) (v : σ)
      (hop : P.op d.data p ch = some (.store v q)) :
      Step d me (.op ch) (.out hs p) .none (.out hs q) (d.store P v)
  | wake (hs : Finset Nat) (p q : π) (ch : χ) (t : Target)
      (hop : P.op d.data p ch = some (.wake t q)) :
      Step d me (.op ch) (.out hs p) .none (.wake (.lock 0) t hs q) d
  | walk (w w' : Wake) (t : Target) (hs : Finset Nat) (p : π) (op : LockOp LockId)
      (d' : Table σ π ι) (h : Wake.Step d me t w op w' d') :
      Step d me .next (.wake w t hs p) op (.wake w' t hs p) d'
  | walked (k : Fin nproc) (t : Target) (hs : Finset Nat) (p : π)
      (hk : (∀ ch, t ≠ .chan ch) ∨ k.val + 1 = nproc) :
      Step d me .next (.wake (.unlock k) t hs p) (.release (.proc k)) (.out hs p)
        (d.announce P t hs)

theorem Code.instr_step {me : Option Slot} {c c' : Code π}
    (h : c.instr P d me ch = some (op, c', d')) :
    Code.Step P d me ch c op c' d' := by
  unfold Code.instr at h
  split at h
  case h_1 hs p ch =>
    split at h
    case h_1 n q hop =>
      split_ifs at h with hn
      cases h
      exact .acquire hs p q ch n hop hn
    case h_2 n q hop =>
      split_ifs at h with hn
      cases h
      exact .release hs p q ch n hop hn
    case h_3 v q hop =>
      cases h
      exact .store hs p q ch v hop
    case h_4 t q hop =>
      cases h
      exact .wake hs p q ch t hop
    case h_5 => cases h
  case h_2 w t hs p =>
    rcases hw : w.instr d me t with ⟨op', v, d''⟩
    rw [hw] at h
    obtain ⟨w', rfl, hstep⟩ | ⟨rfl, k, rfl, rfl, rfl, hk⟩ := Wake.instr_step hw
    · cases h
      exact .walk w w' t hs p _ _ hstep
    · cases h
      exact .walked k t hs p hk
  case h_3 => cases h

def Line.saved : Line π ι → Option (Saved π ι)
  | .exitSched => some .zombieExit
  | .sleepSched i p => some (.slept i p)
  | .yieldSched r => some (.yielded r)
  | _ => none

variable (P) in

/-- The instructions of a thread, as rules. -/
inductive Line.Step (d : Table σ π ι) (x : Slot) :
    Choice χ → Line π ι → LockOp LockId → Option (Line π ι) → Table σ π ι → Prop where
  | code (ch : Choice χ) (c c' : Code π) (op : LockOp LockId) (d' : Table σ π ι)
      (h : Code.Step P d (some x) ch c op c' d') :
      Step d x ch (.code c) op (some (.code c')) d'
  | sleep (p q : π) (ch : χ) (i : ι) (hop : P.op d.data p ch = some (.sleep i q)) :
      Step d x (.op ch) (.code (.out {P.lock i} p)) .none (some (.sleepLock i q)) d
  | mark (hs : Finset Nat) (p q : π) (ch : χ) (l : Fin nthread)
      (hop : P.op d.data p ch = some (.mark l q)) :
      Step d x (.op ch) (.code (.out hs p)) .none (some (.code (.out hs q)))
        (d.setThreadState (x.1, l) .zombie)
  | exit (p : π) (ch : χ) (hop : P.op d.data p ch = some .exit) :
      Step d x (.op ch) (.code (.out ∅ p)) .none (some .exitLock) d
  | sched (ch : Choice χ) (line : Line π ι) (context : Saved π ι)
      (hsaved : line.saved = some context) (hstate : d.threadState x ≠ .running) :
      Step d x ch line .none none (d.save x context)
  | sleepLock (i : ι) (p : π) :
      Step d x .next (.sleepLock i p) (.acquire (.proc x.1)) (some (.sleepUnlock i p)) d
  | sleepUnlock (i : ι) (p : π) :
      Step d x .next (.sleepUnlock i p) (.release (.other (P.lock i))) (some (.sleepState i p)) d
  | sleepState (i : ι) (p : π) :
      Step d x .next (.sleepState i p) .none (some (.sleepSched i p))
        ((d.setChan x (some (P.chan i))).setThreadState x .sleeping)
  | slept (i : ι) (p : π) :
      Step d x .next (.slept i p) (.release (.proc x.1)) (some (.relock i p)) (d.setChan x none)
  | relock (i : ι) (p : π) :
      Step d x .next (.relock i p) (.acquire (.other (P.lock i)))
        (some (.code (.out {P.lock i} p))) (d.enter P (P.lock i))
  | yield (p : π) : Step d x .timer (.code (.out ∅ p)) .none (some (.yieldLock (.go p))) d
  | yieldRelock (i : ι) (p : π) :
      Step d x .timer (.relock i p) .none (some (.yieldLock (.relock i p))) d
  | yieldLock (r : Resume π ι) :
      Step d x .next (.yieldLock r) (.acquire (.proc x.1)) (some (.yieldState r)) d
  | yieldState (r : Resume π ι) :
      Step d x .next (.yieldState r) .none (some (.yieldSched r)) (d.setThreadState x .runnable)
  | yielded (p : π) :
      Step d x .next (.yielded (.go p)) (.release (.proc x.1)) (some (.code (.out ∅ p))) d
  | yieldedRelock (i : ι) (p : π) :
      Step d x .next (.yielded (.relock i p)) (.release (.proc x.1)) (some (.relock i p)) d
  | forkret (p : π) : Step d x .next (.forkret p) (.release (.proc x.1)) (some (.code (.out ∅ p))) d
  | exitLock : Step d x .next .exitLock (.acquire (.proc x.1)) (some .exitSched) d

section Instr

variable {d d' : Table σ π ι} {x : Slot} {line : Line π ι} {ch : Choice χ} {op : LockOp LockId}
  {line' : Option (Line π ι)}

theorem sched_step {context : Saved π ι} (h : sched d x context = some (op, line', d'))
    (hsaved : line.saved = some context) : Line.Step P d x ch line op line' d' := by
  unfold sched at h
  split_ifs at h with hstate
  cases h
  exact .sched ch line context hsaved hstate

theorem leaves_step {hs : Finset Nat} {p : π} {ch : χ} {o : Op σ π ι} {line : Line π ι}
    (hop : P.op d.data p ch = some o) (h : Code.leaves P d x hs o = some (line, d')) :
    Line.Step P d x (.op ch) (.code (.out hs p)) .none (some line) d' := by
  cases o with
  | sleep i q =>
    simp only [Code.leaves] at h
    split_ifs at h with hhs
    cases h
    rw [hhs]
    exact .sleep p q ch i hop
  | mark l q =>
    cases h
    exact .mark hs p q ch l hop
  | exit =>
    simp only [Code.leaves] at h
    split_ifs at h with hhs
    cases h
    rw [hhs]
    exact .exit p ch hop
  | _ => simp [Code.leaves] at h

/-- The rules cover the code of a thread. -/
theorem Line.instr_step (h : line.instr P d x ch = some (op, line', d')) :
    Line.Step P d x ch line op line' d' := by
  unfold Line.instr at h
  split at h
  case h_1 hs p =>
    split_ifs at h with hhs
    cases h
    rw [hhs]
    exact .yield p
  case h_2 hs p ch =>
    split at h
    case h_1 line d₁ hleaves =>
      cases h
      obtain ⟨o, hop, ho⟩ := Option.bind_eq_some_iff.mp hleaves
      exact leaves_step hop ho
    case h_2 =>
      obtain ⟨⟨op', c', d₁⟩, hc, hpair⟩ := Option.map_eq_some_iff.mp h
      cases hpair
      exact .code _ _ c' _ _ (Code.instr_step hc)
  case h_3 c =>
    obtain ⟨⟨op', c', d₁⟩, hc, hpair⟩ := Option.map_eq_some_iff.mp h
    cases hpair
    exact .code _ c c' _ _ (Code.instr_step hc)
  case h_7 | h_13 | h_17 => exact sched_step h rfl
  case h_14 r =>
    cases h
    cases r <;> constructor
  case h_18 => cases h
  all_goals
    cases h
    constructor

end Instr

variable (P) in

/-- The instructions of a CPU, as rules. -/
inductive Loc.Step (d : Table σ π ι) :
    Choice χ → Loc π ι → LockOp LockId → Loc π ι → Table σ π ι → Prop where
  | interrupt (ch : χ) (l : Loc π ι) (b : Back π ι) (p : π) (hb : l.back = some b)
      (hp : P.intr ch = some p) : Step d (.interrupt ch) l .none (.intr b (.out ∅ p)) d
  | iret (b : Back π ι) (p : π) : Step d .iret (.intr b (.out ∅ p)) .none b.loc d
  | intr (ch : Choice χ) (b : Back π ι) (c c' : Code π) (op : LockOp LockId) (d' : Table σ π ι)
      (h : Code.Step P d b.me ch c op c' d') : Step d ch (.intr b c) op (.intr b c') d'
  | scan (p : Fin nproc) : Step d .next (.scan p) (.acquire (.proc p)) (.look p 0) d
  | lookFound (p : Fin nproc) (j : Fin nthread) (h : d.threadState (p, j) = .runnable) :
      Step d .next (.look p j) .none (.set p j) d
  | lookSkip (p : Fin nproc) (j : Fin nthread) : Step d .next (.look p j) .none (.lookNext p j) d
  | set (p : Fin nproc) (j : Fin nthread) :
      Step d .next (.set p j) .none (.run (p, j) (d.context (p, j)).line)
        (d.setThreadState (p, j) .running)
  | unlock (p : Fin nproc) : Step d .next (.unlock p) (.release (.proc p)) (.scan (p + 1)) d
  | run (ch : Choice χ) (x : Slot) (line line' : Line π ι) (op : LockOp LockId) (d' : Table σ π ι)
      (h : Line.Step P d x ch line op (some line') d') : Step d ch (.run x line) op (.run x line') d'
  | leave (ch : Choice χ) (x : Slot) (line : Line π ι) (context : Saved π ι)
      (hsaved : line.saved = some context) :
      Step d ch (.run x line) .none (.lookNext x.1 x.2) (d.save x context)

/-- The rules cover the code of a CPU. -/
theorem Loc.instr_step {l l' : Loc π ι} (h : l.instr P d ch = some (op, l', d')) :
    Loc.Step P d ch l op l' d' := by
  unfold Loc.instr at h
  split at h
  case h_1 ch =>
    split at h
    case h_1 b p hb hp =>
      cases h
      exact .interrupt ch l b p hb hp
    case h_2 => cases h
  case h_2 b hs p =>
    split_ifs at h with hhs
    cases h
    rw [hhs]
    exact .iret b p
  case h_3 _ b c _ _ =>
    obtain ⟨⟨op', c', d₁⟩, hc, hpair⟩ := Option.map_eq_some_iff.mp h
    cases hpair
    exact .intr _ b c c' _ _ (Code.instr_step hc)
  case h_5 p j =>
    split_ifs at h with hcond <;> cases h
    · exact .lookFound p j hcond
    · exact .lookSkip p j
  case h_8 _ x line _ =>
    rcases hline : line.instr P d x ch with _ | ⟨op', line', d''⟩
    · simp [hline] at h
    have hstep := Line.instr_step hline
    rw [hline] at h
    cases line' with cases h
    | none =>
      cases hstep with
      | sched _ _ context hsaved => exact .leave _ x line context hsaved
    | some line' =>
      exact .run _ x line line' _ _ hstep
  case h_9 => cases h
  all_goals
    cases h
    constructor

/-! ### The program -/

/-- An instruction leaves the program of a thread alone, or executes an operation of it. -/
theorem Line.Step.program {x : Slot} {line line' : Line π ι}
    (h : Line.Step P d x ch line op (some line') d') :
    line'.point = line.point ∧ d'.data = d.data ∨
      ∃ hs p ch' o, line = .code (.out hs p) ∧ ch = .op ch' ∧ P.op d.data p ch' = some o ∧
        line'.point = o.next ∧ d'.data = o.data d.data := by
  cases h with
  | code ch c c' op d' h =>
    cases h with
    | acquire hs p q ch n hop | release hs p q ch n hop | store hs p q ch v hop
    | wake hs p q ch t hop => exact .inr ⟨hs, p, ch, _, rfl, rfl, hop, rfl, rfl⟩
    | walk w w' t hs p op d' h => cases h <;> exact .inl ⟨rfl, rfl⟩
    | walked => exact .inl ⟨rfl, rfl⟩
  | sleep p q ch i hop | exit p ch hop => exact .inr ⟨_, p, ch, _, rfl, rfl, hop, rfl, rfl⟩
  | mark hs p q ch l hop => exact .inr ⟨hs, p, ch, _, rfl, rfl, hop, rfl, rfl⟩
  | _ => exact .inl ⟨rfl, rfl⟩

/-! ### The locks held at each location -/

def Wake.held : Wake → LockId → Prop
  | .lock _, _ => False
  | .test k _, m | .set k _, m | .unlock k, m => m = .proc k

/-- The locks of the monitor that a thread holds. -/
def heldOf (hs : Finset Nat) (m : LockId) : Prop := ∃ n ∈ hs, m = .other n

def Code.held : Code π → LockId → Prop
  | .out hs _, m => heldOf hs m
  | .wake w _ hs _, m => heldOf hs m ∨ w.held m

variable (P) in
def Line.held (p : Fin nproc) : Line π ι → LockId → Prop
  | .code c, m => c.held m
  | .sleepLock i _, m => m = .other (P.lock i)
  | .sleepUnlock i _, m => m = .other (P.lock i) ∨ m = .proc p
  | .relock _ _, _ | .yieldLock _, _ | .exitLock, _ => False
  | .sleepState _ _, m | .sleepSched _ _, m | .slept _ _, m | .yieldState _, m | .yieldSched _, m
  | .yielded _, m | .forkret _, m | .exitSched, m | .zombieExit, m => m = .proc p

variable (P) in
def Loc.held : Loc π ι → LockId → Prop
  | .scan _, _ => False
  | .look p _, m | .set p _, m | .unlock p, m => m = .proc p
  | .run x line, m => line.held P x.1 m
  | .intr _ c, m => c.held m

section Held

variable {hs : Finset Nat} {n : Nat} {p k : Fin nproc} {j : Fin nthread} {m : LockId}

@[simp] theorem heldOf_other : heldOf hs (.other n) ↔ n ∈ hs := by simp [heldOf]

@[simp] theorem not_heldOf_proc : ¬ heldOf hs (.proc k) := by simp [heldOf]

theorem heldOf_empty : ¬ heldOf ∅ m := by simp [heldOf]

theorem heldOf_singleton : heldOf {n} m ↔ m = .other n := by simp [heldOf]

theorem heldOf_insert : heldOf (insert n hs) m ↔ heldOf hs m ∨ m = .other n := by
  simp [heldOf, or_comm]

theorem heldOf_erase : heldOf (hs.erase n) m ↔ heldOf hs m ∧ m ≠ .other n := by
  cases m with
  | proc => simp
  | other => simp [and_comm]

theorem held_saved {c : Saved π ι} : c.line.held P p m ↔ m = .proc p := by
  cases c <;> exact Iff.rfl

theorem held_lookNext : (Loc.lookNext p j : Loc π ι).held P m ↔ m = .proc p := by
  unfold Loc.lookNext
  split_ifs <;> exact Iff.rfl

variable {d d' : Table σ π ι} {me : Option Slot} {op : LockOp LockId} {ch : Choice χ}

theorem Wake.Step.held {t : Target} {w w' : Wake} (h : Wake.Step d me t w op w' d') (m : LockId) :
    w'.held m ↔ op.after w.held m := by
  cases h with
  | lock | lockPass => exact (iff_of_eq (false_or _)).symm
  | unlock => simp [Wake.held, LockOp.after]
  | _ => exact Iff.rfl

theorem Wake.Step.op_ne {t : Target} {w w' : Wake} (h : Wake.Step d me t w op w' d') :
    op = .none ∨ ∃ k, op = .acquire (.proc k) ∨ op = .release (.proc k) := by
  cases h with
  | lock k | lockPass k => exact .inr ⟨k, .inl rfl⟩
  | unlock k => exact .inr ⟨k, .inr rfl⟩
  | _ => exact .inl rfl

theorem Code.Step.held {c c' : Code π} (h : Code.Step P d me ch c op c' d') (m : LockId) :
    c'.held m ↔ op.after c.held m := by
  cases h with
  | acquire => exact heldOf_insert
  | release => exact heldOf_erase
  | store => exact Iff.rfl
  | wake => exact iff_of_eq (or_false _)
  | walk w w' t hs p op d' h =>
    have hw := h.held m
    obtain rfl | ⟨k, rfl | rfl⟩ := h.op_ne
    · exact or_congr_right hw
    · exact (or_congr_right hw).trans or_assoc.symm
    · simp only [Code.held, LockOp.after] at hw ⊢
      rw [hw]
      cases m with
      | proc | other => simp
  | walked =>
    cases m with
    | proc | other => simp [Code.held, LockOp.after, Wake.held]

/-- An instruction changes the locks of its line as its lock operation says. -/
theorem Line.Step.held {x : Slot} {line line' : Line π ι}
    (h : Line.Step P d x ch line op (some line') d') (m : LockId) :
    line'.held P x.1 m ↔ op.after (line.held P x.1) m := by
  cases h with
  | code ch c c' op d' h => exact h.held m
  | sleep => exact heldOf_singleton.symm
  | mark => exact Iff.rfl
  | sleepUnlock =>
    cases m with
    | proc | other => simp [Line.held, LockOp.after]
  | relock => exact heldOf_singleton.trans (iff_of_eq (false_or _)).symm
  | exit | yield | yielded | forkret =>
    simp [Line.held, Code.held, LockOp.after, heldOf_empty]
  | _ => simp [Line.held, LockOp.after]

theorem Line.held_of_saved {line : Line π ι} {context : Saved π ι} (h : line.saved = some context)
    (p : Fin nproc) (m : LockId) : line.held P p m ↔ m = .proc p := by
  cases line with
  | exitSched | sleepSched | yieldSched => exact Iff.rfl
  | _ => cases h

theorem not_held_of_back {l : Loc π ι} {b : Back π ι} (h : l.back = some b) :
    ¬ l.held P m ∧ l = b.loc := by
  unfold Loc.back at h
  split at h
  · cases h
    exact ⟨id, rfl⟩
  · split_ifs at h with hhs
    cases h
    rw [hhs]
    exact ⟨heldOf_empty, rfl⟩
  · cases h
    exact ⟨id, rfl⟩
  · cases h

theorem Back.not_held (b : Back π ι) : ¬ b.loc.held P m := by
  cases b with
  | scan => exact id
  | run x r =>
    cases r with
    | go => exact heldOf_empty
    | relock => exact id

theorem Loc.Step.held {l l' : Loc π ι} (h : Loc.Step P d ch l op l' d') (m : LockId) :
    l'.held P m ↔ op.after (l.held P) m := by
  cases h with
  | interrupt ch l b p hb =>
    have hl := (not_held_of_back (P := P) (m := m) hb).1
    exact ⟨fun h => (heldOf_empty h).elim, fun h => (hl h).elim⟩
  | iret b => exact ⟨fun h => (b.not_held h).elim, fun h => (heldOf_empty h).elim⟩
  | intr ch b c c' op d' h | run ch x line line' op d' h => exact h.held m
  | scan => exact (iff_of_eq (false_or _)).symm
  | lookFound => exact Iff.rfl
  | lookSkip => exact held_lookNext
  | set => exact held_saved
  | unlock => simp [Loc.held, LockOp.after]
  | leave ch x line context hsaved =>
    exact held_lookNext.trans (Line.held_of_saved hsaved x.1 m).symm

theorem sleepCode_disciplined : (sleepCode P).Disciplined (Loc.held P) := by
  intro d l ch op l' d' h
  exact (Loc.instr_step h).held

end Held

end Xv6.Sleep
