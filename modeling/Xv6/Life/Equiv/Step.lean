import Xv6.Life.Code

/-!
# The instructions, rule by rule

What an instruction can do, one rule for each outcome (`Wake.Step`, `Line.Step`, `Loc.Step`), and
the locks that a CPU holds at each location (`lifeCode_disciplined`).
-/

namespace Xv6.Life

open Lib

/-! ### Rules -/

/-- The instructions of `wakeup`, as rules. -/
inductive Wake.Step (d : Table) (me : Option Slot) (chan : Option Chan) :
    Wake → LockOp LockId → Wake → Table → Prop where
  | lock (k : Fin nproc) : Step d me chan (.lock k) (.acquire (.proc k)) (.test k 0) d
  | test (k : Fin nproc) (l : Fin nthread)
      (h : me ≠ some (k, l) ∧ d.threadState (k, l) = .sleeping ∧ d.chan (k, l) = chan) :
      Step d me chan (.test k l) .none (.set k l) d
  | skip (k : Fin nproc) (l l' : Fin nthread) (hl : l'.val = l.val + 1)
      (h : ¬ (me ≠ some (k, l) ∧ d.threadState (k, l) = .sleeping ∧ d.chan (k, l) = chan)) :
      Step d me chan (.test k l) .none (.test k l') d
  | skipLast (k : Fin nproc) (l : Fin nthread) (hl : l.val + 1 = nthread)
      (h : ¬ (me ≠ some (k, l) ∧ d.threadState (k, l) = .sleeping ∧ d.chan (k, l) = chan)) :
      Step d me chan (.test k l) .none (.unlock k) d
  | set (k : Fin nproc) (l l' : Fin nthread) (hl : l'.val = l.val + 1) :
      Step d me chan (.set k l) .none (.test k l') (d.setThreadState (k, l) .runnable)
  | setLast (k : Fin nproc) (l : Fin nthread) (hl : l.val + 1 = nthread) :
      Step d me chan (.set k l) .none (.unlock k) (d.setThreadState (k, l) .runnable)
  | unlock (k k' : Fin nproc) (hk : k'.val = k.val + 1) :
      Step d me chan (.unlock k) (.release (.proc k)) (.lock k') d

variable {d d' : Table} {op : LockOp LockId}

theorem Wake.instr_step {me : Option Slot} {chan : Option Chan} {w : Wake} {v : Option Wake}
    (h : w.instr d me chan = (op, v, d')) :
    (∃ w', v = some w' ∧ Wake.Step d me chan w op w' d') ∨
      v = none ∧ ∃ k : Fin nproc, k.val + 1 = nproc ∧ w = .unlock k ∧ op = .release (.proc k) ∧
        d' = d := by
  cases w with
  | lock k =>
    cases h
    exact .inl ⟨_, rfl, .lock k⟩
  | test k l =>
    simp only [Wake.instr, Wake.testNext] at h
    split_ifs at h with hcond hl <;> cases h
    · exact .inl ⟨_, rfl, .test k l hcond⟩
    · exact .inl ⟨_, rfl, .skip k l ⟨l.val + 1, hl⟩ rfl hcond⟩
    · exact .inl ⟨_, rfl, .skipLast k l (by omega) hcond⟩
  | set k l =>
    simp only [Wake.instr, Wake.testNext] at h
    split_ifs at h with hl <;> cases h
    · exact .inl ⟨_, rfl, .set k l ⟨l.val + 1, hl⟩ rfl⟩
    · exact .inl ⟨_, rfl, .setLast k l (by omega)⟩
  | unlock k =>
    simp only [Wake.instr, Wake.lockNext] at h
    split_ifs at h with hk <;> cases h
    · exact .inl ⟨_, rfl, .unlock k ⟨k.val + 1, hk⟩ rfl⟩
    · exact .inr ⟨rfl, k, by omega, rfl, rfl, rfl⟩

/-- The context that a thread leaves behind in `sched`. -/
def Line.saved : Line → Option Saved
  | .exitSched => some .zombieExit
  | .sleepSched sl => some (.slept sl)
  | .yieldSched e => some (.yielded e)
  | _ => none

/-- The instructions of a thread, as rules; `none` is a switch to the scheduler. -/
inductive Line.Step (d : Table) (x : Slot) :
    Line → LockOp LockId → Option Line → Table → Prop where
  | yield (e : Entry) : Step d x (.out e) .none (some (.yieldLock e)) d
  | ignore (e : Entry) : Step d x (.out e) .none (some (.out e)) d
  | interrupt (e : Entry) (chan : Chan) :
      Step d x (.out e) .none (some (.wakeup (.lock 0) (some chan) (.resume e))) d
  -- calls
  | callFs : Step d x (.out .user) .none (some (.out (.fs ∅))) d
  | callWait : Step d x (.out .user) .none (some (.out .wait)) d
  | callFork : Step d x (.out .user) .none (some (.out (.alloc 0))) d
  | callLock (n : Nat) (hs : Finset Nat) :
      Step d x (.out (.fs hs)) .none (some (.out (.lock n hs))) d
  | callUnlock (n : Nat) (hs : Finset Nat) (h : n ∈ hs) :
      Step d x (.out (.fs hs)) .none (some (.out (.unlock n hs))) d
  | callBlock (n : Nat) (chan : Chan) (hs : Finset Nat) :
      Step d x (.out (.fs hs)) .none (some (.out (.block n chan hs))) d
  | callSignal (n : Nat) (chan : Chan) (hs : Finset Nat) :
      Step d x (.out (.fs hs)) .none (some (.out (.signal n chan hs))) d
  | callRet : Step d x (.out (.fs ∅)) .none (some (.out .user)) d
  | callExit : Step d x (.out (.fs ∅)) .none (some (.out .exit)) d
  | callKill (b : Bool) : Step d x (.out .user) .none (some (.out (.kill 0 b))) d
  -- the first lock
  | enterLock (n : Nat) (hs : Finset Nat) :
      Step d x (.out (.lock n hs)) (.acquire (.sleep n)) (some (.lockTest n hs)) d
  | enterUnlock (n : Nat) (hs : Finset Nat) :
      Step d x (.out (.unlock n hs)) (.acquire (.sleep n)) (some (.unlockSet n hs)) d
  | enterBlock (n : Nat) (chan : Chan) (hs : Finset Nat) :
      Step d x (.out (.block n chan hs)) (.acquire (.other n)) (some (.blocked n chan hs)) d
  | enterSignal (n : Nat) (chan : Chan) (hs : Finset Nat) :
      Step d x (.out (.signal n chan hs)) (.acquire (.other n))
        (some (.wakeup (.lock 0) (some chan) (.signal n hs))) d
  | enterExit (h : x.1 ≠ initproc) : Step d x (.out .exit) (.acquire .wait) (some (.reparent 0)) d
  | enterWait : Step d x (.out .wait) (.acquire .wait) (some (.waitScan 0 false)) d
  | enterAlloc (k : Fin nproc) :
      Step d x (.out (.alloc k)) (.acquire (.proc k)) (some (.allocTest k)) d
  | enterLink (k : Fin nproc) : Step d x (.out (.link k)) (.acquire .wait) (some (.setParent k)) d
  | enterStart (k : Fin nproc) :
      Step d x (.out (.start k)) (.acquire (.proc k)) (some (.startState k)) d
  | enterKill (k : Fin nproc) (b : Bool) :
      Step d x (.out (.kill k b)) (.acquire (.proc k)) (some (.killCheck k b)) d
  -- wakeup, and where it returns behind the last process
  | wakeup (w w' : Wake) (chan : Option Chan) (ret : Ret) (op : LockOp LockId) (d' : Table)
      (h : Wake.Step d (some x) chan w op w' d') :
      Step d x (.wakeup w chan ret) op (some (.wakeup w' chan ret)) d'
  | wokenReparent (q : Fin nproc) (hq : q.val + 1 = nproc) (chan : Option Chan) (k k' : Fin nproc)
      (hk : k'.val = k.val + 1) :
      Step d x (.wakeup (.unlock q) chan (.reparent k)) (.release (.proc q))
        (some (.reparent k')) d
  | wokenReparentLast (q : Fin nproc) (hq : q.val + 1 = nproc) (chan : Option Chan) (k : Fin nproc)
      (hk : k.val + 1 = nproc) :
      Step d x (.wakeup (.unlock q) chan (.reparent k)) (.release (.proc q)) (some .wakeParent) d
  | wokenParent (q : Fin nproc) (hq : q.val + 1 = nproc) (chan : Option Chan) :
      Step d x (.wakeup (.unlock q) chan .parent) (.release (.proc q)) (some (.mark 0)) d
  | wokenMark (q : Fin nproc) (hq : q.val + 1 = nproc) (chan : Option Chan) (l l' : Fin nthread)
      (hl : l'.val = l.val + 1) :
      Step d x (.wakeup (.unlock q) chan (.marked l)) (.release (.proc q)) (some (.mark l')) d
  | wokenMarkLast (q : Fin nproc) (hq : q.val + 1 = nproc) (chan : Option Chan) (l : Fin nthread)
      (hl : l.val + 1 = nthread) :
      Step d x (.wakeup (.unlock q) chan (.marked l)) (.release (.proc q)) (some .exitLock) d
  | wokenUnlock (q : Fin nproc) (hq : q.val + 1 = nproc) (chan : Option Chan) (n : Nat)
      (hs : Finset Nat) :
      Step d x (.wakeup (.unlock q) chan (.unlock n hs)) (.release (.proc q))
        (some (.sleepLockDone n hs)) d
  | wokenSignal (q : Fin nproc) (hq : q.val + 1 = nproc) (chan : Option Chan) (n : Nat)
      (hs : Finset Nat) :
      Step d x (.wakeup (.unlock q) chan (.signal n hs)) (.release (.proc q))
        (some (.signalled n hs)) d
  | wokenResume (q : Fin nproc) (hq : q.val + 1 = nproc) (chan : Option Chan) (e : Entry) :
      Step d x (.wakeup (.unlock q) chan (.resume e)) (.release (.proc q)) (some (.out e)) d
  -- exit
  | reparent (k : Fin nproc) (h : d.parent k = some x.1) :
      Step d x (.reparent k) .none
        (some (.wakeup (.lock 0) (some (.thread initproc d.mainThread)) (.reparent k)))
        (d.setParent k initproc)
  | reparentSkip (k k' : Fin nproc) (hk : k'.val = k.val + 1) (h : d.parent k ≠ some x.1) :
      Step d x (.reparent k) .none (some (.reparent k')) d
  | reparentSkipLast (k : Fin nproc) (hk : k.val + 1 = nproc) (h : d.parent k ≠ some x.1) :
      Step d x (.reparent k) .none (some .wakeParent) d
  | wakeParent :
      Step d x .wakeParent .none
        (some (.wakeup (.lock 0) ((d.parent x.1).map .proc) .parent)) d
  | mark (l : Fin nthread) :
      Step d x (.mark l) .none (some (.wakeup (.lock 0) (some (.thread x.1 l)) (.marked l)))
        (d.setThreadState (x.1, l) .zombie)
  | exitLock : Step d x .exitLock (.acquire (.proc x.1)) (some .zombie) d
  | zombie : Step d x .zombie .none (some .exitUnlock) (d.setProcState x.1 .zombie)
  | exitUnlock : Step d x .exitUnlock (.release .wait) (some .exitSched) d
  | sched (line : Line) (context : Saved) (hsaved : line.saved = some context)
      (hstate : d.threadState x ≠ .running) : Step d x line .none none (d.save x context)
  -- wait
  | waitFound (k : Fin nproc) (b : Bool) (h : d.parent k = some x.1) :
      Step d x (.waitScan k b) .none (some (.waitLock k)) d
  | waitSkip (k k' : Fin nproc) (b : Bool) (hk : k'.val = k.val + 1) (h : d.parent k ≠ some x.1) :
      Step d x (.waitScan k b) .none (some (.waitScan k' b)) d
  | waitSkipLast (k : Fin nproc) (b : Bool) (hk : k.val + 1 = nproc) (h : d.parent k ≠ some x.1) :
      Step d x (.waitScan k b) .none (some (.waitEnd b)) d
  | waitLock (k : Fin nproc) : Step d x (.waitLock k) (.acquire (.proc k)) (some (.waitTest k)) d
  | waitZombie (k : Fin nproc) (h : d.procState k = .zombie) :
      Step d x (.waitTest k) .none (some (.waitFree k)) d
  | waitAlive (k k' : Fin nproc) (hk : k'.val = k.val + 1) (h : d.procState k ≠ .zombie) :
      Step d x (.waitTest k) (.release (.proc k)) (some (.waitScan k' true)) d
  | waitAliveLast (k : Fin nproc) (hk : k.val + 1 = nproc) (h : d.procState k ≠ .zombie) :
      Step d x (.waitTest k) (.release (.proc k)) (some (.waitEnd true)) d
  | waitFail (k : Fin nproc) : Step d x (.waitTest k) (.release (.proc k)) (some .waitReturn) d
  | waitFree (k : Fin nproc) : Step d x (.waitFree k) .none (some (.waitFreed k)) (d.free k)
  | waitFreed (k : Fin nproc) : Step d x (.waitFreed k) (.release (.proc k)) (some .waitReturn) d
  | waitReturn : Step d x .waitReturn (.release .wait) (some (.out .user)) d
  | waitNone (b : Bool) : Step d x (.waitEnd b) (.release .wait) (some (.out .user)) d
  | waitSleep (b : Bool) : Step d x (.waitEnd b) .none (some (.sleepLock .wait)) d
  -- fork
  | allocFound (k : Fin nproc) (h : d.procState k = .unused) :
      Step d x (.allocTest k) .none (some (.setup k)) (d.alloc x.1 k)
  | allocSkip (k k' : Fin nproc) (hk : k'.val = k.val + 1) :
      Step d x (.allocTest k) (.release (.proc k)) (some (.out (.alloc k'))) d
  | allocSkipLast (k : Fin nproc) (hk : k.val + 1 = nproc) :
      Step d x (.allocTest k) (.release (.proc k)) (some (.out .user)) d
  | setup (k : Fin nproc) : Step d x (.setup k) .none (some (.setupUnlock k)) d
  | setupFail (k : Fin nproc) : Step d x (.setup k) .none (some (.failed k)) (d.allocFail k)
  | failed (k : Fin nproc) : Step d x (.failed k) (.release (.proc k)) (some (.out .user)) d
  | setupUnlock (k : Fin nproc) :
      Step d x (.setupUnlock k) (.release (.proc k)) (some (.out (.link k))) d
  | setParent (k : Fin nproc) :
      Step d x (.setParent k) .none (some (.linkUnlock k)) (d.setParent k x.1)
  | linkUnlock (k : Fin nproc) :
      Step d x (.linkUnlock k) (.release .wait) (some (.out (.start k))) d
  | startState (k : Fin nproc) :
      Step d x (.startState k) .none (some (.startUnlock k)) (d.setThreadState (k, 0) .runnable)
  | startUnlock (k : Fin nproc) :
      Step d x (.startUnlock k) (.release (.proc k)) (some (.out .user)) d
  -- sleep-locks and other code
  | lockBusy (n : Nat) (hs : Finset Nat) :
      Step d x (.lockTest n hs) .none (some (.sleepLock (.lock n hs))) d
  | lockFree (n : Nat) (hs : Finset Nat) (h : d.locked n = false) :
      Step d x (.lockTest n hs) .none (some (.sleepLockDone n (insert n hs))) (d.lock n x)
  | unlockSet (n : Nat) (hs : Finset Nat) :
      Step d x (.unlockSet n hs) .none
        (some (.wakeup (.lock 0) (some (.sleep n)) (.unlock n (hs.erase n)))) (d.unlock n)
  | sleepLockDone (n : Nat) (hs : Finset Nat) :
      Step d x (.sleepLockDone n hs) (.release (.sleep n)) (some (.out (.fs hs))) d
  | block (n : Nat) (chan : Chan) (hs : Finset Nat) :
      Step d x (.blocked n chan hs) .none (some (.sleepLock (.block n chan hs))) d
  | unblock (n : Nat) (chan : Chan) (hs : Finset Nat) :
      Step d x (.blocked n chan hs) (.release (.other n)) (some (.out (.fs hs))) d
  | signalled (n : Nat) (hs : Finset Nat) :
      Step d x (.signalled n hs) (.release (.other n)) (some (.out (.fs hs))) d
  -- sleep and yield
  | sleepLock (sl : Sleep) :
      Step d x (.sleepLock sl) (.acquire (.proc x.1)) (some (.sleepUnlock sl)) d
  | sleepUnlock (sl : Sleep) :
      Step d x (.sleepUnlock sl) (.release sl.lockId) (some (.sleepState sl)) d
  | sleepState (sl : Sleep) :
      Step d x (.sleepState sl) .none (some (.sleepSched sl))
        ((d.setChan x (some (sl.chan x.1))).setThreadState x .sleeping)
  | sleptWait :
      Step d x (.slept .wait) (.release (.proc x.1)) (some (.out .wait)) (d.setChan x none)
  | sleptLock (n : Nat) (hs : Finset Nat) :
      Step d x (.slept (.lock n hs)) (.release (.proc x.1)) (some (.out (.lock n hs)))
        (d.setChan x none)
  | sleptBlock (n : Nat) (chan : Chan) (hs : Finset Nat) :
      Step d x (.slept (.block n chan hs)) (.release (.proc x.1)) (some (.out (.block n chan hs)))
        (d.setChan x none)
  | yieldLock (e : Entry) : Step d x (.yieldLock e) (.acquire (.proc x.1)) (some (.yieldState e)) d
  | yieldState (e : Entry) :
      Step d x (.yieldState e) .none (some (.yieldSched e)) (d.setThreadState x .runnable)
  | yielded (e : Entry) : Step d x (.yielded e) (.release (.proc x.1)) (some (.out e)) d
  | forkret : Step d x .forkret (.release (.proc x.1)) (some (.out .user)) d
  -- kill
  | killFound (k : Fin nproc) : Step d x (.killCheck k true) .none (some (.killTest k 0)) d
  | killOther (k : Fin nproc) : Step d x (.killCheck k false) .none (some (.killDone k)) d
  | killSkip (k k' : Fin nproc) (b : Bool) (hk : k'.val = k.val + 1) :
      Step d x (.killCheck k b) (.release (.proc k)) (some (.out (.kill k' b))) d
  | killSkipLast (k : Fin nproc) (b : Bool) (hk : k.val + 1 = nproc) :
      Step d x (.killCheck k b) (.release (.proc k)) (some (.out .user)) d
  | killSleeps (k : Fin nproc) (l : Fin nthread) (h : d.threadState (k, l) = .sleeping) :
      Step d x (.killTest k l) .none (some (.killSet k l)) d
  | killAwake (k : Fin nproc) (l l' : Fin nthread) (hl : l'.val = l.val + 1) :
      Step d x (.killTest k l) .none (some (.killTest k l')) d
  | killAwakeLast (k : Fin nproc) (l : Fin nthread) (hl : l.val + 1 = nthread) :
      Step d x (.killTest k l) .none (some (.killDone k)) d
  | killSet (k : Fin nproc) (l l' : Fin nthread) (hl : l'.val = l.val + 1) :
      Step d x (.killSet k l) .none (some (.killTest k l')) (d.setThreadState (k, l) .runnable)
  | killSetLast (k : Fin nproc) (l : Fin nthread) (hl : l.val + 1 = nthread) :
      Step d x (.killSet k l) .none (some (.killDone k)) (d.setThreadState (k, l) .runnable)
  | killDone (k : Fin nproc) :
      Step d x (.killDone k) (.release (.proc k)) (some (.out .user)) d

section Instr

variable {d d' : Table} {x : Slot} {line : Line} {op : LockOp LockId} {line' : Option Line}

theorem sched_step {context : Saved} (h : Life.sched d x context = some (op, line', d'))
    (hsaved : line.saved = some context) : Line.Step d x line op line' d' := by
  unfold Life.sched at h
  split_ifs at h with hstate
  cases h
  exact .sched line context hsaved hstate

theorem call_step {e e' : Entry} {c : Syscall} (h : e.call c = some e') :
    Line.Step d x (.out e) .none (some (.out e')) d := by
  unfold Entry.call at h
  split at h
  case h_5 hs n =>
    split_ifs at h with hn
    cases h
    exact .callUnlock n hs hn
  case h_8 hs | h_9 hs =>
    split_ifs at h with hempty
    cases h
    rw [hempty]
    constructor
  case h_11 => cases h
  all_goals
    cases h
    constructor

theorem enter_step {e : Entry} {m : LockId} {line : Line} (h : e.next x = some (m, line)) :
    Line.Step d x (.out e) (.acquire m) (some line) d := by
  cases e with
  | user | fs => cases h
  | exit =>
    simp only [Entry.next] at h
    split_ifs at h with hx
    cases h
    exact .enterExit hx
  | _ =>
    cases h
    constructor

theorem woken_step {q : Fin nproc} (hq : q.val + 1 = nproc) (chan : Option Chan) (ret : Ret) :
    Line.Step d x (.wakeup (.unlock q) chan ret) (.release (.proc q)) (some ret.line) d := by
  cases ret with
  | reparent k =>
    simp only [Ret.line, Line.reparentNext]
    split_ifs with hk
    · exact .wokenReparent q hq chan k ⟨k.val + 1, hk⟩ rfl
    · exact .wokenReparentLast q hq chan k (by omega)
  | marked l =>
    simp only [Ret.line, Line.markNext]
    split_ifs with hl
    · exact .wokenMark q hq chan l ⟨l.val + 1, hl⟩ rfl
    · exact .wokenMarkLast q hq chan l (by omega)
  | parent => exact .wokenParent q hq chan
  | unlock n hs => exact .wokenUnlock q hq chan n hs
  | signal n hs => exact .wokenSignal q hq chan n hs
  | resume e => exact .wokenResume q hq chan e

/-- The rules cover the code of a thread. -/
theorem Line.instr_step {ch : Choice} (h : line.instr d x ch = some (op, line', d')) :
    Line.Step d x line op line' d' := by
  unfold Line.instr at h
  split at h
  case h_1 e =>
    split_ifs at h <;> cases h
    · exact .yield e
    · exact .ignore e
  case h_3 e c =>
    obtain ⟨e', he', hpair⟩ := Option.map_eq_some_iff.mp h
    cases hpair
    exact call_step he'
  case h_4 e =>
    obtain ⟨⟨m, line₁⟩, he, hpair⟩ := Option.map_eq_some_iff.mp h
    cases hpair
    exact enter_step he
  case h_5 w chan ret =>
    rcases hw : w.instr d (some x) chan with ⟨op', v, d''⟩
    rw [hw] at h
    obtain ⟨w', rfl, hstep⟩ | ⟨rfl, q, hq, rfl, rfl, rfl⟩ := Wake.instr_step hw
    · cases h
      exact .wakeup w w' chan ret _ _ hstep
    · cases h
      exact woken_step hq chan ret
  case h_6 k =>
    simp only [Line.reparentNext] at h
    split_ifs at h with hcond hk <;> cases h
    · exact .reparent k hcond
    · exact .reparentSkip k ⟨k.val + 1, hk⟩ rfl hcond
    · exact .reparentSkipLast k (by omega) hcond
  case h_13 k b =>
    simp only [Line.waitNext] at h
    split_ifs at h with hcond hk <;> cases h
    · exact .waitFound k b hcond
    · exact .waitSkip k ⟨k.val + 1, hk⟩ b rfl hcond
    · exact .waitSkipLast k b (by omega) hcond
  case h_15 k =>
    simp only [Line.waitNext] at h
    split_ifs at h with hcond hk <;> cases h
    · exact .waitZombie k hcond
    · exact .waitAlive k ⟨k.val + 1, hk⟩ rfl hcond
    · exact .waitAliveLast k (by omega) hcond
  case h_16 k =>
    split_ifs at h
    cases h
    exact .waitFail k
  case h_20 b =>
    split_ifs at h <;> cases h
    · exact .waitNone b
    · exact .waitSleep b
  case h_22 k =>
    simp only [Entry.allocNext] at h
    split_ifs at h with hcond hk <;> cases h
    · exact .allocFound k hcond
    · exact .allocSkip k ⟨k.val + 1, hk⟩ rfl
    · exact .allocSkipLast k (by omega)
  case h_31 n hs =>
    split_ifs at h with hcond <;> cases h
    · exact .lockBusy n hs
    · exact .lockFree n hs (by simpa using hcond)
  case h_41 sl =>
    cases h
    cases sl <;> constructor
  case h_47 k b =>
    cases b <;> cases h
    · exact .killOther k
    · exact .killFound k
  case h_48 k b =>
    simp only [Entry.killNext] at h
    split_ifs at h with hk <;> cases h
    · exact .killSkip k ⟨k.val + 1, hk⟩ b rfl
    · exact .killSkipLast k b (by omega)
  case h_49 k l =>
    simp only [Line.killNext] at h
    split_ifs at h with hcond hl <;> cases h
    · exact .killSleeps k l hcond
    · exact .killAwake k l ⟨l.val + 1, hl⟩ rfl
    · exact .killAwakeLast k l (by omega)
  case h_50 k l =>
    simp only [Line.killNext] at h
    split_ifs at h with hl <;> cases h
    · exact .killSet k l ⟨l.val + 1, hl⟩ rfl
    · exact .killSetLast k l (by omega)
  case h_12 | h_40 | h_44 => exact sched_step h rfl
  case h_52 => cases h
  all_goals
    cases h
    constructor

end Instr

/-- The instructions of a CPU, as rules. -/
inductive Loc.Step (d : Table) : Loc → LockOp LockId → Loc → Table → Prop where
  | scan (p : Fin nproc) : Step d (.scan p) (.acquire (.proc p)) (.look p 0) d
  | interrupt (p : Fin nproc) (chan : Chan) : Step d (.scan p) .none (.intr p (.lock 0) chan) d
  | lookFound (p : Fin nproc) (j : Fin nthread) (h : d.threadState (p, j) = .runnable) :
      Step d (.look p j) .none (.set p j) d
  | lookSkip (p : Fin nproc) (j : Fin nthread) : Step d (.look p j) .none (.lookNext p j) d
  | set (p : Fin nproc) (j : Fin nthread) :
      Step d (.set p j) .none (.run (p, j) (d.context (p, j)).line)
        (d.setThreadState (p, j) .running)
  | unlock (p : Fin nproc) : Step d (.unlock p) (.release (.proc p)) (.scan (p + 1)) d
  | intr (p : Fin nproc) (w w' : Wake) (chan : Chan) (op : LockOp LockId) (d' : Table)
      (h : Wake.Step d none (some chan) w op w' d') :
      Step d (.intr p w chan) op (.intr p w' chan) d'
  | intrDone (p q : Fin nproc) (chan : Chan) :
      Step d (.intr p (.unlock q) chan) (.release (.proc q)) (.scan p) d
  | run (x : Slot) (line line' : Line) (op : LockOp LockId) (d' : Table)
      (h : Line.Step d x line op (some line') d') : Step d (.run x line) op (.run x line') d'
  | leave (x : Slot) (line : Line) (context : Saved) (hsaved : line.saved = some context) :
      Step d (.run x line) .none (.lookNext x.1 x.2) (d.save x context)

/-- The rules cover the code of a CPU. -/
theorem Loc.instr_step {l l' : Loc} {ch : Choice} (h : l.instr d ch = some (op, l', d')) :
    Loc.Step d l op l' d' := by
  unfold Loc.instr at h
  split at h
  case h_3 p j =>
    split_ifs at h with hcond <;> cases h
    · exact .lookFound p j hcond
    · exact .lookSkip p j
  case h_6 p w chan =>
    rcases hw : w.instr d none (some chan) with ⟨op', v, d''⟩
    rw [hw] at h
    obtain ⟨w', rfl, hstep⟩ | ⟨rfl, q, -, rfl, rfl, rfl⟩ := Wake.instr_step hw
    · cases h
      exact .intr p w w' chan _ _ hstep
    · cases h
      exact .intrDone p q chan
  case h_7 =>
    rename_i x line
    rcases hline : line.instr d x ch with _ | ⟨op', line', d''⟩
    · simp [hline] at h
    have hstep := Line.instr_step hline
    rw [hline] at h
    cases line' with cases h
    | none =>
      cases hstep with
      | sched _ context hsaved => exact .leave x line context hsaved
    | some line' =>
      exact .run x line line' _ _ hstep
  case h_8 => cases h
  all_goals
    cases h
    constructor

/-! ### The locks held at each location -/

def Wake.held : Wake → LockId → Prop
  | .lock _, _ => False
  | .test k _, m | .set k _, m | .unlock k, m => m = .proc k

def Ret.held : Ret → LockId → Prop
  | .reparent _, m | .parent, m | .marked _, m => m = .wait
  | .unlock n _, m => m = .sleep n
  | .signal n _, m => m = .other n
  | .resume _, _ => False

/-- The locks that a thread of process `p` holds at a line. -/
def Line.held (p : Fin nproc) : Line → LockId → Prop
  | .out _, _ | .yieldLock _, _ => False
  | .wakeup w _ ret, m => ret.held m ∨ w.held m
  | .reparent _, m | .wakeParent, m | .mark _, m | .exitLock, m | .waitScan _ _, m | .waitLock _, m
  | .waitReturn, m | .waitEnd _, m | .setParent _, m | .linkUnlock _, m => m = .wait
  | .zombie, m | .exitUnlock, m => m = .wait ∨ m = .proc p
  | .waitTest k, m | .waitFree k, m | .waitFreed k, m => m = .wait ∨ m = .proc k
  | .allocTest k, m | .setup k, m | .failed k, m | .setupUnlock k, m | .startState k, m
  | .startUnlock k, m | .killCheck k _, m | .killTest k _, m | .killSet k _, m
  | .killDone k, m => m = .proc k
  | .lockTest n _, m | .unlockSet n _, m | .sleepLockDone n _, m => m = .sleep n
  | .blocked n _ _, m | .signalled n _, m => m = .other n
  | .sleepLock sl, m => m = sl.lockId
  | .sleepUnlock sl, m => m = sl.lockId ∨ m = .proc p
  | .exitSched, m | .zombieExit, m | .sleepState _, m | .sleepSched _, m | .slept _, m
  | .yieldState _, m | .yieldSched _, m | .yielded _, m | .forkret, m => m = .proc p

/-- The locks that a CPU holds at a location. -/
def Loc.held : Loc → LockId → Prop
  | .scan _, _ => False
  | .look p _, m | .set p _, m | .unlock p, m => m = .proc p
  | .intr _ w _, m => w.held m
  | .run x line, m => line.held x.1 m

section Held

variable {p k : Fin nproc} {j l : Fin nthread} {m a b : LockId}

theorem proc_ne_wait (k : Fin nproc) : LockId.proc k ≠ .wait := nofun

theorem release_last : m = a ∧ m ≠ a ↔ False := ⟨fun h => h.2 h.1, False.elim⟩

theorem release_first (h : b ≠ a) : (m = a ∨ m = b) ∧ m ≠ a ↔ m = b := by
  constructor
  · rintro ⟨hm | hm, hne⟩
    · exact absurd hm hne
    · exact hm
  · rintro rfl
    exact ⟨.inr rfl, h⟩

theorem release_second (h : a ≠ b) : (m = a ∨ m = b) ∧ m ≠ b ↔ m = a := by
  rw [or_comm]
  exact release_first h

theorem Sleep.proc_ne_lockId (sl : Sleep) (k : Fin nproc) :
    LockId.proc k ≠ sl.lockId := by
  cases sl <;> exact nofun

theorem held_saved {c : Saved} : c.line.held p m ↔ m = .proc p := by
  cases c <;> exact Iff.rfl

theorem held_lookNext : (Loc.lookNext p j).held m ↔ m = .proc p := by
  unfold Loc.lookNext
  split_ifs <;> exact Iff.rfl

theorem Wake.Step.held {d d' : Table} {me : Option Slot} {chan : Option Chan} {w w' : Wake}
    {op : LockOp LockId} (h : Wake.Step d me chan w op w' d') (m : LockId) :
    w'.held m ↔ op.after w.held m := by
  cases h with
  | lock => exact (iff_of_eq (false_or _)).symm
  | unlock => exact release_last.symm
  | _ => exact Iff.rfl

theorem Ret.not_held_proc {ret : Ret} : ¬ ret.held (.proc k) := by
  cases ret <;> exact nofun

end Held

/-- `wakeup` leaves the lock alone with which it was called. -/
theorem after_or {P Q : LockId → Prop} {m : LockId} (h : ∀ k, op = .release k → ¬ P k) :
    P m ∨ op.after Q m ↔ op.after (fun m => P m ∨ Q m) m := by
  cases op with
  | none => exact Iff.rfl
  | acquire => exact or_assoc.symm
  | release =>
    constructor
    · rintro (hP | ⟨hQ, hne⟩)
      · refine ⟨.inl hP, ?_⟩
        rintro rfl
        exact h m rfl hP
      · exact ⟨.inr hQ, hne⟩
    · rintro ⟨hP | hQ, hne⟩
      · exact .inl hP
      · exact .inr ⟨hQ, hne⟩

/-- An instruction changes the locks of its line as its lock operation says. -/
theorem Line.Step.held {x : Slot} {line line' : Line} (h : Line.Step d x line op (some line') d')
    (m : LockId) :
    line'.held x.1 m ↔ op.after (line.held x.1) m := by
  cases h with
  | wakeup w w' chan ret op d' h =>
    have hop : ∀ k, op = .release k → ¬ ret.held k := by
      cases h <;> intro k hk
      all_goals cases hk
      exact Ret.not_held_proc
    exact (or_congr_right (h.held m)).trans (after_or hop)
  | interrupt | reparent | wakeParent | mark | unlockSet => exact iff_of_eq (or_false _)
  | enterSignal => exact (iff_of_eq (or_false _)).trans (iff_of_eq (false_or _)).symm
  | enterLock | enterUnlock | enterBlock | enterExit | enterWait | enterAlloc | enterLink
  | enterStart | enterKill | yieldLock => exact (iff_of_eq (false_or _)).symm
  -- the first of two locks is released, or the second
  | exitUnlock => exact (release_first (proc_ne_wait x.1)).symm
  | sleepUnlock sl => exact (release_first (sl.proc_ne_lockId x.1)).symm
  | waitAlive k | waitAliveLast k | waitFail k | waitFreed k =>
    exact (release_second (proc_ne_wait k).symm).symm
  | wokenReparent q | wokenReparentLast q | wokenParent q | wokenMark q | wokenMarkLast q =>
    exact (release_second (proc_ne_wait q).symm).symm
  | wokenUnlock q hq chan n => exact (release_second (Sleep.proc_ne_lockId (.lock n ∅) q).symm).symm
  | wokenSignal q hq chan n =>
    exact (release_second (Sleep.proc_ne_lockId (.block n (.other 0) ∅) q).symm).symm
  -- the last lock is released
  | wokenResume => exact (and_congr_left' (iff_of_eq (false_or _)) |>.trans release_last).symm
  | waitReturn | waitNone | allocSkip | allocSkipLast | failed | setupUnlock | linkUnlock
  | startUnlock | sleepLockDone | unblock | signalled | sleptWait | sleptLock | sleptBlock
  | yielded | forkret | killSkip | killSkipLast | killDone => exact release_last.symm
  | _ => exact Iff.rfl

theorem Line.held_of_saved {line : Line} {context : Saved} (h : line.saved = some context)
    (p : Fin nproc) (m : LockId) : line.held p m ↔ m = .proc p := by
  cases line with
  | exitSched | sleepSched | yieldSched => exact Iff.rfl
  | _ => cases h

/-- The code releases only the locks that it holds. -/
theorem lifeCode_disciplined : lifeCode.Disciplined Loc.held := by
  intro d l ch op l' d' h m
  cases Loc.instr_step h with
  | scan p | interrupt p chan | unlock p | intrDone p q chan =>
    simp [Loc.held, Wake.held, LockOp.after]
  | lookFound => exact Iff.rfl
  | lookSkip => exact held_lookNext
  | set => exact held_saved
  | intr p w w' chan op d' h | run x line line' op d' h => exact h.held m
  | leave x line context hsaved =>
    exact held_lookNext.trans (Line.held_of_saved hsaved x.1 m).symm

end Xv6.Life
