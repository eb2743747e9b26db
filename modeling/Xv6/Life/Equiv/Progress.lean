import Xv6.Life.Equiv.Step
import Xv6.Life.Safety

/-!
# `exit` runs to the end

`CanExit.exited`, by way of `reparent` (`reparent_reaches`) and `wakeup` (`wakeup_reaches`). `ok` is
a condition on the steps of a run that allows those of the exiting CPU `c`.
-/

namespace Xv6.Life

open Lib Function

/-- The children of `p` among the first `n` processes are those of `initproc`. -/
def Table.reparentTo (d : Table) (p : Fin nproc) (n : Nat) : Table :=
  { d with
    parent := fun k => if k.val < n ∧ d.parent k = some p then some initproc else d.parent k }

/-- The first `n` threads of process `p` are marked. -/
def Table.markTo (d : Table) (p : Fin nproc) (n : Nat) : Table :=
  { d with
    threadState := fun y => if y.1 = p ∧ y.2.val < n then .zombie else d.threadState y }

theorem reparentTo_zero (d : Table) (p : Fin nproc) : d.reparentTo p 0 = d := by
  simp [Table.reparentTo]

theorem reparentTo_parent (d : Table) (p k : Fin nproc) :
    (d.reparentTo p k.val).parent k = d.parent k := by
  simp [Table.reparentTo]

theorem reparentTo_of_ne (d : Table) (p : Fin nproc) {k a : Fin nproc} (h : a ≠ k) :
    (d.reparentTo p k.val).parent a = (d.reparentTo p (k.val + 1)).parent a := by
  have hne := Fin.val_ne_of_ne h
  have hlt : a.val < k.val + 1 ↔ a.val < k.val := by omega
  simp only [Table.reparentTo, hlt]

/-- A child is handed over. -/
theorem reparentTo_succ {d : Table} {p k : Fin nproc} (h : d.parent k = some p) :
    (d.reparentTo p k.val).setParent k initproc = d.reparentTo p (k.val + 1) := by
  have hrow : update (d.reparentTo p k.val).parent k (some initproc) =
      (d.reparentTo p (k.val + 1)).parent := by
    funext a
    by_cases ha : a = k
    · subst ha
      simp [Table.reparentTo, h]
    · rw [update_of_ne ha]
      exact reparentTo_of_ne d p ha
  rw [Table.setParent, hrow]
  rfl

/-- A process that is no child is passed. -/
theorem reparentTo_skip {d : Table} {p k : Fin nproc} (h : d.parent k ≠ some p) :
    d.reparentTo p k.val = d.reparentTo p (k.val + 1) := by
  have hrow : (d.reparentTo p k.val).parent = (d.reparentTo p (k.val + 1)).parent := by
    funext a
    by_cases ha : a = k
    · subst ha
      simp [Table.reparentTo, h]
    · exact reparentTo_of_ne d p ha
  unfold Table.reparentTo at hrow ⊢
  dsimp only at hrow
  rw [hrow]

theorem markTo_zero (d : Table) (p : Fin nproc) : d.markTo p 0 = d := by
  simp [Table.markTo]

/-- One more thread is marked. -/
theorem markTo_succ (d : Table) (p : Fin nproc) (i : Fin nthread) :
    (d.markTo p i.val).setThreadState (p, i) .zombie = d.markTo p (i.val + 1) := by
  have hrow : update (d.markTo p i.val).threadState (p, i) .zombie =
      (d.markTo p (i.val + 1)).threadState := by
    funext y
    by_cases hy : y = (p, i)
    · subst hy
      simp [Table.markTo]
    rw [update_of_ne hy]
    simp only [Table.markTo]
    have hiff : (y.1 = p ∧ y.2.val < i.val) ↔ (y.1 = p ∧ y.2.val < i.val + 1) := by
      refine and_congr_right fun hp => ?_
      have hne : y.2.val ≠ i.val := by
        intro hval
        exact hy (Prod.ext hp (Fin.ext hval))
      omega
    simp only [hiff]
  rw [Table.setThreadState, hrow]
  rfl

theorem markTo_sleeping {d : Table} {p : Fin nproc} {n : Nat} {y : Slot}
    (h : (d.markTo p n).threadState y = .sleeping) : d.threadState y = .sleeping := by
  unfold Table.markTo at h
  dsimp only at h
  split_ifs at h
  exact h

/-! The loops, with the line that follows each in the end. -/

def Wake.testAt (k : Fin nproc) (n : Nat) : Wake :=
  if h : n < nthread then .test k ⟨n, h⟩ else .unlock k

def Line.wakeAt (chan : Option Chan) (ret : Ret) (n : Nat) : Line :=
  if h : n < nproc then .wakeup (.lock ⟨n, h⟩) chan ret else ret.line

def Line.reparentAt (n : Nat) : Line := if h : n < nproc then .reparent ⟨n, h⟩ else .wakeParent

def Line.markAt (n : Nat) : Line := if h : n < nthread then .mark ⟨n, h⟩ else .exitLock

section Reaches

variable {κ : Type*} [DecidableEq κ] {ok : State κ → κ × Choice → Prop} {s : State κ} {c : κ}
  {x : Slot}

theorem run_instr {d d' : Table} {line line' : Line} {ch : Choice} {op : LockOp LockId}
    (h : line.instr d x ch = some (op, some line', d')) :
    lifeCode.instr d (.run x line) ch = some (op, .run x line', d') := by
  simp only [lifeCode, Loc.instr, h]

/-- A `wakeup` for which nobody sleeps comes to its end and changes nothing. -/
theorem wakeup_reaches {chan : Option Chan} {ret : Ret}
    (hok : ∀ (s : State κ) w, ok (s.goto c (.run x (.wakeup w chan ret))) (c, .next))
    (hfree : ∀ k, s.owner (.proc k) = none)
    (hawake : ∀ y, s.data.threadState y = .sleeping → s.data.chan y ≠ chan) :
    lifeCode.machine.Reaches ok (s.goto c (.run x (.wakeup (.lock 0) chan ret)))
      (s.goto c (.run x ret.line)) := by
  -- the loop over the processes, with the loop over the threads in each round
  refine Machine.Reaches.loop (f := fun n => s.goto c (.run x (.wakeAt chan ret n)))
    (n := nproc) fun n hn => ?_
  have hround : Line.wakeAt chan ret n = .wakeup (.lock ⟨n, hn⟩) chan ret := dif_pos hn
  have hthreads : lifeCode.machine.Reaches ok
      ((s.hold c (.proc ⟨n, hn⟩)).goto c (.run x (.wakeup (.test ⟨n, hn⟩ 0) chan ret)))
      ((s.hold c (.proc ⟨n, hn⟩)).goto c (.run x (.wakeup (.unlock ⟨n, hn⟩) chan ret))) := by
    refine Machine.Reaches.loop (n := nthread) (f := fun i =>
      (s.hold c (.proc ⟨n, hn⟩)).goto c (.run x (.wakeup (.testAt ⟨n, hn⟩ i) chan ret)))
      fun i hi => ?_
    have htest : Wake.testAt ⟨n, hn⟩ i = .test ⟨n, hn⟩ ⟨i, hi⟩ := dif_pos hi
    rw [htest]
    refine SpinCode.reaches_none (hok _ _) (run_instr ?_)
    have hnot : ¬ (some x ≠ some (⟨n, hn⟩, ⟨i, hi⟩) ∧
        s.data.threadState (⟨n, hn⟩, ⟨i, hi⟩) = .sleeping ∧
        s.data.chan (⟨n, hn⟩, ⟨i, hi⟩) = chan) := fun h => hawake _ h.2.1 h.2.2
    have hinstr : Wake.instr (s.hold c (.proc ⟨n, hn⟩)).data (some x) chan
        (.test ⟨n, hn⟩ ⟨i, hi⟩) = (.none, some (.testAt ⟨n, hn⟩ (i + 1)), s.data) := if_neg hnot
    simp only [Line.instr]
    rw [hinstr]
  have hlock : lifeCode.machine.Reaches ok (s.goto c (.run x (.wakeup (.lock ⟨n, hn⟩) chan ret)))
      ((s.hold c (.proc ⟨n, hn⟩)).goto c (.run x (.wakeup (.test ⟨n, hn⟩ 0) chan ret))) :=
    SpinCode.reaches_acquire (hok _ _) rfl (hfree _)
  have hunlock : lifeCode.machine.Reaches ok
      ((s.hold c (.proc ⟨n, hn⟩)).goto c (.run x (.wakeup (.unlock ⟨n, hn⟩) chan ret)))
      (s.goto c (.run x (.wakeAt chan ret (n + 1)))) := by
    refine SpinCode.reaches_release (hok _ _) (run_instr ?_) (hfree _)
    by_cases hlast : n + 1 < nproc
    · simp [Line.instr, Wake.instr, Wake.lockNext, Line.wakeAt, hlast]
    · simp [Line.instr, Wake.instr, Wake.lockNext, Line.wakeAt, hlast]
  rw [hround]
  exact hlock.trans (hthreads.trans hunlock)

/-! ### `exit` -/

section Exit

variable (hok : ∀ (s : State κ) w chan ret, ok (s.goto c (.run x (.wakeup w chan ret))) (c, .next))
  (hfree : ∀ k, s.owner (.proc k) = none)

include hok hfree

/-- The loop of `reparent` comes to its end. -/
theorem reparent_reaches
    (hreparent : ∀ k : Fin nproc,
      ok ((s.setData (s.data.reparentTo x.1 k.val)).goto c (.run x (.reparent k))) (c, .next))
    (hawake : ∀ y, s.data.threadState y = .sleeping →
      s.data.chan y ≠ some (.thread initproc s.data.mainThread)) :
    lifeCode.machine.Reaches ok (s.goto c (.run x (.reparent 0)))
      ((s.setData (s.data.reparentTo x.1 nproc)).goto c (.run x .wakeParent)) := by
  have hfirst : s.goto c (.run x (.reparent 0)) =
      (s.setData (s.data.reparentTo x.1 0)).goto c (.run x (.reparent 0)) := by
    rw [reparentTo_zero]
    rfl
  rw [hfirst]
  refine Machine.Reaches.loop (n := nproc) (f := fun n =>
    (s.setData (s.data.reparentTo x.1 n)).goto c (.run x (.reparentAt n))) fun n hn => ?_
  have hround : Line.reparentAt n = .reparent ⟨n, hn⟩ := dif_pos hn
  have hparent := reparentTo_parent s.data x.1 ⟨n, hn⟩
  rw [hround]
  by_cases hchild : s.data.parent ⟨n, hn⟩ = some x.1
  · have hset : lifeCode.machine.Reaches ok
        ((s.setData (s.data.reparentTo x.1 n)).goto c (.run x (.reparent ⟨n, hn⟩)))
        ((s.setData (s.data.reparentTo x.1 (n + 1))).goto c (.run x
          (.wakeup (.lock 0) (some (.thread initproc s.data.mainThread))
            (.reparent ⟨n, hn⟩)))) := by
      rw [← reparentTo_succ hchild]
      refine SpinCode.reaches_none (hreparent ⟨n, hn⟩) (run_instr ?_)
      exact if_pos (hparent.trans hchild)
    refine hset.trans ?_
    exact wakeup_reaches (s := s.setData (s.data.reparentTo x.1 (n + 1))) (fun s w => hok s w _ _)
      hfree hawake
  · rw [← reparentTo_skip (k := ⟨n, hn⟩) hchild]
    refine SpinCode.reaches_none (hreparent ⟨n, hn⟩) (run_instr ?_)
    exact if_neg fun h => hchild (hparent.symm.trans h)

/-- The loop that marks the threads comes to its end. -/
theorem mark_reaches
    (hmark : ∀ i : Fin nthread,
      ok ((s.setData (s.data.markTo x.1 i.val)).goto c (.run x (.mark i))) (c, .next))
    (hawake : ∀ y i, s.data.threadState y = .sleeping → s.data.chan y ≠ some (.thread x.1 i)) :
    lifeCode.machine.Reaches ok (s.goto c (.run x (.mark 0)))
      ((s.setData (s.data.markTo x.1 nthread)).goto c (.run x .exitLock)) := by
  have hfirst : s.goto c (.run x (.mark 0)) =
      (s.setData (s.data.markTo x.1 0)).goto c (.run x (.mark 0)) := by
    rw [markTo_zero]
    rfl
  rw [hfirst]
  refine Machine.Reaches.loop (n := nthread) (f := fun n =>
    (s.setData (s.data.markTo x.1 n)).goto c (.run x (.markAt n))) fun n hn => ?_
  have hround : Line.markAt n = .mark ⟨n, hn⟩ := dif_pos hn
  have hset : lifeCode.machine.Reaches ok
      ((s.setData (s.data.markTo x.1 n)).goto c (.run x (.mark ⟨n, hn⟩)))
      ((s.setData (s.data.markTo x.1 (n + 1))).goto c (.run x
        (.wakeup (.lock 0) (some (.thread x.1 ⟨n, hn⟩)) (.marked ⟨n, hn⟩)))) := by
    rw [← markTo_succ s.data x.1 ⟨n, hn⟩]
    exact SpinCode.reaches_none (hmark ⟨n, hn⟩) (run_instr rfl)
  rw [hround]
  refine hset.trans ?_
  refine wakeup_reaches (s := s.setData (s.data.markTo x.1 (n + 1))) (fun s w => hok s w _ _)
    hfree fun y hy => ?_
  exact hawake y ⟨n, hn⟩ (markTo_sleeping hy)

end Exit

/-- The thread on CPU `c` calls `exit`, no lock is taken, and nobody sleeps on what it wakes up. -/
structure CanExit (s : State κ) (c : κ) (x : Slot) : Prop where
  loc : s.loc c = .run x (.out .exit)
  ne_init : x.1 ≠ initproc
  wait : s.owner .wait = none
  procs : ∀ k, s.owner (.proc k) = none
  self : s.data.parent x.1 ≠ some x.1
  awake : ∀ y, s.data.threadState y = .sleeping →
    s.data.chan y ≠ some (.thread initproc s.data.mainThread) ∧
    s.data.chan y ≠ (s.data.parent x.1).map .proc ∧ ∀ i, s.data.chan y ≠ some (.thread x.1 i)

instance (s : State κ) (c : κ) (x : Slot) : Decidable (CanExit s c x) :=
  decidable_of_iff (s.loc c = .run x (.out .exit) ∧ x.1 ≠ initproc ∧ s.owner .wait = none ∧
      (∀ k, s.owner (.proc k) = none) ∧ s.data.parent x.1 ≠ some x.1 ∧
      ∀ y, s.data.threadState y = .sleeping →
        s.data.chan y ≠ some (.thread initproc s.data.mainThread) ∧
        s.data.chan y ≠ (s.data.parent x.1).map .proc ∧ ∀ i, s.data.chan y ≠ some (.thread x.1 i))
    ⟨fun ⟨h₁, h₂, h₃, h₄, h₅, h₆⟩ => ⟨h₁, h₂, h₃, h₄, h₅, h₆⟩,
      fun h => ⟨h.loc, h.ne_init, h.wait, h.procs, h.self, h.awake⟩⟩

/-- The state in which `exit` begins to mark the threads. -/
def marking (s : State κ) (c : κ) (x : Slot) : State κ :=
  ((s.hold c .wait).setData (s.data.reparentTo x.1 nproc)).goto c (.run x (.mark 0))

/-- The state in which `exit` has marked the first thread. -/
def markedOne (s : State κ) (c : κ) (x : Slot) : State κ :=
  ((s.hold c .wait).setData ((s.data.reparentTo x.1 nproc).setThreadState (x.1, 0) .zombie)).goto c
    (.run x (.wakeup (.lock 0) (some (.thread x.1 0)) (.marked 0)))

theorem markedOne_state (s : State κ) (c : κ) (x : Slot) :
    (markedOne s c x).data.threadState (x.1, 0) = .zombie := by
  show update s.data.threadState (x.1, 0) .zombie (x.1, 0) = .zombie
  rw [update_self]

/-- The process of the thread that exits on CPU `c` has died. -/
def exited (s : State κ) (c : κ) (x : Slot) : State κ :=
  ((s.hold c (.proc x.1)).setData
    (((s.data.reparentTo x.1 nproc).markTo x.1 nthread).setProcState x.1 .zombie)).goto c
      (.run x .exitSched)

section CanExit

variable (h : CanExit s c x)
  (hok : ∀ (s : State κ) line, (∀ k, line ≠ .reparent k) → (∀ i, line ≠ .mark i) →
    ok (s.goto c (.run x line)) (c, .next))
  (hreparent : ∀ k : Fin nproc, ok (((s.hold c .wait).setData
    (s.data.reparentTo x.1 k.val)).goto c (.run x (.reparent k))) (c, .next))

include h

omit [DecidableEq κ] in
theorem CanExit.free (k : Fin nproc) : (s.hold c .wait).owner (.proc k) = none :=
  (SpinState.hold_of_ne (proc_ne_wait k)).trans (h.procs k)

include hok hreparent

/-- `exit` comes to the point where it marks the threads. -/
theorem CanExit.marking : lifeCode.machine.Reaches ok s (marking s c x) := by
  have hlock : lifeCode.machine.Reaches ok (s.goto c (.run x (.out .exit)))
      ((s.hold c .wait).goto c (.run x (.reparent 0))) := by
    refine SpinCode.reaches_acquire (hok _ _ (by simp) (by simp)) (run_instr ?_) h.wait
    simp [Line.instr, Entry.next, h.ne_init]
  have hloop := reparent_reaches (s := s.hold c .wait) (fun s w _ _ => hok s _ (by simp) (by simp)) h.free
    hreparent fun y hy => (h.awake y hy).1
  have hcall : lifeCode.machine.Reaches ok
      (((s.hold c .wait).setData (s.data.reparentTo x.1 nproc)).goto c (.run x .wakeParent))
      (((s.hold c .wait).setData (s.data.reparentTo x.1 nproc)).goto c (.run x
        (.wakeup (.lock 0) ((s.data.parent x.1).map .proc) .parent))) := by
    refine SpinCode.reaches_none (hok _ _ (by simp) (by simp)) (run_instr ?_)
    have hparent : (s.data.reparentTo x.1 nproc).parent x.1 = s.data.parent x.1 :=
      if_neg fun hchild => h.self hchild.2
    show some (LockOp.none, some (Line.wakeup (.lock 0)
      (((s.data.reparentTo x.1 nproc).parent x.1).map .proc) .parent), _) = _
    rw [hparent]
    rfl
  have hwakeup : lifeCode.machine.Reaches ok
      (((s.hold c .wait).setData (s.data.reparentTo x.1 nproc)).goto c (.run x
        (.wakeup (.lock 0) ((s.data.parent x.1).map .proc) .parent))) (Life.marking s c x) :=
    wakeup_reaches (fun s w => hok s _ (by simp) (by simp)) h.free fun y hy => (h.awake y hy).2.1
  rw [SpinState.goto_self h.loc] at hlock
  exact hlock.trans (hloop.trans (hcall.trans hwakeup))

/-- `exit` comes to the second thread. -/
theorem CanExit.markedOne (hmark : ok (Life.marking s c x) (c, .next)) :
    lifeCode.machine.Reaches ok s (markedOne s c x) :=
  (h.marking hok hreparent).trans (SpinCode.reaches_none hmark (run_instr rfl))

/-- **Progress**: `exit` comes to the point where the process is dead. -/
theorem CanExit.exited
    (hmark : ∀ i : Fin nthread, ok (((s.hold c .wait).setData
      ((s.data.reparentTo x.1 nproc).markTo x.1 i.val)).goto c (.run x (.mark i))) (c, .next)) :
    lifeCode.machine.Reaches ok s (exited s c x) := by
  have hmarks := mark_reaches (s := (s.hold c .wait).setData (s.data.reparentTo x.1 nproc))
    (fun s w _ _ => hok s _ (by simp) (by simp)) h.free hmark fun y i hy => (h.awake y hy).2.2 i
  have hlock : lifeCode.machine.Reaches ok
      (((s.hold c .wait).setData ((s.data.reparentTo x.1 nproc).markTo x.1 nthread)).goto c
        (.run x .exitLock))
      ((((s.hold c .wait).setData ((s.data.reparentTo x.1 nproc).markTo x.1 nthread)).hold c
        (.proc x.1)).goto c (.run x .zombie)) :=
    SpinCode.reaches_acquire (hok _ _ (by simp) (by simp)) (run_instr rfl) (h.free x.1)
  have hzombie : lifeCode.machine.Reaches ok
      ((((s.hold c .wait).setData ((s.data.reparentTo x.1 nproc).markTo x.1 nthread)).hold c
        (.proc x.1)).goto c (.run x .zombie))
      ((((s.hold c .wait).hold c (.proc x.1)).setData (((s.data.reparentTo x.1 nproc).markTo x.1
        nthread).setProcState x.1 .zombie)).goto c (.run x .exitUnlock)) :=
    SpinCode.reaches_none (hok _ _ (by simp) (by simp)) (run_instr rfl)
  have hunlock : lifeCode.machine.Reaches ok
      ((((s.hold c (.proc x.1)).setData (((s.data.reparentTo x.1 nproc).markTo x.1
        nthread).setProcState x.1 .zombie)).hold c .wait).goto c (.run x .exitUnlock))
      (Life.exited s c x) := by
    refine SpinCode.reaches_release (hok _ _ (by simp) (by simp)) (run_instr rfl) ?_
    show (s.hold c (.proc x.1)).owner .wait = none
    rw [SpinState.hold_of_ne (proc_ne_wait x.1).symm]
    exact h.wait
  rw [SpinState.hold_comm (proc_ne_wait x.1).symm] at hzombie
  have hfirst := h.marking hok hreparent
  exact hfirst.trans (hmarks.trans (hlock.trans (hzombie.trans hunlock)))

end CanExit

/-! What the conditions allow at other lines than those where `exit` stores. -/

theorem marksOnly_goto {p : Line → Prop} {line : Line} (s : State κ) (h : ∀ i, line ≠ .mark i) :
    MarksOnly p (s.goto c (.run x line)) (c, .next) := by
  have hnone : ((s.goto c (.run x line)).loc c).marks = none := by
    rw [s.goto_loc]
    cases line with
    | mark i => exact absurd rfl (h i)
    | _ => rfl
  refine ⟨fun y hy => ?_, fun y hy => ?_⟩
  · exact nomatch hnone.symm.trans hy
  · exact nomatch hnone.symm.trans hy

theorem handsOver_goto {line : Line} (s : State κ) (hreparent : ∀ k, line ≠ .reparent k)
    (hmark : ∀ i, line ≠ .mark i) : HandsOver (s.goto c (.run x line)) (c, .next) := by
  refine ⟨(marksOnly_goto (p := fun _ => True) s hmark).still, fun hhands => ?_⟩
  rw [s.goto_loc] at hhands
  cases line with
  | reparent k => exact absurd rfl (hreparent k)
  | _ => cases hhands

end Reaches

/-! ### A small system -/

theorem family_start : Start family where
  owner _ := rfl
  loc _ := rfl
  procs := by decide +kernel
  init := by decide +kernel
  threads := by decide +kernel
  context _ := rfl
  locked _ := rfl
  tree := by decide +kernel
  unused := by decide +kernel
  parent := by decide +kernel

end Xv6.Life
