import Xv6.Kthread.Equiv.Threads

/-!
# What `kthread_join` reports

The test `tt->state == UNUSED || ZOMBIE` is always true, so `kthread_join` neither waits nor stores
anything; `join_reports` leaves both to its caller. `nexttid` wraps, so an identifier can be given
out again; while that does not happen, no two threads have the same one (`TidInv`).
-/

namespace Xv6.Kthread

open Lib
open Function (update update_of_ne update_self)

variable {κ : Type*} {d d' : Table}

/-! ### Thread identifiers -/

/-- Live threads have identifiers of their own, with which no thread has exited. -/
structure TidInv (d : Table) : Prop where
  distinct : ∀ i k, d.proc.Live i → d.proc.Live k → d.tid i = d.tid k → i = k
  open_ : ∀ i, d.proc.Live i → d.exitedWith (d.tid i) = none
  zombie : ∀ i, d.state i = .zombie → d.exitedWith (d.tid i) = some (d.xstate i)

theorem TidInv.mono (h : TidInv d) (hframe : Frame d d')
    (hlive : ∀ i, d'.proc.Live i → d.proc.Live i)
    (hzombie : ∀ i, d'.state i = .zombie → d.state i = .zombie) : TidInv d' where
  distinct i k hi hk heq := by
    rw [hframe.tid] at heq
    exact h.distinct i k (hlive i hi) (hlive k hk) heq
  open_ i hi := by
    rw [hframe.tid, hframe.exitedWith]
    exact h.open_ i (hlive i hi)
  zombie i hi := by
    rw [hframe.tid, hframe.xstate, hframe.exitedWith]
    exact h.zombie i (hzombie i hi)

theorem TidInv.update (h : TidInv d) (hframe : Frame d d') {k : Fin nthread} {st : ProcState}
    (hk : d.proc.Live k) (hst : live st = true) (hstates : d'.state = update d.state k st) :
    TidInv d' := by
  refine h.mono hframe (fun i hi => ?_) fun i hi => ?_
  · by_cases hik : i = k
    · rwa [hik]
    · rw [live_iff, hstates, update_of_ne hik] at hi
      exact hi
  · rw [hstates] at hi
    by_cases hik : i = k
    · rw [hik, update_self] at hi
      rw [hi] at hst
      cases hst
    · rwa [update_of_ne hik] at hi

section Zombie

variable {j : Fin nthread} {status : Int}

theorem zombie_tid : (d.zombie j status).tid = d.tid := by
  ext i
  by_cases hi : i = j
  · subst hi
    rw [Table.tid, Table.zombie, Proc.setThread_threads_same, Table.tid]
  · rw [Table.tid, Table.zombie, Proc.setThread_threads_of_ne hi, Table.tid]

theorem zombie_xstate : (d.zombie j status).xstate = update d.xstate j status := by
  ext i
  by_cases hi : i = j
  · subst hi
    rw [update_self, Table.xstate, Table.zombie, Proc.setThread_threads_same]
  · rw [update_of_ne hi, Table.xstate, Table.zombie, Proc.setThread_threads_of_ne hi, Table.xstate]

theorem zombie_live {i : Fin nthread} : (d.zombie j status).proc.Live i ↔ i ≠ j ∧ d.proc.Live i :=
    by
  rw [live_iff, zombie_state]
  by_cases hi : i = j
  · subst hi
    simp [live]
  · rw [update_of_ne hi, ← live_iff]
    exact (and_iff_right hi).symm

/-- The exiting thread reports its status under its own identifier. -/
theorem TidInv.of_zombie (h : TidInv d) (hj : d.proc.Live j) : TidInv (d.zombie j status) where
  distinct i k hi hk heq := by
    rw [zombie_tid] at heq
    exact h.distinct i k (zombie_live.mp hi).2 (zombie_live.mp hk).2 heq
  open_ i hi := by
    obtain ⟨hij, hi⟩ := zombie_live.mp hi
    rw [zombie_tid]
    have hne : d.tid i ≠ d.tid j := fun heq => hij (h.distinct i j hi hj heq)
    exact (update_of_ne hne ..).trans (h.open_ i hi)
  zombie i hi := by
    rw [zombie_tid, zombie_xstate]
    by_cases hij : i = j
    · subst hij
      rw [update_self]
      exact update_self ..
    rw [zombie_state, update_of_ne hij] at hi
    have hexited := h.zombie i hi
    -- no thread has exited with the identifier of `j` before
    have hne : d.tid i ≠ d.tid j := by
      intro heq
      rw [heq, h.open_ j hj] at hexited
      cases hexited
    rw [update_of_ne hij]
    exact (update_of_ne hne ..).trans hexited

end Zombie

section Alloc

variable {j k : Fin nthread}

theorem alloc_tid : (d.alloc j k).tid = update d.tid k d.proc.nexttid := by
  ext i
  by_cases hi : i = k
  · subst hi
    rw [update_self, Table.tid, Table.alloc, Proc.alloc_threads_same]
  · rw [update_of_ne hi, Table.tid, Table.alloc, Proc.alloc_threads_of_ne hi, Table.tid]

theorem alloc_xstate : (d.alloc j k).xstate = d.xstate := by
  ext i
  by_cases hi : i = k
  · subst hi
    rw [Table.xstate, Table.alloc, Proc.alloc_threads_same, Table.xstate]
  · rw [Table.xstate, Table.alloc, Proc.alloc_threads_of_ne hi, Table.xstate]

theorem live_of_alloc {i : Fin nthread} (hi : (d.alloc j k).proc.Live i) :
    i = k ∨ i ≠ k ∧ d.proc.Live i := by
  by_cases hik : i = k
  · exact .inl hik
  · rw [live_iff, alloc_state, update_of_ne hik] at hi
    exact .inr ⟨hik, hi⟩

/-- A new thread has an identifier that no other one has. -/
theorem TidInv.of_alloc (h : TidInv d) (hfree : d.NextFree) : TidInv (d.alloc j k) where
  distinct i i' hi hi' heq := by
    rw [alloc_tid] at heq
    obtain hik | ⟨hik, hlive⟩ := live_of_alloc hi
    · obtain hik' | ⟨hik', hlive'⟩ := live_of_alloc hi'
      · rw [hik, hik']
      · rw [hik, update_self, update_of_ne hik'] at heq
        exact absurd heq.symm (hfree.1 i' hlive')
    · obtain hik' | ⟨hik', hlive'⟩ := live_of_alloc hi'
      · rw [hik', update_self, update_of_ne hik] at heq
        exact absurd heq (hfree.1 i hlive)
      · rw [update_of_ne hik, update_of_ne hik'] at heq
        exact h.distinct i i' hlive hlive' heq
  open_ i hi := by
    show d.exitedWith _ = none
    rw [alloc_tid]
    obtain rfl | ⟨hik, hi⟩ := live_of_alloc hi
    · rw [update_self]
      exact hfree.2
    · rw [update_of_ne hik]
      exact h.open_ i hi
  zombie i hi := by
    show d.exitedWith _ = some _
    rw [alloc_state] at hi
    have hik : i ≠ k := by
      rintro rfl
      rw [update_self] at hi
      cases hi
    rw [update_of_ne hik] at hi
    rw [alloc_tid, alloc_xstate, update_of_ne hik]
    exact h.zombie i hi

end Alloc

theorem save_frame {j : Fin nthread} {context : Saved} (h : TidInv d) :
    TidInv (d.save j context) := ⟨h.distinct, h.open_, h.zombie⟩

/-- One step keeps the identifiers apart, if the next one is free. -/
theorem TidInv.step {l l' : Loc} (h : TidInv d) (he : Effect d l d' l') (hown : Own d l)
    (hfree : ∀ j k, l = .run j (.allocFound k) → d.NextFree) : TidInv d' := by
  cases he with
  | quiet _ _ states frame =>
    refine h.mono frame (fun i => (live_congr (congrFun states i)).mp) fun i hi => ?_
    rwa [states] at hi
  | wake k _ hk _ _ states frame => exact h.update frame (live_of_state hk rfl) rfl states
  | start j _ hj _ _ _ states frame => exact h.update frame (live_of_state hj rfl) rfl states
  | rest j st hst _ on _ _ states frame =>
    refine h.update frame (live_of_state (hown.active j on) rfl) ?_ states
    obtain rfl | rfl := hst <;> rfl
  | leave _ _ _ _ _ _ _ data | setup j k _ _ data =>
    rw [data]
    exact save_frame h
  | zombie j status loc _ data =>
    rw [data]
    exact h.of_zombie (live_of_state (hown.active j (by rw [loc]; rfl)) rfl)
  | exit j _ _ data =>
    rw [data]
    exact ⟨h.distinct, h.open_, h.zombie⟩
  | alloc j k loc _ data =>
    rw [data]
    exact h.of_alloc (hfree j k loc)
  | create j k loc _ data =>
    subst loc
    rw [data]
    exact h.update (Frame.setState _) (live_of_state (hown.used k true rfl) rfl) rfl
      (setState_state k _)

/-- What a thread has exited with stays written down. -/
theorem Effect.exitedWith {l l' : Loc} (he : Effect d l d' l') (hown : Own d l) (h : TidInv d)
    {tid v : Int} (hv : d.exitedWith tid = some v) : d'.exitedWith tid = some v := by
  cases he with
  | quiet _ _ _ frame | wake _ _ _ _ _ _ frame | start _ _ _ _ _ _ _ frame
  | rest _ _ _ _ _ _ _ _ frame =>
    rw [frame.exitedWith]
    exact hv
  | leave _ _ _ _ _ _ _ data | exit _ _ _ data | alloc _ _ _ _ data | setup _ _ _ _ data
  | create _ _ _ _ data =>
    rw [data]
    exact hv
  | zombie j status loc _ data =>
    have hnone := h.open_ j (live_of_state (hown.active j (by rw [loc]; rfl)) rfl)
    have hne : tid ≠ d.tid j := by
      rintro rfl
      rw [hnone] at hv
      cases hv
    rw [data]
    exact (update_of_ne hne ..).trans hv

/-! ### What a thread in `kthread_join` has found -/

def Entry.Found (d : Table) : Entry → Prop
  | .joinTest tid status _ => d.exitedWith tid = some status
  | _ => True

/-- What `kthread_join` has read is what the thread has exited with. -/
def Line.Found (d : Table) : Line → Prop
  | .out e | .wakeup _ _ (.resume e) | .yieldLock e | .yieldState e | .yieldSched e | .yielded e =>
    e.Found d
  | .joinFound tid status _ | .joined tid status => d.exitedWith tid = some status
  | _ => True

def Saved.Found (d : Table) : Saved → Prop
  | .yielded e => e.Found d
  | _ => True

def Loc.Found (d : Table) : Loc → Prop
  | .run _ line => line.Found d
  | _ => True

section Found

variable {j l : Fin nthread} {tid status : Int}

theorem Entry.Found.mono {e : Entry} (h : e.Found d)
    (hmono : ∀ tid v, d.exitedWith tid = some v → d'.exitedWith tid = some v) : e.Found d' := by
  cases e with
  | joinTest tid status => exact hmono tid status h
  | _ => trivial

theorem Line.Found.mono {line : Line} (h : line.Found d)
    (hmono : ∀ tid v, d.exitedWith tid = some v → d'.exitedWith tid = some v) : line.Found d' := by
  cases line with
  | out | yieldLock e | yieldState e | yieldSched e | yielded e => exact Entry.Found.mono h hmono
  | wakeup w chan ret =>
    cases ret with
    | resume => exact Entry.Found.mono h hmono
    | _ => trivial
  | joinFound tid status | joined tid status => exact hmono tid status h
  | _ => trivial

theorem Loc.Found.mono {l : Loc} (h : l.Found d)
    (hmono : ∀ tid v, d.exitedWith tid = some v → d'.exitedWith tid = some v) : l.Found d' := by
  cases l with
  | run => exact Line.Found.mono h hmono
  | _ => trivial

theorem Saved.Found.mono {c : Saved} (h : c.Found d)
    (hmono : ∀ tid v, d.exitedWith tid = some v → d'.exitedWith tid = some v) : c.Found d' := by
  cases c with
  | yielded => exact Entry.Found.mono h hmono
  | _ => trivial

theorem found_treparentNext : (Line.treparentNext status l).Found d := by
  unfold Line.treparentNext
  split_ifs <;> trivial

theorem found_checkNext : (Line.checkNext l).Found d := by
  unfold Line.checkNext
  split_ifs <;> trivial

theorem found_allocNext : (Line.allocNext l).Found d := by
  unfold Line.allocNext
  split_ifs <;> trivial

theorem found_joinNext : (Line.joinNext tid status l).Found d := by
  unfold Line.joinNext
  split_ifs <;> trivial

theorem found_lookNext : (Loc.lookNext j).Found d := by
  unfold Loc.lookNext
  split_ifs <;> trivial

theorem found_saved {c : Saved} (h : c.Found d) : c.line.Found d := by
  cases c with
  | yielded => exact h
  | _ => trivial

theorem found_wakeup {w : Wake} {chan : Chan} {ret : Ret} (w' : Option Wake)
    (h : (Line.wakeup w chan ret).Found d) :
    (w'.elim ret.line fun w' => .wakeup w' chan ret).Found d := by
  cases ret with
  | resume => cases w' <;> exact h
  | treparent =>
    cases w' with
    | none => exact found_treparentNext
    | some => trivial
  | _ => cases w' <;> trivial

/-- What the step of a thread that finds another one has to see. -/
def Line.Reported (d : Table) : Line → Prop
  | .joinScan tid status l => d.tid l = tid → d.exitedWith tid = some status
  | _ => True

/-- A line leads to one where as much has been found, unless it finds a thread. -/
theorem Line.found_instr {line line' : Line} {ch : Choice} {op : LockOp LockId}
    (hl : line.Found d) (hr : line.Reported d)
    (h : line.instr d j ch = some (op, some line', d')) : line'.Found d := by
  unfold Line.instr at h
  split at h
  case h_4 e =>
    cases e with
    | joinTest =>
      simp only [Entry.instr] at h
      split_ifs at h <;> cases h
      · exact hl
      · trivial
    | _ =>
      cases h
      trivial
  case h_5 w chan ret =>
    obtain ⟨w', -, heq⟩ := Line.instr_wakeup h
    cases heq
    exact found_wakeup w' hl
  case h_6 =>
    split_ifs at h
    · cases h
      trivial
    all_goals
      cases h
      exact found_treparentNext
  case h_7 =>
    split at h
    all_goals
      cases h
      trivial
  case h_10 =>
    split_ifs at h <;> cases h
    · trivial
    · exact found_checkNext
  case h_17 =>
    split_ifs at h <;> cases h
    · trivial
    · exact found_allocNext
  case h_21 =>
    split_ifs at h with htid <;> cases h
    · exact hr htid
    · exact found_joinNext
  case h_1 =>
    split_ifs at h
    all_goals
      cases h
      exact hl
  case h_16 | h_33 | h_37 =>
    unfold sched at h
    split_ifs at h
    simp at h
  case h_26 | h_40 => cases h
  all_goals
    cases h
  case h_3 c => cases c <;> trivial
  case h_2 | h_22 | h_35 | h_36 | h_38 => exact hl
  all_goals trivial

theorem Line.saved_found {line : Line} {context : Saved} (h : line.saved = some context)
    (hl : line.Found d) : context.Found d := by
  cases line with
  | yieldSched =>
    cases h
    exact hl
  | sleepSched | exitSched =>
    cases h
    trivial
  | _ => cases h

/-- The same for a CPU; the scheduler goes on with a thread where that was interrupted. -/
theorem Loc.found_instr {l l' : Loc} {ch : Choice} {op : LockOp LockId} (hl : l.Found d)
    (hr : ∀ j line, l = .run j line → line.Reported d) (hc : ∀ i, (d.context i).Found d)
    (h : l.instr d ch = some (op, l', d')) : l'.Found d := by
  unfold Loc.instr at h
  split at h
  case h_6 wait w chan =>
    obtain ⟨w', -, rfl⟩ := Loc.instr_wakeup h
    cases w' with
    | none | some => trivial
  case h_7 =>
    split_ifs at h <;> cases h
    · trivial
    · exact found_lookNext
  case h_8 j =>
    cases h
    exact found_saved (hc j)
  case h_10 =>
    obtain ⟨line', hline, rfl⟩ := instr_run h
    cases line' with
    | none => exact found_lookNext
    | some => exact Line.found_instr hl (hr _ _ rfl) hline
  case h_11 => cases h
  all_goals
    cases h
    trivial

theorem Effect.found_context {l l' : Loc} (he : Effect d l d' l') (hl : l.Found d)
    (hc : ∀ i, (d.context i).Found d) (i : Fin nthread) : (d'.context i).Found d := by
  cases he with
  | quiet _ _ _ frame | wake _ _ _ _ _ _ frame | start _ _ _ _ _ _ _ frame
  | rest _ _ _ _ _ _ _ _ frame =>
    rw [frame.context]
    exact hc i
  | exit _ _ _ data | alloc _ _ _ _ data | create _ _ _ _ data | zombie _ _ _ _ data =>
    rw [data]
    exact hc i
  | leave j line context loc saved _ _ data =>
    rw [data]
    by_cases hij : i = j
    · subst hij
      rw [save_context_same]
      rw [loc] at hl
      exact Line.saved_found saved hl
    · rw [save_context_of_ne hij]
      exact hc i
  | setup j k _ _ data =>
    rw [data]
    by_cases hik : i = k
    · subst hik
      rw [save_context_same]
      trivial
    · rw [save_context_of_ne hik]
      exact hc i

end Found

/-! ### Runs -/

/-- The invariant of `kthread_join`. -/
structure JoinInv (s : State κ) : Prop where
  threads : ThreadInv s
  tids : TidInv s.data
  loc : ∀ c, (s.loc c).Found s.data
  context : ∀ i, (s.data.context i).Found s.data

variable [DecidableEq κ] {s s' : State κ}

/-- One step keeps the invariant. -/
theorem JoinInv.step (h : JoinInv s) {a : κ × Choice} (hok : Reported s a ∧ OwnTid s a)
    (hstep : kthreadCode.machine.step s a = some s') : JoinInv s' := by
  obtain ⟨c, ch⟩ := a
  obtain ⟨hok, htid⟩ := hok
  have hs := h.threads.stepped hstep
  have hown := h.threads.own c
  have hmono : ∀ tid v, s.data.exitedWith tid = some v → s'.data.exitedWith tid = some v :=
    fun tid v hv => hs.effect.exitedWith hown h.tids hv
  have hfree : ∀ j k, s.loc c = .run j (.allocFound k) → s.data.NextFree := by
    intro j k hloc
    rwa [OwnTid, hloc] at htid
  refine ⟨h.threads.step hstep, h.tids.step hs.effect hown hfree, fun c' => ?_, fun i => ?_⟩
  · by_cases hc : c' = c
    · subst hc
      have hr : ∀ j line, s.loc c' = .run j line → line.Reported s.data := by
        intro j line hloc
        cases line with
        | joinScan tid status l =>
          intro htid
          rw [Reported, hloc] at hok
          obtain ⟨hz, hx⟩ := hok htid
          rw [← htid, ← hx]
          exact h.tids.zombie l hz
        | _ => trivial
      obtain ⟨op, l, d, owner, hinstr, -, rfl⟩ := SpinCode.step_eq_some hstep
      show (update s.loc c' l c').Found d
      rw [update_self]
      exact (Loc.found_instr (h.loc c') hr h.context hinstr).mono hmono
    · rw [hs.others c' hc]
      exact (h.loc c').mono hmono
  · exact (hs.effect.found_context (h.loc c) h.context i).mono hmono

omit [DecidableEq κ] in

/-- What `kthread_join` reports is true. -/
theorem JoinInv.joinOk (h : JoinInv s) : JoinOk s := by
  intro c j tid status hloc
  have hfound := h.loc c
  rw [hloc] at hfound
  refine ⟨hfound, fun l htid hlive => ?_⟩
  have hnone := h.tids.open_ l hlive
  rw [htid] at hnone
  have hsome : s.data.exitedWith tid = some status := hfound
  rw [hnone] at hsome
  cases hsome

omit [DecidableEq κ] in
theorem Start.joinInv (h : Start s) : JoinInv s := by
  -- the one thread of the process is in slot 0
  have hlive : ∀ i, s.data.proc.Live i → i = 0 := by
    intro i hi
    rw [Proc.Live, h.fresh.state] at hi
    by_contra hne
    rw [if_neg hne] at hi
    cases hi
  refine ⟨h.threadInv, ?_, fun c => ?_, fun i => ?_⟩
  · refine ⟨fun i k hi hk _ => ?_, fun i _ => h.exitedWith _, fun i hi => ?_⟩
    · rw [hlive i hi, hlive k hk]
    · rw [Table.state, h.fresh.state] at hi
      split_ifs at hi
  · rw [h.loc]
    trivial
  · rw [h.context]
    trivial

/-- **`kthread_join`**: in every run in which `kthread_join` finds only threads that have exited
with the value that `*status` already holds, and no identifier is given out twice, it returns 0 only
when the thread with that identifier has exited with that value, and no live thread has the
identifier. -/
theorem join_reports (s₀ s : State κ) (as : List (κ × Choice)) (h₀ : Start s₀)
    (hok : kthreadCode.machine.Meets (fun s a => Reported s a ∧ OwnTid s a) s₀ as)
    (hrun : kthreadCode.machine.run s₀ as = some s) : JoinOk s := by
  refine JoinInv.joinOk ?_
  exact Machine.invariant_of_meets _ (fun s a s' h hok hstep => h.step hok hstep) as s₀ s
    h₀.joinInv hok hrun

/-- A process with one thread, and one CPU. -/
def startState : State Unit where
  owner _ := none
  loc _ := .away false
  data := { proc := freshProc, context := fun _ => .forkret, exits := 0, exitedWith := fun _ => none }

theorem startState_start : Start startState :=
  ⟨fun _ => rfl, fun _ => rfl, freshProc_fresh, fun _ => rfl, rfl, fun _ => rfl⟩

def nexts (n : Nat) : List (Unit × Choice) := List.replicate n ((), .next)

def createTwo : List (Unit × Choice) := nexts 4 ++ ((), .call .create) :: nexts 7

def twoExits : List (Unit × Choice) := ((), .timer) :: nexts 6 ++ ((), .call (.exit 5)) :: nexts 36

/-- Thread 1 joins thread 2. -/
def joinTwo (status : Int) : List (Unit × Choice) := ((), .call (.join 2 status)) :: nexts 5

theorem twoExits_joined :
    Start startState ∧
      kthreadCode.machine.Meets (fun s a => Reported s a ∧ OwnTid s a) startState
        (createTwo ++ twoExits ++ joinTwo 5) ∧
      ∃ s, kthreadCode.machine.run startState (createTwo ++ twoExits ++ joinTwo 5) = some s ∧
        s.loc () = .run 0 (.joined 2 5) ∧ JoinOk s := by
  have hok : kthreadCode.machine.Meets (fun s a => Reported s a ∧ OwnTid s a) startState
      (createTwo ++ twoExits ++ joinTwo 5) := by decide +kernel
  exact ⟨startState_start, hok, _, rfl, rfl, join_reports startState _ _ startState_start hok rfl⟩

/-- `kthread_join` returns 0 although thread 2 has not even been started, and `*status` is as it
was. -/
theorem createTwo_joinedAtOnce :
    Start startState ∧
      ∃ s, kthreadCode.machine.run startState (createTwo ++ joinTwo 9) = some s ∧
        s.loc () = .run 0 (.joined 2 9) ∧ s.data.tid 1 = 2 ∧ s.data.state 1 = .runnable ∧
        ¬ JoinOk s := by
  refine ⟨startState_start, _, rfl, rfl, rfl, rfl, fun h => ?_⟩
  exact (h () 0 2 9 rfl).2 1 rfl rfl

end Xv6.Kthread
