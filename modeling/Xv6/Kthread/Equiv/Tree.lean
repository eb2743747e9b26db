import Xv6.Kthread.Basic
import Xv6.Lib.Loop

/-!
# The tree of the threads of a process

When `main_thread` exits, `Treparent` makes its first child `main_thread` and leaves that child's
parent as it was; with no child, `main_thread` stays with the exited thread. Either way the tree is
broken unless no other thread is left (`treeOk_iff`).
-/

namespace Xv6.Kthread

open Lib

variable {p p' : Proc} {t : Fin nthread}

/-! ### `wakeup` -/

namespace Proc

@[simp] theorem setThread_threads_same (j : Fin nthread) (th : Thread) :
    (p.setThread j th).threads j = th := Function.update_self ..

theorem setThread_threads_of_ne {j k : Fin nthread} (h : k ≠ j) (th : Thread) :
    (p.setThread j th).threads k = p.threads k := Function.update_of_ne h ..

@[simp] theorem setThread_mainThread (j : Fin nthread) (th : Thread) :
    (p.setThread j th).mainThread = p.mainThread := rfl

section

variable (me : Option (Fin nthread))

include me

@[simp] theorem wakeup_mainThread (chan : Chan) :
    (p.wakeup me chan).mainThread = p.mainThread := rfl

@[simp] theorem wakeup_threadParent (chan : Chan) (j : Fin nthread) :
    ((p.wakeup me chan).threads j).threadParent = (p.threads j).threadParent := by
  simp only [wakeup]
  split_ifs <;> rfl

@[simp] theorem wakeup_live (chan : Chan) (j : Fin nthread) :
    (p.wakeup me chan).Live j ↔ p.Live j := by
  simp only [Live, wakeup]
  split_ifs with h
  · rw [h.2.1]
    exact Iff.rfl
  · exact Iff.rfl

end

theorem setThread_live {th : Thread} {k : Fin nthread}
    (h : live th.state = live (p.threads k).state)
    (j : Fin nthread) : (p.setThread k th).Live j ↔ p.Live j := by
  by_cases hj : j = k
  · subst hj
    rw [Live, setThread_threads_same, h, Live]
  · rw [Live, setThread_threads_of_ne hj, Live]

theorem setThread_threadParent {th : Thread} {k : Fin nthread}
    (h : th.threadParent = (p.threads k).threadParent) (j : Fin nthread) :
    ((p.setThread k th).threads j).threadParent = (p.threads j).threadParent := by
  by_cases hj : j = k
  · subst hj
    rw [setThread_threads_same, h]
  · rw [setThread_threads_of_ne hj]

/-! ### `Treparent` -/

theorem treparentOne_live (tt j : Fin nthread) : (treparentOne t p tt).Live j ↔ p.Live j := by
  rw [treparentOne]
  split_ifs
  · rw [wakeup_live, setThread_live]
    rfl
  · exact Iff.rfl
  · exact Iff.rfl

theorem treparent_live (j : Fin nthread) : (p.treparent t).Live j ↔ p.Live j :=
  foldl_finRange_invariant (P := fun _ (q : Proc) => q.Live j ↔ p.Live j) Iff.rfl
    fun i _ hq => (treparentOne_live i j).trans hq

/-- What `Treparent` of a thread other than `main_thread` has done after the slots below `n`. -/
structure Reparented (p : Proc) (t : Fin nthread) (n : Nat) (q : Proc) : Prop where
  main : q.mainThread = p.mainThread
  parent : ∀ j, (q.threads j).threadParent =
    if j < n ∧ (p.threads j).threadParent = some t then some p.mainThread
    else (p.threads j).threadParent

/-- One turn of `Treparent`, for a thread that is not the main one. -/
theorem Reparented.step {q : Proc} {i : Fin nthread} (h : Reparented p t i q)
    (ht : t ≠ p.mainThread) : Reparented p t (i + 1) (treparentOne t q i) := by
  have hi : (q.threads i).threadParent = (p.threads i).threadParent := by
    rw [h.parent, if_neg (by omega)]
  rw [treparentOne, hi, h.main]
  -- below `i` nothing changes, and the slot `i` itself has not been visited
  have hrest : ∀ j, j ≠ i → ((j : Nat) < i + 1 ↔ (j : Nat) < i) := by
    intro j hj
    have : (j : Nat) ≠ i := fun h => hj (Fin.ext h)
    omega
  by_cases hp : (p.threads i).threadParent = some t
  · rw [if_pos ⟨hp, ht⟩]
    refine ⟨h.main, fun j => ?_⟩
    rw [wakeup_threadParent]
    by_cases hj : j = i
    · subst hj
      rw [setThread_threads_same, if_pos ⟨Nat.lt_succ_self _, hp⟩]
    · rw [setThread_threads_of_ne hj, h.parent]
      simp only [hrest j hj]
  · rw [if_neg (fun hc => hp hc.1), if_neg hp]
    refine ⟨h.main, fun j => ?_⟩
    rw [h.parent]
    by_cases hj : j = i
    · subst hj
      rw [if_neg (fun hc => hp hc.2), if_neg (fun hc => hp hc.2)]
    · simp only [hrest j hj]

/-- `Treparent` of a thread other than `main_thread` hands its children to it. -/
theorem treparent_reparented (ht : t ≠ p.mainThread) : Reparented p t nthread (p.treparent t) :=
  foldl_finRange_invariant (P := Reparented p t)
    ⟨rfl, fun j => by rw [if_neg (fun h => Nat.not_lt_zero _ h.1)]⟩ fun _ _ hq => hq.step ht

/-- What `Treparent` of `main_thread` keeps: `main_thread` is `t` or a child of `t` passed by. -/
def Inherits (t : Fin nthread) (n : Nat) (q : Proc) : Prop :=
  q.mainThread = t ∨
    q.mainThread < n ∧ q.mainThread ≠ t ∧ (q.threads q.mainThread).threadParent = some t

/-- One turn of `Treparent`, for the main thread. -/
theorem Inherits.step {q : Proc} {i : Fin nthread} (h : Inherits t i q) :
    Inherits t (i + 1) (treparentOne t q i) := by
  rw [treparentOne]
  by_cases hp : (q.threads i).threadParent = some t
  · by_cases ht : t = q.mainThread
    · -- the first child found takes over, and keeps its parent
      rw [if_neg (fun hc => hc.2 ht), if_pos hp]
      by_cases hi : i = t
      · exact .inl hi
      · exact .inr ⟨Nat.lt_succ_self i, hi, hp⟩
    · rw [if_pos ⟨hp, ht⟩]
      obtain hm | ⟨hlt, hne, hpar⟩ := h
      · exact absurd hm.symm ht
      · have hmi : q.mainThread ≠ i := fun he => by rw [he] at hlt; exact Nat.lt_irrefl _ hlt
        refine .inr ⟨Nat.lt_succ_of_lt hlt, hne, ?_⟩
        rw [wakeup_threadParent, wakeup_mainThread, setThread_mainThread,
          setThread_threads_of_ne hmi, hpar]
  · rw [if_neg (fun hc => hp hc.1), if_neg hp]
    exact h.imp_right fun h => ⟨Nat.lt_succ_of_lt h.1, h.2⟩

theorem treparent_inherits (ht : t = p.mainThread) : Inherits t nthread (p.treparent t) :=
  foldl_finRange_invariant (P := Inherits t) (.inl ht.symm) fun _ _ hq => hq.step

/-! ### `kthread_exit` -/

theorem markExited_eq (p : Proc) (t : Fin nthread) (status : Int) :
    ∃ q : Proc, q.mainThread = (p.treparent t).mainThread ∧
      (∀ j, q.Live j ↔ p.Live j) ∧
      (∀ j, (q.threads j).threadParent = ((p.treparent t).threads j).threadParent) ∧
      p.markExited t status =
        q.setThread t { q.threads t with xstate := status, state := .zombie } := by
  rw [markExited]
  cases ((p.treparent t).threads t).threadParent with
  | none => exact ⟨p.treparent t, rfl, treparent_live, fun _ => rfl, rfl⟩
  | some q =>
    refine ⟨(p.treparent t).wakeup (some t) (.thread q), rfl, fun j => ?_, ?_, rfl⟩
    · rw [wakeup_live, treparent_live]
    · exact wakeup_threadParent (some t) (.thread q)

theorem markExited_mainThread (status : Int) :
    (p.markExited t status).mainThread = (p.treparent t).mainThread := by
  obtain ⟨q, hmain, -, -, heq⟩ := markExited_eq p t status
  rw [heq, setThread_mainThread, hmain]

theorem markExited_threadParent (status : Int) (j : Fin nthread) :
    ((p.markExited t status).threads j).threadParent =
      ((p.treparent t).threads j).threadParent := by
  obtain ⟨q, -, -, hparent, heq⟩ := markExited_eq p t status
  rw [heq, ← hparent, setThread_threadParent]
  rfl

theorem markExited_live (status : Int) (j : Fin nthread) :
    (p.markExited t status).Live j ↔ j ≠ t ∧ p.Live j := by
  obtain ⟨q, -, hlive, -, heq⟩ := markExited_eq p t status
  rw [heq, ← hlive]
  by_cases hj : j = t
  · subst hj
    rw [Live, setThread_threads_same]
    simp [live]
  · rw [Live, setThread_threads_of_ne hj]
    exact (and_iff_right hj).symm

theorem not_exited_live (j : Fin nthread) : ¬ p.exited.Live j := by
  simp [Live, exited, live]

/-- `kthread_exit` ends its own thread only, or the last one ends the process. -/
theorem kthreadExit_live (status : Int) (j : Fin nthread) :
    (p.kthreadExit t status).Live j ↔ j ≠ t ∧ p.Live j := by
  rw [← markExited_live status, kthreadExit]
  by_cases h : ∃ k, (p.markExited t status).Live k
  · rw [if_pos h]
  · rw [if_neg h]
    exact iff_of_false (not_exited_live j) fun hj => h ⟨j, hj⟩

theorem kthreadExit_mainThread (status : Int) :
    (p.kthreadExit t status).mainThread = (p.treparent t).mainThread := by
  rw [← markExited_mainThread status, kthreadExit]
  split_ifs <;> rfl

theorem kthreadExit_threadParent (status : Int) (j : Fin nthread) :
    ((p.kthreadExit t status).threads j).threadParent =
      ((p.treparent t).threads j).threadParent := by
  rw [← markExited_threadParent status, kthreadExit]
  split_ifs <;> rfl

/-! ### `kthread_create` -/

theorem not_live_of_freeSlot {l : Fin nthread} (h : p.freeSlot = some l) : ¬ p.Live l := by
  have hl := List.find?_some h
  rw [decide_eq_true_eq] at hl
  obtain hu | hz := hl
  · simp [Live, hu, live]
  · simp [Live, hz, live]

@[simp] theorem alloc_threads_same (l : Fin nthread) :
    (p.alloc t l).threads l =
      { p.threads l with state := .used, tid := p.nexttid, threadParent := some t } :=
  setThread_threads_same l _

theorem alloc_threads_of_ne {l j : Fin nthread} (h : j ≠ l) :
    (p.alloc t l).threads j = p.threads j := setThread_threads_of_ne h _

/-- `kthread_create` makes one thread, a child of the caller. -/
theorem kthreadCreate_eq_some (h : p.kthreadCreate t = some p') :
    ∃ l, ¬ p.Live l ∧ p'.mainThread = p.mainThread ∧
      p'.Live l ∧ (p'.threads l).threadParent = some t ∧
      ∀ j, j ≠ l → p'.threads j = p.threads j := by
  rw [kthreadCreate, Option.map_eq_some_iff] at h
  obtain ⟨l, hl, rfl⟩ := h
  refine ⟨l, not_live_of_freeSlot hl, rfl, ?_, ?_, fun j hj => ?_⟩
  · rw [Live, setState, setThread_threads_same]
    rfl
  · rw [setState, setThread_threads_same, alloc_threads_same]
  · rw [setState, setThread_threads_of_ne hj, alloc_threads_of_ne hj]

end Proc

/-! ### Steps -/

theorem TreeOk.congr (h : TreeOk p) (hlive : ∀ j, p'.Live j ↔ p.Live j)
    (hmain : p'.mainThread = p.mainThread)
    (hparent : ∀ j, (p'.threads j).threadParent = (p.threads j).threadParent) : TreeOk p' := by
  intro hex
  simp only [hlive, hmain, hparent] at hex ⊢
  exact h hex

theorem TreeOk.setThread (h : TreeOk p) {j : Fin nthread} {th : Thread}
    (hlive : live th.state = live (p.threads j).state)
    (hparent : th.threadParent = (p.threads j).threadParent) : TreeOk (p.setThread j th) :=
  h.congr (Proc.setThread_live hlive) rfl (Proc.setThread_threadParent hparent)

/-- `kthread_create` keeps the tree. -/
theorem TreeOk.create (h : TreeOk p) (ht : p.Live t) (hc : p.kthreadCreate t = some p') :
    TreeOk p' := by
  obtain ⟨l, hl, hmain, hl', hpar, hrest⟩ := Proc.kthreadCreate_eq_some hc
  obtain ⟨hm, htree⟩ := h ⟨t, ht⟩
  -- a live thread is not in the slot that is taken, so it stays live
  have hkeep : ∀ j, p.Live j → p'.Live j := by
    intro j hj
    have hjl : j ≠ l := fun he => hl (he ▸ hj)
    rw [Proc.Live, hrest j hjl]
    exact hj
  intro _
  refine ⟨hmain ▸ hkeep _ hm, fun j q hj hq => ?_⟩
  by_cases hjl : j = l
  · rw [hjl, hpar, Option.some.injEq] at hq
    exact hkeep q (hq ▸ ht)
  · rw [hrest j hjl] at hq
    rw [Proc.Live, hrest j hjl] at hj
    exact hkeep q (htree j q hj hq)

/-- The exit of a thread other than the main one keeps the tree. -/
theorem TreeOk.exit (h : TreeOk p) (ht : t ≠ p.mainThread) (status : Int) :
    TreeOk (p.kthreadExit t status) := by
  intro ⟨j₀, hj₀⟩
  rw [Proc.kthreadExit_live] at hj₀
  obtain ⟨hm, htree⟩ := h ⟨j₀, hj₀.2⟩
  obtain ⟨hmain, hparent⟩ := Proc.treparent_reparented ht
  rw [Proc.kthreadExit_mainThread, hmain]
  refine ⟨(Proc.kthreadExit_live status _).mpr ⟨ht.symm, hm⟩, fun j q hj hq => ?_⟩
  rw [Proc.kthreadExit_live] at hj ⊢
  rw [Proc.kthreadExit_threadParent, hparent] at hq
  split_ifs at hq with hc
  · rw [Option.some.injEq] at hq
    exact hq ▸ ⟨ht.symm, hm⟩
  · refine ⟨fun hqt => hc ⟨j.isLt, ?_⟩, htree j q hj.2 hq⟩
    rw [hq, hqt]

/-- The exit of the main thread before the others breaks the tree. -/
theorem not_treeOk_exit (ht : t = p.mainThread) {j : Fin nthread} (hj : j ≠ t) (hlive : p.Live j)
    (status : Int) : ¬ TreeOk (p.kthreadExit t status) := by
  intro h
  obtain ⟨hm, htree⟩ := h ⟨j, (Proc.kthreadExit_live status j).mpr ⟨hj, hlive⟩⟩
  have hdead : ¬ (p.kthreadExit t status).Live t := fun hl =>
    ((Proc.kthreadExit_live status t).mp hl).1 rfl
  obtain hself | ⟨-, -, hpar⟩ := Proc.treparent_inherits ht
  · rw [Proc.kthreadExit_mainThread, hself] at hm
    exact hdead hm
  · refine hdead (htree _ t hm ?_)
    rw [Proc.kthreadExit_threadParent, Proc.kthreadExit_mainThread, hpar]

theorem treeOk_of_not_live (h : ∀ j, ¬ p.Live j) : TreeOk p := fun ⟨j, hj⟩ => absurd hj (h j)

theorem live_of_running (h : (p.threads t).state = .running) : p.Live t := by
  rw [Proc.Live, h]
  rfl

theorem ite_none_eq_some {c : Prop} [Decidable c] {x : Option Proc}
    (h : (if c then x else none) = some p') : c ∧ x = some p' := by
  split_ifs at h with hc
  exact ⟨hc, h⟩

/-- A step from a sound tree leads to a sound tree exactly when the condition holds. -/
theorem TreeOk.step_iff (h : TreeOk p) {a : TreeAct} (hs : treeMachine.step p a = some p') :
    TreeOk p' ↔ MainLast p a := by
  cases a with
  | create =>
    obtain ⟨hrun, hc⟩ := ite_none_eq_some hs
    exact iff_of_true (h.create (live_of_running hrun) hc) trivial
  | exit t status =>
    obtain ⟨hrun, he⟩ := ite_none_eq_some hs
    cases he
    by_cases ht : t = p.mainThread
    · constructor
      · intro hok _ _ j hj hlive
        exact not_treeOk_exit ht hj hlive status hok
      · intro hlast
        refine treeOk_of_not_live fun j hj => ?_
        rw [Proc.kthreadExit_live] at hj
        exact hlast hrun ht j hj.1 hj.2
    · exact iff_of_true (h.exit ht status) fun _ hm => absurd hm ht
  | run | yield | sleep =>
    obtain ⟨hrun, he⟩ := ite_none_eq_some hs
    cases he
    refine iff_of_true (h.setThread ?_ rfl) trivial
    rw [hrun]
    rfl
  | wakeup chan =>
    cases hs
    exact iff_of_true
      (h.congr (Proc.wakeup_live none chan) rfl (Proc.wakeup_threadParent none chan)) trivial
  | alloctid =>
    cases hs
    exact iff_of_true (h.congr (fun _ => Iff.rfl) rfl fun _ => rfl) trivial

theorem mainLast_of_step_none {a : TreeAct} (hs : treeMachine.step p a = none) : MainLast p a := by
  cases a with
  | exit t status =>
    intro hrun
    have hsome : treeMachine.step p (.exit t status) = some (p.kthreadExit t status) := if_pos hrun
    rw [hsome] at hs
    cases hs
  | create | run | yield | sleep | wakeup | alloctid => trivial

theorem Fresh.treeOk (h : Fresh p) : TreeOk p := by
  -- slot 0 holds the only thread
  have hlive : ∀ j, p.Live j ↔ j = 0 := by
    intro j
    rw [Proc.Live, h.state]
    split_ifs with hj
    · exact iff_of_true rfl hj
    · exact iff_of_false Bool.false_ne_true hj
  intro _
  refine ⟨(hlive _).mpr h.mainThread, fun j q hj hq => ?_⟩
  rw [(hlive j).mp hj, h.threadParent] at hq
  cases hq

/-- **The thread tree**: in every sequence of calls by the threads of a process, `main_thread` and
the parents of the live threads are live as long as a thread is, exactly when `main_thread` calls
`kthread_exit` only as the last live thread. -/
theorem treeOk_iff (p : Proc) (as : List TreeAct) (h : Fresh p) :
    treeMachine.Along TreeOk p as ↔ treeMachine.Meets MainLast p as :=
  treeMachine.along_iff_meets (fun _ _ _ h hs => h.step_iff hs) (fun _ _ => mainLast_of_step_none)
    h.treeOk as

def freshProc : Proc where
  threads j :=
    { state := if j = 0 then .runnable else .unused
      chan := none
      xstate := 0
      tid := if j = 0 then 1 else 0
      threadParent := none }
  mainThread := 0
  nexttid := 2

theorem freshProc_fresh : Fresh freshProc := ⟨fun _ => rfl, rfl, rfl⟩

/-- A thread of the main thread creates another one and exits; the main thread exits last. -/
def mainExitsLast : List TreeAct :=
  [.run 0, .create 0, .run 1, .create 1, .exit 1 5, .run 2, .exit 2 6, .exit 0 7]

theorem mainExitsLast_treeOk : Fresh freshProc ∧ treeMachine.Along TreeOk freshProc mainExitsLast :=
  ⟨freshProc_fresh, (treeOk_iff freshProc mainExitsLast freshProc_fresh).mpr (by decide)⟩

/-- The main thread exits before the thread it created: that thread becomes `main_thread` and keeps
the exited thread as its parent. -/
theorem mainExits_treeBroken :
    Fresh freshProc ∧
      ∃ p, treeMachine.run freshProc [.run 0, .create 0, .exit 0 7] = some p ∧ ¬ TreeOk p :=
  ⟨freshProc_fresh, _, rfl, by decide⟩

end Xv6.Kthread
