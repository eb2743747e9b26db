import Xv6.Table.Equiv.Basic
import Xv6.Table.Pages
import Xv6.Table.Trapframe

/-!
# When the two addresses of a trapframe agree

Until the first `kthread_create`, a process has at most one live thread, its first
(`Proc.OneThread`). Then a slot `l` other than `0` is taken, with its trapframe `288 * 288 * l`
bytes into the page, where the trampoline looks `288 * l` bytes into it.
-/

namespace Xv6.Table

open Lib List

/-! ### Processes with one thread -/

/-- Only the first thread of the process may run, and the page table maps its trapframe. -/
structure Proc.OneThread (p : Proc) : Prop where
  others : ∀ j, j ≠ 0 → ¬ (p.threads j).Live
  orphans : ∀ j, (p.threads j).threadParent = none
  main : p.mainThread = 0
  unused : p.state = .unused → p.pagetable = none ∧ ∀ j, ¬ (p.threads j).Live
  frame : p.state ≠ .unused → (p.threads 0).trapframe % pgsize = 0 ∧
    ∃ pages, p.pagetable = some ⟨pages, (p.threads 0).trapframe⟩

/-- Every process has one thread at most. -/
structure OneThreadEach (s : State) : Prop where
  aligned : ∀ q ∈ s.freelist, q % pgsize = 0
  proc : ∀ i, (s.proc i).OneThread

theorem translate_userretArg (pt : Pagetable) (j : Fin nthread) {b : Nat}
    (hb : b < sizeofTrapframe) :
    pt.translate (userretArg j + b) = some (pt.trapframe + (sizeofTrapframe * j + b)) := by
  have hj : j.val < 8 := j.isLt
  have hlt : sizeofTrapframe * j + b < pgsize := by
    unfold sizeofTrapframe at hb ⊢
    unfold pgsize
    omega
  have hva : userretArg j + b = trapframeVa + (sizeofTrapframe * j + b) := by
    unfold userretArg
    omega
  unfold Pagetable.translate pageOf
  rw [hva]
  unfold trapframeVa trampoline maxva
  unfold pgsize at hlt ⊢
  rw [if_pos (by omega)]
  congr 2
  omega

namespace Proc.OneThread

variable {p : Proc}

theorem agree (h : p.OneThread) : p.TrapframesAgree := by
  have hfirst : ∀ j, (p.threads j).Live → j = 0 := fun j hlive =>
    by_contra fun hj => h.others j hj hlive
  have hframe : ∀ j, (p.threads j).Live → p.state ≠ .unused := fun j hlive hunused =>
    (h.unused hunused).2 j hlive
  refine ⟨?_, ?_, ?_⟩
  · intro j hlive b hb
    obtain ⟨-, pages, hpt⟩ := h.frame (hframe j hlive)
    obtain rfl := hfirst j hlive
    rw [hpt, Option.bind_some, translate_userretArg _ 0 hb]
    simp
  · intro j l hjl hj hl
    exact absurd ((hfirst j hj).trans (hfirst l hl).symm) hjl
  · intro j hlive
    obtain ⟨haligned, -⟩ := h.frame (hframe j hlive)
    obtain rfl := hfirst j hlive
    rw [pageOf_of_aligned haligned]
    unfold sizeofTrapframe pgsize
    omega

/-- With a second thread, `userret` uses another trapframe than the kernel. -/
theorem not_agree_created {j l : Fin nthread} {stack : Nat} (h : p.OneThread)
    (hlive : (p.threads 0).Live) (hl : l ≠ 0) :
    ¬ (p.setThread l (.created j stack (State.trapframeOf p l))).TrapframesAgree := by
  intro hagree
  obtain ⟨-, pages, hpt⟩ := h.frame fun hunused => (h.unused hunused).2 0 hlive
  have hmapped := hagree.mapped l (by
    rw [setThread_self]
    exact created_live ..) 0 (by decide)
  have hpt' : (p.setThread l (.created j stack (State.trapframeOf p l))).pagetable =
      some ⟨pages, (p.threads 0).trapframe⟩ := hpt
  rw [hpt', setThread_self, Option.bind_some, translate_userretArg _ l (by decide)] at hmapped
  have heq := Option.some.inj hmapped
  have hpos : 0 < l.val := Nat.pos_of_ne_zero fun h0 => hl (Fin.ext h0)
  simp only [Thread.created, State.trapframeOf, sizeofTrapframe] at heq
  omega

theorem clear_of_unused (hthreads : ∀ j, (p.threads j).state = .unused)
    (horphans : ∀ j, (p.threads j).threadParent = none) (hmain : p.mainThread = 0) :
    p.clear.OneThread where
  others j _ hlive := hlive.1 (hthreads j)
  orphans := horphans
  main := hmain
  unused _ := ⟨rfl, fun j hlive => hlive.1 (hthreads j)⟩
  frame hs := absurd rfl hs

section

variable (h : p.OneThread)

include h

theorem abandoned {p' : Proc} (hunused : p.state = .unused)
    (hp' : p.Abandoned p') : p'.OneThread := by
  obtain ⟨hstate, hpt, hmain, t, ht, hparent, -, -, hthreads⟩ := hp'
  have hdead : ∀ j, ¬ (p'.threads j).Live := by
    rw [hthreads]
    exact (Function.forall_update_iff _ fun _ (t : Thread) => ¬ t.Live).mpr
      ⟨fun hlive => hlive.1 ht, fun j _ => (h.unused hunused).2 j⟩
  refine ⟨fun j _ => hdead j, ?_, hmain, fun _ => ⟨hpt, hdead⟩, fun hs => absurd hstate hs⟩
  rw [hthreads]
  exact (Function.forall_update_iff _ fun _ (t : Thread) => t.threadParent = none).mpr
    ⟨hparent, fun j _ => h.orphans j⟩

theorem started {i : Fin nproc} {tf : Nat} {pages : List Nat}
    (hunused : p.state = .unused) (htf : tf % pgsize = 0) :
    Proc.OneThread
      { state := .used
        parent := some i
        threads := Function.update p.threads 0
          { p.threads 0 with state := .runnable, procParent := true, trapframe := tf }
        mainThread := 0
        pagetable := some ⟨pages, pageOf tf⟩ } where
  others j hj := by
    simpa [hj] using (h.unused hunused).2 j
  orphans j := by
    by_cases hj : j = 0
    · simpa [hj] using h.orphans 0
    · simpa [hj] using h.orphans j
  main := rfl
  unused hs := by cases hs
  frame _ := by
    simp only [Function.update_self]
    exact ⟨htf, pages, by rw [pageOf_of_aligned htf]⟩

theorem setPagetable {pages : List Nat} (hstate : p.state ≠ .unused) :
    (p.setPagetable (some ⟨pages, pageOf (p.threads p.mainThread).trapframe⟩)).OneThread where
  others := h.others
  orphans := h.orphans
  main := h.main
  unused hs := absurd hs hstate
  frame _ := by
    have haligned := (h.frame hstate).1
    refine ⟨haligned, pages, ?_⟩
    rw [h.main, pageOf_of_aligned haligned]
    rfl

theorem exited (hstate : p.state ≠ .unused) : p.exited.OneThread where
  others _ _ hlive := hlive.2 rfl
  orphans := h.orphans
  main := h.main
  unused hs := by cases hs
  frame _ := h.frame hstate

theorem ended {j : Fin nthread} :
    (p.setThread j ((p.threads j).setState .zombie)).OneThread := by
  have hthreads := fun l => setThread_setState p j l .zombie
  have hlive : ∀ l, ((p.setThread j ((p.threads j).setState .zombie)).threads l).Live →
      (p.threads l).Live := by
    intro l hlive
    rw [hthreads] at hlive
    split_ifs at hlive
    · exact absurd rfl hlive.2
    · exact hlive
  refine ⟨fun l hl hl' => h.others l hl (hlive l hl'), ?_, h.main, ?_, ?_⟩
  · intro l
    rw [hthreads]
    split_ifs
    · exact h.orphans l
    · exact h.orphans l
  · intro hs
    exact ⟨(h.unused hs).1, fun l hl => (h.unused hs).2 l (hlive l hl)⟩
  · intro hs
    have htf : ((p.setThread j ((p.threads j).setState .zombie)).threads 0).trapframe =
        (p.threads 0).trapframe := by
      rw [hthreads]
      split_ifs <;> rfl
    rw [htf]
    exact h.frame hs

end

end Proc.OneThread

/-! ### The steps -/

namespace OneThreadEach

variable {s s' s₁ : State}

theorem of_setProc {k : Fin nproc} {p : Proc} (h : ∀ i, i ≠ k → (s.proc i).OneThread)
    (haligned : ∀ q ∈ s.freelist, q % pgsize = 0) (hp : p.OneThread) :
    OneThreadEach (s.setProc k p) :=
  ⟨haligned, (Function.forall_update_iff s.proc fun _ (p : Proc) => p.OneThread).mpr ⟨hp, h⟩⟩

theorem givenBack (h : OneThreadEach s) (hback : GivenBack s s₁) : OneThreadEach s₁ := by
  obtain ⟨m, given, -, hvalid, rfl⟩ := hback
  refine ⟨fun q hq => ?_, h.proc⟩
  rcases mem_append.mp hq with hq | hq
  · exact (hvalid q (mem_reverse.mp hq)).1
  · exact h.aligned q (mem_of_mem_drop hq)

variable {i : Fin nproc} {order : List Nat} {j : Fin nthread}

section

variable (h : OneThreadEach s)

include h

theorem fork {n : Nat} (hfork : s.fork i n order = some s') :
    OneThreadEach s' := by
  rcases fork_eq_some (fun i hi => ((h.proc i).unused hi).1) hfork with rfl | ⟨k, hk,
    ⟨s₁, p', hback, hp', rfl⟩ | ⟨tf, pages, htake, rfl⟩⟩
  · exact h
  · have h₁ := h.givenBack hback
    exact of_setProc (fun i _ => h₁.proc i) h₁.aligned ((h.proc k).abandoned hk hp')
  · have htf : tf ∈ s.freelist := by
      apply mem_of_mem_take (i := n + 1)
      rw [htake]
      exact mem_cons_self
    exact of_setProc (fun i _ => h.proc i) (fun q hq => h.aligned q (mem_of_mem_drop hq))
      ((h.proc k).started hk (h.aligned tf htf))

theorem exec {n : Nat} {fails : Bool} (hlive : ((s.proc i).threads j).Live)
    (hexec : s.exec i n fails order = some s') : OneThreadEach s' := by
  rcases exec_eq_some hexec with hback | ⟨given, -, hvalid, rfl⟩
  · exact h.givenBack hback
  · refine of_setProc (fun i _ => h.proc i) (fun q hq => ?_)
      ((h.proc i).setPagetable fun hs => ((h.proc i).unused hs).2 j hlive)
    rcases mem_append.mp hq with hq | hq
    · exact (hvalid q (mem_reverse.mp hq)).1
    · exact h.aligned q (mem_of_mem_drop hq)

theorem exit (hstate : (s.proc i).state ≠ .unused)
    (hexit : s.exit i = some s') : OneThreadEach s' := by
  obtain ⟨-, rfl⟩ := exit_eq_some hexit
  have hre : ∀ l, ((s.reparent i).proc l).OneThread ∧
      ((s.reparent i).proc l).state = (s.proc l).state := by
    intro l
    have hl := h.proc l
    unfold State.reparent
    dsimp only
    split_ifs
    · exact ⟨⟨hl.others, hl.orphans, hl.main, hl.unused, hl.frame⟩, rfl⟩
    · exact ⟨hl, rfl⟩
  refine of_setProc (fun l _ => (hre l).1) h.aligned ((hre i).1.exited ?_)
  rwa [(hre i).2]

theorem kthreadExit (hlive : ((s.proc i).threads j).Live)
    (hexit : s.kthreadExit i j = some s') :
    OneThreadEach s' := by
  obtain ⟨p, hp, s₁, rfl, hcase⟩ := kthreadExit_eq_some hexit
  rw [treparent_eq_self fun l => by rw [(h.proc i).orphans l]; exact nofun] at hp
  subst hp
  have h₁ : OneThreadEach (s.setProc i ((s.proc i).setThread j
      (((s.proc i).threads j).setState .zombie))) :=
    of_setProc (fun l _ => h.proc l) h.aligned (h.proc i).ended
  rcases hcase with rfl | hcase
  · exact h₁
  · refine h₁.exit ?_ hcase
    rw [setProc_proc_self]
    exact fun hs => ((h.proc i).unused hs).2 j hlive

end

/-- The loop of `wait` before slot `m`. -/
structure Reaping (s : State) (k : Fin nproc) (m : Nat) (s₁ : State) : Prop where
  aligned : ∀ q ∈ s₁.freelist, q % pgsize = 0
  others : ∀ i, i ≠ k → s₁.proc i = s.proc i
  main : (s₁.proc k).mainThread = 0
  done : ∀ j : Fin nthread, j.val < m → ((s₁.proc k).threads j).state = .unused
  orphans : ∀ j, ((s₁.proc k).threads j).threadParent = none

theorem freethreads {k : Fin nproc} (h : OneThreadEach s)
    (hrun : State.freethreads k s = some s₁) : Reaping s k nthread s₁ := by
  refine foldlM_finRange_invariant (P := fun m x => Reaping s k m x)
    ⟨h.aligned, fun _ _ => rfl, (h.proc k).main, fun _ hj => absurd hj (Nat.not_lt_zero _),
      (h.proc k).orphans⟩ ?_ hrun
  intro l x y hx hstep
  split_ifs at hstep with hused
  · obtain ⟨given, -, hvalid, rfl⟩ := freethread_eq_some hstep
    refine ⟨?_, ?_, ?_, ?_, ?_⟩
    · intro q hq
      rcases mem_append.mp hq with hq | hq
      · exact (hvalid q (mem_reverse.mp hq)).1
      · exact hx.aligned q hq
    · intro i hi
      rw [State.setThread, setProc_proc_of_ne hi]
      exact hx.others i hi
    · rw [State.setThread, setProc_proc_self]
      exact hx.main
    · intro j hj
      rw [State.setThread, setProc_proc_self]
      by_cases hjl : j = l
      · subst hjl
        rw [setThread_self]
        rfl
      · rw [setThread_of_ne hjl]
        exact hx.done j (by omega)
    · intro j
      rw [State.setThread, setProc_proc_self]
      by_cases hjl : j = l
      · subst hjl
        rw [setThread_self]
        rfl
      · rw [setThread_of_ne hjl]
        exact hx.orphans j
  · cases hstep
    refine ⟨hx.aligned, hx.others, hx.main, fun j hj => ?_, hx.orphans⟩
    by_cases hjl : j = l
    · subst hjl
      exact not_not.mp hused
    · exact hx.done j (by omega)

theorem wait {copyFails : Bool} (h : OneThreadEach s) (hwait : s.wait i copyFails order = some s') :
    OneThreadEach s' := by
  rcases wait_eq_some hwait with rfl | ⟨k, s₁, given, -, -, hthreads, -, hvalid, rfl⟩
  · exact h
  have hr := h.freethreads hthreads
  have hset : OneThreadEach ((s₁.freed given).setProc k (s₁.proc k).clear) := by
    refine of_setProc (fun i hi => ?_) (fun q hq => ?_)
      (.clear_of_unused (fun j => hr.done j j.isLt) hr.orphans hr.main)
    · show (s₁.proc i).OneThread
      rw [hr.others i hi]
      exact h.proc i
    · rcases mem_append.mp hq with hq | hq
      · exact (hvalid q (mem_reverse.mp hq)).1
      · exact hr.aligned q hq
  exact ⟨hset.aligned, hset.proc⟩

theorem booted {kend tf : Nat} {pages free : List Nat} (h : BootPages kend tf pages free) :
    OneThreadEach (booted kend tf pages free) := by
  have htf := h.aligned tf (by simp)
  refine ⟨fun q hq => h.aligned q (mem_append_right _ hq), fun i => ⟨?_, ?_, rfl, ?_, ?_⟩⟩
  · intro j hj hlive
    exact hlive.1 (by simp [Table.booted, hj])
  · intro j
    rfl
  · intro hs
    have hi : i ≠ 0 := by
      rintro rfl
      simp [Table.booted] at hs
    exact ⟨by simp [Table.booted, hi], fun j hlive => hlive.1 (by simp [Table.booted, hi])⟩
  · intro hs
    have hi : i = 0 := by
      by_contra hi
      simp [Table.booted, hi] at hs
    simp [Table.booted, hi, pageOf_of_aligned htf, htf]

/-- A call other than `kthread_create` keeps one thread in each process. -/
theorem step {a : Act} (h : OneThreadEach s) (ha : ∀ i j, a ≠ .kthreadCreate i j)
    (hstep : tableMachine.step s a = some s') : OneThreadEach s' := by
  unfold tableMachine at hstep
  dsimp only at hstep
  split_ifs at hstep with hlive
  cases a with
  | fork => exact h.fork hstep
  | kthreadCreate i j => exact absurd rfl (ha i j)
  | kthreadExit => exact h.kthreadExit hlive hstep
  | exit i j => exact h.exit (fun hs => ((h.proc i).unused hs).2 j hlive) hstep
  | wait => exact h.wait hstep
  | exec => exact h.exec hlive hstep

/-- After `kthread_create` the trapframes do not agree. -/
theorem not_agree_kthreadCreate (h : OneThreadEach s)
    (hstep : tableMachine.step s (.kthreadCreate i j) = some s') :
    ¬ (s'.proc i).TrapframesAgree := by
  unfold tableMachine at hstep
  dsimp only at hstep
  split_ifs at hstep with hlive
  obtain ⟨l, stack, hslot, -, rfl⟩ := kthreadCreate_eq_some hstep
  have hj : j = 0 := by_contra fun hj => (h.proc i).others j hj hlive
  have hfirst : ((s.proc i).threads 0).Live := hj ▸ hlive
  have hl : l ≠ 0 := by
    rintro rfl
    have hfree := List.find?_some hslot
    simp only [decide_eq_true_eq] at hfree
    exact hfree.elim hfirst.1 hfirst.2
  have hproc : (((s.taken 1).setProc i ((s.proc i).setThread l
      (.created j stack (State.trapframeOf (s.proc i) l)))).logStack i stack).proc i =
        (s.proc i).setThread l (.created j stack (State.trapframeOf (s.proc i) l)) :=
    setProc_proc_self ..
  rw [hproc]
  exact (h.proc i).not_agree_created hfirst hl

/-- The trapframes agree along a run exactly if no thread is created. -/
theorem agree_iff (as : List Act) (h : OneThreadEach s) (hrun : tableMachine.run s as = some s') :
    tableMachine.Along (fun s => ∀ i, (s.proc i).TrapframesAgree) s as ↔
      ∀ i j, .kthreadCreate i j ∉ as := by
  induction as generalizing s with
  | nil =>
    simp only [Machine.Along, not_mem_nil, not_false_eq_true, implies_true, iff_true]
    exact fun i => (h.proc i).agree
  | cons a as ih =>
    obtain ⟨s₁, hs₁, hrest⟩ := tableMachine.run_cons_eq_some.mp hrun
    rw [tableMachine.along_cons hs₁]
    by_cases ha : ∃ i j, a = .kthreadCreate i j
    · obtain ⟨i, j, rfl⟩ := ha
      constructor
      · intro halong
        exact absurd (tableMachine.along_head halong.2 i) (h.not_agree_kthreadCreate hs₁)
      · intro hnone
        exact absurd mem_cons_self (hnone i j)
    · have ha' : ∀ i j, a ≠ .kthreadCreate i j := fun i j hij => ha ⟨i, j, hij⟩
      rw [ih (h.step ha' hs₁) hrest]
      constructor
      · rintro ⟨-, hnone⟩ i j hmem
        rcases mem_cons.mp hmem with heq | hmem
        · exact ha' i j heq.symm
        · exact hnone i j hmem
      · intro hnone
        exact ⟨fun i => (h.proc i).agree, fun i j hmem => hnone i j (mem_cons_of_mem a hmem)⟩

end OneThreadEach

/-! ### Runs -/

/-- **Agreement of the trapframes**: in every state of a run from the boot of the kernel, the
trampoline reaches the trapframe of each live thread where the kernel has it, and the trapframes are
apart and in the trapframe page, exactly if the run has no `kthread_create`. -/
theorem trapframes_agree_iff (kend tf : Nat) (pages free : List Nat)
    (hboot : BootPages kend tf pages free) (as : List Act) (s : State)
    (hrun : tableMachine.run (booted kend tf pages free) as = some s) :
    tableMachine.Along (fun s => ∀ i, (s.proc i).TrapframesAgree) (booted kend tf pages free) as ↔
      ∀ i j, .kthreadCreate i j ∉ as :=
  OneThreadEach.agree_iff as (.booted hboot) hrun

/-- A child that replaces its program. -/
def forkExec : List Act := [.fork 0 0 6 [], .exec 1 0 6 false ((List.range' 8 6).map pageAt)]

theorem forkExec_agree :
    tableMachine.Along (fun s => ∀ i, (s.proc i).TrapframesAgree) smallBoot forkExec := by
  obtain ⟨s, hs⟩ := Option.isSome_iff_exists.mp
    (show (tableMachine.run smallBoot forkExec).isSome = true by decide +kernel)
  exact (trapframes_agree_iff _ _ _ _ smallBoot_pages forkExec s hs).mpr (by simp [forkExec])

/-- The first `kthread_create` of `init` puts the trapframe 20 pages behind the trapframe page: the
trampoline reads and writes other memory. -/
theorem oneCreate_misplaced :
    ∃ s, tableMachine.run smallBoot [.kthreadCreate 0 0] = some s ∧
      ((s.proc 0).threads 1).Live ∧ ((s.proc 0).threads 1).trapframe = pageAt 20 + 1024 ∧
      ((s.proc 0).pagetable.bind fun pt => pt.translate (userretArg 1)) =
        some (pageAt 0 + sizeofTrapframe) ∧
      ¬ (s.proc 0).TrapframesAgree := by
  have hrun : (tableMachine.run smallBoot [.kthreadCreate 0 0]).map (fun s =>
      (decide ((s.proc 0).threads 1).Live, ((s.proc 0).threads 1).trapframe,
        (s.proc 0).pagetable.bind fun pt => pt.translate (userretArg 1))) =
      some (true, pageAt 20 + 1024, some (pageAt 0 + sizeofTrapframe)) := by decide +kernel
  obtain ⟨s, hs, hdata⟩ := Option.map_eq_some_iff.mp hrun
  obtain ⟨hlive, hrest⟩ := Prod.mk.inj hdata
  obtain ⟨htf, hpt⟩ := Prod.mk.inj hrest
  refine ⟨s, hs, of_decide_eq_true hlive, htf, hpt, fun hagree => ?_⟩
  have hmapped := hagree.mapped 1 (of_decide_eq_true hlive) 0 (by decide)
  rw [Nat.add_zero, Nat.add_zero, hpt, htf] at hmapped
  exact absurd hmapped (by decide)

end Xv6.Table
