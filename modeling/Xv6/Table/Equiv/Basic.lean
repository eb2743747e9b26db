import Xv6.Lib.Loop
import Xv6.Table.Basic

/-!
# What the system calls do to the table

One lemma for each function of the table on its result: the free pages and the history of the stack
pages after some `kalloc` (`State.taken`) and `kfree` (`State.freed`), and the process that changed
(`State.setProc`).
-/

namespace Xv6.Table

open List

open Lib Function

/-! ### The allocator -/

namespace StackPage

def supersedeAll (pages : List Nat) (e : StackPage) : StackPage :=
  if e.page ∈ pages then { e with current := false } else e

def giveBackAll (pages : List Nat) (e : StackPage) : StackPage :=
  if e.current then { e with returns := e.returns + pages.count e.page } else e

theorem supersedeAll_cons (page : Nat) (pages : List Nat) (e : StackPage) :
    (e.supersede page).supersedeAll pages = e.supersedeAll (page :: pages) := by
  unfold supersede supersedeAll
  by_cases h : e.page = page
  · by_cases hp : page ∈ pages <;> simp [h, hp]
  · simp [h]

theorem giveBackAll_cons (page : Nat) (pages : List Nat) (e : StackPage) :
    (e.giveBack page).giveBackAll pages = e.giveBackAll (page :: pages) := by
  unfold giveBack giveBackAll
  by_cases hc : e.current
  · by_cases h : e.page = page
    · subst h
      simp [hc, count_cons_self]
      omega
    · simp [hc, h, count_cons_of_ne (Ne.symm h)]
  · simp [hc]

end StackPage

namespace State

/-- The state after `n` pages were taken from the free list. -/
def taken (n : Nat) (s : State) : State :=
  { s with
    freelist := s.freelist.drop n
    stackLog := s.stackLog.map (·.supersedeAll (s.freelist.take n)) }

/-- The state after the pages were given back. -/
def freed (given : List Nat) (s : State) : State :=
  { s with
    freelist := given.reverse ++ s.freelist
    stackLog := s.stackLog.map (·.giveBackAll given) }

end State

/-- The range check of `kfree`. -/
def Freeable (kend q : Nat) : Prop := q % pgsize = 0 ∧ kend ≤ q ∧ q < phystop

theorem kallocN_eq (n : Nat) (s : State) : kallocN n s = (s.freelist.take n, s.taken n) := by
  have hnil : ∀ log : List StackPage, log.map (·.supersedeAll []) = log := by
    intro log
    simp [StackPage.supersedeAll]
  induction n generalizing s with
  | zero => simp [kallocN, State.taken, hnil]
  | succ n ih =>
    obtain ⟨kend, freelist, proc, stackLog⟩ := s
    cases freelist with
    | nil => simp [kallocN, State.kalloc, State.taken, hnil]
    | cons =>
      simp only [kallocN, State.kalloc, ih, State.taken, take_succ_cons, drop_succ_cons,
        map_map, Function.comp_def, StackPage.supersedeAll_cons]

variable {s s' : State} {i : Fin nproc} {j : Fin nthread} {order : List Nat}

theorem kalloc_eq_some {page : Nat} (h : s.kalloc = some (page, s')) :
    s.freelist.take 1 = [page] ∧ s' = s.taken 1 := by
  have hn : kallocN 1 s = ([page], s') := by
    simp [kallocN, h]
  rw [kallocN_eq] at hn
  exact ⟨congrArg Prod.fst hn, (congrArg Prod.snd hn).symm⟩

theorem kfreeAll_eq_some {given : List Nat} (h : kfreeAll given s = some s') :
    (∀ q ∈ given, Freeable s.kend q) ∧ s' = s.freed given := by
  induction given generalizing s with
  | nil =>
    cases h
    simp [State.freed, StackPage.giveBackAll]
  | cons q given ih =>
    obtain ⟨s₁, hs₁, hrest⟩ := Option.bind_eq_some_iff.mp h
    unfold State.kfree at hs₁
    split_ifs at hs₁ with hbad
    cases hs₁
    obtain ⟨hvalid, rfl⟩ := ih hrest
    refine ⟨?_, ?_⟩
    · rintro q' (_ | ⟨_, hq'⟩)
      · exact ⟨by omega, by omega, by omega⟩
      · exact hvalid q' hq'
    · simp [State.freed, Function.comp_def, StackPage.giveBackAll_cons]

theorem kfree_eq_some {q : Nat} (h : s.kfree q = some s') :
    Freeable s.kend q ∧ s' = s.freed [q] := by
  have hall : kfreeAll [q] s = some s' := by
    simp [kfreeAll, h]
  obtain ⟨hvalid, hs'⟩ := kfreeAll_eq_some hall
  exact ⟨hvalid q mem_cons_self, hs'⟩

@[simp] theorem setProc_proc_self (s : State) (i : Fin nproc) (p : Proc) :
    (s.setProc i p).proc i = p := update_self ..

theorem setProc_proc_of_ne {i l : Fin nproc} (h : l ≠ i) (s : State) (p : Proc) :
    (s.setProc i p).proc l = s.proc l := update_of_ne h ..

@[simp] theorem setProc_setProc (s : State) (i : Fin nproc) (p p' : Proc) :
    (s.setProc i p).setProc i p' = s.setProc i p' := by
  simp [State.setProc]

@[simp] theorem setProc_self (s : State) (i : Fin nproc) : s.setProc i (s.proc i) = s := by
  simp [State.setProc]

@[simp] theorem setThread_self (p : Proc) (j : Fin nthread) (t : Thread) :
    (p.setThread j t).threads j = t := update_self ..

@[simp] theorem setThread_of_ne {j l : Fin nthread} (h : l ≠ j) (p : Proc) (t : Thread) :
    (p.setThread j t).threads l = p.threads l := update_of_ne h ..

theorem setThread_setState (p : Proc) (j l : Fin nthread) (state : ProcState) :
    (p.setThread j ((p.threads j).setState state)).threads l =
      if l = j then (p.threads l).setState state else p.threads l := by
  by_cases hl : l = j
  · subst hl
    rw [setThread_self, if_pos rfl]
  · rw [setThread_of_ne hl, if_neg hl]

theorem taken_setProc (n : Nat) (s : State) (i : Fin nproc) (p : Proc) :
    (s.setProc i p).taken n = (s.taken n).setProc i p := rfl

theorem freed_setProc (given : List Nat) (s : State) (i : Fin nproc) (p : Proc) :
    (s.setProc i p).freed given = (s.freed given).setProc i p := rfl

theorem freed_freed (s : State) (a b : List Nat) : (s.freed a).freed b = s.freed (a ++ b) := by
  have hgive : ∀ e : StackPage, (e.giveBackAll a).giveBackAll b = e.giveBackAll (a ++ b) := by
    intro e
    unfold StackPage.giveBackAll
    by_cases hc : e.current
    · simp [hc, count_append]
      omega
    · simp [hc]
  simp [State.freed, Function.comp_def, hgive]

theorem freed_nil (s : State) : s.freed [] = s := by
  simp [State.freed, StackPage.giveBackAll]

theorem created_live (j : Fin nthread) (stack trapframe : Nat) :
    (Thread.created j stack trapframe).Live := by
  simp [Thread.created, Thread.Live]

theorem pageOf_of_aligned {a : Nat} (h : a % pgsize = 0) : pageOf a = a := by
  unfold pageOf
  have := Nat.div_add_mod a pgsize
  rw [Nat.mul_comm]
  omega

/-! ### Freeing -/

theorem freethread_eq_some (h : State.freethread i j s = some s') :
    ∃ given,
      ((given = [] ∧ (((s.proc i).threads j).kstack = 0 ∨
          ((s.proc i).threads j).procParent = true ∧ j = 0)) ∨
        (given = [((s.proc i).threads j).kstack] ∧ ((s.proc i).threads j).kstack ≠ 0 ∧
          ¬ (((s.proc i).threads j).procParent = true ∧ j = 0))) ∧
      (∀ q ∈ given, Freeable s.kend q) ∧
      s' = (s.freed given).setThread i j
        (((s.proc i).threads j).clear (((s.proc i).threads j).procParent && j = 0)) := by
  unfold State.freethread at h
  dsimp only at h
  rw [Option.map_eq_some_iff] at h
  obtain ⟨s₁, hs₁, rfl⟩ := h
  split_ifs at hs₁ with hfree
  · obtain ⟨hvalid, rfl⟩ := kfree_eq_some hs₁
    refine ⟨_, .inr ⟨rfl, hfree.1, ?_⟩, ?_, rfl⟩
    · rintro ⟨hparent, hj⟩
      rw [hparent, decide_eq_true hj] at hfree
      exact absurd hfree.2 (by decide)
    · intro q hq
      rwa [mem_singleton.mp hq]
  · cases hs₁
    refine ⟨[], .inl ⟨rfl, ?_⟩, by simp, by rw [freed_nil]⟩
    by_cases hkstack : ((s.proc i).threads j).kstack = 0
    · exact .inl hkstack
    · right
      by_contra hfirst
      exact hfree ⟨hkstack, by simpa using hfirst⟩

theorem procFreepagetable_eq_some {pagetable : Option Pagetable}
    (h : State.procFreepagetable pagetable order s = some s') :
    ∃ given, given.Perm (pagesOf pagetable) ∧ (∀ q ∈ given, Freeable s.kend q) ∧
      s' = s.freed given := by
  cases pagetable with
  | none =>
    cases h
    exact ⟨[], List.Perm.refl _, by simp, (freed_nil s).symm⟩
  | some =>
    unfold State.procFreepagetable at h
    dsimp only at h
    split_ifs at h with hperm
    obtain ⟨hvalid, rfl⟩ := kfreeAll_eq_some h
    exact ⟨order, hperm, hvalid, rfl⟩

theorem freeproc_eq_some (h : State.freeproc i order s = some s') :
    ∃ given, (∀ q, given.count q ≤
        (if ((s.proc i).threads 0).trapframe = q then 1 else 0) +
          (pagesOf (s.proc i).pagetable).count q) ∧
      (∀ q ∈ given, Freeable s.kend q) ∧
      s' = (s.freed given).setProc i (s.proc i).clear := by
  unfold State.freeproc at h
  dsimp only at h
  rw [Option.map_eq_some_iff] at h
  obtain ⟨s₂, hs₂, rfl⟩ := h
  obtain ⟨s₁, hs₁, htf⟩ := Option.bind_eq_some_iff.mp hs₂
  obtain ⟨given, hperm, hvalid, rfl⟩ := procFreepagetable_eq_some hs₁
  unfold State.freeTrapframe at htf
  split_ifs at htf with hzero
  · obtain ⟨hvalid', rfl⟩ := kfree_eq_some htf
    refine ⟨given ++ [((s.proc i).threads 0).trapframe], fun q => ?_, ?_, ?_⟩
    · rw [count_append, hperm.count_eq, count_singleton]
      by_cases hq : ((s.proc i).threads 0).trapframe = q
      · rw [if_pos hq, if_pos (beq_iff_eq.mpr hq)]
        omega
      · rw [if_neg hq, if_neg (fun heq => hq (beq_iff_eq.mp heq))]
        omega
    · intro q hq
      rcases mem_append.mp hq with hq | hq
      · exact hvalid q hq
      · rwa [mem_singleton.mp hq]
    · rw [freed_freed]
      rfl
  · cases htf
    refine ⟨given, fun q => ?_, hvalid, rfl⟩
    rw [hperm.count_eq]
    omega

/-! ### Allocating -/

theorem taken_taken (s : State) (a b : Nat) : (s.taken a).taken b = s.taken (a + b) := by
  have hsupersede : ∀ (l₁ l₂ : List Nat) (e : StackPage),
      (e.supersedeAll l₁).supersedeAll l₂ = e.supersedeAll (l₁ ++ l₂) := by
    intro l₁ l₂ e
    unfold StackPage.supersedeAll
    by_cases h₁ : e.page ∈ l₁ <;> by_cases h₂ : e.page ∈ l₂ <;> simp [h₁, h₂]
  have htake : s.freelist.take a ++ (s.freelist.drop a).take b = s.freelist.take (a + b) := by
    rw [take_add]
  simp only [State.taken, map_map, Function.comp_def, hsupersede, htake, drop_drop]

/-- All pages that were taken were given back, and nothing else has changed. -/
def GivenBack (s s₁ : State) : Prop :=
  ∃ m given, given.Subperm (s.freelist.take m) ∧ (∀ q ∈ given, Freeable s.kend q) ∧
    s₁ = (s.taken m).freed given

/-- The slot of a process that could not be allocated. -/
def Proc.Abandoned (p p' : Proc) : Prop :=
  p'.state = .unused ∧ p'.pagetable = none ∧ p'.mainThread = 0 ∧
    ∃ t : Thread, t.state = .unused ∧ t.threadParent = none ∧ t.procParent = false ∧
      t.kstack = (p.threads 0).kstack ∧ p'.threads = update p.threads 0 t

@[simp] theorem start_threads_zero (p : Proc) (tf : Nat) :
    (p.start tf).threads 0 =
      { p.threads 0 with state := .used, procParent := true, trapframe := tf } := by
  simp [Proc.start]

theorem abandon_eq_some {p : Proc} {tf : Nat} (hp : p.pagetable = none)
    (h : (State.freeproc i [] (s.setProc i (p.start tf))).bind (State.freethread i 0) = some s') :
    ∃ given p', (given = [] ∨ given = [tf] ∧ tf ≠ 0) ∧ (∀ q ∈ given, Freeable s.kend q) ∧
      p.Abandoned p' ∧ s' = (s.freed given).setProc i p' := by
  obtain ⟨s₁, hs₁, hs'⟩ := Option.bind_eq_some_iff.mp h
  have hpt : (p.start tf).pagetable = none := hp
  unfold State.freeproc at hs₁
  simp only [setProc_proc_self, hpt, State.procFreepagetable, Option.bind_some,
    start_threads_zero] at hs₁
  rw [Option.map_eq_some_iff] at hs₁
  obtain ⟨s₂, hs₂, rfl⟩ := hs₁
  obtain ⟨given, hgiven, hvalid, rfl⟩ : ∃ given, (given = [] ∨ given = [tf] ∧ tf ≠ 0) ∧
      (∀ q ∈ given, Freeable s.kend q) ∧ s₂ = (s.freed given).setProc i (p.start tf) := by
    unfold State.freeTrapframe at hs₂
    split_ifs at hs₂ with hzero
    · obtain ⟨hvalid, rfl⟩ := kfree_eq_some hs₂
      exact ⟨_, .inr ⟨rfl, hzero⟩, fun q hq => mem_singleton.mp hq ▸ hvalid, rfl⟩
    · cases hs₂
      exact ⟨[], .inl rfl, by simp, by rw [freed_nil]⟩
  rw [setProc_proc_self, setProc_setProc] at hs'
  obtain ⟨given', hgiven', -, rfl⟩ := freethread_eq_some hs'
  -- the first thread's stack is not from `kalloc`
  have hnil : given' = [] := by
    rcases hgiven' with hnil | hstack
    · exact hnil.1
    · exact absurd ⟨by simp [Proc.clear], rfl⟩ hstack.2.2
  subst hnil
  refine ⟨given, { p with
    state := .unused, parent := none, mainThread := 0, pagetable := none
    threads := update p.threads 0 (((p.start tf).threads 0).clear true) }, hgiven, hvalid,
    ⟨rfl, rfl, rfl, _, rfl, rfl, rfl, ?_, rfl⟩, ?_⟩
  · simp [Thread.clear]
  · rw [freed_nil, State.setThread, setProc_setProc, setProc_proc_self]
    simp [Proc.start, Proc.setThread, Proc.clear]

/-- What `allocproc` does: no slot, a slot with its pages, or all pages given back. -/
theorem allocproc_eq_some {n : Nat} {r : Option (Fin nproc)}
    (hnone : ∀ i, (s.proc i).state = .unused → (s.proc i).pagetable = none)
    (h : s.allocproc n order = some (r, s')) :
    (r = none ∧ s' = s) ∨
      ∃ i, (s.proc i).state = .unused ∧
        ((r = none ∧ ∃ s₁ p', GivenBack s s₁ ∧ (s.proc i).Abandoned p' ∧ s' = s₁.setProc i p') ∨
          ∃ tf pages, r = some i ∧ s.freelist.take (n + 1) = tf :: pages ∧
            s' = (s.taken (n + 1)).setProc i
              (((s.proc i).start tf).setPagetable (some ⟨pages, pageOf tf⟩))) := by
  unfold State.allocproc at h
  split at h
  · cases h
    exact .inl ⟨rfl, rfl⟩
  rename_i i hfind
  have hunused : (s.proc i).state = .unused := by
    simpa using List.find?_some hfind
  refine .inr ⟨i, hunused, ?_⟩
  have hpt := hnone i hunused
  split at h
  · -- no trapframe page
    obtain ⟨s₂, hs₂, hr⟩ := Option.map_eq_some_iff.mp h
    obtain ⟨rfl, rfl⟩ := Prod.mk.inj hr
    obtain ⟨given, p', hgiven, -, hp', rfl⟩ := abandon_eq_some hpt hs₂
    have hnil : given = [] := hgiven.resolve_right fun hone => hone.2 rfl
    subst hnil
    refine .inl ⟨rfl, _, p', ⟨0, [], nil_subperm, by simp, ?_⟩, hp', rfl⟩
    simp [freed_nil, State.taken, StackPage.supersedeAll]
  rename_i tf s₁ hk
  obtain ⟨htf, rfl⟩ := kalloc_eq_some hk
  rw [kallocN_eq, taken_setProc, taken_taken] at h
  dsimp only at h
  split_ifs at h with hlen hperm
  · cases h
    refine .inr ⟨tf, (s.freelist.drop 1).take n, rfl, ?_, ?_⟩
    · rw [Nat.add_comm, take_add, htf, singleton_append]
    · rw [setProc_setProc, setProc_proc_self, Nat.add_comm]
      rfl
  -- the pages of the page table and the trapframe page go back
  obtain ⟨s₂, hs₂, hr⟩ := Option.map_eq_some_iff.mp h
  obtain ⟨rfl, rfl⟩ := Prod.mk.inj hr
  obtain ⟨s₃, hs₃, hthread⟩ := Option.bind_eq_some_iff.mp hs₂
  obtain ⟨s₄, hs₄, hproc⟩ := Option.bind_eq_some_iff.mp hs₃
  obtain ⟨hvalid, rfl⟩ := kfreeAll_eq_some hs₄
  rw [freed_setProc] at hproc
  obtain ⟨given, p', hgiven, hvalid', hp', rfl⟩ :=
    abandon_eq_some hpt (Option.bind_eq_some_iff.mpr ⟨s₃, hproc, hthread⟩)
  rw [freed_freed]
  refine .inl ⟨rfl, _, p', ⟨1 + n, order ++ given, ?_, ?_, rfl⟩, hp', rfl⟩
  · rw [take_add, htf]
    have hsub : given.Subperm [tf] := by
      rcases hgiven with rfl | ⟨rfl, -⟩
      · exact nil_subperm
      · exact List.Subperm.refl _
    exact (hperm.subperm.append hsub).trans perm_append_comm.subperm
  · intro q hq
    rcases mem_append.mp hq with hq | hq
    · exact hvalid q hq
    · exact hvalid' q hq

/-- `fork` fails and leaves the processes as they were, or makes a child of `i`. -/
theorem fork_eq_some {n : Nat}
    (hnone : ∀ i, (s.proc i).state = .unused → (s.proc i).pagetable = none)
    (h : s.fork i n order = some s') :
    s' = s ∨
      ∃ k, (s.proc k).state = .unused ∧
        ((∃ s₁ p', GivenBack s s₁ ∧ (s.proc k).Abandoned p' ∧ s' = s₁.setProc k p') ∨
          ∃ tf pages, s.freelist.take (n + 1) = tf :: pages ∧
            s' = (s.taken (n + 1)).setProc k
              { state := .used
                parent := some i
                threads := update (s.proc k).threads 0
                  { (s.proc k).threads 0 with
                    state := .runnable, procParent := true, trapframe := tf }
                mainThread := 0
                pagetable := some ⟨pages, pageOf tf⟩ }) := by
  unfold State.fork at h
  obtain ⟨⟨r, s₁⟩, hs₁, rfl⟩ := Option.map_eq_some_iff.mp h
  rcases allocproc_eq_some hnone hs₁ with ⟨rfl, rfl⟩ | ⟨k, hk, hcase⟩
  · exact .inl rfl
  · refine .inr ⟨k, hk, ?_⟩
    rcases hcase with ⟨rfl, s₂, p', hgiven, hp', rfl⟩ | ⟨tf, pages, rfl, htake, rfl⟩
    · exact .inl ⟨s₂, p', hgiven, hp', rfl⟩
    · refine .inr ⟨tf, pages, htake, ?_⟩
      simp [State.setThread, Proc.setThread, Proc.setPagetable, Proc.start, Thread.setState]

theorem kthreadCreate_eq_some (h : s.kthreadCreate i j = some s') :
    ∃ l stack, State.freeSlot (s.proc i) = some l ∧ s.freelist.take 1 = [stack] ∧
      s' = ((s.taken 1).setProc i ((s.proc i).setThread l
        (.created j stack (State.trapframeOf (s.proc i) l)))).logStack i stack := by
  unfold State.kthreadCreate at h
  split at h
  · cases h
  rename_i l hl
  split at h
  · cases h
  · rename_i stack s₁ hk
    obtain ⟨htake, rfl⟩ := kalloc_eq_some hk
    dsimp only at h
    split_ifs at h
    exact ⟨l, stack, hl, htake, (Option.some.inj h).symm⟩

/-! ### `exec`, `wait` and the end of threads -/

/-- What `exec` does: the pages of one of the two programs are given back. -/
theorem exec_eq_some {n : Nat} {fails : Bool} (h : s.exec i n fails order = some s') :
    GivenBack s s' ∨
      ∃ given, given.Perm (pagesOf (s.proc i).pagetable) ∧ (∀ q ∈ given, Freeable s.kend q) ∧
        s' = ((s.taken n).freed given).setProc i ((s.proc i).setPagetable
          (some ⟨s.freelist.take n,
            pageOf ((s.proc i).threads (s.proc i).mainThread).trapframe⟩)) := by
  unfold State.exec at h
  rw [kallocN_eq] at h
  dsimp only at h
  split_ifs at h with hok hperm
  · obtain ⟨given, hperm, hvalid, rfl⟩ := procFreepagetable_eq_some h
    exact .inr ⟨given, hperm, hvalid, rfl⟩
  · obtain ⟨hvalid, rfl⟩ := kfreeAll_eq_some h
    exact .inl ⟨n, order, hperm.subperm, hvalid, rfl⟩

/-- What `wait` does: nothing, or it frees a dead child. -/
theorem wait_eq_some {copyFails : Bool} (h : s.wait i copyFails order = some s') :
    s' = s ∨
      ∃ k s₁ given, copyFails = false ∧ s.zombieChild i = some k ∧
        State.freethreads k s = some s₁ ∧
        (∀ q, given.count q ≤ (if ((s₁.proc k).threads 0).trapframe = q then 1 else 0) +
          (pagesOf (s₁.proc k).pagetable).count q) ∧
        (∀ q ∈ given, Freeable s₁.kend q) ∧
        s' = { (s₁.freed given).setProc k (s₁.proc k).clear with
              stackLog := (s₁.freed given).stackLog.map (·.reap k) } := by
  unfold State.wait at h
  split at h
  · exact .inl (Option.some.inj h).symm
  rename_i k hk
  split_ifs at h with hcopy
  · exact .inl (Option.some.inj h).symm
  · obtain ⟨s₂, hs₂, rfl⟩ := Option.map_eq_some_iff.mp h
    obtain ⟨s₁, hs₁, hproc⟩ := Option.bind_eq_some_iff.mp hs₂
    obtain ⟨given, hcount, hvalid, rfl⟩ := freeproc_eq_some hproc
    exact .inr ⟨k, s₁, given, Bool.not_eq_true _ ▸ hcopy, hk, hs₁, hcount, hvalid, rfl⟩

theorem zombieChild_eq_some {i k : Fin nproc} {s : State} (h : s.zombieChild i = some k) :
    (s.proc k).state = .zombie := by
  have := List.find?_some h
  simp only [decide_eq_true_eq] at this
  exact this.2

/-- `Treparent` changes parents and the main thread only. -/
theorem treparent_spec (j : Fin nthread) (p : Proc) :
    (State.treparent j p).state = p.state ∧ (State.treparent j p).pagetable = p.pagetable ∧
      (State.treparent j p).parent = p.parent ∧
      ∀ l, ((State.treparent j p).threads l).state = (p.threads l).state ∧
        ((State.treparent j p).threads l).procParent = (p.threads l).procParent ∧
        ((State.treparent j p).threads l).kstack = (p.threads l).kstack ∧
        ((State.treparent j p).threads l).trapframe = (p.threads l).trapframe := by
  unfold State.treparent
  refine foldl_finRange_invariant (P := fun _ (p' : Proc) =>
    p'.state = p.state ∧ p'.pagetable = p.pagetable ∧ p'.parent = p.parent ∧
      ∀ l, (p'.threads l).state = (p.threads l).state ∧
        (p'.threads l).procParent = (p.threads l).procParent ∧
        (p'.threads l).kstack = (p.threads l).kstack ∧
        (p'.threads l).trapframe = (p.threads l).trapframe) ?_ ?_
  · simp
  · intro tt p' ⟨hstate, hpt, hparent, hthreads⟩
    split_ifs
    · refine ⟨hstate, hpt, hparent, fun l => ?_⟩
      by_cases hl : l = tt
      · subst hl
        simpa using hthreads l
      · simpa [hl] using hthreads l
    · exact ⟨hstate, hpt, hparent, hthreads⟩
    · exact ⟨hstate, hpt, hparent, hthreads⟩

/-- Without children to hand over, `Treparent` changes nothing. -/
theorem treparent_eq_self {p : Proc} (h : ∀ l, (p.threads l).threadParent ≠ some j) :
    State.treparent j p = p := by
  unfold State.treparent
  refine foldl_finRange_invariant (P := fun _ (p' : Proc) => p' = p) rfl ?_
  rintro tt p' rfl
  rw [if_neg fun hchild => h tt hchild.1, if_neg (h tt)]

theorem exit_eq_some (h : s.exit i = some s') :
    i ≠ State.initproc ∧ s' = (s.reparent i).setProc i ((s.reparent i).proc i).exited := by
  unfold State.exit at h
  split_ifs at h with hi
  exact ⟨hi, (Option.some.inj h).symm⟩

theorem kthreadExit_eq_some (h : s.kthreadExit i j = some s') :
    ∃ p : Proc, p = State.treparent j (s.proc i) ∧
      ∃ s₁ : State, s₁ = s.setProc i (p.setThread j ((p.threads j).setState .zombie)) ∧
        (s' = s₁ ∨ s₁.exit i = some s') := by
  unfold State.kthreadExit at h
  simp only [State.setThread, setProc_setProc, setProc_proc_self] at h
  refine ⟨_, rfl, _, rfl, ?_⟩
  split_ifs at h
  · exact .inl (Option.some.inj h).symm
  · exact .inr h

end Xv6.Table
