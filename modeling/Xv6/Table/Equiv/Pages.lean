import Xv6.Table.Equiv.Accounting

/-!
# The kernel pages are conserved

The pages are accounted for, the fields of each process fit its state (`Proc.Valid`), and no free
page has a live thread's trapframe in it (`PagesInv`). In `twoChildren_doubleFree` a `kstack` left
by an earlier process is freed again.
-/

namespace Xv6.Table

open Lib Function List

/-! ### The invariant -/

/-- The fields of a process fit its state. -/
structure Proc.Valid (p : Proc) : Prop where
  unused : p.state = .unused →
    p.pagetable = none ∧ ∀ j, (p.threads j).state = .unused ∧ (p.threads j).procParent = false
  zombie : p.state = .zombie → ∀ j, (p.threads j).state = .zombie
  alive : p.state ≠ .unused → p.state ≠ .zombie →
    ∀ j, (p.threads j).procParent = true ↔ (p.threads j).state ≠ .unused
  first : p.state ≠ .unused → (p.threads 0).procParent = true ∧ (p.threads 0).trapframe % pgsize = 0
  -- the stack of the first thread is mapped high, by `procinit`
  kstack_first : phystop ≤ (p.threads 0).kstack
  kstack_other : ∀ j, j ≠ 0 → (p.threads j).procParent = true → (p.threads j).kstack ≠ 0

/-- The invariant of all pages. -/
structure PagesInv (s : State) : Prop where
  kend_pos : 0 < s.kend
  accounted : Accounted s.total [] s
  valid : ∀ i, (s.proc i).Valid
  trapframe_safe : ∀ q, s.HoldsTrapframe q → s.total q = 0

/-- The live threads of `p'`, apart from the first, are those of `p`, with their trapframes. -/
def Proc.NoNewThread (p p' : Proc) : Prop :=
  ∀ j, j ≠ 0 → (p'.threads j).Live →
    (p.threads j).Live ∧ (p'.threads j).trapframe = (p.threads j).trapframe

namespace Proc

variable {p p' : Proc}

theorem NoNewThread.refl (p : Proc) : p.NoNewThread p := fun _ _ h => ⟨h, rfl⟩

theorem noNewThread_of_update {t : Thread} (h : p'.threads = update p.threads 0 t) :
    p.NoNewThread p' := by
  intro j hj hlive
  rw [h, update_of_ne hj] at hlive ⊢
  exact ⟨hlive, rfl⟩

theorem Keeps.noNewThread (h : p.Keeps p') : p.NoNewThread p' :=
  fun j _ hlive => ⟨h.live j hlive, h.trapframe j⟩

theorem Valid.state_of_live (h : p.Valid) {j : Fin nthread} (hlive : (p.threads j).Live) :
    p.state ≠ .unused ∧ p.state ≠ .zombie :=
  ⟨fun hunused => hlive.1 ((h.unused hunused).2 j).1, fun hzombie => hlive.2 (h.zombie hzombie j)⟩

theorem Valid.procParent_of_live (h : p.Valid) {j : Fin nthread} (hlive : (p.threads j).Live) :
    (p.threads j).procParent = true := by
  obtain ⟨hunused, hzombie⟩ := h.state_of_live hlive
  exact (h.alive hunused hzombie j).mpr hlive.1

theorem holds_of_unused (h : p.state = .unused) (q : Nat) : p.holds q = 0 := if_pos h

end Proc

namespace PagesInv

variable {s s' : State}

/-- **The invariant gives conservation.** -/
theorem conserved (h : PagesInv s) : PagesConserved s where
  free_nodup := by
    rw [nodup_iff_count_le_one]
    intro q
    have hle := h.accounted.avail_le q
    unfold State.total at hle
    omega
  kstack_not_free i j hlive hfree := by
    by_cases hj : j = 0
    · subst hj
      have hlt := (h.accounted.freeable _ hfree).2.2
      have hle := (h.valid i).kstack_first
      omega
    · have hstack : (s.proc i).HasStack ((s.proc i).threads j).kstack :=
        ⟨((h.valid i).state_of_live hlive).1, j, hj, (h.valid i).procParent_of_live hlive, rfl⟩
      exact hstack.holds_pos.ne' (h.accounted.not_held (.inl hfree))
  trapframe_not_free i j hlive hfree := by
    by_cases hj : j = 0
    · subst hj
      have hstate := ((h.valid i).state_of_live hlive).1
      rw [pageOf_of_aligned ((h.valid i).first hstate).2] at hfree
      have hzero := h.accounted.not_held (i := i) (.inl hfree)
      simp [Proc.holds, hstate] at hzero
    · have hzero := h.trapframe_safe _ ⟨i, j, hj, hlive, rfl⟩
      have hpos := count_pos_iff.mpr hfree
      unfold State.total at hzero
      omega
  returned_once e he := by
    rcases h.accounted.ledger e he with ⟨h0, hreaped, -, -⟩ | ⟨-, -, -, hmem⟩ | ⟨h1, -⟩
    · simp [h0, hreaped]
    · exact absurd hmem not_mem_nil
    · simp [h1]

theorem of_noNewThread (h : PagesInv s) (hkend : s'.kend = s.kend)
    (haccounted : Accounted s.total [] s') (hvalid : ∀ i, (s'.proc i).Valid)
    (hthread : ∀ i, (s.proc i).NoNewThread (s'.proc i)) : PagesInv s' where
  kend_pos := hkend ▸ h.kend_pos
  accounted := haccounted.rebase
  valid := hvalid
  trapframe_safe q hholds := by
    obtain ⟨i, j, hj, hlive, hpage⟩ := hholds
    obtain ⟨hlive', htf⟩ := hthread i j hj hlive
    have hzero := h.trapframe_safe q ⟨i, j, hj, hlive', by rw [← htf, hpage]⟩
    have hle := haccounted.total_le q
    omega

variable {k : Fin nproc} {p : Proc} {i : Fin nproc} {j : Fin nthread}

theorem valid_setProc (h : ∀ i, i ≠ k → (s.proc i).Valid) (hp : p.Valid) :
    ∀ i, ((s.setProc k p).proc i).Valid :=
  (Function.forall_update_iff s.proc fun _ (p : Proc) => p.Valid).mpr ⟨hp, h⟩

theorem of_setProc {s₁ : State} (h : PagesInv s) (hs₁ : s₁.proc = s.proc)
    (hkend : s₁.kend = s.kend) (haccounted : Accounted s.total [] (s₁.setProc k p))
    (hvalid : p.Valid) (hthread : (s.proc k).NoNewThread p) : PagesInv (s₁.setProc k p) := by
  refine h.of_noNewThread hkend haccounted (valid_setProc (fun i _ => hs₁ ▸ h.valid i) hvalid) ?_
  intro i
  by_cases hi : i = k
  · subst hi
    rwa [setProc_proc_self]
  · rw [setProc_proc_of_ne hi, hs₁]
    exact .refl _

/-! ### The steps -/

theorem abandoned_valid {p p' : Proc} (h : p.Valid) (hunused : p.state = .unused)
    (hp' : p.Abandoned p') : p'.Valid := by
  obtain ⟨hstate, hpt, -, t, ht, -, hparent, hkstack, hthreads⟩ := hp'
  have hall : ∀ j, (p'.threads j).state = .unused ∧ (p'.threads j).procParent = false := by
    rw [hthreads]
    exact (Function.forall_update_iff _ fun _ (t : Thread) =>
      t.state = .unused ∧ t.procParent = false).mpr
      ⟨⟨ht, hparent⟩, fun j _ => (h.unused hunused).2 j⟩
  refine ⟨fun _ => ⟨hpt, hall⟩, ?_, ?_, ?_, ?_, ?_⟩
  · intro hz
    rw [hstate] at hz
    cases hz
  · intro hne
    exact absurd hstate hne
  · intro hne
    exact absurd hstate hne
  · rw [hthreads, update_self, hkstack]
    exact h.kstack_first
  · intro j _ hj
    rw [(hall j).2] at hj
    cases hj

theorem started_valid {tf : Nat} {pt : Pagetable} (h : p.Valid) (hunused : p.state = .unused)
    (htf : tf % pgsize = 0) :
    Proc.Valid
      { state := .used
        parent := some i
        threads := update p.threads 0
          { p.threads 0 with state := .runnable, procParent := true, trapframe := tf }
        mainThread := 0
        pagetable := some pt } where
  unused hstate := by cases hstate
  zombie hstate := by cases hstate
  alive _ _ j := by
    by_cases hj : j = 0
    · subst hj
      simp
    · obtain ⟨hstate, hparent⟩ := (h.unused hunused).2 j
      simp [hj, hstate, hparent]
  first _ := by simpa using htf
  kstack_first := by simpa using h.kstack_first
  kstack_other j hj hparent := by
    have hnot := ((h.unused hunused).2 j).2
    simp [hj, hnot] at hparent

/-- `fork` keeps the invariant, also where it fails. -/
theorem fork {n : Nat} {order : List Nat} (h : PagesInv s) (hfork : s.fork i n order = some s') :
    PagesInv s' := by
  have hnone : ∀ i, (s.proc i).state = .unused → (s.proc i).pagetable = none :=
    fun i hi => ((h.valid i).unused hi).1
  rcases fork_eq_some hnone hfork with rfl | ⟨k, hk, ⟨s₁, p', hback, hp', rfl⟩ |
    ⟨tf, pages, htake, rfl⟩⟩
  · exact h
  · -- memory ran out
    have hacc := h.accounted.givenBack hback
    obtain ⟨hunused, -, -, t, -, -, -, -, hthreads⟩ := id hp'
    have hproc : s₁.proc = s.proc := by
      obtain ⟨m, given, -, -, rfl⟩ := hback
      rfl
    have hkend : s₁.kend = s.kend := by
      obtain ⟨m, given, -, -, rfl⟩ := hback
      rfl
    refine h.of_setProc hproc hkend (hacc.reassign _ ?_ ?_ ?_) (abandoned_valid (h.valid k) hk hp')
      (Proc.noNewThread_of_update hthreads)
    · intro q
      simp [Proc.holds_of_unused hunused]
    · intro q hq
      rw [hproc] at hq
      exact absurd hk hq.1
    · intro e _ _ hmem
      exact absurd hmem not_mem_nil
  · -- the new process has the pages that were taken
    have hacc := h.accounted.take (n + 1)
    rw [htake, append_nil] at hacc
    have htf : tf ∈ s.freelist := by
      apply mem_of_mem_take (i := n + 1)
      rw [htake]
      exact mem_cons_self
    refine h.of_setProc rfl rfl (hacc.reassign _ ?_ ?_ ?_)
      (started_valid (h.valid k) hk (h.accounted.freeable tf htf).1)
      (Proc.noNewThread_of_update rfl)
    · intro q
      have hstacks : ∀ j, (update (s.proc k).threads 0
          { (s.proc k).threads 0 with
            state := .runnable, procParent := true, trapframe := tf } j).holdsStack j q = 0 := by
        intro j
        by_cases hj : j = 0
        · simp [Thread.holdsStack, hj]
        · simp [Thread.holdsStack, hj, (((h.valid k).unused hk).2 j).2]
      simp [Proc.holds, hstacks, pagesOf, count_cons]
      omega
    · intro q hq
      exact absurd hk hq.1
    · intro e he hcurrent hmem
      rw [← htake] at hmem
      exact absurd hmem (Accounted.taken_fresh _ s e he hcurrent)

/-- `exec` keeps the invariant, also where it fails. -/
theorem exec {n : Nat} {fails : Bool} {order : List Nat} (h : PagesInv s)
    (hlive : ((s.proc i).threads j).Live) (hexec : s.exec i n fails order = some s') :
    PagesInv s' := by
  rcases exec_eq_some hexec with hback | ⟨given, hperm, hvalid, rfl⟩
  · have hacc := h.accounted.givenBack hback
    obtain ⟨m, given, -, -, rfl⟩ := hback
    exact h.of_noNewThread rfl hacc h.valid fun i => .refl _
  obtain ⟨hunused, hzombie⟩ := (h.valid i).state_of_live hlive
  have hacc := h.accounted.take n
  rw [append_nil] at hacc
  refine h.of_setProc rfl rfl ?_ ?_ (fun j _ hlive => ⟨hlive, rfl⟩)
  · rw [← freed_setProc]
    refine Accounted.give (hacc.reassign (given ++ []) ?_ ?_ ?_) hvalid
    · intro q
      have hcount := hperm.count_eq q
      rw [append_nil, hcount]
      exact (Proc.holds_setPagetable q hunused).le
    · intro q hq
      exact .inl hq
    · intro e he hcurrent hmem
      exact absurd hmem (Accounted.taken_fresh n s e he hcurrent)
  · have hv := h.valid i
    exact ⟨fun hs => absurd hs hunused, hv.zombie, hv.alive, hv.first, hv.kstack_first,
      hv.kstack_other⟩

theorem holdsTrapframe_setThread {l : Fin nthread} {t : Thread} {q : Nat}
    (h : (s.setProc i ((s.proc i).setThread l t)).HoldsTrapframe q) :
    s.HoldsTrapframe q ∨ pageOf t.trapframe = q := by
  obtain ⟨i', m, hm, hlive, hpage⟩ := h
  by_cases hi : i' = i
  · subst hi
    rw [setProc_proc_self] at hlive hpage
    by_cases hml : m = l
    · subst hml
      rw [setThread_self] at hpage
      exact .inr hpage
    · rw [setThread_of_ne hml] at hlive hpage
      exact .inl ⟨i', m, hm, hlive, hpage⟩
  · rw [setProc_proc_of_ne hi] at hlive hpage
    exact .inl ⟨i', m, hm, hlive, hpage⟩

theorem created_holds {l : Fin nthread} {t : Thread} (hstate : p.state ≠ .unused) (hl : l ≠ 0)
    (q : Nat) : (p.setThread l t).holds q ≤ p.holds q + [t.kstack].count q := by
  have hset := Proc.holds_setThread (t := t) q hstate fun h0 => absurd h0 hl
  have hle : t.holdsStack l q ≤ [t.kstack].count q := by
    unfold Thread.holdsStack
    split_ifs with hheld
    · rw [hheld.2.2]
      simp
    · omega
  omega

theorem created_valid {j l : Fin nthread} {stack tf : Nat} (h : p.Valid)
    (hstate : p.state ≠ .unused ∧ p.state ≠ .zombie) (hl : l ≠ 0) (hstack : stack ≠ 0) :
    (p.setThread l (.created j stack tf)).Valid where
  unused hs := absurd hs hstate.1
  zombie hs := absurd hs hstate.2
  alive h1 h2 m := by
    by_cases hm : m = l
    · subst hm
      simp [Thread.created]
    · simpa [hm] using h.alive h1 h2 m
  first h1 := by simpa [Ne.symm hl] using h.first h1
  kstack_first := by simpa [Ne.symm hl] using h.kstack_first
  kstack_other m hm hparent := by
    by_cases hml : m = l
    · subst hml
      simpa [Thread.created] using hstack
    · rw [setThread_of_ne hml] at hparent ⊢
      exact h.kstack_other m hm hparent

/-- `kthread_create` keeps the invariant, if the slot has no stack that is still in use. -/
theorem kthreadCreate (h : PagesInv s) (hlive : ((s.proc i).threads j).Live)
    (hsafe : ∀ l, State.freeSlot (s.proc i) = some l →
      ((s.proc i).threads l).state = .unused ∧
        s.total (pageOf (State.trapframeOf (s.proc i) l)) = 0)
    (hcreate : s.kthreadCreate i j = some s') : PagesInv s' := by
  have hv := h.valid i
  have hstate := hv.state_of_live hlive
  obtain ⟨l, stack, hslot, htake, rfl⟩ := kthreadCreate_eq_some hcreate
  obtain ⟨hunused, htf⟩ := hsafe l hslot
  have hparent : ((s.proc i).threads l).procParent = false := by
    have hiff := hv.alive hstate.1 hstate.2 l
    rw [hunused] at hiff
    simpa using hiff
  have hl : l ≠ 0 := by
    rintro rfl
    rw [(hv.first hstate.1).1] at hparent
    cases hparent
  have hstack0 : stack ≠ 0 := by
    have hmem : stack ∈ s.freelist := by
      apply mem_of_mem_take (i := 1)
      rw [htake]
      exact mem_cons_self
    have hpos := h.kend_pos
    have hle := (h.accounted.freeable stack hmem).2.1
    omega
  have hacc := h.accounted.take 1
  rw [htake, append_nil] at hacc
  have hset := hacc.reassign (i := i)
    (p := (s.proc i).setThread l (.created j stack (State.trapframeOf (s.proc i) l))) []
    (fun q => created_holds hstate.1 hl q)
    (by
      -- the slot had no stack, so none is lost
      rintro q ⟨-, m, hm, hmp, hmk⟩
      have hml : m ≠ l := by
        rintro rfl
        exact absurd (hmp.symm.trans hparent) (by decide)
      refine .inl ⟨hstate.1, m, hm, ?_, ?_⟩
      · rwa [setThread_of_ne hml]
      · rwa [setThread_of_ne hml])
    (by
      intro e he hcurrent hmem
      rw [← htake] at hmem
      exact absurd hmem (Accounted.taken_fresh 1 s e he hcurrent))
  have hrecord := hset.record (i := i) stack (by
    rw [setProc_proc_self]
    exact ⟨hstate.1, l, hl, by simp [Thread.created], by simp [Thread.created]⟩)
  refine ⟨h.kend_pos, hrecord.rebase,
    valid_setProc (fun i _ => h.valid i) (created_valid hv hstate hl hstack0), ?_⟩
  intro q hholds
  have hle := hrecord.total_le q
  rcases holdsTrapframe_setThread hholds with hold | hnew
  · have hzero := h.trapframe_safe q hold
    omega
  · have hpage : pageOf (State.trapframeOf (s.proc i) l) = q := hnew
    rw [hpage] at htf
    omega

theorem of_keeps (h : PagesInv s) (hkend : s'.kend = s.kend) (hfree : s'.freelist = s.freelist)
    (hlog : s'.stackLog = s.stackLog) (hkeeps : ∀ i, (s.proc i).Keeps (s'.proc i))
    (hvalid : ∀ i, (s'.proc i).Valid) : PagesInv s' :=
  h.of_noNewThread hkend (h.accounted.keeps hkeeps hkend hfree hlog) hvalid
    fun i => (hkeeps i).noNewThread

theorem of_keeps_setProc (h : PagesInv s) (hkeeps : (s.proc k).Keeps p) (hvalid : p.Valid) :
    PagesInv (s.setProc k p) := by
  refine h.of_keeps rfl rfl rfl ?_ (valid_setProc (fun i _ => h.valid i) hvalid)
  exact (Function.forall_update_iff s.proc fun i p => (s.proc i).Keeps p).mpr
    ⟨hkeeps, fun i _ => .refl _⟩

theorem reparent (h : PagesInv s) (i : Fin nproc) : PagesInv (s.reparent i) := by
  refine h.of_keeps rfl rfl rfl ?_ ?_
  · intro l
    unfold State.reparent
    dsimp only
    split_ifs
    · exact ⟨Iff.rfl, rfl, fun _ => rfl, fun _ => rfl, fun _ => rfl, fun _ hlive => hlive⟩
    · exact .refl _
  · intro l
    have hv := h.valid l
    unfold State.reparent
    dsimp only
    split_ifs
    · exact ⟨hv.unused, hv.zombie, hv.alive, hv.first, hv.kstack_first, hv.kstack_other⟩
    · exact hv

theorem reparent_state (s : State) (i l : Fin nproc) :
    ((s.reparent i).proc l).state = (s.proc l).state := by
  unfold State.reparent
  dsimp only
  split_ifs
  · rfl
  · rfl

theorem exited_valid (h : p.Valid) (hstate : p.state ≠ .unused) : p.exited.Valid where
  unused hs := by cases hs
  zombie _ _ := rfl
  alive _ hs := absurd rfl hs
  first _ := h.first hstate
  kstack_first := h.kstack_first
  kstack_other := h.kstack_other

/-- `exit` keeps the invariant. -/
theorem exit (h : PagesInv s) (hstate : (s.proc i).state ≠ .unused) (hexit : s.exit i = some s') :
    PagesInv s' := by
  obtain ⟨-, rfl⟩ := exit_eq_some hexit
  have hre := h.reparent i
  rw [← reparent_state s i i] at hstate
  refine hre.of_keeps_setProc ⟨⟨?_, fun hs => absurd hs hstate⟩, rfl, fun _ => rfl, fun _ => rfl,
    fun _ => rfl, fun j hlive => absurd rfl hlive.2⟩ (exited_valid (hre.valid i) hstate)
  intro hs
  cases hs

theorem treparent_valid (h : p.Valid) (j : Fin nthread) :
    (State.treparent j p).Valid := by
  obtain ⟨hstate, hpt, -, hthreads⟩ := treparent_spec j p
  have hthread : ∀ l, ((State.treparent j p).threads l).state = (p.threads l).state :=
    fun l => (hthreads l).1
  have hkeeps := Proc.Keeps.treparent j p
  refine ⟨?_, ?_, ?_, ?_, ?_, ?_⟩
  · simpa only [hstate, hpt, hthread, hkeeps.procParent] using h.unused
  · simpa only [hstate, hthread] using h.zombie
  · simpa only [hstate, hthread, hkeeps.procParent] using h.alive
  · simpa only [hstate, hkeeps.procParent, hkeeps.trapframe] using h.first
  · simpa only [hkeeps.kstack] using h.kstack_first
  · simpa only [hkeeps.procParent, hkeeps.kstack] using h.kstack_other

theorem ended_valid (h : p.Valid) (hlive : (p.threads j).Live) :
    (p.setThread j ((p.threads j).setState .zombie)).Valid := by
  obtain ⟨hunused, hzombie⟩ := h.state_of_live hlive
  have hkeeps : p.Keeps (p.setThread j ((p.threads j).setState .zombie)) :=
    .setState j .zombie fun hdead => absurd rfl hdead.2
  refine ⟨fun hs => absurd hs hunused, fun hs => absurd hs hzombie, fun _ _ l => ?_, fun _ => ?_,
    ?_, ?_⟩
  · by_cases hl : l = j
    · subst hl
      simp [Thread.setState, h.procParent_of_live hlive]
    · simpa [hl] using h.alive hunused hzombie l
  · simpa only [hkeeps.procParent, hkeeps.trapframe] using h.first hunused
  · simpa only [hkeeps.kstack] using h.kstack_first
  · simpa only [hkeeps.procParent, hkeeps.kstack] using h.kstack_other

/-- `kthread_exit` keeps the invariant. -/
theorem kthreadExit (h : PagesInv s) (hlive : ((s.proc i).threads j).Live)
    (hexit : s.kthreadExit i j = some s') :
    PagesInv s' := by
  obtain ⟨p, rfl, s₁, rfl, hcase⟩ := kthreadExit_eq_some hexit
  obtain ⟨hstate, -, -, hthreads⟩ := treparent_spec j (s.proc i)
  have hlive' : ((State.treparent j (s.proc i)).threads j).Live := by
    unfold Thread.Live
    rwa [(hthreads j).1]
  have hkeeps := (Proc.Keeps.treparent j (s.proc i)).trans
    (.setState j .zombie fun hdead => absurd rfl hdead.2)
  have hinv := h.of_keeps_setProc hkeeps (ended_valid (treparent_valid (h.valid i) j) hlive')
  rcases hcase with rfl | hcase
  · exact hinv
  -- it was the last thread
  refine hinv.exit ?_ hcase
  rw [setProc_proc_self]
  show (State.treparent j (s.proc i)).state ≠ .unused
  rw [hstate]
  exact ((h.valid i).state_of_live hlive).1

/-! ### `wait` -/

end PagesInv

/-- The loop of `wait` from `s` over the threads of the dead process `k`, before slot `m`. -/
structure Reaping (s : State) (k : Fin nproc) (m : Nat) (s₁ : State) : Prop where
  kend : s₁.kend = s.kend
  accounted : Accounted s.total [] s₁
  others : ∀ i, i ≠ k → s₁.proc i = s.proc i
  state : (s₁.proc k).state = .zombie
  done : ∀ j : Fin nthread, j.val < m →
    ((s₁.proc k).threads j).state = .unused ∧ ((s₁.proc k).threads j).procParent = false
  todo : ∀ j : Fin nthread, m ≤ j.val → (s₁.proc k).threads j = (s.proc k).threads j
  kstack_first : ((s₁.proc k).threads 0).kstack = ((s.proc k).threads 0).kstack

namespace Reaping

variable {s x y : State} {k : Fin nproc}

theorem accounted_freethread {avail : Nat → Nat} {l : Fin nthread} (h : Accounted avail [] x)
    (hstate : (x.proc k).state ≠ .unused)
    (hfirst : l = 0 → ((x.proc k).threads l).procParent = true)
    (hother : l ≠ 0 →
      (((x.proc k).threads l).kstack ≠ 0 ↔ ((x.proc k).threads l).procParent = true))
    (hfree : State.freethread k l x = some y) :
    ∃ given t, Accounted avail [] y ∧ t.state = .unused ∧ t.procParent = false ∧
      t.kstack = ((x.proc k).threads l).kstack ∧
      y = (x.freed given).setProc k ((x.proc k).setThread l t) := by
  obtain ⟨given, hgiven, hvalid, rfl⟩ := freethread_eq_some hfree
  set t := ((x.proc k).threads l).clear (((x.proc k).threads l).procParent && l = 0) with ht
  have hcount : ∀ q, given.count q ≤ ((x.proc k).threads l).holdsStack l q := by
    intro q
    rcases hgiven with ⟨rfl, -⟩ | ⟨rfl, hkstack, hnot⟩
    · simp
    · have hl : l ≠ 0 := fun hl => hnot ⟨hfirst hl, hl⟩
      have hparent := (hother hl).mp hkstack
      simp [Thread.holdsStack, hl, hparent, count_singleton]
  have hle : ∀ q, ((x.proc k).setThread l t).holds q + given.count q ≤ (x.proc k).holds q := by
    intro q
    have hset := Proc.holds_setThread (t := t) q hstate (fun hl => by
      have hparent := hfirst hl
      subst hl
      simp [ht, Thread.clear, hparent])
    have hcleared : t.holdsStack l q = 0 := by
      simp [Thread.holdsStack, ht, Thread.clear]
    have hle := hcount q
    omega
  refine ⟨given, t, ?_, rfl, rfl, rfl, rfl⟩
  show Accounted avail [] ((x.setProc k ((x.proc k).setThread l t)).freed given)
  refine Accounted.give (h.reassign (given ++ []) ?_ ?_ ?_) hvalid
  · intro q
    rw [append_nil, count_nil]
    exact hle q
  · -- the stack of the thread is in the hand, the others stay
    rintro q ⟨-, m, hm, hparent, hkstack⟩
    rw [append_nil]
    by_cases hml : m = l
    · subst hml
      have hne := (hother hm).mpr hparent
      rcases hgiven with ⟨-, hzero | hzero⟩ | ⟨rfl, -, -⟩
      · exact absurd hzero hne
      · exact absurd hzero.2 hm
      · exact .inr (mem_singleton.mpr hkstack.symm)
    · refine .inl ⟨hstate, m, hm, ?_, ?_⟩
      · rwa [setThread_of_ne hml]
      · rwa [setThread_of_ne hml]
  · intro e _ _ hmem
    exact absurd hmem not_mem_nil

theorem start (h : PagesInv s) (hk : (s.proc k).state = .zombie) : Reaping s k 0 s where
  kend := rfl
  accounted := h.accounted
  others _ _ := rfl
  state := hk
  done _ hj := absurd hj (Nat.not_lt_zero _)
  todo _ _ := rfl
  kstack_first := rfl

/-- `freethread` for one more thread. -/
theorem step {l : Fin nthread} (hv : (s.proc k).Valid) (hk : (s.proc k).state = .zombie)
    (hsafe : ∀ j, j ≠ 0 → ((s.proc k).threads j).kstack ≠ 0 →
      ((s.proc k).threads j).procParent = true)
    (h : Reaping s k l x) (hfree : State.freethread k l x = some y) : Reaping s k (l + 1) y := by
  have hthread := h.todo l le_rfl
  have hne : (s.proc k).state ≠ .unused := by
    rw [hk]
    decide
  obtain ⟨given, t, hacc, hunused, hparent, hkstack, rfl⟩ :=
    accounted_freethread h.accounted (by rw [h.state]; decide)
      (by
        intro hl
        rw [hthread, hl]
        exact (hv.first hne).1)
      (by
        intro hl
        rw [hthread]
        exact ⟨hsafe l hl, hv.kstack_other l hl⟩)
      hfree
  refine ⟨h.kend, hacc, ?_, ?_, ?_, ?_, ?_⟩
  · intro i hi
    rw [setProc_proc_of_ne hi]
    exact h.others i hi
  · rw [setProc_proc_self]
    exact h.state
  · intro j hj
    rw [setProc_proc_self]
    by_cases hjl : j = l
    · subst hjl
      rw [setThread_self]
      exact ⟨hunused, hparent⟩
    · rw [setThread_of_ne hjl]
      exact h.done j (by omega)
  · intro j hj
    have hjl : j ≠ l := by
      rintro rfl
      omega
    rw [setProc_proc_self, setThread_of_ne hjl]
    exact h.todo j (by omega)
  · rw [setProc_proc_self]
    by_cases hl : 0 = l
    · subst hl
      rw [setThread_self, hkstack]
      exact h.kstack_first
    · rw [setThread_of_ne hl]
      exact h.kstack_first

/-- The loop of `wait` over the threads. -/
theorem freethreads (hinv : PagesInv s) (hk : (s.proc k).state = .zombie)
    (hsafe : ∀ j, j ≠ 0 → ((s.proc k).threads j).kstack ≠ 0 →
      ((s.proc k).threads j).procParent = true)
    (hrun : State.freethreads k s = some x) : Reaping s k nthread x := by
  refine foldlM_finRange_invariant (P := fun m x => Reaping s k m x) (start hinv hk) ?_ hrun
  intro l x y h hstep
  have hzombie : ((x.proc k).threads l).state = .zombie := by
    rw [h.todo l le_rfl]
    exact (hinv.valid k).zombie hk l
  rw [if_pos (by rw [hzombie]; decide)] at hstep
  exact h.step (hinv.valid k) hk hsafe hstep

end Reaping

theorem cleared_valid {p : Proc}
    (hthreads : ∀ j, (p.threads j).state = .unused ∧ (p.threads j).procParent = false)
    (hkstack : phystop ≤ (p.threads 0).kstack) : p.clear.Valid where
  unused _ := ⟨rfl, hthreads⟩
  zombie hs := by cases hs
  alive hs := absurd rfl hs
  first hs := absurd rfl hs
  kstack_first := hkstack
  kstack_other j _ hparent := absurd (hparent.symm.trans (hthreads j).2) (by decide)

/-- `wait` keeps the invariant. -/
theorem PagesInv.wait {s s' : State} {i : Fin nproc} {copyFails : Bool} {order : List Nat}
    (h : PagesInv s)
    (hsafe : copyFails = false → ∀ k, s.zombieChild i = some k → ∀ j, j ≠ 0 →
      ((s.proc k).threads j).kstack ≠ 0 → ((s.proc k).threads j).procParent = true)
    (hwait : s.wait i copyFails order = some s') : PagesInv s' := by
  rcases wait_eq_some hwait with rfl | ⟨k, s₁, given, hcopy, hk, hthreads, hcount, hvalid, rfl⟩
  · exact h
  have hr := Reaping.freethreads h (zombieChild_eq_some hk) (hsafe hcopy k hk) hthreads
  have hne : (s₁.proc k).state ≠ .unused := by
    rw [hr.state]
    decide
  have hle : ∀ q, given.count q ≤ (s₁.proc k).holds q := by
    intro q
    have := hcount q
    rw [Proc.holds_eq hne]
    omega
  have hacc : Accounted s.total [] ((s₁.setProc k (s₁.proc k).clear).freed given) := by
    refine Accounted.give (hr.accounted.reassign (given ++ []) ?_ ?_ ?_) hvalid
    · intro q
      rw [Proc.holds_of_unused rfl, append_nil, count_nil]
      have := hle q
      omega
    · rintro q ⟨-, m, hm, hparent, -⟩
      rw [(hr.done m m.isLt).2] at hparent
      cases hparent
    · intro e _ _ hmem
      exact absurd hmem not_mem_nil
  refine h.of_noNewThread hr.kend (hacc.reap ?_) ?_ ?_
  · rw [freed_setProc, setProc_proc_self]
    rfl
  · refine valid_setProc (fun l hl => hr.others l hl ▸ h.valid l) ?_
    apply cleared_valid fun j => hr.done j j.isLt
    rw [hr.kstack_first]
    exact (h.valid k).kstack_first
  · intro l
    show (s.proc l).NoNewThread ((s₁.setProc k (s₁.proc k).clear).proc l)
    by_cases hl : l = k
    · subst hl
      rw [setProc_proc_self]
      exact fun j _ hlive => absurd (hr.done j j.isLt).1 hlive.1
    · rw [setProc_proc_of_ne hl, hr.others l hl]
      exact .refl _

/-! ### Runs -/

theorem booted_valid {kend tf : Nat} {pages free : List Nat} (htf : tf % pgsize = 0)
    (i : Fin nproc) : ((booted kend tf pages free).proc i).Valid where
  unused hs := by
    have hi : i ≠ 0 := by
      rintro rfl
      simp [booted] at hs
    simp [booted, hi]
  zombie hs := by
    simp only [booted] at hs
    split_ifs at hs
  alive hs _ j := by
    have hi : i = 0 := by
      by_contra hi
      simp [booted, hi] at hs
    by_cases hj : j = 0 <;> simp [booted, hi, hj]
  first hs := by
    have hi : i = 0 := by
      by_contra hi
      simp [booted, hi] at hs
    simpa [booted, hi] using htf
  kstack_first := by
    have hlt : i.val < 64 := i.isLt
    simp only [booted, if_true, kstackVa, trampoline, maxva, pgsize, phystop]
    omega
  kstack_other j hj hparent := by
    simp [booted, hj] at hparent

theorem booted_holds (kend tf : Nat) (pages free : List Nat) (q : Nat) (i : Fin nproc) :
    ((booted kend tf pages free).proc i).holds q = if i = 0 then (tf :: pages).count q else 0 := by
  by_cases hi : i = 0
  · have hstacks : ∀ j, (((booted kend tf pages free).proc i).threads j).holdsStack j q = 0 := by
      intro j
      by_cases hj : j = 0 <;> simp [booted, Thread.holdsStack, hj]
    rw [Proc.holds_eq (by simp [booted, hi]), if_pos hi]
    simp only [hstacks, Finset.sum_const_zero]
    simp [booted, hi, pagesOf, count_cons]
    omega
  · rw [if_neg hi]
    exact Proc.holds_of_unused (by simp [booted, hi]) q

/-- The invariant holds after `userinit`. -/
theorem pagesInv_booted {kend tf : Nat} {pages free : List Nat}
    (h : BootPages kend tf pages free) : PagesInv (booted kend tf pages free) := by
  refine ⟨h.kend_pos, ⟨?_, ?_, ?_, ?_⟩, booted_valid (h.aligned tf (by simp)), ?_⟩
  · intro q
    have hcount := nodup_iff_count_le_one.mp h.nodup q
    rw [cons_append, ← cons_append, count_append] at hcount
    have hsum : ∑ i, ((booted kend tf pages free).proc i).holds q = (tf :: pages).count q := by
      simp only [booted_holds, Finset.sum_ite_eq', Finset.mem_univ, if_true]
    have hfree : (booted kend tf pages free).freelist = free := rfl
    rw [State.total, hsum, hfree]
    omega
  · intro q
    rw [count_nil, Nat.add_zero]
  · intro q hq
    have hmem : q ∈ tf :: pages ++ free := mem_append_right _ hq
    exact ⟨h.aligned q hmem, (h.bounds q hmem).1, (h.bounds q hmem).2⟩
  · intro e he
    exact absurd he not_mem_nil
  · rintro q ⟨i, j, hj, hlive, -⟩
    exact absurd (by simp [booted, hj]) hlive.1

/-- One call keeps the invariant, if it avoids the defects. -/
theorem pagesInv_step {s s' : State} {a : Act} (h : PagesInv s) (hsafe : SafeStep s a)
    (hstep : tableMachine.step s a = some s') : PagesInv s' := by
  unfold tableMachine at hstep
  dsimp only at hstep
  split_ifs at hstep with hlive
  cases a with
  | fork => exact h.fork hstep
  | kthreadCreate => exact h.kthreadCreate hlive hsafe hstep
  | kthreadExit => exact h.kthreadExit hlive hstep
  | exit i => exact h.exit ((h.valid i).state_of_live hlive).1 hstep
  | wait => exact h.wait hsafe hstep
  | exec => exact h.exec hlive hstep

/-- **The kernel pages are conserved**: in every run of system calls that all keep clear of the
defects (`SafeStep`), no page is free twice or while a live thread uses it, and every kernel stack
from `kalloc` is returned exactly once by the time its process has been reaped. -/
theorem pages_conserved (kend tf : Nat) (pages free : List Nat)
    (hboot : BootPages kend tf pages free) (as : List Act)
    (hsafe : tableMachine.Meets SafeStep (booted kend tf pages free) as) (s : State)
    (hrun : tableMachine.run (booted kend tf pages free) as = some s) : PagesConserved s := by
  have hinv := tableMachine.invariant_of_meets
    (fun s a s' h hok hs => pagesInv_step h hok hs) as _ s
    (pagesInv_booted hboot) hsafe hrun
  exact hinv.conserved

/-! ### Two runs -/

/-- A child with a second thread lives, dies and is reaped. -/
def oneChild : List Act :=
  [.fork 0 0 6 [], .kthreadCreate 1 0, .exit 1 0, .wait 0 0 false ((List.range' 8 6).map pageAt)]

theorem oneChild_conserved : tableMachine.Meets SafeStep smallBoot oneChild ∧
    ∃ s, tableMachine.run smallBoot oneChild = some s ∧ PagesConserved s := by
  have hsafe : tableMachine.Meets SafeStep smallBoot oneChild := by decide +kernel
  obtain ⟨s, hs⟩ := Option.isSome_iff_exists.mp
    (show (tableMachine.run smallBoot oneChild).isSome = true by decide +kernel)
  exact ⟨hsafe, s, hs, pages_conserved _ _ _ _ smallBoot_pages oneChild hsafe s hs⟩

/-- The next child takes the same slot and creates no thread. -/
def twoChildren : List Act :=
  oneChild ++ [.fork 0 0 6 [], .exit 1 0, .wait 0 0 false ((List.range' 8 6).map pageAt)]

/-- `exit` marks the second slot of the child `ZOMBIE` though it has no thread, and `wait` then
frees the `kstack` that the first child left there: the page is free twice. -/
theorem twoChildren_doubleFree :
    BootPages 0x80026000 (pageAt 0) ((List.range' 1 6).map pageAt) ((List.range' 7 16).map pageAt) ∧
      ∃ s, tableMachine.run smallBoot twoChildren = some s ∧ s.freelist.count (pageAt 14) = 2 ∧
        (s.stackLog.map fun e => (e.page, e.returns)) = [(pageAt 14, 2)] ∧ ¬ PagesConserved s := by
  have hrun : (tableMachine.run smallBoot twoChildren).map (fun s =>
      (s.freelist.count (pageAt 14), s.stackLog.map fun e => (e.page, e.returns))) =
        some (2, [(pageAt 14, 2)]) := by decide +kernel
  obtain ⟨s, hs, hdata⟩ := Option.map_eq_some_iff.mp hrun
  obtain ⟨hcount, hlog⟩ := Prod.mk.inj hdata
  refine ⟨smallBoot_pages, s, hs, hcount, hlog, fun hconserved => ?_⟩
  have hle := nodup_iff_count_le_one.mp hconserved.free_nodup (pageAt 14)
  omega

end Xv6.Table
