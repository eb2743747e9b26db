import Xv6.Table.Equiv.Basic
import Xv6.Table.Pages

/-!
# Accounting for the kernel pages

`Accounted avail hand s`: no page is in two places, where a page may also be in the hand of the code
that has taken it. Taking pages (`Accounted.take`), freeing them (`Accounted.give`) and changing
what one process holds (`Accounted.reassign`) keep it.
-/

namespace Xv6.Table

open Lib List

/-! ### What a process holds -/

namespace Proc

/-- A thread of the process has the page as kernel stack. -/
def HasStack (p : Proc) (q : Nat) : Prop :=
  p.state ≠ .unused ∧ ∃ j, j ≠ 0 ∧ (p.threads j).procParent = true ∧ (p.threads j).kstack = q

variable {p : Proc}

theorem holds_eq {q : Nat} (hstate : p.state ≠ .unused) :
    p.holds q = (if (p.threads 0).trapframe = q then 1 else 0) + (pagesOf p.pagetable).count q +
      ∑ j, (p.threads j).holdsStack j q := if_neg hstate

theorem HasStack.holds_pos {q : Nat} (h : p.HasStack q) : 0 < p.holds q := by
  obtain ⟨hstate, j, hj, hparent, hkstack⟩ := h
  have hone : (p.threads j).holdsStack j q = 1 := if_pos ⟨hj, hparent, hkstack⟩
  have hle := le_sum (fun j => (p.threads j).holdsStack j q) j
  rw [holds_eq hstate]
  omega

theorem holds_setThread {j : Fin nthread} {t : Thread} (q : Nat) (hstate : p.state ≠ .unused)
    (htf : j = 0 → t.trapframe = (p.threads 0).trapframe) :
    (p.setThread j t).holds q +
        (p.threads j).holdsStack j q = p.holds q + t.holdsStack j q := by
  have hsum := sum_add_eq_of_agree (f := fun l => (p.threads l).holdsStack l q)
    (g := fun l => ((p.setThread j t).threads l).holdsStack l q) (i := j) (by
      intro l hl
      rw [setThread_of_ne hl])
  have hfirst : ((p.setThread j t).threads 0).trapframe = (p.threads 0).trapframe := by
    by_cases hj : j = 0
    · rw [hj, setThread_self, htf hj]
    · rw [setThread_of_ne (Ne.symm hj)]
  rw [setThread_self] at hsum
  rw [holds_eq hstate, holds_eq (p := p.setThread j t) hstate, hfirst]
  have hpt : (p.setThread j t).pagetable = p.pagetable := rfl
  rw [hpt]
  omega

theorem holds_setPagetable {pagetable : Option Pagetable} (q : Nat) (hstate : p.state ≠ .unused) :
    (p.setPagetable pagetable).holds q + (pagesOf p.pagetable).count q =
      p.holds q + (pagesOf pagetable).count q := by
  rw [holds_eq hstate, holds_eq (p := p.setPagetable pagetable) hstate]
  have hthreads : (p.setPagetable pagetable).threads = p.threads := rfl
  have hpt : (p.setPagetable pagetable).pagetable = pagetable := rfl
  rw [hthreads, hpt]
  omega

/-- `p'` has the page table, trapframes and kernel stacks of `p`, and no other live threads. -/
structure Keeps (p p' : Proc) : Prop where
  unused_iff : p'.state = .unused ↔ p.state = .unused
  pagetable : p'.pagetable = p.pagetable
  procParent : ∀ j, (p'.threads j).procParent = (p.threads j).procParent
  kstack : ∀ j, (p'.threads j).kstack = (p.threads j).kstack
  trapframe : ∀ j, (p'.threads j).trapframe = (p.threads j).trapframe
  live : ∀ j, (p'.threads j).Live → (p.threads j).Live

namespace Keeps

variable {p p' p'' : Proc}

theorem refl (p : Proc) : p.Keeps p :=
  ⟨Iff.rfl, rfl, fun _ => rfl, fun _ => rfl, fun _ => rfl, fun _ h => h⟩

theorem trans (h : p.Keeps p') (h' : p'.Keeps p'') : p.Keeps p'' where
  unused_iff := h'.unused_iff.trans h.unused_iff
  pagetable := h'.pagetable.trans h.pagetable
  procParent j := (h'.procParent j).trans (h.procParent j)
  kstack j := (h'.kstack j).trans (h.kstack j)
  trapframe j := (h'.trapframe j).trans (h.trapframe j)
  live j hlive := h.live j (h'.live j hlive)

theorem holds (h : p.Keeps p') (q : Nat) : p'.holds q = p.holds q := by
  simp only [Proc.holds, Thread.holdsStack, h.unused_iff, h.pagetable, h.procParent, h.kstack,
    h.trapframe]

theorem hasStack (h : p.Keeps p') {q : Nat} (hq : p.HasStack q) : p'.HasStack q := by
  obtain ⟨hstate, j, hj, hparent, hkstack⟩ := hq
  exact ⟨fun hunused => hstate (h.unused_iff.mp hunused), j, hj, by rw [h.procParent, hparent],
    by rw [h.kstack, hkstack]⟩

theorem setState (j : Fin nthread) (state : ProcState)
    (hdead : ((p.threads j).setState state).Live → (p.threads j).Live) :
    p.Keeps (p.setThread j ((p.threads j).setState state)) := by
  have hthreads := fun l => setThread_setState p j l state
  refine ⟨Iff.rfl, rfl, ?_, ?_, ?_, ?_⟩
  · intro l
    rw [hthreads]
    split_ifs <;> rfl
  · intro l
    rw [hthreads]
    split_ifs <;> rfl
  · intro l
    rw [hthreads]
    split_ifs <;> rfl
  · intro l hlive
    rw [hthreads] at hlive
    split_ifs at hlive with hl
    · subst hl
      exact hdead hlive
    · exact hlive

theorem treparent (j : Fin nthread) (p : Proc) : p.Keeps (State.treparent j p) := by
  obtain ⟨hstate, hpt, -, hthreads⟩ := treparent_spec j p
  refine ⟨by rw [hstate], hpt, fun l => (hthreads l).2.1, fun l => (hthreads l).2.2.1,
    fun l => (hthreads l).2.2.2, fun l hlive => ?_⟩
  unfold Thread.Live at hlive ⊢
  rwa [(hthreads l).1] at hlive

end Keeps

end Proc

/-! ### Accounting -/

namespace StackPage

/-- The page is still the stack of a thread of its owner. -/
def Outstanding (s : State) (e : StackPage) : Prop :=
  e.returns = 0 ∧ e.reaped = false ∧ e.current = true ∧ (s.proc e.owner).HasStack e.page

/-- The page of the stack is in hand. -/
def InHand (hand : List Nat) (e : StackPage) : Prop :=
  e.returns = 0 ∧ e.reaped = false ∧ e.current = true ∧ e.page ∈ hand

/-- The page of the stack is on the free list again. -/
def Returned (s : State) (e : StackPage) : Prop :=
  e.returns = 1 ∧ (e.current = true → e.page ∈ s.freelist)

end StackPage

/-- A page is free, with a process, or in the hand of the running code, and `avail` counts it. -/
structure Accounted (avail : Nat → Nat) (hand : List Nat) (s : State) : Prop where
  avail_le : ∀ q, avail q ≤ 1
  total_le : ∀ q, s.total q + hand.count q ≤ avail q
  freeable : ∀ q ∈ s.freelist, Freeable s.kend q
  ledger : ∀ e ∈ s.stackLog, e.Outstanding s ∨ e.InHand hand ∨ e.Returned s

namespace Accounted

variable {avail : Nat → Nat} {hand : List Nat} {s : State}

variable {i : Fin nproc}

/-- A page that is free or in hand belongs to no process. -/
theorem not_held {q : Nat} (h : Accounted avail hand s) (hq : q ∈ s.freelist ∨ q ∈ hand) :
    (s.proc i).holds q = 0 := by
  have havail := h.avail_le q
  have htotal := h.total_le q
  have hle := le_sum (fun i => (s.proc i).holds q) i
  have hpos : 0 < s.freelist.count q ∨ 0 < hand.count q :=
    hq.imp count_pos_iff.mpr count_pos_iff.mpr
  unfold State.total at htotal
  omega

theorem not_mem_hand {q : Nat} (h : Accounted avail hand s) (hq : q ∈ s.freelist) : q ∉ hand := by
  intro hhand
  have havail := h.avail_le q
  have htotal := h.total_le q
  have hfree := count_pos_iff.mpr hq
  have hpos := count_pos_iff.mpr hhand
  unfold State.total at htotal
  omega

/-- Nothing but what is somewhere now is available. -/
theorem rebase (h : Accounted avail [] s) : Accounted s.total [] s where
  avail_le q := by
    have hle := h.total_le q
    have havail := h.avail_le q
    omega
  total_le q := by rw [count_nil, Nat.add_zero]
  freeable := h.freeable
  ledger := h.ledger

theorem perm {hand' : List Nat} (h : Accounted avail hand s) (hperm : hand.Perm hand') :
    Accounted avail hand' s where
  avail_le := h.avail_le
  total_le q := hperm.count_eq q ▸ h.total_le q
  freeable := h.freeable
  ledger e he := (h.ledger e he).imp_right fun h' =>
    h'.imp_left fun ⟨h1, h2, h3, h4⟩ => ⟨h1, h2, h3, hperm.mem_iff.mp h4⟩

/-- Taking pages from the free list into the hand. -/
theorem take (h : Accounted avail hand s) (n : Nat) :
    Accounted avail (s.freelist.take n ++ hand) (s.taken n) where
  avail_le := h.avail_le
  total_le q := by
    have htotal := h.total_le q
    have hsplit : s.freelist.count q =
        (s.freelist.take n).count q + (s.freelist.drop n).count q := by
      rw [← count_append, take_append_drop]
    rw [count_append]
    simp only [State.total, State.taken] at htotal ⊢
    omega
  freeable q hq := h.freeable q (mem_of_mem_drop hq)
  ledger e he := by
    obtain ⟨e, hin, rfl⟩ := mem_map.mp he
    unfold StackPage.supersedeAll
    rcases h.ledger e hin with hout | hhand | hret
    · -- a stack in use is not on the free list, so it is not taken
      obtain ⟨h0, hreaped, hcurrent, hstack⟩ := hout
      have hfree : e.page ∉ s.freelist.take n := fun hmem =>
        hstack.holds_pos.ne' (h.not_held (.inl (mem_of_mem_take hmem)))
      rw [if_neg hfree]
      exact .inl ⟨h0, hreaped, hcurrent, hstack⟩
    · obtain ⟨h0, hreaped, hcurrent, hmem⟩ := hhand
      have hfree : e.page ∉ s.freelist.take n := fun hmem' =>
        h.not_mem_hand (mem_of_mem_take hmem') hmem
      rw [if_neg hfree]
      exact .inr (.inl ⟨h0, hreaped, hcurrent, mem_append_right _ hmem⟩)
    · obtain ⟨h1, hcurrent⟩ := hret
      split_ifs with htaken
      · exact .inr (.inr ⟨h1, fun hc => absurd hc (by simp)⟩)
      · refine .inr (.inr ⟨h1, fun hc => ?_⟩)
        have hmem := hcurrent hc
        rw [← take_append_drop n s.freelist] at hmem
        exact (mem_append.mp hmem).resolve_left htaken

theorem taken_fresh (n : Nat) (s : State) :
    ∀ e ∈ (s.taken n).stackLog, e.current = true → e.page ∉ s.freelist.take n := by
  intro e he hcurrent hmem
  obtain ⟨e, -, rfl⟩ := mem_map.mp he
  unfold StackPage.supersedeAll at hcurrent hmem
  split_ifs at hcurrent hmem with htaken
  exact htaken hmem

/-- Giving pages in hand to the free list. -/
theorem give {given : List Nat} (h : Accounted avail (given ++ hand) s)
    (hvalid : ∀ q ∈ given, Freeable s.kend q) : Accounted avail hand (s.freed given) where
  avail_le := h.avail_le
  total_le q := by
    have htotal := h.total_le q
    rw [count_append] at htotal
    simp only [State.total, State.freed, count_append, count_reverse] at htotal ⊢
    omega
  freeable q hq := by
    rcases mem_append.mp hq with hmem | hmem
    · exact hvalid q (mem_reverse.mp hmem)
    · exact h.freeable q hmem
  ledger e he := by
    obtain ⟨e, hin, rfl⟩ := mem_map.mp he
    unfold StackPage.giveBackAll
    rcases h.ledger e hin with hout | hhand | hret
    · obtain ⟨h0, hreaped, hcurrent, hstack⟩ := hout
      have hnot : e.page ∉ given := fun hmem =>
        hstack.holds_pos.ne' (h.not_held (.inr (mem_append_left _ hmem)))
      rw [if_pos hcurrent, count_eq_zero_of_not_mem hnot]
      exact .inl ⟨h0, hreaped, hcurrent, hstack⟩
    · obtain ⟨h0, hreaped, hcurrent, hmem⟩ := hhand
      rw [if_pos hcurrent]
      have havail := h.avail_le e.page
      have htotal := h.total_le e.page
      rw [count_append] at htotal
      by_cases hgiven : e.page ∈ given
      · have hpos := count_pos_iff.mpr hgiven
        refine .inr (.inr ⟨?_, fun _ => ?_⟩)
        · show e.returns + given.count e.page = 1
          omega
        · exact mem_append_left _ (mem_reverse.mpr hgiven)
      · rw [count_eq_zero_of_not_mem hgiven]
        exact .inr (.inl ⟨h0, hreaped, hcurrent, (mem_append.mp hmem).resolve_left hgiven⟩)
    · obtain ⟨h1, hcurrent⟩ := hret
      split_ifs with hc
      · have hnot : e.page ∉ given := fun hmem =>
          h.not_mem_hand (hcurrent hc) (mem_append_left _ hmem)
        rw [count_eq_zero_of_not_mem hnot]
        exact .inr (.inr ⟨h1, fun _ => mem_append_right _ (hcurrent hc)⟩)
      · exact .inr (.inr ⟨h1, fun hc' => absurd hc' hc⟩)

/-- Changing one process: what it holds no longer goes to the hand, and back. -/
theorem reassign {p : Proc} (h : Accounted avail hand s) (hand' : List Nat)
    (hcount : ∀ q, p.holds q + hand'.count q ≤ (s.proc i).holds q + hand.count q)
    (hstack : ∀ q, (s.proc i).HasStack q → p.HasStack q ∨ q ∈ hand')
    (hhand : ∀ e ∈ s.stackLog, e.current = true → e.page ∈ hand → e.page ∈ hand') :
    Accounted avail hand' (s.setProc i p) where
  avail_le := h.avail_le
  total_le q := by
    have htotal := h.total_le q
    have hle := hcount q
    have hsum := sum_add_eq_of_agree (f := fun l => (s.proc l).holds q)
      (g := fun l => ((s.setProc i p).proc l).holds q) (i := i) (by
        intro l hl
        simp [State.setProc, hl])
    have hself : ((s.setProc i p).proc i).holds q = p.holds q := by
      simp [State.setProc]
    have hfree : (s.setProc i p).freelist = s.freelist := rfl
    unfold State.total at htotal ⊢
    rw [hfree]
    omega
  freeable := h.freeable
  ledger e he := by
    rcases h.ledger e he with ⟨h0, hreaped, hcurrent, hout⟩ | ⟨h0, hreaped, hcurrent, hmem⟩ | hret
    · by_cases howner : e.owner = i
      · rcases hstack e.page (howner ▸ hout) with hkeep | htake
        · refine .inl ⟨h0, hreaped, hcurrent, ?_⟩
          rw [howner]
          simpa [State.setProc] using hkeep
        · exact .inr (.inl ⟨h0, hreaped, hcurrent, htake⟩)
      · refine .inl ⟨h0, hreaped, hcurrent, ?_⟩
        simpa [State.setProc, howner] using hout
    · exact .inr (.inl ⟨h0, hreaped, hcurrent, hhand e he hcurrent hmem⟩)
    · exact .inr (.inr hret)

/-- Pages in hand that go to a process. -/
theorem forget {rest : List Nat} (h : Accounted avail (hand ++ rest) s)
    (hfresh : ∀ e ∈ s.stackLog, e.current = true → e.page ∉ rest) : Accounted avail hand s := by
  have hre := h.reassign (i := 0) (p := s.proc 0) hand ?_ (fun q hq => .inl hq) ?_
  · rwa [setProc_self] at hre
  · intro q
    rw [count_append]
    omega
  · intro e he hcurrent hmem
    exact (mem_append.mp hmem).resolve_right (hfresh e he hcurrent)

theorem givenBack {s₁ : State} (h : Accounted avail [] s) (hback : GivenBack s s₁) :
    Accounted avail [] s₁ := by
  obtain ⟨m, given, hsub, hvalid, rfl⟩ := hback
  obtain ⟨all, hperm, hsublist⟩ := subperm_iff.mp hsub
  obtain ⟨rest, hrest⟩ := hsublist.exists_perm_append
  have hsplit : (s.freelist.take m ++ []).Perm (given ++ rest) := by
    rw [append_nil]
    exact hperm.symm.trans hrest
  have hhand := (h.take m).perm hsplit
  have hgiven : Accounted avail (given ++ []) (s.taken m) := by
    rw [append_nil]
    apply hhand.forget
    intro e he hcurrent hmem
    apply taken_fresh m s e he hcurrent
    rw [← append_nil (s.freelist.take m)]
    exact hsplit.mem_iff.mpr (mem_append_right _ hmem)
  exact hgiven.give hvalid

theorem keeps {s' : State} (h : Accounted avail hand s) (hproc : ∀ i, (s.proc i).Keeps (s'.proc i))
    (hkend : s'.kend = s.kend) (hfree : s'.freelist = s.freelist)
    (hlog : s'.stackLog = s.stackLog) : Accounted avail hand s' where
  avail_le := h.avail_le
  total_le q := by
    have htotal := h.total_le q
    simpa only [State.total, hfree, (hproc _).holds] using htotal
  freeable q hq := by
    rw [hkend]
    exact h.freeable q (hfree ▸ hq)
  ledger e he := by
    rcases h.ledger e (hlog ▸ he) with ⟨h0, hreaped, hcurrent, hout⟩ | hhand | ⟨h1, hcurrent⟩
    · exact .inl ⟨h0, hreaped, hcurrent, (hproc e.owner).hasStack hout⟩
    · exact .inr (.inl hhand)
    · exact .inr (.inr ⟨h1, by rwa [hfree]⟩)

/-- A page in hand becomes a kernel stack. -/
theorem record (h : Accounted avail hand s) (stack : Nat) (hstack : (s.proc i).HasStack stack) :
    Accounted avail hand (s.logStack i stack) where
  avail_le := h.avail_le
  total_le := h.total_le
  freeable := h.freeable
  ledger e he := by
    rcases mem_cons.mp he with rfl | he
    · exact .inl ⟨rfl, rfl, rfl, hstack⟩
    · exact h.ledger e he

theorem reap {k : Fin nproc} (h : Accounted avail [] s) (hk : (s.proc k).state = .unused) :
    Accounted avail [] { s with stackLog := s.stackLog.map (·.reap k) } where
  avail_le := h.avail_le
  total_le := h.total_le
  freeable := h.freeable
  ledger e he := by
    obtain ⟨e, hin, rfl⟩ := mem_map.mp he
    unfold StackPage.reap
    rcases h.ledger e hin with ⟨h0, hreaped, hcurrent, hout⟩ | ⟨-, -, -, hmem⟩ | hret
    · have howner : e.owner ≠ k := by
        rintro rfl
        exact hout.1 hk
      rw [if_neg howner]
      exact .inl ⟨h0, hreaped, hcurrent, hout⟩
    · exact absurd hmem not_mem_nil
    · split_ifs
      · exact .inr (.inr hret)
      · exact .inr (.inr hret)

end Accounted

end Xv6.Table
