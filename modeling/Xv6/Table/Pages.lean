import Xv6.Lib.Sum
import Xv6.Table.Basic

/-!
# Where the pages are

`State.total` counts a page wherever it is: on the free list, and with the processes that hold it as
trapframe page, in their page table or as a kernel stack.  `PagesConserved` is what the allocator
promises; `SafeStep` is the condition on a system call under which it keeps the promise.
-/

namespace Xv6.Table

def Thread.holdsStack (t : Thread) (j : Fin nthread) (q : Nat) : Nat :=
  if j ≠ 0 ∧ t.procParent = true ∧ t.kstack = q then 1 else 0

namespace Proc

/-- How often the process holds page `q`. -/
def holds (p : Proc) (q : Nat) : Nat :=
  if p.state = .unused then 0
  else
    (if (p.threads 0).trapframe = q then 1 else 0) + (pagesOf p.pagetable).count q +
      ∑ j, (p.threads j).holdsStack j q

end Proc

namespace State

/-- How often page `q` is free or held. -/
def total (s : State) (q : Nat) : Nat := s.freelist.count q + ∑ i, (s.proc i).holds q

/-- The trapframe of a live thread other than the first of its process lies in page `q`. -/
def HoldsTrapframe (s : State) (q : Nat) : Prop :=
  ∃ i j, j ≠ 0 ∧ ((s.proc i).threads j).Live ∧ pageOf ((s.proc i).threads j).trapframe = q

end State

/-- The pages that `kinit` gave, and the first process got: page-aligned, behind the kernel and each
once. -/
structure BootPages (kend tf : Nat) (pages free : List Nat) : Prop where
  kend_pos : 0 < kend
  nodup : (tf :: pages ++ free).Nodup
  aligned : ∀ q ∈ tf :: pages ++ free, q % pgsize = 0
  bounds : ∀ q ∈ tf :: pages ++ free, kend ≤ q ∧ q < phystop

/-- The pages behind a small kernel. -/
def pageAt (k : Nat) : Nat := 0x80030000 + pgsize * k

def smallBoot : State := booted 0x80026000 (pageAt 0) ((List.range' 1 6).map pageAt)
  ((List.range' 7 16).map pageAt)

theorem smallBoot_pages : BootPages 0x80026000 (pageAt 0) ((List.range' 1 6).map pageAt)
    ((List.range' 7 16).map pageAt) where
  kend_pos := by decide
  nodup := by decide
  aligned := by decide
  bounds := by decide

/-- No page is free twice or while a live thread uses it, and every kernel stack is returned exactly
once by the time its process has been reaped. -/
structure PagesConserved (s : State) : Prop where
  free_nodup : s.freelist.Nodup
  kstack_not_free : ∀ i j, ((s.proc i).threads j).Live → ((s.proc i).threads j).kstack ∉ s.freelist
  trapframe_not_free : ∀ i j, ((s.proc i).threads j).Live →
    pageOf ((s.proc i).threads j).trapframe ∉ s.freelist
  returned_once : ∀ e ∈ s.stackLog, e.returns ≤ 1 ∧ (e.reaped = true → e.returns = 1)

/-- The call keeps clear of the defects: `kthread_create` takes an `UNUSED` slot, and its trapframe
is in a page that is neither free nor held by a process; `wait` reaps no process with another slot
that has a `kstack` left from an earlier one. -/
def SafeStep (s : State) : Act → Prop
  | .kthreadCreate i _ => ∀ l, State.freeSlot (s.proc i) = some l →
      ((s.proc i).threads l).state = .unused ∧ s.total (pageOf (State.trapframeOf (s.proc i) l)) = 0
  | .wait i _ copyFails _ => copyFails = false → ∀ k, s.zombieChild i = some k → ∀ j, j ≠ 0 →
      ((s.proc k).threads j).kstack ≠ 0 → ((s.proc k).threads j).procParent = true
  | _ => True

instance (s : State) : (a : Act) → Decidable (SafeStep s a)
  | .fork .. | .kthreadExit .. | .exit .. | .exec .. => inferInstanceAs (Decidable True)
  | .kthreadCreate i _ => inferInstanceAs (Decidable (∀ l, State.freeSlot (s.proc i) = some l →
      ((s.proc i).threads l).state = .unused ∧
        s.total (pageOf (State.trapframeOf (s.proc i) l)) = 0))
  | .wait i _ copyFails _ => inferInstanceAs (Decidable (copyFails = false →
      ∀ k, s.zombieChild i = some k → ∀ j, j ≠ 0 →
        ((s.proc k).threads j).kstack ≠ 0 → ((s.proc k).threads j).procParent = true))

end Xv6.Table
