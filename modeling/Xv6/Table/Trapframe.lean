import Xv6.Table.Basic

/-!
# The two addresses of a trapframe

The kernel reaches the trapframe of a thread through `t->trapframe`, the trampoline through the user
page table, at the address that `usertrapret` passes to `userret`. `Proc.TrapframesAgree`: the two
are the same memory for every live thread, apart for each and in the one page for them.
-/

namespace Xv6.Table

def userretArg (j : Fin nthread) : Nat := trapframeVa + sizeofTrapframe * j

/-- The physical address behind a user address of the page at `TRAPFRAME`. -/
def Pagetable.translate (pt : Pagetable) (va : Nat) : Option Nat :=
  if pageOf va = trapframeVa then some (pt.trapframe + va % pgsize) else none

/-- Kernel and trampoline use the same trapframes, each thread its own. -/
structure Proc.TrapframesAgree (p : Proc) : Prop where
  mapped : ∀ j, (p.threads j).Live → ∀ b, b < sizeofTrapframe →
    (p.pagetable.bind fun pt => pt.translate (userretArg j + b)) =
      some ((p.threads j).trapframe + b)
  disjoint : ∀ j l, j ≠ l → (p.threads j).Live → (p.threads l).Live →
    (p.threads j).trapframe + sizeofTrapframe ≤ (p.threads l).trapframe ∨
      (p.threads l).trapframe + sizeofTrapframe ≤ (p.threads j).trapframe
  in_page : ∀ j, (p.threads j).Live →
    pageOf (p.threads 0).trapframe ≤ (p.threads j).trapframe ∧
      (p.threads j).trapframe + sizeofTrapframe ≤ pageOf (p.threads 0).trapframe + pgsize

end Xv6.Table
