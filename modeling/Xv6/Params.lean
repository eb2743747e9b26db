import Mathlib.Algebra.GroupWithZero.Nat

/-!
# Parameters of the kernel

The constants of `kernel/param.h`, `kernel/riscv.h`, `kernel/memlayout.h`, `kernel/fs.h` and
`kernel/proc.h` that the modelled functions read.
-/

namespace Xv6

/-! ### `param.h` -/

def nproc : Nat := 64
def ncpu : Nat := 8
def nthread : Nat := 8
def nofile : Nat := 16
/-- Maximum number of blocks any file-system operation writes. -/
def maxOpBlocks : Nat := 10
/-- Maximum number of data blocks in the on-disk log. -/
def logSize : Nat := maxOpBlocks * 3
def signalsSize : Nat := 32
/-- Size of a user thread's stack. -/
def maxStackSize : Nat := 4000

/-! ### `fs.h` -/

def bsize : Nat := 1024

/-! ### `riscv.h` and `memlayout.h` -/

def pgsize : Nat := 4096
/-- One beyond the highest possible virtual address. -/
def maxva : Nat := 2 ^ (9 + 9 + 9 + 12 - 1)
/-- End of the RAM the kernel uses: `KERNBASE + 128*1024*1024`. -/
def phystop : Nat := 0x80000000 + 128 * 1024 * 1024
def trampoline : Nat := maxva - pgsize
/-- The page of the trapframes, just below the trampoline. -/
def trapframeVa : Nat := trampoline - pgsize
/-- The kernel stack `procinit` gives to the first thread of process slot `p`. -/
def kstackVa (p : Nat) : Nat := trampoline - (p + 1) * 2 * pgsize

end Xv6
