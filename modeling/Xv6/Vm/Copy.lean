import Xv6.Params

/-!
# Copying between kernel and user memory (`kernel/vm.c`)

Physical memory is a function from addresses to bytes. The page table is given as a function:
`walkaddr va` is the physical address of the user page at `va`, or `0` where none is mapped.
`copyin` and `copyinstr` give the bytes that they have copied, in the order of their addresses.

A page table is a tree apart from the memory: no user page is one of its pages.
-/

namespace Xv6

abbrev Addr := BitVec 64

/-- The contents of the physical memory. -/
abbrev Mem := Addr → UInt8

def pgrounddown (a : Addr) : Addr := a &&& ~~~(BitVec.ofNat 64 (pgsize - 1))

def memmove (mem : Mem) (dst : Addr) (src : List UInt8) : Mem :=
  fun a => src.getD (a - dst).toNat (mem a)

/-- The loop of `copyout`, for at most `fuel` pages. -/
def copyoutLoop (walkaddr : Addr → Addr) : Nat → Mem → Addr → List UInt8 → Bool × Mem
  | 0, mem, _, _ => (true, mem)
  | fuel + 1, mem, dstva, src =>
    if src = [] then (true, mem)
    else
      let va0 := pgrounddown dstva
      let pa0 := walkaddr va0
      if pa0 = 0 then (false, mem)
      else
        let n := min (pgsize - (dstva - va0).toNat) src.length
        copyoutLoop walkaddr fuel (memmove mem (pa0 + (dstva - va0)) (src.take n))
          (va0 + BitVec.ofNat 64 pgsize) (src.drop n)

/-- `false` is the result `-1`. Each page takes at least one byte, so the length of `src` bounds
their number. -/
def copyout (walkaddr : Addr → Addr) (mem : Mem) (dstva : Addr) (src : List UInt8) : Bool × Mem :=
  copyoutLoop walkaddr src.length mem dstva src

def bytesAt (mem : Mem) (pa : Addr) (n : Nat) : List UInt8 :=
  (List.range n).map fun k => mem (pa + BitVec.ofNat 64 k)

/-- The loop of `copyin`, for at most `fuel` pages. -/
def copyinLoop (walkaddr : Addr → Addr) (mem : Mem) : Nat → Addr → Nat → Bool × List UInt8
  | 0, _, _ => (true, [])
  | fuel + 1, srcva, len =>
    if len = 0 then (true, [])
    else
      let va0 := pgrounddown srcva
      let pa0 := walkaddr va0
      if pa0 = 0 then (false, [])
      else
        let n := min (pgsize - (srcva - va0).toNat) len
        let (ok, bytes) := copyinLoop walkaddr mem fuel (va0 + BitVec.ofNat 64 pgsize) (len - n)
        (ok, bytesAt mem (pa0 + (srcva - va0)) n ++ bytes)

/-- `false` is the result `-1`, after the bytes of the pages before the first one that is not
mapped. -/
def copyin (walkaddr : Addr → Addr) (mem : Mem) (srcva : Addr) (len : Nat) : Bool × List UInt8 :=
  copyinLoop walkaddr mem len srcva len

/-- The inner loop of `copyinstr`: whether there is a NUL, and what is copied. -/
def copyNul : List UInt8 → Bool × List UInt8
  | [] => (false, [])
  | b :: bs =>
    if b = 0 then (true, [0])
    else
      let (gotNull, out) := copyNul bs
      (gotNull, b :: out)

/-- The outer loop of `copyinstr`, for at most `fuel` pages. -/
def copyinstrLoop (walkaddr : Addr → Addr) (mem : Mem) : Nat → Addr → Nat → Bool × List UInt8
  | 0, _, _ => (false, [])
  | fuel + 1, srcva, max =>
    if max = 0 then (false, [])
    else
      let va0 := pgrounddown srcva
      let pa0 := walkaddr va0
      if pa0 = 0 then (false, [])
      else
        let n := min (pgsize - (srcva - va0).toNat) max
        let (gotNull, bytes) := copyNul (bytesAt mem (pa0 + (srcva - va0)) n)
        if gotNull then (true, bytes)
        else
          let (ok, rest) := copyinstrLoop walkaddr mem fuel (va0 + BitVec.ofNat 64 pgsize) (max - n)
          (ok, bytes ++ rest)

def copyinstr (walkaddr : Addr → Addr) (mem : Mem) (srcva : Addr) (max : Nat) : Bool × List UInt8 :=
  copyinstrLoop walkaddr mem max srcva max

/-! ### Page tables -/

/-- The three levels of a page table; entries of the upper two that are not valid are `none`. -/
abbrev PageTable := Fin 512 → Option (Fin 512 → Option (Fin 512 → BitVec 64))

/-- `PX(level, va)`. -/
def px (level : Nat) (va : Addr) : Fin 512 := Fin.ofNat 512 (va.toNat >>> (12 + 9 * level))

def walk (pagetable : PageTable) (va : Addr) : Option (BitVec 64) := do
  let table ← pagetable (px 2 va)
  let table ← table (px 1 va)
  return table (px 0 va)

def pteV (pte : BitVec 64) : Bool := pte.getLsbD 0
def pteU (pte : BitVec 64) : Bool := pte.getLsbD 4
def pte2pa (pte : BitVec 64) : Addr := (pte >>> 10) <<< 12

def walkaddr (pagetable : PageTable) (va : Addr) : Addr :=
  if va.toNat ≥ maxva then 0
  else
    match walk pagetable va with
    | none => 0
    | some pte => if !pteV pte then 0 else if !pteU pte then 0 else pte2pa pte

def UserPage (pagetable : PageTable) (va : Addr) : Prop :=
  va.toNat < maxva ∧ ∃ pte, walk pagetable va = some pte ∧ pteV pte ∧ pteU pte

def NoZeroLeaf (pagetable : PageTable) : Prop :=
  ∀ va pte, walk pagetable va = some pte → pteV pte → pte2pa pte ≠ 0

end Xv6
