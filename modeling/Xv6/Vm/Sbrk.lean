import Mathlib.Algebra.GroupWithZero.Nat
import Xv6.Lib.Machine

/-!
# `sbrk` with several threads (`kernel/sysproc.c`, `kernel/proc.c`)

The threads of one process call `sys_sbrk` with positive increments. `growproc` works with
`p->lock`, but `sys_sbrk` has read the address that it returns before, without it. Whether `kalloc`
gives all the pages is an input; there are not enough for a process larger than the physical memory.
-/

namespace Xv6.Sbrk

open Lib
open Function (update)

def physSize : Nat := 2 ^ 27

def uvmalloc (oldsz newsz : Nat) (fails : Bool) : Nat :=
  if newsz < oldsz then oldsz
  else if fails ∨ physSize < newsz then 0
  else newsz

inductive Point where
  | start -- addr = myproc()->sz
  | acquire (addr : Nat) -- acquire(&p->lock)
  | grow (addr : Nat) -- uvmalloc(p->pagetable, sz, sz + n)
  | failed -- return -1
  | done (addr : Nat) -- return addr
  deriving DecidableEq

structure State (κ : Type*) where
  sz : Nat
  lock : Option κ
  call : κ → Point

/-- The address that a call has read, until it returns. -/
def Point.pending : Point → Option Nat
  | .acquire addr | .grow addr => some addr
  | _ => none

variable {κ : Type*} [DecidableEq κ]

/-- The next line of call `c`, whose argument is `n c`; whether a page is missing. -/
def sbrkMachine (n : κ → Nat) : Machine (State κ) (κ × Bool) where
  step s a :=
    let (c, fails) := a
    match s.call c with
    | .start => some { s with call := update s.call c (.acquire s.sz) }
    | .acquire addr =>
      if s.lock = none then some { s with lock := some c, call := update s.call c (.grow addr) }
      else none
    | .grow addr =>
      let sz := s.sz % 2 ^ 32
      let sz := uvmalloc sz ((sz + n c) % 2 ^ 32) fails
      if sz = 0 then some { s with lock := none, call := update s.call c .failed }
      else some { sz := sz % 2 ^ 32, lock := none, call := update s.call c (.done addr) }
    | .failed | .done _ => none

structure Start (s : State κ) : Prop where
  size : s.sz ≤ physSize
  lock : s.lock = none
  call : ∀ c, s.call c = .start

/-- **The regions of the calls that have succeeded** are apart and below the size. -/
structure RegionsOk (n : κ → Nat) (s : State κ) : Prop where
  below : ∀ c addr, s.call c = .done addr → addr + n c ≤ s.sz
  apart : ∀ c q addr addr', c ≠ q → s.call c = .done addr → s.call q = .done addr' →
    addr + n c ≤ addr' ∨ addr' + n q ≤ addr

/-- `p->sz` is not read between the two accesses of another call. -/
def Alone (s : State κ) (a : κ × Bool) : Prop :=
  s.call a.1 = .start → ∀ q, (s.call q).pending = none

end Xv6.Sbrk
