import Xv6.Lib.Bytes
import Xv6.Proc.State
import Xv6.Vm.Copy

/-!
# `kthread_create` with its memory (`kernel/proc.c`)

A call of one thread from its first to its last line, with the pages that `kalloc` hands out and the
trapframes as bytes of the physical memory. Where the code panics, stores through a null pointer or
reaches behind the memory, the call does not return.
-/

namespace Xv6.Create

open Lib

structure Thread where
  state : ProcState
  tid : Int
  kstack : Addr
  trapframe : Addr
  procParent : Option (Fin nproc)
  threadParent : Option (Fin nproc × Fin nthread)
  chan : Addr
  killed : Bool
  xstate : Int
  -- ra and sp; memset clears the others
  context : Addr × Addr

structure State where
  threads : Fin nproc → Fin nthread → Thread
  mem : Mem
  -- the list of free pages
  freelist : List Addr
  nexttid : Int
  -- whether this CPU holds `p->lock` of the process, and how often it has released it
  holding : Bool
  released : Nat

/-- How a call ends that does not return. -/
inductive Fault where
  | acquire
  | release
  -- a store to a field of `(struct thread*) 0`
  | nullThread
  -- an address that the kernel does not map
  | memory
  deriving DecidableEq

abbrev Call := StateT State (Except Fault)

def sizeofTrapframe : Nat := 288

/-- The `n` bytes at `a` are in the memory that the kernel maps, from `KERNBASE` to `PHYSTOP`. -/
def InRam (a : Addr) (n : Nat) : Prop := 0x80000000 ≤ a.toNat ∧ a.toNat + n ≤ phystop

instance (a : Addr) (n : Nat) : Decidable (InRam a n) := inferInstanceAs (Decidable (_ ∧ _))

structure Code where
  forkret : Addr

namespace State

variable (s : State)

def setThread (i : Fin nproc) (t : Fin nthread) (th : Thread) : State :=
  { s with threads := Function.update s.threads i (Function.update (s.threads i) t th) }

def setMem (mem : Mem) : State := { s with mem }

def freeSlot (i : Fin nproc) : Option (Fin nthread) :=
  (List.finRange nthread).find? fun t =>
    (s.threads i t).state = .unused ∨ (s.threads i t).state = .zombie

/-- `kalloc`; a page is filled with junk. -/
def kalloc : Addr × State :=
  match s.freelist with
  | [] => (0, s)
  | r :: freelist => (r, { s with freelist, mem := memmove s.mem r (List.replicate pgsize 5) })

/-- `p->threads->trapframe + (sizeof(struct trapframe) * (int)(t-p->threads))`: it counts in
trapframes. -/
def trapframeOf (i : Fin nproc) (t : Fin nthread) : Addr :=
  (s.threads i 0).trapframe + BitVec.ofNat 64 (sizeofTrapframe * t * sizeofTrapframe)

end State

def acquire : Call Unit := do
  let s ← get
  if s.holding then throw .acquire
  set { s with holding := true }

def release : Call Unit := do
  let s ← get
  if s.holding then set { s with holding := false, released := s.released + 1 }
  else throw .release

def setThread (i : Fin nproc) (t : Fin nthread) (f : Thread → Thread) : Call Unit :=
  modify fun s => s.setThread i t (f (s.threads i t))

/-- `kfree`; the page is filled with junk. -/
def kfree (pa : Addr) : Call Unit :=
  modify fun s =>
    { s with freelist := pa :: s.freelist, mem := memmove s.mem pa (List.replicate pgsize 1) }

def freethread (i : Fin nproc) (t : Fin nthread) : Call Unit := do
  let th := (← get).threads i t
  if th.kstack ≠ 0 ∧ t ≠ 0 then kfree th.kstack
  setThread i t fun th =>
    { th with
      trapframe := if t ≠ 0 then 0 else th.trapframe
      tid := 0
      threadParent := none
      procParent := none
      chan := 0
      killed := false
      xstate := 0
      state := .unused }

/-- The loop of `allocthread`, with `p->lock`. -/
def takeSlot (i : Fin nproc) (c : Fin nthread) : Call (Option (Fin nthread)) := do
  acquire
  match (← get).freeSlot i with
  | none => release; return none
  | some t =>
    let tid := (← get).nexttid
    -- int nexttid
    modify fun s => { s with nexttid := (tid + 1).bmod (2 ^ 32) }
    setThread i t fun th =>
      { th with tid, state := .used, procParent := some i, threadParent := some (i, c) }
    release
    return some t

/-- The trapframe and the context of the new thread `t`. -/
def fillThread (code : Code) (i : Fin nproc) (c t : Fin nthread) (kstack startFunc stack : Addr) :
    Call Unit := do
  let s ← get
  let trapframe := s.trapframeOf i t
  let saved := bytesAt s.mem (s.threads i c).trapframe sizeofTrapframe
  setThread i t fun th => { th with trapframe }
  unless InRam trapframe sizeofTrapframe ∧ InRam (s.threads i c).trapframe sizeofTrapframe do
    throw .memory
  modify fun s => s.setMem (memmove s.mem trapframe saved)
  setThread i t fun th => { th with context := (code.forkret, kstack + BitVec.ofNat 64 pgsize) }
  modify fun s => s.setMem (memmove s.mem (trapframe + 24) (toBytes 8 startFunc.toNat))
  modify fun s => s.setMem (memmove s.mem (trapframe + 48)
    (toBytes 8 (stack + BitVec.ofNat 64 maxStackSize).toNat))

def allocthread (code : Code) (i : Fin nproc) (c : Fin nthread) (startFunc stack : Addr) :
    Call (Option (Fin nthread)) := do
  match ← takeSlot i c with
  | none => return none
  | some t =>
    let (kstack, s) := (← get).kalloc
    set s
    setThread i t fun th => { th with kstack }
    if kstack = 0 then
      freethread i t
      -- the lock was released before
      release
      return none
    fillThread code i c t kstack startFunc stack
    return some t

def kthreadCreate (code : Code) (i : Fin nproc) (c : Fin nthread) (startFunc stack : Addr) :
    Call Int := do
  match ← allocthread code i c startFunc stack with
  -- t->state = RUNNABLE comes before the test of t
  | none => throw .nullThread
  | some t =>
    setThread i t fun th => { th with state := .runnable }
    return ((← get).threads i t).tid

/-! ### All or nothing -/

/-- Byte `k` of the trapframe of a new thread. -/
def newByte (caller : List UInt8) (startFunc stack : Addr) (k : Nat) : UInt8 :=
  if 24 ≤ k ∧ k < 32 then (toBytes 8 startFunc.toNat).getD (k - 24) 0
  else if 48 ≤ k ∧ k < 56 then
    (toBytes 8 (stack + BitVec.ofNat 64 maxStackSize).toNat).getD (k - 48) 0
  else caller.getD k 0

def State.frame (s : State) (i : Fin nproc) (t : Fin nthread) : List UInt8 :=
  bytesAt s.mem (s.threads i t).trapframe sizeofTrapframe

/-- The call has made one more `RUNNABLE` thread. -/
structure Created (s s' : State) (i : Fin nproc) (c : Fin nthread) (startFunc stack : Addr) (r : Int) :
    Prop where
  thread : ∃ t, ((s.threads i t).state = .unused ∨ (s.threads i t).state = .zombie) ∧
    (s'.threads i t).state = .runnable ∧ (s'.threads i t).tid = r ∧
    s'.frame i t = (List.range sizeofTrapframe).map (newByte (s.frame i c) startFunc stack) ∧
    ∀ l u, (l, u) ≠ (i, t) → s'.threads l u = s.threads l u ∧
      ((s.threads l u).state ≠ .unused → s'.frame l u = s.frame l u)

/-- The call has failed, and changed nothing. -/
structure Unchanged (s s' : State) (r : Int) : Prop where
  result : r = -1
  threads : s'.threads = s.threads
  freelist : s'.freelist = s.freelist
  frames : ∀ l u, (s.threads l u).state ≠ .unused → s'.frame l u = s.frame l u

/-- **All or nothing**, with the lock released once. -/
structure CreateOk (s s' : State) (i : Fin nproc) (c : Fin nthread) (startFunc stack : Addr) (r : Int) :
    Prop where
  result : Created s s' i c startFunc stack r ∨ Unchanged s s' r
  unlocked : s'.holding = false
  released : s'.released = s.released + 1

/-- None of the `m` bytes at `a` is one of the `n` at `b`. -/
def Apart (a : Addr) (m : Nat) (b : Addr) (n : Nat) : Prop :=
  ∀ k < m, n ≤ (a + BitVec.ofNat 64 k - b).toNat

instance (a : Addr) (m : Nat) (b : Addr) (n : Nat) : Decidable (Apart a m b n) :=
  inferInstanceAs (Decidable (∀ k < m, _))

/-- The condition: there are a slot and a page, the new trapframe and that of the caller are in
memory, and no trapframe in use lies in the page or where the new one is put. -/
structure Room (s : State) (i : Fin nproc) (c t : Fin nthread) (page : Addr) : Prop where
  slot : s.freeSlot i = some t
  kstack : s.freelist.head? = some page ∧ page ≠ 0
  memory : InRam (s.trapframeOf i t) sizeofTrapframe ∧ InRam (s.threads i c).trapframe sizeofTrapframe
  apart : ∀ l u, (l, u) ≠ (i, t) → (s.threads l u).state ≠ .unused →
    Apart (s.threads l u).trapframe sizeofTrapframe page pgsize ∧
      Apart (s.threads l u).trapframe sizeofTrapframe (s.trapframeOf i t) sizeofTrapframe

end Xv6.Create
