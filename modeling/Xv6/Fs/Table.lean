import Mathlib.Algebra.BigOperators.Fin
import Xv6.Lib.Machine

/-!
# The inode table (`kernel/fs.c`)

`ialloc`, `iget`, `idup`, `ilock`, `iunlock` and `iput` by threads `θ`, with the inodes on the disk.
What happens under `itable.lock`, and to a buffer between `bread` and `brelse`, is one step. `iput`
releases `itable.lock` while it truncates the inode and writes it to the disk.

A thread uses only references that it has obtained, and keeps one while it holds the lock of the
entry. With the lock it may change the inode, but for its type, and calls `iupdate` before it
unlocks. A panic has no successor.

Not in the code are `dirty` (the inode was changed and not written yet), `found` (`ref` as `iput`
has found it), and `allocs` and `frees` (how often an inode was allocated and freed on the disk).
-/

namespace Xv6.Itable

open Lib
open Function (update)

def ninode : Nat := 50

instance : NeZero ninode := ⟨by decide⟩

abbrev Key := BitVec 32 × BitVec 32

structure Dinode where
  type : BitVec 16
  major : BitVec 16
  minor : BitVec 16
  nlink : BitVec 16
  size : BitVec 32
  addrs : Fin 13 → BitVec 32
  deriving DecidableEq

/-- `struct inode`; `mem` is its copy of the inode on the disk. -/
structure Inode (θ : Type) where
  key : Key
  ref : Nat
  valid : Bool
  mem : Dinode
  -- ip->lock
  holder : Option θ

inductive Pc where
  | idle
  | scan (dev inum : BitVec 32) (type : BitVec 16) -- ialloc: if(dip->type == 0)
  | get (k : Key) -- iget
  | lock (i : Fin ninode) -- ilock: acquiresleep(&ip->lock)
  | load (i : Fin ninode) -- ilock: if(ip->valid == 0)
  | trunc (i : Fin ninode) -- iput: itrunc(ip)
  | zero (i : Fin ninode) -- iput: ip->type = 0; iupdate(ip)
  | invalid (i : Fin ninode) -- iput: ip->valid = 0
  | unlock (i : Fin ninode) -- iput: releasesleep(&ip->lock)
  | drop (i : Fin ninode) -- iput: acquire(&itable.lock); ip->ref--
  deriving DecidableEq

structure State (θ : Type) where
  inode : Fin ninode → Inode θ
  disk : Key → Dinode
  pc : θ → Pc
  -- sb.ninodes
  ninodes : BitVec 32
  refs : θ → Fin ninode → Nat
  dirty : Fin ninode → Bool
  found : θ → Nat
  allocs : Key → Nat
  frees : Key → Nat

inductive Act (θ : Type) where
  | ialloc (t : θ) (dev : BitVec 32) (type : BitVec 16)
  | iget (t : θ) (k : Key)
  | idup (t : θ) (i : Fin ninode)
  | ilock (t : θ) (i : Fin ninode)
  | iunlock (t : θ) (i : Fin ninode)
  | iput (t : θ) (i : Fin ninode)
  | modify (t : θ) (i : Fin ninode) (d : Dinode)
  | iupdate (t : θ) (i : Fin ninode)
  | next (t : θ)

variable {θ : Type} [DecidableEq θ]

namespace State

variable (s : State θ)

def setInode (i : Fin ninode) (x : Inode θ) : State θ :=
  { s with inode := update s.inode i x }

def goto (t : θ) (p : Pc) : State θ := { s with pc := update s.pc t p }

def setDisk (k : Key) (d : Dinode) : State θ := { s with disk := update s.disk k d }

/-- Thread `t` has `n` references to entry `i`. -/
def setRefs (t : θ) (i : Fin ninode) (n : Nat) : State θ :=
  { s with refs := update s.refs t (update (s.refs t) i n) }

/-- `iget`: the entry, and whether it is a new one. -/
def find (k : Key) : Option (Fin ninode × Bool) :=
  match (List.finRange ninode).find? fun i => 0 < (s.inode i).ref ∧ (s.inode i).key = k with
  | some i => some (i, false)
  | none =>
    match (List.finRange ninode).find? fun i => (s.inode i).ref = 0 with
    | some i => some (i, true)
    | none => none -- panic("iget: no inodes")

def iget (t : θ) (k : Key) : Option (State θ) :=
  match s.find k with
  | some (i, false) =>
    some (((s.setInode i { s.inode i with ref := (s.inode i).ref + 1 }).setRefs t i
      (s.refs t i + 1)).goto t .idle)
  | some (i, true) =>
    some (((s.setInode i { s.inode i with key := k, ref := 1, valid := false }).setRefs t i
      (s.refs t i + 1)).goto t .idle)
  | none => none

def scan (t : θ) (dev inum : BitVec 32) (type : BitVec 16) : Option (State θ) :=
  if inum < s.ninodes then
    if (s.disk (dev, inum)).type = 0 then
      some ({ s.setDisk (dev, inum) ⟨type, 0, 0, 0, 0, fun _ => 0⟩ with
        allocs := update s.allocs (dev, inum) (s.allocs (dev, inum) + 1) }.goto t
          (.get (dev, inum)))
    else some (s.goto t (.scan dev (inum + 1) type))
  else none -- panic("ialloc: no inodes")

/-- `itrunc`: the blocks are freed. -/
def truncated (d : Dinode) : Dinode := { d with size := 0, addrs := fun _ => 0 }

/-- The next line of thread `t`. -/
def next (t : θ) : Option (State θ) :=
  match s.pc t with
  | .idle => none
  | .scan dev inum type => s.scan t dev inum type
  | .get k => s.iget t k
  | .lock i =>
    if (s.inode i).holder = none then
      some ((s.setInode i { s.inode i with holder := some t }).goto t (.load i))
    else none
  | .load i =>
    let x := s.inode i
    if x.valid then some (s.goto t .idle)
    else if (s.disk x.key).type = 0 then none -- panic("ilock: no type")
    else some ((s.setInode i { x with mem := s.disk x.key, valid := true }).goto t .idle)
  | .trunc i =>
    let x := s.inode i
    some (((s.setInode i { x with mem := truncated x.mem }).setDisk x.key (truncated x.mem)).goto t
      (.zero i))
  | .zero i =>
    let x := s.inode i
    some ({ (s.setInode i { x with mem := { x.mem with type := 0 } }).setDisk x.key
        { x.mem with type := 0 } with
      frees := update s.frees x.key (s.frees x.key + 1) }.goto t (.invalid i))
  | .invalid i => some ((s.setInode i { s.inode i with valid := false }).goto t (.unlock i))
  | .unlock i => some ((s.setInode i { s.inode i with holder := none }).goto t (.drop i))
  | .drop i =>
    some (((s.setInode i { s.inode i with ref := (s.inode i).ref - 1 }).setRefs t i
      (s.refs t i - 1)).goto t .idle)

def iput (t : θ) (i : Fin ninode) : Option (State θ) :=
  let x := s.inode i
  let s : State θ := { s with found := update s.found t x.ref }
  if x.ref = 1 ∧ x.valid = true ∧ x.mem.nlink = 0 then
    if x.holder = none then some ((s.setInode i { x with holder := some t }).goto t (.trunc i))
    else none
  else some (s.goto t (.drop i))

end State

/-- A thread begins a call, or executes its next line. -/
def tableMachine (θ : Type) [DecidableEq θ] : Machine (State θ) (Act θ) where
  step s a :=
    match a with
    | .ialloc t dev type =>
      if s.pc t = .idle ∧ type ≠ 0 then some (s.goto t (.scan dev 1 type)) else none
    | .iget t k => if s.pc t = .idle then some (s.goto t (.get k)) else none
    | .idup t i =>
      if s.pc t = .idle ∧ 0 < s.refs t i then
        some ((s.setInode i { s.inode i with ref := (s.inode i).ref + 1 }).setRefs t i
          (s.refs t i + 1))
      else none
    | .ilock t i => if s.pc t = .idle ∧ 0 < s.refs t i then some (s.goto t (.lock i)) else none
    | .iunlock t i =>
      if s.pc t = .idle ∧ (s.inode i).holder = some t ∧ s.dirty i = false then
        some (s.setInode i { s.inode i with holder := none })
      else none
    | .iput t i =>
      -- with the lock, another reference is kept
      if s.pc t = .idle ∧ (if (s.inode i).holder = some t then 1 else 0) < s.refs t i then s.iput t i
      else none
    | .modify t i d =>
      if s.pc t = .idle ∧ (s.inode i).holder = some t ∧ (s.inode i).valid = true ∧
          d.type = (s.inode i).mem.type then
        some { s.setInode i { s.inode i with mem := d } with
          dirty := update s.dirty i true }
      else none
    | .iupdate t i =>
      if s.pc t = .idle ∧ (s.inode i).holder = some t ∧ (s.inode i).valid = true then
        some { s.setDisk (s.inode i).key (s.inode i).mem with
          dirty := update s.dirty i false }
      else none
    | .next t => s.next t

/-- After `iinit`: no entry is in use, and each inode on the disk is free or was allocated once. -/
structure Init (s : State θ) : Prop where
  ref : ∀ i, (s.inode i).ref = 0
  holder : ∀ i, (s.inode i).holder = none
  pc : ∀ t, s.pc t = .idle
  refs : ∀ t i, s.refs t i = 0
  dirty : ∀ i, s.dirty i = false
  frees : ∀ k, s.frees k = 0
  allocs : ∀ k, s.allocs k = if (s.disk k).type = 0 then 0 else 1

/-! ### Entries, references and copies -/

end Xv6.Itable
