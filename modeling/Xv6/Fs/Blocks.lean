import Mathlib.Data.BitVec
import Xv6.Bio.Cache
import Xv6.Lib.Own

/-!
# Inodes and their blocks (`kernel/fs.c`)

`balloc` and `bfree` on the bitmap, `bmap` and `itrunc` with direct and indirect blocks, `readi` and
`writei` with their loops and failures, and `ialloc`, `ilock` and `iput`.

The bitmap, the inodes on disk and the contents of the other blocks are three components of the
state: the addresses used for contents are never those of the bitmap or of inodes (`FsInv.owns`).
They are what `bread` gives, so the log and the buffer cache do not appear. A panic is an error.
-/

namespace Xv6.Fs

open Lib Bcache
open Function (update)

def ndirect : Nat := 12
abbrev nindirect : Nat := bsize / 4
/-- `MAXFILE`, in blocks. -/
def maxfile : Nat := ndirect + nindirect
/-- Bits of a bitmap block. -/
def bpb : Nat := bsize * 8

structure Superblock where
  size : BitVec 32
  ninodes : BitVec 32
  bmapstart : BitVec 32

/-- The blocks before the data blocks: the bitmap is the last of the others. -/
def Superblock.nmeta (sb : Superblock) : Nat := sb.bmapstart.toNat + sb.size.toNat / bpb + 1

/-- `struct dinode`; `addrs` has the indirect block last. -/
structure Dinode where
  type : BitVec 16
  nlink : BitVec 16
  size : BitVec 32
  addrs : Fin (ndirect + 1) → BitVec 32

def Dinode.setAddr (ip : Dinode) (i : Fin (ndirect + 1)) (a : BitVec 32) : Dinode :=
  { ip with addrs := update ip.addrs i a }

/-- `struct inode`: `copy` is of the inode on disk, when `valid`. -/
structure Inode where
  ref : Nat
  valid : Bool
  copy : Dinode

structure State where
  bitmap : BitVec 32 → Bool
  block : BitVec 32 → Block
  dinode : Nat → Dinode
  inode : Nat → Inode

inductive Panic where
  | outOfBlocks -- panic("balloc: out of blocks")
  | freeBlock -- panic("freeing free block")
  | noInodes -- panic("ialloc: no inodes")
  | outOfRange -- panic("bmap: out of range")
  | ilock -- panic("ilock")
  | noType -- panic("ilock: no type")
  deriving DecidableEq

variable (sb : Superblock) (s : State)

/-! ### Blocks -/

def balloc : Except Panic (BitVec 32 × State) :=
  match (List.range sb.size.toNat).find? fun b => !s.bitmap (BitVec.ofNat 32 b) with
  | some b =>
    let b := BitVec.ofNat 32 b
    .ok (b, { s with
      bitmap := update s.bitmap b true
      block := update s.block b fun _ => 0 })
  | none => .error .outOfBlocks

def bfree (b : BitVec 32) : Except Panic State :=
  if s.bitmap b then .ok { s with bitmap := update s.bitmap b false }
  else .error .freeBlock

/-! ### Inode content -/

/-- Copy a modified in-memory inode to disk. -/
def State.iupdate (inum : Nat) (ip : Dinode) : State :=
  { s with dinode := update s.dinode inum ip }

def bslot (ip : Dinode) (i : Fin (ndirect + 1)) : Except Panic (BitVec 32 × Dinode × State) :=
  if ip.addrs i = 0 then do
    let (a, s) ← balloc sb s
    return (a, ip.setAddr i a, s)
  else return (ip.addrs i, ip, s)

def bmap (ip : Dinode) (bn : Nat) : Except Panic (BitVec 32 × Dinode × State) :=
  if h : bn < ndirect then bslot sb s ip ⟨bn, Nat.lt_succ_of_lt h⟩
  else if h : bn - ndirect < nindirect then do
    let (ind, ip, s) ← bslot sb s ip (Fin.last ndirect)
    if s.block ind ⟨bn - ndirect, h⟩ = 0 then do
      let (a, s) ← balloc sb s
      let entries := update (s.block ind) ⟨bn - ndirect, h⟩ a
      return (a, ip, { s with block := update s.block ind entries })
    else return (s.block ind ⟨bn - ndirect, h⟩, ip, s)
  else .error .outOfRange

/-- The first loop of `itrunc`. -/
def freeDirect : List (Fin ndirect) → Dinode → State → Except Panic (Dinode × State)
  | [], ip, s => .ok (ip, s)
  | i :: is, ip, s =>
    if ip.addrs i.castSucc = 0 then freeDirect is ip s
    else do
      let s ← bfree s (ip.addrs i.castSucc)
      freeDirect is (ip.setAddr i.castSucc 0) s

/-- The second one, over the entries of the indirect block. -/
def freeEntries (a : Block) : List (Fin nindirect) → State → Except Panic State
  | [], s => .ok s
  | j :: js, s =>
    if a j = 0 then freeEntries a js s
    else do
      let s ← bfree s (a j)
      freeEntries a js s

def freeIndirect (ip : Dinode) : Except Panic (Dinode × State) :=
  let addr := ip.addrs (Fin.last ndirect)
  if addr = 0 then .ok (ip, s)
  else do
    let s ← freeEntries (s.block addr) (List.finRange nindirect) s
    let s ← bfree s addr
    return (ip.setAddr (Fin.last ndirect) 0, s)

def itrunc (inum : Nat) (ip : Dinode) : Except Panic (Dinode × State) := do
  let (ip, s) ← freeDirect (List.finRange ndirect) ip s
  let (ip, s) ← freeIndirect s ip
  let ip := { ip with size := 0 }
  return (ip, s.iupdate inum ip)

/-! ### Reading and writing -/

/-- A user address with its page table, or a kernel address. -/
structure Buffer where
  walkaddr : Option (Addr → Addr)
  addr : Addr

/-- `either_copyin`, from `tot` bytes behind the address. -/
def Buffer.copyin (buf : Buffer) (mem : Mem) (tot len : Nat) : Bool × List UInt8 :=
  let src := buf.addr + BitVec.ofNat 64 tot
  match buf.walkaddr with
  | some walkaddr => Xv6.copyin walkaddr mem src len
  | none => (true, bytesAt mem src len)

def Buffer.copyout (buf : Buffer) (mem : Mem) (tot : Nat) (bytes : List UInt8) : Bool × Mem :=
  let dst := buf.addr + BitVec.ofNat 64 tot
  match buf.walkaddr with
  | some walkaddr => Xv6.copyout walkaddr mem dst bytes
  | none => (true, memmove mem dst bytes)

def getByte (data : Block) (k : Nat) : UInt8 :=
  if h : k / 4 < bsize / 4 then UInt8.ofNat (data ⟨k / 4, h⟩ >>> (8 * (k % 4))).toNat else 0

def getBytes (data : Block) (off len : Nat) : List UInt8 :=
  (List.range len).map fun k => getByte data (off + k)

/-- The loop of `readi`, for at most `fuel` blocks. -/
def readLoop (buf : Buffer) (n : Nat) :
    Nat → Nat → Nat → Mem → Dinode → State → Except Panic (Option Nat × Mem × Dinode × State)
  | 0, tot, _, mem, ip, s => .ok (some tot, mem, ip, s)
  | fuel + 1, tot, off, mem, ip, s =>
    if tot < n then do
      let (a, ip, s) ← bmap sb s ip (off / bsize)
      let m := min (n - tot) (bsize - off % bsize)
      let (ok, mem) := buf.copyout mem tot (getBytes (s.block a) (off % bsize) m)
      if ok then readLoop buf n fuel (tot + m) (off + m) mem ip s
      else .ok (none, mem, ip, s)
    else .ok (some tot, mem, ip, s)

/-- `none` is the result `-1`. Each block has at least one byte, so `n` bounds their number. -/
def readi (ip : Dinode) (buf : Buffer) (mem : Mem) (off n : BitVec 32) :
    Except Panic (Option Nat × Mem × Dinode × State) :=
  if off > ip.size ∨ off + n < off then .ok (some 0, mem, ip, s)
  else
    let n := if off + n > ip.size then ip.size - off else n
    readLoop sb buf n.toNat n.toNat 0 off.toNat mem ip s

def writeLoop (buf : Buffer) (mem : Mem) (n : Nat) :
    Nat → Nat → Nat → Dinode → State → Except Panic (Nat × Nat × Dinode × State)
  | 0, tot, off, ip, s => .ok (tot, off, ip, s)
  | fuel + 1, tot, off, ip, s =>
    if tot < n then do
      let (a, ip, s) ← bmap sb s ip (off / bsize)
      let m := min (n - tot) (bsize - off % bsize)
      let (ok, bytes) := buf.copyin mem tot m
      let data := setBytes (s.block a) (off % bsize) bytes
      let s := { s with block := update s.block a data }
      if ok then writeLoop buf mem n fuel (tot + m) (off + m) ip s
      else .ok (tot, off, ip, s)
    else .ok (tot, off, ip, s)

/-- Write data to inode; `none` is the result `-1`. -/
def writei (inum : Nat) (ip : Dinode) (buf : Buffer) (mem : Mem) (off n : BitVec 32) :
    Except Panic (Option Nat × Dinode × State) :=
  if off > ip.size ∨ off + n < off then .ok (none, ip, s)
  else if off + n > BitVec.ofNat 32 (maxfile * bsize) then .ok (none, ip, s)
  else do
    let (tot, off, ip, s) ← writeLoop sb buf mem n.toNat n.toNat 0 off.toNat ip s
    let ip := if off > ip.size.toNat then { ip with size := BitVec.ofNat 32 off } else ip
    return (some tot, ip, s.iupdate inum ip)

/-! ### Inodes -/

def State.setInode (inum : Nat) (v : Inode) : State :=
  { s with inode := update s.inode inum v }

/-- Find the inode in the table, or take an entry for it. -/
def State.iget (inum : Nat) : State :=
  let ip := s.inode inum
  s.setInode inum
    (if ip.ref > 0 then { ip with ref := ip.ref + 1 } else { ip with ref := 1, valid := false })

def ialloc (type : BitVec 16) : Except Panic (Nat × State) :=
  match (List.range sb.ninodes.toNat).find? fun i => 1 ≤ i ∧ (s.dinode i).type = 0 with
  | some inum => .ok (inum, (s.iupdate inum ⟨type, 0, 0, fun _ => 0⟩).iget inum)
  | none => .error .noInodes

def ilock (inum : Nat) : Except Panic State :=
  let ip := s.inode inum
  if ip.ref < 1 then .error .ilock
  else if ip.valid then .ok s
  else if (s.dinode inum).type = 0 then .error .noType
  else .ok (s.setInode inum { ip with valid := true, copy := s.dinode inum })

def iput (inum : Nat) : Except Panic State :=
  let ip := s.inode inum
  if ip.ref = 1 ∧ ip.valid ∧ ip.copy.nlink = 0 then do
    let (copy, s) ← itrunc s inum ip.copy
    let copy := { copy with type := 0 }
    return (s.iupdate inum copy).setInode inum { ref := 0, valid := false, copy }
  else .ok (s.setInode inum { ip with ref := ip.ref - 1 })

/-- What is done to an inode between `ilock` and `iunlock`. -/
def withLock (inum : Nat) (f : Dinode → State → Except Panic (Dinode × State)) :
    Except Panic State := do
  let s ← ilock s inum
  let (copy, s) ← f (s.inode inum).copy s
  return s.setInode inum { s.inode inum with copy }

/-- The operations.  `setNlink` is what `create`, `link` and `unlink` do to the inode besides. -/
inductive Op where
  | ialloc (type : BitVec 16)
  | iget (inum : Nat)
  | iput (inum : Nat)
  | readi (inum : Nat) (buf : Buffer) (mem : Mem) (off n : BitVec 32)
  | writei (inum : Nat) (buf : Buffer) (mem : Mem) (off n : BitVec 32)
  | itrunc (inum : Nat)
  | setNlink (inum : Nat) (nlink : BitVec 16)

/-- `none` when the caller has no reference to drop. -/
def step : Op → Option (Except Panic State)
  | .ialloc type => some ((ialloc sb s type).map Prod.snd)
  | .iget inum => some (.ok (s.iget inum))
  | .iput inum => if (s.inode inum).ref < 1 then none else some (iput s inum)
  | .readi inum buf mem off n =>
    some (withLock s inum fun ip s => do
      let (_, _, ip, s) ← readi sb s ip buf mem off n
      return (ip, s))
  | .writei inum buf mem off n =>
    some (withLock s inum fun ip s => do
      let (_, ip, s) ← writei sb s inum ip buf mem off n
      return (ip, s))
  | .itrunc inum => some (withLock s inum fun ip s => itrunc s inum ip)
  | .setNlink inum nlink =>
    some (withLock s inum fun ip s =>
      let ip := { ip with nlink }
      .ok (ip, s.iupdate inum ip))

def machine : Machine State Op where
  step s op := (step sb s op).bind Except.toOption

/-! ### References -/

/-- The places of an inode that hold block addresses. -/
inductive Slot where
  | direct (i : Fin ndirect)
  | indirect
  | entry (j : Fin nindirect)
  deriving DecidableEq

/-- The address at a place; an inode without an indirect block has no entries. -/
def Dinode.addr (ip : Dinode) (block : BitVec 32 → Block) : Slot → BitVec 32
  | .direct i => ip.addrs i.castSucc
  | .indirect => ip.addrs (Fin.last ndirect)
  | .entry j =>
    if ip.addrs (Fin.last ndirect) = 0 then 0 else block (ip.addrs (Fin.last ndirect)) j

/-- The address at a place of an allocated inode. -/
def State.addr (r : Nat × Slot) : BitVec 32 :=
  if (s.dinode r.1).type = 0 then 0 else (s.dinode r.1).addr s.block r.2

/-- The place for block `bn` of an inode. -/
def slotOf (bn : Nat) : Option Slot :=
  if h : bn < ndirect then some (.direct ⟨bn, h⟩)
  else if h : bn - ndirect < nindirect then some (.entry ⟨bn - ndirect, h⟩)
  else none

def Superblock.region : Region (BitVec 32) where
  data b := sb.nmeta ≤ b.toNat ∧ b.toNat < sb.size.toNat
  reserved b := b.toNat < sb.nmeta
  apart _ hres hdata := absurd hdata.1 (Nat.not_le.mpr hres)
  zero h := Nat.not_succ_le_zero _ h.1

/-- Every block index below the size of an allocated inode has an address. -/
def Mapped : Prop :=
  ∀ inum bn, (s.dinode inum).type ≠ 0 → bn * bsize < (s.dinode inum).size.toNat →
    ∃ slot, slotOf bn = some slot ∧ s.addr (inum, slot) ≠ 0

/-- A consistent image, with no inode in memory. -/
structure Start : Prop where
  owns : Owns sb.region s.addr s.bitmap
  mapped : Mapped s
  ref : ∀ inum, (s.inode inum).ref = 0

/-- **Block ownership**: a data block is in use if and only if an inode refers to it, at one place,
and a file has all its blocks; the next operation frees no free block, and reading changes nothing.
-/
structure BlocksOk : Prop where
  used : ∀ b, sb.region.data b → (s.bitmap b = true ↔ ∃ r, s.addr r = b)
  once : ∀ b, sb.region.data b → s.bitmap b = true → ∃! r, s.addr r = b
  mapped : Mapped s
  bfree : ∀ op, step sb s op ≠ some (.error .freeBlock)
  readi : ∀ inum buf mem off n s', step sb s (.readi inum buf mem off n) = some (.ok s') →
    s'.bitmap = s.bitmap ∧ s'.block = s.block ∧ s'.dinode = s.dinode

end Xv6.Fs
