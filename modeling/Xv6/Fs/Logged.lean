import Xv6.Fs.Blocks

/-!
# What a write logs (`kernel/fs.c`, `kernel/file.c`)

The blocks that `balloc`, `bmap` and `writei` give to `log_write`, in this order.
-/

namespace Xv6.Fs

open Bcache
open Function (update)

variable (sb : Superblock) (s : State)

/-- `BBLOCK`, the bitmap block of block `b`. -/
def bblock (b : BitVec 32) : BitVec 32 := BitVec.ofNat 32 (b.toNat / bpb) + sb.bmapstart

/-- `IBLOCK`, the block of an inode of 64 bytes. -/
def iblock (inodestart : BitVec 32) (inum : Nat) : BitVec 32 :=
  BitVec.ofNat 32 (inum / (bsize / 64)) + inodestart

/-- The bitmap block, and the block that `bzero` clears. -/
def ballocLogs : List (BitVec 32) :=
  match balloc sb s with
  | .ok (b, _) => [bblock sb b, b]
  | .error _ => []

def bslotLogs (ip : Dinode) (i : Fin (ndirect + 1)) : List (BitVec 32) :=
  if ip.addrs i = 0 then ballocLogs sb s else []

def bmapLogs (ip : Dinode) (bn : Nat) : List (BitVec 32) :=
  if h : bn < ndirect then bslotLogs sb s ip ⟨bn, Nat.lt_succ_of_lt h⟩
  else if h : bn - ndirect < nindirect then
    bslotLogs sb s ip (Fin.last ndirect) ++
      match bslot sb s ip (Fin.last ndirect) with
      | .ok (ind, _, s) =>
        if s.block ind ⟨bn - ndirect, h⟩ = 0 then
          ballocLogs sb s ++ if (balloc sb s).isOk then [ind] else []
        else []
      | .error _ => []
  else []

def writeLoopLogs (buf : Buffer) (mem : Mem) (n : Nat) :
    Nat → Nat → Nat → Dinode → State → List (BitVec 32)
  | 0, _, _, _, _ => []
  | fuel + 1, tot, off, ip, s =>
    if tot < n then
      bmapLogs sb s ip (off / bsize) ++
        match bmap sb s ip (off / bsize) with
        | .ok (a, ip, s) =>
          let m := min (n - tot) (bsize - off % bsize)
          let (ok, bytes) := buf.copyin mem tot m
          let data := setBytes (s.block a) (off % bsize) bytes
          let s := { s with block := update s.block a data }
          if ok then a :: writeLoopLogs buf mem n fuel (tot + m) (off + m) ip s else []
        | .error _ => []
    else []

/-- `writei`; the last block is that of `iupdate`. -/
def writeiLogs (inodestart : BitVec 32) (inum : Nat) (ip : Dinode) (buf : Buffer) (mem : Mem)
    (off n : BitVec 32) : List (BitVec 32) :=
  if off > ip.size ∨ off + n < off then []
  else if off + n > BitVec.ofNat 32 (maxfile * bsize) then []
  else
    writeLoopLogs sb buf mem n.toNat n.toNat 0 off.toNat ip s ++
      if (writeLoop sb buf mem n.toNat n.toNat 0 off.toNat ip s).isOk then [iblock inodestart inum]
      else []

/-- The bytes that `filewrite` gives to one `writei`, at most. -/
def chunk : Nat := (maxOpBlocks - 1 - 1 - 2) / 2 * bsize

end Xv6.Fs
