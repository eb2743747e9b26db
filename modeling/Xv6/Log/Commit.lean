import Mathlib.Data.List.Range
import Xv6.Lib.Store
import Xv6.Params

/-!
# The redo log on disk (`kernel/log.c`)

`commit` copies the logged blocks from the buffer cache to the log area, writes the header (the
commit point), installs the blocks at their home locations and clears the header. `recoverFromLog`
at boot reads the header, installs the blocks it names and clears it.

A block is `BSIZE` bytes, seen as 32-bit words like `struct logheader`. `Bio` is the part of the
buffer cache used here: `bread` gives the cached contents of a block, or those on disk, `bwrite`
writes through, and `written` records the disk writes in program order. Evicting a buffer that is
not pinned changes nothing for `bread` as long as it agrees with the disk.
-/

namespace Xv6

open Lib

abbrev Block := Fin (bsize / 4) → BitVec 32

abbrev Disk := Nat → Block

/-! ### The buffer cache -/

/-- The disk behind the buffer cache. -/
structure Bio where
  /-- The contents on disk. -/
  disk : Disk
  /-- The contents of the cached blocks. -/
  cache : Nat → Option Block
  /-- The disk writes made so far, in program order. -/
  written : List (Nat × Block)

def Bio.bread (s : Bio) (b : Nat) : Block := (s.cache b).getD (s.disk b)

/-- Write `data` through the cache to block `b`. -/
def Bio.bwrite (s : Bio) (b : Nat) (data : Block) : Bio where
  disk := Function.update s.disk b data
  cache := Function.update s.cache b (some data)
  written := s.written ++ [(b, data)]

/-- The machine after a reboot: an empty cache over the disk. -/
def boot (d : Disk) : Bio := ⟨d, fun _ => none, []⟩

/-! ### The log -/

/-- `struct logheader`; the first `n` of its `LOGSIZE` entries are in use. -/
structure LogHeader where
  /-- The number of logged blocks. -/
  n : Nat
  /-- The block numbers. -/
  block : Nat → BitVec 32
  /-- The array of block numbers is large enough. -/
  n_le : n ≤ logSize

namespace LogHeader

def clear (lh : LogHeader) : LogHeader := { lh with n := 0, n_le := Nat.zero_le _ }

/-- Store a header in the header block: `n`, then the first `n` block numbers; the other words
keep their value. -/
def store (lh : LogHeader) (hb : Block) : Block := fun w =>
  if w.val = 0 then BitVec.ofNat 32 lh.n
  else if w.val ≤ lh.n then lh.block (w.val - 1)
  else hb w

/-- The field `n` of a header block, a signed `int`: a negative one means no block. -/
def count (hb : Block) : Nat := (hb ⟨0, by decide⟩).toInt.toNat

/-- Read the header block; `none` when the count stored there overruns `log.lh.block`. -/
def load (hb : Block) : Option LogHeader :=
  if h : count hb ≤ logSize then
    some ⟨count hb, fun i => if hi : i + 1 < bsize / 4 then hb ⟨i + 1, hi⟩ else 0, h⟩
  else none

end LogHeader

structure Log where
  /-- The header block, the first block of the log area. -/
  start : Nat
  /-- The number of blocks of the log area, header included. -/
  size : Nat
  /-- The in-memory header. -/
  lh : LogHeader

namespace Log

def home (log : Log) (i : Nat) : Nat := (log.lh.block i).toNat

/-- Copy modified blocks from the cache to the log. -/
def writeLog (log : Log) (s : Bio) : Bio :=
  (List.range log.lh.n).foldl
    (fun s tail => s.bwrite (log.start + tail + 1) (s.bread (log.home tail))) s

def installTrans (log : Log) (s : Bio) : Bio :=
  (List.range log.lh.n).foldl
    (fun s tail => s.bwrite (log.home tail) (s.bread (log.start + tail + 1))) s

def writeHead (log : Log) (s : Bio) : Bio := s.bwrite log.start (log.lh.store (s.bread log.start))

/-- Read the header from disk into the in-memory header. -/
def readHead (start size : Nat) (s : Bio) : Option Log :=
  (LogHeader.load (s.bread start)).map fun lh => ⟨start, size, lh⟩

def commit (log : Log) (s : Bio) : Bio :=
  if log.lh.n > 0 then
    let s := writeLog log s
    let s := writeHead log s
    let s := installTrans log s
    writeHead { log with lh := log.lh.clear } s
  else s

def recoverFromLog (start size : Nat) (s : Bio) : Option Bio :=
  (readHead start size s).map fun log =>
    let s := installTrans log s
    writeHead { log with lh := log.lh.clear } s

/-! ### Crashes -/

def crashCommit (log : Log) (s : Bio) (k : Nat) : Disk :=
  applyWrites ((commit log { s with written := [] }).written.take k) s.disk

def recoverCut (start size : Nat) (d : Disk) (k : Nat) : Option Disk :=
  (recoverFromLog start size (boot d)).map fun s => applyWrites (s.written.take k) d

def recoverFully (start size : Nat) (d : Disk) : Option Disk :=
  (recoverFromLog start size (boot d)).map fun s => s.disk

/-- Recoveries cut short after the given numbers of writes, then a recovery that runs to its
end. -/
def recoverAfter (start size : Nat) (d : Disk) : List Nat → Option Disk
  | [] => recoverFully start size d
  | k :: ks => (recoverCut start size d k).bind fun d' => recoverAfter start size d' ks

/-! ### Histories -/

/-- A transaction with the cached blocks at its commit.  With `crash`, the machine stops after so
many disk writes of the commit, and recoveries follow as in `recoverAfter`. -/
structure Event where
  lh : LogHeader
  cache : Nat → Option Block
  crash : Option (Nat × List Nat)

def Event.run (start size : Nat) (d : Disk) (e : Event) : Option Disk :=
  match e.crash with
  | none => some (commit ⟨start, size, e.lh⟩ ⟨d, e.cache, []⟩).disk
  | some (k, cuts) =>
    recoverAfter start size (crashCommit ⟨start, size, e.lh⟩ ⟨d, e.cache, []⟩ k) cuts

/-- What the transaction is for: when its header is written, behind the `n` log blocks, its blocks
are replaced all at once, and else none is. -/
def Event.apply (d : Disk) (e : Event) : Disk := fun b =>
  if (e.crash.all fun c => e.lh.n < c.1) ∧ ∃ i < e.lh.n, (e.lh.block i).toNat = b then
    (e.cache b).getD (d b)
  else d b

end Log

end Xv6
