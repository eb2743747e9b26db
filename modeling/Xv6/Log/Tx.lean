import Xv6.Lib.Spin
import Xv6.Log.Op

/-!
# Transactions (`kernel/log.c`)

Processes `κ` that call `begin_op`, `log_write` and `end_op`, line by line: each acquires and
releases `log.lock`, and the one that ends the last operation executes `commit` without the lock,
one disk write at a time, while the others go on.

A process that sleeps in `begin_op` may acquire `log.lock` again at any time. A panic has no
successor.

An operation carries the blocks that it has logged. Not in the code are `ended` and `tx`: the blocks
of the operations that have ended since the last commit started, and what that commit started with.
-/

namespace Xv6.Tx

open Lib

/-- The next line of a process; `used` are the blocks that its operation has logged. -/
inductive Line where
  | idle
  -- begin_op
  | begin -- acquire(&log.lock)
  | beginTest -- while(1)
  | beginSleep -- sleep(&log, &log.lock)
  | beginLeave -- release(&log.lock)
  | op (used : List (BitVec 32))
  -- log_write(b)
  | logLock (used : List (BitVec 32)) (b : BitVec 32)
  | logSet (used : List (BitVec 32)) (b : BitVec 32)
  | logUnlock (used : List (BitVec 32))
  -- end_op
  | endLock (used : List (BitVec 32)) -- acquire(&log.lock)
  | endSet (used : List (BitVec 32)) -- log.outstanding -= 1
  | endUnlock (doCommit : Bool) -- release(&log.lock)
  -- commit
  | commit -- if (log.lh.n > 0)
  | writeLog (tail : Nat)
  | writeHead
  | install (tail : Nat)
  | clear
  | writeClear
  -- the end of end_op
  | doneLock -- acquire(&log.lock)
  | doneSet -- log.committing = 0
  | doneUnlock -- release(&log.lock)
  deriving DecidableEq

/-- What a commit started with: the log, the blocks, and those of the operations that had ended. -/
structure Snapshot where
  log : Log
  bio : Bio
  ended : List (BitVec 32)

structure Data where
  bio : Bio
  log : Log
  outstanding : Int
  committing : Bool
  ended : List (BitVec 32)
  tx : Snapshot

/-- The next line, or a call; between `begin_op` and `end_op` cached blocks are modified too. -/
inductive Choice where
  | next
  | beginOp
  | modify (b : BitVec 32) (data : Block)
  | logWrite (b : BitVec 32)
  | endOp

namespace Data

variable (d : Data)

def modify (b : BitVec 32) (data : Block) : Data :=
  { d with bio := { d.bio with cache := Function.update d.bio.cache b.toNat (some data) } }

/-- `log_write` with `log.lock`; `none` when it panics. -/
def logWrite (b : BitVec 32) : Option Data :=
  if h : d.log.lh.n ≥ logSize ∨ d.log.lh.n ≥ d.log.size - 1 then none
  else if d.outstanding < 1 then none
  else some
    { d with
      log := { d.log with
        lh := d.log.lh.record b (Nat.not_le.mp fun hle => h (Or.inl hle)) } }

def endOp (used : List (BitVec 32)) : Option (Bool × Data) :=
  -- panic("log.committing")
  if d.committing then none
  else if d.outstanding - 1 = 0 then
    some (true, { d with
      outstanding := d.outstanding - 1
      committing := true
      ended := used ++ d.ended })
  else
    some (false, { d with
      outstanding := d.outstanding - 1
      ended := used ++ d.ended })

/-- `commit` starts; the disk writes are counted anew. -/
def startCommit : Data :=
  let bio := { d.bio with written := [] }
  { d with bio, ended := [], tx := ⟨d.log, bio, d.ended⟩ }

def writeLog (tail : Nat) : Data :=
  { d with bio := d.bio.bwrite (d.log.start + tail + 1) (d.bio.bread (d.log.home tail)) }

def install (tail : Nat) : Data :=
  { d with bio := d.bio.bwrite (d.log.home tail) (d.bio.bread (d.log.start + tail + 1)) }

def writeHead : Data := { d with bio := d.log.writeHead d.bio }

def clear : Data := { d with log := { d.log with lh := d.log.lh.clear } }

end Data

def Data.admits (d : Data) : Bool :=
  d.committing = false ∧ d.log.lh.n + (d.outstanding + 1) * maxOpBlocks ≤ logSize

def Line.instr (d : Data) : Line → Choice → Option (LockOp Unit × Line × Data)
  | .idle, .beginOp => some (.none, .begin, d)
  | .begin, .next => some (.acquire (), .beginTest, d)
  | .beginTest, .next =>
    if d.admits then some (.none, .beginLeave, { d with outstanding := d.outstanding + 1 })
    else some (.none, .beginSleep, d)
  | .beginSleep, .next => some (.release (), .begin, d)
  | .beginLeave, .next => some (.release (), .op [], d)
  | .op used, .modify b data => some (.none, .op used, d.modify b data)
  | .op used, .logWrite b => some (.none, .logLock used b, d)
  | .logLock used b, .next => some (.acquire (), .logSet used b, d)
  | .logSet used b, .next =>
    (d.logWrite b).map fun d' => (.none, .logUnlock (used.insert b), d')
  | .logUnlock used, .next => some (.release (), .op used, d)
  | .op used, .endOp => some (.none, .endLock used, d)
  | .endLock used, .next => some (.acquire (), .endSet used, d)
  | .endSet used, .next =>
    (d.endOp used).map fun (doCommit, d') => (.none, .endUnlock doCommit, d')
  | .endUnlock doCommit, .next => some (.release (), if doCommit then .commit else .idle, d)
  | .commit, .next =>
    some (.none, if d.log.lh.n > 0 then .writeLog 0 else .doneLock, d.startCommit)
  | .writeLog tail, .next =>
    if tail < d.log.lh.n then some (.none, .writeLog (tail + 1), d.writeLog tail)
    else some (.none, .writeHead, d)
  | .writeHead, .next => some (.none, .install 0, d.writeHead)
  | .install tail, .next =>
    if tail < d.log.lh.n then some (.none, .install (tail + 1), d.install tail)
    else some (.none, .clear, d)
  | .clear, .next => some (.none, .writeClear, d.clear)
  | .writeClear, .next => some (.none, .doneLock, d.writeHead)
  | .doneLock, .next => some (.acquire (), .doneSet, d)
  | .doneSet, .next => some (.none, .doneUnlock, { d with committing := false })
  | .doneUnlock, .next => some (.release (), .idle, d)
  | _, _ => none

def txCode : SpinCode Unit Line Data Choice where
  instr d l ch := l.instr d ch

/-- The processes, with `log.lock`. -/
abbrev State (κ : Type) := SpinState κ Unit Line Data

variable {κ : Type}

/-- After `initlog`: no operation has begun, and the header is empty, in memory and on disk. -/
structure Start (s : State κ) : Prop where
  owner : s.owner () = none
  loc : ∀ c, s.loc c = .idle
  n : s.data.log.lh.n = 0
  head : LogHeader.count (s.data.bio.disk s.data.log.start) = 0
  outstanding : s.data.outstanding = 0
  committing : s.data.committing = false
  ended : s.data.ended = []

/-! ### Group commit -/

def Line.active : Line → Bool
  | .beginLeave | .op _ | .logLock _ _ | .logSet _ _ | .logUnlock _ | .endLock _ | .endSet _ => true
  | _ => false

def Line.commits : Line → Bool
  | .endUnlock doCommit => doCommit
  | .commit | .writeLog _ | .writeHead | .install _ | .clear | .writeClear | .doneLock
  | .doneSet => true
  | _ => false

/-- **Transactions**: while a commit is in progress no operation is, and nobody else changes the
header or a block; the header holds no block twice; a commit starts with the blocks of the
operations that have ended since the last one, and no others. -/
structure TxOk [DecidableEq κ] (s : State κ) : Prop where
  quiet : s.data.committing = true → s.data.outstanding = 0 ∧ ∀ c, (s.loc c).active = false
  still : s.data.committing = true → ∀ c ch s', txCode.machine.step s (c, ch) = some s' →
    (s.loc c).commits = false → s'.data.log = s.data.log ∧ s'.data.bio = s.data.bio
  one : ∀ c c', (s.loc c).commits = true → (s.loc c').commits = true → c = c'
  nodup : s.data.log.lh.blocks.Nodup
  whole : ∀ c, s.loc c = .commit → ∀ b, b ∈ s.data.log.lh.blocks ↔ b ∈ s.data.ended

end Xv6.Tx
