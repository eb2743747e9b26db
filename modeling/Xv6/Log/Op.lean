import Xv6.Lib.Machine
import Xv6.Log.Commit

/-!
# File-system operations and the space of the log (`kernel/log.c`)

`begin_op` admits an operation when the log has room for `MAXOPBLOCKS` more blocks for it and for
every outstanding operation, `log_write` records a block in the in-memory header, once, and the last
`end_op` commits.

`opMachine` interleaves these calls for any number of processes `ι`, with each critical section of
`log.lock` as one step. A process that sleeps in `begin_op` has no step until its test succeeds. A
commit is two steps after `end_op`: `commit` itself, which runs without the lock and empties the
header, and the section that clears `log.committing`.
-/

namespace Xv6

open Lib
open Function (update)

/-! ### The in-memory header -/

namespace LogHeader

/-- The logged block numbers, in the order of the header. -/
def blocks (lh : LogHeader) : List (BitVec 32) := (List.range lh.n).map lh.block

def slot (lh : LogHeader) (blockno : BitVec 32) : Nat :=
  ((List.range lh.n).find? fun i => lh.block i = blockno).getD lh.n

def record (lh : LogHeader) (blockno : BitVec 32) (h : lh.n < logSize) : LogHeader where
  n := if lh.slot blockno = lh.n then lh.n + 1 else lh.n
  block := update lh.block (lh.slot blockno) blockno
  n_le := by split_ifs <;> omega

end LogHeader

/-! ### Operations -/

/-- Where a process is in its file-system operation. -/
inductive OpPhase where
  /-- Outside an operation. -/
  | idle
  /-- Between `begin_op` and `end_op`; `used` lists the different blocks it has logged. -/
  | inOp (used : List (BitVec 32))
  /-- `end_op` found the operation to be the last one: inside `commit`. -/
  | committing
  /-- Back from `commit`, with `log.committing` still set. -/
  | committed
  deriving DecidableEq

structure OpState (ι : Type*) where
  /-- The log area and the in-memory header. -/
  log : Log
  /-- How many file-system calls are executing. -/
  outstanding : Nat
  /-- A commit is running. -/
  committing : Bool
  /-- Where each process is. -/
  phase : ι → OpPhase
  /-- The message of the panic that stopped the kernel. -/
  panic : Option String

inductive OpAct (ι : Type*) where
  | beginOp (i : ι)
  | logWrite (i : ι) (blockno : BitVec 32)
  | endOp (i : ι)
  | commit (i : ι)
  | commitEnd (i : ι)
  deriving DecidableEq

/-- The panic of `log_write` on a log that is full. -/
def tooBig : String := "too big a transaction"

namespace OpState

variable {ι : Type*} [DecidableEq ι] (s : OpState ι)

def beginOp (i : ι) : Option (OpState ι) :=
  if s.committing then none
  else if s.log.lh.n + (s.outstanding + 1) * maxOpBlocks > logSize then none
  else some
    { s with
      outstanding := s.outstanding + 1
      phase := update s.phase i (.inOp []) }

def logWrite (blockno : BitVec 32) : OpState ι :=
  if h : s.log.lh.n ≥ logSize ∨ s.log.lh.n ≥ s.log.size - 1 then
    { s with panic := some tooBig }
  else if s.outstanding < 1 then
    { s with panic := some "log_write outside of trans" }
  else
    { s with
      log := { s.log with
        lh := s.log.lh.record blockno (Nat.not_le.mp fun hle => h (Or.inl hle)) } }

def endOp (i : ι) : OpState ι :=
  if s.committing then
    { s with outstanding := s.outstanding - 1, panic := some "log.committing" }
  else if s.outstanding - 1 = 0 then
    { s with
      outstanding := s.outstanding - 1
      committing := true
      phase := update s.phase i .committing }
  else
    { s with
      outstanding := s.outstanding - 1
      phase := update s.phase i .idle }

def step : OpAct ι → Option (OpState ι)
  | .beginOp i => if s.phase i = .idle then s.beginOp i else none
  | .logWrite i b =>
    match s.phase i with
    | .inOp used =>
      some { s.logWrite b with phase := update s.phase i (.inOp (used.insert b)) }
    | _ => none
  | .endOp i =>
    match s.phase i with
    | .inOp _ => some (s.endOp i)
    | _ => none
  | .commit i =>
    if s.phase i = .committing then
      some
        { s with
          log := { s.log with lh := s.log.lh.clear }
          phase := update s.phase i .committed }
    else none
  | .commitEnd i =>
    if s.phase i = .committed then
      some { s with committing := false, phase := update s.phase i .idle }
    else none

end OpState

/-- The interleavings of the calls; a panic stops the kernel. -/
def opMachine (ι : Type*) [DecidableEq ι] : Machine (OpState ι) (OpAct ι) where
  step s a := if s.panic.isSome then none else s.step a

/-! ### The file system of `mkfs` -/

/-- `nlog`, the size of the log area in the superblock that `mkfs` writes. -/
def mkfsNlog : Nat := logSize

/-- The first block of the log area in that superblock. -/
def mkfsLogstart : Nat := 2

/-- On the file system of `mkfs`: an empty header, whose unused entries may hold anything. -/
def initlog (ι : Type*) (block : Nat → BitVec 32) : OpState ι where
  log := ⟨mkfsLogstart, mkfsNlog, ⟨0, block, Nat.zero_le _⟩⟩
  outstanding := 0
  committing := false
  phase := fun _ => .idle
  panic := none

/-! ### What a run asks of the log -/

def OpPhase.usedWith (b : BitVec 32) : OpPhase → Nat
  | .inOp used => (used.insert b).length
  | _ => 0

def WithinBudget {ι : Type*} (k : Nat) (s : OpState ι) : OpAct ι → Prop
  | .logWrite i b => (s.phase i).usedWith b ≤ k
  | _ => True

instance decidableWithinBudget {ι : Type*} (k : Nat) (s : OpState ι) (a : OpAct ι) :
    Decidable (WithinBudget k s a) :=
  match a with
  | .logWrite i b => inferInstanceAs (Decidable ((s.phase i).usedWith b ≤ k))
  | .beginOp _ | .endOp _ | .commit _ | .commitEnd _ => isTrue trivial

def txAfter {ι : Type*} (l : List (BitVec 32)) : OpAct ι → List (BitVec 32)
  | .logWrite _ b => if b ∈ l then l else l ++ [b]
  | .commit _ => []
  | _ => l

def txBlocks {ι : Type*} (as : List (OpAct ι)) : List (BitVec 32) := as.foldl txAfter []

/-- No `log_write` is called once `LOGSIZE - 1` different blocks have been logged since the last
commit. -/
def TxFits {ι : Type*} (as : List (OpAct ι)) : Prop :=
  ∀ bs i b, bs ++ [.logWrite i b] <+: as → (txBlocks bs).length < logSize - 1

end Xv6
