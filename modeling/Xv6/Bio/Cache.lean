import Xv6.Log.Op
import Xv6.Vm.Copy

/-!
# The buffer cache (`kernel/bio.c`)

The buffers with their reference counts and sleep-locks, the list in the order of last use, and the
disk behind them. Each function of `bio.c` is one step; `bread` has no result while the buffer of
its block is locked, or when `bget` panics.

System calls execute any sequence of `bread` and `brelse`, and between `begin_op` and `end_op`
modify buffers: `update` stands for the functions that store to a buffer and give it to `log_write`
(`bzero`, `balloc`, `bfree`, `ialloc`, `iupdate`, `bmap`, and `writei` from kernel memory), `write`
is one round of the loop of `writei` with a user address.
-/

namespace Xv6.Bcache

open Lib

/-- The number of buffers (`param.h`). -/
def nbuf : Nat := maxOpBlocks * 3

instance : NeZero nbuf := ⟨by decide⟩

abbrev BufId := Fin nbuf

/-- `struct buf`; `block` is `none` as long as the buffer has not been used. -/
structure Buf where
  block : Option (BitVec 32)
  valid : Bool
  refcnt : Nat
  locked : Bool
  data : Block

structure Cache where
  buf : BufId → Buf
  lru : List BufId
  disk : Disk

namespace Cache

variable (c : Cache)

def set (i : BufId) (v : Buf) : Cache := { c with buf := Function.update c.buf i v }

def bget (b : BitVec 32) : Option (BufId × Cache) :=
  match c.lru.find? fun i => (c.buf i).block = some b with
  | some i => some (i, c.set i { c.buf i with refcnt := (c.buf i).refcnt + 1 })
  | none =>
    match c.lru.reverse.find? fun i => (c.buf i).refcnt = 0 with
    | some i =>
      some (i, c.set i { c.buf i with block := some b, valid := false, refcnt := 1 })
    | none => none -- panic("bget: no buffers")

def fill (i : BufId) (b : BitVec 32) : Option Cache :=
  let bp := c.buf i
  if bp.locked then none
  else
    let data := if bp.valid then bp.data else c.disk b.toNat
    some (c.set i { bp with locked := true, valid := true, data })

def bread (b : BitVec 32) : Option (BufId × Cache) :=
  (c.bget b).bind fun (i, c) => (c.fill i b).map fun c => (i, c)

def store (i : BufId) (data : Block) : Cache := c.set i { c.buf i with data }

def bwrite (i : BufId) : Cache :=
  match (c.buf i).block with
  | some b => { c with disk := Function.update c.disk b.toNat (c.buf i).data }
  | none => c

def brelse (i : BufId) : Cache :=
  let bp := c.buf i
  let c' := c.set i { bp with locked := false, refcnt := bp.refcnt - 1 }
  if bp.refcnt - 1 = 0 then { c' with lru := i :: c.lru.erase i } else c'

def bpin (i : BufId) : Cache := c.set i { c.buf i with refcnt := (c.buf i).refcnt + 1 }

def bunpin (i : BufId) : Cache := c.set i { c.buf i with refcnt := (c.buf i).refcnt - 1 }

end Cache

/-! ### Bytes of a block -/

def setByte (data : Block) (k : Nat) (v : UInt8) : Block := fun w =>
  if w.val = k / 4 then
    (data w &&& ~~~(BitVec.ofNat 32 255 <<< (8 * (k % 4)))) |||
      (BitVec.ofNat 32 v.toNat <<< (8 * (k % 4)))
  else data w

def setBytes (data : Block) : Nat → List UInt8 → Block
  | _, [] => data
  | off, v :: vs => setBytes (setByte data off v) (off + 1) vs

/-! ### Processes -/

/-- Outside of operations, between `begin_op` and `end_op`, or in `commit`, with the locked buffers.
-/
inductive Phase where
  | out (held : List BufId)
  | op (held : List BufId)
  | ending
  deriving DecidableEq

/-- The next line of the process that commits. -/
inductive Stage where
  | writeLog (tail : Nat)
  | writeHead
  | install (tail : Nat)
  | clear -- log.lh.n = 0
  | writeClear -- write_head()
  | done -- log.committing = 0

/-- `commit` is `log.committing`, with the process and its line. -/
structure State (κ : Type) where
  cache : Cache
  log : Log
  outstanding : Int
  commit : Option (κ × Stage)
  phase : κ → Phase

/-- `write` copies `len` bytes from `srcva` to byte `off` of the buffer locked last. -/
inductive Act where
  | bread (b : BitVec 32)
  | brelse
  | beginOp
  | update (data : Block)
  | write (off len : Nat) (walkaddr : Addr → Addr) (mem : Mem) (srcva : Addr)
  | endOp
  | commit

namespace State

variable {κ : Type} (s : State κ)

/-- `log_write`; `none` when it panics. -/
def logWrite (i : BufId) : Option (State κ) :=
  match (s.cache.buf i).block with
  | none => none
  | some b =>
    if h : s.log.lh.n ≥ logSize ∨ s.log.lh.n ≥ s.log.size - 1 then none
    else if s.outstanding < 1 then none
    else some
      { s with
        cache := if s.log.lh.slot b = s.log.lh.n then s.cache.bpin i else s.cache
        log := { s.log with
          lh := s.log.lh.record b (Nat.not_le.mp fun hle => h (Or.inl hle)) } }

def store (i : BufId) (data : Block) : State κ := { s with cache := s.cache.store i data }

/-- One round of the loop of `writei`: when `copyin` fails, the buffer is not given to
`log_write`. -/
def write (i : BufId) (off len : Nat) (walkaddr : Addr → Addr) (mem : Mem) (srcva : Addr) :
    Option (State κ) :=
  let (ok, bytes) := copyin walkaddr mem srcva len
  let s' := s.store i (setBytes (s.cache.buf i).data off bytes)
  if ok then s'.logWrite i else some s'

def logBlock (tail : Nat) : BitVec 32 := BitVec.ofNat 32 (s.log.start + tail + 1)

def writeLog (tail : Nat) : Option Cache := do
  let (dst, c) ← s.cache.bread (s.logBlock tail)
  let (src, c) ← c.bread (s.log.lh.block tail)
  let c := (c.store dst (c.buf src).data).bwrite dst
  return (c.brelse src).brelse dst

def install (tail : Nat) : Option Cache := do
  let (lbuf, c) ← s.cache.bread (s.logBlock tail)
  let (dbuf, c) ← c.bread (s.log.lh.block tail)
  let c := (c.store dbuf (c.buf lbuf).data).bwrite dbuf
  let c := c.bunpin dbuf
  return (c.brelse lbuf).brelse dbuf

def writeHead : Option Cache := do
  let (i, c) ← s.cache.bread (BitVec.ofNat 32 s.log.start)
  let c := (c.store i (s.log.lh.store (c.buf i).data)).bwrite i
  return c.brelse i

variable [DecidableEq κ]

def setPhase (t : κ) (ph : Phase) : State κ := { s with phase := Function.update s.phase t ph }

def setStage (t : κ) (cache : Cache) (stage : Stage) : State κ :=
  { s with cache, commit := some (t, stage) }

def commitStep (t : κ) : Stage → Option (State κ)
  | .writeLog tail =>
    if tail < s.log.lh.n then (s.writeLog tail).map fun c => s.setStage t c (.writeLog (tail + 1))
    else some (s.setStage t s.cache .writeHead)
  | .writeHead => s.writeHead.map fun c => s.setStage t c (.install 0)
  | .install tail =>
    if tail < s.log.lh.n then (s.install tail).map fun c => s.setStage t c (.install (tail + 1))
    else some (s.setStage t s.cache .clear)
  | .clear => some { s.setStage t s.cache .writeClear with log.lh := s.log.lh.clear }
  | .writeClear => s.writeHead.map fun c => s.setStage t c .done
  | .done => some { s.setPhase t (.out []) with commit := none }

def endOp (t : κ) : Option (State κ) :=
  if s.commit.isSome then none -- panic("log.committing")
  else if s.outstanding - 1 = 0 then
    let stage := if s.log.lh.n > 0 then .writeLog 0 else .done
    some
      { s.setPhase t .ending with
        outstanding := s.outstanding - 1
        commit := some (t, stage) }
  else some { s.setPhase t (.out []) with outstanding := s.outstanding - 1 }

def admits : Bool := s.commit.isNone ∧ s.log.lh.n + (s.outstanding + 1) * maxOpBlocks ≤ logSize

def step (t : κ) (a : Act) : Option (State κ) :=
  match s.phase t, a with
  | .out held, .bread b =>
    (s.cache.bread b).map fun (i, cache) => { s.setPhase t (.out (i :: held)) with cache }
  | .op held, .bread b =>
    (s.cache.bread b).map fun (i, cache) => { s.setPhase t (.op (i :: held)) with cache }
  | .out (i :: held), .brelse => some { s.setPhase t (.out held) with cache := s.cache.brelse i }
  | .op (i :: held), .brelse => some { s.setPhase t (.op held) with cache := s.cache.brelse i }
  | .out [], .beginOp =>
    if s.admits then some { s.setPhase t (.op []) with outstanding := s.outstanding + 1 } else none
  | .op (i :: _), .update data => (s.store i data).logWrite i
  | .op (i :: _), .write off len walkaddr mem srcva =>
    if off + len ≤ bsize then s.write i off len walkaddr mem srcva else none
  | .op [], .endOp => s.endOp t
  | .ending, .commit =>
    match s.commit with
    | some (t', stage) => if t' = t then s.commitStep t stage else none
    | none => none
  | _, _ => none

end State

def fsMachine (κ : Type) [DecidableEq κ] : Machine (State κ) (κ × Act) where
  step s a := s.step a.1 a.2

variable {κ : Type}

/-- After `initlog`: no system call has begun, and the buffers that have been read agree with the
disk. -/
structure Start (s : State κ) : Prop where
  lru : ∀ i, i ∈ s.cache.lru
  unused : ∀ i, (s.cache.buf i).locked = false
  unique : ∀ i j b, (s.cache.buf i).block = some b → (s.cache.buf j).block = some b → i = j
  coherent : ∀ i b, (s.cache.buf i).block = some b → (s.cache.buf i).valid = true →
    (s.cache.buf i).data = s.cache.disk b.toNat
  n : s.log.lh.n = 0
  commit : s.commit = none
  phase : ∀ t, s.phase t = .out []

/-- A `copyin` of `writei` that fails does so at its first page. -/
def Whole (_ : State κ) (a : κ × Act) : Prop :=
  match a.2 with
  | .write _ len walkaddr mem srcva =>
    (copyin walkaddr mem srcva len).1 = true ∨ (copyin walkaddr mem srcva len).2 = []
  | _ => True

instance (s : State κ) (a : κ × Act) : Decidable (Whole s a) :=
  match a with
  | (_, .write _ len walkaddr mem srcva) =>
    inferInstanceAs (Decidable ((copyin walkaddr mem srcva len).1 = true ∨
      (copyin walkaddr mem srcva len).2 = []))
  | (_, .bread _) | (_, .brelse) | (_, .beginOp) | (_, .update _) | (_, .endOp) | (_, .commit) =>
    isTrue trivial

/-- **Cache coherence**: for the blocks that are not in the log, buffers and reads agree with the
disk. -/
structure CacheOk (s : State κ) : Prop where
  coherent : ∀ i b, (s.cache.buf i).block = some b → (s.cache.buf i).valid = true →
    b ∉ s.log.lh.blocks → (s.cache.buf i).data = s.cache.disk b.toNat
  read : ∀ b i c, b ∉ s.log.lh.blocks → s.cache.bread b = some (i, c) →
    (c.buf i).data = s.cache.disk b.toNat

end Xv6.Bcache
