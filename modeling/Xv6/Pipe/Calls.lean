import Xv6.Sleep.Code

/-!
# Pipes (`kernel/pipe.c`)

`pipewrite`, `piperead`, `pipeclose` and `kill` as the program of any number of threads that share a
pipe: they sleep on `&pi->nread` and `&pi->nwrite` with `pi->lock`. `nread` and `nwrite` are `uint`
and wrap around. What `copyin` and `copyout` return is an input. A call on a freed pipe has no
successor.

Not in the code are `put` and `taken`, the bytes written to the buffer and read from it in this
order, and the last argument of the points of `pipewrite`: whether the call has put a byte into the
buffer since it acquired the lock.
-/

namespace Xv6.Pipes

open Lib Sleep

def pipesize : Nat := 512

/-- `struct pipe`, with `killed` of the processes and what was put and taken. -/
structure Pipe where
  data : Fin pipesize → UInt8
  nread : BitVec 32
  nwrite : BitVec 32
  readopen : Bool
  writeopen : Bool
  freed : Bool
  killed : Fin nproc → Bool
  put : List UInt8
  taken : List UInt8

/-- The entry of `data` with index `c % PIPESIZE`. -/
def slot (c : BitVec 32) : Fin pipesize := ⟨c.toNat % pipesize, Nat.mod_lt _ (by decide)⟩

namespace Pipe

variable (v : Pipe)

def Empty : Prop := v.nread = v.nwrite

/-- `nwrite == nread + PIPESIZE`. -/
def Full : Prop := v.nwrite = v.nread + BitVec.ofNat 32 pipesize

instance : Decidable v.Empty := inferInstanceAs (Decidable (_ = _))
instance : Decidable v.Full := inferInstanceAs (Decidable (_ = _))

/-- `pi->data[pi->nwrite++ % PIPESIZE] = ch`. -/
def write (ch : UInt8) : Pipe :=
  { v with
    data := Function.update v.data (slot v.nwrite) ch
    nwrite := v.nwrite + 1
    put := v.put ++ [ch] }

/-- `ch = pi->data[pi->nread++ % PIPESIZE]`. -/
def read : Pipe :=
  { v with
    nread := v.nread + 1
    taken := v.taken ++ [v.data (slot v.nread)] }

def close (writable : Bool) : Pipe :=
  if writable then { v with writeopen := false } else { v with readopen := false }

def free : Pipe := { v with freed := true }

def kill : Option (Fin nproc) → Pipe
  | some k => { v with killed := Function.update v.killed k true }
  | none => v

end Pipe

/-- The next line of a thread of process `pr`. -/
inductive Point where
  | user (pr : Fin nproc)
  -- pipewrite
  | write (pr : Fin nproc) (n : Int) -- acquire(&pi->lock)
  | writeTest (pr : Fin nproc) (i : Nat) (n : Int) (fresh : Bool) -- while(i < n)
  | writeFull (pr : Fin nproc) (i : Nat) (n : Int) (fresh : Bool) -- if(nwrite == nread + PIPESIZE)
  | writeSleep (pr : Fin nproc) (i : Nat) (n : Int) -- sleep(&pi->nwrite, &pi->lock)
  | writeCopy (pr : Fin nproc) (i : Nat) (n : Int) (fresh : Bool) -- copyin(pr->pagetable, &ch, ..)
  -- piperead
  | read (pr : Fin nproc) (n : Int) -- acquire(&pi->lock)
  | readTest (pr : Fin nproc) (n : Int) -- while(nread == nwrite && ..)
  | readLoop (pr : Fin nproc) (i : Nat) (n : Int) -- for(; i < n; )
  | readCopy (pr : Fin nproc) (i : Nat) (n : Int) -- copyout(pr->pagetable, ..)
  | unlock (pr : Fin nproc) -- release(&pi->lock)
  -- pipeclose
  | close (pr : Fin nproc) (writable : Bool) -- acquire(&pi->lock)
  | closeSet (pr : Fin nproc) (writable : Bool) -- pi->writeopen = 0
  | closeWake (pr : Fin nproc) (writable : Bool) -- wakeup(&pi->nread)
  | closeTest (pr : Fin nproc) -- release(&pi->lock)
  | closeFree (pr : Fin nproc) -- kfree((char*)pi)
  -- kill
  | kill (pr : Fin nproc) (k : Option (Fin nproc)) -- wake its threads up
  deriving DecidableEq

inductive Call where
  | write (n : Int)
  | read (n : Int)
  | close (writable : Bool)
  | kill (k : Option (Fin nproc)) -- kill(pid, SIGKILL)
  deriving DecidableEq

inductive Input where
  | next
  | call (c : Call)
  | copyin (ch : Option UInt8)
  | copyout (ok : Bool)
  deriving DecidableEq

inductive Cond where
  | data
  | room
  deriving DecidableEq

def pipeLock : Nat := 0

/-- `&pi->nread` and `&pi->nwrite`. -/
def Cond.chan : Cond → Nat
  | .data => 0
  | .room => 1

/-- `piperead` waits for data or the end of it, `pipewrite` for room or the end of the readers. -/
def Cond.holds (v : Pipe) : Cond → Bool
  | .data => ¬ v.Empty ∨ v.writeopen = false
  | .room => ¬ v.Full ∨ v.readopen = false

def Call.op (v : Pipe) (pr : Fin nproc) : Call → Op Pipe Point Cond
  | .write n => .store v (.write pr n)
  | .read n => .store v (.read pr n)
  | .close writable => .store v (.close pr writable)
  | .kill k => .store (v.kill k) (.kill pr k)

def Point.op (v : Pipe) : Point → Input → Option (Op Pipe Point Cond)
  | .user pr, .call c => some (c.op v pr)
  | .write pr n, .next => some (.acquire pipeLock (.writeTest pr 0 n false))
  | .writeTest pr i n fresh, .next =>
    if i < n then
      if v.readopen = false ∨ v.killed pr = true then some (.release pipeLock (.user pr))
      else some (.store v (.writeFull pr i n fresh))
    else some (.wake (.chan Cond.data.chan) (.unlock pr))
  | .writeFull pr i n fresh, .next =>
    if v.Full then some (.wake (.chan Cond.data.chan) (.writeSleep pr i n))
    else some (.store v (.writeCopy pr i n fresh))
  | .writeSleep pr i n, .next => some (.sleep .room (.writeTest pr i n false))
  | .writeCopy pr i n _, .copyin (some ch) => some (.store (v.write ch) (.writeTest pr (i + 1) n true))
  | .writeCopy pr _ _ _, .copyin none => some (.wake (.chan Cond.data.chan) (.unlock pr))
  | .read pr n, .next => some (.acquire pipeLock (.readTest pr n))
  | .readTest pr n, .next =>
    if v.Empty ∧ v.writeopen = true then
      if v.killed pr = true then some (.release pipeLock (.user pr))
      else some (.sleep .data (.readTest pr n))
    else some (.store v (.readLoop pr 0 n))
  | .readLoop pr i n, .next =>
    if i < n ∧ ¬ v.Empty then some (.store v.read (.readCopy pr i n))
    else some (.wake (.chan Cond.room.chan) (.unlock pr))
  | .readCopy pr i n, .copyout true => some (.store v (.readLoop pr (i + 1) n))
  | .readCopy pr _ _, .copyout false => some (.wake (.chan Cond.room.chan) (.unlock pr))
  | .unlock pr, .next => some (.release pipeLock (.user pr))
  | .close pr writable, .next => some (.acquire pipeLock (.closeSet pr writable))
  | .closeSet pr writable, .next => some (.store (v.close writable) (.closeWake pr writable))
  | .closeWake pr true, .next => some (.wake (.chan Cond.data.chan) (.closeTest pr))
  | .closeWake pr false, .next => some (.wake (.chan Cond.room.chan) (.closeTest pr))
  | .closeTest pr, .next =>
    if v.readopen = false ∧ v.writeopen = false then some (.release pipeLock (.closeFree pr))
    else some (.release pipeLock (.user pr))
  | .closeFree pr, .next => some (.store v.free (.user pr))
  | .kill pr k, .next => some (.wake (.kill k) (.user pr))
  | _, _ => none

def pipeProgram : Program Pipe Point Cond Input where
  lock _ := pipeLock
  chan := Cond.chan
  cond i v := i.holds v
  op v p ch := if v.freed = true then none else p.op v ch
  intr _ := none

abbrev State (κ : Type) := Sleep.State κ Pipe Point Cond

variable {κ : Type}

/-- No thread has run yet, all are in user space, and the pipe is as `pipealloc` has left it. -/
structure Start (s : State κ) : Prop where
  start : Sleep.Start s
  user : ∀ x, s.data.context x = .forkret (.user x.1)
  nread : s.data.data.nread = 0
  nwrite : s.data.data.nwrite = 0
  readopen : s.data.data.readopen = true
  writeopen : s.data.data.writeopen = true
  put : s.data.data.put = []
  taken : s.data.data.taken = []

/-! ### Order of the bytes, and wakeups -/

/-- **First in, first out**: at most `PIPESIZE` bytes are in the buffer, those put and not yet
taken, and they are taken in the order in which they were put. -/
structure FifoOk (v : Pipe) : Prop where
  occupancy : (v.nwrite - v.nread).toNat ≤ pipesize
  kept : v.put.length = v.taken.length + (v.nwrite - v.nread).toNat
  order : ∀ k < v.taken.length, v.taken[k]? = v.put[k]?

/-- **No thread sleeps for nothing**: while the lock is free, `piperead` sleeps on an empty pipe
with the write end open, and `pipewrite` on a full one. -/
structure AwakeOk (s : State κ) : Prop where
  reader : ∀ x, s.owner (.other pipeLock) = none → SleepsFor pipeProgram s x .data →
    s.data.data.Empty ∧ s.data.data.writeopen = true
  writer : ∀ x, s.owner (.other pipeLock) = none → SleepsFor pipeProgram s x .room → s.data.data.Full

/-- A thread is about to test `pr->killed` in `pipewrite`, and has put a byte there since it
acquired the lock. -/
def testsFresh (l : Loc Point Cond) : Option (Fin nproc) :=
  match l with
  | .run _ (.code (.out _ (.writeTest pr i n true))) => if i < n then some pr else none
  | _ => none

/-- `pipewrite` does not find its process killed when it has put a byte and has not slept since. -/
def Spared (s : State κ) (a : κ × Choice Input) : Prop :=
  ∀ pr ∈ testsFresh (s.loc a.1), s.data.data.killed pr = false

instance (s : State κ) (a : κ × Choice Input) : Decidable (Spared s a) :=
  Option.decidableForallMem _

end Xv6.Pipes
