import Xv6.Sem.Bsem
import Xv6.Signal.Due

/-!
# The loops in which a thread waits

A thread that works for a user program waits for a `SIGCONT` in `handling_signals`, and in
`bsem_down`, `wait`, `sys_sleep`, `piperead`, `pipewrite` and `consoleread`. Each function here is
the code from the condition of the loop up to where the function returns or the thread gives up the
CPU (`Turn`). The lock of the loop is held all this time; `handling_signals` has none.

Results of `copyin` and `copyout` are functions of the position.
-/

namespace Xv6.Signal

/-- The function returns `r`, or the thread sleeps or yields and evaluates the loop again. -/
inductive Turn (ρ : Type*) where
  | leave (r : ρ)
  | again

def Turn.leaves {ρ : Type*} : Turn ρ → Bool
  | .leave _ => true
  | .again => false

/-- The loop of a stopped process in `handling_signals`. -/
def pollCont (p : Proc) : Turn Proc :=
  if p.pendingSignals &&& bit sigcont ≠ 0 then
    .leave { p with stopped := false, pendingSignals := p.pendingSignals ^^^ bit sigcont }
  else .again

def bsemDownLoop (t : Bsems) (i : Fin maxBsem) : Turn Bsems :=
  match t.bsemDown i with
  | some t' => .leave t'
  | none => .again

/-- What `wait` reads of a process. -/
structure Child where
  parent : Option (Fin nproc)
  state : ProcState
  pid : Int

/-- `copyFails` when the exit status cannot be copied out. -/
def waitLoop (np : Fin nproc → Child) (i : Fin nproc) (copyFails killed : Bool) : Turn Int :=
  match (List.finRange nproc).find? fun k => (np k).parent = some i ∧ (np k).state = .zombie with
  | some k => .leave (if copyFails then -1 else (np k).pid)
  | none =>
    -- if(!havekids || p->killed)
    if (∀ k, (np k).parent ≠ some i) ∨ killed then .leave (-1) else .again

/-- `sys_sleep`; the comparison is unsigned. -/
def sysSleepLoop (ticks ticks0 n : BitVec 32) (killed : Bool) : Turn Int :=
  if ticks - ticks0 < n then
    if killed then .leave (-1) else .again
  else .leave 0

/-! ### Pipes -/

def pipesize : Nat := 512

structure Pipe where
  data : Nat → UInt8
  nread : BitVec 32
  nwrite : BitVec 32
  readopen : Bool
  writeopen : Bool

/-- The bytes that `piperead` copies, from position `i` on; `rest` are left to be copied. -/
def pipereadCopy (copyout : Nat → UInt8 → Bool) : Nat → Nat → Pipe → Int × Pipe
  | 0, i, pi => (i, pi)
  | rest + 1, i, pi =>
    if pi.nread = pi.nwrite then (i, pi)
    else
      let ch := pi.data (pi.nread.toNat % pipesize)
      let pi := { pi with nread := pi.nread + 1 }
      if copyout i ch then pipereadCopy copyout rest (i + 1) pi else (i, pi)

def pipereadLoop (copyout : Nat → UInt8 → Bool) (n : Nat) (pi : Pipe) (killed : Bool) :
    Turn (Int × Pipe) :=
  if pi.nread = pi.nwrite ∧ pi.writeopen then
    if killed then .leave (-1, pi) else .again
  else .leave (pipereadCopy copyout n 0 pi)

/-- `pipewrite`, from position `i` on; `rest` bytes are left to be written. -/
def pipewriteLoop (copyin : Nat → Option UInt8) (killed : Bool) :
    Nat → Nat → Pipe → Turn (Int × Pipe)
  | 0, i, pi => .leave (i, pi)
  | rest + 1, i, pi =>
    if pi.readopen = false ∨ killed then .leave (-1, pi)
    else if pi.nwrite = pi.nread + BitVec.ofNat 32 pipesize then .again
    else
      match copyin i with
      | none => .leave (i, pi)
      | some ch =>
        pipewriteLoop copyin killed rest (i + 1)
          { pi with
            data := Function.update pi.data (pi.nwrite.toNat % pipesize) ch
            nwrite := pi.nwrite + 1 }

/-! ### The console -/

def inputBuf : Nat := 128

structure Cons where
  buf : Nat → UInt8
  r : BitVec 32
  w : BitVec 32

/-- `C('D')`. -/
def ctrlD : UInt8 := 4

/-- `consoleread` of `target` bytes, of which `n` are left to be copied. -/
def consolereadLoop (copyout : Nat → UInt8 → Bool) (killed : Bool) (target : Nat) :
    Nat → Cons → Turn (Int × Cons)
  | 0, cons => .leave (target, cons)
  | n + 1, cons =>
    if cons.r = cons.w then
      if killed then .leave (-1, cons) else .again
    else
      let c := cons.buf (cons.r.toNat % inputBuf)
      let next := { cons with r := cons.r + 1 }
      if c = ctrlD then
        -- the end-of-file stays for the next call if there is something to return
        if n + 1 < target then .leave (target - (n + 1), cons) else .leave (target - (n + 1), next)
      else if copyout (target - (n + 1)) c = false then .leave (target - (n + 1), next)
      else if c = '\n'.toUInt8 then .leave (target - n, next)
      else consolereadLoop copyout killed target n next

/-! ### All of them -/

/-- A wait loop, with the data that it reads beside its own process. -/
inductive WaitLoop where
  | handlingSignals
  | bsemDown (t : Bsems) (i : Fin maxBsem)
  | wait (np : Fin nproc → Child) (i : Fin nproc) (copyFails : Bool)
  | sysSleep (ticks ticks0 n : BitVec 32)
  | piperead (copyout : Nat → UInt8 → Bool) (n : Nat) (pi : Pipe)
  | pipewrite (copyin : Nat → Option UInt8) (rest i : Nat) (pi : Pipe)
  | consoleread (copyout : Nat → UInt8 → Bool) (target n : Nat) (cons : Cons)

def WaitLoop.leaves (p : Proc) : WaitLoop → Bool
  | .handlingSignals => (pollCont p).leaves
  | .bsemDown t i => (bsemDownLoop t i).leaves
  | .wait np i copyFails => (waitLoop np i copyFails p.killed).leaves
  | .sysSleep ticks ticks0 n => (sysSleepLoop ticks ticks0 n p.killed).leaves
  | .piperead copyout n pi => (pipereadLoop copyout n pi p.killed).leaves
  | .pipewrite copyin rest i pi => (pipewriteLoop copyin p.killed rest i pi).leaves
  | .consoleread copyout target n cons =>
    (consolereadLoop copyout p.killed target n cons).leaves

end Xv6.Signal
