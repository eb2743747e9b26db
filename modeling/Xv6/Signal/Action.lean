import Xv6.Lib.Bytes
import Xv6.Signal.Proc
import Xv6.Vm.Equiv.Copy

/-!
# `sigaction` (`kernel/proc.c`)

The call copies the registered action to the user and a new one from the user with `p->lock`.  The
locks that this CPU holds and the nesting of `push_off` are part of the state.

A structure `struct sigaction` has its handler at offset 0 and its mask at offset 8, and 16 bytes.
-/

namespace Xv6.Signal

open Lib Function

/-! ### Spinlocks (`kernel/spinlock.c`) -/

/-- `struct cpu`, and whether interrupts are enabled. -/
structure Cpu where
  noff : Int
  intena : Bool
  intr : Bool
  deriving DecidableEq

structure Call where
  kernel : Kernel
  holding : Fin nproc → Bool
  cpu : Cpu

namespace Cpu

def pushOff (c : Cpu) : Cpu where
  noff := c.noff + 1
  intena := if c.noff = 0 then c.intr else c.intena
  intr := false

/-- `none` is a panic. -/
def popOff (c : Cpu) : Option Cpu :=
  if c.intr ∨ c.noff < 1 then none
  else some { c with noff := c.noff - 1, intr := decide (c.noff - 1 = 0) && c.intena }

/-- Interrupts are off while a `push_off` is not undone. -/
structure Ok (c : Cpu) : Prop where
  nonneg : 0 ≤ c.noff
  off : 0 < c.noff → c.intr = false

end Cpu

namespace Call

variable (w : Call) (i : Fin nproc)

def proc : Proc := w.kernel.proc i

/-- `acquire(&p->lock)`; `none` is a panic. -/
def acquire : Option Call :=
  if w.holding i then none
  else some { w with holding := update w.holding i true, cpu := w.cpu.pushOff }

/-- `release(&p->lock)`; `none` is a panic. -/
def release : Option Call :=
  if w.holding i then
    w.cpu.popOff.map fun cpu => { w with holding := update w.holding i false, cpu }
  else none

def copyout (dstva : Addr) (src : List UInt8) : Bool × Call :=
  let (ok, mem) := Xv6.copyout (w.proc i).walkaddr w.kernel.mem dstva src
  (ok, { w with kernel := { w.kernel with mem } })

def register (signum : Sig) (handler : BitVec 64) (mask : BitVec 32) : Call :=
  { w with
    kernel := w.kernel.setProc i
      { w.proc i with
        signalHandlers := update (w.proc i).signalHandlers signum handler
        maskHandlers := update (w.proc i).maskHandlers signum mask } }

end Call

/-! ### The call -/

/-- `sizeof(8)`, that of an `int`. -/
def sizeofInt : Nat := 4

/-- `sizeof(struct sigaction)`. -/
def sizeofAction : Nat := 16

/-- The handler and the mask of the 16 bytes of a structure. -/
def actionOf (bytes : List UInt8) : BitVec 64 × BitVec 32 :=
  (BitVec.ofNat 64 (ofBytes (bytes.take 8)), BitVec.ofNat 32 (ofBytes ((bytes.drop 8).take 4)))

/-- Copy the registered action to `oldact`; `false` when one of the copies fails. -/
def saveAction (w : Call) (i : Fin nproc) (signum : Sig) (oldact : Addr) : Bool × Call :=
  let handler := toBytes 8 ((w.proc i).signalHandlers signum).toNat
  let mask := toBytes 4 ((w.proc i).maskHandlers signum).toNat
  let (ok, w₁) := w.copyout i oldact (handler.take sizeofInt)
  if ok then w₁.copyout i (oldact + 8) mask else (false, w₁)

/-- Register the action at `act`; `false` when the copy fails. -/
def loadAction (w : Call) (i : Fin nproc) (signum : Sig) (act : Addr) : Bool × Call :=
  let (ok, bytes) := copyin (w.proc i).walkaddr w.kernel.mem act sizeofAction
  -- newSig.sigmask < 0 is never true of an unsigned int
  if ok then (true, w.register i signum (actionOf bytes).1 (actionOf bytes).2) else (false, w)

/-- `sigaction(signum, act, oldact)` by process `i`; `none` is a panic. -/
def sigaction (w : Call) (i : Fin nproc) (signum : Int) (act oldact : Addr) :
    Option (Int × Call) :=
  if h : 0 ≤ signum ∧ signum < signalsSize then
    let sig : Sig := ⟨signum.toNat, by omega⟩
    if sig = sigstop ∨ sig = sigkill then some (-1, w)
    else do
      let w ← w.acquire i
      let (saved, w) := if oldact = 0 then (true, w) else saveAction w i sig oldact
      if saved then
        let (loaded, w) := if act = 0 then (true, w) else loadAction w i sig act
        if loaded then
          let w ← w.release i
          some (0, w)
        else some (-1, w)
      else some (-1, w)
  else some (-1, w)

/-! ### What is expected of it -/

/-- **Clean returns**: the lock and the interrupts are as before, and a call that fails has changed
no handler and no mask. -/
structure ActionOk (w w' : Call) (i : Fin nproc) (r : Int) : Prop where
  holding : w'.holding = w.holding
  noff : w'.cpu.noff = w.cpu.noff
  intr : w'.cpu.intr = w.cpu.intr
  handlers : r = -1 → ∀ l, (w'.proc l).signalHandlers = (w.proc l).signalHandlers
  masks : r = -1 → ∀ l, (w'.proc l).maskHandlers = (w.proc l).maskHandlers

/-- The condition: the pointers are null, or the bytes that the call copies are mapped. -/
structure Copyable (w : Call) (i : Fin nproc) (act oldact : Addr) : Prop where
  oldact : oldact ≠ 0 → MappedFor (w.proc i).walkaddr oldact sizeofInt ∧
    MappedFor (w.proc i).walkaddr (oldact + 8) 4
  act : act ≠ 0 → MappedFor (w.proc i).walkaddr act sizeofAction

def Call.userAction (w : Call) (i : Fin nproc) (va : Addr) : BitVec 64 × BitVec 32 :=
  actionOf (userBytes (w.proc i).walkaddr w.kernel.mem va sizeofAction)

def Call.action (w : Call) (i : Fin nproc) (sig : Sig) : BitVec 64 × BitVec 32 :=
  ((w.proc i).signalHandlers sig, (w.proc i).maskHandlers sig)

/-- The condition: the upper half of the handler is at `oldact + 4` already. -/
def UpperHalf (w : Call) (i : Fin nproc) (sig : Sig) (oldact : Addr) : Prop :=
  userBytes (w.proc i).walkaddr w.kernel.mem (oldact + 4) 4 =
    (toBytes 8 ((w.proc i).signalHandlers sig).toNat).drop sizeofInt

instance (w : Call) (i : Fin nproc) (sig : Sig) (oldact : Addr) :
    Decidable (UpperHalf w i sig oldact) := inferInstanceAs (Decidable (_ = _))

end Xv6.Signal
