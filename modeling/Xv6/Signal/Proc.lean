import Mathlib.Data.List.FinRange
import Xv6.Proc.State
import Xv6.Vm.Copy

/-!
# Processes as the signal code sees them (`kernel/proc.h`, `kernel/proc.c`)

The process table with the fields that `kill`, `handling_signals`, `usersignal`, `sigret` and the
trap code read and write.  A thread's trapframe is given by its contents.
-/

namespace Xv6

structure Regs where
  ra : BitVec 64
  sp : BitVec 64
  gp : BitVec 64
  tp : BitVec 64
  t0 : BitVec 64
  t1 : BitVec 64
  t2 : BitVec 64
  s0 : BitVec 64
  s1 : BitVec 64
  a0 : BitVec 64
  a1 : BitVec 64
  a2 : BitVec 64
  a3 : BitVec 64
  a4 : BitVec 64
  a5 : BitVec 64
  a6 : BitVec 64
  a7 : BitVec 64
  s2 : BitVec 64
  s3 : BitVec 64
  s4 : BitVec 64
  s5 : BitVec 64
  s6 : BitVec 64
  s7 : BitVec 64
  s8 : BitVec 64
  s9 : BitVec 64
  s10 : BitVec 64
  s11 : BitVec 64
  t3 : BitVec 64
  t4 : BitVec 64
  t5 : BitVec 64
  t6 : BitVec 64
  deriving Inhabited

structure Trapframe extends Regs where
  kernelSatp : BitVec 64
  kernelSp : BitVec 64
  kernelTrap : BitVec 64
  epc : BitVec 64
  kernelHartid : BitVec 64
  deriving Inhabited

namespace Trapframe

def user (tf : Trapframe) : BitVec 64 × Regs := (tf.epc, tf.toRegs)

def setA0 (tf : Trapframe) (r : BitVec 64) : Trapframe := { tf with a0 := r }

end Trapframe

namespace Signal

structure Thread where
  state : ProcState
  kstack : BitVec 64
  trapframe : Trapframe
  userTrapFrameBackup : Trapframe

abbrev Sig := Fin signalsSize

structure Proc where
  state : ProcState
  killed : Bool
  pid : Int
  threads : Fin nthread → Thread
  -- the translation of `p->pagetable`
  walkaddr : Addr → Addr
  pendingSignals : BitVec 32
  signalMask : BitVec 32
  signalHandlers : Sig → BitVec 64
  stopped : Bool
  signalMaskBackup : BitVec 32
  ignoreSignals : Bool
  maskHandlers : Sig → BitVec 32

/-- The process table and the physical memory. -/
structure Kernel where
  proc : Fin nproc → Proc
  mem : Mem

def sigDfl : BitVec 64 := 0
def sigIgn : BitVec 64 := 1
def sigkill : Sig := 9
def sigstop : Sig := 17
def sigcont : Sig := 19

def bit (sig : Nat) : BitVec 32 := 1#32 <<< sig

def Kernel.setProc (k : Kernel) (i : Fin nproc) (p : Proc) : Kernel :=
  { k with proc := Function.update k.proc i p }

def Proc.setThread (p : Proc) (j : Fin nthread) (t : Thread) : Proc :=
  { p with threads := Function.update p.threads j t }

/-! ### `kill` -/

def Proc.receive (p : Proc) (signum : Nat) : Proc :=
  let p :=
    if signum = sigkill then
      { p with
        killed := true
        state := if p.state = .sleeping then .runnable else p.state
        threads := fun j =>
          let t := p.threads j
          if t.state = .sleeping then { t with state := .runnable } else t }
    else p
  { p with pendingSignals := p.pendingSignals ||| bit signum }

/-- The first slot with this pid. -/
def Kernel.find (k : Kernel) (pid : Int) : Option (Fin nproc) :=
  (List.finRange nproc).find? fun i => (k.proc i).pid = pid

/-- `kill(pid, signum)`; `false` is the result `-1`. -/
def kill (k : Kernel) (pid signum : Int) : Bool × Kernel :=
  if signum ≥ signalsSize ∨ signum < 0 then (false, k)
  else
    match k.find pid with
    | some i => (true, k.setProc i ((k.proc i).receive signum.toNat))
    | none => (false, k)

end Signal

end Xv6
