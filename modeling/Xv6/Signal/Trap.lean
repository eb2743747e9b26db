import Xv6.Signal.Due

/-!
# Traps and system calls around a signal handler

The way from user space into the kernel and back (`kernel/trampoline.S`, `kernel/trap.c`,
`kernel/syscall.c`): `uservec` saves the user registers in the trapframe, `usertrap` handles the
trap, `usertrapret` calls `handling_signals` and `userret` loads the registers again.

A user handler is a list of events: user code, timer interrupts and system calls.  What a system
call, or another thread that runs meanwhile, does to the rest of the system is an `Effect`.
-/

namespace Xv6.Signal

structure UserCpu where
  pc : BitVec 64
  regs : Regs

/-- `r_satp()`, `r_tp()`, and the address of `usertrap`. -/
structure Hart where
  satp : BitVec 64
  tp : BitVec 64
  usertrap : BitVec 64

def Kernel.trapframe (k : Kernel) (i : Fin nproc) (j : Fin nthread) : Trapframe :=
  ((k.proc i).threads j).trapframe

def Kernel.setTrapframe (k : Kernel) (i : Fin nproc) (j : Fin nthread) (tf : Trapframe) : Kernel :=
  k.setProc i ((k.proc i).setThread j { (k.proc i).threads j with trapframe := tf })

def uservec (k : Kernel) (i : Fin nproc) (j : Fin nthread) (regs : Regs) : Kernel :=
  k.setTrapframe i j { k.trapframe i j with toRegs := regs }

def userret (k : Kernel) (i : Fin nproc) (j : Fin nthread) : UserCpu :=
  ⟨(k.trapframe i j).epc, (k.trapframe i j).toRegs⟩

def usertrapret (code : SigretCode) (hart : Hart) (i : Fin nproc) (j : Fin nthread)
    (yields : List Kills) (k : Kernel) : Option (Kernel × UserCpu) :=
  (handlingSignals code i j yields k).map fun k =>
    let k := k.setTrapframe i j
      { k.trapframe i j with
        kernelSatp := hart.satp
        kernelSp := ((k.proc i).threads j).kstack + BitVec.ofNat 64 pgsize
        kernelTrap := hart.usertrap
        kernelHartid := hart.tp }
    (k, userret k i j)

/-! ### The rest of the system -/

/-- What a system call other than `exec`, `exit` and `sigret` or other threads may change: other
processes and threads, the address space, the mask and the handlers, memory, and `killed`. No signal
is sent. -/
structure Effect where
  others : Fin nproc → Proc
  siblings : Fin nthread → Thread
  state : ProcState
  killed : Bool
  walkaddr : Addr → Addr
  signalMask : BitVec 32
  signalHandlers : Sig → BitVec 64
  maskHandlers : Sig → BitVec 32
  mem : Mem
  -- the result of a system call
  result : BitVec 64

def Effect.apply (e : Effect) (i : Fin nproc) (j : Fin nthread) (k : Kernel) : Kernel where
  proc := Function.update e.others i
    { k.proc i with
      state := e.state
      killed := e.killed
      threads := Function.update e.siblings j ((k.proc i).threads j)
      walkaddr := e.walkaddr
      signalMask := e.signalMask
      signalHandlers := e.signalHandlers
      maskHandlers := e.maskHandlers }
  mem := e.mem

/-! ### `usertrap` and `syscall` -/

def sysExit : Int := 2
def sysExec : Int := 7
def sysSigret : Int := 24
def nelemSyscalls : Int := 33

/-- `int num = t->trapframe->a7`. -/
def syscallNum (regs : Regs) : Int := (regs.a7.setWidth 32).toInt

/-- `t->trapframe->epc = pc`. -/
def setEpc (k : Kernel) (i : Fin nproc) (j : Fin nthread) (pc : BitVec 64) : Kernel :=
  k.setTrapframe i j { k.trapframe i j with epc := pc }

def setA0 (k : Kernel) (i : Fin nproc) (j : Fin nthread) (r : BitVec 64) : Kernel :=
  k.setTrapframe i j ((k.trapframe i j).setA0 r)

def sysSigretCall (k : Kernel) (i : Fin nproc) (j : Fin nthread) : Kernel × BitVec 64 :=
  (sigret k i j, 0)

def syscall (e : Effect) (i : Fin nproc) (j : Fin nthread) (k : Kernel) : Kernel :=
  let num := syscallNum (k.trapframe i j).toRegs
  if num > 0 ∧ num < nelemSyscalls then
    if num = sysSigret then
      let (k, r) := sysSigretCall k i j
      setA0 k i j r
    else setA0 (e.apply i j k) i j e.result
  else setA0 k i j (-1)

/-- `none` when the thread exits. -/
def usertrapEcall (e : Effect) (i : Fin nproc) (j : Fin nthread) (sepc : BitVec 64) (k : Kernel) :
    Option Kernel :=
  let k := setEpc k i j sepc
  if (k.proc i).killed then none
  else
    let k := setEpc k i j ((k.trapframe i j).epc + 4)
    let k := syscall e i j k
    if (k.proc i).killed then none else some k

/-- `e` is what happens during the `yield`. -/
def usertrapTimer (e : Effect) (i : Fin nproc) (j : Fin nthread) (sepc : BitVec 64) (k : Kernel) :
    Option Kernel :=
  let k := setEpc k i j sepc
  if (k.proc i).killed then none else some (e.apply i j k)

def ecall (code : SigretCode) (hart : Hart) (e : Effect) (i : Fin nproc) (j : Fin nthread)
    (yields : List Kills) (s : Kernel × UserCpu) : Option (Kernel × UserCpu) :=
  (usertrapEcall e i j s.2.pc (uservec s.1 i j s.2.regs)).bind
    (usertrapret code hart i j yields)

def timer (code : SigretCode) (hart : Hart) (e : Effect) (i : Fin nproc) (j : Fin nthread)
    (yields : List Kills) (s : Kernel × UserCpu) : Option (Kernel × UserCpu) :=
  (usertrapTimer e i j s.2.pc (uservec s.1 i j s.2.regs)).bind
    (usertrapret code hart i j yields)

/-! ### A handler -/

inductive HandlerEvent where
  -- user code changes the registers and the memory of the process
  | user (cpu : UserCpu) (mem : Mem)
  | timer (hart : Hart) (e : Effect)
  | ecall (hart : Hart) (e : Effect)

/-- `none` when the thread does not return to user space, and for `exec`, `exit` and `sigret`. -/
def handlerStep (code : SigretCode) (i : Fin nproc) (j : Fin nthread) (s : Kernel × UserCpu) :
    HandlerEvent → Option (Kernel × UserCpu)
  | .user cpu mem => some ({ s.1 with mem := mem }, cpu)
  | .timer hart e => timer code hart e i j [] s
  | .ecall hart e =>
    if syscallNum s.2.regs = sysExec ∨ syscallNum s.2.regs = sysExit ∨
        syscallNum s.2.regs = sysSigret then none
    else ecall code hart e i j [] s

def handlerRun (code : SigretCode) (i : Fin nproc) (j : Fin nthread) :
    List HandlerEvent → Kernel × UserCpu → Option (Kernel × UserCpu)
  | [], s => some s
  | ev :: evs, s => (handlerStep code i j s ev).bind (handlerRun code i j evs)

/-- Under the mask `m` a signal with a user handler is due, other than the `SIGCONT` that a stopped
process consumes first. -/
def DueUnder (k : Kernel) (i : Fin nproc) (m : BitVec 32) : Prop :=
  ∃ s, UserDue k i (fun _ => m) s ∧ ¬ (s = sigcont ∧ (k.proc i).stopped ∧ ¬ Blocks m sigstop)

instance (k : Kernel) (i : Fin nproc) (m : BitVec 32) : Decidable (DueUnder k i m) :=
  inferInstanceAs (Decidable (∃ s, UserDue k i (fun _ => m) s ∧
    ¬ (s = sigcont ∧ (k.proc i).stopped ∧ ¬ Blocks m sigstop)))

end Xv6.Signal
