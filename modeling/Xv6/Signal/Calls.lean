import Xv6.Signal.Action
import Xv6.Signal.Inherit

/-!
# The system calls that reach the handlers of signals

All processes, with every call that stores to `p->signalHandlers` or that runs while they are there:
`fork` (with `allocproc`), `exit`, `wait` and `kill` are those of `Kill`, `sigaction` that of
`Action`, `exec` that of `Inherit`.  A call of `handling_signals` is one step.
-/

namespace Xv6.Signal

open Lib

inductive SignalAct where
  | slot (op : SlotOp)
  | sigaction (i : Fin nproc) (signum : Int) (act oldact : Addr)
  | sigprocmask (i : Fin nproc) (sigmask : BitVec 32)
  | exec (i : Fin nproc) (j : Fin nthread) (image : Image)
  | pass (i : Fin nproc) (j : Fin nthread) (yields : List Kills)
  | sigret (i : Fin nproc) (j : Fin nthread)

def Slots.setKernel (s : Slots) (k : Kernel) : Slots := { s with kernel := k }

def signalMachine (code : SigretCode) : Machine Slots SignalAct where
  step s a :=
    match a with
    | .slot op => slotsMachine.step s op
    | .sigaction i signum act oldact =>
      (sigaction ⟨s.kernel, fun _ => false, ⟨0, true, true⟩⟩ i signum act oldact).map fun r =>
        s.setKernel r.2.kernel
    | .sigprocmask i sigmask =>
      some (s.setKernel (s.kernel.setProc i { s.kernel.proc i with signalMask := sigmask }))
    | .exec i j image => some (s.setKernel (exec s.kernel i j image))
    | .pass i j yields => (handlingSignals code i j yields s.kernel).map s.setKernel
    | .sigret i j => some (s.setKernel (sigret s.kernel i j))

/-- As the kernel starts: the table is zeroed, and `allocproc` has set up the first process. -/
def NoHandlers (s : Slots) : Prop := ∀ i d, (s.kernel.proc i).signalHandlers d = sigDfl

end Xv6.Signal
