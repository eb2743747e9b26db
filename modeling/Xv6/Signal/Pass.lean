import Xv6.Signal.Due

/-!
# What one pass does without user handlers

The effect of `handling_signals` on the whole process table, in terms of the state in which the call
is made: no default action that the loop takes is seen by another process.
-/

namespace Xv6.Signal

def Proc.Due (p : Proc) (d : Sig) : Prop := p.Pending d ∧ ¬ Blocks p.signalMask d

/-- Signal `d` is pending and not blocked, and its handler is `SIG_DFL`. -/
def Proc.DefaultDue (p : Proc) (d : Sig) : Prop := p.Due d ∧ p.signalHandlers d = sigDfl

/-- The default action is that of `SIGKILL`. -/
def Proc.KillDue (p : Proc) (d : Sig) : Prop := p.DefaultDue d ∧ d ≠ sigstop ∧ d ≠ sigcont

section

variable (p : Proc) (d : Sig)

instance : Decidable (p.Due d) := inferInstanceAs (Decidable (_ ∧ _))

instance : Decidable (p.DefaultDue d) := inferInstanceAs (Decidable (_ ∧ _))

instance : Decidable (p.KillDue d) := inferInstanceAs (Decidable (_ ∧ _))

end

/-- **The effect of a pass** of process `i` that takes default actions only. -/
structure PassOk (k k' : Kernel) (i : Fin nproc) : Prop where
  killed : (k'.proc i).killed = true ↔ (k.proc i).killed = true ∨ ∃ d, (k.proc i).KillDue d
  stopped : (k'.proc i).stopped =
    if (k.proc i).DefaultDue sigcont then false
    else if (k.proc i).DefaultDue sigstop then true
    else (k.proc i).stopped
  pending : ∀ d, d ≠ sigkill →
    ((k'.proc i).Pending d ↔ (k.proc i).Pending d ∧ ¬ (k.proc i).DefaultDue d)
  mask : (k'.proc i).signalMask = (k.proc i).signalMask
  handlers : (k'.proc i).signalHandlers = (k.proc i).signalHandlers
  maskHandlers : (k'.proc i).maskHandlers = (k.proc i).maskHandlers
  trapframe : ∀ j, ((k'.proc i).threads j).trapframe = ((k.proc i).threads j).trapframe
  others : ∀ l, l ≠ i → k'.proc l = k.proc l

/-- The process is not stopped, in no handler, does not block every signal, and has its `pid` alone.
-/
structure Ordinary (k : Kernel) (i : Fin nproc) : Prop where
  mask : (k.proc i).signalMask ≠ 0xffffffff
  stopped : (k.proc i).stopped = false
  ignore : (k.proc i).ignoreSignals = false
  pid : ∀ l, l ≠ i → (k.proc l).pid ≠ (k.proc i).pid

end Xv6.Signal
