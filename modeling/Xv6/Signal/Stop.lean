import Xv6.Signal.Due

/-!
# What a pass does to a stopped process

`handling_signals` tests `p->stopped` before its loop over the signals, which may set it again.
Whether a pass lets a stopped process go depends on what is pending when the loop starts, on the
handlers and on their masks: `front` follows the mask through the deliveries.
-/

namespace Xv6.Signal

/-- The mask that the deliveries have left, and whether a default action has made `SIGKILL` pending.
-/
structure Front where
  mask : BitVec 32
  raised : Bool

namespace Front

variable (f : Front) (k : Kernel) (i : Fin nproc) (s : Sig)

/-- The iteration for `s` finds it pending and not blocked. -/
def Finds : Prop := ((k.proc i).Pending s ∨ s = sigkill ∧ f.raised = true) ∧ ¬ Blocks f.mask s

instance : Decidable (f.Finds k i s) :=
  inferInstanceAs (Decidable (_ ∧ ¬ _))

/-- The default action for `s` is to raise `SIGKILL`. -/
def Kills : Prop := s ≠ sigstop ∧ s ≠ sigcont ∧ k.find (k.proc i).pid = some i

instance : Decidable (Kills k i s) :=
  inferInstanceAs (Decidable (_ ∧ _))

def next : Front :=
  if f.Finds k i s then
    if (k.proc i).signalHandlers s = sigDfl then { f with raised := f.raised || Kills k i s }
    else if (k.proc i).signalHandlers s ≠ sigIgn then { f with mask := (k.proc i).maskHandlers s }
    else f
  else f

end Front

def front (k : Kernel) (i : Fin nproc) : Nat → Front
  | 0 => ⟨(k.proc i).signalMask, false⟩
  | n + 1 => if h : n < signalsSize then (front k i n).next k i ⟨n, h⟩ else front k i n

/-- The loop takes the default action for `s`. -/
def TakesDefault (k : Kernel) (i : Fin nproc) (s : Sig) : Prop :=
  (front k i s).Finds k i s ∧ (k.proc i).signalHandlers s = sigDfl

instance (k : Kernel) (i : Fin nproc) (s : Sig) : Decidable (TakesDefault k i s) :=
  inferInstanceAs (Decidable (_ ∧ _))

/-- A loop that starts in `k` does not let a stopped process go: the masks block `SIGSTOP`, or it
takes the default action for `SIGCONT`, or it starts with a process that is not stopped and takes
none for `SIGSTOP`. -/
def HoldsStopped (k : Kernel) (i : Fin nproc) : Prop :=
  Blocks (front k i signalsSize).mask sigstop ∨ TakesDefault k i sigcont ∨
    (k.proc i).stopped = false ∧ ¬ TakesDefault k i sigstop

instance (k : Kernel) (i : Fin nproc) : Decidable (HoldsStopped k i) :=
  inferInstanceAs (Decidable (_ ∨ _))

end Xv6.Signal
