import Mathlib.Data.Fintype.Basic
import Xv6.Signal.Handling

/-!
# Which signals a pass delivers

When the loop of `handling_signals` starts, the pending set, the mask, the handlers and their masks
decide which signals it hands to user handlers. A delivery replaces the mask by that of its handler,
and the default action of a signal below `SIGKILL` makes `SIGKILL` pending.
-/

namespace Xv6.Signal

def Blocks (m : BitVec 32) (s : Sig) : Prop := m &&& bit s ≠ 0

instance (m : BitVec 32) (s : Sig) : Decidable (Blocks m s) :=
  inferInstanceAs (Decidable (m &&& bit s ≠ 0))

namespace Proc

def Pending (p : Proc) (s : Sig) : Prop := p.pendingSignals &&& bit s ≠ 0

def User (p : Proc) (s : Sig) : Prop := p.signalHandlers s ≠ sigDfl ∧ p.signalHandlers s ≠ sigIgn

instance (p : Proc) (s : Sig) : Decidable (p.Pending s) :=
  inferInstanceAs (Decidable (p.pendingSignals &&& bit s ≠ 0))

instance (p : Proc) (s : Sig) : Decidable (p.User s) :=
  inferInstanceAs (Decidable (_ ∧ _))

end Proc

/-- The default action for `d`, pending and not blocked by `m`, raises `SIGKILL` in time for the
loop. -/
@[mk_iff]
structure RaisesKill (k : Kernel) (i : Fin nproc) (m : BitVec 32) (d : Sig) : Prop where
  lt : d < sigkill
  pending : (k.proc i).Pending d
  unblocked : ¬ Blocks m d
  default : (k.proc i).signalHandlers d = sigDfl
  found : k.find (k.proc i).pid = some i

instance (k : Kernel) (i : Fin nproc) (m : BitVec 32) (d : Sig) : Decidable (RaisesKill k i m d) :=
  decidable_of_iff' _ (raisesKill_iff k i m d)

/-- Signal `s` is pending when the loop comes to it, if `m d` is the mask it has at signal `d`. -/
def PendingAt (k : Kernel) (i : Fin nproc) (m : Sig → BitVec 32) (s : Sig) : Prop :=
  (k.proc i).Pending s ∨ (s = sigkill ∧ ∃ d, RaisesKill k i (m d) d)

/-- The loop calls `usersignal` for `s`, if `m d` is the mask it has at signal `d`. -/
def UserDue (k : Kernel) (i : Fin nproc) (m : Sig → BitVec 32) (s : Sig) : Prop :=
  PendingAt k i m s ∧ ¬ Blocks (m s) s ∧ (k.proc i).User s

def maskBefore (k : Kernel) (i : Fin nproc) : Sig → BitVec 32 := fun _ => (k.proc i).signalMask

/-- The signal mask when the only delivery is that of `s`. -/
def maskAfter (k : Kernel) (i : Fin nproc) (s : Sig) : Sig → BitVec 32 :=
  fun d => if d ≤ s then (k.proc i).signalMask else (k.proc i).maskHandlers s

/-- `s` is the first signal that the loop delivers. -/
def FirstUser (k : Kernel) (i : Fin nproc) (s : Sig) : Prop :=
  UserDue k i (maskBefore k i) s ∧ ∀ d < s, ¬ UserDue k i (maskBefore k i) d

/-- After its delivery of `s` the loop comes to another signal with a user handler, pending and not
blocked by the mask of that of `s`. -/
def SecondUser (k : Kernel) (i : Fin nproc) : Prop :=
  ∃ s d, FirstUser k i s ∧ s < d ∧ UserDue k i (maskAfter k i s) d

section

variable (k : Kernel) (i : Fin nproc) (m : Sig → BitVec 32) (s : Sig)

instance : Decidable (PendingAt k i m s) :=
  inferInstanceAs (Decidable (_ ∨ _))

instance : Decidable (UserDue k i m s) :=
  inferInstanceAs (Decidable (_ ∧ _))

instance : Decidable (FirstUser k i s) :=
  inferInstanceAs (Decidable (_ ∧ _))

instance : Decidable (SecondUser k i) :=
  inferInstanceAs (Decidable (∃ s d, FirstUser k i s ∧ s < d ∧ UserDue k i (maskAfter k i s) d))

end

end Xv6.Signal
