import Xv6.Signal.Proc

/-!
# Delivering signals (`kernel/proc.c`)

`handling_signals` is called by `usertrapret` on every return to user space.  A thread of a stopped
process polls there for a `SIGCONT` and yields between two polls, during which others may call
`kill`.
-/

namespace Xv6.Signal

/-- The code between `start_ret` and `end_ret`: `li a7, SYS_sigret; ecall`, as it is assembled. -/
structure SigretCode where
  bytes : List UInt8
  pos : 0 < bytes.length
  lt : bytes.length < 2 ^ 32

namespace SigretCode

def size (code : SigretCode) : BitVec 64 := BitVec.ofNat 64 code.bytes.length

end SigretCode

def usersignal (code : SigretCode) (k : Kernel) (i : Fin nproc) (j : Fin nthread) (signum : Sig) :
    Kernel :=
  let p := k.proc i
  let t := p.threads j
  let sp := t.trapframe.sp - code.size
  let t' : Thread :=
    { t with
      userTrapFrameBackup := t.trapframe
      trapframe :=
        { t.trapframe with
          epc := p.signalHandlers signum
          sp := sp
          a0 := BitVec.ofNat 64 signum
          ra := sp } }
  let p' : Proc :=
    { p with
      signalMaskBackup := p.signalMask
      signalMask := p.maskHandlers signum
      ignoreSignals := true }
  { k.setProc i (p'.setThread j t') with mem := (copyout p.walkaddr k.mem sp code.bytes).2 }

def sigret (k : Kernel) (i : Fin nproc) (j : Fin nthread) : Kernel :=
  let p := k.proc i
  let t := p.threads j
  let p' : Proc := { p with signalMask := p.signalMaskBackup, ignoreSignals := false }
  k.setProc i (p'.setThread j { t with trapframe := t.userTrapFrameBackup })

def stopSignal (k : Kernel) (i : Fin nproc) : Kernel :=
  k.setProc i { k.proc i with stopped := true }

def contSignal (k : Kernel) (i : Fin nproc) : Kernel :=
  k.setProc i { k.proc i with stopped := false }

def flipPending (k : Kernel) (i : Fin nproc) (sig : Sig) : Kernel :=
  k.setProc i
    { k.proc i with pendingSignals := (k.proc i).pendingSignals ^^^ bit sig }

def defaultAction (k : Kernel) (i : Fin nproc) (sig : Sig) : Kernel :=
  if sig = sigstop then stopSignal k i
  else if sig = sigcont then contSignal k i
  else (kill k (k.proc i).pid sigkill).2

/-- One iteration of the loop over the signals. -/
def handleSignal (code : SigretCode) (i : Fin nproc) (j : Fin nthread) (k : Kernel) (sig : Sig) :
    Kernel :=
  let p := k.proc i
  if p.pendingSignals &&& bit sig ≠ 0 ∧ p.signalMask &&& bit sig = 0 then
    if p.signalHandlers sig = sigDfl then flipPending (defaultAction k i sig) i sig
    else if p.signalHandlers sig ≠ sigIgn then flipPending (usersignal code k i j sig) i sig
    else k
  else k

def scanSignals (code : SigretCode) (i : Fin nproc) (j : Fin nthread) (k : Kernel) : Kernel :=
  (List.finRange signalsSize).foldl (handleSignal code i j) k

/-- The `kill` calls, as pairs of a pid and a signal number, made during one `yield`. -/
abbrev Kills := List (Int × Int)

def killAll (k : Kernel) (kills : Kills) : Kernel := kills.foldl (fun k c => (kill k c.1 c.2).2) k

/-- Poll for a `SIGCONT` and consume it, else `yield`; `none` while it still waits after these
yields. -/
def waitCont (i : Fin nproc) : List Kills → Kernel → Option Kernel
  | yields, k =>
    if (k.proc i).pendingSignals &&& bit sigcont ≠ 0 then
      some (flipPending (contSignal k i) i sigcont)
    else
      match yields with
      | [] => none
      | kills :: yields => waitCont i yields (killAll k kills)

/-- The part of `handling_signals` before the loop over the signals. -/
def checkStopped (i : Fin nproc) (yields : List Kills) (k : Kernel) : Option Kernel :=
  if (k.proc i).stopped ∧ (k.proc i).signalMask &&& bit sigstop = 0 then waitCont i yields k
  else some k

def handlingSignals (code : SigretCode) (i : Fin nproc) (j : Fin nthread) (yields : List Kills)
    (k : Kernel) : Option Kernel :=
  if (k.proc i).signalMask = 0xffffffff ∨ (k.proc i).ignoreSignals then some k
  else (checkStopped i yields k).map (scanSignals code i j)

end Xv6.Signal
