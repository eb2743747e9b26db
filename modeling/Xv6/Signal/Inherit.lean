import Xv6.Signal.Backup
import Xv6.Signal.Pass

/-!
# Signals in a new program and in a child (`kernel/exec.c`, `kernel/proc.c`)

`exec` means to turn the user handlers of the old program to `SIG_DFL`, but stores the new value to
a local variable.  What it does store are the masks of those handlers and the mask of the process.

`fork` copies the handlers and the mask; `allocproc` has zeroed the masks of the handlers, and the
copy of the interrupted trapframe is not copied.
-/

namespace Xv6.Signal

open Lib

/-! ### `exec` -/

/-- What a successful `exec` has loaded. -/
structure Image where
  mem : Mem
  walkaddr : Addr → Addr
  entry : BitVec 64
  sp : BitVec 64

def Proc.exec (p : Proc) (j : Fin nthread) (image : Image) : Proc :=
  { p with
    walkaddr := image.walkaddr
    -- signalHanlder = (void*)SIG_DFL is a store to a local variable
    maskHandlers := fun s => if p.User s then 0 else p.maskHandlers s
    signalMask := 0 }.setThread j
      { p.threads j with
        trapframe :=
          { (p.threads j).trapframe with a1 := image.sp, epc := image.entry, sp := image.sp } }

def exec (k : Kernel) (i : Fin nproc) (j : Fin nthread) (image : Image) : Kernel :=
  { k.setProc i ((k.proc i).exec j image) with mem := image.mem }

/-- Signals are sent to a process without calls, and threads pass through `handling_signals`. -/
inductive Delivery where
  | kill (pid signum : Int)
  | pass (l : Fin nproc) (j : Fin nthread) (yields : List Kills)

def deliveryMachine (code : SigretCode) : Machine Kernel Delivery where
  step k a :=
    match a with
    | .kill pid signum => some (kill k pid signum).2
    | .pass l j yields => handlingSignals code l j yields k

/-- **A fresh signal state** of process `i` after the step from `k` to `k'`, and what later signals
do with it. -/
structure ExecOk (code : SigretCode) (k k' : Kernel) (i : Fin nproc) : Prop where
  handlers : ∀ s, (k'.proc i).signalHandlers s =
    if (k.proc i).signalHandlers s = sigIgn then sigIgn else sigDfl
  masks : ∀ s, (k.proc i).User s → (k'.proc i).maskHandlers s = 0
  ignore : (k'.proc i).ignoreSignals = false
  -- no pass sends a thread to a handler
  trapframe : ∀ as k'', (deliveryMachine code).run k' as = some k'' → ∀ j,
    ((k''.proc i).threads j).trapframe = ((k'.proc i).threads j).trapframe
  -- and a pass acts on every signal that is due, if it is not ignored
  delivered : ∀ as k'', (deliveryMachine code).run k' as = some k'' → ∀ j yields k₃,
    handlingSignals code i j yields k'' = some k₃ → ∀ s, (k''.proc i).Due s →
      (k''.proc i).signalHandlers s ≠ sigIgn → ¬ (k₃.proc i).Pending s ∨ (k₃.proc i).killed = true

/-- The condition: the old program has no user handlers, and is in none. -/
structure Proc.Handless (p : Proc) : Prop where
  user : ∀ s, ¬ p.User s
  ignore : p.ignoreSignals = false

/-! ### `fork` -/

/-- The condition: the handlers of the parent have no masks, and inside of a handler what `sigret`
is to restore is what the slot of the child has from earlier threads, and the mask 0. -/
structure Inherits (s : Contexts) (p : Fin nproc) (j : Fin nthread) (c : Fin nproc) : Prop where
  masks : ∀ sig, (s.proc p).maskHandlers sig = 0
  frame : s.handling p j = true → ((s.proc c).threads 0).userTrapFrameBackup.user =
    ((s.proc p).threads j).userTrapFrameBackup.user
  backup : s.handling p j = true → (s.proc p).signalMaskBackup = 0

end Xv6.Signal
