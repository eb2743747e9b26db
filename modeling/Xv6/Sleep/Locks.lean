import Xv6.Lib.Machine

/-!
# Sleep-locks (`kernel/sleeplock.c`)

Threads `θ` and locks `ι`. The fields of a lock are used with its spinlock `lk->lk`, so what a
thread does until `sleep` or `release` gives that up is one step. A thread that sleeps in
`acquiresleep` may test the lock again at any time: `kill` wakes it as well. `pid t` is
`myproc()->pid` of the thread `t`.
-/

namespace Xv6.Sleeplock

open Lib
open Function (update)

/-- `struct sleeplock`. -/
structure Lock where
  locked : Bool
  pid : Int
  deriving DecidableEq

structure State (θ ι : Type) where
  lk : ι → Lock
  -- the lock for which a thread is in acquiresleep
  waits : θ → Option ι
  -- not in the code: the threads between acquiresleep and releasesleep
  inside : ι → List θ

variable {θ ι : Type} [DecidableEq θ] [DecidableEq ι] (pid : θ → Int)

def initsleeplock : State θ ι where
  lk _ := ⟨false, 0⟩
  waits _ := none
  inside _ := []

namespace State

variable (s : State θ ι) (t : θ) (n : ι)

def acquiresleep : State θ ι :=
  if (s.lk n).locked then { s with waits := update s.waits t (some n) }
  else
    { lk := update s.lk n ⟨true, pid t⟩
      waits := update s.waits t none
      inside := update s.inside n (t :: s.inside n) }

def releasesleep : State θ ι :=
  { s with
    lk := update s.lk n ⟨false, 0⟩
    inside := update s.inside n ((s.inside n).erase t) }

def holdingsleep : Bool := (s.lk n).locked && (s.lk n).pid == pid t

/-- `if(!holdingsleep(&b->lock)) panic(..)`, in `bwrite` and `brelse`; in `iunlock` with the lock of
`ip`. -/
def rejects : Bool := !s.holdingsleep pid t n

end State

inductive Act (θ ι : Type) where
  | acquire (t : θ) (n : ι)
  | wake (t : θ)
  | release (t : θ) (n : ι)

/-- A thread releases only what it has acquired. -/
def lockMachine : Machine (State θ ι) (Act θ ι) where
  step s
    | .acquire t n => if s.waits t = none then some (s.acquiresleep pid t n) else none
    | .wake t => (s.waits t).map (s.acquiresleep pid t)
    | .release t n =>
      if s.waits t = none ∧ t ∈ s.inside n then some (s.releasesleep t n) else none

end Xv6.Sleeplock
