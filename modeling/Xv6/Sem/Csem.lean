import Xv6.Lib.CInt
import Xv6.Lib.Machine
import Xv6.Sem.Bsem

/-!
# Counting semaphores (`user/Csemaphore.c`)

`bsem1` protects the count, and `bsem2` is a gate that is open while the count is positive.
`csemMachine` interleaves the calls of `csem_down` and `csem_up` of any number of threads `ι`, line
by line; a call of `bsem_down` or `bsem_up` is one step, and waits where that has none.
-/

namespace Xv6

open Lib

structure CountingSemaphore where
  bsem1 : Fin maxBsem
  bsem2 : Fin maxBsem
  count : Int
  deriving DecidableEq

/-- `csem_alloc`; `none` is the result `-1`. -/
def csemAlloc (t : Bsems) (count : Int) : Option CountingSemaphore × Bsems :=
  let (r1, t) := t.bsemAlloc
  let (r2, t) := t.bsemAlloc
  match r1, r2 with
  | some bsem1, some bsem2 =>
    -- the gate starts with min(1, count); the fresh descriptor has value 1, so this does not wait
    let t := if count = 0 then (t.bsemDown bsem2).getD t else t
    (some ⟨bsem1, bsem2, count⟩, t)
  | _, _ => (none, t)

inductive CsemPc where
  | idle
  -- `csem_down`
  | downGate -- bsem_down(sem->bsem2)
  | downLock -- bsem_down(sem->bsem1)
  | downDec -- sem->count -= 1
  | downTest -- if (sem->count > 0)
  | downOpen -- bsem_up(sem->bsem2)
  | downUnlock -- bsem_up(sem->bsem1)
  -- `csem_up`
  | upLock -- bsem_down(sem->bsem1)
  | upInc -- sem->count += 1
  | upTest -- if (sem->count == 1)
  | upOpen -- bsem_up(sem->bsem2)
  | upUnlock -- bsem_up(sem->bsem1)
  deriving DecidableEq

structure CsemState (ι : Type*) where
  bsems : Bsems
  sem : CountingSemaphore
  pc : ι → CsemPc
  -- how many `csem_down` calls have decremented the count, and `csem_up` calls incremented it
  downs : Nat
  ups : Nat

inductive CsemAct (ι : Type*) where
  | callDown (i : ι)
  | callUp (i : ι)
  | next (i : ι)
  deriving DecidableEq

namespace CsemState

variable {ι : Type*} [DecidableEq ι] (s : CsemState ι)

/-- Thread `i` goes to line `pc`. -/
def goto (i : ι) (pc : CsemPc) : CsemState ι := { s with pc := Function.update s.pc i pc }

/-- `sem->count = n`, as an `int`. -/
def setCount (n : Int) : CsemState ι := { s with sem := { s.sem with count := int32 n } }

/-- Thread `i` executes its next line. -/
def next (i : ι) : Option (CsemState ι) :=
  match s.pc i with
  | .idle => none
  | .downGate =>
    (s.bsems.bsemDown s.sem.bsem2).map fun t => { s with bsems := t }.goto i .downLock
  | .downLock =>
    (s.bsems.bsemDown s.sem.bsem1).map fun t => { s with bsems := t }.goto i .downDec
  | .downDec =>
    some ({ s with downs := s.downs + 1 }.setCount (s.sem.count - 1) |>.goto i .downTest)
  | .downTest => some (s.goto i (if s.sem.count > 0 then .downOpen else .downUnlock))
  | .downOpen => some ({ s with bsems := s.bsems.bsemUp s.sem.bsem2 }.goto i .downUnlock)
  | .downUnlock => some ({ s with bsems := s.bsems.bsemUp s.sem.bsem1 }.goto i .idle)
  | .upLock =>
    (s.bsems.bsemDown s.sem.bsem1).map fun t => { s with bsems := t }.goto i .upInc
  | .upInc => some ({ s with ups := s.ups + 1 }.setCount (s.sem.count + 1) |>.goto i .upTest)
  | .upTest => some (s.goto i (if s.sem.count = 1 then .upOpen else .upUnlock))
  | .upOpen => some ({ s with bsems := s.bsems.bsemUp s.sem.bsem2 }.goto i .upUnlock)
  | .upUnlock => some ({ s with bsems := s.bsems.bsemUp s.sem.bsem1 }.goto i .idle)

def step : CsemAct ι → Option (CsemState ι)
  | .callDown i => if s.pc i = .idle then some (s.goto i .downGate) else none
  | .callUp i => if s.pc i = .idle then some (s.goto i .upLock) else none
  | .next i => s.next i

def gate : Int := s.bsems s.sem.bsem2

/-- No thread is inside `csem_down` past its first `bsem_down`, or inside `csem_up` past its. -/
def Quiet : Prop := ∀ i, s.pc i = .idle ∨ s.pc i = .downGate ∨ s.pc i = .upLock

/-- The step is not an increment of the largest count. -/
def NoOverflow : CsemAct ι → Prop
  | .next i => s.pc i = .upInc → s.sem.count ≠ intMax
  | _ => True

instance (a : CsemAct ι) : Decidable (s.NoOverflow a) :=
  match a with
  | .next i => inferInstanceAs (Decidable (s.pc i = .upInc → s.sem.count ≠ intMax))
  | .callDown _ => isTrue trivial
  | .callUp _ => isTrue trivial

end CsemState

def csemMachine (ι : Type*) [DecidableEq ι] : Machine (CsemState ι) (CsemAct ι) where
  step s a := s.step a

def csemInit (ι : Type*) (sem : CountingSemaphore) (t : Bsems) : CsemState ι where
  bsems := t
  sem := sem
  pc := fun _ => .idle
  downs := 0
  ups := 0

end Xv6
