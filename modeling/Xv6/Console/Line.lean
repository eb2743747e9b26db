import Xv6.Lib.Machine
import Xv6.Lib.Ring

/-!
# The console (`kernel/console.c`)

`consoleintr` edits the end of a ring of input characters, and any number of calls of `consoleread`
take the committed ones from it. `cons.lock` is free between the calls of `consoleintr` and while
`consoleread` sleeps, which may wake up at any time. Whether the process was killed, and whether
`either_copyout` succeeds, is an input of the step.

Not in the code are `committed` and `taken`: the characters that `cons.w` has passed, and those that
`cons.r` has passed with the call that took them, in this order.
-/

namespace Xv6.Console

open Lib
open Function (update)

def inputBuf : Nat := 128

instance : NeZero inputBuf := ⟨by decide⟩

/-- `C('D')`, `C('H')`, `C('P')`, `C('U')` and the characters with an escape in C. -/
def ctrlD : UInt8 := 4
def ctrlH : UInt8 := 8
def newline : UInt8 := 10
def carriageReturn : UInt8 := 13
def ctrlP : UInt8 := 16
def ctrlU : UInt8 := 21
def delete : UInt8 := 127

/-- The current `n` and the bytes copied to `dst`. -/
inductive Point where
  | idle
  | test (n : Int) (dst : List UInt8) -- while(n > 0)
  | wait (n : Int) (dst : List UInt8) -- while(cons.r == cons.w)
  | asleep (n : Int) (dst : List UInt8) -- sleep(&cons.r, &cons.lock)
  | done (ret : Int) (dst : List UInt8) -- return
  deriving DecidableEq

structure Cons (κ : Type*) where
  buf : Fin inputBuf → UInt8
  r : BitVec 32
  w : BitVec 32
  e : BitVec 32
  lock : Option κ
  call : κ → Point
  committed : List UInt8
  taken : List (κ × UInt8)

/-- An input character, or the next line of a call. -/
inductive Act (κ : Type*) where
  | intr (c : UInt8)
  | next (t : κ) (killed copied : Bool)

/-- The process is not killed and the copy succeeds. -/
def Act.Ok {κ : Type*} : Act κ → Prop
  | .intr _ => True
  | .next _ killed copied => killed = false ∧ copied = true

instance {κ : Type*} : DecidablePred (Act.Ok (κ := κ))
  | .intr _ => isTrue trivial
  | .next _ _ _ => inferInstanceAs (Decidable (_ ∧ _))

namespace Cons

variable {κ : Type*}

def init : Cons κ := ⟨fun _ => 0, 0, 0, 0, none, fun _ => .idle, [], []⟩

variable (s : Cons κ)

def bytes (i j : BitVec 32) : List UInt8 :=
  (List.range (j - i).toNat).map fun k => s.buf (Ring.slot (i + BitVec.ofNat 32 k))

/-! ### `consoleintr` -/

def erase : Cons κ := { s with e := s.e - 1 }

/-- `while(cons.e != cons.w && cons.buf[(cons.e-1) % INPUT_BUF] != '\n')`, at most `k` rounds. -/
def killLine : Nat → Cons κ → Cons κ
  | 0, s => s
  | k + 1, s =>
    if s.e ≠ s.w ∧ s.buf (Ring.slot (s.e - 1)) ≠ newline then killLine k s.erase else s

/-- `cons.buf[cons.e++ % INPUT_BUF] = c`. -/
def store (c : UInt8) : Cons κ :=
  { s with buf := update s.buf (Ring.slot s.e) c, e := s.e + 1 }

def commit : Cons κ := { s with w := s.e, committed := s.committed ++ s.bytes s.w s.e }

def input (c : UInt8) : Cons κ :=
  let s := s.store c
  if c = newline ∨ c = ctrlD ∨ s.e = s.r + BitVec.ofNat 32 inputBuf then s.commit else s

def consoleintr (c : UInt8) : Cons κ :=
  if c = ctrlP then s
  else if c = ctrlU then killLine (s.e - s.w).toNat s
  else if c = ctrlH ∨ c = delete then
    if s.e ≠ s.w then s.erase else s
  else if c ≠ 0 ∧ (s.e - s.r).toNat < inputBuf then
    s.input (if c = carriageReturn then newline else c)
  else s

/-! ### `consoleread` -/

variable [DecidableEq κ] (t : κ)

def goto (p : Point) : Cons κ := { s with call := update s.call t p }

def acquire (p : Point) : Option (Cons κ) :=
  if s.lock = none then some { s.goto t p with lock := some t } else none

def release (p : Point) : Cons κ := { s.goto t p with lock := none }

/-- `cons.r++`. -/
def take : Cons κ := { s with r := s.r + 1 }

def keep (c : UInt8) : Cons κ := { s with taken := s.taken ++ [(t, c)] }

/-- A call with the argument `target` has found a character. -/
def read (target n : Int) (dst : List UInt8) (copied : Bool) : Cons κ :=
  let c := s.buf (Ring.slot s.r)
  let s := s.take
  if c = ctrlD then
    -- in the loop `n` is positive, so that comparing it with the `uint` compares the numbers
    let s := if n < target then { s with r := s.r - 1 } else s.keep t c
    s.release t (.done (target - n) dst)
  else if copied = false then (s.keep t c).release t (.done (target - n) dst)
  else if c = newline then (s.keep t c).release t (.done (target - (n - 1)) (dst ++ [c]))
  else (s.keep t c).goto t (.test (n - 1) (dst ++ [c]))

def next (target : Int) (killed copied : Bool) : Option (Cons κ) :=
  match s.call t with
  | .idle => s.acquire t (.test target [])
  | .test n dst =>
    some (if 0 < n then s.goto t (.wait n dst) else s.release t (.done (target - n) dst))
  | .wait n dst =>
    some (if s.r = s.w then
        s.release t (if killed then .done (-1) dst else .asleep n dst)
      else s.read t target n dst copied)
  | .asleep n dst => s.acquire t (.wait n dst)
  | .done _ _ => none

end Cons

variable {κ : Type*} [DecidableEq κ]

def consoleMachine (n : κ → Int) : Machine (Cons κ) (Act κ) where
  step s
    | .intr c => if s.lock = none then some (s.consoleintr c) else none
    | .next t killed copied => s.next t (n t) killed copied

/-! ### What the calls return -/

def Cons.own (s : Cons κ) (t : κ) : List UInt8 := (s.taken.filter (·.1 = t)).map Prod.snd

/-- **Reading the console**: a call has copied what it took, and returns its length. A `^D` is taken
by a call that returns 0; otherwise a call returns 0 only when `n` is not positive. -/
def Point.Delivered (n : Int) (own : List UInt8) : Point → Prop
  | .idle => own = []
  | .test m dst | .wait m dst | .asleep m dst => own = dst ∧ n - m = dst.length ∧ ctrlD ∉ dst
  | .done ret dst =>
    ret = dst.length ∧ (own = dst ∧ ctrlD ∉ dst ∧ (dst = [] → n ≤ 0) ∨ dst = [] ∧ own = [ctrlD])

/-- `r <= w <= e <= r + INPUT_BUF`, with indices that wrap around. -/
def Cons.Ordered {κ : Type*} (s : Cons κ) : Prop :=
  (s.w - s.r).toNat ≤ (s.e - s.r).toNat ∧ (s.e - s.r).toNat ≤ inputBuf

end Xv6.Console
