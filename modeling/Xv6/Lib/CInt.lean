import Mathlib.Tactic.NormNum

/-!
# The C type `int`

Values of a C `int` are the integers from `-2^31` to `2^31 - 1`; `int32` brings the result of an
operation back into that range, as the two's complement instructions do.
-/

namespace Xv6.Lib

def intMax : Int := 2 ^ 31 - 1

/-- The `int` congruent to `x` modulo `2^32`. -/
def int32 (x : Int) : Int := (x + 2 ^ 31) % 2 ^ 32 - 2 ^ 31

theorem int32_of_mem {x : Int} (hlo : -2 ^ 31 ≤ x) (hhi : x ≤ intMax) : int32 x = x := by
  unfold int32
  unfold intMax at hhi
  omega

example : int32 (intMax + 1) = -2 ^ 31 := by decide

end Xv6.Lib
