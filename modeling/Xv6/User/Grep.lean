import Mathlib.Data.List.Infix

/-!
# `grep` (`user/grep.c`)

Strings are the lists of their bytes before the NUL, and so is `buf`: the NULs that `grep` puts over
newlines are in front of `p`, and the `memmove` drops them.
-/

namespace Xv6.Grep

abbrev Str := List UInt8

def caret : UInt8 := 0x5e
def dollar : UInt8 := 0x24
def star : UInt8 := 0x2a
def dot : UInt8 := 0x2e
def newline : UInt8 := 0x0a

/-! ### Matching -/

/-- Search for `c*re` at the beginning of text, where `here` is `matchhere` of `re`. -/
def matchstar (here : Str → Bool) (c : UInt8) : Str → Bool
  | [] => here []
  | x :: text => here (x :: text) || (x = c || c = dot) && matchstar here c text

/-- The last test of `matchhere`. -/
def matchone (here : Str → Bool) (c : UInt8) : Str → Bool
  | [] => false
  | x :: text => (c = dot || c = x) && here text

/-- Search for `re` at the beginning of text. -/
def matchhere : Str → Str → Bool
  | [], _ => true
  | [c], text => if c = dollar then text = [] else matchone (matchhere []) c text
  | c :: d :: re, text =>
    if d = star then matchstar (matchhere re) c text else matchone (matchhere (d :: re)) c text

/-- `match`; its loop looks at the empty string too. -/
def matchRe (re text : Str) : Bool :=
  if re.head? = some caret then matchhere re.tail text else text.tails.any (matchhere re)

/-! ### What a pattern denotes -/

/-- A character, or a starred one. -/
inductive Item where
  | one (c : UInt8)
  | many (c : UInt8)

/-- The characters that `c` stands for. -/
def Stands (c x : UInt8) : Prop := c = dot ∨ x = c

/-- The words of an item. -/
def Item.words : Item → Set Str
  | .one c => { w | ∃ x, Stands c x ∧ w = [x] }
  | .many c => { w | ∀ x ∈ w, Stands c x }

/-- The words of items one after the other. -/
def language : List Item → Set Str
  | [] => { w | w = [] }
  | i :: is => { w | ∃ u v, u ∈ i.words ∧ v ∈ language is ∧ w = u ++ v }

/-- The items of a pattern behind `^`, and whether it ends with an unstarred `$`. -/
def items : Str → List Item × Bool
  | [] => ([], false)
  | [c] => if c = dollar then ([], true) else ([.one c], false)
  | c :: d :: re =>
    if d = star then ((.many c :: (items re).1), (items re).2)
    else ((.one c :: (items (d :: re)).1), (items (d :: re)).2)

/-- A substring of the text is in the language: a prefix for `^`, a suffix for `$`. -/
def Accepts (re text : Str) : Prop :=
  let anchored := re.head? = some caret
  let (is, atEnd) := items (if anchored then re.tail else re)
  ∃ u v w, text = u ++ v ++ w ∧ v ∈ language is ∧ (anchored → u = []) ∧ (atEnd = true → w = [])

/-! ### Lines -/

/-- The loop over the lines of `buf`, where `strchr` has passed `line`: what is written, and what is
kept. -/
def scan (re line : Str) : Str → Str × Str
  | [] => ([], line)
  | x :: s =>
    if x = 0 then ([], line ++ x :: s)
    else if x = newline then
      let out := (scan re [] s).1
      (if matchRe re line then line ++ newline :: out else out, (scan re [] s).2)
    else scan re (line ++ [x]) s

/-- With the carried bytes `m` and the input that is left; the `i`-th `read` finds at most `sizes i
+ 1` bytes. -/
def grep (re : Str) (sizes : ℕ → ℕ) (m input : Str) : Str :=
  let chunk := input.take (min (1024 - m.length - 1) (sizes 0 + 1))
  if chunk = [] then []
  else
    let out := scan re [] (m ++ chunk)
    out.1 ++ grep re (fun i => sizes (i + 1)) out.2 (input.drop chunk.length)
termination_by input.length
decreasing_by
  rename_i h
  have hpos : 0 < chunk.length := List.length_pos_iff.mpr h
  have hle : chunk.length ≤ input.length := (List.take_prefix ..).length_le
  change (input.drop chunk.length).length < _
  rw [List.length_drop]
  omega

/-- The newline-terminated lines. -/
def lines (input : Str) : List Str := (input.splitOn newline).dropLast

/-- The lines whose text `match` accepts. -/
def matching (re : Str) (lines : List Str) : Str :=
  (lines.filter (matchRe re)).flatMap (· ++ [newline])

/-- What `grep` is to print. -/
def printed (re input : Str) : Str := matching re (lines input)

/-- The line fits into `buf`, with its newline and the NUL behind it. -/
def fits (line : Str) : Bool := line.length < 1023

/-- The condition: no line matches from the first one on that does not fit. -/
def NoneBehind (re input : Str) : Prop := ∀ l ∈ (lines input).dropWhile fits, matchRe re l = false

instance (re input : Str) : Decidable (NoneBehind re input) := inferInstanceAs (Decidable (∀ _ ∈ _, _))

end Xv6.Grep
