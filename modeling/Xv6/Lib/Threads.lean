import Mathlib.Data.Fintype.Basic
import Xv6.Lib.Machine

/-!
# Threads on several CPUs

A `Placement` puts threads `θ` at places `π`: a CPU has at most one thread on it, and a thread that
is on no CPU has a saved place.  A thread is at one place (`Once.at_unique`) as long as no thread is
on two CPUs.

A step of one CPU (`Move`) takes the thread on it to its next place, puts a thread on it where that
was saved, or takes it off and saves its place.  `Move.at_cases` says where the threads are after
it.
-/

namespace Xv6.Lib

structure Placement (κ θ π : Type*) where
  on : κ → Option (θ × π)
  saved : θ → π

namespace Placement

variable {κ θ π : Type*} (P : Placement κ θ π)

def Off (x : θ) : Prop := ∀ c l, P.on c ≠ some (x, l)

def At (x : θ) (l : π) : Prop := (∃ c, P.on c = some (x, l)) ∨ P.Off x ∧ P.saved x = l

/-- No thread is on two CPUs. -/
def Once : Prop := ∀ c c' x l l', P.on c = some (x, l) → P.on c' = some (x, l') → c = c'

variable {P} {P' : Placement κ θ π} {c : κ} {x y : θ} {l l' m : π}

theorem at_of_on (h : P.on c = some (x, l)) : P.At x l := .inl ⟨c, h⟩

theorem at_of_off (h : P.Off x) : P.At x (P.saved x) := .inr ⟨h, rfl⟩

theorem exists_at (P : Placement κ θ π) (x : θ) : ∃ l, P.At x l := by
  by_cases hoff : P.Off x
  · exact ⟨P.saved x, at_of_off hoff⟩
  · simp only [Off, not_forall, not_not] at hoff
    obtain ⟨c, l, hl⟩ := hoff
    exact ⟨l, at_of_on hl⟩

theorem forall_at_iff {p : π → Prop} :
    (∀ l, P.At x l → p l) ↔ (∀ c, ∀ y ∈ P.on c, y.1 = x → p y.2) ∧
      ((∀ c, ∀ y ∈ P.on c, y.1 ≠ x) → p (P.saved x)) := by
  constructor
  · intro h
    refine ⟨?_, fun hoff => h _ (at_of_off fun c l hl => hoff c (x, l) hl rfl)⟩
    rintro c ⟨y, l⟩ hy rfl
    exact h l (at_of_on hy)
  · rintro ⟨hon, hsaved⟩ l (⟨c, hl⟩ | ⟨hoff, rfl⟩)
    · exact hon c (x, l) hl rfl
    · refine hsaved ?_
      rintro c ⟨y, l⟩ hy rfl
      exact hoff c l hy

instance [Fintype κ] [DecidableEq θ] (p : π → Prop) [DecidablePred p] (x : θ) :
    Decidable (∀ l, P.At x l → p l) :=
  decidable_of_iff _ forall_at_iff.symm

theorem Off.eq_saved (h : P.Off x) (hl : P.At x l) : l = P.saved x := by
  obtain ⟨c, hc⟩ | ⟨-, hsaved⟩ := hl
  · exact absurd hc (h c l)
  · exact hsaved.symm

theorem Once.eq_of_on (h : P.Once) (hc : P.on c = some (x, l)) (hl : P.At x m) : m = l := by
  obtain ⟨c', hc'⟩ | ⟨hoff, -⟩ := hl
  · obtain rfl := h c c' x l m hc hc'
    rw [hc] at hc'
    exact (Prod.mk.inj (Option.some.inj hc')).2.symm
  · exact absurd hc (hoff c l)

theorem Once.at_unique (h : P.Once) (hl : P.At x l) (hm : P.At x m) : l = m := by
  obtain ⟨c, hc⟩ | ⟨hoff, hsaved⟩ := hl
  · exact (h.eq_of_on hc hm).symm
  · rw [hoff.eq_saved hm, hsaved]

inductive Move (P P' : Placement κ θ π) (c : κ) : Prop where
  -- no thread on the CPU
  | idle (on : P.on c = none) (on' : P'.on c = none)
  -- its thread goes on
  | go (x : θ) (l l' : π) (on : P.on c = some (x, l)) (on' : P'.on c = some (x, l'))
  -- a thread is put on it
  | start (x : θ) (on : P.on c = none) (off : P.Off x) (on' : P'.on c = some (x, P.saved x))
  -- its thread is taken off
  | leave (x : θ) (l : π) (on : P.on c = some (x, l)) (on' : P'.on c = none)

/-- The thread on CPU `c` has come from `l` to `m`. -/
def Came (P P' : Placement κ θ π) (c : κ) (x : θ) (l m : π) : Prop :=
  P.on c = some (x, l) ∧ (P'.on c = some (x, m) ∨ P'.on c = none ∧ P'.saved x = m)

section Move

variable (hmove : Move P P' c) (hothers : ∀ c', c' ≠ c → P'.on c' = P.on c')

include hmove hothers

theorem Move.once (h : P.Once) : P'.Once := by
  -- the thread on `c` is on no other CPU
  have haux : ∀ c' x l l', c' ≠ c → P'.on c = some (x, l) → P.on c' ≠ some (x, l') := by
    intro c' x l l' hc hon hon'
    cases hmove with rw [on'] at hon
    | idle _ on' =>
      cases hon
    | go y m m' on on' =>
      obtain ⟨rfl, -⟩ := Prod.mk.inj (Option.some.inj hon)
      exact hc (h c' c y l' m hon' on)
    | start y on off on' =>
      obtain ⟨rfl, -⟩ := Prod.mk.inj (Option.some.inj hon)
      exact off c' l' hon'
    | leave y m on on' =>
      cases hon
  intro c₁ c₂ x l l' h₁ h₂
  refine unique_step (Q := fun o => ∃ l, o = some (x, l)) hothers ?_ ?_ c₁ c₂ ⟨l, h₁⟩ ⟨l', h₂⟩
  · rintro c₁ c₂ ⟨l, h₁⟩ ⟨l', h₂⟩
    exact h c₁ c₂ x l l' h₁ h₂
  · rintro c' hc ⟨l, hon⟩ ⟨l', hon'⟩
    exact haux c' x l l' hc hon hon'

/-- **Where the threads are after a step**: the thread on the CPU has come to another place, and
each other one is where it was, or where a new place was saved for it. -/
theorem Move.at_cases (h : P.Once) (hx : P'.At x m) :
    (∃ l, Came P P' c x l m) ∨
      (∀ l, P.on c ≠ some (x, l)) ∧
        (P.At x m ∨ P.Off x ∧ P'.saved x = m ∧ P'.saved x ≠ P.saved x) := by
  by_cases hon : ∃ l, P.on c = some (x, l)
  · obtain ⟨l, hl⟩ := hon
    refine .inl ⟨l, hl, ?_⟩
    obtain ⟨c', hc'⟩ | ⟨hoff, hsaved⟩ := hx
    · -- it is still on a CPU, which is the same one
      by_cases hcc : c' = c
      · rw [hcc] at hc'
        exact .inl hc'
      · rw [hothers c' hcc] at hc'
        exact absurd (h c' c x m l hc' hl) hcc
    cases hmove with
    | idle on | start y on =>
      rw [on] at hl
      cases hl
    | go y k k' on on' =>
      rw [on] at hl
      obtain ⟨rfl, -⟩ := Prod.mk.inj (Option.some.inj hl)
      exact absurd on' (hoff c k')
    | leave y k on on' => exact .inr ⟨on', hsaved⟩
  · have hne : ∀ l, P.on c ≠ some (x, l) := fun l hl => hon ⟨l, hl⟩
    refine .inr ⟨hne, ?_⟩
    obtain ⟨c', hc'⟩ | ⟨hoff, hsaved⟩ := hx
    · by_cases hcc : c' = c
      · -- the step has put it on the CPU
        rw [hcc] at hc'
        cases hmove with
        | idle _ on' | leave y k on on' =>
          rw [on'] at hc'
          cases hc'
        | go y k k' on on' =>
          rw [on'] at hc'
          obtain ⟨rfl, -⟩ := Prod.mk.inj (Option.some.inj hc')
          exact absurd on (hne k)
        | start y on off on' =>
          rw [on'] at hc'
          cases hc'
          exact .inl (at_of_off off)
      · rw [hothers c' hcc] at hc'
        exact .inl (at_of_on hc')
    · have hoff' : P.Off x := by
        intro c' l hl
        by_cases hcc : c' = c
        · rw [hcc] at hl
          exact hne l hl
        · rw [← hothers c' hcc] at hl
          exact hoff c' l hl
      by_cases hsame : P'.saved x = P.saved x
      · rw [hsame] at hsaved
        exact .inl (.inr ⟨hoff', hsaved⟩)
      · exact .inr ⟨hoff', hsaved, hsame⟩

end Move

end Placement

end Xv6.Lib
