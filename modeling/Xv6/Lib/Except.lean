import Mathlib.Tactic.Common

/-!
# Computations that may fail

How a sequence of computations in `Except` comes to its result: the first one succeeds and so does
the rest, or one of them is the first to fail.  For those with a state, `Ensures P x Q` is a triple
of partial correctness.
-/

namespace Xv6.Lib

variable {ε α β : Type} {x : Except ε α} {f : α → Except ε β} {b : β} {e : ε}

theorem bind_eq_ok : (x >>= f) = .ok b ↔ ∃ a, x = .ok a ∧ f a = .ok b := by
  cases x with
  | error | ok => simp [bind, Except.bind]

theorem bind_eq_error : (x >>= f) = .error e ↔
    x = .error e ∨ ∃ a, x = .ok a ∧ f a = .error e := by
  cases x with
  | error | ok => simp [bind, Except.bind]

/-! ### With a state -/

variable {σ : Type} {P : σ → Prop} {Q : β → σ → Prop}

/-- If `x` succeeds from a state with `P`, then `Q` holds of its result and the new state. -/
def Ensures (P : σ → Prop) (x : StateT σ (Except ε) α) (Q : α → σ → Prop) : Prop :=
  ∀ s r s', P s → x s = .ok (r, s') → Q r s'

namespace Ensures

theorem trivial (x : StateT σ (Except ε) α) : Ensures P x fun _ _ => True := fun _ _ _ _ _ =>
    True.intro

theorem throw : Ensures P (throw e : StateT σ (Except ε) β) Q := by
  intro _ _ _ _ h
  cases h

theorem pure (h : ∀ s, P s → Q b s) : Ensures P (pure b : StateT σ (Except ε) β) Q := by
  rintro s _ _ hs ⟨⟩
  exact h s hs

theorem set {Q : PUnit → σ → Prop} {t : σ} (h : Q ⟨⟩ t) :
    Ensures P (set t : StateT σ (Except ε) PUnit) Q := by
  rintro _ _ _ _ ⟨⟩
  exact h

theorem modify {Q : PUnit → σ → Prop} {g : σ → σ} (h : ∀ s, P s → Q ⟨⟩ (g s)) :
    Ensures P (modify g : StateT σ (Except ε) PUnit) Q := by
  rintro s _ _ hs ⟨⟩
  exact h s hs

theorem bind {R : α → σ → Prop} {x : StateT σ (Except ε) α} {f : α → StateT σ (Except ε) β}
    (hx : Ensures P x R) (hf : ∀ a, Ensures (R a) (f a) Q) : Ensures P (x >>= f) Q := by
  intro s b s' hs h
  obtain ⟨⟨a, t⟩, ha, hb⟩ := bind_eq_ok.mp h
  exact hf a t b s' (hx s a t hs ha) hb

theorem and {Q R : α → σ → Prop} {x : StateT σ (Except ε) α} (hq : Ensures P x Q)
    (hr : Ensures P x R) : Ensures P x fun a s => Q a s ∧ R a s :=
  fun s a s' hs h => ⟨hq s a s' hs h, hr s a s' hs h⟩

/-- A fact `A` that does not speak of the state. -/
theorem of_imp {P' : σ → Prop} {A : Prop} {x : StateT σ (Except ε) β} (h : ∀ s, P' s → A ∧ P s)
    (hx : A → Ensures P x Q) : Ensures P' x Q :=
  fun s b s' hs hb => hx (h s hs).1 s b s' (h s hs).2 hb

theorem at_state {x : StateT σ (Except ε) β} {s : σ} (hx : Ensures P x Q) (hs : P s) :
    Ensures (· = s) x Q := by
  intro t b s' ht
  subst ht
  exact hx t b s' hs

theorem get_bind_at {f : σ → StateT σ (Except ε) β} (h : ∀ s, P s → Ensures (· = s) (f s) Q) :
    Ensures P (get >>= f) Q :=
  fun s b s' hs hb => h s hs s b s' rfl hb

theorem get_bind {f : σ → StateT σ (Except ε) β} (h : ∀ s, P s → Ensures P (f s) Q) :
    Ensures P (get >>= f) Q :=
  get_bind_at fun s hs => (h s hs).at_state hs

end Ensures

end Xv6.Lib
