import Xv6.Lib.Machine

/-!
# Code with spinlocks on several CPUs

CPUs `κ` execute code at locations `ℓ`.  An instruction may acquire or release a lock of `Λ`, and it
reads and writes the data `δ`; `χ` says which of several possible instructions is executed. 
Acquiring a lock that is taken has no step, nor has releasing one that the CPU does not hold.

`Disciplined held` says of the code that the locks a CPU holds are a function `held` of its
location.  The owner of each lock then is the CPU whose location holds it (`Owned`), and steps keep
this.
-/

namespace Xv6.Lib

open Function

inductive LockOp (Λ : Type*) where
  | none
  | acquire (l : Λ)
  | release (l : Λ)

def LockOp.after {Λ : Type*} (held : Λ → Prop) : LockOp Λ → Λ → Prop
  | .none, m => held m
  | .acquire l, m => held m ∨ m = l
  | .release l, m => held m ∧ m ≠ l

/-- Code: the instruction at a location, with the location behind it and its effect on the data. -/
structure SpinCode (Λ ℓ δ χ : Type*) where
  instr : δ → ℓ → χ → Option (LockOp Λ × ℓ × δ)

structure SpinState (κ Λ ℓ δ : Type*) where
  owner : Λ → Option κ
  loc : κ → ℓ
  data : δ

variable {κ Λ ℓ δ χ : Type*} [DecidableEq κ] [DecidableEq Λ]

/-- The owners after a lock operation of `c`; `none` while the lock is taken. -/
def lockStep (owner : Λ → Option κ) (c : κ) : LockOp Λ → Option (Λ → Option κ)
  | .none => some owner
  | .acquire l => if owner l = none then some (update owner l (some c)) else none
  | .release l => if owner l = some c then some (update owner l none) else none

namespace SpinState

def goto (s : SpinState κ Λ ℓ δ) (c : κ) (l : ℓ) : SpinState κ Λ ℓ δ :=
  ⟨s.owner, update s.loc c l, s.data⟩

def hold (s : SpinState κ Λ ℓ δ) (c : κ) (m : Λ) : SpinState κ Λ ℓ δ :=
  ⟨update s.owner m (some c), s.loc, s.data⟩

def setData (s : SpinState κ Λ ℓ δ) (d : δ) : SpinState κ Λ ℓ δ := ⟨s.owner, s.loc, d⟩

omit [DecidableEq Λ] in
theorem goto_loc (s : SpinState κ Λ ℓ δ) (c : κ) (l : ℓ) : (s.goto c l).loc c = l := update_self ..

variable {s : SpinState κ Λ ℓ δ}

omit [DecidableEq Λ] in
theorem goto_self {c : κ} {l : ℓ} (h : s.loc c = l) : s.goto c l = s := by
  unfold goto
  rw [← h, update_eq_self]

omit [DecidableEq κ] in
theorem hold_of_ne {c : κ} {m m' : Λ} (h : m' ≠ m) :
    (s.hold c m).owner m' = s.owner m' := update_of_ne h _ _

omit [DecidableEq κ] in
theorem hold_comm {c : κ} {m m' : Λ} (h : m ≠ m') :
    (s.hold c m).hold c m' = (s.hold c m').hold c m := by
  unfold hold
  rw [update_comm h]

end SpinState

namespace SpinCode

variable (C : SpinCode Λ ℓ δ χ)

def machine : Machine (SpinState κ Λ ℓ δ) (κ × χ) where
  step s a :=
    (C.instr s.data (s.loc a.1) a.2).bind fun (op, l, d) =>
      (lockStep s.owner a.1 op).map fun owner => ⟨owner, update s.loc a.1 l, d⟩

def Spins (s : SpinState κ Λ ℓ δ) (c : κ) (m : Λ) : Prop :=
  ∃ ch l d, C.instr s.data (s.loc c) ch = some (.acquire m, l, d)

/-- Two CPUs each hold a lock that the other one is spinning to acquire. -/
def Deadlock (s : SpinState κ Λ ℓ δ) : Prop :=
  ∃ c c' m m', c ≠ c' ∧ C.Spins s c m ∧ s.owner m = some c' ∧ C.Spins s c' m' ∧ s.owner m' = some c

/-- The locks that the code holds at a location are `held`. -/
def Disciplined (held : ℓ → Λ → Prop) : Prop :=
  ∀ d l ch op l' d', C.instr d l ch = some (op, l', d') → ∀ m, held l' m ↔ op.after (held l) m

/-- The owner of each lock is the CPU whose location holds it. -/
def Owned (held : ℓ → Λ → Prop) (s : SpinState κ Λ ℓ δ) : Prop :=
  ∀ m c, s.owner m = some c ↔ held (s.loc c) m

variable {C}

theorem step_eq_some {s s' : SpinState κ Λ ℓ δ} {c : κ} {ch : χ}
    (h : C.machine.step s (c, ch) = some s') :
    ∃ op l d owner, C.instr s.data (s.loc c) ch = some (op, l, d) ∧
      lockStep s.owner c op = some owner ∧ s' = ⟨owner, update s.loc c l, d⟩ := by
  obtain ⟨⟨op, l, d⟩, hinstr, hmap⟩ := Option.bind_eq_some_iff.mp h
  obtain ⟨owner, howner, rfl⟩ := Option.map_eq_some_iff.mp hmap
  exact ⟨op, l, d, owner, hinstr, howner, rfl⟩

omit [DecidableEq κ] [DecidableEq Λ] in
theorem Owned.unique {held : ℓ → Λ → Prop} {s : SpinState κ Λ ℓ δ} (h : Owned held s) {m : Λ}
    {c c' : κ} (hc : held (s.loc c) m) (hc' : held (s.loc c') m) : c = c' := by
  have howner := (h m c).mpr hc
  rw [(h m c').mpr hc'] at howner
  exact (Option.some.inj howner).symm

/-! The steps of a CPU that does not have to wait. -/

section Free

variable {s : SpinState κ Λ ℓ δ} {c : κ} {ch : χ} {l : ℓ} {d : δ} {m : Λ}

theorem step_none (h : C.instr s.data (s.loc c) ch = some (.none, l, d)) :
    C.machine.step s (c, ch) = some ⟨s.owner, update s.loc c l, d⟩ := by
  simp [machine, h, lockStep]

theorem step_acquire (h : C.instr s.data (s.loc c) ch = some (.acquire m, l, d))
    (hfree : s.owner m = none) : C.machine.step s (c, ch) =
      some ⟨update s.owner m (some c), update s.loc c l, d⟩ := by
  simp [machine, h, lockStep, hfree]

theorem step_release (h : C.instr s.data (s.loc c) ch = some (.release m, l, d))
    (howner : s.owner m = some c) : C.machine.step s (c, ch) =
      some ⟨update s.owner m none, update s.loc c l, d⟩ := by
  simp [machine, h, lockStep, howner]

end Free

/-! Steps of one CPU, while the others stay where they are. -/

section Goto

variable {ok : SpinState κ Λ ℓ δ → κ × χ → Prop} {s : SpinState κ Λ ℓ δ} {c : κ} {ch : χ} {l l' : ℓ}
  {m : Λ}

omit [DecidableEq Λ] in
theorem instr_goto {d : δ} {op : LockOp Λ} (h : C.instr s.data l ch = some (op, l', d)) :
    C.instr (s.goto c l).data ((s.goto c l).loc c) ch = some (op, l', d) := by
  rw [s.goto_loc]
  exact h

omit [DecidableEq Λ] in
theorem goto_idem : update (s.goto c l).loc c l' = update s.loc c l' := update_idem ..

theorem reaches_none {d : δ} (hok : ok (s.goto c l) (c, ch))
    (h : C.instr s.data l ch = some (.none, l', d)) :
    C.machine.Reaches ok (s.goto c l) ((s.setData d).goto c l') := by
  refine .single hok ?_
  rw [step_none (instr_goto h), goto_idem]
  rfl

theorem reaches_acquire (hok : ok (s.goto c l) (c, ch))
    (h : C.instr s.data l ch = some (.acquire m, l', s.data)) (hfree : s.owner m = none) :
    C.machine.Reaches ok (s.goto c l) ((s.hold c m).goto c l') := by
  refine .single hok ?_
  rw [step_acquire (instr_goto h) hfree, goto_idem]
  rfl

theorem reaches_release (hok : ok ((s.hold c m).goto c l) (c, ch))
    (h : C.instr s.data l ch = some (.release m, l', s.data)) (hfree : s.owner m = none) :
    C.machine.Reaches ok ((s.hold c m).goto c l) (s.goto c l') := by
  have howner : ((s.hold c m).goto c l).owner m = some c := update_self ..
  have hback : update ((s.hold c m).goto c l).owner m none = s.owner := by
    show update (update s.owner m (some c)) m none = s.owner
    rw [update_idem, ← hfree, update_eq_self]
  refine .single hok ?_
  rw [step_release (instr_goto (s := s.hold c m) h) howner, goto_idem, hback]
  rfl

end Goto

/-- What the owners are after a lock operation. -/
theorem lockStep_eq_some {owner owner' : Λ → Option κ} {c : κ} {op : LockOp Λ}
    (h : lockStep owner c op = some owner') (m : Λ) (c' : κ) :
    owner' m = some c' ↔ if c' = c then op.after (fun m => owner m = some c) m
      else owner m = some c' := by
  cases op with
  | none =>
    cases h
    split_ifs with hc
    · rw [hc, LockOp.after]
    · exact Iff.rfl
  | acquire l =>
    unfold lockStep at h
    dsimp only at h
    split_ifs at h with hfree
    cases h
    by_cases hm : m = l
    · subst hm
      rw [update_self, hfree]
      split_ifs with hc
      · simp [hc, LockOp.after]
      · simp [Ne.symm hc]
    · rw [update_of_ne hm]
      split_ifs with hc
      · simp [hc, LockOp.after, hm]
      · exact Iff.rfl
  | release l =>
    unfold lockStep at h
    dsimp only at h
    split_ifs at h with hown
    cases h
    by_cases hm : m = l
    · subst hm
      rw [update_self, hown]
      split_ifs with hc
      · simp [LockOp.after]
      · simp [Ne.symm hc]
    · rw [update_of_ne hm]
      split_ifs with hc
      · simp [hc, LockOp.after, hm]
      · exact Iff.rfl

/-- A step of disciplined code keeps the owners in line with the locations. -/
theorem Owned.step {held : ℓ → Λ → Prop} (hC : C.Disciplined held) {s s' : SpinState κ Λ ℓ δ}
    {a : κ × χ} (h : Owned held s) (hstep : C.machine.step s a = some s') : Owned held s' := by
  obtain ⟨c, ch⟩ := a
  obtain ⟨op, l, d, owner, hinstr, hlock, rfl⟩ := step_eq_some hstep
  intro m c'
  dsimp only
  rw [lockStep_eq_some hlock m c']
  split_ifs with hc
  · have hsame : (fun m => s.owner m = some c) = held (s.loc c) := by
      ext m
      exact h m c
    rw [hc, update_self, hC _ _ _ _ _ _ hinstr m, hsame]
  · rw [update_of_ne hc]
    exact h m c'

end SpinCode

end Xv6.Lib
