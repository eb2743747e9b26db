import Xv6.Life.Equiv.Threads

/-!
# Parents

What an instruction does to the parents of processes (`Loc.Kin`) and to their states (`Loc.Fate`).
`reparent` and `fork` store a parent with `wait_lock`, so it stays while a thread of the process
holds that lock (`ParentInv.stable`).
-/

namespace Xv6.Life

open Lib Function

/-- What an instruction does to the parents. -/
inductive Loc.Kin (d : Table) (l : Loc) (d' : Table) : Prop where
  | same (parent : d'.parent = d.parent)
  | hand (x : Slot) (k : Fin nproc) (loc : l = .run x (.reparent k))
      (child : d.parent k = some x.1)
      (parent : d'.parent = update d.parent k (some initproc))
  | link (x : Slot) (k : Fin nproc) (loc : l = .run x (.setParent k))
      (parent : d'.parent = update d.parent k (some x.1))
  | clear (x : Slot) (k : Fin nproc) (loc : l = .run x (.waitFree k) ∨ l = .run x (.setup k))
      (state : d'.procState k = .unused) (parent : d'.parent = update d.parent k none)

/-- What an instruction does to the state of process `q`. -/
inductive Loc.Fate (d : Table) (l : Loc) (d' : Table) (q : Fin nproc) : Prop where
  | same (state : d'.procState q = d.procState q)
  | dies (x : Slot) (loc : l = .run x .zombie) (proc : x.1 = q) (state : d'.procState q = .zombie)
  | freed (x : Slot) (loc : l = .run x (.waitFree q) ∨ l = .run x (.setup q))
      (state : d'.procState q = .unused) (parent : d'.parent q = none)
  | taken (allocs : l.Allocs d d' q)

section Kin

variable {d d' : Table} {x : Slot} {l l' : Loc} {line : Line} {op : LockOp LockId} {k : Fin nproc}

theorem Wake.Step.kin {me : Option Slot} {chan : Option Chan} {w w' : Wake}
    (h : Wake.Step d me chan w op w' d') : l.Kin d d' := by
  cases h <;> exact .same rfl

theorem Line.Step.kin {v : Option Line} (h : Line.Step d x line op v d') :
    (Loc.run x line).Kin d d' := by
  cases h with
  | wakeup w w' chan ret op d' h => exact h.kin
  | reparent k hchild => exact .hand x k rfl hchild rfl
  | setParent k => exact .link x k rfl rfl
  | waitFree k => exact .clear x k (.inl rfl) free_self rfl
  | setupFail k => exact .clear x k (.inr rfl) allocFail_self rfl
  | _ => exact .same rfl

/-- The parents change only in `reparent`, in `fork` and when a slot is freed. -/
theorem Loc.Step.kin (h : Loc.Step d l op l' d') : l.Kin d d' := by
  cases h with
  | intr p w w' chan op d' h | run x line line' op d' h => exact h.kin
  | _ => exact .same rfl

/-- The state of a process changes only in `exit`, `wait` and `fork`. -/
theorem Loc.Change.fate (h : l.Change d d') (q : Fin nproc) : l.Fate d d' q := by
  cases h with
  | same agrees | rest x line state loc phase state_eq agrees => exact .same (agrees q).proc
  | die x loc table =>
    by_cases hx : x.1 = q
    · subst hx
      exact .dies x loc rfl (by rw [table]; exact setProcState_self)
    · rw [table]
      exact .same (Table.Agrees.setProcState (Ne.symm hx)).proc
  | free x k loc table =>
    by_cases hk : q = k
    · subst hk
      rw [table]
      exact .freed x (.inl loc) free_self (update_self _ _ _)
    · rw [table]
      exact .same (Table.Agrees.free hk).proc
  | fail x k loc table =>
    by_cases hk : q = k
    · subst hk
      rw [table]
      exact .freed x (.inr loc) allocFail_self (update_self _ _ _)
    · rw [table]
      exact .same (Table.Agrees.allocFail hk).proc
  | alloc x k loc unused table =>
    by_cases hk : q = k
    · subst hk
      exact .taken ⟨x, loc, unused, table⟩
    · rw [table]
      exact .same (Table.Agrees.alloc hk).proc
  | wake _ _ _ _ table | save _ _ _ _ _ table | mark _ _ _ table | start _ _ _ table =>
    rw [table]
    exact .same rfl

/-- A process is dead because it was, or because `exit` has come to its end. -/
theorem Loc.Change.zombie (h : l.Change d d') (hk : d'.procState k = .zombie) :
    d.procState k = .zombie ∨ ∃ x, l = .run x .zombie ∧ x.1 = k := by
  cases h.fate k with
  | same state => exact .inl (state.symm.trans hk)
  | dies x loc proc => exact .inr ⟨x, loc, proc⟩
  | freed x loc state => exact nomatch state.symm.trans hk
  | taken allocs =>
    obtain ⟨x, -, -, table⟩ := allocs
    rw [table, alloc_self] at hk
    cases hk

/-- Only `fork` gives a process without a parent one. -/
theorem Loc.Kin.none (h : l.Kin d d') (hnone : d.parent k = none) :
    d'.parent k = none ∨ ∃ x, l = .run x (.setParent k) := by
  cases h with
  | same parent => exact .inl (by rw [parent, hnone])
  | hand x j loc child parent =>
    left
    rw [parent, update_of_ne, hnone]
    rintro rfl
    rw [hnone] at child
    cases child
  | link x j loc parent =>
    by_cases hk : k = j
    · exact .inr ⟨x, hk ▸ loc⟩
    · exact .inl (by rw [parent, update_of_ne hk, hnone])
  | clear x j loc state parent =>
    left
    rw [parent, update_apply]
    split_ifs
    · rfl
    · exact hnone

end Kin

variable {κ : Type*} {s s' : State κ} {c c' : κ} {x : Slot} {line : Line} {k : Fin nproc}

theorem Stepped.kin (h : Stepped s s' c) : (s.loc c).Kin s.data s'.data := by
  obtain ⟨op, hinstr⟩ := h.instr
  exact hinstr.kin

/-- Two CPUs do not hold one lock. -/
theorem LifeInv.locks (h : LifeInv s) {x' : Slot} {line' : Line} {m : LockId} (hc : c' ≠ c)
    (hl : s.loc c = .run x line) (hl' : s.loc c' = .run x' line') (hm : line.held x.1 m) :
    ¬ line'.held x'.1 m := by
  intro hm'
  refine hc (h.owned.unique (m := m) ?_ ?_)
  · rw [hl']
    exact hm'
  · rw [hl]
    exact hm

/-- The parent of a process stays the same while another CPU runs it with `wait_lock`. -/
theorem LifeInv.parent_stable (h : LifeInv s) (hstep : Stepped s s' c) (hc : c' ≠ c)
    (hl : s.loc c' = .run x line) (hheld : line.held x.1 .wait) :
    s'.data.parent x.1 = s.data.parent x.1 := by
  cases hstep.kin with
  | same parent => rw [parent]
  | hand z k loc | link z k loc => exact absurd hheld (h.locks hc loc hl rfl)
  | clear z k loc state parent =>
    obtain loc | loc := loc
    · exact absurd hheld (h.locks hc loc hl (.inl rfl))
    · -- the process that is being made has no thread on a CPU
      have hemb := h.making c z _ k loc rfl rfl
      rw [parent, update_of_ne]
      exact hemb.ne_of_phase ((h.loc c').phase x line (on_of_loc hl))

/-- `initproc` has no parent, and no process is its own. -/
structure ParentInv (s : State κ) : Prop where
  root : s.data.parent initproc = none
  self : ∀ k, s.data.parent k ≠ some k

/-- One step keeps this. -/
theorem ParentInv.step (hp : ParentInv s) (h : LifeInv s) (hstep : Stepped s s' c) :
    ParentInv s' := by
  have hset : ∀ (k q : Fin nproc), k ≠ initproc → q ≠ k →
      s'.data.parent = update s.data.parent k (some q) → ParentInv s' := by
    intro k q hk hq hparent
    refine ⟨?_, fun j => ?_⟩
    · rw [hparent, update_of_ne hk.symm]
      exact hp.root
    · rw [hparent, update_apply]
      split_ifs with hj
      · rw [hj]
        exact fun heq => hq (Option.some.inj heq)
      · exact hp.self j
  cases hstep.kin with
  | same parent => exact ⟨by rw [parent]; exact hp.root, by rw [parent]; exact hp.self⟩
  | hand x k loc child parent =>
    have hk : k ≠ initproc := by
      rintro rfl
      rw [hp.root] at child
      cases child
    exact hset k initproc hk hk.symm parent
  | link x k loc parent =>
    have hemb := h.making c x _ k loc rfl rfl
    have hx := hemb.ne_of_phase ((h.loc c).phase x _ (on_of_loc loc))
    exact hset k x.1 hemb.ne_init hx parent
  | clear x k loc state parent =>
    refine ⟨?_, fun j => ?_⟩
    · rw [parent, update_apply]
      split_ifs
      · rfl
      · exact hp.root
    · rw [parent, update_apply]
      split_ifs
      · exact nofun
      · exact hp.self j

/-- The parent of a process stays the same in a step of one of its own threads. -/
theorem ParentInv.own (hp : ParentInv s) (h : LifeInv s) (hstep : Stepped s s' c)
    (hl : s.loc c = .run x line) : s'.data.parent x.1 = s.data.parent x.1 := by
  have hphase := (h.loc c).phase x line (on_of_loc hl)
  cases hstep.kin with
  | same parent => rw [parent]
  | hand z k loc child parent =>
    obtain ⟨rfl, -⟩ := Loc.run.inj (hl.symm.trans loc)
    rw [parent, update_of_ne]
    rintro rfl
    exact hp.self x.1 child
  | link z k loc parent =>
    obtain ⟨rfl, -⟩ := Loc.run.inj (hl.symm.trans loc)
    rw [parent, update_of_ne]
    exact (h.making c x _ k loc rfl rfl).ne_of_phase hphase
  | clear z k loc state parent =>
    rw [parent, update_of_ne]
    obtain loc | loc := loc
    · obtain ⟨rfl, rfl⟩ := Loc.run.inj (hl.symm.trans loc)
      rintro rfl
      exact hphase.1.2 ((h.loc c).reaping x _ x.1 (on_of_loc loc) rfl)
    · obtain ⟨rfl, -⟩ := Loc.run.inj (hl.symm.trans loc)
      exact (h.making c x _ k loc rfl rfl).ne_of_phase hphase

/-- The parent of a process stays the same while one of its threads holds `wait_lock`. -/
theorem ParentInv.stable (hp : ParentInv s) (h : LifeInv s) (hstep : Stepped s s' c)
    (hl : s.loc c' = .run x line) (hheld : line.held x.1 .wait) :
    s'.data.parent x.1 = s.data.parent x.1 := by
  by_cases hc : c' = c
  · subst hc
    exact hp.own h hstep hl
  · exact h.parent_stable hstep hc hl hheld

theorem Start.parentInv (h : Start s) : ParentInv s := ⟨h.init.2, h.parent⟩

end Xv6.Life
