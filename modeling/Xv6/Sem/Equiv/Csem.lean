import Mathlib.Tactic.Linarith
import Xv6.Sem.Csem

/-!
# The counting semaphore counts

While the count is positive, exactly one has the right to pass the gate (`CsemInv`): the open gate;
the thread that has passed it and not yet decremented; the thread that is about to open it
(`CsemPc.Token`).
-/

namespace Xv6

open Lib Function Option

namespace CsemPc

/-- The thread holds `bsem1`. -/
def Locked : CsemPc → Prop
  | .downDec | .downTest | .downOpen | .downUnlock | .upInc | .upTest | .upOpen | .upUnlock => True
  | _ => False

def Token (count : Int) : CsemPc → Prop
  | .downLock | .downDec | .downOpen | .upOpen => True
  | .downTest => 0 < count
  | .upTest => count = 1
  | _ => False

/-- A thread that does not hold `bsem1` keeps its right whatever the count becomes. -/
theorem token_congr {pc : CsemPc} (h : ¬ pc.Locked) (c c' : Int) : pc.Token c ↔ pc.Token c' := by
  cases pc <;> simp_all [Locked, Token]

end CsemPc

section

variable {ι : Type*} [DecidableEq ι]

/-- `owner` holds `bsem1`; `holder` is where the right to pass the gate is: nowhere, in the open
gate, or with a thread. -/
structure CsemInv (n : Int) (owner : Option ι) (holder : Option (Option ι)) (s : CsemState ι) :
    Prop where
  ne : s.sem.bsem1 ≠ s.sem.bsem2
  lock_value : s.bsems s.sem.bsem1 = if owner = none then 1 else 0
  gate_value : s.bsems s.sem.bsem2 = if holder = some none then 1 else 0
  locked_iff : ∀ i, (s.pc i).Locked ↔ owner = some i
  token_iff : ∀ i, (s.pc i).Token s.sem.count ↔ holder = some (some i)
  pos_iff : 0 < s.sem.count ↔ holder ≠ none
  count_eq : s.sem.count = n + s.ups - s.downs
  count_nonneg : 0 ≤ s.sem.count
  count_le : s.sem.count ≤ intMax

variable {n : Int} {s s' : CsemState ι} {owner : Option ι} {holder : Option (Option ι)}

namespace CsemInv

variable {i : ι} {q : CsemPc}

section

variable (h : CsemInv n owner holder s)

include h

/-- The roles of all threads after thread `i` goes to line `q`. -/
theorem locked_goto {owner' : Option ι}
    (hi : q.Locked ↔ owner' = some i) (hj : ∀ j, j ≠ i → (owner = some j ↔ owner' = some j)) :
    ∀ j, (update s.pc i q j).Locked ↔ owner' = some j :=
  (forall_update_iff s.pc (p := fun j pc => CsemPc.Locked pc ↔ owner' = some j)).mpr
    ⟨hi, fun j hne => (h.locked_iff j).trans (hj j hne)⟩

theorem token_goto {c : Int} {holder' : Option (Option ι)}
    (hi : q.Token c ↔ holder' = some (some i))
    (hc : ∀ j, j ≠ i → ((s.pc j).Token c ↔ (s.pc j).Token s.sem.count))
    (hj : ∀ j, j ≠ i → (holder = some (some j) ↔ holder' = some (some j))) :
    ∀ j, (update s.pc i q j).Token c ↔ holder' = some (some j) :=
  (forall_update_iff s.pc
    (p := fun j pc => CsemPc.Token c pc ↔ holder' = some (some j))).mpr
    ⟨hi, fun j hne => (hc j hne).trans ((h.token_iff j).trans (hj j hne))⟩

/-- A step to a line with the same roles that changes nothing else. -/
theorem goto (hl : q.Locked ↔ (s.pc i).Locked)
    (ht : q.Token s.sem.count ↔ (s.pc i).Token s.sem.count) :
    CsemInv n owner holder (s.goto i q) where
  ne := h.ne
  lock_value := h.lock_value
  gate_value := h.gate_value
  locked_iff := h.locked_goto (hl.trans (h.locked_iff i)) fun _ _ => Iff.rfl
  token_iff := h.token_goto (ht.trans (h.token_iff i)) (fun _ _ => Iff.rfl) fun _ _ => Iff.rfl
  pos_iff := h.pos_iff
  count_eq := h.count_eq
  count_nonneg := h.count_nonneg
  count_le := h.count_le

/-- `bsem_down(sem->bsem1)`: the semaphore was free, and now belongs to thread `i`. -/
theorem lock {t : Bsems}
    (hdown : s.bsems.bsemDown s.sem.bsem1 = some t) (hl : q.Locked)
    (ht : q.Token s.sem.count ↔ (s.pc i).Token s.sem.count) :
    CsemInv n (some i) holder ({ s with bsems := t }.goto i q) := by
  unfold Bsems.bsemDown at hdown
  split_ifs at hdown with h0
  cases hdown
  have howner : owner = none := by
    by_contra hne
    rw [h.lock_value, if_neg hne] at h0
    exact h0 rfl
  refine ⟨h.ne, ?_, ?_, ?_, ?_, h.pos_iff, h.count_eq, h.count_nonneg, h.count_le⟩
  · show update s.bsems s.sem.bsem1 0 s.sem.bsem1 = _
    rw [update_self, if_neg (some_ne_none i)]
  · show update s.bsems s.sem.bsem1 0 s.sem.bsem2 = _
    rw [update_of_ne h.ne.symm, h.gate_value]
  · refine h.locked_goto (iff_of_true hl rfl) fun j hj => ?_
    rw [howner]
    simp [Ne.symm hj]
  · exact h.token_goto (ht.trans (h.token_iff i)) (fun _ _ => Iff.rfl) fun _ _ => Iff.rfl

/-- `bsem_up(sem->bsem1)` by its owner, which leaves the function. -/
theorem unlock (hl : (s.pc i).Locked)
    (ht : ¬ (s.pc i).Token s.sem.count) :
    CsemInv n none holder ({ s with bsems := s.bsems.bsemUp s.sem.bsem1 }.goto i .idle) := by
  have howner := (h.locked_iff i).mp hl
  refine ⟨h.ne, ?_, ?_, ?_, ?_, h.pos_iff, h.count_eq, h.count_nonneg, h.count_le⟩
  · show update s.bsems s.sem.bsem1 1 s.sem.bsem1 = _
    rw [update_self, if_pos rfl]
  · show update s.bsems s.sem.bsem1 1 s.sem.bsem2 = _
    rw [update_of_ne h.ne.symm, h.gate_value]
  · refine h.locked_goto (iff_of_false id (by simp)) fun j hj => ?_
    rw [howner]
    simp [Ne.symm hj]
  · exact h.token_goto (iff_of_false id fun hh => ht ((h.token_iff i).mpr hh)) (fun _ _ => Iff.rfl)
      fun _ _ => Iff.rfl

/-- `bsem_down(sem->bsem2)`: the gate was open, and thread `i` takes the right to pass it. -/
theorem pass {t : Bsems}
    (hdown : s.bsems.bsemDown s.sem.bsem2 = some t) (hl : ¬ (s.pc i).Locked) :
    CsemInv n owner (some (some i)) ({ s with bsems := t }.goto i .downLock) := by
  unfold Bsems.bsemDown at hdown
  split_ifs at hdown with h0
  cases hdown
  have hholder : holder = some none := by
    by_contra hne
    rw [h.gate_value, if_neg hne] at h0
    exact h0 rfl
  refine ⟨h.ne, ?_, ?_, ?_, ?_, ?_, h.count_eq, h.count_nonneg, h.count_le⟩
  · show update s.bsems s.sem.bsem2 0 s.sem.bsem1 = _
    rw [update_of_ne h.ne, h.lock_value]
  · show update s.bsems s.sem.bsem2 0 s.sem.bsem2 = _
    rw [update_self, if_neg (by simp)]
  · exact h.locked_goto (iff_of_false id fun hh => hl ((h.locked_iff i).mpr hh)) fun _ _ => Iff.rfl
  · refine h.token_goto (iff_of_true trivial rfl) (fun _ _ => Iff.rfl) fun j hj => ?_
    rw [hholder]
    simp [Ne.symm hj]
  · show 0 < s.sem.count ↔ _
    rw [h.pos_iff, hholder]
    simp

/-- `bsem_up(sem->bsem2)` by the thread with the right to pass the gate. -/
theorem openGate (hl : q.Locked ↔ (s.pc i).Locked)
    (ht : (s.pc i).Token s.sem.count) (hq : ¬ q.Token s.sem.count) :
    CsemInv n owner (some none)
      ({ s with bsems := s.bsems.bsemUp s.sem.bsem2 }.goto i q) := by
  have hholder := (h.token_iff i).mp ht
  refine ⟨h.ne, ?_, ?_, ?_, ?_, ?_, h.count_eq, h.count_nonneg, h.count_le⟩
  · show update s.bsems s.sem.bsem2 1 s.sem.bsem1 = _
    rw [update_of_ne h.ne, h.lock_value]
  · show update s.bsems s.sem.bsem2 1 s.sem.bsem2 = _
    rw [update_self, if_pos rfl]
  · exact h.locked_goto (hl.trans (h.locked_iff i)) fun _ _ => Iff.rfl
  · refine h.token_goto (iff_of_false hq (by simp)) (fun _ _ => Iff.rfl) fun j hj => ?_
    rw [hholder]
    simp [Ne.symm hj]
  · show 0 < s.sem.count ↔ _
    rw [h.pos_iff, hholder]
    simp

/-- The owner of `bsem1` changes the count to `c`, and the right to pass the gate to `holder'`. -/
theorem setCount {c : Int} {ups downs : Nat}
    {holder' : Option (Option ι)} (hp : (s.pc i).Locked) (hl : q.Locked)
    (ht : q.Token c ↔ holder' = some (some i))
    (hj : ∀ j, j ≠ i → (holder = some (some j) ↔ holder' = some (some j)))
    (hgate : holder = some none ↔ holder' = some none) (hpos : 0 < c ↔ holder' ≠ none)
    (hc : c = n + ups - downs) (hlo : 0 ≤ c) (hhi : c ≤ intMax) :
    CsemInv n owner holder'
      (({ s with ups := ups, downs := downs }.setCount c).goto i q) := by
  have hcount : int32 c = c := int32_of_mem (by omega) hhi
  have howner := (h.locked_iff i).mp hp
  -- the other threads do not hold `bsem1`, so their rights do not depend on the count
  have hfree : ∀ j, j ≠ i → ¬ (s.pc j).Locked := by
    intro j hne hlj
    have := (h.locked_iff j).mp hlj
    rw [howner] at this
    exact hne (Option.some.inj this).symm
  refine ⟨h.ne, h.lock_value, ?_, ?_, ?_, ?_, ?_, ?_, ?_⟩
  · show s.bsems s.sem.bsem2 = _
    rw [h.gate_value]
    simp only [hgate]
  · exact h.locked_goto (iff_of_true hl howner) fun _ _ => Iff.rfl
  · show ∀ j, (update s.pc i q j).Token (int32 c) ↔ _
    rw [hcount]
    exact h.token_goto ht (fun j hne => CsemPc.token_congr (hfree j hne) _ _) hj
  all_goals
    simp only [CsemState.goto, CsemState.setCount, hcount]
    assumption

theorem next (hok : s.NoOverflow (.next i))
    (hstep : s.next i = some s') : ∃ owner' holder', CsemInv n owner' holder' s' := by
  unfold CsemState.next at hstep
  split at hstep
  case h_1 => cases hstep
  case h_2 hpc =>
    -- csem_down: bsem_down(sem->bsem2)
    rw [map_eq_some_iff] at hstep
    obtain ⟨t, ht, rfl⟩ := hstep
    exact ⟨_, _, h.pass ht (by rw [hpc]; exact id)⟩
  case h_3 hpc =>
    rw [map_eq_some_iff] at hstep
    obtain ⟨t, ht, rfl⟩ := hstep
    exact ⟨_, _, h.lock ht trivial (by rw [hpc]; exact Iff.rfl)⟩
  case h_4 hpc =>
    -- sem->count -= 1: the thread gives up its right, unless units are left
    cases hstep
    have hl : (s.pc i).Locked := by rw [hpc]; trivial
    have hhold := (h.token_iff i).mp (by rw [hpc]; trivial)
    have hpos := h.pos_iff.mpr (by rw [hhold]; simp)
    have hle := h.count_le
    have hceq := h.count_eq
    refine ⟨_, if 0 < s.sem.count - 1 then holder else none,
      h.setCount hl trivial ?_ ?_ ?_ ?_ (by push_cast; omega) (by omega) (by omega)⟩
    · show 0 < s.sem.count - 1 ↔ _
      split_ifs with hc
      · exact iff_of_true hc hhold
      · exact iff_of_false hc (by simp)
    · intro j hj
      rw [hhold]
      split_ifs <;> simp [Ne.symm hj]
    · rw [hhold]
      split_ifs <;> simp
    · split_ifs with hc
      · exact iff_of_true hc (by simp [hhold])
      · exact iff_of_false hc (by simp)
  case h_5 hpc =>
    cases hstep
    refine ⟨_, _, h.goto ?_ ?_⟩ <;> rw [hpc] <;> split_ifs with hc <;>
      simp [CsemPc.Locked, CsemPc.Token, hc]
  case h_6 hpc =>
    cases hstep
    exact ⟨_, _, h.openGate (by rw [hpc]; exact Iff.rfl) (by rw [hpc]; trivial) id⟩
  case h_7 hpc =>
    cases hstep
    exact ⟨_, _, h.unlock (by rw [hpc]; trivial) (by rw [hpc]; exact id)⟩
  case h_8 hpc =>
    -- csem_up: bsem_down(sem->bsem1)
    rw [map_eq_some_iff] at hstep
    obtain ⟨t, ht, rfl⟩ := hstep
    exact ⟨_, _, h.lock ht trivial (by rw [hpc]; exact Iff.rfl)⟩
  case h_9 hpc =>
    -- sem->count += 1: the first unit gives the thread the right to open the gate
    cases hstep
    have hl : (s.pc i).Locked := by rw [hpc]; trivial
    have hno : holder ≠ some (some i) := fun hh => by
      have := (h.token_iff i).mpr hh
      rw [hpc] at this
      exact this
    have hlt : s.sem.count + 1 ≤ intMax := by
      have := h.count_le
      have := hok hpc
      omega
    have hnonneg := h.count_nonneg
    have hceq := h.count_eq
    have hpos := h.pos_iff
    refine ⟨_, if s.sem.count = 0 then some (some i) else holder,
      h.setCount hl trivial ?_ ?_ ?_ ?_ (by push_cast; omega) (by omega) hlt⟩
    · show s.sem.count + 1 = 1 ↔ _
      split_ifs with hc
      · simp [hc]
      · simp [hc, hno]
    · intro j hj
      split_ifs with hc
      · have : holder = none := by
          by_contra hne
          exact absurd (hpos.mpr hne) (by omega)
        rw [this]
        simp [Ne.symm hj]
      · exact Iff.rfl
    · split_ifs with hc
      · have : holder = none := by
          by_contra hne
          exact absurd (hpos.mpr hne) (by omega)
        rw [this]
        simp
      · exact Iff.rfl
    · split_ifs with hc
      · simp [hc]
      · rw [← hpos]
        omega
  case h_10 hpc =>
    cases hstep
    refine ⟨_, _, h.goto ?_ ?_⟩ <;> rw [hpc] <;> split_ifs with hc <;>
      simp [CsemPc.Locked, CsemPc.Token, hc]
  case h_11 hpc =>
    cases hstep
    exact ⟨_, _, h.openGate (by rw [hpc]; exact Iff.rfl) (by rw [hpc]; trivial) id⟩
  case h_12 hpc =>
    cases hstep
    exact ⟨_, _, h.unlock (by rw [hpc]; trivial) (by rw [hpc]; exact id)⟩

theorem step {a : CsemAct ι} (hok : s.NoOverflow a)
    (hstep : s.step a = some s') : ∃ owner' holder', CsemInv n owner' holder' s' := by
  cases a with
  | callDown | callUp =>
    simp only [CsemState.step] at hstep
    split_ifs at hstep with hpc
    cases hstep
    exact ⟨_, _, h.goto (by rw [hpc]; exact Iff.rfl) (by rw [hpc]; exact Iff.rfl)⟩
  | next => exact h.next hok hstep

/-- With no thread in the middle of a call, the right to pass is in the gate or nowhere. -/
theorem gate_iff_of_quiet (hq : s.Quiet) :
    s.gate = 1 ↔ 0 < s.sem.count := by
  have hnone : ∀ i, holder ≠ some (some i) := by
    intro i hi
    have htok := (h.token_iff i).mpr hi
    rcases hq i with hpc | hpc | hpc <;> rw [hpc] at htok <;> exact htok
  have hgate : s.gate = if holder = some none then 1 else 0 := h.gate_value
  rw [hgate, h.pos_iff]
  rcases holder with _ | _ | i
  · simp
  · simp
  · exact absurd rfl (hnone i)

end

end CsemInv

end

/-! ### `csem_alloc` -/

variable {t t' : Bsems}

theorem bsemAlloc_eq_some {i : Fin maxBsem} (h : t.bsemAlloc = (some i, t')) :
    t i = -1 ∧ t' = update t i 1 := by
  unfold Bsems.bsemAlloc at h
  split at h
  · rename_i j hj
    simp only [Prod.mk.injEq, Option.some.injEq] at h
    obtain ⟨rfl, rfl⟩ := h
    exact ⟨by simpa using List.find?_some hj, rfl⟩
  · simp at h

theorem bsemAlloc_eq_none (h : t.bsemAlloc = (none, t')) : (∀ i, t i ≠ -1) ∧ t' = t := by
  unfold Bsems.bsemAlloc at h
  split at h
  · simp at h
  · rename_i hnone
    refine ⟨fun i => ?_, (Prod.mk.inj h).2.symm⟩
    simpa using List.find?_eq_none.mp hnone i (List.mem_finRange i)

/-- A successful `csem_alloc` takes two free descriptors, with a free lock and the gate's first
value. -/
theorem csemAlloc_eq_some {n : Int} {sem : CountingSemaphore} (h : csemAlloc t n = (some sem, t')) :
    sem.bsem1 ≠ sem.bsem2 ∧ sem.count = n ∧ (t sem.bsem1 = -1 ∧ t sem.bsem2 = -1) ∧
      t' = update (update t sem.bsem1 1) sem.bsem2 (if n = 0 then 0 else 1) := by
  unfold csemAlloc at h
  rcases h1 : t.bsemAlloc with ⟨r1, t1⟩
  rcases h2 : t1.bsemAlloc with ⟨r2, t2⟩
  simp only [h1, h2] at h
  split at h
  · rename_i bsem1 bsem2
    obtain ⟨hfree1, rfl⟩ := bsemAlloc_eq_some h1
    obtain ⟨hfree2, rfl⟩ := bsemAlloc_eq_some h2
    -- the second descriptor is still free after the first one has been taken
    have hne : bsem1 ≠ bsem2 := by
      rintro rfl
      rw [update_self] at hfree2
      exact absurd hfree2 (by decide)
    rw [update_of_ne hne.symm] at hfree2
    obtain ⟨hsem, rfl⟩ := Prod.mk.inj h
    cases hsem
    refine ⟨hne, rfl, ⟨hfree1, hfree2⟩, ?_⟩
    split_ifs <;> simp [Bsems.bsemDown]
  · simp at h

/-- `csem_alloc` fails when at most one descriptor is free, and then it keeps that one. -/
theorem csemAlloc_eq_none {n : Int} (h : csemAlloc t n = (none, t')) :
    ((∀ i, t i ≠ -1) ∧ t' = t) ∨ ((∃! i, t i = -1) ∧ t' ≠ t) := by
  unfold csemAlloc at h
  rcases h1 : t.bsemAlloc with ⟨_ | i, t1⟩
  all_goals
    rcases h2 : t1.bsemAlloc with ⟨_ | j, t2⟩
  · simp only [h1, h2] at h
    cases h
    obtain ⟨hnone, rfl⟩ := bsemAlloc_eq_none h1
    exact .inl ⟨hnone, (bsemAlloc_eq_none h2).2⟩
  · obtain ⟨hnone, rfl⟩ := bsemAlloc_eq_none h1
    exact absurd (bsemAlloc_eq_some h2).1 (hnone j)
  · simp only [h1, h2] at h
    cases h
    obtain ⟨hi, rfl⟩ := bsemAlloc_eq_some h1
    obtain ⟨hnone, rfl⟩ := bsemAlloc_eq_none h2
    refine .inr ⟨⟨i, hi, fun j hj => ?_⟩, fun heq => ?_⟩
    · by_contra hne
      exact hnone j (by rw [update_of_ne hne, hj])
    · have hone := congrFun heq i
      rw [update_self, hi] at hone
      exact absurd hone (by decide)
  · simp [h1, h2] at h

/-- **`csem_alloc` fails cleanly**, exactly if not just one descriptor is free. -/
theorem csemAlloc_clean {n : Int} (hn : 0 ≤ n) :
    (csemAlloc t n = (none, t) ∨ ∃ sem t', csemAlloc t n = (some sem, t') ∧
      sem.bsem1 ≠ sem.bsem2 ∧ (t sem.bsem1 = -1 ∧ t sem.bsem2 = -1) ∧ t' sem.bsem1 = 1 ∧
      t' sem.bsem2 = min 1 n ∧ ∀ i, i ≠ sem.bsem1 → i ≠ sem.bsem2 → t' i = t i) ↔
    ¬∃! i, t i = -1 := by
  rcases h : csemAlloc t n with ⟨_ | sem, t'⟩
  · rcases csemAlloc_eq_none h with ⟨hnone, rfl⟩ | ⟨hone, hne⟩
    · refine iff_of_true (.inl rfl) ?_
      rintro ⟨i, hi, -⟩
      exact hnone i hi
    · refine iff_of_false ?_ (not_not.mpr hone)
      rintro (heq | ⟨sem, t₂, heq, -⟩)
      · exact hne (Prod.mk.inj heq).2
      · cases (Prod.mk.inj heq).1
  · obtain ⟨hne, -, hold, rfl⟩ := csemAlloc_eq_some h
    refine iff_of_true (.inr ⟨sem, _, rfl, hne, hold, ?_, ?_, fun i h1 h2 => ?_⟩) ?_
    · rw [update_of_ne hne, update_self]
    · rw [update_self]
      split_ifs <;> omega
    · rw [update_of_ne h2, update_of_ne h1]
    · rintro ⟨i, -, hi⟩
      exact hne ((hi _ hold.1).trans (hi _ hold.2).symm)

theorem csemInv_csemInit (ι : Type*) [DecidableEq ι] {n : Int} {sem : CountingSemaphore}
    (hn : 0 ≤ n) (hmax : n ≤ intMax) (h : csemAlloc t n = (some sem, t')) :
    CsemInv n none (if n = 0 then none else some none) (csemInit ι sem t') := by
  obtain ⟨hne, hcount, -, rfl⟩ := csemAlloc_eq_some h
  refine ⟨hne, ?_, ?_, ?_, ?_, ?_, ?_, ?_, ?_⟩
  · show update _ _ _ sem.bsem1 = _
    rw [update_of_ne hne, update_self, if_pos rfl]
  · simp only [csemInit, update_self]
    split_ifs <;> simp_all
  · intro i
    simp [csemInit, CsemPc.Locked]
  · intro i
    split_ifs <;> simp [csemInit, CsemPc.Token]
  · show 0 < sem.count ↔ _
    rw [hcount]
    split_ifs with h0
    · simp [h0]
    · exact iff_of_true (by omega) (by simp)
  · simp [csemInit, hcount]
  · exact hcount.symm ▸ hn
  · exact hcount.symm ▸ hmax

/-! ### Whole runs -/

/-- **The counting semaphore counts**: in every run of any threads in which no `csem_up` increments
a count of `2^31 - 1`, the count is never negative, the decrements never exceed `n` plus the
increments, and while no thread is in the middle of a call the gate is open exactly when a unit is
available. -/
theorem csem_counts (ι : Type*) [DecidableEq ι] {t t' : Bsems} {n : Int}
    {sem : CountingSemaphore} (hn : 0 ≤ n) (hmax : n ≤ intMax)
    (halloc : csemAlloc t n = (some sem, t')) {acts : List (CsemAct ι)} {s : CsemState ι}
    (hrun : (csemMachine ι).run (csemInit ι sem t') acts = some s)
    (hok : (csemMachine ι).Meets CsemState.NoOverflow (csemInit ι sem t') acts) :
    0 ≤ s.sem.count ∧ (s.downs : Int) ≤ n + s.ups ∧ (s.Quiet → (s.gate = 1 ↔ 0 < s.sem.count)) := by
  have hinv : ∃ owner holder, CsemInv n owner holder s := by
    refine (csemMachine ι).invariant_of_meets
      (I := fun s => ∃ owner holder, CsemInv n owner holder s) ?_ acts _ s
      ⟨_, _, csemInv_csemInit ι hn hmax halloc⟩ hok hrun
    rintro s a s' ⟨owner, holder, h⟩ hoka hstep
    exact h.step hoka hstep
  obtain ⟨owner, holder, h⟩ := hinv
  have hcount := h.count_eq
  have hnonneg := h.count_nonneg
  exact ⟨hnonneg, by omega, h.gate_iff_of_quiet⟩

/-- A table with every descriptor free, as the kernel starts. -/
def freeBsems : Bsems := fun _ => -1

/-- Only the last two descriptors are free. -/
def twoFree : Bsems := fun i => if 126 ≤ i.val then -1 else 1

theorem csemAlloc_clean_two : ∃ sem t', csemAlloc twoFree 1 = (some sem, t') ∧
    sem.bsem1 ≠ sem.bsem2 ∧ t' sem.bsem1 = 1 ∧ t' sem.bsem2 = 1 := by
  have hfree : ¬∃! i, twoFree i = -1 := by
    rintro ⟨i, -, hi⟩
    exact absurd ((hi ⟨126, by decide⟩ rfl).trans (hi ⟨127, by decide⟩ rfl).symm) (by decide)
  obtain h | ⟨sem, t', h, hne, -, h1, h2, -⟩ := (csemAlloc_clean (n := 1) (by decide)).mpr hfree
  · exact absurd (congrArg (fun r => r.1.isNone) h) (by decide +kernel)
  · exact ⟨sem, t', h, hne, h1, h2⟩

/-- Only the last descriptor is free: `csem_alloc` fails and keeps it. -/
theorem csemAlloc_leaks : ∃ t : Bsems, (csemAlloc t 1).1 = none ∧ (csemAlloc t 1).2 ≠ t := by
  refine ⟨fun i => if i.val = 127 then -1 else 1, by decide +kernel, fun h => ?_⟩
  exact absurd (congrFun h ⟨127, by decide⟩) (by decide +kernel)

/-- The second `csem_down` waits at the gate until the `csem_up` of the first thread opens it. -/
def downDownUp : List (CsemAct Nat) :=
  [.callDown 0, .next 0, .callDown 1, .next 0, .next 0, .next 0, .next 0,
    .callUp 0, .next 0, .next 0, .next 0, .next 0, .next 0, .next 1]

theorem csem_counts_downDownUp :
    ∃ sem t' s, csemAlloc freeBsems 1 = (some sem, t') ∧
      (csemMachine Nat).run (csemInit Nat sem t') downDownUp = some s ∧
      0 ≤ s.sem.count ∧ (s.downs : Int) ≤ 1 + s.ups ∧
      (s.Quiet → (s.gate = 1 ↔ 0 < s.sem.count)) := by
  have halloc : csemAlloc freeBsems 1 = (some ⟨0, 1, 1⟩, (csemAlloc freeBsems 1).2) :=
    Prod.ext (by decide +kernel) rfl
  obtain ⟨s, hs⟩ := isSome_iff_exists.mp (show ((csemMachine Nat).run
    (csemInit Nat ⟨0, 1, 1⟩ (csemAlloc freeBsems 1).2) downDownUp).isSome by decide +kernel)
  exact ⟨_, _, s, halloc, hs, csem_counts Nat (by decide) (by decide) halloc hs (by decide +kernel)⟩

/-- A `csem_up` on a semaphore of the largest count leaves a negative count. -/
theorem csemUp_intMax_negative :
    ∃ sem t' s, csemAlloc freeBsems intMax = (some sem, t') ∧
      (csemMachine (Fin 1)).run (csemInit (Fin 1) sem t')
        [.callUp 0, .next 0, .next 0] = some s ∧
      s.sem.count < 0 := by
  have halloc : csemAlloc freeBsems intMax =
      (some ⟨0, 1, intMax⟩, (csemAlloc freeBsems intMax).2) :=
    Prod.ext (by decide +kernel) rfl
  have hcount : ((csemMachine (Fin 1)).run
      (csemInit (Fin 1) ⟨0, 1, intMax⟩ (csemAlloc freeBsems intMax).2)
      [.callUp 0, .next 0, .next 0]).map (fun s => s.sem.count) = some (-2 ^ 31) := by
    decide +kernel
  obtain ⟨s, hs, hc⟩ := map_eq_some_iff.mp hcount
  exact ⟨_, _, s, halloc, hs, by rw [hc]; decide⟩

end Xv6
