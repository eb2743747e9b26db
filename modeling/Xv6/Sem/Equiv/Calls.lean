import Xv6.Sem.Equiv.Csem
import Xv6.Sem.Threads
import Xv6.Sleep.Equiv.Step

/-!
# The calls of the binary semaphores, rule by rule

What a thread in one of the calls can do (`Point.Rule`), with which locks it is where (`Fits`), and
what the operations on the table keep (`Sems.Ok`): an allocated semaphore is 0 or 1, and was taken
at most once more often than released.
-/

namespace Xv6.Sem

open Lib Sleep
open Function (update update_of_ne update_self)

/-! ### The lines of the calls -/

/-- The line behind `acquire(&pid_lock)`. -/
def Point.entry : Point → Option Point
  | .alloc => some .allocScan
  | .free i => some (.freeSet i)
  | .down i => some (.downTest i)
  | .up i => some (.upSet i)
  | _ => none

inductive Point.Rule (v : Sems) : Point → Input → Op Sems Point Int → Prop where
  | call (c : Syscall) (q : Point) (hq : q.on = c.on) (hfrees : q.frees = c.frees)
      (hlock : q.entry ≠ none) : Rule v .user (.call c) (.store v q)
  | kill (k : Option (Fin nproc)) : Rule v .user (.call (.kill k)) (.wake (.kill k) .user)
  | acquire (p q : Point) (h : p.entry = some q) : Rule v p .next (.acquire pidLock q)
  | alloc : Rule v .allocScan .next (.store v.alloc .unlock)
  | free (i : Int) : Rule v (.freeSet i) .next (.store (v.free i) .unlock)
  | sleep (i : Int) (h : v.bsems i = 0) : Rule v (.downTest i) .next (.sleep i (.downTest i))
  | down (i : Int) (h : v.bsems i ≠ 0) : Rule v (.downTest i) .next (.store (v.down i) .unlock)
  | up (i : Int) : Rule v (.upSet i) .next (.store (v.up i) (.upWake i))
  | wake (i : Int) : Rule v (.upWake i) .next (.wake (.chan chanel) .unlock)
  | release : Rule v .unlock .next (.release pidLock .user)

theorem Point.op_rule {v : Sems} {p : Point} {ch : Input} {o : Op Sems Point Int}
    (h : bsemProgram.op v p ch = some o) : Point.Rule v p ch o := by
  have hop : p.op v ch = some o := h
  unfold Point.op at hop
  split at hop
  case h_1 c =>
    cases hop
    cases c with
    | kill k => exact .kill k
    | _ => exact .call _ _ rfl rfl nofun
  case h_7 i =>
    split_ifs at hop with hi <;> cases hop
    · exact .sleep i hi
    · exact .down i hi
  case h_2 | h_4 | h_6 | h_8 =>
    cases hop
    exact .acquire _ _ rfl
  case h_12 => cases hop
  all_goals
    cases hop
    constructor

def Point.locks : Point → Finset Nat
  | .allocScan | .freeSet _ | .downTest _ | .upSet _ | .upWake _ | .unlock => {pidLock}
  | _ => ∅

def Fits : Line Point Int → Prop
  | .code (.out hs p) => hs = p.locks
  | .code (.wake _ t hs p) => hs = p.locks ∧ (p = .user ∨ p = .unlock ∧ t = .chan chanel)
  | .sleepLock i p | .sleepUnlock i p | .sleepState i p | .sleepSched i p | .slept i p
  | .relock i p | .yieldLock (.relock i p) | .yieldState (.relock i p) | .yieldSched (.relock i p)
  | .yielded (.relock i p) => p = .downTest i
  | .yieldLock (.go p) | .yieldState (.go p) | .yieldSched (.go p) | .yielded (.go p)
  | .forkret p => p.locks = ∅
  | .exitLock | .exitSched | .zombieExit => True

section Lines

variable {d d' : Table Sems Point Int} {x : Slot} {ch : Choice Input} {line line' : Line Point Int}
  {op : LockOp LockId}

theorem locks_of_entry {p q : Point} (h : p.entry = some q) :
    p.locks = ∅ ∧ q.locks = {pidLock} ∧ q.on = p.on ∧ q.frees = p.frees := by
  cases p with
  | alloc | free | down | up =>
    cases h
    exact ⟨rfl, rfl, rfl, rfl⟩
  | _ => cases h

theorem locks_of_entry_ne {p : Point} (h : p.entry ≠ none) : p.locks = ∅ := by
  obtain ⟨q, hq⟩ := Option.ne_none_iff_exists'.mp h
  exact (locks_of_entry hq).1

theorem fits_step (h : Line.Step bsemProgram d x ch line op (some line') d') (hfits : Fits line) :
    Fits line' := by
  cases h with
  | code ch c c' op d' h =>
    cases h with
    | acquire hs p q ch n hop =>
      cases Point.op_rule hop with
      | acquire _ _ hentry =>
        obtain ⟨hp, hq, -⟩ := locks_of_entry hentry
        simp only [Fits] at hfits ⊢
        rw [hfits, hp, hq]
        rfl
    | release hs p q ch n hop =>
      cases Point.op_rule hop with
      | release =>
        simp only [Fits] at hfits ⊢
        rw [hfits]
        decide
    | store hs p q ch v hop =>
      simp only [Fits] at hfits ⊢
      cases Point.op_rule hop with
      | call c _ hq hfrees hlock => rw [hfits, locks_of_entry_ne hlock]; rfl
      | _ => rw [hfits]; rfl
    | wake hs p q ch t hop =>
      simp only [Fits] at hfits ⊢
      cases Point.op_rule hop with
      | kill => exact ⟨hfits, .inl rfl⟩
      | wake => exact ⟨hfits, .inr ⟨rfl, rfl⟩⟩
    | walk => exact hfits
    | walked => exact hfits.1
  | sleep p q ch i hop =>
    cases Point.op_rule hop with
    | sleep => rfl
  | mark hs p q ch l hop | exit p ch hop => cases Point.op_rule hop
  | relock i p =>
    obtain rfl : p = .downTest i := hfits
    rfl
  | yield | yielded | forkret => exact hfits.symm
  | yieldLock r | yieldState r => cases r <;> exact hfits
  | exitLock => trivial
  | _ => exact hfits

theorem fits_saved {context : Saved Point Int} (h : line.saved = some context) (hfits : Fits line) :
    Fits context.line := by
  cases line with
  | sleepSched | exitSched =>
    cases h
    exact hfits
  | yieldSched r =>
    cases h
    cases r <;> exact hfits
  | _ => cases h

end Lines

/-! ### The table -/

/-- The semaphores are as their calls have left them. -/
structure Sems.Ok (v : Sems) : Prop where
  range : ∀ i, v.live i = true → InTable i
  value : ∀ i, v.live i = true → v.bsems i = 0 ∨ v.bsems i = 1
  free : ∀ i, InTable i → v.live i = false → v.bsems i = -1
  count : ∀ i, v.downs i + (if v.live i = true ∧ v.bsems i = 1 then 1 else 0) ≤ 1 + v.ups i

namespace Sems

variable {v : Sems} {i : Int}

/-- `bsem_alloc` finds no free entry, or makes one an allocated semaphore. -/
theorem alloc_cases (v : Sems) :
    v.alloc = v ∨ ∃ j, InTable j ∧ v.bsems j = -1 ∧ v.alloc.bsems = update v.bsems j 1 ∧
      v.alloc.live = update v.live j true ∧
      v.alloc.downs = update v.downs j 0 ∧ v.alloc.ups = update v.ups j 0 := by
  rcases h : v.table.bsemAlloc with ⟨_ | j, t⟩
  · left
    simp only [alloc, h]
  · right
    have hj := j.isLt
    refine ⟨j, ⟨by omega, by omega⟩, (bsemAlloc_eq_some h).1, ?_⟩
    simp only [alloc, h, and_self]

theorem bsemAlloc_ne_none (hi : InTable i) (h : v.bsems i = -1) : v.table.bsemAlloc.1 ≠ none := by
  obtain ⟨n, rfl⟩ : ∃ n : Nat, i = n := ⟨i.toNat, by have := hi.1; omega⟩
  have hn : n < maxBsem := by
    have := hi.2
    omega
  unfold Bsems.bsemAlloc
  split
  · exact nofun
  · rename_i hnone
    have hall := List.find?_eq_none.mp hnone ⟨n, hn⟩ (List.mem_finRange _)
    exact absurd (decide_eq_true h) hall

theorem eq_one_of_free {j : Int} (h : (v.free j).bsems i = 1) : v.bsems i = 1 := by
  by_cases hij : i = j
  · simp [free, hij] at h
  · simpa only [free, update_of_ne hij] using h

theorem eq_one_of_down {j : Int} (h : (v.down j).bsems i = 1) : v.bsems i = 1 := by
  by_cases hij : i = j
  · simp [down, hij] at h
  · simpa only [down, update_of_ne hij] using h

section

variable (h : v.Ok)

include h

theorem Ok.not_live (hi : v.bsems i = -1) : v.live i = false := by
  by_contra hlive
  have hvalue := h.value i (by simpa using hlive)
  rw [hi] at hvalue
  simp at hvalue

theorem Ok.downs_le (i : Int) : v.downs i ≤ 1 + v.ups i :=
  le_trans (Nat.le_add_right _ _) (h.count i)

theorem Ok.alloc : v.alloc.Ok := by
  obtain hsame | ⟨j, hj, hfree, hbsems, hlive, hdowns, hups⟩ := alloc_cases v
  · rw [hsame]
    exact h
  refine ⟨fun i hi => ?_, fun i hi => ?_, fun i hi hnot => ?_, fun i => ?_⟩
  · by_cases hij : i = j
    · rwa [hij]
    · rw [hlive, update_of_ne hij] at hi
      exact h.range i hi
  · rw [hbsems]
    by_cases hij : i = j
    · rw [hij, update_self]
      exact .inr rfl
    · rw [hlive, update_of_ne hij] at hi
      rw [update_of_ne hij]
      exact h.value i hi
  · have hij : i ≠ j := by
      rintro rfl
      rw [hlive, update_self] at hnot
      cases hnot
    rw [hlive, update_of_ne hij] at hnot
    rw [hbsems, update_of_ne hij]
    exact h.free i hi hnot
  · rw [hbsems, hlive, hdowns, hups]
    by_cases hij : i = j
    · simp [hij]
    · simp only [update_of_ne hij]
      exact h.count i

theorem Ok.freed (i : Int) : (v.free i).Ok := by
  refine ⟨fun j hj => ?_, fun j hj => ?_, fun j hj hnot => ?_, fun j => ?_⟩
  · by_cases hij : j = i
    · simp [Sems.free, hij] at hj
    · simp only [Sems.free, update_of_ne hij] at hj
      exact h.range j hj
  · by_cases hij : j = i
    · simp [Sems.free, hij] at hj
    · simp only [Sems.free, update_of_ne hij] at hj
      simp only [Sems.free, update_of_ne hij]
      exact h.value j hj
  · by_cases hij : j = i
    · simp [Sems.free, hij]
    · simp only [Sems.free, update_of_ne hij] at hnot ⊢
      exact h.free j hj hnot
  · by_cases hij : j = i
    · simpa [Sems.free, hij] using h.downs_le i
    · simp only [Sems.free, update_of_ne hij]
      exact h.count j

theorem Ok.down (hi : v.live i = true) (hne : v.bsems i ≠ 0) : (v.down i).Ok := by
  refine ⟨h.range, fun j hj => ?_, fun j hj hnot => ?_, fun j => ?_⟩
  · by_cases hij : j = i
    · simp [Sems.down, hij]
    · simp only [Sems.down, update_of_ne hij]
      exact h.value j hj
  · have hij : j ≠ i := by
      rintro rfl
      exact nomatch hnot.symm.trans hi
    simp only [Sems.down, update_of_ne hij]
    exact h.free j hj hnot
  · by_cases hij : j = i
    · -- the semaphore was available
      have hone : v.bsems i = 1 := (h.value i hi).resolve_left hne
      have hcount := h.count i
      simp only [hi, hone, and_self, if_true] at hcount
      simpa [Sems.down, hij] using hcount
    · simp only [Sems.down, update_of_ne hij]
      exact h.count j

theorem Ok.up (hi : v.live i = true) : (v.up i).Ok := by
  refine ⟨h.range, fun j hj => ?_, fun j hj hnot => ?_, fun j => ?_⟩
  · by_cases hij : j = i
    · simp [Sems.up, hij]
    · simp only [Sems.up, update_of_ne hij]
      exact h.value j hj
  · have hij : j ≠ i := by
      rintro rfl
      exact nomatch hnot.symm.trans hi
    simp only [Sems.up, update_of_ne hij]
    exact h.free j hj hnot
  · by_cases hij : j = i
    · have hle := h.downs_le i
      simp only [Sems.up, hij, update_self, hi, and_self, if_true]
      omega
    · simp only [Sems.up, update_of_ne hij]
      exact h.count j

end

end Sems

end Xv6.Sem
