import Xv6.Sched.Locks

/-!
# The order of `pid_lock` and the process locks

A CPU that spins and holds a lock is in `allocpid`, with the lock of a free slot, in `sleep`, at the
lock of its own process, or in the `wakeup` of `bsem_up` (`acquire_holding`). Only the first and the
last can wait for each other (`forkUp_deadlock`).
-/

namespace Xv6.Sched

open Lib Function

/-! ### The locks held at each location -/

/-- The locks that a thread holds at a line. -/
def Line.held (p : Fin nproc) : Line → LockId → Prop
  | .out _, _ | .yieldLock _, _ => False
  | .check k, m | .allocpid k, m | .setup k, m | .started k, m => m = .proc k
  | .nextpid k, m | .wake k, m => m = .pid ∨ m = .proc k
  | .alloc, m | .free _, m | .test _, m | .sleepLock _, m | .set _, m | .wakeLock _, m
  | .upDone, m => m = .pid
  | .sleepUnlock _, m => m = .pid ∨ m = .proc p
  | .sleepSched _, m | .slept _, m | .yieldSched _, m | .yielded _, m | .forkret, m => m = .proc p

def Loc.held : Loc → LockId → Prop
  | .scan _, _ => False
  | .look p _, m | .unlock p, m => m = .proc p
  | .run p _ line, m => line.held p m

@[simp] theorem held_lookNext (p : Fin nproc) (j : Fin nthread) (m : LockId) :
    (Loc.lookNext p j).held m ↔ m = .proc p := by
  unfold Loc.lookNext
  split_ifs
  · exact Iff.rfl
  · exact Iff.rfl

@[simp] theorem held_wakeNext (p k : Fin nproc) (m : LockId) :
    (Line.wakeNext k).held p m ↔ m = .pid := by
  unfold Line.wakeNext
  split_ifs
  · exact Iff.rfl
  · exact Iff.rfl

@[simp] theorem held_saved (p : Fin nproc) (c : Saved) (m : LockId) :
    c.line.held p m ↔ m = .proc p := by
  cases c <;> exact Iff.rfl

theorem held_run (p : Fin nproc) (j : Fin nthread) (line : Line) (m : LockId) :
    (Loc.run p j line).held m ↔ line.held p m := Iff.rfl

variable {d d' : Table} {p : Fin nproc} {j : Fin nthread} {ch : Choice} {op : LockOp LockId}
  {k : Fin nproc}

theorem Line.held_instr {line : Line} {l' : Loc} (h : line.instr d p j ch = some (op, l', d'))
    (m : LockId) :
    l'.held m ↔ op.after (line.held p) m := by
  unfold Line.instr at h
  split at h
  -- `check` and `test` branch
  case h_4 | h_16 =>
    split at h
    all_goals
      cases h
      cases m <;> simp [held_run, Line.held, LockOp.after]
  case h_30 => cases h
  all_goals
    cases h
    simp only [held_run, held_lookNext, held_wakeNext, LockOp.after]
    cases m <;> simp [Line.held]

theorem lockCode_disciplined : lockCode.Disciplined Loc.held := by
  intro d l ch op l' d' h m
  cases l with
  | run => exact Line.held_instr h m
  | scan | unlock =>
    cases ch with
    | next =>
      cases h
      cases m <;> simp [Loc.held, LockOp.after]
    | _ => cases h
  | look =>
    cases ch with
    | next =>
      simp only [lockCode, Loc.instr] at h
      split_ifs at h <;> cases h
      · simp [LockOp.after, Loc.held]
      · rw [held_lookNext]
        rfl
    | _ => cases h

/-! ### Free and used process slots -/

/-- What a line assumes about the states of the processes. -/
def Entry.Ok (state : Fin nproc → ProcState) : Entry → Prop
  | .start k => state k ≠ .unused
  | _ => True

def Line.Ok (state : Fin nproc → ProcState) : Line → Prop
  | .out e | .yieldLock e | .yieldSched e | .yielded e => e.Ok state
  | .allocpid k | .nextpid k | .setup k => state k = .unused
  | .started k => state k ≠ .unused
  | _ => True

def Loc.Ok (state : Fin nproc → ProcState) : Loc → Prop
  | .run p _ line => state p ≠ .unused ∧ line.Ok state
  | _ => True

/-- The states of the processes fit those of their threads. -/
structure Table.Ok (d : Table) : Prop where
  threads : ∀ p j, d.threadState p j ≠ .unused → d.procState p ≠ .unused
  context : ∀ p j, (d.context p j).line.Ok d.procState

namespace Table.Ok

variable {d : Table}

theorem setThreadState {p : Fin nproc} (h : d.Ok) (j : Fin nthread) (state : ProcState)
    (hp : d.procState p ≠ .unused) : (d.setThreadState p j state).Ok where
  threads q l hl := by
    by_cases hq : q = p
    · subst hq
      exact hp
    · apply h.threads q l
      simpa [Table.setThreadState, hq] using hl
  context := h.context

theorem save {p : Fin nproc} {j : Fin nthread} {state : ProcState} {c : Saved} (h : d.Ok)
    (hp : d.procState p ≠ .unused) (hc : c.line.Ok d.procState) : (d.save p j state c).Ok where
  threads := (h.setThreadState j state hp).threads
  context q l := by
    show ((update d.context p (update (d.context p) j c)) q l).line.Ok d.procState
    by_cases hq : q = p
    · subst hq
      rw [update_self]
      by_cases hl : l = j
      · subst hl
        rwa [update_self]
      · rw [update_of_ne hl]
        exact h.context q l
    · rw [update_of_ne hq]
      exact h.context q l

theorem wake {p k : Fin nproc} {j : Fin nthread} (h : d.Ok) : (d.wake p j k).Ok where
  threads q l hl := by
    by_cases hq : q = k
    · subst hq
      apply h.threads q l
      intro hunused
      simp [Table.wake, hunused] at hl
    · apply h.threads q l
      simpa [Table.wake, hq] using hl
  context := h.context

end Table.Ok

theorem ok_mono {c : Saved} {state state' : Fin nproc → ProcState}
    (hmono : ∀ k, state k ≠ .unused → state' k ≠ .unused) (h : c.line.Ok state) :
    c.line.Ok state' := by
  cases c with
  | forkret | slept => trivial
  | yielded e =>
    cases e with
    | start k => exact hmono k h
    | _ => trivial

theorem setup_mono (state : Fin nproc → ProcState) (k m : Fin nproc) (h : state m ≠ .unused) :
    update state k .used m ≠ .unused := by
  by_cases hm : m = k
  · subst hm
    simp
  · rwa [update_of_ne hm]

theorem setup_self (state : Fin nproc → ProcState) (k : Fin nproc) :
    update state k .used k ≠ .unused := by
  simp

theorem Table.Ok.setup {d : Table} (h : d.Ok) : (d.setup k).Ok where
  threads q l hl := by
    by_cases hq : q = k
    · subst hq
      simp [Table.setup]
    · apply setup_mono
      apply h.threads q l
      simpa [Table.setup, Table.save, Table.setThreadState, hq] using hl
  context q l := by
    refine ok_mono (setup_mono d.procState k) ?_
    show ((update d.context k (update (d.context k) 0 .forkret)) q l).line.Ok
      d.procState
    by_cases hq : q = k
    · subst hq
      rw [update_self]
      by_cases hl : l = 0
      · subst hl
        rw [update_self]
        trivial
      · rw [update_of_ne hl]
        exact h.context q l
    · rw [update_of_ne hq]
      exact h.context q l

/-- A CPU that does not hold the lock of slot `k` does not notice that the slot gets used. -/
theorem Loc.Ok.setup {l : Loc} {state : Fin nproc → ProcState} (h : l.Ok state)
    (hk : ¬ l.held (.proc k)) : l.Ok (update state k .used) := by
  cases l with
  | run p j line =>
    refine ⟨setup_mono state k p h.1, ?_⟩
    have hline := h.2
    cases line with
    | out e | yieldLock e | yieldSched e | yielded e =>
      cases e with
      | start m => exact setup_mono state k m hline
      | _ => trivial
    | allocpid m | nextpid m | setup m =>
      have hm : m ≠ k := by
        rintro rfl
        exact hk (by simp [Loc.held, Line.held])
      show update state k .used m = .unused
      rwa [update_of_ne hm]
    | started m => exact setup_mono state k m hline
    | _ => trivial
  | _ => trivial

section

variable (state : Fin nproc → ProcState)

include state

theorem ok_lookNext (p : Fin nproc) (j : Fin nthread) :
    (Loc.lookNext p j).Ok state := by
  unfold Loc.lookNext
  split_ifs
  · trivial
  · trivial

theorem Line.ok_wakeNext (k : Fin nproc) :
    (Line.wakeNext k).Ok state := by
  unfold Line.wakeNext
  split_ifs
  · trivial
  · trivial

theorem ok_nextSlot (k : Fin nproc) :
    (Entry.nextSlot k).Ok state := by
  unfold Entry.nextSlot
  split_ifs
  · trivial
  · trivial

theorem ok_entry (c : Syscall) : c.entry.Ok state := by
  cases c <;> trivial

end

/-- An instruction keeps its assumptions; only `setup` changes the state of a process. -/
theorem Line.ok_instr {line : Line} {l' : Loc} (hd : d.Ok) (hp : d.procState p ≠ .unused)
    (hline : line.Ok d.procState) (h : line.instr d p j ch = some (op, l', d')) :
    d'.Ok ∧ ((l'.Ok d.procState ∧ d'.procState = d.procState) ∨
      ∃ k, line = .setup k ∧ l'.Ok d'.procState ∧ d'.procState = update d.procState k .used) := by
  unfold Line.instr at h
  split at h
  case h_4 =>
    split_ifs at h with hunused <;> cases h
    · exact ⟨hd, .inl ⟨⟨hp, hunused⟩, rfl⟩⟩
    · exact ⟨hd, .inl ⟨⟨hp, ok_nextSlot ..⟩, rfl⟩⟩
  case h_16 =>
    split at h
    all_goals
      cases h
      exact ⟨⟨hd.threads, hd.context⟩, .inl ⟨⟨hp, trivial⟩, rfl⟩⟩
  case h_30 => cases h
  -- the child is set up
  case h_7 k =>
    cases h
    exact ⟨hd.setup, .inr ⟨k, rfl, ⟨setup_mono _ _ _ hp, setup_self _ _⟩, rfl⟩⟩
  all_goals
    cases h
  -- thread states and contexts
  case h_10 => exact ⟨hd.setThreadState _ _ hline, .inl ⟨⟨hp, trivial⟩, rfl⟩⟩
  case h_19 => exact ⟨hd.save hp trivial, .inl ⟨ok_lookNext .., rfl⟩⟩
  case h_24 => exact ⟨hd.wake, .inl ⟨⟨hp, Line.ok_wakeNext ..⟩, rfl⟩⟩
  case h_27 => exact ⟨hd.save hp hline, .inl ⟨ok_lookNext .., rfl⟩⟩
  case h_2 => exact ⟨hd, .inl ⟨⟨hp, ok_entry ..⟩, rfl⟩⟩
  -- at most the semaphores change
  all_goals first
    | exact ⟨⟨hd.threads, hd.context⟩, .inl ⟨⟨hp, trivial⟩, rfl⟩⟩
    | exact ⟨hd, .inl ⟨⟨hp, hline⟩, rfl⟩⟩

theorem Loc.ok_instr {l l' : Loc} (hd : d.Ok) (hl : l.Ok d.procState)
    (h : l.instr d ch = some (op, l', d')) :
    d'.Ok ∧ ((l'.Ok d.procState ∧ d'.procState = d.procState) ∨
      ∃ p j k, l = .run p j (.setup k) ∧ l'.Ok d'.procState ∧
        d'.procState = update d.procState k .used) := by
  unfold Loc.instr at h
  split at h
  · cases h
    exact ⟨hd, .inl ⟨trivial, rfl⟩⟩
  · rename_i p j
    split_ifs at h with hrunnable <;> cases h
    · have hp := hd.threads p j (by rw [hrunnable]; decide)
      exact ⟨hd.setThreadState _ _ hp, .inl ⟨⟨hp, hd.context p j⟩, rfl⟩⟩
    · exact ⟨hd, .inl ⟨ok_lookNext .., rfl⟩⟩
  · cases h
    exact ⟨hd, .inl ⟨trivial, rfl⟩⟩
  · obtain ⟨hd', hcase⟩ := Line.ok_instr hd hl.1 hl.2 h
    refine ⟨hd', hcase.imp_right ?_⟩
    rintro ⟨k, rfl, hl', hstate⟩
    exact ⟨_, _, k, rfl, hl', hstate⟩
  · cases h

/-! ### The two orders -/

theorem yetToLock_lookNext (k p : Fin nproc) (j : Fin nthread) :
    (Loc.lookNext p j).yetToLock k = false := by
  unfold Loc.lookNext
  split_ifs
  · rfl
  · rfl

theorem lt_of_yetToLock_wakeNext {k m p : Fin nproc}
    (h : (Loc.run p j (.wakeNext m)).yetToLock k = true) : m < k := by
  unfold Line.wakeNext at h
  split_ifs at h with hlast
  · have hle : (⟨m + 1, hlast⟩ : Fin nproc) ≤ k := of_decide_eq_true h
    exact Nat.lt_of_succ_le hle
  · cases h

/-- `allocproc` comes to `allocpid` when it has found a free slot. -/
theorem Loc.instr_allocpid {l : Loc} (h : l.instr d ch = some (op, .run p j (.allocpid k), d')) :
    l = .run p j (.check k) ∧ d.procState k = .unused := by
  unfold Loc.instr at h
  split at h
  · simp at h
  · rename_i q m
    split_ifs at h
    · cases hc : d.context q m <;> simp [hc, Saved.line] at h
    · unfold Loc.lookNext at h
      split_ifs at h <;> simp at h
  · simp at h
  · rename_i q m line
    unfold Line.instr at h
    split at h
    case h_4 =>
      split_ifs at h with hunused
      · obtain ⟨-, ⟨rfl, rfl, rfl⟩, -⟩ := by simpa using h
        exact ⟨rfl, hunused⟩
      · simp at h
    case h_16 => split at h <;> simp at h
    case h_19 | h_27 =>
      unfold Loc.lookNext at h
      split_ifs at h <;> simp at h
    case h_24 =>
      unfold Line.wakeNext at h
      split_ifs at h <;> simp at h
    all_goals simp at h
  · cases h

/-- `bsem_up` is left to do no more than it was, from where it takes `pid_lock` on. -/
theorem Loc.instr_yetToLock {l l' : Loc} (h : l.instr d ch = some (op, l', d'))
    (hl' : l'.yetToLock k = true) :
    l.yetToLock k = true ∨ ch = .next ∧ ∃ p j i, l = .run p j (.out (.bsemUp i)) := by
  unfold Loc.instr at h
  split at h
  · cases h
    cases hl'
  · rename_i q m
    split_ifs at h <;> cases h
    · cases hc : d.context q m <;> simp [hc, Saved.line, Loc.yetToLock] at hl'
    · rw [yetToLock_lookNext] at hl'
      cases hl'
  · cases h
    cases hl'
  · rename_i q m line
    unfold Line.instr at h
    split at h
    case h_4 =>
      split_ifs at h
      all_goals
        cases h
        cases hl'
    case h_16 =>
      split at h
      all_goals
        cases h
        cases hl'
    case h_30 => cases h
    all_goals
      cases h
    case h_19 | h_27 =>
      rw [yetToLock_lookNext] at hl'
      cases hl'
    case h_21 => exact .inr ⟨rfl, q, m, _, rfl⟩
    case h_22 => exact .inl rfl
    case h_23 =>
      left
      simp only [Loc.yetToLock, decide_eq_true_eq] at hl' ⊢
      exact hl'.le
    case h_24 =>
      left
      simp only [Loc.yetToLock, decide_eq_true_eq]
      exact lt_of_yetToLock_wakeNext hl'
    all_goals cases hl'
  · cases h

/-- A CPU that acquires a lock with another one in its hands. -/
theorem Loc.acquire_holding {l l' : Loc} {m m' : LockId}
    (h : l.instr d ch = some (.acquire m, l', d')) (hheld : l.held m') :
    (∃ p j k, l = .run p j (.allocpid k) ∧ m = .pid ∧ m' = .proc k) ∨
      (∃ p j i, l = .run p j (.sleepLock i) ∧ m = .proc p ∧ m' = .pid) ∨
      ∃ p j k, l = .run p j (.wakeLock k) ∧ m = .proc k ∧ m' = .pid := by
  unfold Loc.instr at h
  split at h
  · cases hheld
  · split_ifs at h <;> simp at h
  · simp at h
  · rename_i q t line
    unfold Line.instr at h
    split at h
    case h_4 => split_ifs at h <;> simp at h
    case h_16 => split at h <;> simp at h
    case h_5 k =>
      cases h
      exact .inl ⟨q, t, k, rfl, rfl, hheld⟩
    case h_17 i =>
      cases h
      exact .inr (.inl ⟨q, t, i, rfl, rfl, hheld⟩)
    case h_23 k =>
      cases h
      exact .inr (.inr ⟨q, t, k, rfl, rfl, hheld⟩)
    -- the others acquire without a lock in the hand, or do not acquire
    all_goals first
      | (simp at h; done)
      | cases hheld
  · cases h

/-- The owners of the locks, the states of the processes, and the two orders. -/
structure LocksInv {κ : Type*} (s : State κ) : Prop where
  owned : SpinCode.Owned Loc.held s
  table : s.data.Ok
  loc : ∀ c, (s.loc c).Ok s.data.procState
  apart : ∀ c c' p j k, s.loc c = .run p j (.allocpid k) → (s.loc c').yetToLock k = false

namespace LocksInv

variable {κ : Type*} [DecidableEq κ] {s s' : State κ}

theorem booted (κ : Type*) : LocksInv (booted κ) where
  owned m c := by simp [Sched.booted, Loc.held]
  table := ⟨by
    intro p j hj
    by_cases hp : p = 0
    · simp [Sched.booted, hp]
    · simp [Sched.booted, hp] at hj, fun _ _ => trivial⟩
  loc _ := trivial
  apart _ _ _ _ _ hloc := by cases hloc

theorem step {a : κ × Choice} (h : LocksInv s) (horderly : Orderly s a)
    (hstep : lockCode.machine.step s a = some s') : LocksInv s' := by
  have howned := h.owned.step lockCode_disciplined hstep
  obtain ⟨c, ch⟩ := a
  obtain ⟨op, l, d, owner, hinstr, -, rfl⟩ := SpinCode.step_eq_some hstep
  obtain ⟨hd, hcase⟩ := Loc.ok_instr h.table (h.loc c) hinstr
  refine ⟨howned, hd, ?_, ?_⟩
  · -- another CPU only notices that a slot gets used if it holds its lock
    intro c'
    dsimp only
    by_cases hc : c' = c
    · subst hc
      rw [update_self]
      rcases hcase with ⟨hl, hstate⟩ | ⟨-, -, -, -, hl, -⟩
      · rwa [hstate]
      · exact hl
    · rw [update_of_ne hc]
      rcases hcase with ⟨-, hstate⟩ | ⟨p, j, k, hloc, -, hstate⟩
      · rw [hstate]
        exact h.loc c'
      · rw [hstate]
        refine (h.loc c').setup fun hheld => hc (h.owned.unique hheld ?_)
        rw [hloc]
        exact (rfl : LockId.proc k = .proc k)
  · intro c₁ c₂ p j k hloc
    dsimp only at hloc ⊢
    by_contra hyet
    rw [Bool.not_eq_false] at hyet
    by_cases h₁ : c₁ = c
    · -- the CPU has just come to `allocpid`
      subst h₁
      rw [update_self] at hloc
      subst hloc
      obtain ⟨hcheck, hunused⟩ := Loc.instr_allocpid hinstr
      unfold Orderly at horderly
      rw [hcheck] at horderly
      by_cases h₂ : c₂ = c₁
      · subst h₂
        rw [update_self] at hyet
        cases hyet
      · rw [update_of_ne h₂, horderly hunused c₂] at hyet
        cases hyet
    · rw [update_of_ne h₁] at hloc
      by_cases h₂ : c₂ = c
      · -- the CPU has just gone on in `bsem_up`, or entered it
        subst h₂
        rw [update_self] at hyet
        rcases Loc.instr_yetToLock hinstr hyet with hold | ⟨rfl, q, m, i, hup⟩
        · rw [h.apart c₁ c₂ p j k hloc] at hold
          cases hold
        · unfold Orderly at horderly
          rw [hup] at horderly
          have hnot := horderly rfl c₁
          rw [hloc] at hnot
          cases hnot
      · rw [update_of_ne h₂, h.apart c₁ c₂ p j k hloc] at hyet
        cases hyet

omit [DecidableEq κ] in
/-- Nobody holds `pid_lock` and waits for the lock of the slot that a CPU has in `allocpid`. -/
theorem not_crossed {c c' : κ} {p : Fin nproc} {j : Fin nthread} {k : Fin nproc} {ch : Choice}
    {l : Loc} {d : Table} (h : LocksInv s) (hloc : s.loc c = .run p j (.allocpid k))
    (hspin : (s.loc c').instr s.data ch = some (.acquire (.proc k), l, d))
    (hheld : (s.loc c').held .pid) : False := by
  have hunused : s.data.procState k = .unused := by
    have hok := h.loc c
    rw [hloc] at hok
    exact hok.2
  rcases Loc.acquire_holding hspin hheld with ⟨-, -, -, -, hm, -⟩ | ⟨q, j', i, hloc', hm, -⟩ |
    ⟨q, j', m, hloc', hm, -⟩
  · cases hm
  · -- `sleep` locks a process that is used
    obtain rfl := LockId.proc.inj hm
    have hok := h.loc c'
    rw [hloc'] at hok
    exact hok.1 hunused
  · -- `wakeup` is at the slot
    obtain rfl := LockId.proc.inj hm
    have hyet := h.apart c c' p j k hloc
    rw [hloc'] at hyet
    simp [Loc.yetToLock] at hyet

omit [DecidableEq κ] in

/-- Where the locks are taken in order, there is no deadlock. -/
theorem not_deadlock (h : LocksInv s) : ¬ lockCode.Deadlock s := by
  rintro ⟨c, c', m, m', hne, ⟨ch, l, d, hspin⟩, hown, ⟨ch', l', d', hspin'⟩, hown'⟩
  have hheld := (h.owned m c').mp hown
  have hheld' := (h.owned m' c).mp hown'
  rcases Loc.acquire_holding hspin hheld' with ⟨p, j, k, hloc, rfl, rfl⟩ | hother
  · exact h.not_crossed hloc hspin' hheld
  -- the first CPU holds `pid_lock`, so the second one is in `allocpid`
  have hm' : m' = .pid := by
    rcases hother with ⟨-, -, -, -, -, hm'⟩ | ⟨-, -, -, -, -, hm'⟩
    · exact hm'
    · exact hm'
  subst hm'
  rcases Loc.acquire_holding hspin' hheld with ⟨p, j, k, hloc, -, rfl⟩ | ⟨_, _, _, _, hm, _⟩ |
    ⟨_, _, _, _, hm, _⟩
  · exact h.not_crossed hloc hspin hheld'
  · cases hm
  · cases hm

end LocksInv

/-- **No deadlock**: in every run of the CPUs whose steps are all `Orderly`, no two CPUs each hold
one of `pid_lock` and the process locks that the other one is spinning to acquire. -/
theorem no_deadlock {κ : Type*} [DecidableEq κ] (as : List (κ × Choice))
    (horderly : lockCode.machine.Meets Orderly (booted κ) as) (s : State κ)
    (hrun : lockCode.machine.run (booted κ) as = some s) : ¬ lockCode.Deadlock s := by
  have hinv := lockCode.machine.invariant_of_meets (I := LocksInv)
    (fun s a s' h hok hs => h.step hok hs) as _ s (.booted κ) horderly hrun
  exact hinv.not_deadlock

/-! ### Two runs -/

def steps (c : Fin ncpu) (n : Nat) : List (Fin ncpu × Choice) := List.replicate n (c, .next)

/-- CPU 0 runs a process that forks; CPU 1 runs the child, which calls `bsem_up`. -/
def forkThenUp : List (Fin ncpu × Choice) :=
  steps 0 3 ++ [(0, .call .fork)] ++ steps 0 9 ++ steps 1 13 ++ [(1, .call (.bsemUp 0))]

def forkThenWakeup : List (Fin ncpu × Choice) := forkThenUp ++ steps 1 8

theorem forkThenWakeup_no_deadlock :
    lockCode.machine.Meets Orderly (booted (Fin ncpu)) forkThenWakeup ∧
      ∃ s, lockCode.machine.run (booted (Fin ncpu)) forkThenWakeup = some s ∧
        ¬ lockCode.Deadlock s := by
  have horderly : lockCode.machine.Meets Orderly (booted (Fin ncpu)) forkThenWakeup := by
    decide +kernel
  obtain ⟨s, hs⟩ := Option.isSome_iff_exists.mp
    (show (lockCode.machine.run (booted (Fin ncpu)) forkThenWakeup).isSome = true by decide +kernel)
  exact ⟨horderly, s, hs, no_deadlock forkThenWakeup horderly s hs⟩

/-- The first process finds slot 2 free and waits for `pid_lock`; the child, which has it, waits in
`wakeup` for the lock of slot 2. -/
def forkUp : List (Fin ncpu × Choice) := forkThenUp ++ [(0, .call .fork)] ++ steps 0 6 ++ steps 1 6

theorem forkUp_deadlock : ∃ s, lockCode.machine.run (booted (Fin ncpu)) forkUp = some s ∧
    s.owner (.proc 2) = some 0 ∧ s.owner .pid = some 1 ∧ lockCode.Deadlock s := by
  have hrun : (lockCode.machine.run (booted (Fin ncpu)) forkUp).map (fun s =>
      (s.loc 0, s.loc 1, s.owner (.proc 2), s.owner .pid)) =
      some (.run 0 0 (.allocpid 2), .run 1 0 (.wakeLock 2), some 0, some 1) := by decide +kernel
  obtain ⟨s, hs, hdata⟩ := Option.map_eq_some_iff.mp hrun
  simp only [Prod.mk.injEq] at hdata
  obtain ⟨hloc0, hloc1, hproc, hpid⟩ := hdata
  have hspins0 : lockCode.Spins s 0 .pid :=
    ⟨.next, .run 0 0 (.nextpid 2), s.data, by rw [hloc0]; rfl⟩
  have hspins1 : lockCode.Spins s 1 (.proc 2) :=
    ⟨.next, .run 1 0 (.wake 2), s.data, by rw [hloc1]; rfl⟩
  exact ⟨s, hs, hproc, hpid, 0, 1, .pid, .proc 2, by decide, hspins0, hpid, hspins1, hproc⟩

end Xv6.Sched
