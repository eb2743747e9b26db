import Xv6.Sem.Equiv.Calls
import Xv6.Sleep.Equiv.Wakeup

/-!
# Binary semaphores are safe under threads

Calls are in progress on allocated descriptors only (`BsemInv.call`). The wakeups follow from the
discipline of monitors (`BsemInv.heeds`): a semaphore becomes 1 in `bsem_up`, which wakes all
sleepers, or in `bsem_alloc`, when no thread waits for it.
-/

namespace Xv6.Sem

open Lib Sleep Function Finset

variable {κ : Type}

/-! ### The invariant -/

/-- Calls are in progress on allocated descriptors only; `bsem_free` counts if `all`. -/
def Calls (all : Bool) (s : State κ) : Prop :=
  ∀ x line p i, (places s).At x line → line.point = some p → (p.frees = true → all = true) →
    p.on = some i → s.data.data.live i = true

/-- The points with `pid_lock` at which no store has been made yet. -/
def Point.early : Point → Bool
  | .allocScan | .freeSet _ | .downTest _ | .upSet _ => true
  | _ => false

@[inherit_doc Point.early]
def early : Line Point Int → Bool
  | .code (.out _ p) => p.early
  | .sleepLock _ _ | .sleepUnlock _ _ => true
  | _ => false

/-- The invariant of the binary semaphores. -/
structure BsemInv (s : State κ) : Prop where
  wake : WakeInv bsemProgram s
  noIntr : ∀ c b code, s.loc c ≠ .intr b code
  fits : ∀ x line, (places s).At x line → Fits line
  sems : s.data.data.Ok
  calls : Calls false s
  fresh : ∀ c x line, s.loc c = .run x line → early line = true → ∀ i, s.data.raised i = false
  -- a semaphore that has become 1 keeps no thread asleep any more
  done : ∀ c x hs, s.loc c = .run x (.code (.out hs .unlock)) → ∀ i, s.data.raised i = true →
    s.data.woken i = true ∨ ∀ y, ¬ Waits s y i

theorem mem_locks_of_early {p : Point} (h : p.early = true) : pidLock ∈ p.locks := by
  cases p with
  | allocScan | freeSet | downTest | upSet => exact mem_singleton_self _
  | _ => cases h

namespace BsemInv

variable {s s' : State κ} {c c' : κ} {ch : Choice Input} {op : LockOp LockId}

variable {x : Slot} {hs : Finset Nat}

section

variable (h : BsemInv s)

include h

theorem live_of_waits {i : Int} (hw : Waits s x i) :
    s.data.data.live i = true := by
  obtain ⟨line, hat, hi⟩ := hw
  have hfits := h.fits x line hat
  have hpoint : line.point = some (.downTest i) := by
    cases line with
    | sleepState =>
      cases hi
      exact congrArg some hfits
    | sleepSched j p | slept j p =>
      simp only [Line.waits] at hi
      split_ifs at hi
      cases hi
      exact congrArg some hfits
    | _ => cases hi
  exact h.calls x line _ i hat hpoint (by intros; contradiction) rfl

theorem locks {p : Point} (hl : s.loc c = .run x (.code (.out hs p))) :
    hs = p.locks :=
  h.fits x _ (Placement.at_of_on (on_of_loc hl))

theorem held {p : Point} (hl : s.loc c = .run x (.code (.out hs p)))
    (hp : pidLock ∈ p.locks) :
    (s.loc c).held bsemProgram (.other pidLock) := by
  have hhs := h.locks hl
  rw [hl]
  exact heldOf_other.mpr (by rwa [hhs])

/-- A thread inside of a call has `pid_lock`. -/
theorem held_of_early {line : Line Point Int} (hl : s.loc c = .run x line)
    (hearly : early line = true) :
    (s.loc c).held bsemProgram (.other pidLock) := by
  cases line with
  | code code =>
    cases code with
    | out => exact h.held hl (mem_locks_of_early hearly)
    | wake => cases hearly
  | sleepLock =>
    rw [hl]
    rfl
  | sleepUnlock =>
    rw [hl]
    exact .inl rfl
  | _ => cases hearly

/-- **The discipline of a monitor**, which no lost wakeup rests on. -/
theorem heeds (a : κ × Choice Input) : Heeds bsemProgram s a := by
  obtain ⟨c, ch⟩ := a
  constructor
  · rintro ⟨hs, o⟩ hop
    simp only [Loc.op, Option.mem_def] at hop
    split at hop
    case h_1 x hs' p ch' hl =>
      obtain ⟨o', ho, heq⟩ := Option.map_eq_some_iff.mp hop
      obtain ⟨rfl, rfl⟩ := Prod.mk.inj heq
      have hhs := h.locks hl
      cases Point.op_rule ho with
      | call => exact fun i hfalse htrue => absurd (hfalse.symm.trans htrue) (by simp)
      | sleep i hi => exact decide_eq_false (by rw [hi]; decide)
      | alloc | free | down | up =>
        intro i _ _
        rw [hhs]
        exact mem_singleton_self _
      | _ => trivial
    case h_2 b hs' p ch' hl => exact absurd hl (h.noIntr c b _)
    case h_3 => cases hop
  · intro n hn i hi hraised hcond
    simp only [Loc.releases, Option.mem_def] at hn
    split at hn
    case h_1 l hs n' p hop =>
      simp only [Loc.op] at hop
      split at hop
      case h_1 x hs' p ch' hl =>
        obtain ⟨o', ho, heq⟩ := Option.map_eq_some_iff.mp hop
        obtain ⟨rfl, rfl⟩ := Prod.mk.inj heq
        cases Point.op_rule ho with
        | release => exact h.done c x _ hl i hraised
      case h_2 b hs' p ch' hl => exact absurd hl (h.noIntr c b _)
      case h_3 => cases hop
    case h_2 x j p hl _ =>
      exact absurd ((h.fresh c x _ hl rfl i).symm.trans hraised) (by simp)
    case h_3 => cases hn

/-- While a CPU holds `pid_lock` no other one makes a semaphore 1. -/
theorem raised_of_ne (hs : Stepped bsemProgram s s' c ch op) (hc : c' ≠ c)
    (hheld : (s.loc c').held bsemProgram (.other pidLock)) {i : Int}
    (hr : s'.data.raised i = true) : s.data.raised i = true := by
  cases hs.instr.acts with
  | acquire n hop data raised => exact ((raised i).mp hr).1
  | store hs' v q hstore hheld' hop data raised =>
    obtain hr | ⟨hfalse, htrue⟩ := (raised i).mp hr
    · exact hr
    · have hmem := (h.heeds (c, ch)).op _ hstore i hfalse htrue
      exact absurd (h.wake.threads.owned.unique hheld ((hheld' _).mpr hmem)) hc
  | announce k t hs' p hcode hk hop data raised | quiet hacq hrel data raised => rwa [raised] at hr

theorem came (hs : Stepped bsemProgram s s' c ch op) {line' : Line Point Int}
    (hl' : s'.loc c = .run x line') (hline : ∀ context : Saved Point Int, line' ≠ context.line) :
    ∃ line, s.loc c = .run x line ∧
      Line.Step bsemProgram s.data x ch line op (some line') s'.data := by
  obtain hline' | ⟨⟨context, heq⟩, -⟩ := hs.came (h.noIntr c) hl'
  · exact hline'
  · exact absurd heq (hline context)

theorem step_fresh (hs : Stepped bsemProgram s s' c ch op)
    (c' : κ) (x : Slot) (line' : Line Point Int) (hl' : s'.loc c' = .run x line')
    (hearly : early line' = true) (i : Int) : s'.data.raised i = false := by
  by_cases hc : c' = c
  · rw [hc] at hl'
    have hne : ∀ context : Saved Point Int, line' ≠ context.line := by
      rintro context rfl
      cases context <;> cases hearly
    obtain ⟨line, hl, hstep⟩ := h.came hs hl' hne
    have hfits := h.fits x line (Placement.at_of_on (on_of_loc hl))
    have hfresh := h.fresh c x line hl
    generalize s'.data = d' at hstep
    -- `pid_lock` has just been acquired
    have henter : (s.data.enter bsemProgram pidLock).raised i = false := by
      simp [Table.enter, bsemProgram]
    -- a point without it is not early
    have hout : ∀ p : Point, p.locks = ∅ → p.early = true → d'.raised i = false := by
      intro p hp hearly
      have hmem := mem_locks_of_early hearly
      rw [hp] at hmem
      exact absurd hmem (notMem_empty _)
    cases hstep with
    | code ch c₁ c₂ op d' hcode =>
      cases hcode with
      | acquire hs p q ch n hop =>
        cases Point.op_rule hop with
        | acquire => exact henter
      | release hs p q ch n hop =>
        cases Point.op_rule hop with
        | release => cases hearly
      | store hs p q ch v hop =>
        cases Point.op_rule hop with
        | call k _ hq hfrees hlock => exact hout q (locks_of_entry_ne hlock) hearly
        | _ => cases hearly
      | wake | walk => cases hearly
      | walked =>
        obtain rfl | ⟨rfl, -⟩ := hfits.2 <;> cases hearly
    | sleep p q ch j hop =>
      cases Point.op_rule hop with
      | sleep => exact hfresh rfl i
    | mark hs p q ch l hop | exit p ch hop => cases Point.op_rule hop
    | sleepLock => exact hfresh rfl i
    | relock => exact henter
    | yielded p | forkret p => exact hout p hfits hearly
    | _ => cases hearly
  · have hl := hl'
    rw [hs.others c' hc] at hl
    by_contra hr
    have hraised := h.raised_of_ne hs hc (h.held_of_early hl hearly) (by simpa using hr)
    exact absurd ((h.fresh c' x line' hl hearly i).symm.trans hraised) (by simp)

/-- A semaphore that becomes 1 in `bsem_alloc` was free. -/
theorem not_waits_of_alloc {i : Int} (hfalse : bsemProgram.cond i s.data.data = false)
    (htrue : bsemProgram.cond i s.data.data.alloc = true) (x : Slot) : ¬ Waits s x i := by
  intro hw
  have hlive := h.live_of_waits hw
  have hne : s.data.data.bsems i ≠ 1 := of_decide_eq_false hfalse
  have hone : s.data.data.alloc.bsems i = 1 := of_decide_eq_true htrue
  obtain hsame | ⟨j, -, hfree, hbsems, -⟩ := Sems.alloc_cases s.data.data
  · rw [hsame] at hone
    exact hne hone
  · by_cases hij : i = j
    · rw [← hij] at hfree
      exact nomatch (h.sems.not_live hfree).symm.trans hlive
    · rw [hbsems, update_of_ne hij] at hone
      exact hne hone

theorem step_done (hs : Stepped bsemProgram s s' c ch op)
    (h' : ∀ x line, (places s').At x line → Fits line) (c' : κ) (x : Slot) (hs' : Finset Nat)
    (hl' : s'.loc c' = .run x (.code (.out hs' .unlock))) (i : Int)
    (hr : s'.data.raised i = true) : s'.data.woken i = true ∨ ∀ y, ¬ Waits s' y i := by
  have hfits' : hs' = {pidLock} := h' x _ (Placement.at_of_on (on_of_loc hl'))
  have hheld' : (s'.loc c').held bsemProgram (.other pidLock) := by
    rw [hl', hfits']
    exact heldOf_other.mpr (mem_singleton_self _)
  -- no thread begins to wait
  have hback : (∀ y, ¬ Waits s y i) → ∀ y, ¬ Waits s' y i :=
    fun hnone y hw => hnone y (h.wake.waits_back hs hheld' hw)
  by_cases hc : c' = c
  · rw [hc] at hl'
    obtain ⟨line, hl, hstep⟩ := h.came hs hl' fun context => by
      cases context <;> (intro heq; cases heq)
    have hfits := h.fits x line (Placement.at_of_on (on_of_loc hl))
    have hfresh := h.fresh c x line hl
    generalize s'.data = d' at hstep hr ⊢
    cases hstep with
    | code ch c₁ c₂ op d' hcode =>
      cases hcode with
      | acquire hs p q ch n hop =>
        cases Point.op_rule hop with
        | acquire p _ hentry => cases p <;> cases hentry
      | release hs p q ch n hop => cases Point.op_rule hop
      | store hs p q ch v hop =>
        -- no semaphore was 1 before, and `bsem_alloc` only makes one so
        obtain hraised | ⟨hfalse, htrue⟩ : s.data.raised i = true ∨
            bsemProgram.cond i s.data.data = false ∧ bsemProgram.cond i v = true := by
          simpa [Table.store] using hr
        · cases Point.op_rule hop with
          | call k _ hq hfrees hlock => exact absurd rfl hlock
          | _ => exact absurd ((hfresh rfl i).symm.trans hraised) (by simp)
        · have hnot : s.data.data.bsems i ≠ 1 := of_decide_eq_false hfalse
          have hone : v.bsems i = 1 := of_decide_eq_true htrue
          right
          cases Point.op_rule hop with
          | call => exact absurd hone hnot
          | alloc => exact hback (h.not_waits_of_alloc hfalse htrue)
          | free => exact absurd (Sems.eq_one_of_free hone) hnot
          | down => exact absurd (Sems.eq_one_of_down hone) hnot
      | walked =>
        -- `wakeup(&chanel)` returns
        left
        obtain hp | ⟨-, rfl⟩ := hfits.2
        · cases hp
        · simp [Table.announce, hfits', bsemProgram]
    | mark hs p q ch l hop => cases Point.op_rule hop
    | relock => cases hfits
    | yielded | forkret => exact absurd hfits (singleton_ne_empty _)
  · rw [hs.others c' hc] at hl'
    have hheld := h.held hl' (mem_singleton_self _)
    have hraised := h.raised_of_ne hs hc hheld hr
    obtain hwoken | hnone := h.done c' x hs' hl' i hraised
    · left
      cases hs.instr.acts with
      | acquire n hop data raised woken => exact (woken i).mpr ⟨hwoken, ((raised i).mp hr).2⟩
      | store hs' v q hstore hheld' hop data raised woken | quiet hacq hrel data raised woken =>
        rwa [woken]
      | announce k t hs' p hcode hk hop data raised woken => exact (woken i).mpr (.inl hwoken)
    · exact .inr (hback hnone)

/-! ### Steps -/

theorem step_fits (hs : Stepped bsemProgram s s' c ch op) (x : Slot)
    (line' : Line Point Int) (hat : (places s').At x line') : Fits line' := by
  cases h.wake.threads.arrived hs hat with
  | go line loc loc' step => exact fits_step step (h.fits x line (Placement.at_of_on (on_of_loc loc)))
  | leave line context loc saved place =>
    rw [place]
    exact fits_saved saved (h.fits x line (Placement.at_of_on (on_of_loc loc)))
  | stay place => exact h.fits x line' place

end

theorem callOf_user {k : Syscall} (hl : s.loc c = .run x (.code (.out hs .user))) :
    k ∈ callOf (s.loc c) (.op (.call k)) := by
  rw [hl]
  rfl

/-- The calls of the other threads are as before. -/
theorem step_calls (h : BsemInv s) (h' : ThreadInv bsemProgram s')
    (hs : Stepped bsemProgram s s' c ch op) {all : Bool} (hcalls : Calls all s)
    (hcall : ∀ k ∈ callOf (s.loc c) ch, (k.frees = true → all = true) → ∀ i ∈ k.on,
      s.data.data.live i = true)
    (halone : Alone s (c, ch)) : Calls all s' := by
  intro y line' p' i hat hpoint hfrees hon
  obtain ⟨hdata, hsame⟩ | ⟨x, hs', p, ch', o, hl, rfl, hop, hdata, hplaces⟩ :=
    h.wake.threads.program_step h' hs (fun _ => rfl) (h.noIntr c)
  · obtain ⟨line, hline, hp⟩ := hsame y line' hat
    rw [hdata]
    exact hcalls y line p' i hline (hp ▸ hpoint) hfrees hon
  rw [hdata]
  have hx : (places s).At x (.code (.out hs' p)) := Placement.at_of_on (on_of_loc hl)
  obtain ⟨rfl, hnext⟩ | ⟨hne, hy⟩ := hplaces y line' hat
  · -- the thread that has executed the operation
    rw [hpoint] at hnext
    cases Point.op_rule hop with cases hnext
    | call k q hq hkfrees =>
      refine hcall k (callOf_user hl) (by rwa [← hkfrees]) i ?_
      rw [← hq]
      exact hon
    | acquire p q hentry =>
      obtain ⟨-, -, hqon, hqfrees⟩ := locks_of_entry hentry
      exact hcalls y _ p i hx rfl (by rwa [← hqfrees]) (by rwa [← hqon])
    | sleep =>
      exact hcalls y _ _ i hx rfl hfrees hon
    | _ =>
      cases hon
  · have hlive := hcalls y line' p' i hy hpoint hfrees hon
    cases Point.op_rule hop with
    | alloc =>
      obtain hsame | ⟨j, -, -, -, hupdate, -⟩ := Sems.alloc_cases s.data.data
      · simpa only [Op.data, hsame] using hlive
      · simp only [Op.data, hupdate, update_apply, hlive, ite_self]
    | free j =>
      have hij : i ≠ j := by
        rintro rfl
        have hmem : (x, i) ∈ freesOn (s.loc c) := by
          rw [hl]
          rfl
        exact halone (x, i) hmem y hne line' hy p' hpoint hon
      simpa only [Op.data, Sems.free, update_of_ne hij] using hlive
    | _ => exact hlive

/-- A semaphore changes only in a call on it. -/
theorem step_sems (h : BsemInv s) (h' : ThreadInv bsemProgram s')
    (hs : Stepped bsemProgram s s' c ch op) : s'.data.data.Ok := by
  obtain ⟨hdata, -⟩ | ⟨x, hs', p, ch', o, hl, rfl, hop, hdata, -⟩ :=
    h.wake.threads.program_step h' hs (fun _ => rfl) (h.noIntr c)
  · rw [hdata]
    exact h.sems
  have hcall := fun i => h.calls x _ p i (Placement.at_of_on (on_of_loc hl)) rfl
  rw [hdata]
  cases Point.op_rule hop with
  | alloc => exact h.sems.alloc
  | free i => exact h.sems.freed i
  | down i hi => exact h.sems.down (hcall i nofun rfl) hi
  | up i => exact h.sems.up (hcall i nofun rfl)
  | _ => exact h.sems

/-- One step keeps the invariant. -/
theorem step [DecidableEq κ] (h : BsemInv s) (hok : Orderly s (c, ch))
    (hstep : (sleepCode bsemProgram).machine.step s (c, ch) = some s') : BsemInv s' := by
  obtain ⟨op, hs, -⟩ := stepped hstep
  have hwake := h.wake.step (h.heeds (c, ch)) hstep
  exact {
    wake := hwake
    noIntr := hs.noIntr (fun _ => rfl) h.noIntr
    fits := h.step_fits hs
    sems := h.step_sems hwake.threads hs
    calls := h.step_calls hwake.threads hs h.calls
      (fun k hk hfrees => hok.paired k hk (by simpa using hfrees)) hok.alone
    fresh := h.step_fresh hs
    done := h.step_done hs (h.step_fits hs) }

end BsemInv

variable {s : State κ}

theorem Start.place (h : Start s) {x : Slot} {line : Line Point Int} (hat : (places s).At x line) :
    line = .forkret .user := by
  have hoff : (places s).Off x := by
    intro c line hc
    obtain ⟨p, hp⟩ := h.start.loc c
    have hon : (s.loc c).on = some (x, line) := hc
    rw [hp] at hon
    cases hon
  have hline : line = (s.data.context x).line := hoff.eq_saved hat
  rw [hline, h.user x]
  rfl

theorem Start.calls (h : Start s) (all : Bool) : Calls all s := by
  intro x line p i hat hp _ hon
  rw [h.place hat] at hp
  cases hp
  cases hon

theorem Start.bsemInv (h : Start s) : BsemInv s := by
  have hscan : ∀ c x line, s.loc c ≠ .run x line := by
    intro c x line hl
    obtain ⟨p, hp⟩ := h.start.loc c
    rw [hp] at hl
    cases hl
  refine ⟨h.start.wakeInv, fun c b code hl => ?_, fun x line hat => ?_, ⟨fun i hi => ?_,
    fun i hi => ?_, fun i hi _ => h.bsems i hi, fun i => ?_⟩, h.calls false,
    fun c x line hl => absurd hl (hscan c x line), fun c x hs hl => absurd hl (hscan c x _)⟩
  · obtain ⟨p, hp⟩ := h.start.loc c
    rw [hp] at hl
    cases hl
  · rw [h.place hat]
    rfl
  · exact nomatch (h.live i).symm.trans hi
  · exact nomatch (h.live i).symm.trans hi
  · simp [h.downs i, h.live i]

theorem BsemInv.bsemOk (h : BsemInv s) : BsemOk s where
  value := h.sems.value
  count := h.sems.downs_le
  awake x i hsleeps hone := h.wake.noLostWakeup x i hsleeps (decide_eq_true hone)

/-- **Binary semaphores are safe**, in every run in which `bsem_free` makes its store only when no
other call on the descriptor is in progress. -/
theorem bsem_safe [DecidableEq κ] (s₀ s : State κ) (as : List (κ × Choice Input)) (h₀ : Start s₀)
    (hok : (sleepCode bsemProgram).machine.Meets Orderly s₀ as)
    (hrun : (sleepCode bsemProgram).machine.run s₀ as = some s) : BsemOk s := by
  refine BsemInv.bsemOk ?_
  exact Machine.invariant_of_meets _ (fun s a s' h hok hstep => h.step hok hstep) as s₀ s
    h₀.bsemInv hok hrun

/-! ### Two threads -/

/-- Two threads of a process on two CPUs, and no semaphore. -/
def twoThreads : State (Fin 2) where
  owner _ := none
  loc _ := .scan 0
  data :=
    { threadState := fun x => if x = (0, 0) ∨ x = (0, 1) then .runnable else .unused
      chan := fun _ => none
      context := fun _ => .forkret .user
      data :=
        { bsems := fun i => if InTable i then -1 else 0
          live := fun _ => false
          downs := fun _ => 0
          ups := fun _ => 0 }
      raised := fun _ => false
      woken := fun _ => false }

theorem twoThreads_start : Start twoThreads where
  start := ⟨fun _ => rfl, fun _ => ⟨0, rfl⟩, fun _ => ⟨_, rfl⟩⟩
  user _ := rfl
  bsems _ hi := if_pos hi
  live _ := rfl
  downs _ := rfl

def linesOn (c : Fin 2) (n : Nat) : List (Fin 2 × Choice Input) := List.replicate n (c, .next)

def opsOn (c : Fin 2) (n : Nat) : List (Fin 2 × Choice Input) := List.replicate n (c, .op .next)

def callOn (c : Fin 2) (k : Syscall) (n : Nat) : List (Fin 2 × Choice Input) :=
  (c, .op (.call k)) :: opsOn c n

def allocated : List (Fin 2 × Choice Input) := linesOn 0 4 ++ linesOn 1 5 ++ callOn 0 .alloc 3

def upped : List (Fin 2 × Choice Input) :=
  allocated ++ callOn 0 (.down 0) 3 ++ callOn 1 (.down 0) 2 ++ linesOn 1 4 ++ callOn 0 (.up 0) 2

theorem upped_safe :
    Start twoThreads ∧ (sleepCode bsemProgram).machine.Meets Orderly twoThreads upped ∧
      ∃ s, (sleepCode bsemProgram).machine.run twoThreads upped = some s ∧
        s.data.threadState (0, 1) = .sleeping ∧ s.data.data.bsems 0 = 1 ∧ BsemOk s := by
  have hok : (sleepCode bsemProgram).machine.Meets Orderly twoThreads upped := by decide +kernel
  exact ⟨twoThreads_start, hok, _, rfl, rfl, rfl,
    bsem_safe twoThreads _ upped twoThreads_start hok rfl⟩

/-- The first thread takes and frees the semaphore during the `bsem_down` of the second one. -/
def overtaken : List (Fin 2 × Choice Input) :=
  allocated ++ callOn 1 (.down 0) 0 ++ callOn 0 (.down 0) 3 ++ callOn 0 (.free 0) 3 ++ opsOn 1 3

/-- Both calls of `bsem_down` have returned, and `bsem_up` was not called. -/
theorem overtaken_twice :
    Start twoThreads ∧ (sleepCode bsemProgram).machine.Meets Paired twoThreads overtaken ∧
      ∃ s, (sleepCode bsemProgram).machine.run twoThreads overtaken = some s ∧
        s.loc 0 = .run (0, 0) (.code (.out ∅ .user)) ∧
        s.loc 1 = .run (0, 1) (.code (.out ∅ .user)) ∧
        s.data.data.downs 0 = 2 ∧ s.data.data.ups 0 = 0 ∧ ¬ BsemOk s := by
  refine ⟨twoThreads_start, by decide +kernel, _, rfl, rfl, rfl, rfl, rfl, fun h => ?_⟩
  exact absurd (h.count 0) (by decide +kernel)

/-! ### Descriptors -/

theorem Strict.orderly {a : κ × Choice Input} (h : Strict s a) : Orderly s a :=
  ⟨fun c hc _ => h.known c hc, h.alone⟩

theorem Sems.Ok.ne_free {v : Sems} {i : Int} (h : v.Ok) (hi : v.live i = true) :
    v.bsems i ≠ -1 := by
  obtain hzero | hone := h.value i hi
  · rw [hzero]
    decide
  · rw [hone]
    decide

section Descriptors

variable {s s' : State κ} {c : κ} {ch : Choice Input}

theorem Calls.live_of_touches (h : Calls true s) {i : Int} (hi : i ∈ touches (s.loc c)) :
    s.data.data.live i = true := by
  unfold touches at hi
  split at hi
  case h_1 x hs j hl | h_2 x hs j hl | h_3 x hs j hl =>
    exact h x _ _ i (Placement.at_of_on (on_of_loc hl)) rfl (fun _ => rfl) hi
  case h_4 => cases hi

theorem BsemInv.step_leaves (h : BsemInv s) (h' : ThreadInv bsemProgram s') {op : LockOp LockId}
    (hs : Stepped bsemProgram s s' c ch op) (hcalls : Calls true s) (i : Int)
    (hi : s.data.data.bsems i = -1) (hi' : s'.data.data.bsems i ≠ -1) :
    ∃ x hs, s.loc c = .run x (.code (.out hs .allocScan)) := by
  obtain ⟨hdata, -⟩ | ⟨x, hs', p, ch', o, hl, rfl, hop, hdata, -⟩ :=
    h.wake.threads.program_step h' hs (fun _ => rfl) (h.noIntr c)
  · rw [hdata] at hi'
    exact absurd hi hi'
  -- a call is made on an allocated descriptor, which `i` is not
  have hne : ∀ j, p.on = some j → i ≠ j := by
    rintro j hj rfl
    have hlive := hcalls x _ p i (Placement.at_of_on (on_of_loc hl)) rfl (fun _ => rfl) hj
    exact h.sems.ne_free hlive hi
  rw [hdata] at hi'
  cases Point.op_rule hop with
  | alloc => exact ⟨x, hs', hl⟩
  | free j =>
    simp only [Op.data, Sems.free, update_of_ne (hne j rfl)] at hi'
    exact absurd hi hi'
  | down j =>
    simp only [Op.data, Sems.down, update_of_ne (hne j rfl)] at hi'
    exact absurd hi hi'
  | up j =>
    simp only [Op.data, Sems.up, update_of_ne (hne j rfl)] at hi'
    exact absurd hi hi'
  | _ => exact absurd hi hi'

/-- A descriptor stays valid until it is freed. -/
theorem BsemInv.descriptorOk [DecidableEq κ] (h : BsemInv s) (hcalls : Calls true s)
    (hstep : (sleepCode bsemProgram).machine.step s (c, ch) = some s') : DescriptorOk s s' c := by
  obtain ⟨op, hs, -⟩ := stepped hstep
  refine ⟨fun i hi => ?_, fun i hi hbad => ?_, h.step_leaves (h.wake.threads.step hstep) hs hcalls,
    fun i hi hlive => ?_⟩
  · exact h.sems.range i (hcalls.live_of_touches hi)
  · have hlive := hcalls.live_of_touches hi
    obtain hbad | hbad := hbad
    · exact absurd (h.sems.range i hlive) hbad
    · exact absurd hbad (h.sems.ne_free hlive)
  · have hfree := h.sems.free i hi hlive
    exact ⟨hfree, Sems.bsemAlloc_ne_none hi hfree⟩

/-- Calls of `bsem_free` are made on allocated descriptors as well. -/
structure StrictInv (s : State κ) : Prop where
  sems : BsemInv s
  calls : Calls true s

theorem StrictInv.step [DecidableEq κ] (h : StrictInv s) (hok : Strict s (c, ch))
    (hstep : (sleepCode bsemProgram).machine.step s (c, ch) = some s') : StrictInv s' := by
  obtain ⟨op, hs, -⟩ := stepped hstep
  have h' := h.sems.wake.threads.step hstep
  exact ⟨h.sems.step hok.orderly hstep,
    h.sems.step_calls h' hs h.calls (fun k hk _ => hok.known k hk) hok.alone⟩

/-- **Descriptors**, in every run in which calls are made on allocated descriptors only, and
`bsem_free` makes its store only when no other call on the descriptor is in progress. -/
theorem descriptors_safe [DecidableEq κ] (s₀ s s' : State κ) (as : List (κ × Choice Input)) (c : κ)
    (ch : Choice Input) (h₀ : Start s₀)
    (hok : (sleepCode bsemProgram).machine.Meets Strict s₀ as)
    (hrun : (sleepCode bsemProgram).machine.run s₀ as = some s)
    (hstep : (sleepCode bsemProgram).machine.step s (c, ch) = some s') : DescriptorOk s s' c := by
  have h : StrictInv s :=
    Machine.invariant_of_meets _ (fun s a s' h hok hstep => h.step hok hstep) as s₀ s
      ⟨h₀.bsemInv, h₀.calls true⟩ hok hrun
  exact h.sems.descriptorOk h.calls hstep

end Descriptors

def taken : List (Fin 2 × Choice Input) := allocated ++ callOn 0 (.down 0) 3 ++ callOn 1 (.free 0) 1

theorem taken_freed :
    Start twoThreads ∧ (sleepCode bsemProgram).machine.Meets Strict twoThreads taken ∧
      ∃ s s', (sleepCode bsemProgram).machine.run twoThreads taken = some s ∧
        (sleepCode bsemProgram).machine.step s (1, .op .next) = some s' ∧
        s.data.data.bsems 0 = 0 ∧ s'.data.data.bsems 0 = -1 ∧ DescriptorOk s s' 1 := by
  have hok : (sleepCode bsemProgram).machine.Meets Strict twoThreads taken := by decide +kernel
  exact ⟨twoThreads_start, hok, _, _, rfl, rfl, rfl, rfl,
    descriptors_safe twoThreads _ _ taken 1 (.op .next) twoThreads_start hok rfl rfl⟩

/-- `bsem_up(0)` without `bsem_alloc` makes entry 0 an allocated one, and `bsem_free(128)` writes
behind the table. -/
theorem unchecked :
    Start twoThreads ∧
      (∃ s s', (sleepCode bsemProgram).machine.run twoThreads
          (linesOn 0 4 ++ callOn 0 (.up 0) 1) = some s ∧
        (sleepCode bsemProgram).machine.step s (0, .op .next) = some s' ∧
        s.data.data.bsems 0 = -1 ∧ s'.data.data.bsems 0 = 1 ∧ ¬ DescriptorOk s s' 0) ∧
      ∃ s s', (sleepCode bsemProgram).machine.run twoThreads
          (linesOn 0 4 ++ callOn 0 (.free maxBsem) 1) = some s ∧
        (sleepCode bsemProgram).machine.step s (0, .op .next) = some s' ∧
        s.data.data.bsems maxBsem = 0 ∧ s'.data.data.bsems maxBsem = -1 ∧
        ¬ DescriptorOk s s' 0 := by
  refine ⟨twoThreads_start, ⟨_, _, rfl, rfl, rfl, rfl, fun h => ?_⟩,
    ⟨_, _, rfl, rfl, rfl, rfl, fun h => ?_⟩⟩
  · obtain ⟨x, hs, hl⟩ := h.leaves 0 rfl (by decide +kernel)
    cases hl
  · exact absurd (h.range maxBsem rfl) (by decide)

end Xv6.Sem
