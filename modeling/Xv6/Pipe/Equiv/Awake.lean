import Xv6.Pipe.Equiv.Calls

/-!
# Pipes are first in, first out, and when their wakeups are lost

The bytes leave the buffer in the order in which they were put into it. No thread sleeps for nothing
as long as `pipewrite` does not find its process killed after it has put a byte: its early return
skips the `wakeup` of the readers.
-/

namespace Xv6.Pipes

open Lib Sleep

variable {κ : Type} {s s' : State κ} {a : κ × Choice Input}

theorem Start.fifo (h : Start s) : Fifo s.data.data := by
  constructor
  · rw [h.nread, h.taken]
    rfl
  · rw [h.nwrite, h.put]
    rfl
  · rw [h.taken]
    exact Nat.zero_le _
  · rw [h.put]
    exact Nat.zero_le _
  · intro k hk
    rw [h.taken] at hk
    cases hk
  · intro k _ hk
    rw [h.put] at hk
    cases hk

theorem Start.pipeInv (h : Start s) : MonitorInv pipeProgram pipeMonitor s := by
  refine h.start.monitorInv (fun x p hp => ?_) h.fifo
  rw [h.user x] at hp
  obtain rfl := Saved.forkret.inj hp
  rfl

/-- **Pipes are first in, first out**, in every run of the calls on any number of CPUs. -/
theorem pipe_fifo [DecidableEq κ] (s₀ s : State κ) (as : List (κ × Choice Input)) (h₀ : Start s₀)
    (hrun : (sleepCode pipeProgram).machine.run s₀ as = some s) : FifoOk s.data.data := by
  have h : MonitorInv pipeProgram pipeMonitor s :=
    Machine.invariant_of_run _ (fun s a s' h hstep => h.step pipeMonitor_sound hstep) as s₀ s
      h₀.pipeInv hrun
  exact h.data.fifoOk

/-! ### Wakeups -/

/-- The threads keep to the monitor, and no wakeup is lost. -/
structure AwakeInv (s : State κ) : Prop where
  monitor : MonitorInv pipeProgram pipeMonitor s
  wake : WakeInv pipeProgram s

theorem AwakeInv.heeds (h : AwakeInv s) (hok : Spared s a) : Heeds pipeProgram s a := by
  refine h.monitor.heeds pipeMonitor_sound a ?_
  intro x hs p ch n q hl _ hop
  refine (Point.op_rule hop).heed (h.monitor.facts a.1 x _ hl) ?_
  rintro pr i m rfl hi
  refine hok pr ?_
  rw [hl]
  exact if_pos hi

theorem AwakeInv.step [DecidableEq κ] (h : AwakeInv s) (hok : Spared s a)
    (hstep : (sleepCode pipeProgram).machine.step s a = some s') : AwakeInv s' :=
  ⟨h.monitor.step pipeMonitor_sound hstep, h.wake.step (h.heeds hok) hstep⟩

theorem AwakeInv.awakeOk (h : AwakeInv s) : AwakeOk s := by
  have hfalse : ∀ x i, s.owner (.other pipeLock) = none → SleepsFor pipeProgram s x i →
      i.holds s.data.data = false := by
    intro x i hfree hsleeps
    by_contra hcond
    rw [Bool.not_eq_false] at hcond
    exact h.wake.noLostWakeup x i hsleeps hcond hfree
  exact ⟨fun x hfree hsleeps => Cond.data_false (hfalse x .data hfree hsleeps),
    fun x hfree hsleeps => (Cond.room_false (hfalse x .room hfree hsleeps)).1⟩

/-- **No thread sleeps for nothing**, in every run in which `pipewrite` does not find its process
killed after it has put a byte into the buffer. -/
theorem pipe_awake [DecidableEq κ] (s₀ s : State κ) (as : List (κ × Choice Input)) (h₀ : Start s₀)
    (hok : (sleepCode pipeProgram).machine.Meets Spared s₀ as)
    (hrun : (sleepCode pipeProgram).machine.run s₀ as = some s) : AwakeOk s := by
  refine AwakeInv.awakeOk ?_
  exact Machine.invariant_of_meets _ (fun s a s' h hok hstep => h.step hok hstep) as s₀ s
    ⟨h₀.pipeInv, h₀.start.wakeInv⟩ hok hrun

/-! ### Three threads -/

/-- Threads of three processes on two CPUs, and a new pipe. -/
def threeThreads : State (Fin 2) where
  owner _ := none
  loc c := if c = 0 then .scan 0 else .scan 1
  data :=
    { threadState := fun x => if x.1.val < 3 ∧ x.2 = 0 then .runnable else .unused
      chan := fun _ => none
      context := fun x => .forkret (.user x.1)
      data :=
        { data := fun _ => 0
          nread := 0
          nwrite := 0
          readopen := true
          writeopen := true
          freed := false
          killed := fun _ => false
          put := []
          taken := [] }
      raised := fun _ => false
      woken := fun _ => false }

theorem threeThreads_start : Start threeThreads := by
  refine ⟨⟨fun _ => rfl, fun c => ?_, fun _ => ⟨_, rfl⟩⟩, fun _ => rfl, rfl, rfl, rfl, rfl, rfl, rfl⟩
  by_cases hc : c = 0
  · exact ⟨0, if_pos hc⟩
  · exact ⟨1, if_neg hc⟩

def linesOn (c : Fin 2) (n : Nat) : List (Fin 2 × Choice Input) := List.replicate n (c, .next)

def opsOn (c : Fin 2) (n : Nat) : List (Fin 2 × Choice Input) := List.replicate n (c, .op .next)

def callOn (c : Fin 2) (k : Call) (n : Nat) : List (Fin 2 × Choice Input) :=
  (c, .op (.call k)) :: opsOn c n

/-- The first thread falls asleep in `piperead`. -/
def asleep : List (Fin 2 × Choice Input) := linesOn 0 4 ++ callOn 0 (.read 1) 2 ++ linesOn 0 4

def queued : List (Fin 2 × Choice Input) :=
  asleep ++ linesOn 1 4 ++ callOn 1 (.write 2) 3 ++ [(1, .op (.copyin (some 65)))]

/-- The second thread writes another byte, wakes up the first one and returns; meanwhile CPU 0 goes
on with the third thread. -/
def awake : List (Fin 2 × Choice Input) :=
  queued ++ linesOn 0 22 ++ opsOn 1 2 ++ [(1, .op (.copyin (some 66)))] ++ opsOn 1 1 ++
    linesOn 1 641 ++ opsOn 1 1

/-- The third thread reads a byte. -/
def readByte : List (Fin 2 × Choice Input) :=
  awake ++ callOn 0 (.read 1) 3 ++ [(0, .op (.copyout true))]

theorem readByte_fifo :
    Start threeThreads ∧ ∃ s, (sleepCode pipeProgram).machine.run threeThreads readByte = some s ∧
      (s.data.data.put = [65, 66] ∧ s.data.data.taken = [65]) ∧ FifoOk s.data.data := by
  obtain ⟨s, hrun, hs⟩ : ∃ s, (sleepCode pipeProgram).machine.run threeThreads readByte = some s ∧
      s.data.data.put = [65, 66] ∧ s.data.data.taken = [65] :=
    Machine.exists_run _ (by decide +kernel)
  exact ⟨threeThreads_start, s, hrun, hs, pipe_fifo threeThreads s readByte threeThreads_start hrun⟩

theorem asleep_awake :
    Start threeThreads ∧ (sleepCode pipeProgram).machine.Meets Spared threeThreads awake ∧
      ∃ s, (sleepCode pipeProgram).machine.run threeThreads awake = some s ∧
        (s.data.data.put = [65, 66] ∧ s.owner (.other pipeLock) = none ∧
          s.data.threadState (0, 0) = .runnable) ∧ AwakeOk s := by
  have hok : (sleepCode pipeProgram).machine.Meets Spared threeThreads awake := by decide +kernel
  obtain ⟨s, hrun, hs⟩ : ∃ s, (sleepCode pipeProgram).machine.run threeThreads awake = some s ∧
      s.data.data.put = [65, 66] ∧ s.owner (.other pipeLock) = none ∧
        s.data.threadState (0, 0) = .runnable :=
    Machine.exists_run _ (by decide +kernel)
  exact ⟨threeThreads_start, hok, s, hrun, hs,
    pipe_awake threeThreads s awake threeThreads_start hok hrun⟩

def cutOff : List (Fin 2 × Choice Input) :=
  queued ++ linesOn 0 22 ++ callOn 0 (.kill (some 1)) 1 ++ linesOn 0 12 ++ opsOn 1 1

/-- The second thread has returned, the lock is free and a byte is there; the first one sleeps. -/
def Overslept (s : State (Fin 2)) : Prop :=
  s.loc 1 = .run (1, 0) (.code (.out ∅ (.user 1))) ∧ s.owner (.other pipeLock) = none ∧
    ¬ s.data.data.Empty ∧ (∀ c, (s.loc c).on.map Prod.fst ≠ some (0, 0)) ∧
    s.data.threadState (0, 0) = .sleeping ∧ s.data.chan (0, 0) = some Cond.data.chan ∧
    s.data.context (0, 0) = .slept .data (.readTest 0 1)

instance : DecidablePred Overslept := fun _ => inferInstanceAs (Decidable (_ ∧ _))

/-- The reader is not woken up for the byte. -/
theorem cutOff_asleep :
    Start threeThreads ∧
      ∃ s, (sleepCode pipeProgram).machine.run threeThreads cutOff = some s ∧ Overslept s ∧
        ¬ AwakeOk s := by
  obtain ⟨s, hrun, hs⟩ : ∃ s, (sleepCode pipeProgram).machine.run threeThreads cutOff = some s ∧
      Overslept s := Machine.exists_run _ (by decide +kernel)
  refine ⟨threeThreads_start, s, hrun, hs, fun h => ?_⟩
  obtain ⟨-, hfree, hdata, hoff, hstate, hchan, hcontext⟩ := hs
  have hplace : (places s).At (0, 0) (.slept .data (.readTest 0 1)) := by
    refine .inr ⟨fun c l hl => hoff c ?_, congrArg Saved.line hcontext⟩
    exact congrArg (Option.map Prod.fst) hl
  refine hdata (h.reader (0, 0) hfree ⟨hstate, hchan, _, hplace, ?_⟩).1
  rw [hstate]
  rfl

end Xv6.Pipes
