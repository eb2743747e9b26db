import Xv6.Signal.Equiv.Handling
import Xv6.Signal.Loops

/-!
# Which wait loops a killed process leaves

Five of the seven loops test `p->killed`, and a thread of a killed process leaves them at the next
evaluation; that of `handling_signals` and `bsem_down` do not (`killed_leaves_iff`).
-/

namespace Xv6.Signal

theorem pollCont_leaves (p : Proc) : (pollCont p).leaves = true ↔ p.Pending sigcont := by
  unfold pollCont
  split_ifs with h
  · exact iff_of_true rfl h
  · exact iff_of_false nofun h

theorem bsemDownLoop_leaves (t : Bsems) (i : Fin maxBsem) :
    (bsemDownLoop t i).leaves = true ↔ t i ≠ 0 := by
  unfold bsemDownLoop Bsems.bsemDown
  split_ifs with h
  · exact iff_of_false nofun (not_not.mpr h)
  · exact iff_of_true rfl h

/-! ### The loops that test `p->killed` -/

theorem waitLoop_killed (np : Fin nproc → Child) (i : Fin nproc) (copyFails : Bool) :
    (waitLoop np i copyFails true).leaves = true := by
  unfold waitLoop
  split
  · rfl
  · rw [if_pos (.inr rfl)]
    rfl

theorem sysSleepLoop_killed (ticks ticks0 n : BitVec 32) :
    (sysSleepLoop ticks ticks0 n true).leaves = true := by
  simp only [sysSleepLoop, ↓reduceIte]
  split_ifs <;> rfl

theorem pipereadLoop_killed (copyout : Nat → UInt8 → Bool) (n : Nat) (pi : Pipe) :
    (pipereadLoop copyout n pi true).leaves = true := by
  simp only [pipereadLoop, ↓reduceIte]
  split_ifs <;> rfl

theorem pipewriteLoop_killed (copyin : Nat → Option UInt8) (rest i : Nat) (pi : Pipe) :
    (pipewriteLoop copyin true rest i pi).leaves = true := by
  cases rest with
  | zero => rfl
  | succ =>
    rw [pipewriteLoop, if_pos (.inr rfl)]
    rfl

/-- A thread of a killed process may still find input, but it does not wait for more. -/
theorem consolereadLoop_killed (copyout : Nat → UInt8 → Bool) (target n : Nat) (cons : Cons) :
    (consolereadLoop copyout true target n cons).leaves = true := by
  induction n generalizing cons with
  | zero => rfl
  | succ n ih =>
    simp only [consolereadLoop, ↓reduceIte]
    split_ifs
    -- all cases return at once, but for the last, where the loop goes on to the next byte
    · rfl
    · rfl
    · rfl
    · rfl
    · rfl
    · exact ih _

/-- **`SIGKILL` takes effect**: when a thread of a killed process evaluates its wait loop, it leaves
it, exactly if the loop is not that of a stopped process without a pending `SIGCONT`, and not
`bsem_down` of a semaphore with value 0. -/
theorem killed_leaves_iff {p : Proc} (hkilled : p.killed = true) (l : WaitLoop) :
    l.leaves p = true ↔
      (l = .handlingSignals → p.Pending sigcont) ∧ ∀ t i, l = .bsemDown t i → t i ≠ 0 := by
  cases l with
  | handlingSignals =>
    rw [WaitLoop.leaves, pollCont_leaves]
    exact ⟨fun h => ⟨fun _ => h, nofun⟩, fun h => h.1 rfl⟩
  | bsemDown t i =>
    rw [WaitLoop.leaves, bsemDownLoop_leaves]
    refine ⟨fun h => ⟨nofun, ?_⟩, fun h => h.2 t i rfl⟩
    rintro t' i' heq
    obtain ⟨rfl, rfl⟩ := WaitLoop.bsemDown.inj heq
    exact h
  | wait np i copyFails =>
    rw [WaitLoop.leaves, hkilled]
    exact iff_of_true (waitLoop_killed np i copyFails) ⟨nofun, nofun⟩
  | sysSleep ticks ticks0 n =>
    rw [WaitLoop.leaves, hkilled]
    exact iff_of_true (sysSleepLoop_killed ticks ticks0 n) ⟨nofun, nofun⟩
  | piperead copyout n pi =>
    rw [WaitLoop.leaves, hkilled]
    exact iff_of_true (pipereadLoop_killed copyout n pi) ⟨nofun, nofun⟩
  | pipewrite copyin rest i pi =>
    rw [WaitLoop.leaves, hkilled]
    exact iff_of_true (pipewriteLoop_killed copyin rest i pi) ⟨nofun, nofun⟩
  | consoleread copyout target n cons =>
    rw [WaitLoop.leaves, hkilled]
    exact iff_of_true (consolereadLoop_killed copyout target n cons) ⟨nofun, nofun⟩

def killedProc : Proc := ((interrupted 0 0).proc 0).receive sigkill

theorem killedProc_leaves_sleep :
    killedProc.killed = true ∧ WaitLoop.leaves killedProc (.sysSleep 5 0 100) = true :=
  ⟨rfl, (killed_leaves_iff rfl (.sysSleep 5 0 100)).mpr ⟨nofun, nofun⟩⟩

/-- A killed process waits on for a semaphore, and a stopped one for its `SIGCONT`. -/
theorem killedProc_waits :
    killedProc.killed = true ∧
      WaitLoop.leaves killedProc (.bsemDown (fun _ => 0) 0) = false ∧
      WaitLoop.leaves { killedProc with stopped := true } .handlingSignals = false := by
  refine ⟨rfl, rfl, ?_⟩
  decide +kernel

end Xv6.Signal
