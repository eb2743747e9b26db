import Xv6.Signal.Kill

/-!
# `kill` reaches only its target

A free slot has the `pid` 0 and is not killed (`SlotsInv`), and calls of `kill` with another `pid`
keep that (`kill_reaches`). `kill(0, SIGKILL)` finds a free slot, whose next process is killed at
its first trap (`zero_kills`).
-/

namespace Xv6.Signal

open Lib Function

variable {s s' : Slots}

/-! ### The call -/

variable {k : Kernel} {pid signum : Int} {i : Fin nproc}

theorem kill_signum (h : signum ≥ signalsSize ∨ signum < 0) :
    kill k pid signum = (false, k) := by
  unfold kill
  rw [if_pos h]

theorem kill_none (h : k.find pid = none) :
    kill k pid signum = (false, k) := by
  unfold kill
  rw [h]
  split_ifs
  · rfl
  · rfl

theorem kill_some (hsig : ¬(signum ≥ signalsSize ∨ signum < 0)) (h : k.find pid = some i) :
    kill k pid signum = (true, k.setProc i ((k.proc i).receive signum.toNat)) := by
  unfold kill
  rw [if_neg hsig, h]

theorem find_pid {pid : Int} (h : k.find pid = some i) :
    (k.proc i).pid = pid := by
  have hi := List.find?_some h
  exact of_decide_eq_true hi

theorem find_ne_none : k.find (k.proc i).pid ≠ none := by
  intro h
  have hi := List.find?_eq_none.mp h i (List.mem_finRange i)
  exact hi (decide_eq_true rfl)

theorem Proc.killed_receive (p : Proc) (signum : Nat) : p.Killed (p.receive signum) := by
  by_cases hkill : signum = sigkill
  · have hthreads : (fun j => if (p.threads j).state = .sleeping then
        { p.threads j with state := .runnable } else p.threads j) = fun j => { p.threads j with
          state := if (p.threads j).state = .sleeping then .runnable else (p.threads j).state } := by
      funext j
      split_ifs
      · rfl
      · rfl
    simp only [Proc.receive, if_pos hkill, hthreads]
    exact ⟨_, _, _, _, rfl⟩
  · simp only [Proc.receive, if_neg hkill]
    exact ⟨p.killed, p.pendingSignals ||| bit signum, p.state, fun j => (p.threads j).state, rfl⟩

/-- The states of processes stay what they are, but for `SLEEPING`. -/
theorem Proc.receive_live (p : Proc) (signum : Nat) : (p.receive signum).Live ↔ p.Live := by
  unfold Proc.receive Proc.Live
  dsimp only
  split_ifs with hkill hsleep
  · simp [hsleep]
  · rfl
  · rfl

/-! ### The invariant -/

/-- A slot that is free has no `pid` and is not killed. -/
def SlotsInv (s : Slots) : Prop :=
  ∀ i, ¬(s.kernel.proc i).Live → (s.kernel.proc i).pid = 0 ∧ (s.kernel.proc i).killed = false

theorem Boot.inv (h : Boot s) : SlotsInv s := by
  intro i hi
  by_cases hi0 : i = 0
  · subst hi0
    have hstate := h.init.1
    exact absurd (by rw [Proc.Live, hstate]; nofun) hi
  · exact (h.rest i hi0).2

section

variable (h : SlotsInv s)

include h

theorem SlotsInv.find_live {pid : Int} (hpid : pid ≠ 0)
    (hi : s.kernel.find pid = some i) : (s.kernel.proc i).Live := by
  by_contra hfree
  exact hpid ((find_pid hi).symm.trans (h i hfree).1)

theorem SlotsInv.setProc {p : Proc} (hk : s'.kernel = s.kernel.setProc i p)
    (hp : ¬p.Live → p.pid = 0 ∧ p.killed = false) :
    SlotsInv s' := by
  intro x hx
  rw [hk] at hx ⊢
  simp only [Kernel.setProc] at hx ⊢
  by_cases hxi : x = i
  · rw [hxi, update_self] at hx ⊢
    exact hp hx
  · rw [update_of_ne hxi] at hx ⊢
    exact h x hx

theorem SlotsInv.kill (hpid : pid ≠ 0) :
    SlotsInv { s with kernel := (Signal.kill s.kernel pid signum).2 } := by
  by_cases hsig : signum ≥ signalsSize ∨ signum < 0
  · rw [kill_signum hsig]
    exact h
  cases hfind : s.kernel.find pid with
  | none =>
    rw [kill_none hfind]
    exact h
  | some =>
    rw [kill_some hsig hfind]
    refine h.setProc rfl fun hdead => ?_
    exact absurd ((Proc.receive_live _ _).mpr (h.find_live hpid hfind)) hdead

theorem SlotsInv.fork {p : Fin nproc} {j : Fin nthread} {pages : Pages} :
    SlotsInv (s.fork p j pages) := by
  unfold Slots.fork
  cases s.freeSlot with
  | none => exact h
  | some =>
    dsimp only
    split_ifs
    · refine h.setProc rfl fun hdead => absurd ?_ hdead
      show ProcState.used ≠ .unused
      nofun
    · exact h.setProc rfl fun _ => ⟨rfl, rfl⟩

theorem SlotsInv.step {op : SlotOp} (hop : op.Named)
    (hstep : slotsMachine.step s op = some s') : SlotsInv s' := by
  cases op with
  | kill =>
    cases hstep
    exact h.kill hop
  | fork =>
    obtain ⟨-, rfl⟩ := by simpa [slotsMachine] using hstep
    exact h.fork
  | exit =>
    obtain ⟨-, rfl⟩ := by simpa [slotsMachine] using hstep
    refine h.setProc rfl fun hdead => absurd ?_ hdead
    show ProcState.zombie ≠ .unused
    nofun
  | wait =>
    obtain ⟨-, i, -, rfl⟩ := by simpa [slotsMachine] using hstep
    exact h.setProc rfl fun _ => ⟨rfl, rfl⟩

/-! ### What follows -/

theorem SlotsInv.result (hpid : pid ≠ 0) :
    (Signal.kill s.kernel pid signum).1 = true ↔
      (∃ i, (s.kernel.proc i).Live ∧ (s.kernel.proc i).pid = pid) ∧ 0 ≤ signum ∧ signum < 32 := by
  have hsize : signalsSize = 32 := rfl
  by_cases hsig : signum ≥ signalsSize ∨ signum < 0
  · rw [kill_signum hsig]
    refine iff_of_false nofun fun hrange => ?_
    omega
  cases hfind : s.kernel.find pid with
  | none =>
    rw [kill_none hfind]
    refine iff_of_false nofun ?_
    rintro ⟨⟨i, -, rfl⟩, -⟩
    exact find_ne_none hfind
  | some i =>
    rw [kill_some hsig hfind]
    refine iff_of_true rfl ⟨⟨i, h.find_live hpid hfind, find_pid hfind⟩, ?_⟩
    omega

theorem SlotsInv.target (hpid : pid ≠ 0) (i : Fin nproc) :
    (Signal.kill s.kernel pid signum).2.proc i = s.kernel.proc i ∨
      (s.kernel.proc i).Live ∧ (s.kernel.proc i).pid = pid ∧
        (s.kernel.proc i).Killed ((Signal.kill s.kernel pid signum).2.proc i) := by
  by_cases hsig : signum ≥ signalsSize ∨ signum < 0
  · rw [kill_signum hsig]
    exact .inl rfl
  cases hfind : s.kernel.find pid with
  | none =>
    rw [kill_none hfind]
    exact .inl rfl
  | some x =>
    rw [kill_some hsig hfind]
    simp only [Kernel.setProc]
    by_cases hi : i = x
    · subst hi
      rw [update_self]
      exact .inr ⟨h.find_live hpid hfind, find_pid hfind, Proc.killed_receive _ _⟩
    · exact .inl (update_of_ne hi _ _)

theorem SlotsInv.created {op : SlotOp} (hop : op.Named)
    (hstep : slotsMachine.step s op = some s') (hfree : ¬(s.kernel.proc i).Live)
    (hlive : (s'.kernel.proc i).Live) :
    (s'.kernel.proc i).killed = false ∧ (s'.kernel.proc i).pendingSignals = 0 := by
  cases op with
  | kill pid signum =>
    cases hstep
    have htarget : (Signal.kill s.kernel pid signum).2.proc i = s.kernel.proc i ∨ _ :=
      h.target hop i
    obtain heq | ⟨hnot, -⟩ := htarget
    · rw [heq] at hlive
      exact absurd hlive hfree
    · exact absurd hnot hfree
  | fork =>
    obtain ⟨-, rfl⟩ := by simpa [slotsMachine] using hstep
    unfold Slots.fork at hlive ⊢
    cases hslot : s.freeSlot with rw [hslot] at hlive
    | none =>
      exact absurd hlive hfree
    | some x =>
      dsimp only at hlive ⊢
      split_ifs at hlive ⊢
      · simp only [Kernel.setProc] at hlive ⊢
        by_cases hi : i = x
        · subst hi
          rw [update_self]
          exact ⟨(h i hfree).2, rfl⟩
        · rw [update_of_ne hi] at hlive
          exact absurd hlive hfree
      · simp only [Kernel.setProc] at hlive
        by_cases hi : i = x
        · subst hi
          rw [update_self] at hlive
          exact absurd rfl hlive
        · rw [update_of_ne hi] at hlive
          exact absurd hlive hfree
  | exit p =>
    obtain ⟨⟨hruns, -⟩, rfl⟩ := by simpa [slotsMachine] using hstep
    simp only [Slots.exit, Kernel.setProc] at hlive
    by_cases hi : i = p
    · subst hi
      exact absurd hruns.1 hfree
    · rw [update_of_ne hi] at hlive
      exact absurd hlive hfree
  | wait =>
    obtain ⟨-, x, -, rfl⟩ := by simpa [slotsMachine] using hstep
    simp only [Slots.reap, Kernel.setProc] at hlive
    by_cases hi : i = x
    · subst hi
      rw [update_self] at hlive
      exact absurd rfl hlive
    · rw [update_of_ne hi] at hlive
      exact absurd hlive hfree

theorem SlotsInv.killOk : KillOk s where
  result _ _ hpid := h.result hpid
  target _ _ hpid i := h.target hpid i
  created _ _ hop hstep _ hfree hlive := h.created hop hstep hfree hlive

end

/-- **`kill` with a `pid` other than 0**: in every state after `userinit`, it finds the processes
that are alive and no others. -/
theorem kill_reaches (s₀ s : Slots) (ops : List SlotOp) (h₀ : Boot s₀)
    (hmeets : slotsMachine.Meets (fun _ op => op.Named) s₀ ops)
    (hrun : slotsMachine.run s₀ ops = some s) : KillOk s := by
  have hinv := slotsMachine.invariant_of_meets (I := SlotsInv)
    (fun _ _ _ hs hop hstep => hs.step hop hstep) ops s₀ s h₀.inv hmeets hrun
  exact hinv.killOk

/-! ### Runs -/

def blankThread : Thread := ⟨.unused, 0, default, default⟩

def blankProc : Proc where
  state := .unused
  killed := false
  pid := 0
  threads _ := blankThread
  walkaddr _ := 0
  pendingSignals := 0
  signalMask := 0
  signalHandlers _ := sigDfl
  stopped := false
  signalMaskBackup := 0
  ignoreSignals := false
  maskHandlers _ := 0

def booted : Slots where
  kernel :=
    { proc := update (fun _ => blankProc) 0
        { blankProc with
          state := .used
          pid := 1
          threads := update (fun _ => blankThread) 0 { blankThread with state := .runnable } }
      mem := fun _ => 0 }
  parent _ := none
  nextpid := 2

theorem booted_proc (hi : i ≠ 0) : booted.kernel.proc i = blankProc := by
  simp only [booted, update_of_ne hi]

theorem booted_boot : Boot booted where
  init := ⟨rfl, rfl⟩
  rest i hi := by
    rw [booted_proc hi]
    exact ⟨rfl, rfl, rfl⟩

def onePage : Pages := ⟨true, default, fun _ => 0⟩

def reuse : List SlotOp :=
  [.fork 0 0 onePage, .kill 2 9, .exit 1, .kill 2 9, .wait 0, .fork 0 0 onePage]

theorem reuse_reaches : ∃ s, slotsMachine.run booted reuse = some s ∧ KillOk s ∧
    (s.kernel.proc 1).pid = 3 := by
  have hmeets : slotsMachine.Meets (fun _ op => op.Named) booted reuse := by
    repeat' first | exact trivial | refine ⟨by simp [SlotOp.Named], ?_⟩
  exact ⟨_, rfl, kill_reaches booted _ reuse booted_boot hmeets rfl, rfl⟩

/-- No process has the `pid` 0, `kill(0, SIGKILL)` returns 0, and the next child is killed. -/
theorem zero_kills : ∃ s, Boot booted ∧
    (kill booted.kernel 0 9).1 = true ∧
    (¬∃ i, (booted.kernel.proc i).Live ∧ (booted.kernel.proc i).pid = 0) ∧
    slotsMachine.run booted [.kill 0 9, .fork 0 0 onePage] = some s ∧
    ¬(booted.kernel.proc 1).Live ∧ (s.kernel.proc 1).Live ∧ (s.kernel.proc 1).pid = 2 ∧
    (s.kernel.proc 1).killed = true := by
  refine ⟨_, booted_boot, rfl, ?_, rfl, by decide +kernel, by decide +kernel, rfl, rfl⟩
  rintro ⟨i, hlive, hpid⟩
  by_cases hi : i = 0
  · subst hi
    cases hpid
  · rw [booted_proc hi] at hlive
    exact hlive rfl

end Xv6.Signal
