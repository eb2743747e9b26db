import Xv6.Signal.Backup
import Xv6.Signal.Equiv.Handling
import Xv6.Signal.Equiv.Kill

/-!
# Whose registers `sigret` restores

Only `usersignal` changes the backups, but for the mask, which `allocproc` clears (`SameBackup`). So
a thread in a handler finds what was saved when it was sent there (`BackupInv`); outside of one, it
finds the registers of the former owner of its slot (`secondOwner_leaks`).
-/

namespace Xv6.Signal

open Lib Function

variable {code : SigretCode} {k k' : Kernel} {i : Fin nproc} {j : Fin nthread}

/-! ### The backups -/

structure SameBackup (k k' : Kernel) : Prop where
  mask : ∀ i, (k'.proc i).signalMaskBackup = (k.proc i).signalMaskBackup
  frame : ∀ i j, ((k'.proc i).threads j).userTrapFrameBackup
    = ((k.proc i).threads j).userTrapFrameBackup

theorem SameBackup.refl (k : Kernel) : SameBackup k k := ⟨fun _ => rfl, fun _ _ => rfl⟩

theorem sameBackup_setProc {p : Proc} (hmask : p.signalMaskBackup = (k.proc i).signalMaskBackup)
    (hframe : ∀ j, (p.threads j).userTrapFrameBackup
      = ((k.proc i).threads j).userTrapFrameBackup) : SameBackup k (k.setProc i p) := by
  constructor
  · intro x
    by_cases hx : x = i
    · rw [hx, setProc_proc_self, hmask]
    · rw [setProc_proc_of_ne hx]
  · intro x j
    by_cases hx : x = i
    · rw [hx, setProc_proc_self, hframe]
    · rw [setProc_proc_of_ne hx]

theorem frame_update {threads : Fin nthread → Thread} {t : Thread}
    (h : t.userTrapFrameBackup = (threads j).userTrapFrameBackup) (j' : Fin nthread) :
    (update threads j t j').userTrapFrameBackup = (threads j').userTrapFrameBackup := by
  by_cases hj : j' = j
  · rw [hj, update_self, h]
  · rw [update_of_ne hj]

theorem frame_setThread {p : Proc} {t : Thread}
    (h : t.userTrapFrameBackup = (p.threads j).userTrapFrameBackup) (j' : Fin nthread) :
    ((p.setThread j t).threads j').userTrapFrameBackup = (p.threads j').userTrapFrameBackup :=
  frame_update h j'

theorem sameBackup_kill (pid signum : Int) : SameBackup k (kill k pid signum).2 := by
  by_cases hsig : signum ≥ signalsSize ∨ signum < 0
  · rw [kill_signum hsig]
    exact .refl k
  cases hfind : k.find pid with
  | none =>
    rw [kill_none hfind]
    exact .refl k
  | some i =>
    rw [kill_some hsig hfind]
    obtain ⟨_, _, _, states, heq⟩ := Proc.killed_receive (k.proc i) signum.toNat
    rw [heq]
    exact sameBackup_setProc rfl fun _ => rfl

theorem sameBackup_defaultAction (sig : Sig) : SameBackup k (defaultAction k i sig) := by
  unfold defaultAction
  split_ifs
  · exact sameBackup_setProc rfl fun _ => rfl
  · exact sameBackup_setProc rfl fun _ => rfl
  · exact sameBackup_kill _ _

theorem sameBackup_reap (s : Slots) (i : Fin nproc) : SameBackup s.kernel (s.reap i).kernel := by
  refine sameBackup_setProc rfl fun j => ?_
  dsimp only
  split_ifs
  · rfl
  · rfl

theorem fork_backup (s : Slots) (p : Fin nproc) (j : Fin nthread) (pages : Pages) :
    (∀ i, s.freeSlot ≠ some i →
      ((s.fork p j pages).kernel.proc i).signalMaskBackup = (s.kernel.proc i).signalMaskBackup) ∧
    ∀ i j', (((s.fork p j pages).kernel.proc i).threads j').userTrapFrameBackup
      = ((s.kernel.proc i).threads j').userTrapFrameBackup := by
  unfold Slots.fork
  cases hfree : s.freeSlot with
  | none => exact ⟨fun _ _ => rfl, fun _ _ => rfl⟩
  | some x =>
    have hframe : ∀ j', (((s.kernel.proc x).alloc s.nextpid pages).threads j').userTrapFrameBackup
        = ((s.kernel.proc x).threads j').userTrapFrameBackup := by
      intro j'
      refine frame_update ?_ j'
      rfl
    have hother : ∀ (q : Proc) i, some x ≠ some i →
        ((s.kernel.setProc x q).proc i).signalMaskBackup = (s.kernel.proc i).signalMaskBackup := by
      intro q i hi
      rw [setProc_proc_of_ne fun hix => hi (congrArg some hix.symm)]
    have hslot : ∀ q : Proc, (∀ j', (q.threads j').userTrapFrameBackup
          = ((s.kernel.proc x).threads j').userTrapFrameBackup) → ∀ i j',
        (((s.kernel.setProc x q).proc i).threads j').userTrapFrameBackup
          = ((s.kernel.proc i).threads j').userTrapFrameBackup := by
      intro q hq i j'
      by_cases hi : i = x
      · rw [hi, setProc_proc_self, hq]
      · rw [setProc_proc_of_ne hi]
    dsimp only
    split_ifs
    all_goals
      refine ⟨hother _, hslot _ fun j' => (frame_update ?_ j').trans (hframe j')⟩
      rfl

variable {s : Contexts}

/-- A line of `handling_signals` that does not call `usersignal` leaves the backups. -/
theorem sameBackup_next {t : Threads} (h : (s.threads i).next i code j = some t)
    (hout : s.delivers i j = false) : SameBackup s.slots.kernel t.kernel := by
  have hpc : (s.threads i).pc j = s.pc i j := rfl
  unfold Contexts.delivers at hout
  unfold Threads.next at h
  rw [hpc] at h
  cases hline : s.pc i j with
  | user =>
    rw [hline] at h
    cases h
  | act sig =>
    rw [hline] at h hout
    dsimp only at h hout
    split_ifs at h with hdfl hign
    · cases h
      exact sameBackup_defaultAction sig
    · -- a handler of the user: `usersignal` would be called
      rw [decide_eq_false_iff_not] at hout
      exact absurd ⟨hdfl, hign⟩ hout
    · cases h
      exact .refl _
  | cont | contFlip =>
    rw [hline] at h
    cases h
    exact sameBackup_setProc rfl fun _ => rfl
  | flip =>
    rw [hline] at h
    dsimp only at h
    split_ifs at h
    all_goals
      cases h
      exact sameBackup_setProc rfl fun _ => rfl
  | enter | stopped | poll | test =>
    rw [hline] at h
    dsimp only at h
    split_ifs at h
    all_goals
      cases h
      exact .refl _

theorem next_usersignal {t : Threads} (h : (s.threads i).next i code j = some t)
    (hdel : s.delivers i j = true) : ∃ sig, t.kernel = usersignal code s.slots.kernel i j sig := by
  unfold Contexts.delivers at hdel
  split at hdel
  case h_1 sig hline =>
    have hpc : (s.threads i).pc j = .act sig := hline
    obtain ⟨hdfl, hign⟩ := of_decide_eq_true hdel
    unfold Threads.next at h
    rw [hpc] at h
    have hdfl' : ((s.threads i).kernel.proc i).signalHandlers sig ≠ sigDfl := hdfl
    have hign' : ((s.threads i).kernel.proc i).signalHandlers sig ≠ sigIgn := hign
    simp only [if_neg hdfl', if_pos hign'] at h
    cases h
    exact ⟨sig, rfl⟩
  case h_2 => cases hdel

/-! ### The invariant -/

/-- What is recorded of the backups is there, and a thread in a handler has its own. -/
structure BackupInv (s : Contexts) : Prop where
  frame : ∀ i j l tf, s.frame i j = some (l, tf) → ((s.proc i).threads j).userTrapFrameBackup = tf
  mask : ∀ i j l m, s.mask i = some (j, l, m) → (s.proc i).signalMaskBackup = m
  own : ∀ i j, s.handling i j = true →
    (∃ tf, s.frame i j = some (s.lifeOf i j, tf)) ∧ ∃ m, s.mask i = some (j, s.lifeOf i j, m)

theorem Fresh.inv (h : Fresh s) : BackupInv s := by
  constructor
  · intro i j l tf hf
    rw [h.frame] at hf
    cases hf
  · intro i j l m hm
    rw [h.mask] at hm
    cases hm
  · intro i j hj
    rw [h.handling] at hj
    cases hj

namespace BackupInv

variable {s s' : Contexts}

section

variable (h : BackupInv s)

include h

theorem alone {j' : Fin nthread} (hj : s.handling i j = true)
    (hj' : s.handling i j' = true) : j' = j := by
  obtain ⟨-, m, hm⟩ := h.own i j hj
  obtain ⟨-, m', hm'⟩ := h.own i j' hj'
  rw [hm] at hm'
  exact (Prod.mk.inj (Option.some.inj hm')).1.symm

theorem of_same (hback : SameBackup s.slots.kernel s'.slots.kernel)
    (hlife : s'.life = s.life) (hthread : s'.threadLife = s.threadLife) (hframe : s'.frame = s.frame)
    (hmask : s'.mask = s.mask) (hhandling : s'.handling = s.handling) : BackupInv s' := by
  have hof : ∀ i j, s'.lifeOf i j = s.lifeOf i j := by
    intro i j
    rw [Contexts.lifeOf, Contexts.lifeOf, hlife, hthread]
  constructor
  · intro i j l tf hf
    rw [hframe] at hf
    exact (hback.frame i j).trans (h.frame i j l tf hf)
  · intro i j l m hm
    rw [hmask] at hm
    exact (hback.mask i).trans (h.mask i j l m hm)
  · intro i j hj
    rw [hhandling] at hj
    rw [hof, hframe, hmask]
    exact h.own i j hj

theorem setThread {t : Thread}
    (ht : t.userTrapFrameBackup = ((s.proc i).threads j).userTrapFrameBackup) :
    BackupInv (s.setThread i j t) :=
  h.of_same (sameBackup_setProc rfl (frame_setThread ht)) rfl rfl rfl rfl rfl

theorem slot {op : SlotOp} (hstep : s.slot op = some s') : BackupInv s' := by
  simp only [Contexts.slot, Option.map_eq_some_iff] at hstep
  obtain ⟨slots, hslots, rfl⟩ := hstep
  cases op with
  | kill pid signum =>
    cases hslots
    exact h.of_same (sameBackup_kill pid signum) rfl rfl rfl rfl rfl
  | exit =>
    obtain ⟨-, rfl⟩ := by simpa [slotsMachine] using hslots
    exact h.of_same (sameBackup_setProc rfl fun _ => rfl) rfl rfl rfl rfl rfl
  | wait =>
    obtain ⟨-, i, -, rfl⟩ := by simpa [slotsMachine] using hslots
    exact h.of_same (sameBackup_reap _ _) rfl rfl rfl rfl rfl
  | fork p j pages =>
    obtain ⟨-, rfl⟩ := by simpa [slotsMachine] using hslots
    obtain ⟨hmask, hframe⟩ := fork_backup s.slots p j pages
    cases hfree : s.slots.freeSlot with
    | none =>
      refine h.of_same ⟨fun i => hmask i ?_, hframe⟩ rfl rfl rfl rfl rfl
      rw [hfree]
      simp
    | some x =>
      -- in the slot that is taken nothing is recorded of the mask, and no thread is in a handler
      constructor
      · intro i j l tf hf
        exact (hframe i j).trans (h.frame i j l tf hf)
      · intro i j l m hm
        by_cases hi : i = x
        · subst hi
          simp only [Contexts.newProc, update_self] at hm
          cases hm
        · simp only [Contexts.newProc, update_of_ne hi] at hm
          refine (hmask i ?_).trans (h.mask i j l m hm)
          rw [hfree]
          exact fun heq => hi (Option.some.inj heq).symm
      · intro i j hj
        by_cases hi : i = x
        · subst hi
          simp only [Contexts.newProc, update_self] at hj
          cases hj
        · simp only [Contexts.newProc, Contexts.lifeOf, update_of_ne hi] at hj ⊢
          exact h.own i j hj

theorem create {trapframe : Trapframe} {enough : Bool}
    (hstep : s.create i trapframe enough = some s') : BackupInv s' := by
  unfold Contexts.create at hstep
  cases hfree : s.freeThreadSlot i with rw [hfree] at hstep
  | none =>
    cases hstep
    exact h
  | some j =>
    dsimp only at hstep
    split_ifs at hstep <;> cases hstep
    · have hthread : BackupInv (s.setThread i j
          { (s.proc i).threads j with state := .runnable, trapframe }) := h.setThread rfl
      refine ⟨hthread.frame, hthread.mask, fun x y hy => ?_⟩
      -- the new thread is in no handler; the lifetimes of the others go on
      by_cases hx : x = i
      · subst hx
        by_cases hyj : y = j
        · subst hyj
          simp only [update_self] at hy
          cases hy
        · simp only [update_self, update_of_ne hyj] at hy
          simp only [Contexts.setThread, Contexts.setKernel, Contexts.lifeOf, update_self,
            update_of_ne hyj]
          exact h.own x y hy
      · simp only [update_of_ne hx] at hy
        simp only [Contexts.setThread, Contexts.setKernel, Contexts.lifeOf, update_of_ne hx]
        exact h.own x y hy
    · exact h

theorem deliver (hothers : ∀ j', j' ≠ j → s.handling i j' = false) {sig : Sig}
    {pc : Fin nproc → Fin nthread → Pc} :
    BackupInv { (s.save i j).setKernel (usersignal code s.slots.kernel i j sig) with pc } := by
  constructor
  · intro x y l tf hf
    simp only [Contexts.setKernel, Contexts.save, Contexts.proc] at hf ⊢
    by_cases hx : x = i
    · subst hx
      by_cases hy : y = j
      · subst hy
        simp only [update_self, Option.some.injEq, Prod.mk.injEq] at hf
        simp only [usersignal, Kernel.setProc, Proc.setThread, update_self]
        exact hf.2
      · simp only [update_self, update_of_ne hy] at hf
        simp only [usersignal, Kernel.setProc, Proc.setThread, update_self, update_of_ne hy]
        exact h.frame x y l tf hf
    · simp only [update_of_ne hx] at hf
      simp only [usersignal, Kernel.setProc, update_of_ne hx]
      exact h.frame x y l tf hf
  · intro x y l m hm
    simp only [Contexts.setKernel, Contexts.save, Contexts.proc] at hm ⊢
    by_cases hx : x = i
    · subst hx
      simp only [update_self, Option.some.injEq, Prod.mk.injEq] at hm
      simp only [usersignal, Kernel.setProc, Proc.setThread, update_self]
      exact hm.2.2
    · simp only [update_of_ne hx] at hm
      simp only [usersignal, Kernel.setProc, update_of_ne hx]
      exact h.mask x y l m hm
  · intro x y hy
    simp only [Contexts.setKernel, Contexts.save, Contexts.lifeOf] at hy ⊢
    by_cases hx : x = i
    · subst hx
      by_cases hyj : y = j
      · subst hyj
        simp only [update_self]
        exact ⟨⟨_, rfl⟩, _, rfl⟩
      · simp only [update_self, update_of_ne hyj, hothers y hyj] at hy
        cases hy
    · simp only [update_of_ne hx] at hy ⊢
      exact h.own x y hy

theorem next (hok : Returns s (.next i j)) (hstep : s.next code i j = some s') :
    BackupInv s' := by
  simp only [Contexts.next, Option.map_eq_some_iff] at hstep
  obtain ⟨t, ht, rfl⟩ := hstep
  by_cases hdel : s.delivers i j = true
  · rw [if_pos hdel]
    obtain ⟨sig, hk⟩ := next_usersignal ht hdel
    rw [hk]
    exact h.deliver (hok hdel)
  · rw [if_neg hdel]
    exact h.of_same (sameBackup_next ht (by simpa using hdel)) rfl rfl rfl rfl rfl

theorem sigret (hok : s.handling i j = true) : BackupInv (s.sigret i j) := by
  have hback : SameBackup s.slots.kernel (Signal.sigret s.slots.kernel i j) :=
    sameBackup_setProc rfl (frame_setThread rfl)
  constructor
  · intro x y l tf hf
    refine (hback.frame x y).trans (h.frame x y l tf ?_)
    simp only [Contexts.sigret] at hf
    by_cases hx : x = i
    · subst hx
      by_cases hy : y = j
      · subst hy
        simp only [update_self] at hf
        cases hf
      · simpa only [update_self, update_of_ne hy] using hf
    · simpa only [update_of_ne hx] using hf
  · intro x y l m hm
    refine (hback.mask x).trans (h.mask x y l m ?_)
    simp only [Contexts.sigret] at hm
    by_cases hx : x = i
    · subst hx
      simp only [update_self] at hm
      cases hm
    · simpa only [update_of_ne hx] using hm
  · intro x y hy
    simp only [Contexts.sigret] at hy
    by_cases hx : x = i
    · subst hx
      by_cases hyj : y = j
      · subst hyj
        simp only [update_self] at hy
        cases hy
      · simp only [update_self, update_of_ne hyj] at hy
        exact absurd (h.alone hok hy) hyj
    · simp only [update_of_ne hx] at hy
      have hown := h.own x y hy
      simpa only [Contexts.sigret, Contexts.setKernel, Contexts.lifeOf, update_of_ne hx]
        using hown

theorem step {a : ContextAct} (hok : Returns s a)
    (hstep : (contextsMachine code).step s a = some s') : BackupInv s' := by
  cases a with
  | slot => exact h.slot hstep
  | create =>
    obtain ⟨-, hs⟩ := by simpa [contextsMachine] using hstep
    exact h.create hs
  | exitThread | freeThread =>
    obtain ⟨-, rfl⟩ := by simpa [contextsMachine] using hstep
    exact h.setThread rfl
  | user =>
    obtain ⟨-, rfl⟩ := by simpa [contextsMachine] using hstep
    exact h.of_same (sameBackup_setProc rfl (frame_setThread rfl)) rfl rfl rfl rfl rfl
  | enter =>
    obtain ⟨-, rfl⟩ := by simpa [contextsMachine] using hstep
    exact h.of_same (.refl _) rfl rfl rfl rfl rfl
  | next =>
    obtain ⟨-, hs⟩ := by simpa [contextsMachine] using hstep
    exact h.next hok hs
  | sigret =>
    obtain ⟨-, rfl⟩ := by simpa [contextsMachine] using hstep
    exact h.sigret hok

theorem sigretOk (hok : s.handling i j = true) : SigretOk s (s.sigret i j) i j := by
  obtain ⟨⟨tf, hf⟩, m, hm⟩ := h.own i j hok
  constructor
  · rw [hf]
    simp only [Contexts.sigret, Contexts.setKernel, Contexts.proc, Signal.sigret, Kernel.setProc,
      Proc.setThread, update_self]
    rw [← h.frame i j _ tf hf]
    rfl
  · rw [hm]
    simp only [Contexts.sigret, Contexts.setKernel, Contexts.proc, Signal.sigret, Kernel.setProc,
      Proc.setThread, update_self]
    rw [← h.mask i j _ m hm]
    rfl

end

end BackupInv

/-- **`sigret` restores what was saved for the thread that calls it**, in every run in which it is
called only to return from a handler, and one thread of a process at a time is sent to one. -/
theorem sigret_restores (code : SigretCode) (s₀ s s' : Contexts) (as : List ContextAct)
    (i : Fin nproc) (j : Fin nthread) (h₀ : Fresh s₀)
    (hmeets : (contextsMachine code).Meets Returns s₀ as)
    (hrun : (contextsMachine code).run s₀ as = some s) (hok : Returns s (.sigret i j))
    (hstep : (contextsMachine code).step s (.sigret i j) = some s') : SigretOk s s' i j := by
  have h : BackupInv s :=
    Machine.invariant_of_meets _ (fun s a s' h hok hstep => h.step hok hstep) as s₀ s h₀.inv hmeets
      hrun
  obtain ⟨-, rfl⟩ := by simpa [contextsMachine] using hstep
  exact h.sigretOk hok

/-! ### Two owners of a slot -/

def oneByte : SigretCode := ⟨[0], by decide, by decide⟩

/-- The trapframe of a thread with a secret in `a1`. -/
def secret : Trapframe := { (default : Trapframe) with a1 := 42 }

def someProc (state : ProcState) (pid : Int) : Proc where
  state
  killed := false
  pid
  threads j :=
    { state := if j = 0 then state else .unused
      kstack := 0
      trapframe := default
      userTrapFrameBackup := default }
  walkaddr _ := 0
  pendingSignals := 0
  signalMask := 0
  signalHandlers _ := sigDfl
  stopped := false
  signalMaskBackup := 0
  ignoreSignals := false
  maskHandlers _ := 0

def userinitDone : Contexts where
  slots :=
    { kernel :=
        { proc := fun i => if i = 0 then someProc .runnable 1 else someProc .unused 0
          mem := fun _ => 0 }
      parent := fun _ => none
      nextpid := 2 }
  pc _ _ := .user
  life _ := 0
  threadLife _ _ := 0
  frame _ _ := none
  mask _ := none
  handling _ _ := false

theorem userinitDone_fresh : Fresh userinitDone := ⟨fun _ _ => rfl, fun _ => rfl, fun _ _ => rfl⟩

def forkOne : ContextAct := .slot (.fork 0 0 ⟨true, default, fun _ => 0⟩)

/-- A secret is in a register when process 1 is sent to its handler of signal 2. -/
def sentToHandler : List ContextAct :=
  [forkOne, .user 1 0 ⟨secret, 0, fun _ => 256, fun _ => 0⟩, .slot (.kill 2 2), .enter 1 0] ++
    List.replicate 36 (.next 1 0)

/-- The first thread of slot 1 is in user space, with a secret in the backup. -/
def HasSecret (handling : Bool) (s : Contexts) : Prop :=
  s.Alive 1 0 ∧ s.pc 1 0 = .user ∧ s.handling 1 0 = handling ∧
    ((s.proc 1).threads 0).userTrapFrameBackup.a1 = 42

instance (handling : Bool) : DecidablePred (HasSecret handling) :=
  fun _ => inferInstanceAs (Decidable (_ ∧ _))

theorem sentToHandler_restores :
    Fresh userinitDone ∧ (contextsMachine oneByte).Meets Returns userinitDone sentToHandler ∧
      ∃ s s', (contextsMachine oneByte).run userinitDone sentToHandler = some s ∧
        Returns s (.sigret 1 0) ∧ (contextsMachine oneByte).step s (.sigret 1 0) = some s' ∧
        SigretOk s s' 1 0 := by
  have hmeets : (contextsMachine oneByte).Meets Returns userinitDone sentToHandler := by
    decide +kernel
  obtain ⟨s, hrun, hs⟩ : ∃ s, (contextsMachine oneByte).run userinitDone sentToHandler = some s ∧
      HasSecret true s := Machine.exists_run _ (by decide +kernel)
  have hstep : (contextsMachine oneByte).step s (.sigret 1 0) = some (s.sigret 1 0) :=
    if_pos ⟨hs.1, hs.2.1⟩
  exact ⟨userinitDone_fresh, hmeets, s, _, hrun, hs.2.2.1, hstep,
    sigret_restores oneByte userinitDone s _ sentToHandler 1 0 userinitDone_fresh hmeets hrun
      hs.2.2.1 hstep⟩

def secondOwner : List ContextAct :=
  sentToHandler ++ [.sigret 1 0, .slot (.exit 1), .slot (.wait 0), forkOne]

/-- That process calls `sigret`, in no handler, and has the secret in its registers. -/
theorem secondOwner_leaks :
    Fresh userinitDone ∧
      ∃ s s', (contextsMachine oneByte).run userinitDone secondOwner = some s ∧
        (contextsMachine oneByte).step s (.sigret 1 0) = some s' ∧ s.life 1 = 2 ∧
        ((s'.proc 1).threads 0).trapframe.a1 = 42 ∧ ¬ SigretOk s s' 1 0 := by
  obtain ⟨s, hrun, ⟨halive, hpc, -, ha1⟩, hlife, hframe⟩ :
      ∃ s, (contextsMachine oneByte).run userinitDone secondOwner = some s ∧
        HasSecret false s ∧ s.life 1 = 2 ∧ (s.frame 1 0).isNone = true :=
    Machine.exists_run _ (by decide +kernel)
  have hstep : (contextsMachine oneByte).step s (.sigret 1 0) = some (s.sigret 1 0) :=
    if_pos ⟨halive, hpc⟩
  refine ⟨userinitDone_fresh, s, _, hrun, hstep, hlife, ?_, fun h => ?_⟩
  · simp only [Contexts.sigret, Contexts.setKernel, Contexts.proc, Signal.sigret, Kernel.setProc,
      Proc.setThread, update_self]
    exact ha1
  · rw [h.frame] at hframe
    cases hframe

end Xv6.Signal
