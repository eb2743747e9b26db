import Xv6.Signal.Action
import Xv6.Signal.Equiv.Handling

/-!
# `sigaction`

A copy that fails returns with the lock held (`unmapped_keeps_lock`). `sizeof(8)` is 4, so the upper
half of the old handler is not written (`sigaction_halves`).
-/

namespace Xv6.Signal

open Lib Function List

variable {w w' w₁ : Call} {i : Fin nproc} {sig : Sig} {act oldact : Addr}

/-! ### Locks -/

theorem Cpu.popOff_pushOff {c : Cpu} (h : c.Ok) :
    ∃ c', c.pushOff.popOff = some c' ∧ c'.noff = c.noff ∧ c'.intr = c.intr := by
  have hnonneg := h.nonneg
  have hpanic : ¬ (c.pushOff.intr = true ∨ c.pushOff.noff < 1) := by
    rintro (hintr | hlt)
    · exact absurd hintr (by simp [Cpu.pushOff])
    · rw [Cpu.pushOff] at hlt
      dsimp only at hlt
      omega
  have hnoff : c.pushOff.noff - 1 = c.noff := by simp [Cpu.pushOff]
  refine ⟨_, if_neg hpanic, hnoff, ?_⟩
  dsimp only
  rw [hnoff]
  by_cases hz : c.noff = 0
  · simp [Cpu.pushOff, hz]
  · rw [h.off (by omega), decide_eq_false hz, Bool.false_and]

/-- The calls differ in the memory only. -/
structure SameButMem (w w' : Call) : Prop where
  proc : w'.kernel.proc = w.kernel.proc
  holding : w'.holding = w.holding
  cpu : w'.cpu = w.cpu

theorem copyout_same (w : Call) (i : Fin nproc) (dstva : Addr) (src : List UInt8) :
    SameButMem w (w.copyout i dstva src).2 := ⟨rfl, rfl, rfl⟩

theorem SameButMem.trans {w₂ : Call} (h : SameButMem w w₁) (h' : SameButMem w₁ w₂) :
    SameButMem w w₂ :=
  ⟨h'.proc.trans h.proc, h'.holding.trans h.holding, h'.cpu.trans h.cpu⟩

theorem SameButMem.proc_eq (h : SameButMem w w') (l : Fin nproc) : w'.proc l = w.proc l :=
  congrFun h.proc l

theorem saveAction_same (w : Call) (i : Fin nproc) (sig : Sig) (oldact : Addr) :
    SameButMem w (saveAction w i sig oldact).2 := by
  unfold saveAction
  dsimp only
  split_ifs
  · exact (copyout_same ..).trans (copyout_same ..)
  · exact ⟨rfl, rfl, rfl⟩

def Call.locked (w : Call) (i : Fin nproc) : Call :=
  { w with holding := update w.holding i true, cpu := w.cpu.pushOff }

theorem acquire_eq (h : w.holding i = false) : w.acquire i = some (w.locked i) := by
  rw [Call.acquire, h]
  rfl

theorem release_eq (hfree : w.holding i = false) (hcpu : w.cpu.Ok)
    (hholding : w'.holding = update w.holding i true) (hcpu' : w'.cpu = w.cpu.pushOff) :
    ∃ c', w'.release i = some { w' with holding := w.holding, cpu := c' } ∧
      c'.noff = w.cpu.noff ∧ c'.intr = w.cpu.intr := by
  obtain ⟨c', hpop, hnoff, hintr⟩ := Cpu.popOff_pushOff hcpu
  refine ⟨c', ?_, hnoff, hintr⟩
  have hback : update w'.holding i false = w.holding := by
    rw [hholding, update_idem, ← hfree, update_eq_self]
  rw [Call.release, hback, hcpu', hpop, hholding, update_self]
  rfl

/-! ### The copies succeed -/

/-- The part of `sigaction` that copies the old action to the user. -/
def Call.saved (w : Call) (i : Fin nproc) (sig : Sig) (oldact : Addr) : Bool × Call :=
  if oldact = 0 then (true, w) else saveAction w i sig oldact

/-- The part of `sigaction` that copies the new action from the user. -/
def Call.loaded (w : Call) (i : Fin nproc) (sig : Sig) (act : Addr) : Bool × Call :=
  if act = 0 then (true, w) else loadAction w i sig act

theorem saved_same (w : Call) (i : Fin nproc) (sig : Sig) (oldact : Addr) :
    SameButMem w (w.saved i sig oldact).2 := by
  unfold Call.saved
  split_ifs
  · exact ⟨rfl, rfl, rfl⟩
  · exact saveAction_same ..

theorem loaded_holding (w : Call) (i : Fin nproc) (sig : Sig) (act : Addr) :
    (w.loaded i sig act).2.holding = w.holding ∧ (w.loaded i sig act).2.cpu = w.cpu := by
  unfold Call.loaded loadAction
  dsimp only
  split_ifs <;> exact ⟨rfl, rfl⟩

theorem length_low (x : Nat) : ((toBytes 8 x).take sizeofInt).length = sizeofInt := by
  rw [length_take, length_toBytes]
  rfl

theorem copyout_true {a : Addr} {src : List UInt8} {n : Nat} (hlen : src.length = n) :
    (w.copyout i a src).1 = true ↔ MappedFor (w.proc i).walkaddr a n :=
  hlen ▸ copyout_ok_iff

/-- It succeeds exactly if the pages are mapped. -/
theorem saved_iff : (w.saved i sig oldact).1 = true ↔ (oldact ≠ 0 →
    MappedFor (w.proc i).walkaddr oldact sizeofInt ∧
      MappedFor (w.proc i).walkaddr (oldact + 8) 4) := by
  unfold Call.saved
  split_ifs with hz
  · exact iff_of_true rfl (absurd hz)
  rw [saveAction, ← copyout_true (i := i) (length_low ((w.proc i).signalHandlers sig).toNat)]
  dsimp only
  split_ifs with hfirst
  · have hmask := copyout_true (w := (w.copyout i oldact
      ((toBytes 8 ((w.proc i).signalHandlers sig).toNat).take sizeofInt)).2) (i := i)
      (a := oldact + 8) (length_toBytes 4 ((w.proc i).maskHandlers sig).toNat)
    exact hmask.trans ⟨fun h _ => ⟨hfirst, h⟩, fun h => (h hz).2⟩
  · exact iff_of_false id fun h => hfirst (h hz).1

theorem loaded_ok (h : act ≠ 0 → MappedFor (w.proc i).walkaddr act sizeofAction) :
    w.loaded i sig act = (true, if act = 0 then w else
      w.register i sig (w.userAction i act).1 (w.userAction i act).2) := by
  unfold Call.loaded
  split_ifs with hz
  · rfl
  · rw [loadAction, copyin_mapped (h hz)]
    rfl

theorem loaded_iff : (w.loaded i sig act).1 = true ↔
    (act ≠ 0 → MappedFor (w.proc i).walkaddr act sizeofAction) := by
  refine ⟨fun h hz => ?_, fun h => by rw [loaded_ok h]⟩
  rw [Call.loaded, if_neg hz, loadAction] at h
  by_contra hmap
  dsimp only at h
  rw [if_neg (mt copyin_ok_iff.mp hmap)] at h
  cases h

/-! ### The whole call -/

/-- A signal whose action users may change. -/
structure Sig.Settable (sig : Sig) : Prop where
  stop : sig ≠ sigstop
  kill : sig ≠ sigkill

theorem sigaction_eq (hsig : sig.Settable) (hfree : w.holding i = false) :
    sigaction w i sig act oldact =
      let w₁ := (w.locked i).saved i sig oldact
      let w₂ := w₁.2.loaded i sig act
      if w₁.1 then if w₂.1 then (w₂.2.release i).map fun w' => (0, w') else some (-1, w₂.2)
      else some (-1, w₁.2) := by
  have hrange : (0 : Int) ≤ (sig : Nat) ∧ ((sig : Nat) : Int) < signalsSize :=
    ⟨Int.natCast_nonneg _, Int.ofNat_lt.mpr sig.isLt⟩
  have hnot : ¬ (sig = sigstop ∨ sig = sigkill) := fun h => h.elim hsig.stop hsig.kill
  rw [sigaction, dif_pos hrange]
  dsimp only [Int.toNat_natCast]
  rw [if_neg hnot, acquire_eq hfree]
  dsimp only [bind, Option.bind, Call.saved, Call.loaded]
  split_ifs <;> first | rfl | (cases Call.release _ i <;> rfl)

/-- The lock is still held at the end, and `release` lets it go. -/
theorem release_locked (hfree : w.holding i = false) (hcpu : w.cpu.Ok) :
    ∃ c', (((w.locked i).saved i sig oldact).2.loaded i sig act).2.release i =
        some { (((w.locked i).saved i sig oldact).2.loaded i sig act).2 with
          holding := w.holding, cpu := c' } ∧
      c'.noff = w.cpu.noff ∧ c'.intr = w.cpu.intr := by
  have hsame := saved_same (w.locked i) i sig oldact
  obtain ⟨hholding, hcpu'⟩ := loaded_holding ((w.locked i).saved i sig oldact).2 i sig act
  exact release_eq hfree hcpu (hholding.trans hsame.holding) (hcpu'.trans hsame.cpu)

theorem sigaction_ok (hsig : sig.Settable) (hfree : w.holding i = false) (hcpu : w.cpu.Ok)
    (hcopy : Copyable w i act oldact) :
    ∃ w', sigaction w i sig act oldact = some (0, w') ∧ w'.holding = w.holding ∧
      w'.cpu.noff = w.cpu.noff ∧ w'.cpu.intr = w.cpu.intr := by
  have hsaved : ((w.locked i).saved i sig oldact).1 = true := saved_iff.mpr hcopy.oldact
  have hproc : ((w.locked i).saved i sig oldact).2.proc i = w.proc i :=
    (saved_same (w.locked i) i sig oldact).proc_eq i
  have hloaded : (((w.locked i).saved i sig oldact).2.loaded i sig act).1 = true := by
    rw [loaded_ok (hproc ▸ hcopy.act)]
  rw [sigaction_eq hsig hfree]
  dsimp only
  rw [if_pos hsaved, if_pos hloaded]
  obtain ⟨c', hrel, hnoff, hintr⟩ := release_locked hfree hcpu
  rw [hrel]
  exact ⟨_, rfl, rfl, hnoff, hintr⟩

theorem sigaction_refuses (w : Call) (i : Fin nproc) (signum : Int) (act oldact : Addr) :
    sigaction w i signum act oldact = some (-1, w) ∨ ∃ sig : Sig, sig.Settable ∧ signum = (sig : Nat) := by
  by_cases h : 0 ≤ signum ∧ signum < signalsSize
  · by_cases hno : (⟨signum.toNat, by omega⟩ : Sig) = sigstop ∨ (⟨signum.toNat, by omega⟩ : Sig) = sigkill
    · left
      rw [sigaction, dif_pos h]
      dsimp only
      rw [if_pos hno]
    · exact .inr ⟨⟨signum.toNat, by omega⟩, ⟨fun hs => hno (.inl hs), fun hs => hno (.inr hs)⟩,
        (Int.toNat_of_nonneg h.1).symm⟩
  · left
    rw [sigaction, dif_neg h]

/-- A call for such a signal that does not get through its copies keeps the lock. -/
theorem sigaction_keeps_lock (hsig : sig.Settable) (hfree : w.holding i = false)
    (hcopy : ¬Copyable w i act oldact) {r : Int}
    (h : sigaction w i sig act oldact = some (r, w')) : w'.holding i = true := by
  have hsame := saved_same (w.locked i) i sig oldact
  have hlocked : ((w.locked i).saved i sig oldact).2.holding i = true := by
    rw [hsame.holding]
    exact update_self ..
  rw [sigaction_eq hsig hfree] at h
  dsimp only at h
  split_ifs at h with hsaved hloaded
  · have hold := saved_iff.mp hsaved
    have hact := loaded_iff.mp hloaded
    rw [hsame.proc_eq i] at hact
    exact absurd ⟨hold, hact⟩ hcopy
  · obtain rfl := (Prod.mk.inj (Option.some.inj h)).2
    rw [(loaded_holding _ i sig act).1, hlocked]
  · obtain rfl := (Prod.mk.inj (Option.some.inj h)).2
    exact hlocked

/-- **`sigaction` returns cleanly** exactly if the signal is one that it refuses, or its pointers
are null or mapped. -/
theorem sigaction_clean (w : Call) (i : Fin nproc) (signum : Int) (act oldact : Addr)
    (hfree : w.holding i = false) (hcpu : w.cpu.Ok) :
    (∃ r w', sigaction w i signum act oldact = some (r, w') ∧ ActionOk w w' i r) ↔
      ∀ sig : Sig, sig.Settable → signum = (sig : Nat) → Copyable w i act oldact := by
  constructor
  · rintro ⟨r, w', h, hok⟩ sig hsig rfl
    by_contra hcopy
    have hlock := sigaction_keeps_lock hsig hfree hcopy h
    rw [hok.holding, hfree] at hlock
    cases hlock
  · intro hcopy
    rcases sigaction_refuses w i signum act oldact with h | ⟨sig, hsig, rfl⟩
    · exact ⟨-1, w, h, rfl, rfl, rfl, fun _ _ => rfl, fun _ _ => rfl⟩
    · obtain ⟨w', h, hholding, hnoff, hintr⟩ := sigaction_ok hsig hfree hcpu (hcopy sig hsig rfl)
      exact ⟨0, w', h, hholding, hnoff, hintr, fun hr => absurd hr (by decide),
        fun hr => absurd hr (by decide)⟩

/-! ### Reading back -/

theorem actionOf_append {a b c d : List UInt8} (ha : a.length = 4) (hb : b.length = 4)
    (hc : c.length = 4) : actionOf (a ++ (b ++ (c ++ d))) =
      (BitVec.ofNat 64 (ofBytes (a ++ b)), BitVec.ofNat 32 (ofBytes c)) := by
  have hab : (a ++ b).length = 8 := by rw [length_append, ha, hb]
  rw [actionOf, ← append_assoc, take_left' hab, drop_left' hab, take_left' hc]

theorem ofBytes_handler (h : BitVec 64) : BitVec.ofNat 64 (ofBytes (toBytes 8 h.toNat)) = h := by
  have hlt : h.toNat < 256 ^ 8 := h.isLt
  rw [ofBytes_toBytes, Nat.mod_eq_of_lt hlt, BitVec.ofNat_toNat, BitVec.setWidth_eq]

theorem ofBytes_mask (m : BitVec 32) : BitVec.ofNat 32 (ofBytes (toBytes 4 m.toNat)) = m := by
  have hlt : m.toNat < 256 ^ 4 := m.isLt
  rw [ofBytes_toBytes, Nat.mod_eq_of_lt hlt, BitVec.ofNat_toNat, BitVec.setWidth_eq]

theorem userBytes_frame {walkaddr : Addr → Addr} (hal : PageAligned walkaddr) (mem : Mem)
    (va : Addr)
    (src : List UInt8) (m l n : Nat) (hm : m + src.length ≤ pgsize) (hl : l + n ≤ pgsize)
    (h : l + n ≤ m ∨ m + src.length ≤ l) :
    userBytes walkaddr (copyout walkaddr mem (va + BitVec.ofNat 64 m) src).2
      (va + BitVec.ofNat 64 l) n = userBytes walkaddr mem (va + BitVec.ofNat 64 l) n := by
  refine map_congr_left fun k hk => ?_
  have hk := mem_range.mp hk
  rw [add_ofNat_add, copyout_frame hal hm (by omega) (by omega)]

/-- The user reads the lower half of the handler before four bytes that are as they were. -/
theorem userAction_copied {walkaddr : Addr → Addr} {mem : Mem} {handler : BitVec 64}
    {mask : BitVec 32} (hal : PageAligned walkaddr)
    (hmap : MappedFor walkaddr oldact sizeofAction) :
    actionOf (userBytes walkaddr
      (copyout walkaddr (copyout walkaddr mem oldact ((toBytes 8 handler.toNat).take sizeofInt)).2
        (oldact + 8) (toBytes 4 mask.toNat)).2 oldact sizeofAction) =
      (BitVec.ofNat 64 (ofBytes ((toBytes 8 handler.toNat).take sizeofInt ++
        userBytes walkaddr mem (oldact + 4) 4)), mask) := by
  set low := (toBytes 8 handler.toNat).take sizeofInt with hlow
  have hlowlen : low.length = 4 := length_low _
  have hmasklen : (toBytes 4 mask.toNat).length = 4 := length_toBytes 4 _
  set mem₁ := (copyout walkaddr mem oldact low).2 with hmem₁
  set mem₂ := (copyout walkaddr mem₁ (oldact + 8) (toBytes 4 mask.toNat)).2 with hmem₂
  have hzero : oldact + BitVec.ofNat 64 0 = oldact := BitVec.add_zero oldact
  -- the lower half of the handler, and its upper half, which no copy writes
  have hfirst : userBytes walkaddr mem₂ oldact 4 = low := by
    have hkeep := userBytes_frame hal mem₁ oldact (toBytes 4 mask.toNat) 8 0 4
      (by rw [hmasklen]; decide) (by decide) (.inl (by decide))
    rw [hzero] at hkeep
    have hcopied : userBytes walkaddr mem₁ oldact low.length = low :=
      copyout_mapped hal (by rw [hlowlen]; decide) (by rw [hlowlen]; exact hmap.le (by decide))
    rw [hlowlen] at hcopied
    exact hkeep.trans hcopied
  have hsecond : userBytes walkaddr mem₂ (oldact + BitVec.ofNat 64 4) 4 =
      userBytes walkaddr mem (oldact + 4) 4 := by
    have hkeep₂ := userBytes_frame hal mem₁ oldact (toBytes 4 mask.toNat) 8 4 4
      (by rw [hmasklen]; decide) (by decide) (.inl (by decide))
    have hkeep₁ := userBytes_frame hal mem oldact low 0 4 4 (by rw [hlowlen]; decide) (by decide)
      (.inr (by rw [hlowlen]))
    rw [hzero] at hkeep₁
    exact hkeep₂.trans hkeep₁
  have hthird : userBytes walkaddr mem₂ (oldact + BitVec.ofNat 64 8) 4 = toBytes 4 mask.toNat := by
    have hcopied : userBytes walkaddr mem₂ (oldact + 8) (toBytes 4 mask.toNat).length =
        toBytes 4 mask.toNat :=
      copyout_mapped hal (by rw [hmasklen]; decide) (by rw [hmasklen]; exact hmap.drop (by decide))
    rwa [hmasklen] at hcopied
  have hsplit : userBytes walkaddr mem₂ oldact sizeofAction =
      low ++ (userBytes walkaddr mem (oldact + 4) 4 ++ (toBytes 4 mask.toNat ++
        userBytes walkaddr mem₂ (oldact + BitVec.ofNat 64 12) 4)) := by
    rw [show sizeofAction = 4 + (4 + (4 + 4)) from rfl, userBytes_add, userBytes_add, userBytes_add,
      add_ofNat_add, add_ofNat_add, hfirst, hsecond, hthird]
  rw [hsplit, actionOf_append hlowlen (length_userBytes 4) hmasklen, ofBytes_mask]

/-- A handler whose lower half is there already is whole exactly if its upper half is. -/
theorem ofBytes_upper_iff {handler : BitVec 64} {up : List UInt8} (hlen : up.length = 4) :
    BitVec.ofNat 64 (ofBytes ((toBytes 8 handler.toNat).take sizeofInt ++ up)) = handler ↔
      up = (toBytes 8 handler.toNat).drop sizeofInt := by
  set low := (toBytes 8 handler.toNat).take sizeofInt with hlow
  have hlowlen : low.length = sizeofInt := length_low _
  have hlen' : (low ++ up).length = 8 := by rw [length_append, hlowlen, hlen]; rfl
  constructor
  · intro h
    have hlt : ofBytes (low ++ up) < 2 ^ 64 := by
      have := ofBytes_lt (low ++ up)
      rwa [hlen'] at this
    have hnat := congrArg BitVec.toNat h
    rw [BitVec.toNat_ofNat, Nat.mod_eq_of_lt hlt] at hnat
    have hbytes := toBytes_ofBytes (low ++ up)
    rw [hlen', hnat] at hbytes
    rw [hbytes, drop_left' hlowlen]
  · rintro rfl
    rw [hlow, take_append_drop, ofBytes_handler]

theorem saved_mem (hold : oldact ≠ 0) (hmap : MappedFor (w.proc i).walkaddr oldact sizeofAction) :
    (w.saved i sig oldact).2.kernel.mem =
      (copyout (w.proc i).walkaddr (copyout (w.proc i).walkaddr w.kernel.mem oldact
        ((toBytes 8 ((w.proc i).signalHandlers sig).toNat).take sizeofInt)).2 (oldact + 8)
          (toBytes 4 ((w.proc i).maskHandlers sig).toNat)).2 := by
  have hfirst : (w.copyout i oldact
      ((toBytes 8 ((w.proc i).signalHandlers sig).toNat).take sizeofInt)).1 = true :=
    (copyout_true (length_low _)).mpr (hmap.le (by decide))
  rw [Call.saved, if_neg hold, saveAction]
  dsimp only
  rw [if_pos hfirst]
  rfl

theorem loaded_mem (w : Call) (i : Fin nproc) (sig : Sig) (act : Addr) :
    (w.loaded i sig act).2.kernel.mem = w.kernel.mem := by
  unfold Call.loaded loadAction
  dsimp only
  split_ifs <;> rfl

theorem loaded_walkaddr (w : Call) (i : Fin nproc) (sig : Sig) (act : Addr) :
    ((w.loaded i sig act).2.proc i).walkaddr = (w.proc i).walkaddr := by
  unfold Call.loaded loadAction Call.register Call.proc
  dsimp only
  split_ifs
  · rfl
  · rw [setProc_proc_self]
  · rfl

theorem sigaction_result (hsig : sig.Settable) (hfree : w.holding i = false) (hcpu : w.cpu.Ok)
    (h : sigaction w i sig act oldact = some (0, w')) :
    w'.kernel = (((w.locked i).saved i sig oldact).2.loaded i sig act).2.kernel ∧
      w'.holding = w.holding ∧ w'.cpu.Ok := by
  rw [sigaction_eq hsig hfree] at h
  dsimp only at h
  split_ifs at h
  · obtain ⟨w₂, hrel, heq⟩ := Option.map_eq_some_iff.mp h
    obtain rfl := (Prod.mk.inj heq).2
    obtain ⟨c', hrel', hnoff, hintr⟩ := release_locked hfree hcpu
    obtain rfl := Option.some.inj (hrel.symm.trans hrel')
    exact ⟨rfl, rfl, hnoff ▸ hcpu.nonneg, fun hlt => hintr.trans (hcpu.off (hnoff ▸ hlt))⟩
  · exact absurd (Prod.mk.inj (Option.some.inj h)).1 (by decide)
  · exact absurd (Prod.mk.inj (Option.some.inj h)).1 (by decide)

/-- After a call that saves and succeeds, the structure has what was registered exactly if the upper
half was there before. -/
theorem sigaction_userAction (hsig : sig.Settable) (hfree : w.holding i = false) (hcpu : w.cpu.Ok)
    (hal : PageAligned (w.proc i).walkaddr) (hold : oldact ≠ 0)
    (hmap : MappedFor (w.proc i).walkaddr oldact sizeofAction)
    (h : sigaction w i sig act oldact = some (0, w')) :
    (w'.userAction i oldact = w.action i sig ↔ UpperHalf w i sig oldact) ∧
      (w'.proc i).walkaddr = (w.proc i).walkaddr := by
  obtain ⟨hkernel, -⟩ := sigaction_result hsig hfree hcpu h
  have hwalk : (w'.proc i).walkaddr = (w.proc i).walkaddr := by
    calc (w'.proc i).walkaddr
        = ((((w.locked i).saved i sig oldact).2.loaded i sig act).2.proc i).walkaddr := by
          rw [Call.proc, hkernel, Call.proc]
      _ = (((w.locked i).saved i sig oldact).2.proc i).walkaddr := loaded_walkaddr ..
      _ = (w.proc i).walkaddr :=
          congrArg Proc.walkaddr ((saved_same (w.locked i) i sig oldact).proc_eq i)
  refine ⟨?_, hwalk⟩
  have hmap' : MappedFor ((w.locked i).proc i).walkaddr oldact sizeofAction := hmap
  rw [Call.userAction, hwalk, hkernel, loaded_mem, saved_mem hold hmap']
  refine (Eq.congr_left (userAction_copied hal hmap)).trans ?_
  rw [Call.action, Prod.mk.injEq]
  exact (and_iff_left rfl).trans (ofBytes_upper_iff (length_userBytes 4))

theorem register_action (w : Call) (i : Fin nproc) (sig : Sig) (handler : BitVec 64)
    (mask : BitVec 32) : (w.register i sig handler mask).action i sig = (handler, mask) := by
  rw [Call.action, Call.register, Call.proc]
  dsimp only
  rw [setProc_proc_self]
  dsimp only
  rw [update_self, update_self]

theorem sigaction_registers (hsig : sig.Settable) (hfree : w.holding i = false) (hcpu : w.cpu.Ok)
    (hact : act ≠ 0) (hmap : MappedFor (w.proc i).walkaddr act sizeofAction) :
    ∃ w', sigaction w i sig act 0 = some (0, w') ∧ w'.action i sig = w.userAction i act := by
  obtain ⟨w', h, -⟩ := sigaction_ok hsig hfree hcpu ⟨fun hz => absurd rfl hz, fun _ => hmap⟩
  obtain ⟨hkernel, -⟩ := sigaction_result hsig hfree hcpu h
  refine ⟨w', h, ?_⟩
  have hloaded : ((w.locked i).loaded i sig act).2 =
      (w.locked i).register i sig (w.userAction i act).1 (w.userAction i act).2 := by
    have hmap' : MappedFor ((w.locked i).proc i).walkaddr act sizeofAction := hmap
    rw [loaded_ok fun _ => hmap', if_neg hact]
    rfl
  calc w'.action i sig
      = (((w.locked i).loaded i sig act).2).action i sig := by
        rw [Call.action, Call.proc, hkernel]
        rfl
    _ = w.userAction i act := by rw [hloaded, register_action]

/-- **Saving and restoring an action**: what a successful call has saved is read back, and a call
that registers it again restores it, exactly if the upper half of the handler was there before. -/
theorem sigaction_restores (hsig : sig.Settable) (hfree : w.holding i = false) (hcpu : w.cpu.Ok)
    (hal : PageAligned (w.proc i).walkaddr) (hold : oldact ≠ 0)
    (hmap : MappedFor (w.proc i).walkaddr oldact sizeofAction)
    (h : sigaction w i sig act oldact = some (0, w')) :
    (w'.userAction i oldact = w.action i sig ∧
      ∃ w'', sigaction w' i sig oldact 0 = some (0, w'') ∧ w''.action i sig = w.action i sig) ↔
      UpperHalf w i sig oldact := by
  obtain ⟨hread, hwalk⟩ := sigaction_userAction hsig hfree hcpu hal hold hmap h
  obtain ⟨-, hholding, hcpu'⟩ := sigaction_result hsig hfree hcpu h
  obtain ⟨w'', h', haction⟩ := sigaction_registers hsig (by rw [hholding, hfree]) hcpu' hold
    (by rw [hwalk]; exact hmap)
  refine ⟨fun hback => hread.mp hback.1, fun hup => ?_⟩
  have hback := hread.mpr hup
  exact ⟨hback, w'', h', haction.trans hback⟩

/-- A call changes no pending signals, and at most the handler of its own signal and process. -/
theorem sigaction_keeps {signum r : Int} {l : Fin nproc} (hfree : w.holding i = false)
    (h : sigaction w i signum act oldact = some (r, w')) :
    (w'.proc l).pendingSignals = (w.proc l).pendingSignals ∧
      ∀ d : Sig, l ≠ i ∨ signum ≠ d.val ∨ ¬d.Settable →
        (w'.proc l).signalHandlers d = (w.proc l).signalHandlers d := by
  rcases sigaction_refuses w i signum act oldact with hno | ⟨sig, hsig, rfl⟩
  · obtain rfl := (Prod.mk.inj (Option.some.inj (h.symm.trans hno))).2
    exact ⟨rfl, fun _ _ => rfl⟩
  have hsaved := (saved_same (w.locked i) i sig oldact).proc_eq l
  have hloaded : ∀ w₁ : Call, ((w₁.loaded i sig act).2.proc l).pendingSignals =
      (w₁.proc l).pendingSignals ∧
        ∀ d : Sig, l ≠ i ∨ ((sig : Nat) : Int) ≠ d.val ∨ ¬d.Settable →
          ((w₁.loaded i sig act).2.proc l).signalHandlers d = (w₁.proc l).signalHandlers d := by
    intro w₁
    unfold Call.loaded loadAction Call.register Call.proc
    dsimp only
    split_ifs
    · exact ⟨rfl, fun _ _ => rfl⟩
    · by_cases hl : l = i
      · subst hl
        rw [setProc_proc_self]
        refine ⟨rfl, fun d hd => update_of_ne ?_ _ _⟩
        rintro rfl
        exact hd.elim (absurd rfl) fun hd => hd.elim (absurd rfl) (absurd hsig)
      · rw [setProc_proc_of_ne hl]
        exact ⟨rfl, fun _ _ => rfl⟩
    · exact ⟨rfl, fun _ _ => rfl⟩
  have hboth := hloaded ((w.locked i).saved i sig oldact).2
  rw [hsaved] at hboth
  rw [sigaction_eq hsig hfree] at h
  dsimp only at h
  split_ifs at h
  · obtain ⟨w₂, hrel, heq⟩ := Option.map_eq_some_iff.mp h
    obtain rfl := (Prod.mk.inj heq).2
    rw [Call.release] at hrel
    split_ifs at hrel
    obtain ⟨c, -, rfl⟩ := Option.map_eq_some_iff.mp hrel
    exact hboth
  · obtain rfl := (Prod.mk.inj (Option.some.inj h)).2
    exact hboth
  · obtain rfl := (Prod.mk.inj (Option.some.inj h)).2
    rw [hsaved]
    exact ⟨rfl, fun _ _ => rfl⟩

/-! ### Samples -/

def withHandler (h : BitVec 64) : Call where
  kernel :=
    { proc := fun l =>
        { (interrupted 0 0).proc l with
          signalHandlers := fun s => if s = 2 then h else sigDfl
          maskHandlers := fun s => if s = 2 then 5 else 0 }
      mem := fun _ => 7 }
  holding _ := false
  cpu := ⟨0, true, true⟩

/-- The structure for the old action is on a page that is not mapped: the call fails with the lock
held. -/
theorem unmapped_keeps_lock :
    (withHandler 0x100).holding 0 = false ∧ (withHandler 0x100).cpu.Ok ∧
      ∃ w', sigaction (withHandler 0x100) 0 2 0 0x8000 = some (-1, w') ∧
        ¬ ActionOk (withHandler 0x100) w' 0 (-1) := by
  refine ⟨rfl, ⟨by decide, by decide⟩, _, rfl, fun hok => ?_⟩
  have hnoff := hok.noff
  revert hnoff
  decide

theorem mapped_clean :
    ∃ r w', sigaction (withHandler 0x100) 0 2 0x3000 0x3100 = some (r, w') ∧
      ActionOk (withHandler 0x100) w' 0 r :=
  (sigaction_clean _ 0 2 0x3000 0x3100 rfl ⟨by decide, by decide⟩).mpr
    fun _ _ _ => ⟨fun _ => by decide, fun _ => by decide⟩

/-- The bytes at `oldact + 4` stay what they were: 7 each. -/
theorem sigaction_halves :
    ∃ w', sigaction (withHandler 0x100) 0 2 0 0x3000 = some (0, w') ∧
      w'.userAction 0 0x3000 ≠ (withHandler 0x100).action 0 2 := by
  refine ⟨_, rfl, ?_⟩
  decide

theorem sevens_restores :
    ∃ w', sigaction (withHandler 0x0707070700000100) 0 2 0 0x3000 = some (0, w') ∧
      w'.userAction 0 0x3000 = (withHandler 0x0707070700000100).action 0 2 ∧
      ∃ w'', sigaction w' 0 2 0x3000 0 = some (0, w'') ∧
        w''.action 0 2 = (withHandler 0x0707070700000100).action 0 2 := by
  obtain ⟨w', h⟩ : ∃ w', sigaction (withHandler 0x0707070700000100) 0 ((2 : Sig) : Nat) 0 0x3000 =
      some (0, w') := ⟨_, rfl⟩
  have hal : PageAligned ((withHandler 0x0707070700000100).proc 0).walkaddr := by
    intro va
    simp only [Call.proc, withHandler, interrupted]
    split_ifs <;> decide
  exact ⟨w', h, (sigaction_restores ⟨by decide, by decide⟩ rfl ⟨by decide, by decide⟩ hal
    (by decide) (by decide) h).mpr (by decide)⟩

end Xv6.Signal
