import Xv6.Kthread.Create
import Xv6.Vm.Equiv.Copy

/-!
# `kthread_create`

`kthreadCreate_ok`: the call makes one more thread and changes nothing else exactly if there are a
slot and a page, and the place of the new trapframe is in memory with no other trapframe in the way.
Without a slot the call stores through a null pointer (`kthreadCreate_full`), and without a page it
releases a lock that it does not hold (`kthreadCreate_noPage`).
-/

namespace Xv6.Create

open Lib List BitVec

variable {s : State} {i : Fin nproc} {t c : Fin nthread} {code : Code} {startFunc stack page : Addr}

/-! ### Running the calls -/

theorem ok_bind {α β : Type} (a : α) (f : α → Except Fault β) : (Except.ok a >>= f) = f a := rfl

theorem acquire_run (h : s.holding = false) :
    acquire.run s = .ok ((), { s with holding := true }) := by
  simp only [acquire, StateT.run_bind, StateT.run_get, pure_bind, h]
  rfl

/-- The state in which `allocthread` has the slot. -/
def taken (s : State) (i : Fin nproc) (c t : Fin nthread) : State :=
  { s.setThread i t
      { s.threads i t with
        tid := s.nexttid, state := .used, procParent := some i, threadParent := some (i, c) } with
    nexttid := (s.nexttid + 1).bmod (2 ^ 32)
    released := s.released + 1 }

theorem takeSlot_run (h : s.holding = false) (hslot : s.freeSlot i = some t) :
    (takeSlot i c).run s = .ok (some t, taken s i c t) := by
  have hslot' : State.freeSlot { s with holding := true } i = some t := hslot
  simp only [takeSlot, StateT.run_bind, StateT.run_get, acquire_run h, ok_bind, pure_bind, hslot']
  cases s
  dsimp only at h
  subst h
  rfl

theorem takeSlot_full (h : s.holding = false) (hslot : s.freeSlot i = none) :
    (takeSlot i c).run s = .ok (none, { s with released := s.released + 1 }) := by
  have hslot' : State.freeSlot { s with holding := true } i = none := hslot
  simp only [takeSlot, StateT.run_bind, StateT.run_get, acquire_run h, ok_bind, pure_bind, hslot']
  cases s
  dsimp only at h
  subst h
  rfl

/-- A full table: the null pointer that `allocthread` gives is stored through before it is
tested. -/
theorem kthreadCreate_full (h : s.holding = false) (hslot : s.freeSlot i = none) :
    (kthreadCreate code i c startFunc stack).run s = .error .nullThread := by
  simp only [kthreadCreate, allocthread, StateT.run_bind, takeSlot_full h hslot, ok_bind]
  rfl

/-- The state in which the thread has its kernel stack. -/
def stacked (s : State) (i : Fin nproc) (c t : Fin nthread) (page : Addr) : State :=
  let s₁ := (taken s i c t).kalloc.2
  s₁.setThread i t { s₁.threads i t with kstack := page }

/-- The state in which the trapframe is written. -/
def filled (s : State) (code : Code) (i : Fin nproc) (c t : Fin nthread)
    (page startFunc stack : Addr) : State :=
  let tf := s.trapframeOf i t
  let s₁ := (s.setThread i t { s.threads i t with trapframe := tf }).setMem
    (memmove s.mem tf (bytesAt s.mem (s.threads i c).trapframe sizeofTrapframe))
  let s₂ := s₁.setThread i t
    { s₁.threads i t with context := (code.forkret, page + BitVec.ofNat 64 pgsize) }
  let s₃ := s₂.setMem (memmove s₂.mem (tf + 24) (toBytes 8 startFunc.toNat))
  s₃.setMem (memmove s₃.mem (tf + 48) (toBytes 8 (stack + BitVec.ofNat 64 maxStackSize).toNat))

theorem fillThread_run (h : InRam (s.trapframeOf i t) sizeofTrapframe ∧
    InRam (s.threads i c).trapframe sizeofTrapframe) :
    (fillThread code i c t page startFunc stack).run s =
      .ok ((), filled s code i c t page startFunc stack) := by
  simp only [fillThread, StateT.run_bind, StateT.run_get, pure_bind, if_pos h]
  rfl

/-- A trapframe outside of the memory faults. -/
theorem fillThread_fault (h : ¬(InRam (s.trapframeOf i t) sizeofTrapframe ∧
    InRam (s.threads i c).trapframe sizeofTrapframe)) :
    (fillThread code i c t page startFunc stack).run s = .error .memory := by
  simp only [fillThread, StateT.run_bind, StateT.run_get, pure_bind, if_neg h]
  rfl

/-- The state in which `kthread_create` returns. -/
def created (s : State) (code : Code) (i : Fin nproc) (c t : Fin nthread)
    (page startFunc stack : Addr) : State :=
  let s₁ := filled (stacked s i c t page) code i c t page startFunc stack
  s₁.setThread i t { s₁.threads i t with state := .runnable }

section States

variable (s : State) (th : Thread) (mem : Mem)

@[simp] theorem setThread_self : (s.setThread i t th).threads i t = th := by
  simp [State.setThread]

theorem setThread_other {l : Fin nproc} {u : Fin nthread} (h : (l, u) ≠ (i, t)) :
    (s.setThread i t th).threads l u = s.threads l u := by
  unfold State.setThread
  by_cases hl : l = i
  · subst hl
    have hu : u ≠ t := fun hu => h (by rw [hu])
    simp [hu]
  · simp [hl]

@[simp] theorem setThread_mem : (s.setThread i t th).mem = s.mem := rfl

@[simp] theorem setMem_threads : (s.setMem mem).threads = s.threads := rfl

@[simp] theorem setMem_mem : (s.setMem mem).mem = mem := rfl

end States

variable {rest : List Addr}

theorem kalloc_cons (h : s.freelist = page :: rest) : s.kalloc =
    (page, { s with freelist := rest, mem := memmove s.mem page (List.replicate pgsize 5) }) := by
  rw [State.kalloc, h]

/-! ### The trapframes -/

/-- A copy leaves alone the bytes that are apart from it. -/
theorem memmove_apart {mem : Mem} {a dst : Addr} {src : List UInt8} {m n k : Nat}
    (h : Apart a m dst n) (hk : k < m) (hlen : src.length ≤ n) :
    memmove mem dst src (a + BitVec.ofNat 64 k) = mem (a + BitVec.ofNat 64 k) :=
  getD_eq_default _ _ (hlen.trans (h k hk))

theorem memmove_field {mem : Mem} {a : Addr} {src : List UInt8} {o k : Nat} (ho : o < 2 ^ 32)
    (hk : k < 2 ^ 32) (hlen : src.length < 2 ^ 32) :
    memmove mem (a + BitVec.ofNat 64 o) src (a + BitVec.ofNat 64 k) =
      if o ≤ k ∧ k < o + src.length then src.getD (k - o) 0 else mem (a + BitVec.ofNat 64 k) := by
  have hsub : a + BitVec.ofNat 64 k - (a + BitVec.ofNat 64 o) =
      BitVec.ofNat 64 k - BitVec.ofNat 64 o := by
    bv_omega
  have hnat : (BitVec.ofNat 64 k - BitVec.ofNat 64 o).toNat =
      if o ≤ k then k - o else 2 ^ 64 + k - o := by
    rw [toNat_sub, toNat_ofNat, toNat_ofNat]
    split_ifs <;> omega
  rw [memmove, hsub, hnat]
  by_cases hle : o ≤ k
  · by_cases hlt : k < o + src.length
    · rw [if_pos hle, if_pos ⟨hle, hlt⟩, getD_eq_getElem _ _ (by omega),
        getD_eq_getElem _ _ (by omega)]
    · rw [if_pos hle, if_neg fun hboth => hlt hboth.2, getD_eq_default _ _ (by omega)]
  · rw [if_neg hle, if_neg fun hboth => hle hboth.1, getD_eq_default _ _ (by omega)]

theorem Apart.shift {a b : Addr} {m n o l : Nat} (h : Apart a m b n) (ho : o + l ≤ n)
    (hn : n < 2 ^ 32) : Apart a m (b + BitVec.ofNat 64 o) l := by
  intro k hk
  have hle := h k hk
  have hlt := (a + BitVec.ofNat 64 k - b).isLt
  have hsub : a + BitVec.ofNat 64 k - (b + BitVec.ofNat 64 o) =
      a + BitVec.ofNat 64 k - b - BitVec.ofNat 64 o := by
    bv_omega
  rw [hsub, toNat_sub, toNat_ofNat]
  omega

/-- The memory after the new trapframe has been written to `tf`. -/
def placed (mem : Mem) (tf : Addr) (caller : List UInt8) (startFunc stack : Addr) : Mem :=
  memmove (memmove (memmove mem tf caller) (tf + BitVec.ofNat 64 24) (toBytes 8 startFunc.toNat))
    (tf + BitVec.ofNat 64 48) (toBytes 8 (stack + BitVec.ofNat 64 maxStackSize).toNat)

/-- The bytes of the new trapframe. -/
theorem placed_byte {mem : Mem} {tf : Addr} {caller : List UInt8} {k : Nat}
    (hlen : caller.length = sizeofTrapframe) (hk : k < sizeofTrapframe) :
    placed mem tf caller startFunc stack (tf + BitVec.ofNat 64 k) =
      newByte caller startFunc stack k := by
  have hk : k < 288 := hk
  have hlen : caller.length = 288 := hlen
  have hcopied : memmove mem tf caller (tf + BitVec.ofNat 64 k) = caller.getD k 0 :=
    memmove_add (by omega) (by rw [hlen]; decide)
  rw [placed, memmove_field (by decide) (by omega) (by simp), memmove_field (by decide) (by omega)
    (by simp), hcopied]
  simp only [length_toBytes, newByte, Nat.reduceAdd]
  by_cases hsp : 48 ≤ k ∧ k < 56
  · rw [if_pos hsp, if_neg (by omega), if_pos hsp]
  · rw [if_neg hsp, if_neg hsp]

theorem placed_apart {mem : Mem} {tf a : Addr} {caller : List UInt8} {m k : Nat}
    (hlen : caller.length = sizeofTrapframe) (h : Apart a m tf sizeofTrapframe) (hk : k < m) :
    placed mem tf caller startFunc stack (a + BitVec.ofNat 64 k) = mem (a + BitVec.ofNat 64 k) := by
  rw [placed, memmove_apart (h.shift (o := 48) (l := 8) (by decide) (by decide)) hk (by simp),
    memmove_apart (h.shift (o := 24) (l := 8) (by decide) (by decide)) hk (by simp),
    memmove_apart h hk (Nat.le_of_eq hlen)]

section

variable (hlist : s.freelist = page :: rest)

include hlist

theorem stacked_spec :
    (stacked s i c t page).threads i t = { s.threads i t with
      tid := s.nexttid, state := .used, procParent := some i, threadParent := some (i, c)
      kstack := page } ∧
    (∀ l u, (l, u) ≠ (i, t) → (stacked s i c t page).threads l u = s.threads l u) ∧
    (stacked s i c t page).mem = memmove s.mem page (List.replicate pgsize 5) ∧
    (stacked s i c t page).holding = s.holding ∧
    (stacked s i c t page).released = s.released + 1 := by
  have hkalloc := kalloc_cons (s := taken s i c t) hlist
  rw [stacked, hkalloc]
  dsimp only
  refine ⟨?_, fun l u h => ?_, rfl, rfl, rfl⟩
  · rw [setThread_self, taken]
    dsimp only
    rw [setThread_self]
  · rw [setThread_other _ _ h]
    exact setThread_other _ _ h

theorem trapframeOf_stacked :
    (stacked s i c t page).trapframeOf i t = s.trapframeOf i t := by
  obtain ⟨hself, hother, -⟩ := stacked_spec (i := i) (c := c) (t := t) hlist
  unfold State.trapframeOf
  by_cases ht : t = 0
  · subst ht
    rw [hself]
  · rw [hother i 0 fun heq => ht (Prod.mk.inj heq).2.symm]

/-- What the call leaves behind. -/
theorem created_spec (hne : c ≠ t) :
    let s' := created s code i c t page startFunc stack
    let tf := s.trapframeOf i t
    let mem := memmove s.mem page (List.replicate pgsize 5)
    (s'.threads i t).state = .runnable ∧ (s'.threads i t).tid = s.nexttid ∧
      (s'.threads i t).trapframe = tf ∧
      (∀ l u, (l, u) ≠ (i, t) → s'.threads l u = s.threads l u) ∧
      s'.mem = placed mem tf (bytesAt mem (s.threads i c).trapframe sizeofTrapframe) startFunc
        stack := by
  have hcaller : ((i, c) : Fin nproc × Fin nthread) ≠ (i, t) := fun h => hne (Prod.mk.inj h).2
  obtain ⟨hself, hother, hmem, -⟩ := stacked_spec (i := i) (c := c) (t := t) hlist
  dsimp only
  refine ⟨?_, ?_, ?_, fun l u h => ?_, ?_⟩
  · simp [created]
  · simp [created, filled, hself]
  · simp [created, filled, trapframeOf_stacked hlist]
  · simp [created, filled, setThread_other _ _ h, hother l u h]
  · simp only [created, filled, trapframeOf_stacked hlist, setThread_mem, setMem_mem, hmem,
      hother i c hcaller]
    rfl

/-- The test of the two trapframes is one of the state in which the call starts. -/
theorem inRam_stacked (hne : c ≠ t) :
    (InRam ((stacked s i c t page).trapframeOf i t) sizeofTrapframe ∧
      InRam ((stacked s i c t page).threads i c).trapframe sizeofTrapframe) ↔
    InRam (s.trapframeOf i t) sizeofTrapframe ∧
      InRam (s.threads i c).trapframe sizeofTrapframe := by
  have hother := (stacked_spec (i := i) (c := c) (t := t) hlist).2.1 i c
    fun heq => hne (Prod.mk.inj heq).2
  rw [trapframeOf_stacked hlist, hother]

end

/-! ### The ways in which the call ends -/

theorem release_fault (h : s.holding = false) : release.run s = .error .release := by
  simp only [release, StateT.run_bind, StateT.run_get, pure_bind, h]
  rfl

theorem freethread_run (h : (s.threads i t).kstack = 0) :
    ∃ s', (freethread i t).run s = .ok ((), s') ∧ s'.holding = s.holding := by
  have hno : ¬((s.threads i t).kstack ≠ 0 ∧ t ≠ 0) := fun hand => hand.1 h
  simp only [freethread, StateT.run_bind, StateT.run_get, pure_bind, if_neg hno]
  exact ⟨_, rfl, rfl⟩

section

variable (h : s.holding = false) (hslot : s.freeSlot i = some t)

include h hslot

/-- Without a page, `release` panics. -/
theorem kthreadCreate_noPage (hpage : ∀ page, s.freelist.head? = some page → page = 0) :
    (kthreadCreate code i c startFunc stack).run s = .error .release := by
  have hkalloc : (taken s i c t).kalloc.1 = 0 := by
    rw [State.kalloc]
    split
    · rfl
    · rename_i r rest hlist
      exact hpage r (congrArg List.head? hlist)
  have hfree : ((taken s i c t).kalloc.2).holding = false := by
    rw [State.kalloc]
    split <;> exact h
  generalize hs₁ : (taken s i c t).kalloc.2 = s₁ at hfree
  obtain ⟨s₂, hrun, hholding⟩ := freethread_run (i := i) (t := t)
    (s := s₁.setThread i t { s₁.threads i t with kstack := 0 }) (by rw [setThread_self])
  have hset : (setThread i t fun th => { th with kstack := 0 }).run s₁ =
      .ok ((), s₁.setThread i t { s₁.threads i t with kstack := 0 }) := rfl
  have hput : (MonadStateOf.set s₁ : Call PUnit).run (taken s i c t) = .ok (⟨⟩, s₁) := rfl
  simp only [kthreadCreate, allocthread, StateT.run_bind, takeSlot_run h hslot, ok_bind,
    StateT.run_get, pure_bind, hkalloc, hs₁, if_true, hput, hset, hrun,
    release_fault (hholding.trans hfree)]
  rfl

variable (hpage : s.freelist.head? = some page ∧ page ≠ 0)

include hpage

theorem allocthread_run : (allocthread code i c startFunc stack).run s =
    ((fillThread code i c t page startFunc stack).run (stacked s i c t page)).map
      fun r => (some t, r.2) := by
  obtain ⟨rest, hlist⟩ := List.head?_eq_some_iff.mp hpage.1
  have hkalloc : (taken s i c t).kalloc.1 = page := by
    rw [kalloc_cons (s := taken s i c t) hlist]
  simp only [allocthread, StateT.run_bind, takeSlot_run h hslot, ok_bind, StateT.run_get, pure_bind,
    hkalloc, if_neg hpage.2]
  rfl

variable (hne : c ≠ t)

include hne

theorem kthreadCreate_fault (hram : ¬(InRam (s.trapframeOf i t) sizeofTrapframe ∧
    InRam (s.threads i c).trapframe sizeofTrapframe)) :
    (kthreadCreate code i c startFunc stack).run s = .error .memory := by
  obtain ⟨rest, hlist⟩ := List.head?_eq_some_iff.mp hpage.1
  simp only [kthreadCreate, StateT.run_bind, allocthread_run h hslot hpage,
    fillThread_fault (mt (inRam_stacked hlist hne).mp hram)]
  rfl

/-- With room, the call comes to its end. -/
theorem kthreadCreate_run (hram : InRam (s.trapframeOf i t) sizeofTrapframe ∧
    InRam (s.threads i c).trapframe sizeofTrapframe) :
    (kthreadCreate code i c startFunc stack).run s =
      .ok (s.nexttid, created s code i c t page startFunc stack) := by
  obtain ⟨rest, hlist⟩ := List.head?_eq_some_iff.mp hpage.1
  have htid : ((created s code i c t page startFunc stack).threads i t).tid = s.nexttid :=
    (created_spec hlist hne).2.1
  simp only [kthreadCreate, StateT.run_bind, allocthread_run h hslot hpage,
    fillThread_run ((inRam_stacked hlist hne).mpr hram), ← htid]
  rfl

end

theorem ne_of_freeSlot (hcaller : (s.threads i c).state = .running)
    (hslot : s.freeSlot i = some t) : c ≠ t := by
  rintro rfl
  have hfree : (s.threads i c).state = .unused ∨ (s.threads i c).state = .zombie := by
    simpa using List.find?_some hslot
  rw [hcaller] at hfree
  simp at hfree

/-- A call that returns has found a slot, a page and the trapframes. -/
theorem kthreadCreate_eq_ok {r : Int} {s' : State} (h : s.holding = false)
    (hcaller : (s.threads i c).state = .running)
    (hrun : (kthreadCreate code i c startFunc stack).run s = .ok (r, s')) :
    ∃ t page, s.freeSlot i = some t ∧ c ≠ t ∧ (s.freelist.head? = some page ∧ page ≠ 0) ∧
      (InRam (s.trapframeOf i t) sizeofTrapframe ∧
        InRam (s.threads i c).trapframe sizeofTrapframe) ∧
      s' = created s code i c t page startFunc stack := by
  cases hslot : s.freeSlot i with
  | none =>
    rw [kthreadCreate_full h hslot] at hrun
    cases hrun
  | some t =>
    have hct := ne_of_freeSlot hcaller hslot
    obtain ⟨page, hpage⟩ : ∃ page, s.freelist.head? = some page ∧ page ≠ 0 := by
      by_contra hno
      push Not at hno
      rw [kthreadCreate_noPage h hslot hno] at hrun
      cases hrun
    have hram : InRam (s.trapframeOf i t) sizeofTrapframe ∧
        InRam (s.threads i c).trapframe sizeofTrapframe := by
      by_contra hram
      rw [kthreadCreate_fault h hslot hpage hct hram] at hrun
      cases hrun
    rw [kthreadCreate_run h hslot hpage hct hram] at hrun
    cases hrun
    exact ⟨t, page, rfl, hct, hpage, hram, rfl⟩

/-! ### All or nothing -/

theorem length_bytesAt (mem : Mem) (a : Addr) (n : Nat) : (bytesAt mem a n).length = n := by
  simp [bytesAt]

/-- With room, the call does what it should. -/
theorem Room.createOk (h : s.holding = false) (hne : c ≠ t)
    (hcaller : (s.threads i c).state = .running) (hroom : Room s i c t page) :
    CreateOk s (created s code i c t page startFunc stack) i c startFunc stack s.nexttid := by
  obtain ⟨rest, hlist⟩ := List.head?_eq_some_iff.mp hroom.kstack.1
  have hfree : (s.threads i t).state = .unused ∨ (s.threads i t).state = .zombie := by
    simpa using List.find?_some hroom.slot
  obtain ⟨hstate, htid, htf, hothers, hmem⟩ : _ ∧ _ ∧ _ ∧ _ ∧
      (created s code i c t page startFunc stack).mem = _ := created_spec hlist hne
  -- the bytes of a trapframe in use are not where the call writes
  have hkept : ∀ l u, (l, u) ≠ (i, t) → (s.threads l u).state ≠ .unused →
      (created s code i c t page startFunc stack).frame l u = s.frame l u := by
    intro l u hlu hused
    obtain ⟨hpage, htrap⟩ := hroom.apart l u hlu hused
    rw [State.frame, State.frame, hothers l u hlu, hmem]
    refine map_congr_left fun k hk => ?_
    have hk := mem_range.mp hk
    rw [placed_apart (length_bytesAt ..) htrap hk, memmove_apart hpage hk (by simp)]
  have hsaved : bytesAt (memmove s.mem page (List.replicate pgsize 5)) (s.threads i c).trapframe
      sizeofTrapframe = s.frame i c := by
    obtain ⟨hpage, -⟩ := hroom.apart i c (fun heq => hne (Prod.mk.inj heq).2) (by rw [hcaller]; decide)
    unfold State.frame bytesAt
    exact map_congr_left fun k hk => memmove_apart hpage (mem_range.mp hk) (by simp)
  obtain ⟨-, -, -, hholding, hreleased⟩ := stacked_spec (i := i) (c := c) (t := t) hlist
  refine ⟨.inl ⟨t, hfree, hstate, htid, ?_, fun l u hlu => ⟨hothers l u hlu, hkept l u hlu⟩⟩,
    hholding.trans h, hreleased⟩
  rw [State.frame, htf, hmem, hsaved]
  exact map_congr_left fun k hk => placed_byte (length_bytesAt ..) (mem_range.mp hk)

/-- The call has changed the slot that it has found, so all others are to be as they were. -/
theorem CreateOk.frames {r : Int} (hne : c ≠ t) (hlist : s.freelist = page :: rest)
    (hslot : s.freeSlot i = some t)
    (hok : CreateOk s (created s code i c t page startFunc stack) i c startFunc stack r) :
    ∀ l u, (l, u) ≠ (i, t) → (s.threads l u).state ≠ .unused →
      (created s code i c t page startFunc stack).frame l u = s.frame l u := by
  have hfree : (s.threads i t).state = .unused ∨ (s.threads i t).state = .zombie := by
    simpa using List.find?_some hslot
  have hstate : ((created s code i c t page startFunc stack).threads i t).state = .runnable :=
    (created_spec hlist hne).1
  have hchanged : (created s code i c t page startFunc stack).threads i t ≠ s.threads i t := by
    intro heq
    rw [heq] at hstate
    rw [hstate] at hfree
    simp at hfree
  rcases hok.result with ⟨t', -, -, -, -, hothers⟩ | hun
  · obtain rfl : t = t' := by
      by_contra htt
      exact hchanged (hothers i t fun heq => htt (Prod.mk.inj heq).2).1
    exact fun l u hlu => (hothers l u hlu).2
  · exact absurd (congrFun (congrFun hun.threads i) t) hchanged

theorem exists_ne_byte (v : UInt8) : ∃ w : UInt8, w ≠ v :=
  ⟨if v = 0 then 1 else 0, by split_ifs with hv <;> simp [hv, eq_comm]⟩

theorem getD_bytesAt {mem : Mem} {a : Addr} {n k : Nat} (h : k < n) :
    (bytesAt mem a n).getD k 0 = mem (a + BitVec.ofNat 64 k) := by
  rw [getD_eq_getElem _ _ (by rwa [length_bytesAt])]
  simp [bytesAt]

theorem memmove_junk {mem : Mem} {a page : Addr} (h : (a - page).toNat < pgsize) :
    memmove mem page (List.replicate pgsize 5) a = 5 := by
  rw [memmove, getD_eq_getElem _ _ (by rwa [length_replicate]), List.getElem_replicate]

section

variable {tf caller : Addr} {X : Set Addr}
  (hcaller : ∀ k < sizeofTrapframe, caller + BitVec.ofNat 64 k ∈ X)
  (h : ∀ mem : Mem, ∀ a ∈ X, placed (memmove mem page (List.replicate pgsize 5)) tf
    (bytesAt (memmove mem page (List.replicate pgsize 5)) caller sizeofTrapframe) startFunc stack a =
      mem a)

include hcaller h

/-- A byte of the new trapframe is one of the caller's, or one that does not depend on the
memory. -/
theorem notMem_of_kept {m : Nat} (hm : m < sizeofTrapframe) : tf + BitVec.ofNat 64 m ∉ X := by
  have hplaced : ∀ mem : Mem, ∀ m < sizeofTrapframe, tf + BitVec.ofNat 64 m ∈ X →
      newByte (bytesAt (memmove mem page (List.replicate pgsize 5)) caller sizeofTrapframe) startFunc
        stack m = mem (tf + BitVec.ofNat 64 m) := fun mem m hm hx => by
    rw [← h mem _ hx, placed_byte (length_bytesAt ..) hm]
  have hconst : ∀ m < sizeofTrapframe, 24 ≤ m ∧ m < 32 ∨ 48 ≤ m ∧ m < 56 →
      tf + BitVec.ofNat 64 m ∉ X := by
    intro m hm hfield hx
    obtain ⟨w, hw⟩ := exists_ne_byte (newByte [] startFunc stack m)
    refine hw ((hplaced (fun _ => w) m hm hx).symm.trans ?_)
    unfold newByte
    split_ifs
    · rfl
    · rfl
    · omega
  intro hx
  by_cases hfield : 24 ≤ m ∧ m < 32 ∨ 48 ≤ m ∧ m < 56
  · exact hconst m hm hfield hx
  have hcopied : ∀ mem : Mem, memmove mem page (List.replicate pgsize 5) (caller + BitVec.ofNat 64 m) =
      mem (tf + BitVec.ofNat 64 m) := fun mem => by
    rw [← hplaced mem m hm hx, newByte, if_neg (by omega), if_neg (by omega), getD_bytesAt hm]
  by_cases hjunk : (caller + BitVec.ofNat 64 m - page).toNat < pgsize
  · have hfive := hcopied fun _ => 0
    rw [memmove_junk hjunk] at hfive
    exact absurd hfive (by decide)
  by_cases hsame : caller + BitVec.ofNat 64 m = tf + BitVec.ofNat 64 m
  · -- the trapframe of the caller itself is overwritten
    obtain rfl := (BitVec.add_left_inj _).mp hsame
    exact hconst 24 (by decide) (.inl (by decide)) (hcaller 24 (by decide))
  · have hone := hcopied fun x => if x = tf + BitVec.ofNat 64 m then 1 else 0
    rw [memmove, getD_eq_default _ _ (by rw [length_replicate]; omega), if_neg hsame, if_pos rfl] at hone
    exact absurd hone (by decide)

/-- A trapframe that keeps its bytes whatever the memory holds is apart from what is written. -/
theorem apart_of_kept {a : Addr} (ha : ∀ k < sizeofTrapframe, a + BitVec.ofNat 64 k ∈ X) :
    Apart a sizeofTrapframe page pgsize ∧ Apart a sizeofTrapframe tf sizeofTrapframe := by
  have htf : Apart a sizeofTrapframe tf sizeofTrapframe := by
    intro k hk
    by_contra hlt
    refine notMem_of_kept hcaller h (Nat.lt_of_not_le hlt) ?_
    rw [BitVec.ofNat_toNat, BitVec.setWidth_eq, BitVec.add_comm, BitVec.sub_add_cancel]
    exact ha k hk
  refine ⟨fun k hk => ?_, htf⟩
  by_contra hlt
  have hfive := h (fun _ => 0) _ (ha k hk)
  rw [placed_apart (length_bytesAt ..) htf hk, memmove_junk (Nat.lt_of_not_le hlt)] at hfive
  exact absurd hfive (by decide)

end

/-- **`kthread_create` is all or nothing**, whatever the memory holds, exactly if there is room for
the thread. -/
theorem kthreadCreate_ok (code : Code) (startFunc stack : Addr) (h : s.holding = false)
    (hcaller : (s.threads i c).state = .running) :
    (∀ mem, ∃ r s', (kthreadCreate code i c startFunc stack).run (s.setMem mem) = .ok (r, s') ∧
      CreateOk (s.setMem mem) s' i c startFunc stack r) ↔ ∃ t page, Room s i c t page := by
  constructor
  · intro hall
    obtain ⟨r, s', hrun, -⟩ := hall s.mem
    obtain ⟨t, page, hslot, hct, hpage, hram, -⟩ := kthreadCreate_eq_ok h hcaller
      (show (kthreadCreate code i c startFunc stack).run s = _ from hrun)
    obtain ⟨rest, hlist⟩ := List.head?_eq_some_iff.mp hpage.1
    refine ⟨t, page, hslot, hpage, hram, fun l u hlu hused => ?_⟩
    -- the bytes of the trapframes in use
    let X : Set Addr := { a | ∃ l u, (l, u) ≠ (i, t) ∧ (s.threads l u).state ≠ .unused ∧
      ∃ k < sizeofTrapframe, a = (s.threads l u).trapframe + BitVec.ofNat 64 k }
    have hkept : ∀ mem : Mem, ∀ a ∈ X,
        placed (memmove mem page (List.replicate pgsize 5)) (s.trapframeOf i t)
          (bytesAt (memmove mem page (List.replicate pgsize 5)) (s.threads i c).trapframe
            sizeofTrapframe) startFunc stack a = mem a := by
      rintro mem a ⟨l, u, hlu, hused, k, hk, rfl⟩
      obtain ⟨r, s', hrun, hok⟩ := hall mem
      rw [kthreadCreate_run (s := s.setMem mem) h hslot hpage hct hram] at hrun
      obtain rfl := (Prod.mk.inj (Except.ok.inj hrun)).2
      have hframe := CreateOk.frames (s := s.setMem mem) hct hlist hslot hok l u hlu hused
      obtain ⟨-, -, -, hothers, hmem⟩ : _ ∧ _ ∧ _ ∧ _ ∧
          (created (s.setMem mem) code i c t page startFunc stack).mem = _ :=
        created_spec hlist hct
      rw [State.frame, State.frame, hothers l u hlu, hmem] at hframe
      have hbyte := congrArg (fun bytes => bytes.getD k 0) hframe
      rwa [getD_bytesAt hk, getD_bytesAt hk] at hbyte
    have hframe : ∀ k < sizeofTrapframe, (s.threads i c).trapframe + BitVec.ofNat 64 k ∈ X :=
      fun k hk =>
        ⟨i, c, fun heq => hct (Prod.mk.inj heq).2, by rw [hcaller]; decide, k, hk, rfl⟩
    exact apart_of_kept hframe hkept fun k hk => ⟨l, u, hlu, hused, k, hk, rfl⟩
  · rintro ⟨t, page, hroom⟩ mem
    have hroom' : Room (s.setMem mem) i c t page :=
      ⟨hroom.slot, hroom.kstack, hroom.memory, hroom.apart⟩
    have hct := ne_of_freeSlot hcaller hroom.slot
    exact ⟨_, _, kthreadCreate_run (s := s.setMem mem) h hroom.slot hroom.kstack hct hroom.memory,
      hroom'.createOk h hct hcaller⟩

/-! ### Samples -/

/-- Process 0 runs on thread 0; its other threads are in the given state. -/
def sample (others : ProcState) : State where
  threads l u :=
    { state := if l = 0 then if u = 0 then .running else others else .unused
      tid := 1
      kstack := 0
      trapframe := 0x87000000
      procParent := none
      threadParent := none
      chan := 0
      killed := false
      xstate := 0
      context := (0, 0) }
  mem _ := 0
  freelist := [0x86000000]
  nexttid := 2
  holding := false
  released := 0

/-- All slots of the process are taken: the call does not return. -/
theorem full_faults : ¬ ∃ r s', (kthreadCreate ⟨0x80000000⟩ 0 0 0x100 0x2000).run (sample .runnable) =
    .ok (r, s') ∧ CreateOk (sample .runnable) s' 0 0 0x100 0x2000 r := by
  rintro ⟨r, s', h, -⟩
  have hslot : (sample .runnable).freeSlot 0 = none := by decide +kernel
  rw [kthreadCreate_full rfl hslot] at h
  cases h

theorem sample_created :
    ∃ r s', (kthreadCreate ⟨0x80000000⟩ 0 0 0x100 0x2000).run (sample .unused) = .ok (r, s') ∧
      CreateOk (sample .unused) s' 0 0 0x100 0x2000 r := by
  have htf : (sample .unused).trapframeOf 0 1 = 0x87014400 := by decide +kernel
  have hapart : Apart 0x87000000 sizeofTrapframe 0x86000000 pgsize ∧
      Apart 0x87000000 sizeofTrapframe 0x87014400 sizeofTrapframe := by
    decide +kernel
  have hroom : Room (sample .unused) 0 0 1 0x86000000 :=
    ⟨by decide +kernel, ⟨rfl, by decide⟩, htf ▸ by decide +kernel, fun l u _ _ => htf ▸ hapart⟩
  exact (kthreadCreate_ok _ _ _ rfl rfl).mpr ⟨1, _, hroom⟩ _

end Xv6.Create
