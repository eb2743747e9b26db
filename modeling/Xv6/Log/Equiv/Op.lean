import Mathlib.Algebra.Order.BigOperators.Group.Finset
import Xv6.Log.Op

/-!
# The space of the log

`begin_op` reserves against `LOGSIZE` blocks, `log_write` refuses once `log.size - 1` are logged,
and the log area of `mkfs` has `log.size = LOGSIZE` blocks with the header: one less than is
reserved. The header lists the different blocks logged since the last commit (`txBlocks_eq_blocks`),
so operations that log at most `MAXOPBLOCKS - 1` of them keep it within `LOGSIZE - 2` (`OpInv`).
-/

namespace Xv6

open Lib Function List

/-! ### The header as a list of blocks -/

namespace LogHeader

theorem slot_eq_n_iff (lh : LogHeader) (b : BitVec 32) : lh.slot b = lh.n ↔ b ∉ lh.blocks := by
  unfold slot blocks
  cases h : (List.range lh.n).find? fun i => lh.block i = b with
  | none =>
    rw [List.find?_eq_none] at h
    simp only [Option.getD_none, mem_map, not_exists, not_and, true_iff]
    intro i hi hb
    exact h i hi (by simpa using hb)
  | some i =>
    have hi := mem_range.mp (mem_of_find?_eq_some h)
    have hb : lh.block i = b := by simpa using List.find?_some h
    simp only [Option.getD_some, mem_map, mem_range]
    constructor
    · intro heq; omega
    · intro hno; exact absurd ⟨i, hi, hb⟩ hno

theorem block_slot {lh : LogHeader} {b : BitVec 32} (h : lh.slot b ≠ lh.n) :
    lh.block (lh.slot b) = b := by
  unfold slot at h ⊢
  cases hf : (List.range lh.n).find? fun i => lh.block i = b with
  | none => rw [hf] at h; exact absurd rfl h
  | some => simpa using List.find?_some hf

theorem blocks_record (lh : LogHeader) (b : BitVec 32) (h : lh.n < logSize) :
    (lh.record b h).blocks = if b ∈ lh.blocks then lh.blocks else lh.blocks ++ [b] := by
  by_cases hb : b ∈ lh.blocks
  · have hslot : lh.slot b ≠ lh.n := fun heq => (lh.slot_eq_n_iff b).mp heq hb
    rw [if_pos hb]
    simp only [blocks, record, if_neg hslot]
    congr 1
    funext i
    by_cases hi : i = lh.slot b
    · rw [hi, update_self, block_slot hslot]
    · rw [update_of_ne hi]
  · have hslot : lh.slot b = lh.n := (lh.slot_eq_n_iff b).mpr hb
    rw [if_neg hb]
    simp only [blocks, record, hslot, if_pos, range_succ, map_append, map_cons,
      map_nil, update_self]
    congr 1
    refine map_congr_left fun i hi => ?_
    have := mem_range.mp hi
    rw [update_of_ne (by omega)]

@[simp] theorem length_blocks (lh : LogHeader) : lh.blocks.length = lh.n := by
  rw [blocks, length_map, length_range]

theorem blocks_clear (lh : LogHeader) : lh.clear.blocks = [] := rfl

end LogHeader

/-! ### Steps -/

namespace OpState

variable {ι : Type*} [DecidableEq ι] {s s' : OpState ι}

variable {i : ι}

theorem beginOp_cases (h : s.step (.beginOp i) = some s') :
    s.phase i = .idle ∧ s.committing = false ∧
      s.log.lh.n + (s.outstanding + 1) * maxOpBlocks ≤ logSize ∧
      s' = { s with
        outstanding := s.outstanding + 1
        phase := update s.phase i (.inOp []) } := by
  simp only [step, beginOp] at h
  split_ifs at h with h1 h2 h3
  refine ⟨h1, by simpa using h2, by omega, (Option.some.inj h).symm⟩

theorem logWrite_cases {b : BitVec 32} (h : s.step (.logWrite i b) = some s') :
    ∃ used, s.phase i = .inOp used ∧
      s' = { s.logWrite b with phase := update s.phase i (.inOp (used.insert b)) } := by
  simp only [step] at h
  split at h
  · rename_i used hp
    exact ⟨used, hp, (Option.some.inj h).symm⟩
  · cases h

theorem endOp_cases (h : s.step (.endOp i) = some s') :
    (∃ used, s.phase i = .inOp used) ∧ s' = s.endOp i := by
  simp only [step] at h
  split at h
  · rename_i used hp
    exact ⟨⟨used, hp⟩, (Option.some.inj h).symm⟩
  · cases h

theorem commit_cases (h : s.step (.commit i) = some s') :
    s.phase i = .committing ∧
      s' = { s with
        log := { s.log with lh := s.log.lh.clear }
        phase := update s.phase i .committed } := by
  simp only [step] at h
  split_ifs at h with h1
  exact ⟨h1, (Option.some.inj h).symm⟩

theorem commitEnd_cases (h : s.step (.commitEnd i) = some s') :
    s.phase i = .committed ∧
      s' = { s with committing := false, phase := update s.phase i .idle } := by
  simp only [step] at h
  split_ifs at h with h1
  exact ⟨h1, (Option.some.inj h).symm⟩

omit [DecidableEq ι] in
theorem logWrite_tooBig (hp : s.panic = none) (b : BitVec 32) :
    (s.logWrite b).panic = some tooBig ↔ s.log.lh.n ≥ logSize ∨ s.log.lh.n ≥ s.log.size - 1 := by
  unfold logWrite
  split_ifs with h1 h2
  · exact ⟨fun _ => h1, fun _ => rfl⟩
  · refine ⟨fun h => absurd (Option.some.inj h) (by decide), fun h => absurd h h1⟩
  · refine ⟨fun h => ?_, fun h => absurd h h1⟩
    rw [show s.panic = some tooBig from h] at hp
    cases hp

omit [DecidableEq ι] in
theorem blocks_logWrite {b : BitVec 32} (h : (s.logWrite b).panic = none) :
    (s.logWrite b).log.lh.blocks
      = if b ∈ s.log.lh.blocks then s.log.lh.blocks else s.log.lh.blocks ++ [b] := by
  by_cases h1 : s.log.lh.n ≥ logSize ∨ s.log.lh.n ≥ s.log.size - 1
  · rw [logWrite, dif_pos h1] at h
    cases h
  by_cases h2 : s.outstanding < 1
  · rw [logWrite, dif_neg h1, if_pos h2] at h
    cases h
  have hn : s.log.lh.n < logSize := Nat.not_le.mp fun hle => h1 (Or.inl hle)
  rw [logWrite, dif_neg h1, if_neg h2]
  exact s.log.lh.blocks_record b hn

theorem endOp_panic_ne (hp : s.panic = none) (i : ι) : (s.endOp i).panic ≠ some tooBig := by
  unfold endOp
  split_ifs
  · show some "log.committing" ≠ some tooBig
    decide
  · simp [hp]
  · simp [hp]

theorem endOp_log (i : ι) : (s.endOp i).log = s.log := by
  unfold endOp
  split_ifs <;> rfl

omit [DecidableEq ι] in
theorem logWrite_size (b : BitVec 32) : (s.logWrite b).log.size = s.log.size := by
  unfold logWrite
  split_ifs <;> rfl

end OpState

/-! ### When a run hits the panic -/

section Run

variable {ι : Type*} [DecidableEq ι]

theorem step_of_opMachine {s s' : OpState ι} {a : OpAct ι}
    (h : (opMachine ι).step s a = some s') : s.panic = none ∧ s.step a = some s' := by
  unfold opMachine at h
  dsimp only at h
  split_ifs at h with hp
  refine ⟨?_, h⟩
  cases hpn : s.panic with
  | none => rfl
  | some => rw [hpn] at hp; exact absurd rfl hp

omit [DecidableEq ι] in
theorem txBlocks_concat (as : List (OpAct ι)) (a : OpAct ι) :
    txBlocks (as ++ [a]) = txAfter (txBlocks as) a := by
  unfold txBlocks
  rw [foldl_append, foldl_cons, foldl_nil]

/-- What a run leaves: the log area keeps its size, and while the kernel runs, the header lists
the blocks of the current transaction. -/
theorem txBlocks_eq_blocks (block : Nat → BitVec 32) :
    ∀ (as : List (OpAct ι)) (s : OpState ι), (opMachine ι).run (initlog ι block) as = some s →
      s.log.size = mkfsNlog ∧ (s.panic = none → s.log.lh.blocks = txBlocks as) := by
  intro as
  induction as using List.reverseRecOn with
  | nil =>
    intro s h
    rw [Machine.run_nil, Option.some.injEq] at h
    rw [← h]
    exact ⟨rfl, fun _ => rfl⟩
  | append_singleton as a ih =>
    intro s' h
    obtain ⟨s, hs, hstep⟩ := Machine.run_concat_eq_some _ h
    obtain ⟨hp, hstep⟩ := step_of_opMachine hstep
    obtain ⟨hsize, hblocks⟩ := ih s hs
    have hb := hblocks hp
    rw [txBlocks_concat, ← hb]
    cases a with
    | beginOp =>
      obtain ⟨-, -, -, rfl⟩ := OpState.beginOp_cases hstep
      exact ⟨hsize, fun _ => rfl⟩
    | logWrite i b =>
      obtain ⟨used, -, rfl⟩ := OpState.logWrite_cases hstep
      refine ⟨?_, fun hpanic => OpState.blocks_logWrite hpanic⟩
      show (s.logWrite b).log.size = mkfsNlog
      rw [OpState.logWrite_size, hsize]
    | endOp =>
      obtain ⟨-, rfl⟩ := OpState.endOp_cases hstep
      rw [OpState.endOp_log]
      exact ⟨hsize, fun _ => rfl⟩
    | commit =>
      obtain ⟨-, rfl⟩ := OpState.commit_cases hstep
      exact ⟨hsize, fun _ => LogHeader.blocks_clear _⟩
    | commitEnd =>
      obtain ⟨-, rfl⟩ := OpState.commitEnd_cases hstep
      exact ⟨hsize, fun _ => rfl⟩

theorem prefix_concat_cases {α : Type*} {bs as : List α} {x a : α}
    (h : bs ++ [x] <+: as ++ [a]) : bs ++ [x] <+: as ∨ (bs = as ∧ x = a) := by
  rcases prefix_concat_iff.mp h with heq | hpre
  · right
    exact append_inj' heq rfl |>.imp id (by simp)
  · exact Or.inl hpre

/-- A run ends in the panic exactly when its last call is a `log_write` beyond the `LOGSIZE - 1`
blocks. -/
theorem panic_iff_last (block : Nat → BitVec 32) {as : List (OpAct ι)} {a : OpAct ι}
    {s s' : OpState ι} (hs : (opMachine ι).run (initlog ι block) as = some s)
    (hstep : (opMachine ι).step s a = some s') :
    s'.panic = some tooBig ↔ (∃ i b, a = .logWrite i b) ∧ logSize - 1 ≤ (txBlocks as).length := by
  obtain ⟨hp, hstep⟩ := step_of_opMachine hstep
  obtain ⟨hsize, hblocks⟩ := txBlocks_eq_blocks block as s hs
  have hn : (txBlocks as).length = s.log.lh.n := by
    rw [← hblocks hp, LogHeader.length_blocks]
  rw [hn]
  cases a with
  | beginOp =>
    obtain ⟨-, -, -, rfl⟩ := OpState.beginOp_cases hstep
    simp [hp]
  | logWrite i b =>
    obtain ⟨used, -, rfl⟩ := OpState.logWrite_cases hstep
    show (s.logWrite b).panic = some tooBig ↔ _
    rw [OpState.logWrite_tooBig hp, hsize]
    have hlog : mkfsNlog = logSize := rfl
    have hval : logSize = 30 := rfl
    constructor
    · intro h
      exact ⟨⟨i, b, rfl⟩, by omega⟩
    · rintro ⟨-, h⟩
      right; omega
  | endOp i =>
    obtain ⟨-, rfl⟩ := OpState.endOp_cases hstep
    simp [OpState.endOp_panic_ne hp i]
  | commit =>
    obtain ⟨-, rfl⟩ := OpState.commit_cases hstep
    simp [hp]
  | commitEnd =>
    obtain ⟨-, rfl⟩ := OpState.commitEnd_cases hstep
    simp [hp]

theorem tooBig_iff_not_txFits (block : Nat → BitVec 32) :
    ∀ (as : List (OpAct ι)) (s : OpState ι), (opMachine ι).run (initlog ι block) as = some s →
      (s.panic ≠ some tooBig ↔ TxFits as) := by
  intro as
  induction as using List.reverseRecOn with
  | nil =>
    intro s h
    rw [Machine.run_nil, Option.some.injEq] at h
    rw [← h]
    refine ⟨fun _ bs i b hpre => ?_, fun _ => by simp [initlog]⟩
    have := prefix_nil.mp hpre
    simp at this
  | append_singleton as a ih =>
    intro s' h
    obtain ⟨s, hs, hstep⟩ := Machine.run_concat_eq_some _ h
    -- the kernel was still running before the last call
    have hp := (step_of_opMachine hstep).1
    have hfits : TxFits as := (ih s hs).mp (by rw [hp]; simp)
    rw [ne_eq, panic_iff_last block hs hstep]
    constructor
    · intro hno bs i b hpre
      rcases prefix_concat_cases hpre with hpre | ⟨rfl, rfl⟩
      · exact hfits bs i b hpre
      · by_contra hle
        exact hno ⟨⟨i, b, rfl⟩, by omega⟩
    · rintro hall ⟨⟨i, b, rfl⟩, hle⟩
      have := hall as i b (prefix_refl _)
      omega

end Run

/-! ### Runs with a smaller budget -/

section Budget

variable {ι : Type*} [DecidableEq ι]

def OpPhase.used : OpPhase → Nat
  | .inOp used => used.length
  | _ => 0

def OpPhase.active : OpPhase → Prop
  | .inOp _ => True
  | _ => False

def OpPhase.busy : OpPhase → Prop
  | .committing | .committed => True
  | _ => False

/-- What the operation may still log. -/
def OpPhase.left (ph : OpPhase) : Nat := maxOpBlocks - 1 - ph.used

/-- For operations that log at most `MAXOPBLOCKS - 1` different blocks; `ops` are the processes in
one. -/
structure OpInv (ops : Finset ι) (s : OpState ι) : Prop where
  mem_ops : ∀ i, i ∈ ops ↔ (s.phase i).active
  outstanding : s.outstanding = ops.card
  reserved : ops.Nonempty → s.log.lh.n + ∑ i ∈ ops, (s.phase i).left ≤ logSize - 2
  logged : ∀ i used, s.phase i = .inOp used → ∀ b ∈ used, b ∈ s.log.lh.blocks
  -- while a commit runs, there is no operation, and one process runs it
  committing : s.committing = true → ops = ∅
  busy : s.committing = false → ∀ i, ¬ (s.phase i).busy
  busy_unique : ∀ i j, (s.phase i).busy → (s.phase j).busy → i = j
  -- without operations and commits, the header is empty
  empty : s.committing = false → ops = ∅ → s.log.lh.n = 0
  committed : ∀ i, s.phase i = .committed → s.log.lh.n = 0
  size : s.log.size = mkfsNlog
  panic : s.panic ≠ some tooBig

omit [DecidableEq ι] in
theorem opInv_initlog (block : Nat → BitVec 32) : OpInv (∅ : Finset ι) (initlog ι block) where
  mem_ops i := by simp [initlog, OpPhase.active]
  outstanding := rfl
  reserved h := absurd h Finset.not_nonempty_empty
  logged i used h := by simp [initlog] at h
  committing h := rfl
  busy _ i h := h
  busy_unique i _ h := absurd h (by simp [initlog, OpPhase.busy])
  empty _ _ := rfl
  committed _ _ := rfl
  size := rfl
  panic h := by simp [initlog] at h

variable {ops : Finset ι} {s s' : OpState ι}

variable {i : ι}

omit [DecidableEq ι] in

/-- There is room for the block that an operation logs. -/
theorem OpInv.n_le (h : OpInv ops s) (hi : (s.phase i).active) :
    s.log.lh.n ≤ logSize - 2 := by
  have := h.reserved ⟨i, (h.mem_ops i).mpr hi⟩
  omega

omit [DecidableEq ι] in
theorem OpInv.not_committing (h : OpInv ops s) (hi : (s.phase i).active) :
    s.committing = false := by
  cases hc : s.committing with
  | false => rfl
  | true =>
    have hm := (h.mem_ops i).mpr hi
    rw [h.committing hc] at hm
    exact absurd hm (Finset.notMem_empty i)

/-- A change of phase of process `i` keeps what the other operations have reserved. -/
theorem sum_left_update (hi : i ∉ ops) (ph : OpPhase) :
    ∑ j ∈ ops, (update s.phase i ph j).left = ∑ j ∈ ops, (s.phase j).left :=
  Finset.sum_congr rfl fun j hj => by
    rw [update_of_ne fun e : j = i => hi (e ▸ hj)]

/-- `begin_op` reserves room for a whole operation. -/
theorem OpInv.beginOp (h : OpInv ops s) (hstep : s.step (.beginOp i) = some s') :
    OpInv (insert i ops) s' := by
  obtain ⟨hidle, hcom, hroom, rfl⟩ := OpState.beginOp_cases hstep
  have hni : i ∉ ops := by
    rw [h.mem_ops i, hidle]
    exact id
  have hbusy : ∀ j, ¬ (update s.phase i (.inOp []) j).busy :=
    (forall_update_iff s.phase (p := fun _ ph => ¬ OpPhase.busy ph)).mpr
      ⟨id, fun j _ => h.busy hcom j⟩
  refine ⟨?_, ?_, ?_, ?_, ?_, fun _ => hbusy, fun j _ hj => absurd hj (hbusy j), ?_, ?_, h.size,
    h.panic⟩
  · refine (forall_update_iff s.phase
      (p := fun j ph => j ∈ insert i ops ↔ OpPhase.active ph)).mpr ⟨?_, fun j hj => ?_⟩
    · simp [OpPhase.active]
    · rw [Finset.mem_insert, ← h.mem_ops j]
      simp [hj]
  · show s.outstanding + 1 = _
    rw [Finset.card_insert_of_notMem hni, h.outstanding]
  · intro _
    show s.log.lh.n + ∑ j ∈ insert i ops, (update s.phase i (.inOp []) j).left ≤ _
    rw [Finset.sum_insert hni, sum_left_update hni, update_self]
    have hnew : (OpPhase.inOp []).left = 9 := rfl
    have hbound : ∑ j ∈ ops, (s.phase j).left ≤ ops.card * 9 :=
      Finset.sum_le_card_nsmul _ _ _ fun j _ => Nat.sub_le _ _
    rw [h.outstanding, show maxOpBlocks = 10 from rfl, show logSize = 30 from rfl] at hroom
    rw [hnew, show logSize = 30 from rfl]
    -- without other operations the log is empty; with another one the reservation has slack
    rcases ops.eq_empty_or_nonempty with he | hne
    · have hn := h.empty hcom he
      rw [he, Finset.card_empty] at hbound
      rw [he]
      omega
    · have := hne.card_pos
      omega
  · refine (forall_update_iff s.phase
      (p := fun _ ph => ∀ used, ph = .inOp used → ∀ b ∈ used, b ∈ s.log.lh.blocks)).mpr
      ⟨?_, fun j _ => h.logged j⟩
    rintro used hu b hb
    rw [← OpPhase.inOp.inj hu] at hb
    exact absurd hb not_mem_nil
  · intro hc
    rw [show s.committing = true from hc] at hcom
    cases hcom
  · intro _ he
    exact absurd he (Finset.insert_ne_empty i ops)
  · intro j hj
    have := hbusy j
    rw [show update s.phase i (.inOp []) j = .committed from hj] at this
    exact absurd trivial this

omit [DecidableEq ι] in

/-- `log_write` puts a block into the log, or finds it there. -/
theorem OpInv.logWrite_eq (h : OpInv ops s) (hi : (s.phase i).active) (b : BitVec 32) :
    ∃ lh : LogHeader, s.logWrite b = { s with log := { s.log with lh := lh } } ∧
      lh.blocks = if b ∈ s.log.lh.blocks then s.log.lh.blocks else s.log.lh.blocks ++ [b] := by
  have hn := h.n_le hi
  have hlog : logSize = 30 := rfl
  have hnlog : mkfsNlog = 30 := rfl
  have hfull : ¬ (s.log.lh.n ≥ logSize ∨ s.log.lh.n ≥ s.log.size - 1) := by
    rw [h.size]
    omega
  have hout : ¬ s.outstanding < 1 := by
    have := Finset.card_pos.mpr ⟨i, (h.mem_ops i).mpr hi⟩
    rw [h.outstanding]
    omega
  have hlt : s.log.lh.n < logSize := by omega
  refine ⟨s.log.lh.record b hlt, ?_, s.log.lh.blocks_record b hlt⟩
  unfold OpState.logWrite
  rw [dif_neg hfull, if_neg hout]

/-- Logging a block moves at most one block from what the operation has reserved to the header. -/
theorem OpInv.logWrite (h : OpInv ops s) {b : BitVec 32}
    (hbudget : WithinBudget (maxOpBlocks - 1) s (.logWrite i b))
    (hstep : s.step (.logWrite i b) = some s') : OpInv ops s' := by
  obtain ⟨used, hused, rfl⟩ := OpState.logWrite_cases hstep
  have hact : (s.phase i).active := by rw [hused]; trivial
  have hi : i ∈ ops := (h.mem_ops i).mpr hact
  have hcom := h.not_committing hact
  obtain ⟨lh, heq, hblocks⟩ := h.logWrite_eq hact b
  rw [heq]
  have hgrow : ∀ x ∈ s.log.lh.blocks, x ∈ lh.blocks := by
    intro x hx
    rw [hblocks]
    split_ifs
    · exact hx
    · exact mem_append_left _ hx
  have hb : b ∈ lh.blocks := by
    rw [hblocks]
    split_ifs with hb
    · exact hb
    · exact mem_append_right _ (mem_singleton.mpr rfl)
  have hbusy : ∀ j, ¬ (update s.phase i (.inOp (used.insert b)) j).busy :=
    (forall_update_iff s.phase (p := fun _ ph => ¬ OpPhase.busy ph)).mpr
      ⟨id, fun j _ => h.busy hcom j⟩
  refine ⟨?_, h.outstanding, ?_, ?_, h.committing, fun _ => hbusy,
    fun j _ hj => absurd hj (hbusy j), ?_, ?_, h.size, h.panic⟩
  · exact (forall_update_iff s.phase (p := fun j ph => j ∈ ops ↔ OpPhase.active ph)).mpr
      ⟨iff_of_true hi trivial, fun j _ => h.mem_ops j⟩
  · intro hne
    show lh.n + ∑ j ∈ ops, (update s.phase i (.inOp (used.insert b)) j).left ≤ _
    have hres := h.reserved hne
    have hle : (used.insert b).length ≤ maxOpBlocks - 1 := by
      have : (s.phase i).usedWith b ≤ maxOpBlocks - 1 := hbudget
      rwa [hused] at this
    rw [← Finset.add_sum_erase ops _ hi] at hres ⊢
    rw [sum_left_update (Finset.notMem_erase i ops), update_self]
    have hold : (s.phase i).left = maxOpBlocks - 1 - used.length := by rw [hused]; rfl
    have hnew : (OpPhase.inOp (used.insert b)).left = maxOpBlocks - 1 - (used.insert b).length :=
      rfl
    rw [hold] at hres
    rw [hnew, ← lh.length_blocks, hblocks]
    rw [← s.log.lh.length_blocks] at hres
    by_cases hbu : b ∈ used
    · -- absorbed: the block is in the header already
      rw [if_pos (h.logged i used hused b hbu), insert_of_mem hbu]
      exact hres
    rw [insert_of_not_mem hbu, length_cons] at hle ⊢
    have hlen : (if b ∈ s.log.lh.blocks then s.log.lh.blocks
        else s.log.lh.blocks ++ [b]).length ≤ s.log.lh.blocks.length + 1 := by
      split_ifs
      · omega
      · rw [length_append, length_singleton]
    omega
  · refine (forall_update_iff s.phase
      (p := fun _ ph => ∀ used, ph = .inOp used → ∀ b ∈ used, b ∈ lh.blocks)).mpr
      ⟨?_, fun j _ used' hu x hx => hgrow x (h.logged j used' hu x hx)⟩
    rintro used' hu x hx
    rw [← OpPhase.inOp.inj hu] at hx
    rcases mem_insert_iff.mp hx with rfl | hx
    · exact hb
    · exact hgrow x (h.logged i used hused x hx)
  · intro _ he
    rw [he] at hi
    exact absurd hi (Finset.notMem_empty i)
  · intro j hj
    have := hbusy j
    rw [show update s.phase i (.inOp (used.insert b)) j = .committed from hj] at this
    exact absurd trivial this

/-- `end_op` gives back what was not used. -/
theorem OpInv.endOp (h : OpInv ops s) (hstep : s.step (.endOp i) = some s') :
    OpInv (ops.erase i) s' := by
  obtain ⟨⟨used, hused⟩, rfl⟩ := OpState.endOp_cases hstep
  have hact : (s.phase i).active := by rw [hused]; trivial
  have hi : i ∈ ops := (h.mem_ops i).mpr hact
  have hcom := h.not_committing hact
  have hcard : s.outstanding - 1 = (ops.erase i).card := by
    rw [Finset.card_erase_of_mem hi, h.outstanding]
  -- what the remaining operations have reserved
  have hres : (ops.erase i).Nonempty → ∀ ph, s.log.lh.n +
      ∑ j ∈ ops.erase i, (update s.phase i ph j).left ≤ logSize - 2 := by
    intro _ ph
    have := h.reserved ⟨i, hi⟩
    rw [← Finset.add_sum_erase ops _ hi] at this
    rw [sum_left_update (Finset.notMem_erase i ops)]
    omega
  have hmem : ∀ ph : OpPhase, ¬ ph.active → ∀ j, j ∈ ops.erase i ↔
      (update s.phase i ph j).active := by
    intro ph hph
    refine (forall_update_iff s.phase
      (p := fun j ph => j ∈ ops.erase i ↔ OpPhase.active ph)).mpr ⟨by simp [hph], fun j hj => ?_⟩
    rw [Finset.mem_erase, ← h.mem_ops j]
    simp [hj]
  have hlogged : ∀ ph : OpPhase, ¬ ph.active → ∀ j used,
      update s.phase i ph j = .inOp used → ∀ b ∈ used, b ∈ s.log.lh.blocks := by
    intro ph hph
    refine (forall_update_iff s.phase
      (p := fun _ ph => ∀ used, ph = .inOp used → ∀ b ∈ used, b ∈ s.log.lh.blocks)).mpr
      ⟨fun used' hu => absurd (hu ▸ trivial) hph, fun j _ => h.logged j⟩
  unfold OpState.endOp
  rw [if_neg (by rw [hcom]; exact Bool.false_ne_true)]
  split_ifs with h0
  · -- the last operation: commit
    have hempty : ops.erase i = ∅ := Finset.card_eq_zero.mp (by rw [← hcard]; exact h0)
    refine ⟨hmem _ id, hcard, fun hne => hres hne _, hlogged _ id, fun _ => hempty,
      fun hc => (by cases hc), ?_, fun hc => (by cases hc), ?_, h.size, h.panic⟩
    · have hother : ∀ j, (update s.phase i .committing j).busy → j = i := by
        intro j hj
        by_contra hji
        rw [update_of_ne hji] at hj
        exact h.busy hcom j hj
      intro j k hj hk
      rw [hother j hj, hother k hk]
    · refine (forall_update_iff s.phase
        (p := fun _ ph => ph = .committed → s.log.lh.n = 0)).mpr
        ⟨fun hc => (by cases hc), fun j _ => h.committed j⟩
  · have hne : ops.erase i ≠ ∅ := fun he => h0 (by rw [hcard, he, Finset.card_empty])
    have hbusy : ∀ j, ¬ (update s.phase i .idle j).busy :=
      (forall_update_iff s.phase (p := fun _ ph => ¬ OpPhase.busy ph)).mpr
        ⟨id, fun j _ => h.busy hcom j⟩
    refine ⟨hmem _ id, hcard, fun hne => hres hne _, hlogged _ id,
      fun hc => (by rw [show s.committing = true from hc] at hcom; cases hcom), fun _ => hbusy,
      fun j _ hj => absurd hj (hbusy j), fun _ he => absurd he hne, ?_, h.size, h.panic⟩
    exact (forall_update_iff s.phase
      (p := fun _ ph => ph = .committed → s.log.lh.n = 0)).mpr
      ⟨fun hc => (by cases hc), fun j _ => h.committed j⟩

omit [DecidableEq ι] in
/-- The process that runs the commit is the only one, and no operation is under way. -/
theorem OpInv.of_busy (h : OpInv ops s) (hi : (s.phase i).busy) :
    s.committing = true ∧ ops = ∅ ∧ ∀ j, j ≠ i → ¬ (s.phase j).busy := by
  have hcom : s.committing = true := by
    cases hc : s.committing with
    | true => rfl
    | false => exact absurd hi (h.busy hc i)
  exact ⟨hcom, h.committing hcom, fun j hj hb => hj (h.busy_unique j i hb hi)⟩

theorem OpInv.commit (h : OpInv ops s) (hstep : s.step (.commit i) = some s') :
    OpInv ops s' := by
  obtain ⟨hi, rfl⟩ := OpState.commit_cases hstep
  obtain ⟨hcom, hops, hother⟩ := h.of_busy (i := i) (by rw [hi]; trivial)
  have hbusy : ∀ j, (update s.phase i .committed j).busy → j = i := by
    intro j hj
    by_contra hji
    rw [update_of_ne hji] at hj
    exact hother j hji hj
  refine ⟨?_, h.outstanding, fun hne => absurd hops hne.ne_empty, ?_, h.committing,
    fun hc => (by rw [show s.committing = false from hc] at hcom; cases hcom),
    fun j k hj hk => by rw [hbusy j hj, hbusy k hk], fun _ _ => rfl, fun _ _ => rfl, h.size,
    h.panic⟩
  · refine (forall_update_iff s.phase (p := fun j ph => j ∈ ops ↔ OpPhase.active ph)).mpr
      ⟨?_, fun j _ => h.mem_ops j⟩
    rw [hops]
    exact iff_of_false (Finset.notMem_empty i) id
  · intro j used hu
    have hno : ¬ (update s.phase i .committed j).active := by
      by_cases hji : j = i
      · rw [hji, update_self]; exact id
      · rw [update_of_ne hji, ← h.mem_ops j, hops]
        exact Finset.notMem_empty j
    exact absurd (by rw [show update s.phase i .committed j = .inOp used from hu]; trivial)
      hno

theorem OpInv.commitEnd (h : OpInv ops s) (hstep : s.step (.commitEnd i) = some s') :
    OpInv ops s' := by
  obtain ⟨hi, rfl⟩ := OpState.commitEnd_cases hstep
  obtain ⟨hcom, hops, hother⟩ := h.of_busy (i := i) (by rw [hi]; trivial)
  have hn := h.committed i hi
  have hbusy : ∀ j, ¬ (update s.phase i .idle j).busy :=
    (forall_update_iff s.phase (p := fun _ ph => ¬ OpPhase.busy ph)).mpr ⟨id, hother⟩
  refine ⟨?_, h.outstanding, fun hne => absurd hops hne.ne_empty, ?_, fun hc => (by cases hc),
    fun _ => hbusy, fun j _ hj => absurd hj (hbusy j), fun _ _ => hn, fun _ _ => hn, h.size,
    h.panic⟩
  · refine (forall_update_iff s.phase (p := fun j ph => j ∈ ops ↔ OpPhase.active ph)).mpr
      ⟨?_, fun j _ => h.mem_ops j⟩
    rw [hops]
    exact iff_of_false (Finset.notMem_empty i) id
  · exact (forall_update_iff s.phase
      (p := fun _ ph => ∀ used, ph = .inOp used → ∀ b ∈ used, b ∈ s.log.lh.blocks)).mpr
      ⟨fun used hu => (by cases hu), fun j _ => h.logged j⟩

/-- **Budget**: runs whose operations log at most `MAXOPBLOCKS - 1` different blocks never find
the log full. -/
theorem not_tooBig_of_budget (block : Nat → BitVec 32) (as : List (OpAct ι)) (s : OpState ι)
    (hbudget : (opMachine ι).Meets (WithinBudget (maxOpBlocks - 1)) (initlog ι block) as)
    (hrun : (opMachine ι).run (initlog ι block) as = some s) : s.panic ≠ some tooBig := by
  have hinv : ∃ ops, OpInv ops s := by
    refine (opMachine ι).invariant_of_meets (I := fun s => ∃ ops, OpInv ops s) ?_ as _ s
      ⟨∅, opInv_initlog block⟩ hbudget hrun
    rintro s a s' ⟨ops, h⟩ hok hstep
    obtain ⟨-, hstep⟩ := step_of_opMachine hstep
    cases a with
    | beginOp => exact ⟨_, h.beginOp hstep⟩
    | logWrite => exact ⟨_, h.logWrite hok hstep⟩
    | endOp => exact ⟨_, h.endOp hstep⟩
    | commit => exact ⟨_, h.commit hstep⟩
    | commitEnd => exact ⟨_, h.commitEnd hstep⟩
  obtain ⟨ops, h⟩ := hinv
  exact h.panic

end Budget

/-! ### The main theorem -/

/-- **Log space**: a run of any number of processes hits "too big a transaction" exactly when one
of its `log_write` calls comes after `LOGSIZE - 1` different blocks have been logged since the last
commit; operations that log at most `MAXOPBLOCKS - 1` different blocks never get there. -/
theorem logWrite_fits_iff {ι : Type*} [DecidableEq ι] (block : Nat → BitVec 32)
    (as : List (OpAct ι)) (s : OpState ι)
    (hrun : (opMachine ι).run (initlog ι block) as = some s) :
    (s.panic ≠ some tooBig ↔ TxFits as) ∧
      ((opMachine ι).Meets (WithinBudget (maxOpBlocks - 1)) (initlog ι block) as →
        s.panic ≠ some tooBig) :=
  ⟨tooBig_iff_not_txFits block as s hrun, fun h => not_tooBig_of_budget block as s h hrun⟩

def threeFullOps : List (OpAct (Fin 3)) :=
  [.beginOp 0, .beginOp 1, .beginOp 2] ++
    (List.range 30).map fun k => .logWrite (Fin.ofNat 3 (k / 10)) (BitVec.ofNat 32 (100 + k))

/-- The thirtieth block finds the log full, although every operation keeps to `MAXOPBLOCKS`. -/
theorem threeFullOps_tooBig :
    (opMachine (Fin 3)).Meets (WithinBudget maxOpBlocks) (initlog (Fin 3) fun _ => 0)
        threeFullOps ∧
      ((opMachine (Fin 3)).run (initlog (Fin 3) fun _ => 0) threeFullOps).map OpState.panic
        = some (some tooBig) := by
  constructor
  · decide +kernel
  · decide +kernel

def twoSmallOps : List (OpAct Nat) := [.beginOp 0, .beginOp 1, .logWrite 0 50, .logWrite 1 51]

theorem twoSmallOps_fits :
    ∃ s, (opMachine Nat).run (initlog Nat fun _ => 0) twoSmallOps = some s ∧
      s.panic ≠ some tooBig := by
  obtain ⟨s, hs⟩ : ∃ s, (opMachine Nat).run (initlog Nat fun _ => 0) twoSmallOps = some s :=
    Option.isSome_iff_exists.mp (by decide)
  exact ⟨s, hs, (logWrite_fits_iff _ twoSmallOps s hs).2 (by decide)⟩

end Xv6
