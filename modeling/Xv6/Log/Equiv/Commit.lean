import Xv6.Log.Commit

/-!
# Crash atomicity of the log

The copying loops are lists of writes, computed from the contents at their start (`foldl_copy_eq`).
A crash leaves a `Settled` or a `Committed` disk; recovery keeps the one and installs the other,
wherever it is cut.
-/

namespace Xv6

open Lib Function List Option

/-! ### Lists of writes through the cache -/

namespace Bio

def writeAll (s : Bio) (ws : List (Nat × Block)) : Bio := ws.foldl (fun s w => s.bwrite w.1 w.2) s

theorem bread_bwrite (s : Bio) (b : Nat) (data : Block) :
    (s.bwrite b data).bread = update s.bread b data := by
  funext x
  by_cases hx : x = b
  · simp only [hx, bread, bwrite, update_self, getD_some]
  · simp only [bread, bwrite, update_of_ne hx]

theorem writeAll_append (s : Bio) (ws vs : List (Nat × Block)) :
    s.writeAll (ws ++ vs) = (s.writeAll ws).writeAll vs :=
  foldl_append ..

theorem bread_writeAll (s : Bio) (ws : List (Nat × Block)) :
    (s.writeAll ws).bread = applyWrites ws s.bread := by
  induction ws generalizing s with
  | nil => rfl
  | cons w ws ih =>
    rw [applyWrites_cons, ← bread_bwrite]
    exact ih (s.bwrite w.1 w.2)

theorem disk_writeAll (s : Bio) (ws : List (Nat × Block)) :
    (s.writeAll ws).disk = applyWrites ws s.disk := by
  induction ws generalizing s with
  | nil => rfl
  | cons w ws ih => exact ih (s.bwrite w.1 w.2)

theorem written_writeAll (s : Bio) (ws : List (Nat × Block)) :
    (s.writeAll ws).written = s.written ++ ws := by
  induction ws generalizing s with
  | nil => exact (append_nil _).symm
  | cons w ws ih =>
    have h : (s.bwrite w.1 w.2).written = s.written ++ [w] := rfl
    rw [append_cons, ← h]
    exact ih (s.bwrite w.1 w.2)

/-- A loop that copies block `src i` to block `dst i`, where no source is also a target, is the
list of writes of the contents that the sources have at its start. -/
theorem foldl_copy_eq (dst src : Nat → Nat) :
    ∀ (l : List Nat) (s : Bio), (∀ i ∈ l, ∀ j ∈ l, src i ≠ dst j) →
      l.foldl (fun s i => s.bwrite (dst i) (s.bread (src i))) s
        = s.writeAll (l.map fun i => (dst i, s.bread (src i))) := by
  intro l
  induction l with
  | nil => intro s _; rfl
  | cons i l ih =>
    intro s hdisj
    rw [foldl_cons, ih _ (fun a ha b hb =>
      hdisj a (mem_cons_of_mem _ ha) b (mem_cons_of_mem _ hb)), map_cons]
    -- the first write leaves the remaining sources as they were
    have hsrc : (l.map fun j => (dst j, (s.bwrite (dst i) (s.bread (src i))).bread (src j)))
        = l.map fun j => (dst j, s.bread (src j)) := by
      refine map_congr_left fun j hj => ?_
      rw [bread_bwrite, update_of_ne
        (hdisj j (mem_cons_of_mem _ hj) i mem_cons_self)]
    rw [hsrc]
    rfl

end Bio

/-! ### The header block -/

namespace LogHeader

theorem count_store (lh : LogHeader) (hb : Block) : count (lh.store hb) = lh.n := by
  have hn : lh.n ≤ 30 := lh.n_le
  have hword : count (lh.store hb) = (BitVec.ofNat 32 lh.n).toInt.toNat := rfl
  rw [hword, BitVec.toInt_eq_toNat_of_lt, BitVec.toNat_ofNat, Nat.mod_eq_of_lt (by omega),
    Int.toNat_natCast]
  rw [BitVec.toNat_ofNat, Nat.mod_eq_of_lt (by omega)]
  omega

theorem store_word (lh : LogHeader) (hb : Block) {i : Nat} (hi : i < lh.n)
    (hw : i + 1 < bsize / 4) : lh.store hb ⟨i + 1, hw⟩ = lh.block i := by
  unfold store
  rw [if_neg (Nat.succ_ne_zero i), if_pos (by exact hi), Nat.add_sub_cancel]

end LogHeader

/-! ### `commit` and `recoverFromLog` as lists of writes -/

namespace Log

variable (log : Log)

/-- The block is not in the log area. -/
def Outside (b : Nat) : Prop := b < log.start ∨ log.start + log.size ≤ b

/-- The header fits the log area and names distinct blocks outside it. -/
structure Fits : Prop where
  /-- At most `log.size - 1` logged blocks: the header block takes the first place. -/
  room : log.lh.n < log.size
  /-- The logged blocks lie outside the log area. -/
  outside : ∀ i < log.lh.n, log.Outside (log.home i)
  /-- No block is logged twice. -/
  distinct : ∀ i < log.lh.n, ∀ j < log.lh.n, log.home i = log.home j → i = j

/-- The writes of `write_log`. -/
def logWrites (r : Disk) : List (Nat × Block) :=
  (List.range log.lh.n).map fun i => (log.start + i + 1, r (log.home i))

/-- The writes of `install_trans`. -/
def installWrites (r : Disk) : List (Nat × Block) :=
  (List.range log.lh.n).map fun i => (log.home i, r (log.home i))

def fullHead (r : Disk) : Block := log.lh.store (r log.start)

def emptyHead (r : Disk) : Block := log.lh.clear.store (log.fullHead r)

variable {log}

theorem Fits.outside_ne_log (h : log.Fits) {b i : Nat} (hb : log.Outside b) (hi : i < log.lh.n) :
    b ≠ log.start + i + 1 := by
  have := h.room
  rcases hb with hb | hb <;> omega

theorem Fits.outside_ne_start (h : log.Fits) (hn : 0 < log.lh.n) {b : Nat} (hb : log.Outside b) :
    b ≠ log.start := by
  have := h.room
  rcases hb with hb | hb <;> omega

theorem mem_logWrites {r : Disk} {w : Nat × Block} :
    w ∈ log.logWrites r ↔ ∃ i < log.lh.n, (log.start + i + 1, r (log.home i)) = w := by
  simp only [logWrites, List.mem_map, mem_range]

theorem mem_installWrites {r : Disk} {w : Nat × Block} :
    w ∈ log.installWrites r ↔ ∃ i < log.lh.n, (log.home i, r (log.home i)) = w := by
  simp only [installWrites, List.mem_map, mem_range]

theorem applyWrites_logWrites_log (r d : Disk) {i : Nat} (hi : i < log.lh.n) :
    applyWrites (log.logWrites r) d (log.start + i + 1) = r (log.home i) := by
  apply applyWrites_eq_of_mem
  · exact ⟨_, mem_logWrites.mpr ⟨i, hi, rfl⟩, rfl⟩
  · rintro w hw hwx
    obtain ⟨j, hj, rfl⟩ := mem_logWrites.mp hw
    have hij : j = i := by simp only at hwx; omega
    rw [hij]

theorem applyWrites_logWrites_of_ne (r d : Disk) {b : Nat}
    (hb : ∀ i < log.lh.n, b ≠ log.start + i + 1) : applyWrites (log.logWrites r) d b = d b := by
  apply applyWrites_of_not_mem
  rintro w hw
  obtain ⟨j, hj, rfl⟩ := mem_logWrites.mp hw
  exact (hb j hj).symm

theorem commit_eq_writeAll (h : log.Fits) (hn : 0 < log.lh.n) (s : Bio) :
    log.commit s = s.writeAll (log.logWrites s.bread ++ (log.start, log.fullHead s.bread) ::
      (log.installWrites s.bread ++ [(log.start, log.emptyHead s.bread)])) := by
  have hstart : ∀ i < log.lh.n, log.start ≠ log.start + i + 1 := fun i _ => by omega
  -- the contents that `bread` gives before the installation: the log blocks are in place
  have hlog := s.bread_writeAll (log.logWrites s.bread)
  have h1 : log.writeLog s = s.writeAll (log.logWrites s.bread) := by
    apply Bio.foldl_copy_eq
    intro i hi j hj
    exact h.outside_ne_log (h.outside i (mem_range.mp hi)) (mem_range.mp hj)
  have h2 : log.writeHead (s.writeAll (log.logWrites s.bread))
      = s.writeAll (log.logWrites s.bread ++ [(log.start, log.fullHead s.bread)]) := by
    rw [Bio.writeAll_append, writeHead, hlog, applyWrites_logWrites_of_ne _ _ hstart]
    rfl
  have hhead : (s.writeAll (log.logWrites s.bread ++ [(log.start, log.fullHead s.bread)])).bread
      = update (applyWrites (log.logWrites s.bread) s.bread) log.start
          (log.fullHead s.bread) := by
    rw [Bio.bread_writeAll, applyWrites_append]
    rfl
  have h3 : ∀ s' : Bio, s'.bread = update (applyWrites (log.logWrites s.bread) s.bread)
      log.start (log.fullHead s.bread) →
      log.installTrans s' = s'.writeAll (log.installWrites s.bread) := by
    intro s' hs'
    rw [installTrans, Bio.foldl_copy_eq]
    · congr 1
      refine map_congr_left fun i hi => ?_
      rw [hs', update_of_ne (by omega), applyWrites_logWrites_log _ _ (mem_range.mp hi)]
    · intro i hi j hj
      exact (h.outside_ne_log (h.outside j (mem_range.mp hj)) (mem_range.mp hi)).symm
  have hsplit : log.logWrites s.bread ++ (log.start, log.fullHead s.bread) ::
      (log.installWrites s.bread ++ [(log.start, log.emptyHead s.bread)])
      = (log.logWrites s.bread ++ [(log.start, log.fullHead s.bread)]) ++
        (log.installWrites s.bread ++ [(log.start, log.emptyHead s.bread)]) :=
    append_cons ..
  rw [commit, if_pos hn, hsplit, Bio.writeAll_append, Bio.writeAll_append]
  dsimp only
  rw [h1, h2, h3 _ hhead, writeHead, Bio.bread_writeAll, hhead, applyWrites_of_not_mem, update_self]
  · rfl
  · rintro w hw
    obtain ⟨i, hi, rfl⟩ := mem_installWrites.mp hw
    exact h.outside_ne_start hn (h.outside i hi)

def recoverWrites (log : Log) (d : Disk) : List (Nat × Block) :=
  (List.range log.lh.n).map (fun i => (log.home i, d (log.start + i + 1))) ++
    [(log.start, log.lh.clear.store (d log.start))]

theorem recoverFromLog_eq {start size : Nat} {d : Disk} {lh : LogHeader}
    (hload : LogHeader.load (d start) = some lh)
    (hsrc : ∀ i < lh.n, ∀ j < lh.n, start + i + 1 ≠ (lh.block j).toNat)
    (hstart : ∀ i < lh.n, (lh.block i).toNat ≠ start) :
    recoverFromLog start size (boot d)
      = some ((boot d).writeAll (recoverWrites ⟨start, size, lh⟩ d)) := by
  have hread : (boot d).bread = d := rfl
  have hinst : installTrans ⟨start, size, lh⟩ (boot d)
      = (boot d).writeAll ((List.range lh.n).map fun i =>
          ((lh.block i).toNat, d (start + i + 1))) := by
    rw [installTrans, Bio.foldl_copy_eq]
    · rfl
    · intro i hi j hj
      exact hsrc i (mem_range.mp hi) j (mem_range.mp hj)
  rw [recoverFromLog, readHead, hread, hload, map_some, map_some]
  dsimp only
  rw [hinst, writeHead, Bio.bread_writeAll, applyWrites_of_not_mem, recoverWrites,
    Bio.writeAll_append]
  · rfl
  · rintro w hw
    simp only [List.mem_map, mem_range] at hw
    obtain ⟨i, hi, rfl⟩ := hw
    exact hstart i hi

/-! ### Settled and committed disks -/

variable (log) in
/-- An empty header, and outside the log area the blocks of `base`. -/
structure Settled (base d : Disk) : Prop where
  /-- The header names no block. -/
  empty : LogHeader.count (d log.start) = 0
  /-- The blocks outside the log area. -/
  home : ∀ b, log.Outside b → d b = base b

variable (log) in
/-- The transaction is in the log, over the blocks of `base`; its blocks may or may not be
installed. -/
structure Committed (base r d : Disk) : Prop where
  /-- The header holds the number of logged blocks. -/
  count : LogHeader.count (d log.start) = log.lh.n
  /-- The header holds the numbers of the logged blocks. -/
  head : ∀ i < log.lh.n, ∀ hw : i + 1 < bsize / 4, d log.start ⟨i + 1, hw⟩ = log.lh.block i
  /-- The log blocks hold the contents of the logged blocks. -/
  blocks : ∀ i < log.lh.n, d (log.start + i + 1) = r (log.home i)
  /-- The blocks outside the log area that are not logged. -/
  home : ∀ b, log.Outside b → (∀ i < log.lh.n, log.home i ≠ b) → d b = base b

variable (log) in

/-- The disk with the logged blocks at their places. -/
def installed (base r : Disk) : Disk := fun b =>
  if ∃ i < log.lh.n, log.home i = b then r b else base b

theorem installed_eq_applyWrites (base r d : Disk) {b : Nat}
    (hd : (∀ i < log.lh.n, log.home i ≠ b) → d b = base b) :
    applyWrites (log.installWrites r) d b = log.installed base r b := by
  unfold installed
  split_ifs with h
  · obtain ⟨i, hi, rfl⟩ := h
    refine applyWrites_eq_of_mem ⟨_, mem_installWrites.mpr ⟨i, hi, rfl⟩, rfl⟩ ?_ d
    rintro w hw hwx
    obtain ⟨j, -, rfl⟩ := mem_installWrites.mp hw
    simp only at hwx ⊢
    rw [hwx]
  · have hne : ∀ i < log.lh.n, log.home i ≠ b := fun i hi hb => h ⟨i, hi, hb⟩
    rw [applyWrites_of_not_mem, hd hne]
    rintro w hw
    obtain ⟨j, hj, rfl⟩ := mem_installWrites.mp hw
    exact hne j hj

variable {base r d : Disk}

theorem Settled.recoverFromLog_eq (h : log.Settled base d) :
    ∃ hb : Block, LogHeader.count hb = 0 ∧
      recoverFromLog log.start log.size (boot d) = some ((boot d).writeAll [(log.start, hb)]) := by
  have hload : ∃ lh, LogHeader.load (d log.start) = some lh ∧ lh.n = 0 := by
    unfold LogHeader.load
    rw [dif_pos (by rw [h.empty]; exact Nat.zero_le _)]
    exact ⟨_, rfl, h.empty⟩
  obtain ⟨lh, hlh, hn⟩ := hload
  refine ⟨lh.clear.store (d log.start), LogHeader.count_store lh.clear _, ?_⟩
  rw [Log.recoverFromLog_eq hlh (fun i hi => by omega) (fun i hi => by omega), recoverWrites]
  simp only [hn, range_zero, map_nil, nil_append]

/-- Writing an empty header keeps a settled disk settled, when it writes nothing else. -/
theorem Settled.applyWrites_take (hsize : 0 < log.size) (h : log.Settled base d) {hb : Block}
    (hhb : LogHeader.count hb = 0) (k : Nat) :
    log.Settled base (applyWrites ([(log.start, hb)].take k) d) := by
  cases k with
  | zero => exact h
  | succ =>
    rw [take_succ_cons, take_nil, applyWrites_cons, applyWrites_nil]
    constructor
    · rw [update_self]; exact hhb
    · intro b hb
      have hne : b ≠ log.start := by rcases hb with hb | hb <;> omega
      rw [update_of_ne hne]
      exact h.home b hb

theorem Committed.recoverFromLog_eq (hf : log.Fits) (hn : 0 < log.lh.n)
    (h : log.Committed base r d) :
    ∃ hb : Block, LogHeader.count hb = 0 ∧
      recoverFromLog log.start log.size (boot d)
        = some ((boot d).writeAll (log.installWrites r ++ [(log.start, hb)])) := by
  have hle := log.lh.n_le
  have hword : ∀ i < log.lh.n, i + 1 < bsize / 4 := by
    intro i hi
    have : log.lh.n ≤ 30 := hle
    have : bsize / 4 = 256 := rfl
    omega
  -- the header read back names the same blocks
  have hload : ∃ lh, LogHeader.load (d log.start) = some lh ∧ lh.n = log.lh.n ∧
      ∀ i < log.lh.n, lh.block i = log.lh.block i := by
    unfold LogHeader.load
    rw [dif_pos (by rw [h.count]; exact hle)]
    refine ⟨_, rfl, h.count, fun i hi => ?_⟩
    simp only [dif_pos (hword i hi)]
    exact h.head i hi (hword i hi)
  obtain ⟨lh, hlh, hlhn, hblock⟩ := hload
  have hhome : ∀ i < log.lh.n, (lh.block i).toNat = log.home i := fun i hi => by
    rw [hblock i hi]; rfl
  refine ⟨lh.clear.store (d log.start), LogHeader.count_store lh.clear _, ?_⟩
  rw [Log.recoverFromLog_eq hlh, recoverWrites, installWrites]
  · simp only [hlhn]
    congr 3
    refine map_congr_left fun i hi => ?_
    have hi' := mem_range.mp hi
    rw [h.blocks i hi']
    exact congrArg₂ Prod.mk (hhome i hi') rfl
  · intro i hi j hj
    rw [hlhn] at hi hj
    rw [hhome j hj]
    exact (hf.outside_ne_log (hf.outside j hj) hi).symm
  · intro i hi
    rw [hlhn] at hi
    rw [hhome i hi]
    exact hf.outside_ne_start hn (hf.outside i hi)

/-- Installed blocks and an empty header settle the new disk. -/
theorem Committed.settled_installed (hf : log.Fits) (hn : 0 < log.lh.n)
    (h : log.Committed base r d) {hb : Block} (hhb : LogHeader.count hb = 0) :
    log.Settled (log.installed base r)
      (applyWrites (log.installWrites r ++ [(log.start, hb)]) d) := by
  rw [applyWrites_append, applyWrites_cons, applyWrites_nil]
  constructor
  · rw [update_self]; exact hhb
  · intro b hb
    rw [update_of_ne (hf.outside_ne_start hn hb), installed_eq_applyWrites base r d (h.home b hb)]

theorem Committed.applyWrites_install (hf : log.Fits) (hn : 0 < log.lh.n)
    (h : log.Committed base r d) (k : Nat) :
    log.Committed base r (applyWrites ((log.installWrites r).take k) d) := by
  have hkeep : ∀ b, (∀ i < log.lh.n, log.home i ≠ b) →
      applyWrites ((log.installWrites r).take k) d b = d b := by
    intro b hb
    apply applyWrites_of_not_mem
    rintro w hw
    obtain ⟨i, hi, rfl⟩ := mem_installWrites.mp (mem_of_mem_take hw)
    exact hb i hi
  have hstart := hkeep log.start fun i hi => hf.outside_ne_start hn (hf.outside i hi)
  constructor
  · rw [hstart]; exact h.count
  · rw [hstart]; exact h.head
  · intro i hi
    rw [hkeep _ fun j hj => hf.outside_ne_log (hf.outside j hj) hi]
    exact h.blocks i hi
  · intro b hb hne
    rw [hkeep b hne]
    exact h.home b hb hne

/-- Wherever the installation and the clearing of the header are cut, the disk is still committed
or already settled with the new contents. -/
theorem Committed.applyWrites_take (hf : log.Fits) (hn : 0 < log.lh.n)
    (h : log.Committed base r d) {hb : Block} (hhb : LogHeader.count hb = 0) (k : Nat) :
    log.Committed base r (applyWrites ((log.installWrites r ++ [(log.start, hb)]).take k) d) ∨
      log.Settled (log.installed base r)
        (applyWrites ((log.installWrites r ++ [(log.start, hb)]).take k) d) := by
  by_cases hk : k ≤ (log.installWrites r).length
  · left
    rw [take_append_of_le_length hk]
    exact h.applyWrites_install hf hn k
  · right
    rw [take_of_length_le (by rw [length_append, length_singleton]; omega)]
    exact h.settled_installed hf hn hhb

/-! ### Recovery -/

theorem Settled.recoverAfter (hsize : 0 < log.size) {base : Disk} :
    ∀ (cuts : List Nat) (d : Disk), log.Settled base d →
      ∃ d', Log.recoverAfter log.start log.size d cuts = some d' ∧ log.Settled base d' := by
  intro cuts
  induction cuts with
  | nil =>
    intro d h
    obtain ⟨hb, hhb, heq⟩ := h.recoverFromLog_eq
    refine ⟨_, by rw [Log.recoverAfter, recoverFully, heq, map_some], ?_⟩
    rw [Bio.disk_writeAll]
    exact h.applyWrites_take hsize hhb 1
  | cons k cuts ih =>
    intro d h
    obtain ⟨hb, hhb, heq⟩ := h.recoverFromLog_eq
    rw [Log.recoverAfter, recoverCut, heq, map_some, bind_some, Bio.written_writeAll]
    exact ih _ (h.applyWrites_take hsize hhb k)

theorem Committed.recoverAfter (hf : log.Fits) {base r : Disk} (hn : 0 < log.lh.n) :
    ∀ (cuts : List Nat) (d : Disk), log.Committed base r d →
      ∃ d', Log.recoverAfter log.start log.size d cuts = some d' ∧
        log.Settled (log.installed base r) d' := by
  have hsize : 0 < log.size := Nat.zero_lt_of_lt hf.room
  intro cuts
  induction cuts with
  | nil =>
    intro d h
    obtain ⟨hb, hhb, heq⟩ := h.recoverFromLog_eq hf hn
    refine ⟨_, by rw [Log.recoverAfter, recoverFully, heq, map_some], ?_⟩
    rw [Bio.disk_writeAll]
    exact h.settled_installed hf hn hhb
  | cons k cuts ih =>
    intro d h
    obtain ⟨hb, hhb, heq⟩ := h.recoverFromLog_eq hf hn
    rw [Log.recoverAfter, recoverCut, heq, map_some, bind_some, Bio.written_writeAll]
    rcases h.applyWrites_take hf hn hhb k with h' | h'
    · exact ih _ h'
    · exact h'.recoverAfter hsize cuts _

/-! ### The main theorem -/

theorem Settled.applyWrites_logWrites (hf : log.Fits) (h : log.Settled base d) (r : Disk)
    (k : Nat) : log.Settled base (applyWrites ((log.logWrites r).take k) d) := by
  have hkeep : ∀ b, (∀ i < log.lh.n, b ≠ log.start + i + 1) →
      applyWrites ((log.logWrites r).take k) d b = d b := by
    intro b hb
    apply applyWrites_of_not_mem
    rintro w hw
    obtain ⟨i, hi, rfl⟩ := mem_logWrites.mp (mem_of_mem_take hw)
    exact (hb i hi).symm
  constructor
  · rw [hkeep log.start fun i _ => by omega]; exact h.empty
  · intro b hb
    rw [hkeep b fun i hi => hf.outside_ne_log hb hi]
    exact h.home b hb

theorem committed_of_fullHead (hf : log.Fits) (hn : 0 < log.lh.n) (r d : Disk) :
    log.Committed d r
      (update (applyWrites (log.logWrites r) d) log.start (log.fullHead r)) := by
  constructor
  · rw [update_self]; exact LogHeader.count_store log.lh _
  · intro i hi hw
    rw [update_self]
    exact LogHeader.store_word log.lh _ hi hw
  · intro i hi
    rw [update_of_ne (by omega), applyWrites_logWrites_log r d hi]
  · intro b hb _
    rw [update_of_ne (hf.outside_ne_start hn hb),
      applyWrites_logWrites_of_ne r d fun i hi => hf.outside_ne_log hb hi]

/-- A commit that stops has done the first of its writes. -/
theorem crashCommit_eq (hf : log.Fits) (hn : 0 < log.lh.n) (s : Bio) (k : Nat) :
    crashCommit log s k = applyWrites ((log.logWrites s.bread ++ (log.start, log.fullHead s.bread) ::
      (log.installWrites s.bread ++ [(log.start, log.emptyHead s.bread)])).take k) s.disk := by
  have hwritten : (log.commit { s with written := [] }).written
      = log.logWrites s.bread ++ (log.start, log.fullHead s.bread) ::
          (log.installWrites s.bread ++ [(log.start, log.emptyHead s.bread)]) := by
    rw [commit_eq_writeAll hf hn, Bio.written_writeAll]
    rfl
  rw [crashCommit, hwritten]

theorem length_logWrites (r : Disk) : (log.logWrites r).length = log.lh.n := by
  rw [logWrites, length_map, length_range]

/-- A crash before the header has been written: the old disk. -/
theorem recoverAfter_before (hf : log.Fits) (hn : 0 < log.lh.n) (s : Bio)
    (hempty : LogHeader.count (s.disk log.start) = 0) {k : Nat} (hk : k ≤ log.lh.n)
    (cuts : List Nat) :
    ∃ d, recoverAfter log.start log.size (crashCommit log s k) cuts = some d ∧
      ∀ b, log.Outside b → d b = s.disk b := by
  have hset : log.Settled s.disk s.disk := ⟨hempty, fun _ _ => rfl⟩
  rw [crashCommit_eq hf hn, take_append_of_le_length (by rw [length_logWrites]; exact hk)]
  obtain ⟨d, hd, hsd⟩ := (hset.applyWrites_logWrites hf s.bread k).recoverAfter
    (Nat.zero_lt_of_lt hf.room) cuts
  exact ⟨d, hd, hsd.home⟩

/-- A crash after the header has been written: the new disk. -/
theorem recoverAfter_after (hf : log.Fits) (hn : 0 < log.lh.n) (s : Bio) {k : Nat}
    (hk : log.lh.n < k) (cuts : List Nat) :
    ∃ d, recoverAfter log.start log.size (crashCommit log s k) cuts = some d ∧
      ∀ b, log.Outside b → d b = log.installed s.disk s.bread b := by
  obtain ⟨j, rfl⟩ : ∃ j, k = log.lh.n + (j + 1) := ⟨k - log.lh.n - 1, by omega⟩
  have hlen : (log.logWrites s.bread).length = log.lh.n := length_logWrites s.bread
  rw [crashCommit_eq hf hn, ← hlen, take_length_add_append, take_succ_cons,
    applyWrites_append, applyWrites_cons]
  have hcom := committed_of_fullHead hf hn s.bread s.disk
  have hhb : LogHeader.count (log.emptyHead s.bread) = 0 := LogHeader.count_store log.lh.clear _
  rcases hcom.applyWrites_take hf hn hhb j with h | h
  · obtain ⟨d, hd, hsd⟩ := h.recoverAfter hf hn cuts _
    exact ⟨d, hd, hsd.home⟩
  · obtain ⟨d, hd, hsd⟩ := h.recoverAfter (Nat.zero_lt_of_lt hf.room) cuts _
    exact ⟨d, hd, hsd.home⟩

/-- **Crash atomicity**: the machine stops after any `k` disk writes of `commit` on a disk with an
empty header, and boots into recoveries cut short after the numbers of writes in `cuts` before one
that runs to its end.  The blocks outside the log area are then all as before the commit, or all as
after it; they are as after it once the header with the transaction is among the `k` writes. -/
theorem commit_crash_atomic (log : Log) (s : Bio) (hf : log.Fits)
    (hempty : LogHeader.count (s.disk log.start) = 0) (k : Nat) (cuts : List Nat) :
    ∃ d, recoverAfter log.start log.size (crashCommit log s k) cuts = some d ∧
      ((∀ b, log.Outside b → d b = s.disk b) ∨
        (∀ b, log.Outside b → d b = log.installed s.disk s.bread b)) ∧
      (0 < log.lh.n → log.lh.n < k → ∀ b, log.Outside b →
        d b = log.installed s.disk s.bread b) := by
  rcases Nat.eq_zero_or_pos log.lh.n with hn | hn
  · -- an empty transaction writes nothing
    have hset : log.Settled s.disk s.disk := ⟨hempty, fun _ _ => rfl⟩
    have hcrash : crashCommit log s k = s.disk := by
      rw [crashCommit, commit, if_neg (by omega), take_nil, applyWrites_nil]
    obtain ⟨d, hd, hsd⟩ := hset.recoverAfter (Nat.zero_lt_of_lt hf.room) cuts
    exact ⟨d, by rw [hcrash, hd], Or.inl hsd.home, fun h => by omega⟩
  by_cases hk : k ≤ log.lh.n
  · obtain ⟨d, hd, hold⟩ := recoverAfter_before hf hn s hempty hk cuts
    exact ⟨d, hd, Or.inl hold, fun _ hlt => by omega⟩
  · obtain ⟨d, hd, hnew⟩ := recoverAfter_after hf hn s (Nat.lt_of_not_le hk) cuts
    exact ⟨d, hd, Or.inr hnew, fun _ _ => hnew⟩

/-- Blocks 46 and 47, on the log area of `mkfs`. -/
def twoBlockLog : Log := ⟨2, logSize, ⟨2, fun i => if i = 0 then 46 else 47, by decide⟩⟩

/-- An empty disk, with the logged blocks in the cache. -/
def twoBlockBio : Bio :=
  ⟨fun _ _ => 0,
    fun b => if b = 46 then some fun _ => 7 else if b = 47 then some fun _ => 9 else none, []⟩

theorem twoBlockLog_fits : twoBlockLog.Fits where
  room := by decide
  outside i hi := by
    have hi : i < 2 := hi
    obtain rfl | rfl : i = 0 ∨ i = 1 := by omega
    all_goals exact Or.inr (by decide)
  distinct i hi j hj h := by
    have hi : i < 2 := hi
    have hj : j < 2 := hj
    obtain rfl | rfl : i = 0 ∨ i = 1 := by omega
    all_goals obtain rfl | rfl : j = 0 ∨ j = 1 := by omega
    all_goals first | rfl | exact absurd h (by decide)

/-- Stopped after the header write, and again after one write of the first recovery: both blocks are
new. -/
theorem commit_crash_atomic_twoBlocks :
    ∃ d, recoverAfter 2 logSize (crashCommit twoBlockLog twoBlockBio 3) [1] = some d ∧
      (d 46 = fun _ => 7) ∧ d 47 = fun _ => 9 := by
  obtain ⟨d, hd, -, hnew⟩ := commit_crash_atomic twoBlockLog twoBlockBio twoBlockLog_fits
    (by decide) 3 [1]
  refine ⟨d, hd, ?_, ?_⟩
  · rw [hnew (by decide) (by decide) 46 (Or.inr (by decide))]
    rfl
  · rw [hnew (by decide) (by decide) 47 (Or.inr (by decide))]
    rfl

/-! ### Histories -/

/-- A recovery that runs to its end leaves an empty header. -/
theorem recoverAfter_empty {start size : Nat} {cuts : List Nat} {d d' : Disk}
    (h : recoverAfter start size d cuts = some d') : LogHeader.count (d' start) = 0 := by
  induction cuts generalizing d with
  | nil =>
    obtain ⟨s, hs, rfl⟩ := map_eq_some_iff.mp h
    obtain ⟨log, hlog, rfl⟩ := map_eq_some_iff.mp hs
    obtain ⟨lh, -, rfl⟩ := map_eq_some_iff.mp hlog
    simp only [writeHead, Bio.bwrite, update_self]
    exact LogHeader.count_store lh.clear _
  | cons k cuts ih =>
    obtain ⟨d₁, -, h₁⟩ := bind_eq_some_iff.mp h
    exact ih h₁

/-- One event takes effect as a whole or not at all, and leaves an empty header. -/
theorem Event.run_settled {start size : Nat} {e : Event} {d : Disk}
    (hf : Fits ⟨start, size, e.lh⟩) (hempty : LogHeader.count (d start) = 0) :
    ∃ d', e.run start size d = some d' ∧ Settled ⟨start, size, e.lh⟩ (e.apply d) d' := by
  have hlasts : (e.crash.all fun c => e.lh.n < c.1) = true →
      e.apply d = installed ⟨start, size, e.lh⟩ d (Bio.bread ⟨d, e.cache, []⟩) := by
    intro hl
    funext b
    simp only [Event.apply, hl, true_and]
    rfl
  rw [Event.run]
  rcases Nat.eq_zero_or_pos e.lh.n with hn | hn
  · -- an empty transaction writes nothing
    have hcommit : ∀ s, commit ⟨start, size, e.lh⟩ s = s := fun s => if_neg (by simp only; omega)
    have hset : Settled ⟨start, size, e.lh⟩ (e.apply d) d :=
      ⟨hempty, fun b _ => (if_neg (by rintro ⟨-, i, hi, -⟩; omega)).symm⟩
    cases e.crash with
    | none => exact ⟨d, congrArg (fun s : Bio => some s.disk) (hcommit _), hset⟩
    | some c =>
      simp only [crashCommit, hcommit, take_nil, applyWrites_nil]
      exact hset.recoverAfter (Nat.zero_lt_of_lt hf.room) c.2 d
  cases hc : e.crash with
  | none =>
    refine ⟨_, rfl, ?_⟩
    rw [hlasts (by rw [hc]; rfl), commit_eq_writeAll hf hn, Bio.disk_writeAll,
      applyWrites_append, applyWrites_cons]
    exact (committed_of_fullHead hf hn _ d).settled_installed hf hn
      (LogHeader.count_store e.lh.clear _)
  | some c =>
    by_cases hk : c.1 ≤ e.lh.n
    · obtain ⟨d', hd', hold⟩ := recoverAfter_before hf hn ⟨d, e.cache, []⟩ hempty hk c.2
      refine ⟨d', hd', recoverAfter_empty hd', fun b hb => (hold b hb).trans (if_neg ?_).symm⟩
      simp [hc, hk]
    · obtain ⟨d', hd', hnew⟩ := recoverAfter_after hf hn ⟨d, e.cache, []⟩ (Nat.lt_of_not_le hk) c.2
      rw [hlasts (by simp [hc]; omega)]
      exact ⟨d', hd', recoverAfter_empty hd', hnew⟩

/-- **Histories are atomic**: the machine may stop in any of the transactions, and in the recoveries
that follow, after any number of disk writes.  Outside the log area, each transaction whose header
was written has replaced its blocks at once, and the others have changed nothing. -/
theorem history_atomic (start size : Nat) (es : List Event) (d : Disk)
    (hempty : LogHeader.count (d start) = 0) (hfits : ∀ e ∈ es, Fits ⟨start, size, e.lh⟩) :
    ∃ d', es.foldlM (Event.run start size) d = some d' ∧
      ∀ b, b < start ∨ start + size ≤ b → d' b = es.foldl Event.apply d b := by
  -- the induction carries the disk that the transactions are meant to give
  suffices hrun : ∀ a : Disk, (∀ b, b < start ∨ start + size ≤ b → d b = a b) →
      ∃ d', es.foldlM (Event.run start size) d = some d' ∧
        ∀ b, b < start ∨ start + size ≤ b → d' b = es.foldl Event.apply a b from
    hrun d fun _ _ => rfl
  induction es generalizing d with
  | nil => exact fun a ha => ⟨d, rfl, ha⟩
  | cons e es ih =>
    intro a ha
    obtain ⟨d₁, hd₁, hset⟩ := Event.run_settled (hfits e mem_cons_self) hempty
    obtain ⟨d', hd', hhome⟩ := ih d₁ hset.empty (fun e' he' => hfits e' (mem_cons_of_mem e he'))
      (e.apply a) fun b hb => by rw [hset.home b hb, Event.apply, Event.apply, ha b hb]
    exact ⟨d', by rw [foldlM_cons, hd₁]; exact hd', hhome⟩

/-- Block 46, on the log area of `mkfs`. -/
def oneBlockLog : Log := ⟨2, logSize, ⟨1, fun _ => 46, by decide⟩⟩

/-- Block 46 gets 7 in a transaction cut after its header, and 8 in one cut before. -/
theorem twoEvents_atomic : ∃ d', ([⟨oneBlockLog.lh, fun _ => some fun _ => 7, some (2, [1])⟩,
    ⟨oneBlockLog.lh, fun _ => some fun _ => 8, some (1, [])⟩] : List Event).foldlM
      (Event.run 2 logSize) (fun _ _ => 0) = some d' ∧ d' 46 = fun _ => 7 := by
  have hfits : Fits ⟨2, logSize, oneBlockLog.lh⟩ :=
    ⟨by decide, fun _ _ => Or.inr (show 2 + logSize ≤ 46 by decide), fun i hi j hj _ =>
      (Nat.lt_one_iff.mp hi).trans (Nat.lt_one_iff.mp hj).symm⟩
  refine Exists.imp (fun d' h => ⟨h.1, (h.2 46 (Or.inr (by decide))).trans rfl⟩)
    (history_atomic 2 logSize _ (fun _ _ => 0) (by decide)
      (forall_mem_cons.mpr ⟨hfits, forall_mem_singleton.mpr hfits⟩))

end Log

end Xv6
