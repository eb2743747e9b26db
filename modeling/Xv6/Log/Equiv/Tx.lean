import Xv6.Log.Equiv.Commit
import Xv6.Log.Equiv.Op
import Xv6.Log.Tx

/-!
# Transactions are never split

`log.outstanding` counts the processes between `begin_op` and `end_op` (`TxInv.ops`), so the one
that sets `log.committing` is the last (`TxInv.quiet`), and none is admitted until it clears it. A
commit makes the writes of `Log.commit` one by one (`Progress`).
-/

namespace Xv6.Tx

open Lib List

/-! ### Rules -/

/-- The lines of a process, as rules. -/
inductive Line.Step (d : Data) : Line → LockOp Unit → Line → Data → Prop where
  | beginOp : Step d .idle .none .begin d
  | begin : Step d .begin (.acquire ()) .beginTest d
  | enters (h : d.admits = true) :
      Step d .beginTest .none .beginLeave { d with outstanding := d.outstanding + 1 }
  | wait : Step d .beginTest .none .beginSleep d
  | beginSleep : Step d .beginSleep (.release ()) .begin d
  | beginLeave : Step d .beginLeave (.release ()) (.op []) d
  | modify (used : List (BitVec 32)) (b : BitVec 32) (data : Block) :
      Step d (.op used) .none (.op used) (d.modify b data)
  | logWrite (used : List (BitVec 32)) (b : BitVec 32) : Step d (.op used) .none (.logLock used b) d
  | logLock (used : List (BitVec 32)) (b : BitVec 32) :
      Step d (.logLock used b) (.acquire ()) (.logSet used b) d
  | logSet (used : List (BitVec 32)) (b : BitVec 32) (h : d.log.lh.n < logSize)
      (hsize : d.log.lh.n < d.log.size - 1) :
      Step d (.logSet used b) .none (.logUnlock (used.insert b))
        { d with log := { d.log with lh := d.log.lh.record b h } }
  | logUnlock (used : List (BitVec 32)) : Step d (.logUnlock used) (.release ()) (.op used) d
  | endOp (used : List (BitVec 32)) : Step d (.op used) .none (.endLock used) d
  | endLock (used : List (BitVec 32)) : Step d (.endLock used) (.acquire ()) (.endSet used) d
  | endLast (used : List (BitVec 32)) (hc : d.committing = false) (h : d.outstanding - 1 = 0) :
      Step d (.endSet used) .none (.endUnlock true)
        { d with
          outstanding := d.outstanding - 1
          committing := true
          ended := used ++ d.ended }
  | endSet (used : List (BitVec 32)) (hc : d.committing = false) (h : d.outstanding - 1 ≠ 0) :
      Step d (.endSet used) .none (.endUnlock false)
        { d with
          outstanding := d.outstanding - 1
          ended := used ++ d.ended }
  | endUnlock : Step d (.endUnlock false) (.release ()) .idle d
  | endUnlockLast : Step d (.endUnlock true) (.release ()) .commit d
  | commit (h : 0 < d.log.lh.n) : Step d .commit .none (.writeLog 0) d.startCommit
  | commitEmpty (h : d.log.lh.n = 0) : Step d .commit .none .doneLock d.startCommit
  | writeLog (tail : Nat) (h : tail < d.log.lh.n) :
      Step d (.writeLog tail) .none (.writeLog (tail + 1)) (d.writeLog tail)
  | writeLogEnd (tail : Nat) (h : d.log.lh.n ≤ tail) : Step d (.writeLog tail) .none .writeHead d
  | writeHead : Step d .writeHead .none (.install 0) d.writeHead
  | install (tail : Nat) (h : tail < d.log.lh.n) :
      Step d (.install tail) .none (.install (tail + 1)) (d.install tail)
  | installEnd (tail : Nat) (h : d.log.lh.n ≤ tail) : Step d (.install tail) .none .clear d
  | clear : Step d .clear .none .writeClear d.clear
  | writeClear : Step d .writeClear .none .doneLock d.writeHead
  | doneLock : Step d .doneLock (.acquire ()) .doneSet d
  | doneSet : Step d .doneSet .none .doneUnlock { d with committing := false }
  | doneUnlock : Step d .doneUnlock (.release ()) .idle d

variable {ch : Choice} {l : Line}

theorem Line.instr_step {d d' : Data} {l l' : Line} {op : LockOp Unit}
    (h : l.instr d ch = some (op, l', d')) : Line.Step d l op l' d' := by
  unfold Line.instr at h
  split at h
  case h_3 =>
    split_ifs at h with hadmits <;> cases h
    · exact .enters hadmits
    · exact .wait
  case h_9 used b =>
    obtain ⟨d₁, hd, heq⟩ := Option.map_eq_some_iff.mp h
    cases heq
    unfold Data.logWrite at hd
    split_ifs at hd with hfull hout
    cases hd
    rw [not_or] at hfull
    exact .logSet used b (Nat.not_le.mp hfull.1) (Nat.not_le.mp hfull.2)
  case h_13 used =>
    obtain ⟨⟨doCommit, d₁⟩, hd, heq⟩ := Option.map_eq_some_iff.mp h
    cases heq
    unfold Data.endOp at hd
    split_ifs at hd with hc hlast <;> cases hd
    · exact .endLast used (by simpa using hc) hlast
    · exact .endSet used (by simpa using hc) hlast
  case h_14 doCommit =>
    cases h
    cases doCommit with
    | false => exact .endUnlock
    | true => exact .endUnlockLast
  case h_15 =>
    cases h
    split_ifs with hn
    · exact .commit hn
    · exact .commitEmpty (Nat.eq_zero_of_not_pos hn)
  case h_16 tail =>
    split_ifs at h with htail <;> cases h
    · exact .writeLog tail htail
    · exact .writeLogEnd tail (Nat.not_lt.mp htail)
  case h_18 tail =>
    split_ifs at h with htail <;> cases h
    · exact .install tail htail
    · exact .installEnd tail (Nat.not_lt.mp htail)
  case h_24 => cases h
  all_goals
    cases h
    constructor

/-! ### The invariant -/

/-- The lines at which `commit` writes to the disk. -/
def Line.flushes : Line → Bool
  | .writeLog _ | .writeHead | .install _ | .clear | .writeClear => true
  | _ => false

/-- The lines of `commit` behind its commit point. -/
def Line.committed : Line → Bool
  | .install _ | .clear | .writeClear => true
  | _ => false

/-- The blocks that the operation of a process has logged. -/
def Line.used : Line → List (BitVec 32)
  | .op used | .logLock used _ | .logSet used _ | .logUnlock used | .endLock used
  | .endSet used => used
  | _ => []

/-- How far a commit has come: it has made the first writes of `Log.commit`. -/
def Progress (d : Data) : Line → Prop
  | .writeLog tail =>
    d.log = d.tx.log ∧ tail ≤ d.tx.log.lh.n ∧
      d.bio = (List.range tail).foldl (fun s tail =>
        s.bwrite (d.tx.log.start + tail + 1) (s.bread (d.tx.log.home tail))) d.tx.bio
  | .writeHead => d.log = d.tx.log ∧ d.bio = d.tx.log.writeLog d.tx.bio
  | .install tail =>
    d.log = d.tx.log ∧ tail ≤ d.tx.log.lh.n ∧
      d.bio = (List.range tail).foldl (fun s tail =>
        s.bwrite (d.tx.log.home tail) (s.bread (d.tx.log.start + tail + 1)))
          (d.tx.log.writeHead (d.tx.log.writeLog d.tx.bio))
  | .clear =>
    d.log = d.tx.log ∧
      d.bio = d.tx.log.installTrans (d.tx.log.writeHead (d.tx.log.writeLog d.tx.bio))
  | .writeClear =>
    d.log = { d.tx.log with lh := d.tx.log.lh.clear } ∧
      d.bio = d.tx.log.installTrans (d.tx.log.writeHead (d.tx.log.writeLog d.tx.bio))
  | _ => True

/-- A commit that is writing to the disk. -/
structure Flushing (d : Data) (l : Line) : Prop where
  ended : d.ended = []
  progress : Progress d l
  pos : 0 < d.tx.log.lh.n
  room : d.tx.log.lh.n < d.tx.log.size
  nodup : d.tx.log.lh.blocks.Nodup
  head : LogHeader.count (d.tx.bio.disk d.tx.log.start) = 0
  written : d.tx.bio.written = []

theorem Flushing.go {d d' : Data} {l l' : Line} (h : Flushing d l) (hended : d'.ended = d.ended)
    (htx : d'.tx = d.tx) (hprogress : Progress d' l') : Flushing d' l' :=
  ⟨hended.trans h.ended, hprogress, htx ▸ h.pos, htx ▸ h.room, htx ▸ h.nodup, htx ▸ h.head,
    htx ▸ h.written⟩

variable {κ : Type}

/-- No commit is writing to the disk. -/
def Unflushed (s : State κ) : Prop := ∀ c, (s.loc c).flushes = false

/-- The invariant of all transactions. -/
structure TxInv (s : State κ) : Prop where
  ops : ∃ ops : Finset κ, (∀ c, c ∈ ops ↔ (s.loc c).active = true) ∧ s.data.outstanding = ops.card
  zero : s.data.committing = true → s.data.outstanding = 0
  busy : ∀ c, (s.loc c).commits = true → s.data.committing = true
  one : ∀ c c', (s.loc c).commits = true → (s.loc c').commits = true → c = c'
  nodup : s.data.log.lh.blocks.Nodup
  room : s.data.log.lh.n = 0 ∨ s.data.log.lh.n < s.data.log.size
  blocks : Unflushed s → ∀ b, b ∈ s.data.log.lh.blocks ↔ b ∈ s.data.ended ∨ ∃ c, b ∈ (s.loc c).used
  head : Unflushed s → LogHeader.count (s.data.bio.disk s.data.log.start) = 0
  flush : ∀ c, (s.loc c).flushes = true → Flushing s.data (s.loc c)

structure Stepped (s s' : State κ) (c : κ) (op : LockOp Unit) : Prop where
  instr : Line.Step s.data (s.loc c) op (s'.loc c) s'.data
  others : ∀ c', c' ≠ c → s'.loc c' = s.loc c'

theorem stepped [DecidableEq κ] {s s' : State κ} {c : κ}
    (h : txCode.machine.step s (c, ch) = some s') : ∃ op, Stepped s s' c op := by
  obtain ⟨op, l, d, owner, hinstr, -, rfl⟩ := SpinCode.step_eq_some h
  refine ⟨op, ?_, fun c' hc => Function.update_of_ne hc _ _⟩
  dsimp only
  rw [Function.update_self]
  exact Line.instr_step hinstr

theorem commits_of_flushes (h : l.flushes = true) : l.commits = true := by
  cases l <;> first | rfl | cases h

theorem Line.active_of_used {b : BitVec 32} (h : b ∈ l.used) : l.active = true := by
  cases l <;> first | rfl | cases h

/-- While a commit is in progress, a process outside of operations changes nothing. -/
theorem Line.Step.still {d d' : Data} {l l' : Line} {op : LockOp Unit} (h : Line.Step d l op l' d')
    (hc : d.committing = true) (hactive : l.active = false) (hcommits : l.commits = false) :
    d' = d ∧ l'.active = false ∧ l'.commits = false := by
  cases h with
  | enters hadmits =>
    have hfalse := (of_decide_eq_true hadmits).1
    exact nomatch hfalse.symm.trans hc
  | beginOp | begin | wait | beginSleep | endUnlock | doneUnlock => exact ⟨rfl, rfl, rfl⟩
  | beginLeave | modify | logWrite | logLock | logSet | logUnlock | endOp | endLock | endLast
  | endSet => cases hactive
  | _ => cases hcommits

namespace TxInv

variable {s s' : State κ} {c : κ} {op : LockOp Unit}

/-- While a commit runs, nobody is in an operation. -/
theorem quiet (h : TxInv s) (hc : s.data.committing = true) (c : κ) :
    (s.loc c).active = false := by
  obtain ⟨ops, hops, hcard⟩ := h.ops
  have hzero : (ops.card : Int) = 0 := by rw [← hcard, h.zero hc]
  have hempty : ops = ∅ := by
    rw [← Finset.card_eq_zero]
    omega
  have hmem : c ∉ ops := by
    rw [hempty]
    exact Finset.notMem_empty c
  rw [hops c] at hmem
  simpa using hmem

section Step

variable (h : TxInv s) (hs : Stepped s s' c op)

include h hs

theorem still (hc : s.data.committing = true) (hcommits : (s.loc c).commits = false) :
    s'.data = s.data ∧ (s'.loc c).active = false ∧ (s'.loc c).commits = false :=
  hs.instr.still hc (h.quiet hc c) hcommits

/-- While another process commits, a step leaves the log alone. -/
theorem still_of_ne {c' : κ} (hne : c' ≠ c) (hcommits : (s.loc c').commits = true) :
    s'.data = s.data := by
  refine (h.still hs (h.busy c' hcommits) ?_).1
  by_contra htrue
  exact hne (h.one c' c hcommits (by simpa using htrue))

theorem step_zero (hc : s'.data.committing = true) : s'.data.outstanding = 0 := by
  have hinstr := hs.instr
  have hzero := h.zero
  generalize s'.data = d' at hinstr hc ⊢
  generalize s.loc c = l at hinstr
  generalize s'.loc c = l' at hinstr
  cases hinstr with
  | enters hadmits =>
    have hfalse := (of_decide_eq_true hadmits).1
    exact nomatch hfalse.symm.trans hc
  | endLast used hcommitting hlast => exact hlast
  | endSet used hcommitting => exact nomatch hcommitting.symm.trans hc
  | doneSet => cases hc
  | _ => exact hzero hc

theorem step_busy (c' : κ) (hcommits : (s'.loc c').commits = true) :
    s'.data.committing = true := by
  by_cases hc : c' = c
  · rw [hc] at hcommits
    have hinstr := hs.instr
    have hbusy := h.busy c
    generalize s'.data = d' at hinstr ⊢
    generalize s.loc c = l at hinstr hbusy
    generalize s'.loc c = l' at hinstr hcommits
    cases hinstr with
    | endLast => rfl
    | endUnlockLast | commit | commitEmpty | writeLog | writeLogEnd | writeHead | install
    | installEnd | clear | writeClear | doneLock => exact hbusy rfl
    | _ => cases hcommits
  · rw [hs.others c' hc] at hcommits
    rw [h.still_of_ne hs hc hcommits]
    exact h.busy c' hcommits

omit h in
/-- A process commits because it did, or because its operation was the last one. -/
theorem commits_back (hcommits : (s'.loc c).commits = true) :
    (s.loc c).commits = true ∨ s.data.committing = false := by
  have hinstr := hs.instr
  generalize s'.data = d' at hinstr
  generalize s.loc c = l at hinstr ⊢
  generalize s'.loc c = l' at hinstr hcommits
  cases hinstr with
  | endLast used hcommitting => exact .inr hcommitting
  | endUnlockLast | commit | commitEmpty | writeLog | writeLogEnd | writeHead | install
  | installEnd | clear | writeClear | doneLock => exact .inl rfl
  | _ => cases hcommits

/-- One process commits at a time. -/
theorem step_one (c₁ c₂ : κ) (h₁ : (s'.loc c₁).commits = true) (h₂ : (s'.loc c₂).commits = true) :
    c₁ = c₂ := by
  refine unique_step (Q := fun l => l.commits = true) hs.others h.one (fun c' hne hc hc' => ?_)
    c₁ c₂ h₁ h₂
  -- another process that commits excludes the last operation
  obtain hc | hfalse := commits_back hs hc
  · exact hne (h.one c' c hc' hc)
  · rw [h.busy c' hc'] at hfalse
    cases hfalse

/-- `log.outstanding` counts the operations. -/
theorem step_ops [DecidableEq κ] : ∃ ops : Finset κ, (∀ c', c' ∈ ops ↔ (s'.loc c').active = true) ∧
    s'.data.outstanding = ops.card := by
  obtain ⟨ops, hops, hcard⟩ := h.ops
  -- a step after which `c` is in an operation if and only if it was before
  have hsame : (s'.loc c).active = (s.loc c).active →
      s'.data.outstanding = s.data.outstanding → ∃ ops : Finset κ,
        (∀ c', c' ∈ ops ↔ (s'.loc c').active = true) ∧ s'.data.outstanding = ops.card := by
    intro hactive hout
    refine ⟨ops, fun c' => ?_, by rw [hout, hcard]⟩
    by_cases hc : c' = c
    · rw [hc, hops, hactive]
    · rw [hops, hs.others c' hc]
  have hmem := hops c
  have hinstr := hs.instr
  generalize hd : s'.data = d' at hinstr hsame ⊢
  generalize hl : s.loc c = l at hinstr hsame hmem
  generalize hl' : s'.loc c = l' at hinstr hsame
  cases hinstr with
  | enters =>
    have hnot : c ∉ ops := fun hin => nomatch hmem.mp hin
    refine ⟨insert c ops, fun c' => ?_, ?_⟩
    · by_cases hc : c' = c
      · rw [hc, hl']
        exact iff_of_true (Finset.mem_insert_self c ops) rfl
      · rw [Finset.mem_insert, hs.others c' hc, hops]
        exact or_iff_right hc
    · rw [Finset.card_insert_of_notMem hnot]
      dsimp only
      omega
  | endLast used hcommitting hlast | endSet used hcommitting hlast =>
    have hin : c ∈ ops := hmem.mpr rfl
    have hpos := Finset.card_pos.mpr ⟨c, hin⟩
    refine ⟨ops.erase c, fun c' => ?_, ?_⟩
    · by_cases hc : c' = c
      · rw [hc, hl']
        exact iff_of_false (Finset.notMem_erase c ops) nofun
      · rw [Finset.mem_erase, hs.others c' hc, hops]
        exact and_iff_right hc
    · rw [Finset.card_erase_of_mem hin]
      dsimp only
      omega
  | _ => exact hsame rfl rfl

/-- No block is in the log twice. -/
theorem step_nodup : s'.data.log.lh.blocks.Nodup := by
  have hinstr := hs.instr
  generalize s'.data = d' at hinstr ⊢
  generalize s.loc c = l at hinstr
  generalize s'.loc c = l' at hinstr
  cases hinstr with
  | logSet used b =>
    rw [LogHeader.blocks_record]
    split_ifs with hb
    · exact h.nodup
    · exact List.Nodup.append h.nodup (nodup_singleton b) (by simpa using hb)
  | clear => exact nodup_nil
  | _ => exact h.nodup

theorem step_room : s'.data.log.lh.n = 0 ∨ s'.data.log.lh.n < s'.data.log.size := by
  have hinstr := hs.instr
  generalize s'.data = d' at hinstr ⊢
  generalize s.loc c = l at hinstr
  generalize s'.loc c = l' at hinstr
  cases hinstr with
  | logSet =>
    right
    simp only [LogHeader.record]
    split_ifs <;> omega
  | clear => exact .inl rfl
  | _ => exact h.room

omit h hs in
theorem used_split (s : State κ) (c : κ) (b : BitVec 32) :
    (∃ c', b ∈ (s.loc c').used) ↔ b ∈ (s.loc c).used ∨ ∃ c', c' ≠ c ∧ b ∈ (s.loc c').used := by
  constructor
  · rintro ⟨c', hb⟩
    by_cases hc : c' = c
    · rw [hc] at hb
      exact .inl hb
    · exact .inr ⟨c', hc, hb⟩
  · rintro (hb | ⟨c', -, hb⟩)
    · exact ⟨c, hb⟩
    · exact ⟨c', hb⟩

omit h in
theorem used_iff (b : BitVec 32) :
    (∃ c', b ∈ (s'.loc c').used) ↔ b ∈ (s'.loc c).used ∨ ∃ c', c' ≠ c ∧ b ∈ (s.loc c').used := by
  rw [used_split s' c]
  refine or_congr_right (exists_congr fun c' => and_congr_right fun hc => ?_)
  rw [hs.others c' hc]

omit hs in
theorem not_used (hc : s.data.committing = true) (b : BitVec 32) : ¬ ∃ c, b ∈ (s.loc c).used := by
  rintro ⟨c, hb⟩
  exact nomatch (h.quiet hc c).symm.trans (Line.active_of_used hb)

omit hs in
theorem unflushed_of_commits (hcommits : (s.loc c).commits = true)
    (hc : (s.loc c).flushes = false) : Unflushed s := by
  intro c'
  by_contra htrue
  have hflush : (s.loc c').flushes = true := by simpa using htrue
  obtain rfl := h.one c' c (commits_of_flushes hflush) hcommits
  exact nomatch hc.symm.trans hflush

omit h in
theorem unflushed_back (hflush : Unflushed s') (hc : (s.loc c).flushes = false) : Unflushed s := by
  intro c'
  by_cases hne : c' = c
  · rwa [hne]
  · rw [← hs.others c' hne]
    exact hflush c'

/-- The log has the blocks of the operations since the last commit. -/
theorem step_blocks (hflush : Unflushed s') (b : BitVec 32) :
    b ∈ s'.data.log.lh.blocks ↔ b ∈ s'.data.ended ∨ ∃ c', b ∈ (s'.loc c').used := by
  have hback := unflushed_back hs hflush
  have hiff := h.blocks
  have hnot := h.not_used
  have hc := hflush c
  have hbusy := h.busy c
  have hflushing := h.flush c
  rw [used_iff hs b]
  simp only [used_split s c] at hiff hnot
  have hinstr := hs.instr
  generalize s'.data = d' at hinstr ⊢
  generalize s.loc c = l at hinstr hiff hnot hback hbusy hflushing
  generalize s'.loc c = l' at hinstr hc ⊢
  -- after a commit nothing is logged
  have hempty : ∀ lh : LogHeader, lh.n = 0 → l.commits = true → l'.used = [] →
      (b ∈ lh.blocks ↔ b ∈ ([] : List (BitVec 32)) ∨ b ∈ l'.used ∨
        ∃ c', c' ≠ c ∧ b ∈ (s.loc c').used) := by
    intro lh hn hcommits hused
    refine iff_of_false ?_ ?_
    · simp [LogHeader.blocks, hn]
    · rw [hused]
      rintro (hb | hb | hb)
      · cases hb
      · cases hb
      · exact hnot (hbusy hcommits) b (.inr hb)
  cases hinstr with
  | logSet used b₀ hn =>
    have hold := hiff (hback rfl) b
    have hrecord : b ∈ (s.data.log.lh.record b₀ hn).blocks ↔ b ∈ s.data.log.lh.blocks ∨ b = b₀ := by
      rw [LogHeader.blocks_record]
      split_ifs with hb₀
      · refine (or_iff_left_of_imp ?_).symm
        rintro rfl
        exact hb₀
      · simp
    simp only [Line.used] at hold ⊢
    rw [hrecord, hold, mem_insert_iff, or_comm, or_left_comm, or_assoc]
  | endLast used hcommitting hlast | endSet used hcommitting hlast =>
    have hold := hiff (hback rfl) b
    simp only [Line.used, not_mem_nil, false_or] at hold ⊢
    rw [hold, mem_append, or_assoc, or_left_comm]
  | commitEmpty hn => exact hempty _ hn rfl rfl
  | writeClear =>
    have hf := hflushing rfl
    simp only [Data.writeHead, hf.ended]
    refine hempty _ ?_ rfl rfl
    rw [hf.progress.1]
    rfl
  | commit | writeLog | writeLogEnd | writeHead | install | installEnd | clear => cases hc
  | _ => exact hiff (hback rfl) b

/-- The header on disk is empty between two commits. -/
theorem step_head (hflush : Unflushed s') :
    LogHeader.count (s'.data.bio.disk s'.data.log.start) = 0 := by
  have hback := unflushed_back hs hflush
  have hhead := h.head
  have hc := hflush c
  have hflushing := h.flush c
  have hinstr := hs.instr
  generalize s'.data = d' at hinstr ⊢
  generalize s.loc c = l at hinstr hback hflushing
  generalize s'.loc c = l' at hinstr hc
  cases hinstr with
  | writeClear =>
    -- the cleared header has been written
    have hlog := (hflushing rfl).progress.1
    simp only [Data.writeHead, Log.writeHead, Bio.bwrite, Function.update_self,
      LogHeader.count_store]
    rw [hlog]
    rfl
  | commit | writeLog | writeLogEnd | writeHead | install | installEnd | clear => cases hc
  | _ => exact hhead (hback rfl)

/-- The loops of `write_log` and `install_trans`, one block further. -/
theorem step_flush_self (hc : (s'.loc c).flushes = true) : Flushing s'.data (s'.loc c) := by
  have hflushing := h.flush c
  have hinstr := hs.instr
  generalize s'.data = d' at hinstr ⊢
  generalize hl : s.loc c = l at hinstr hflushing
  generalize s'.loc c = l' at hinstr hc ⊢
  cases hinstr with
  | commit hn =>
    have hunflushed := h.unflushed_of_commits (c := c) (by rw [hl]; rfl) (by rw [hl]; rfl)
    exact ⟨rfl, ⟨rfl, Nat.zero_le _, rfl⟩, hn, h.room.resolve_left hn.ne', h.nodup,
      h.head hunflushed, rfl⟩
  | writeLog tail htail =>
    obtain ⟨hlog, hle, hbio⟩ := (hflushing rfl).progress
    refine (hflushing rfl).go rfl rfl ⟨hlog, ?_, ?_⟩
    · rw [hlog] at htail
      exact htail
    · simp only [Data.writeLog, range_succ, foldl_append, foldl_cons,
        foldl_nil]
      rw [← hbio, hlog]
  | writeLogEnd tail htail | installEnd tail htail =>
    obtain ⟨hlog, hle, hbio⟩ := (hflushing rfl).progress
    refine (hflushing rfl).go rfl rfl ⟨hlog, ?_⟩
    rw [hlog] at htail
    rw [hbio, le_antisymm hle htail]
    rfl
  | writeHead =>
    obtain ⟨hlog, hbio⟩ := (hflushing rfl).progress
    refine (hflushing rfl).go rfl rfl ⟨hlog, Nat.zero_le _, ?_⟩
    simp only [Data.writeHead]
    rw [hbio, hlog]
    rfl
  | install tail htail =>
    obtain ⟨hlog, hle, hbio⟩ := (hflushing rfl).progress
    refine (hflushing rfl).go rfl rfl ⟨hlog, ?_, ?_⟩
    · rw [hlog] at htail
      exact htail
    · simp only [Data.install, range_succ, foldl_append, foldl_cons,
        foldl_nil]
      rw [← hbio, hlog]
  | clear =>
    obtain ⟨hlog, hbio⟩ := (hflushing rfl).progress
    refine (hflushing rfl).go rfl rfl ⟨?_, hbio⟩
    simp only [Data.clear]
    rw [hlog]
  | _ => cases hc

/-- What the committing process has written so far. -/
theorem step_flush (c' : κ) (hc' : (s'.loc c').flushes = true) :
    Flushing s'.data (s'.loc c') := by
  by_cases hc : c' = c
  · rw [hc] at hc' ⊢
    exact h.step_flush_self hs hc'
  · rw [hs.others c' hc] at hc' ⊢
    rw [h.still_of_ne hs hc (commits_of_flushes hc')]
    exact h.flush c' hc'

theorem step [DecidableEq κ] : TxInv s' where
  ops := h.step_ops hs
  zero := h.step_zero hs
  busy := h.step_busy hs
  one := h.step_one hs
  nodup := h.step_nodup hs
  room := h.step_room hs
  blocks := h.step_blocks hs
  head := h.step_head hs
  flush := h.step_flush hs

end Step

end TxInv

/-! ### Runs -/

variable [DecidableEq κ] {s s' : State κ} {c : κ} {op : LockOp Unit}

omit [DecidableEq κ] in
theorem Start.txInv (h : Start s) : TxInv s where
  ops := ⟨∅, fun c => by rw [h.loc c]; exact iff_of_false (Finset.notMem_empty c) nofun,
    by rw [h.outstanding]; rfl⟩
  zero _ := h.outstanding
  busy c hc := by
    rw [h.loc c] at hc
    cases hc
  one c c' hc := by
    rw [h.loc c] at hc
    cases hc
  nodup := by simp [LogHeader.blocks, h.n]
  room := .inl h.n
  blocks _ b := by simp [LogHeader.blocks, h.n, h.ended, h.loc, Line.used]
  head _ := h.head
  flush c hc := by
    rw [h.loc c] at hc
    cases hc

theorem TxInv.txOk (h : TxInv s) : TxOk s where
  quiet hc := ⟨h.zero hc, h.quiet hc⟩
  still hc c ch s' hstep hcommits := by
    obtain ⟨op, hs⟩ := stepped hstep
    rw [(h.still hs hc hcommits).1]
    exact ⟨rfl, rfl⟩
  one := h.one
  nodup := h.nodup
  whole c hl b := by
    have hcommits : (s.loc c).commits = true := by rw [hl]; rfl
    have hunflushed : Unflushed s := h.unflushed_of_commits hcommits (by rw [hl]; rfl)
    rw [h.blocks hunflushed b]
    exact or_iff_left (h.not_used (h.busy c hcommits) b)

/-! ### Crashes -/

/-- `log_write` is called for blocks outside of the log area. -/
def Home (s : State κ) (a : κ × Choice) : Prop :=
  match s.loc a.1 with
  | .logSet _ b => s.data.log.Outside b.toNat
  | _ => True

instance (s : State κ) (a : κ × Choice) : Decidable (Home s a) := by
  unfold Home Log.Outside
  split <;> infer_instance

/-- **Crashes**: after a crash in a commit and any number of recoveries cut short the blocks hold
what they held when it started, or all that was logged; behind the commit point the latter. -/
def CrashOk (s : State κ) : Prop :=
  ∀ c, (s.loc c).flushes = true → ∀ cuts, ∃ d,
    Log.recoverAfter s.data.tx.log.start s.data.tx.log.size s.data.bio.disk cuts = some d ∧
      ((s.loc c).committed = false ∧ (∀ b, s.data.tx.log.Outside b → d b = s.data.tx.bio.disk b) ∨
        ∀ b, s.data.tx.log.Outside b →
          d b = s.data.tx.log.installed s.data.tx.bio.disk s.data.tx.bio.bread b)

/-- The disk writes between two states. -/
structure Wrote (s t : Bio) (ws : List (Nat × Block)) : Prop where
  written : t.written = s.written ++ ws
  disk : t.disk = applyWrites ws s.disk

namespace Wrote

variable {s t u : Bio} {ws vs : List (Nat × Block)}

theorem refl (s : Bio) : Wrote s s [] := ⟨(append_nil _).symm, rfl⟩

theorem trans (h₁ : Wrote s t ws) (h₂ : Wrote t u vs) : Wrote s u (ws ++ vs) where
  written := by rw [h₂.written, h₁.written, append_assoc]
  disk := by rw [h₂.disk, h₁.disk, applyWrites_append]

theorem bwrite (s : Bio) (b : Nat) (data : Block) : Wrote s (s.bwrite b data) [(b, data)] :=
  ⟨rfl, rfl⟩

theorem foldl (f : Bio → Nat → Nat) (g : Bio → Nat → Block) (l : List Nat) (s : Bio) :
    ∃ ws, ws.length = l.length ∧ Wrote s (l.foldl (fun s i => s.bwrite (f s i) (g s i)) s) ws := by
  induction l generalizing s with
  | nil => exact ⟨[], rfl, refl s⟩
  | cons i l ih =>
    obtain ⟨ws, hlen, hws⟩ := ih (s.bwrite (f s i) (g s i))
    refine ⟨(f s i, g s i) :: ws, by rw [length_cons, hlen, length_cons], ?_⟩
    exact (bwrite s (f s i) (g s i)).trans hws

/-- Such a loop, from round `k` to its end. -/
theorem foldl_range (f : Bio → Nat → Nat) (g : Bio → Nat → Block) {k n : Nat} (hk : k ≤ n)
    (s : Bio) : ∃ ws, Wrote ((List.range k).foldl (fun s i => s.bwrite (f s i) (g s i)) s)
      ((List.range n).foldl (fun s i => s.bwrite (f s i) (g s i)) s) ws := by
  obtain ⟨m, rfl⟩ := Nat.exists_eq_add_of_le hk
  rw [range_add, foldl_append]
  obtain ⟨ws, -, hws⟩ := foldl f g ((List.range m).map (k + ·)) _
  exact ⟨ws, hws⟩

theorem writeLog (log : Log) (s : Bio) :
    ∃ ws, ws.length = log.lh.n ∧ Wrote s (log.writeLog s) ws := by
  obtain ⟨ws, hlen, hws⟩ := foldl (fun _ tail => log.start + tail + 1)
    (fun s tail => s.bread (log.home tail)) (List.range log.lh.n) s
  exact ⟨ws, hlen.trans length_range, hws⟩

theorem writeHead (log : Log) (s : Bio) : ∃ w, Wrote s (log.writeHead s) [w] := ⟨_, bwrite _ _ _⟩

theorem installTrans (log : Log) (s : Bio) : ∃ ws, Wrote s (log.installTrans s) ws := by
  obtain ⟨ws, -, hws⟩ := foldl (fun _ tail => log.home tail)
    (fun s tail => s.bread (log.start + tail + 1)) (List.range log.lh.n) s
  exact ⟨ws, hws⟩

end Wrote

/-- A crash in the middle leaves the first writes. -/
theorem Wrote.crash {log : Log} {s t : Bio} {ws vs : List (Nat × Block)} (hempty : s.written = [])
    (h₁ : Wrote s t ws) (h₂ : Wrote t (log.commit s) vs) :
    t.disk = log.crashCommit s ws.length := by
  have hs : { s with written := [] } = s := by
    cases s
    simp only at hempty
    rw [hempty]
  rw [Log.crashCommit, hs, (h₁.trans h₂).written, hempty, nil_append, take_left, h₁.disk]

/-- A commit that is writing to the disk has made the first `k` of its writes. -/
theorem Flushing.crash {d : Data} (h : Flushing d l) (hl : l.flushes = true) :
    ∃ k, d.bio.disk = d.tx.log.crashCommit d.tx.bio k ∧
      (l.committed = true → d.tx.log.lh.n < k) := by
  have hprogress := h.progress
  have hcommit : d.tx.log.commit d.tx.bio = Log.writeHead { d.tx.log with lh := d.tx.log.lh.clear }
      (d.tx.log.installTrans (d.tx.log.writeHead (d.tx.log.writeLog d.tx.bio))) := by
    rw [Log.commit, if_pos h.pos]
  -- the four parts of `commit`
  obtain ⟨ws₁, hlen₁, h₁⟩ := Wrote.writeLog d.tx.log d.tx.bio
  obtain ⟨w₂, h₂⟩ := Wrote.writeHead d.tx.log (d.tx.log.writeLog d.tx.bio)
  obtain ⟨ws₃, h₃⟩ := Wrote.installTrans d.tx.log (d.tx.log.writeHead (d.tx.log.writeLog d.tx.bio))
  obtain ⟨w₄, h₄⟩ := Wrote.writeHead { d.tx.log with lh := d.tx.log.lh.clear }
    (d.tx.log.installTrans (d.tx.log.writeHead (d.tx.log.writeLog d.tx.bio)))
  rw [← hcommit] at h₄
  -- behind the commit point at least `log.lh.n` blocks and the header have been written
  have hlt : ∀ ws : List (Nat × Block), d.tx.log.lh.n < (ws₁ ++ ([w₂] ++ ws)).length := by
    intro ws
    rw [length_append, length_append, hlen₁, length_singleton]
    omega
  cases l with
  | writeLog tail =>
    obtain ⟨-, hle, hbio⟩ := hprogress
    obtain ⟨ws, -, hws⟩ := Wrote.foldl _ _ (List.range tail) d.tx.bio
    obtain ⟨vs, hvs⟩ := Wrote.foldl_range _ _ hle d.tx.bio
    rw [← hbio] at hws hvs
    exact ⟨_, hws.crash h.written (hvs.trans (h₂.trans (h₃.trans h₄))), fun h => by cases h⟩
  | writeHead =>
    obtain ⟨-, hbio⟩ := hprogress
    rw [hbio]
    exact ⟨_, h₁.crash h.written (h₂.trans (h₃.trans h₄)), fun h => by cases h⟩
  | install tail =>
    obtain ⟨-, hle, hbio⟩ := hprogress
    obtain ⟨ws, -, hws⟩ := Wrote.foldl _ _ (List.range tail)
      (d.tx.log.writeHead (d.tx.log.writeLog d.tx.bio))
    obtain ⟨vs, hvs⟩ := Wrote.foldl_range _ _ hle
      (d.tx.log.writeHead (d.tx.log.writeLog d.tx.bio))
    rw [← hbio] at hws hvs
    exact ⟨_, (h₁.trans (h₂.trans hws)).crash h.written (hvs.trans h₄), fun _ => hlt ws⟩
  | clear | writeClear =>
    obtain ⟨-, hbio⟩ := hprogress
    rw [← hbio] at h₃ h₄
    exact ⟨_, (h₁.trans (h₂.trans h₃)).crash h.written h₄, fun _ => hlt ws₃⟩
  | _ => cases hl

/-- All logged blocks are outside of the log area. -/
structure HomeInv (s : State κ) : Prop where
  log : ∀ b ∈ s.data.log.lh.blocks, s.data.log.Outside b.toNat
  tx : ∀ c, (s.loc c).flushes = true → ∀ b ∈ s.data.tx.log.lh.blocks, s.data.tx.log.Outside b.toNat

omit [DecidableEq κ] in

/-- One step keeps this, if the operation logs such a block. -/
theorem HomeInv.step (h : HomeInv s) (hinv : TxInv s) (hs : Stepped s s' c op)
    (hok : Home s (c, ch)) : HomeInv s' := by
  constructor
  · have hinstr := hs.instr
    have hlog := h.log
    simp only [Home] at hok
    generalize s'.data = d' at hinstr ⊢
    generalize s.loc c = l at hinstr hok
    generalize s'.loc c = l' at hinstr
    cases hinstr with
    | logSet =>
      intro b hb
      rw [LogHeader.blocks_record] at hb
      split_ifs at hb with hb₀
      · exact hlog b hb
      · obtain hb | hb := mem_append.mp hb
        · exact hlog b hb
        · obtain rfl := mem_singleton.mp hb
          exact hok
    | clear =>
      intro b hb
      cases hb
    | _ => exact hlog
  · intro c' hc'
    by_cases hc : c' = c
    · rw [hc] at hc'
      have hinstr := hs.instr
      have hlog := h.log
      have htx := h.tx c
      generalize s'.data = d' at hinstr ⊢
      generalize s.loc c = l at hinstr htx
      generalize s'.loc c = l' at hinstr hc'
      cases hinstr with
      | commit => exact hlog
      | writeLog | writeLogEnd | writeHead | install | installEnd | clear => exact htx rfl
      | _ => cases hc'
    · rw [hs.others c' hc] at hc'
      rw [hinv.still_of_ne hs hc (commits_of_flushes hc')]
      exact h.tx c' hc'

theorem Flushing.fits {d : Data} (h : Flushing d l)
    (hhome : ∀ b ∈ d.tx.log.lh.blocks, d.tx.log.Outside b.toNat) : d.tx.log.Fits where
  room := h.room
  outside i hi := hhome _ (mem_map.mpr ⟨i, mem_range.mpr hi, rfl⟩)
  distinct _ hi _ hj heq :=
    inj_on_of_nodup_map h.nodup (mem_range.mpr hi) (mem_range.mpr hj)
      (BitVec.eq_of_toNat_eq heq)

omit [DecidableEq κ] in
theorem Start.homeInv (h : Start s) : HomeInv s where
  log b hb := by simp [LogHeader.blocks, h.n] at hb
  tx c hc := by
    rw [h.loc c] at hc
    cases hc

omit [DecidableEq κ] in

/-- With both invariants, a crash at any time is repaired. -/
theorem HomeInv.crashOk (h : HomeInv s) (hinv : TxInv s) : CrashOk s := by
  intro c hc cuts
  have hflush := hinv.flush c hc
  have hfits := hflush.fits (h.tx c hc)
  obtain ⟨k, hdisk, hcommitted⟩ := hflush.crash hc
  rw [hdisk]
  by_cases hk : k ≤ s.data.tx.log.lh.n
  · obtain ⟨d, hd, hold⟩ := Log.recoverAfter_before hfits hflush.pos _ hflush.head hk cuts
    refine ⟨d, hd, .inl ⟨?_, hold⟩⟩
    by_contra htrue
    have hlt := hcommitted (by simpa using htrue)
    omega
  · obtain ⟨d, hd, hnew⟩ := Log.recoverAfter_after hfits hflush.pos _ (Nat.lt_of_not_le hk) cuts
    exact ⟨d, hd, .inr hnew⟩

/-- **Transactions are never split**, in every run of any number of processes; and a crash during a
commit leaves all the blocks of its operations or none, if they lie outside of the log area. -/
theorem transactions_whole (s₀ s : State κ) (as : List (κ × Choice)) (h₀ : Start s₀)
    (hrun : txCode.machine.run s₀ as = some s) :
    TxOk s ∧ (txCode.machine.Meets Home s₀ as → CrashOk s) := by
  have hinv : TxInv s := by
    refine Machine.invariant_of_run _ (fun s a s' h hstep => ?_) as s₀ s h₀.txInv hrun
    obtain ⟨op, hs⟩ := stepped hstep
    exact h.step hs
  refine ⟨hinv.txOk, fun hok => ?_⟩
  have hboth : TxInv s ∧ HomeInv s := by
    refine Machine.invariant_of_meets (I := fun s => TxInv s ∧ HomeInv s) _
      (fun s a s' h hok hstep => ?_) as s₀ s ⟨h₀.txInv, h₀.homeInv⟩ hok hrun
    obtain ⟨op, hs⟩ := stepped hstep
    exact ⟨h.1.step hs, h.2.step h.1 hs hok⟩
  exact hboth.2.crashOk hboth.1

def twoOps : State (Fin 2) where
  owner _ := none
  loc _ := .idle
  data :=
    { bio := boot fun _ _ => 0
      log := ⟨mkfsLogstart, mkfsNlog, ⟨0, fun _ => 0, Nat.zero_le _⟩⟩
      outstanding := 0
      committing := false
      ended := []
      tx := ⟨⟨mkfsLogstart, mkfsNlog, ⟨0, fun _ => 0, Nat.zero_le _⟩⟩, boot fun _ _ => 0, []⟩ }

theorem twoOps_start : Start twoOps := ⟨rfl, fun _ => rfl, rfl, rfl, rfl, rfl, rfl⟩

/-- Process `c` makes a call and executes the next `n` lines. -/
def calls (c : Fin 2) (ch : Choice) (n : Nat) : List (Fin 2 × Choice) :=
  (c, ch) :: List.replicate n (c, .next)

/-- Both processes log a block of their own and one in common; the last one commits, and has written
one block to the log. -/
def bothCommit : List (Fin 2 × Choice) :=
  calls 0 .beginOp 3 ++ calls 1 .beginOp 3 ++ calls 0 (.logWrite 46) 3 ++
    [(1, .modify 47 fun _ => 7)] ++ calls 1 (.logWrite 47) 3 ++ calls 1 (.logWrite 46) 3 ++
    calls 0 .endOp 3 ++ calls 1 .endOp 5

theorem bothCommit_whole :
    Start twoOps ∧ txCode.machine.Meets Home twoOps bothCommit ∧
      ∃ s, txCode.machine.run twoOps bothCommit = some s ∧ s.loc 1 = .writeLog 1 ∧
        s.data.log.lh.blocks = [46, 47] ∧ s.data.tx.ended = [46, 47, 46] ∧ TxOk s ∧ CrashOk s := by
  have hok : txCode.machine.Meets Home twoOps bothCommit := by decide +kernel
  obtain ⟨htx, hcrash⟩ := transactions_whole twoOps _ bothCommit twoOps_start rfl
  exact ⟨twoOps_start, hok, _, rfl, rfl, rfl, rfl, htx, hcrash hok⟩

end Xv6.Tx
