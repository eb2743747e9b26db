import Xv6.Bio.Equiv.Cache

/-!
# Cache coherence

Valid buffers of blocks that are not in the log agree with the disk in every run in which a failing
`copyin` has copied nothing (`cache_coherent`). `writei` does not log a buffer then, so with a part
of the bytes copied it differs from the disk (`straddling_lost`).
-/

namespace Xv6.Bcache

open Lib List Option

/-! ### `commit` on the cache -/

/-- The cache has changed, with the blocks `L` pinned afterwards; the buffers that were locked have
not. -/
structure Kept (L : List (BitVec 32)) (c c' : Cache) : Prop where
  inv : CacheInv L c'
  locked : ∀ j, (c.buf j).locked = true → c'.buf j = c.buf j

section Commit

variable {L : List (BitVec 32)} {c c₁ c₂ : Cache} {b b' : BitVec 32} {i j : BufId}

theorem brelse_buf_of_ne (c : Cache) (h : j ≠ i) : (c.brelse i).buf j = c.buf j := by
  unfold Cache.brelse
  dsimp only
  split_ifs
  · exact c.set_buf_of_ne _ h
  · exact c.set_buf_of_ne _ h

theorem bwrite_buf (c : Cache) : (c.bwrite i).buf = c.buf := by
  unfold Cache.bwrite
  split
  · rfl
  · rfl

theorem flush_buf_of_ne (c : Cache) {v : Block} (h : j ≠ i) :
    ((c.store i v).bwrite i).buf j = c.buf j := by
  rw [bwrite_buf]
  exact c.set_buf_of_ne _ h

theorem flush_buf (c : Cache) {v : Block} :
    ((c.store i v).bwrite i).buf i = { c.buf i with data := v } := by
  rw [bwrite_buf]
  exact c.set_buf ..

theorem flush_disk (c : Cache) {v : Block} (h : (c.buf i).block = some b) :
    ((c.store i v).bwrite i).disk b.toNat = v := by
  have hbuf : (c.store i v).buf i = { c.buf i with data := v } := c.set_buf ..
  rw [Cache.bwrite, hbuf]
  dsimp only
  rw [h]
  exact Function.update_self ..

/-- Two blocks that are locked one after the other. -/
structure ReadTwo (L : List (BitVec 32)) (c : Cache) (b b' : BitVec 32) (i j : BufId)
    (c₂ : Cache) : Prop where
  inv : CacheInv L c₂
  ne : j ≠ i
  block : (c₂.buf i).block = some b
  block' : (c₂.buf j).block = some b'
  locked : (c₂.buf i).locked = true
  locked' : (c₂.buf j).locked = true
  others : ∀ k, (c.buf k).locked = true → k ≠ i ∧ k ≠ j ∧ c₂.buf k = c.buf k

theorem CacheInv.readTwo (h : CacheInv L c) (h₁ : c.bread b = some (i, c₁))
    (h₂ : c₁.bread b' = some (j, c₂)) : ReadTwo L c b b' i j c₂ := by
  have hr := bread_read h₁
  have hr' := bread_read h₂
  have hne : j ≠ i := by
    rintro rfl
    cases hr'.free.symm.trans hr.locked
  have hi := hr'.others i hne.symm
  refine ⟨(h.bread h₁).bread h₂, hne, ?_, hr'.block, ?_, hr'.locked, fun k hk => ?_⟩
  · rw [hi]
    exact hr.block
  · rw [hi]
    exact hr.locked
  have hki : k ≠ i := by
    rintro rfl
    cases hr.free.symm.trans hk
  have hold := hr.others k hki
  have hkj : k ≠ j := by
    rintro rfl
    rw [← hold] at hk
    cases hr'.free.symm.trans hk
  exact ⟨hki, hkj, (hr'.others k hkj).trans hold⟩

variable {κ : Type} {s : State κ} {tail : Nat} {c' : Cache}

theorem writeLog_kept (h : CacheInv L s.cache) (hw : s.writeLog tail = some c') :
    Kept L s.cache c' := by
  obtain ⟨⟨i, c₁⟩, h₁, hw⟩ := bind_eq_some_iff.mp hw
  obtain ⟨⟨j, c₂⟩, h₂, hw⟩ := bind_eq_some_iff.mp hw
  cases hw
  have hr := h.readTwo h₁ h₂
  have hflush := hr.inv.flush (v := (c₂.buf j).data) hr.block
  have hj : (((c₂.store i (c₂.buf j).data).bwrite i).buf j).locked = true := by
    rw [flush_buf_of_ne _ hr.ne]
    exact hr.locked'
  have hi : ((((c₂.store i (c₂.buf j).data).bwrite i).brelse j).buf i).locked = true := by
    rw [brelse_buf_of_ne _ hr.ne.symm, flush_buf]
    exact hr.locked
  refine ⟨(hflush.brelse hj).brelse hi, fun k hk => ?_⟩
  obtain ⟨hki, hkj, hold⟩ := hr.others k hk
  rw [brelse_buf_of_ne _ hki, brelse_buf_of_ne _ hkj, flush_buf_of_ne _ hki, hold]

theorem writeHead_kept (h : CacheInv L s.cache) (hw : s.writeHead = some c') :
    Kept L s.cache c' := by
  obtain ⟨⟨i, c₁⟩, h₁, hw⟩ := bind_eq_some_iff.mp hw
  cases hw
  have hr := bread_read h₁
  have hflush := (h.bread h₁).flush (v := s.log.lh.store (c₁.buf i).data) hr.block
  refine ⟨hflush.brelse ?_, fun k hk => ?_⟩
  · rw [flush_buf]
    exact hr.locked
  · have hki : k ≠ i := by
      rintro rfl
      cases hr.free.symm.trans hk
    rw [brelse_buf_of_ne _ hki, flush_buf_of_ne _ hki, hr.others k hki]

theorem install_kept (h : CacheInv (s.log.lh.block tail :: L) s.cache)
    (hL : s.log.lh.block tail ∉ L) (hw : s.install tail = some c') : Kept L s.cache c' := by
  obtain ⟨⟨i, c₁⟩, h₁, hw⟩ := bind_eq_some_iff.mp hw
  obtain ⟨⟨j, c₂⟩, h₂, hw⟩ := bind_eq_some_iff.mp hw
  cases hw
  have hr := h.readTwo h₁ h₂
  have hflush := hr.inv.flush (v := (c₂.buf i).data) hr.block'
  have hdisk := flush_disk c₂ (v := (c₂.buf i).data) hr.block'
  have hbuf := flush_buf c₂ (i := j) (v := (c₂.buf i).data)
  have hothers := fun k (hk : k ≠ j) => flush_buf_of_ne c₂ (v := (c₂.buf i).data) hk
  generalize (c₂.store j (c₂.buf i).data).bwrite j = c₃ at hflush hdisk hbuf hothers ⊢
  have hunpin := hflush.bunpin hL (i := j) (by rw [hbuf]; exact hr.block') (by rw [hbuf, hdisk])
  have hi : ((c₃.bunpin j).buf i).locked = true := by
    rw [Cache.bunpin, Cache.set_buf_of_ne _ _ hr.ne.symm, hothers i hr.ne.symm]
    exact hr.locked
  have hj : (((c₃.bunpin j).brelse i).buf j).locked = true := by
    rw [brelse_buf_of_ne _ hr.ne, Cache.bunpin, Cache.set_buf, hbuf]
    exact hr.locked'
  refine ⟨(hunpin.brelse hi).brelse hj, fun k hk => ?_⟩
  obtain ⟨hki, hkj, hold⟩ := hr.others k hk
  rw [brelse_buf_of_ne _ hkj, brelse_buf_of_ne _ hki, Cache.bunpin,
    Cache.set_buf_of_ne _ _ hkj, hothers k hkj, hold]

end Commit

/-! ### Steps -/

/-- The buffers that a process has locked. -/
def Phase.held : Phase → List BufId
  | .out held | .op held => held
  | .ending => []

section Steps

variable {κ : Type} [DecidableEq κ] {s s' : State κ} {t : κ} {a : Act}

inductive Step (s : State κ) (t : κ) : Act → State κ → Prop where
  | bread (b : BitVec 32) (i : BufId) (c : Cache) (ph : Phase) (h : s.cache.bread b = some (i, c))
      (held : ph.held = i :: (s.phase t).held) :
      Step s t (.bread b) { s.setPhase t ph with cache := c }
  | brelse (i : BufId) (ph : Phase) (held : (s.phase t).held = i :: ph.held) :
      Step s t .brelse { s.setPhase t ph with cache := s.cache.brelse i }
  | beginOp (held : (s.phase t).held = []) (idle : s.commit = none) :
      Step s t .beginOp { s.setPhase t (.op []) with outstanding := s.outstanding + 1 }
  | log (a : Act) (i : BufId) (data : Block) (s' : State κ) (held : i ∈ (s.phase t).held)
      (h : (s.store i data).logWrite i = some s') : Step s t a s'
  | fail (off len : Nat) (walkaddr : Addr → Addr) (mem : Mem) (srcva : Addr) (i : BufId)
      (h : (copyin walkaddr mem srcva len).1 = false) :
      Step s t (.write off len walkaddr mem srcva)
        (s.store i (setBytes (s.cache.buf i).data off (copyin walkaddr mem srcva len).2))
  | endOp (held : (s.phase t).held = []) (idle : s.commit = none) :
      Step s t .endOp { s.setPhase t (.out []) with outstanding := s.outstanding - 1 }
  | endLast (stage : Stage) (held : (s.phase t).held = []) (idle : s.commit = none)
      (zero : s.outstanding - 1 = 0) (hstage : stage = .writeLog 0 ∨ stage = .done) :
      Step s t .endOp
        { s.setPhase t .ending with
          outstanding := s.outstanding - 1
          commit := some (t, stage) }
  | commit (stage : Stage) (s' : State κ) (held : (s.phase t).held = [])
      (hcommit : s.commit = some (t, stage)) (h : s.commitStep t stage = some s') :
      Step s t .commit s'

theorem step_step (h : s.step t a = some s') : Step s t a s' := by
  have hphase : ∀ {ph}, s.phase t = ph → (s.phase t).held = ph.held := by
    rintro ph rfl
    rfl
  unfold State.step at h
  split at h
  case h_1 held b hph =>
    obtain ⟨⟨i, c⟩, hread, rfl⟩ := map_eq_some_iff.mp h
    exact .bread b i c (.out (i :: held)) hread (by rw [hphase hph]; rfl)
  case h_2 held b hph =>
    obtain ⟨⟨i, c⟩, hread, rfl⟩ := map_eq_some_iff.mp h
    exact .bread b i c (.op (i :: held)) hread (by rw [hphase hph]; rfl)
  case h_3 i held hph =>
    cases h
    exact .brelse i (.out held) (by rw [hphase hph]; rfl)
  case h_4 i held hph =>
    cases h
    exact .brelse i (.op held) (by rw [hphase hph]; rfl)
  case h_5 hph =>
    split_ifs at h with hadmits
    cases h
    refine .beginOp (hphase hph) ?_
    have hboth := of_decide_eq_true hadmits
    exact isNone_iff_eq_none.mp hboth.1
  case h_6 i held data hph =>
    exact .log _ i data s' (by rw [hphase hph]; exact mem_cons_self) h
  case h_7 i held off len walkaddr mem srcva hph =>
    split_ifs at h
    simp only [State.write] at h
    split_ifs at h with hok
    · exact .log _ i _ s' (by rw [hphase hph]; exact mem_cons_self) h
    · cases h
      exact .fail off len walkaddr mem srcva i (by simpa using hok)
  case h_8 hph =>
    unfold State.endOp at h
    split_ifs at h with hcommit hzero <;> cases h
    · exact .endLast (.writeLog 0) (hphase hph) (by simpa using hcommit) hzero (.inl rfl)
    · exact .endLast .done (hphase hph) (by simpa using hcommit) hzero (.inr rfl)
    · exact .endOp (hphase hph) (by simpa using hcommit)
  case h_9 hph =>
    split at h
    case h_1 t' stage hcommit =>
      split_ifs at h with ht
      rw [ht] at hcommit
      exact .commit stage s' (hphase hph) hcommit h
    case h_2 => cases h
  case h_10 => cases h

/-! ### The invariant -/

/-- The blocks that are pinned: those of the log, but for the ones that `commit` has installed. -/
def State.pins (s : State κ) : List (BitVec 32) :=
  match s.commit with
  | some (_, .install tail) => s.log.lh.blocks.drop tail
  | some (_, .clear) => []
  | _ => s.log.lh.blocks

structure Holds (c : Cache) (held : κ → List BufId) : Prop where
  locked : ∀ t, ∀ i ∈ held t, (c.buf i).locked = true ∧ (c.buf i).valid = true
  apart : ∀ t t' i, t ≠ t' → i ∈ held t → i ∉ held t'
  nodup : ∀ t, (held t).Nodup

structure Inv (s : State κ) : Prop where
  cache : CacheInv s.pins s.cache
  nodup : s.log.lh.blocks.Nodup
  idle : s.commit ≠ none → s.outstanding = 0
  holds : Holds s.cache fun t => (s.phase t).held

/-! ### What the processes hold -/

theorem held_setPhase (ph : Phase) (t' : κ) : ((s.setPhase t ph).phase t').held =
    if t' = t then ph.held else (s.phase t').held := by
  simp only [State.setPhase, Function.update_apply]
  split_ifs
  · rfl
  · rfl

theorem held_setPhase_self {ph : Phase} (h : ph.held = (s.phase t).held) (t' : κ) :
    ((s.setPhase t ph).phase t').held = (s.phase t').held := by
  rw [held_setPhase]
  split_ifs with ht
  · rw [ht, h]
  · rfl

namespace Holds

variable {c c' : Cache} {held held' : κ → List BufId} {i : BufId}

omit [DecidableEq κ] in
theorem congr (h : Holds c held) (hheld : ∀ t, held' t = held t)
    (hc : ∀ i, (c.buf i).locked = true → (c.buf i).valid = true →
      (c'.buf i).locked = true ∧ (c'.buf i).valid = true) : Holds c' held' := by
  obtain rfl : held' = held := funext hheld
  refine ⟨fun t i hi => ?_, h.apart, h.nodup⟩
  obtain ⟨hlocked, hvalid⟩ := h.locked t i hi
  exact hc i hlocked hvalid

theorem bread (h : Holds c held) {b : BitVec 32} (hr : Read c b i c')
    (hheld : ∀ t', held' t' = if t' = t then i :: held t else held t') : Holds c' held' := by
  -- the buffer was not locked, so nobody holds it
  have hfree : ∀ t', i ∉ held t' := by
    intro t' hi
    cases hr.free.symm.trans (h.locked t' i hi).1
  have hmem : ∀ t' j, j ∈ held' t' → t' = t ∧ j = i ∨ j ∈ held t' := by
    intro t' j hj
    rw [hheld] at hj
    split_ifs at hj with ht
    · rw [mem_cons] at hj
      rw [ht]
      exact hj.imp_left fun hji => ⟨rfl, hji⟩
    · exact .inr hj
  refine ⟨fun t' j hj => ?_, fun t₁ t₂ j hne hj hj' => ?_, fun t' => ?_⟩
  · obtain ⟨-, rfl⟩ | hj := hmem t' j hj
    · exact ⟨hr.locked, hr.valid⟩
    · have hji : j ≠ i := by
        rintro rfl
        exact hfree t' hj
      rw [hr.others j hji]
      exact h.locked t' j hj
  · obtain ⟨rfl, rfl⟩ | hj := hmem t₁ j hj
    · obtain ⟨rfl, -⟩ | hj' := hmem t₂ j hj'
      · exact hne rfl
      · exact hfree t₂ hj'
    · obtain ⟨-, rfl⟩ | hj' := hmem t₂ j hj'
      · exact hfree t₁ hj
      · exact h.apart t₁ t₂ j hne hj hj'
  · rw [hheld]
    split_ifs
    · exact nodup_cons.mpr ⟨hfree t, h.nodup t⟩
    · exact h.nodup t'

theorem brelse (h : Holds c held) {l : List BufId} (hl : held t = i :: l)
    (hheld : ∀ t', held' t' = if t' = t then l else held t') : Holds (c.brelse i) held' := by
  have hnodup := h.nodup t
  rw [hl, nodup_cons] at hnodup
  have hmem : ∀ t' j, j ∈ held' t' → j ∈ held t' ∧ j ≠ i := by
    intro t' j hj
    rw [hheld] at hj
    split_ifs at hj with ht
    · rw [ht, hl]
      refine ⟨mem_cons_of_mem i hj, ?_⟩
      rintro rfl
      exact hnodup.1 hj
    · refine ⟨hj, ?_⟩
      rintro rfl
      exact h.apart t' t j ht hj (by rw [hl]; exact mem_cons_self)
  refine ⟨fun t' j hj => ?_, fun t₁ t₂ j hne hj hj' => ?_, fun t' => ?_⟩
  · obtain ⟨hold, hji⟩ := hmem t' j hj
    rw [brelse_buf_of_ne _ hji]
    exact h.locked t' j hold
  · exact h.apart t₁ t₂ j hne (hmem t₁ j hj).1 (hmem t₂ j hj').1
  · rw [hheld]
    split_ifs
    · exact hnodup.2
    · exact h.nodup t'

end Holds

/-! ### Steps keep the invariant -/

omit [DecidableEq κ] in
theorem logWrite_eq_some {i : BufId} (h : s.logWrite i = some s') :
    ∃ b, (s.cache.buf i).block = some b ∧ 1 ≤ s.outstanding ∧ s'.outstanding = s.outstanding ∧
      s'.commit = s.commit ∧ s'.phase = s.phase ∧
      (b ∈ s.log.lh.blocks ∧ s'.log.lh.blocks = s.log.lh.blocks ∧ s'.cache = s.cache ∨
        b ∉ s.log.lh.blocks ∧ s'.log.lh.blocks = s.log.lh.blocks ++ [b] ∧
          s'.cache = s.cache.bpin i) := by
  unfold State.logWrite at h
  split at h
  case h_1 => cases h
  case h_2 b hblock =>
    split_ifs at h with hfull hout hslot <;> cases h
    · have hb : b ∉ s.log.lh.blocks := (LogHeader.slot_eq_n_iff _ b).mp hslot
      refine ⟨b, hblock, by omega, rfl, rfl, rfl, .inr ⟨hb, ?_, rfl⟩⟩
      dsimp only
      rw [LogHeader.blocks_record, if_neg hb]
    · have hb : b ∈ s.log.lh.blocks := by
        by_contra hb
        exact hslot ((LogHeader.slot_eq_n_iff _ b).mpr hb)
      refine ⟨b, hblock, by omega, rfl, rfl, rfl, .inl ⟨hb, ?_, rfl⟩⟩
      dsimp only
      rw [LogHeader.blocks_record, if_pos hb]

namespace Inv

variable (h : Inv s)

include h

omit [DecidableEq κ] in
theorem log {i : BufId} {data : Block} (held : i ∈ (s.phase t).held)
    (hlog : (s.store i data).logWrite i = some s') : Inv s' := by
  obtain ⟨hlocked, hvalid⟩ := h.holds.locked t i held
  obtain ⟨b, hblock, hout, hout', hcommit, hphase, hcases⟩ := logWrite_eq_some hlog
  -- no commit is in progress
  have hnone : s.commit = none := by
    by_contra hne
    have hzero := h.idle hne
    have hout : 1 ≤ s.outstanding := hout
    omega
  have hcommit : s'.commit = none := hcommit.trans hnone
  have hpins : ∀ s : State κ, s.commit = none → s.pins = s.log.lh.blocks := by
    intro s hs
    rw [State.pins, hs]
  have hcache := h.cache
  rw [hpins s hnone] at hcache
  have hblock : (s.cache.buf i).block = some b := by
    have hbuf : (s.store i data).cache.buf i = { s.cache.buf i with data } := s.cache.set_buf ..
    rw [hbuf] at hblock
    exact hblock
  have hstored : ∀ j, (s.cache.buf j).locked = true → (s.cache.buf j).valid = true →
      ((s.cache.store i data).buf j).locked = true ∧
        ((s.cache.store i data).buf j).valid = true := by
    intro j hj hj'
    rw [Cache.store]
    by_cases hji : j = i
    · rw [hji, Cache.set_buf]
      exact ⟨hlocked, hvalid⟩
    · rw [Cache.set_buf_of_ne _ _ hji]
      exact ⟨hj, hj'⟩
  have hidle : s'.commit ≠ none → s'.outstanding = 0 := fun hne => absurd hcommit hne
  have hheld : ∀ t, (s'.phase t).held = (s.phase t).held := by
    intro t
    rw [hphase]
    rfl
  obtain ⟨hb, hblocks, hc⟩ | ⟨hb, hblocks, hc⟩ := hcases
  · refine ⟨?_, ?_, hidle, ?_⟩
    · rw [hpins s' hcommit, hblocks, hc]
      exact hcache.store_pinned hblock hb
    · rw [hblocks]
      exact h.nodup
    · rw [hc]
      exact h.holds.congr hheld hstored
  refine ⟨?_, ?_, hidle, ?_⟩
  · rw [hpins s' hcommit, hblocks, hc]
    exact hcache.store_bpin hblock hvalid hb
  · rw [hblocks]
    exact List.Nodup.append h.nodup (nodup_singleton b) (by simpa using hb)
  rw [hc]
  refine h.holds.congr hheld fun j hj hj' => ?_
  obtain ⟨hj, hj'⟩ := hstored j hj hj'
  rw [Cache.bpin]
  by_cases hji : j = i
  · rw [hji] at hj hj' ⊢
    rw [Cache.set_buf]
    exact ⟨hj, hj'⟩
  · rw [Cache.set_buf_of_ne _ _ hji]
    exact ⟨hj, hj'⟩

omit [DecidableEq κ] in
theorem commit_kept {stage : Stage} (hzero : s.outstanding = 0)
    (hs' : s' = { s.setStage t s'.cache stage with log := s'.log })
    (hcache : Kept s'.pins s.cache s'.cache) (hnodup : s'.log.lh.blocks.Nodup) : Inv s' := by
  refine ⟨hcache.inv, hnodup, fun _ => ?_, ?_⟩
  · rw [hs']
    exact hzero
  · refine h.holds.congr (fun t => ?_) fun j hj hj' => ?_
    · rw [hs']
      rfl
    · rw [hcache.locked j hj]
      exact ⟨hj, hj'⟩

theorem commit {stage : Stage} (held : (s.phase t).held = []) (hcommit : s.commit = some (t, stage))
    (hstep : s.commitStep t stage = some s') : Inv s' := by
  have hzero : s.outstanding = 0 := h.idle (by rw [hcommit]; nofun)
  have hcache := h.cache
  cases stage with rw [State.pins, hcommit] at hcache
  | writeLog =>
    simp only [State.commitStep] at hstep
    split_ifs at hstep with htail
    · obtain ⟨c, hw, rfl⟩ := map_eq_some_iff.mp hstep
      exact h.commit_kept hzero rfl (writeLog_kept hcache hw) h.nodup
    · cases hstep
      exact h.commit_kept hzero rfl ⟨hcache, fun _ _ => rfl⟩ h.nodup
  | writeHead =>
    obtain ⟨c, hw, rfl⟩ := map_eq_some_iff.mp hstep
    exact h.commit_kept hzero rfl (writeHead_kept hcache hw) h.nodup
  | install tail =>
    dsimp only at hcache
    simp only [State.commitStep] at hstep
    split_ifs at hstep with htail
    · obtain ⟨c, hw, rfl⟩ := map_eq_some_iff.mp hstep
      have hlt : tail < s.log.lh.blocks.length := by rwa [LogHeader.length_blocks]
      have hdrop : s.log.lh.blocks.drop tail =
          s.log.lh.block tail :: s.log.lh.blocks.drop (tail + 1) := by
        rw [drop_eq_getElem_cons hlt]
        simp [LogHeader.blocks]
      have hnodup := h.nodup.sublist (drop_sublist tail _)
      rw [hdrop] at hcache hnodup
      exact h.commit_kept hzero rfl (install_kept hcache (nodup_cons.mp hnodup).1 hw) h.nodup
    · cases hstep
      have hnil : s.log.lh.blocks.drop tail = [] := by
        rw [drop_eq_nil_iff, LogHeader.length_blocks]
        omega
      rw [hnil] at hcache
      exact h.commit_kept hzero rfl ⟨hcache, fun _ _ => rfl⟩ h.nodup
  | clear =>
    cases hstep
    exact h.commit_kept hzero rfl ⟨hcache, fun _ _ => rfl⟩ nodup_nil
  | writeClear =>
    obtain ⟨c, hw, rfl⟩ := map_eq_some_iff.mp hstep
    exact h.commit_kept hzero rfl (writeHead_kept hcache hw) h.nodup
  | done =>
    cases hstep
    refine ⟨hcache, h.nodup, fun hne => absurd rfl hne, ?_⟩
    exact h.holds.congr (held_setPhase_self held.symm) fun j hj hj' => ⟨hj, hj'⟩

theorem step (hok : Whole s (t, a)) (hstep : Step s t a s') : Inv s' := by
  cases hstep with
  | bread b i c ph hread held =>
    refine ⟨h.cache.bread hread, h.nodup, h.idle, ?_⟩
    refine h.holds.bread (t := t) (bread_read hread) fun t' => ?_
    rw [← held]
    exact held_setPhase ph t'
  | brelse i ph held =>
    have hlocked := (h.holds.locked t i (by rw [held]; exact mem_cons_self)).1
    refine ⟨h.cache.brelse hlocked, h.nodup, h.idle, ?_⟩
    exact h.holds.brelse (t := t) held fun t' => held_setPhase ph t'
  | beginOp held idle | endOp held idle =>
    refine ⟨h.cache, h.nodup, fun hne => absurd idle hne, ?_⟩
    exact h.holds.congr (held_setPhase_self held.symm) fun j hj hj' => ⟨hj, hj'⟩
  | log a i data s' held hlog => exact h.log held hlog
  | fail off len walkaddr mem srcva i hfail =>
    -- nothing was copied, so nothing has changed
    have hnil : (copyin walkaddr mem srcva len).2 = [] := by
      obtain hok | hok := hok
      · cases hfail.symm.trans hok
      · exact hok
    have hsame : s.store i (setBytes (s.cache.buf i).data off []) = s := by
      rw [State.store, setBytes, Cache.store, Cache.set]
      rw [Function.update_eq_self]
    rw [hnil, hsame]
    exact h
  | endLast stage held idle zero hstage =>
    have hcache := h.cache
    rw [State.pins, idle] at hcache
    refine ⟨?_, h.nodup, fun _ => zero, ?_⟩
    · obtain rfl | rfl := hstage
      · exact hcache
      · exact hcache
    · exact h.holds.congr (held_setPhase_self held.symm) fun j hj hj' => ⟨hj, hj'⟩
  | commit stage s' held hcommit hstep => exact h.commit held hcommit hstep

end Inv

omit [DecidableEq κ] in
theorem pins_subset {b : BitVec 32} (hb : b ∈ s.pins) : b ∈ s.log.lh.blocks := by
  unfold State.pins at hb
  split at hb
  · exact mem_of_mem_drop hb
  · cases hb
  · exact hb

omit [DecidableEq κ] in
theorem Start.inv (h : Start s) : Inv s := by
  have hnil : s.log.lh.blocks = [] := by
    rw [← length_eq_zero_iff, LogHeader.length_blocks, h.n]
  have hpins : s.pins = [] := by rw [State.pins, h.commit, hnil]
  refine ⟨?_, ?_, fun hne => absurd h.commit hne, ?_⟩
  · rw [hpins]
    refine ⟨h.lru, h.unique, fun i => ?_, nofun, fun i b hb hvalid _ => h.coherent i b hb hvalid⟩
    simp [Buf.locks, Buf.pins, h.unused i]
  · rw [hnil]
    exact nodup_nil
  · refine ⟨fun t i hi => ?_, fun t t' i _ hi => ?_, fun t => ?_⟩
    · rw [h.phase] at hi
      cases hi
    · rw [h.phase] at hi
      cases hi
    · rw [h.phase]
      exact nodup_nil

/-- **Cache coherence**: in every run in which the `copyin`s of `writei` that fail do so at their
first page, the valid buffers of blocks outside of the log agree with the disk. -/
theorem cache_coherent (s₀ s : State κ) (as : List (κ × Act)) (h₀ : Start s₀)
    (hmeets : (fsMachine κ).Meets Whole s₀ as) (hrun : (fsMachine κ).run s₀ as = some s) :
    CacheOk s := by
  have hinv : Inv s := (fsMachine κ).invariant_of_meets
    (fun s a s' hinv hok hstep => hinv.step hok (step_step hstep)) as s₀ s h₀.inv hmeets hrun
  refine ⟨fun i b hb hvalid hlog => ?_, fun b i c hlog hread => ?_⟩
  · exact hinv.cache.coherent i b hb hvalid fun hpin => hlog (pins_subset hpin)
  · exact hinv.cache.bread_data hread fun hpin => hlog (pins_subset hpin)

end Steps

/-! ### A write from two pages -/

/-- One process after boot, with a disk of zeros. -/
def booted : State Unit where
  cache :=
    { buf := fun _ => ⟨none, false, 0, false, fun _ => 0⟩
      lru := (List.finRange nbuf).reverse
      disk := fun _ _ => 0 }
  log := ⟨mkfsLogstart, mkfsNlog, ⟨0, fun _ => 0, Nat.zero_le _⟩⟩
  outstanding := 0
  commit := none
  phase _ := .out []

theorem booted_start : Start booted where
  lru i := by simp [booted]
  unused _ := rfl
  unique _ _ _ h := nomatch h
  coherent _ _ h := nomatch h
  n := rfl
  commit := rfl
  phase _ := rfl

/-- The second page is not mapped. -/
def onePage (va : Addr) : Addr := if va = 0 then 0x80000000 else 0

/-- `write` of two bytes from `srcva` to a file: `writei` and `iupdate`. -/
def writeTwo (srcva : Addr) : List (Unit × Act) :=
  [((), .beginOp), ((), .bread 50), ((), .write 0 2 onePage (fun _ => 1) srcva), ((), .brelse),
    ((), .bread 33), ((), .update fun _ => 0), ((), .brelse), ((), .endOp)]

def commits (n : Nat) : List (Unit × Act) := List.replicate n ((), .commit)

/-- Reading other blocks, one for each buffer. -/
def reads : List (Unit × Act) :=
  (List.range nbuf).flatMap fun b => [((), .bread (BitVec.ofNat 32 (100 + b))), ((), .brelse)]

theorem bsize_words_pos : 0 < bsize / 4 := by decide

/-- The first word that reading block 50 gives. -/
def State.word {κ : Type} (s : State κ) : Option (BitVec 32) :=
  (s.cache.bread 50).map fun (i, c) => (c.buf i).data ⟨0, bsize_words_pos⟩

/-- Both bytes are on the first page. -/
theorem within_coherent :
    Start booted ∧ (fsMachine Unit).Meets Whole booted (writeTwo 4094 ++ commits 10) ∧
      ∃ s, (fsMachine Unit).run booted (writeTwo 4094 ++ commits 10) = some s ∧
        s.word = some 257 ∧ CacheOk s := by
  have hok : (fsMachine Unit).Meets Whole booted (writeTwo 4094 ++ commits 10) := by decide +kernel
  exact ⟨booted_start, hok, _, rfl, rfl,
    cache_coherent booted _ (writeTwo 4094 ++ commits 10) booted_start hok rfl⟩

/-- The second byte is on the page that is not mapped: `writei` fails.  Nevertheless the first byte
can be read, until the buffer is recycled. -/
theorem straddling_lost :
    Start booted ∧
      (∃ s, (fsMachine Unit).run booted (writeTwo 4095 ++ commits 8) = some s ∧
        s.phase () = .out [] ∧ s.commit = none ∧ s.log.lh.n = 0 ∧ s.word = some 1 ∧ ¬CacheOk s) ∧
      ∃ s, (fsMachine Unit).run booted (writeTwo 4095 ++ commits 8 ++ reads) = some s ∧
        s.word = some 0 := by
  refine ⟨booted_start, ⟨_, rfl, rfl, rfl, rfl, rfl, fun h => ?_⟩, _, rfl, rfl⟩
  have hdata := congrFun (h.coherent 0 50 rfl rfl nofun) ⟨0, by decide⟩
  exact absurd hdata (by decide +kernel)

end Xv6.Bcache
