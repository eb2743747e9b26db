import Xv6.Fs.Equiv.Files
import Xv6.Fs.Logged

/-!
# Writes fit their budget

A round of the loop of `writei` logs a data block and, if it is new, its bitmap block; the indirect
block and its bitmap block are the same for all rounds (`writeLoopLogs_within`).  When the offset is
not aligned the range has one block more, but the first one is not new.
-/

namespace Xv6.Fs

open Lib Bcache Function

variable {sb : Superblock} {s s' : State} {inum : Nat} {ip ip' : Dinode} {buf : Buffer} {mem : Mem}
  {a x : BitVec 32} {n bn : Nat}

/-- The number of the indirect block, or 0. -/
def Dinode.indirect (ip : Dinode) : BitVec 32 := ip.addrs (Fin.last ndirect)

/-- A block, and its bitmap block. -/
def pair (sb : Superblock) (a : BitVec 32) : List (BitVec 32) := [a, bblock sb a]

/-- What `balloc` logs is the block that it takes, and its bitmap block. -/
theorem mem_ballocLogs (hx : x ∈ ballocLogs sb s) :
    ∃ a s', balloc sb s = .ok (a, s') ∧ x ∈ pair sb a := by
  rw [ballocLogs] at hx
  cases hb : balloc sb s with rw [hb] at hx
  | error => cases hx
  | ok r => exact ⟨r.1, r.2, rfl, by simpa [pair, or_comm] using hx⟩

theorem mem_bslotLogs {i : Fin (ndirect + 1)} (hx : x ∈ bslotLogs sb s ip i) :
    ∃ a ip' s', bslot sb s ip i = .ok (a, ip', s') ∧ x ∈ pair sb a := by
  rw [bslotLogs] at hx
  split_ifs at hx with hzero
  · obtain ⟨a, s', hb, hx⟩ := mem_ballocLogs hx
    exact ⟨a, ip.setAddr i a, s', by rw [bslot, if_pos hzero, hb]; rfl, hx⟩
  · cases hx

/-- What `bmap` logs belongs to the block that it finds, or to the indirect block. -/
theorem mem_bmapLogs (hx : x ∈ bmapLogs sb s ip bn) :
    (∃ a ip' s', bmap sb s ip bn = .ok (a, ip', s') ∧ x ∈ pair sb a) ∨
      ∃ ind ip₁ s₁, bslot sb s ip (Fin.last ndirect) = .ok (ind, ip₁, s₁) ∧ x ∈ pair sb ind ∧
        ∀ a ip' s', bmap sb s ip bn = .ok (a, ip', s') → ip' = ip₁ := by
  unfold bmapLogs at hx
  unfold bmap
  split_ifs at hx ⊢ with hdirect hentry
  · exact .inl (mem_bslotLogs hx)
  · cases hslot : bslot sb s ip (Fin.last ndirect) with rw [hslot, List.mem_append] at hx
    | error e =>
      obtain ⟨_, _, _, hb, -⟩ := mem_bslotLogs (hx.resolve_right List.not_mem_nil)
      cases hslot.symm.trans hb
    | ok r =>
      obtain ⟨ind, ip₁, s₁⟩ := r
      have hfirst : x ∈ bslotLogs sb s ip (Fin.last ndirect) → x ∈ pair sb ind := by
        intro hx
        obtain ⟨_, _, _, hb, hx⟩ := mem_bslotLogs hx
        cases hslot.symm.trans hb
        exact hx
      simp only [bind, Except.bind]
      dsimp only at hx
      split_ifs at hx ⊢ with hzero hok
      · cases hb : balloc sb s₁ with rw [hb] at hok
        | error => cases hok
        | ok r =>
          rw [ballocLogs, hb] at hx
          simp [pure, Except.pure, pair] at hx hfirst ⊢
          tauto
      · cases hb : balloc sb s₁ with rw [hb] at hok
        | error =>
          rw [ballocLogs, hb] at hx
          simp at hx ⊢
          tauto
        | ok => cases hok rfl
      · simp [pure, Except.pure] at hx ⊢
        tauto
  · cases hx

/-- An indirect block stays. -/
theorem Grown.indirect_eq (h : Good sb inum ip s) (hg : Grown sb inum ip s ip' s')
    (hne : ip.indirect ≠ 0) : ip'.indirect = ip.indirect := by
  have hkept := hg.kept (inum, .indirect)
  rw [addr_iupdate_self h.type, addr_iupdate_self hg.good.type] at hkept
  exact hkept hne

theorem bslot_indirect_eq (h : Good sb inum ip s)
    (hb : bslot sb s ip (Fin.last ndirect) = .ok (a, ip', s')) : a ≠ 0 ∧ ip'.indirect = a := by
  have hfound := bslot_indirect h hb
  exact ⟨hfound.ne_zero, hfound.grown.good.addrs_last hfound.addr⟩

/-- The logged blocks are among the indirect block of the file, `m` others and their bitmap
blocks. -/
def Within (sb : Superblock) (ip : Dinode) (m : Nat) (logs : List (BitVec 32)) : Prop :=
  ∃ i c, (ip.indirect ≠ 0 → i = ip.indirect) ∧ c.length ≤ m ∧ logs ⊆ (i :: c).flatMap (pair sb)

theorem Within.nil {m : Nat} : Within sb ip m [] :=
  ⟨ip.indirect, [], fun _ => rfl, Nat.zero_le m, List.nil_subset _⟩

/-- A `bmap` that fails logs the indirect block at most. -/
theorem bmapLogs_error (h : Good sb inum ip s) {e : Panic} (hb : bmap sb s ip bn = .error e)
    (m : Nat) :
    Within sb ip m (bmapLogs sb s ip bn) := by
  cases hslot : bslot sb s ip (Fin.last ndirect) with
  | error =>
    refine ⟨ip.indirect, [], fun _ => rfl, Nat.zero_le m, fun x hx => ?_⟩
    obtain ⟨_, _, _, h', _⟩ | ⟨_, _, _, h', _⟩ := mem_bmapLogs hx
    · cases hb.symm.trans h'
    · cases hslot.symm.trans h'
  | ok r =>
    refine ⟨r.1, [], fun hne => ?_, Nat.zero_le m, fun x hx => ?_⟩
    · rw [← (bslot_indirect h hslot).grown.indirect_eq h hne, (bslot_indirect_eq h hslot).2]
    · obtain ⟨_, _, _, h', _⟩ | ⟨_, _, _, h', hx, _⟩ := mem_bmapLogs hx
      · cases hb.symm.trans h'
      · cases hslot.symm.trans h'
        exact List.mem_append_left _ hx

/-- One more block, and what `bmap` logs for it. -/
theorem Within.bmap {m : Nat} {logs : List (BitVec 32)} (hw : Within sb ip' m logs)
    (h : Good sb inum ip s) (hb : bmap sb s ip bn = .ok (a, ip', s')) :
    Within sb ip (m + 1) (bmapLogs sb s ip bn ++ a :: logs) := by
  obtain ⟨i, c, hi, hlen, hsub⟩ := hw
  obtain ⟨_, -, -, hf⟩ := bmap_found h hb
  refine ⟨i, a :: c, fun hne => ?_, Nat.succ_le_succ hlen, fun x hx => ?_⟩
  · have heq := hf.grown.indirect_eq h hne
    rw [hi (heq ▸ hne), heq]
  have hmem : x ∈ pair sb a ∨ x ∈ (i :: c).flatMap (pair sb) := by
    rcases List.mem_append.mp hx with hx | hx
    · obtain ⟨_, _, _, h', hx⟩ | ⟨_, _, _, hslot, hx, hsame⟩ := mem_bmapLogs hx
      · cases hb.symm.trans h'
        exact .inl hx
      · obtain ⟨hne, heq⟩ := bslot_indirect_eq h hslot
        cases hsame _ _ _ hb
        rw [hi (heq.symm ▸ hne), heq]
        exact .inr (List.mem_append_left _ hx)
    · rcases List.mem_cons.mp hx with rfl | hx
      · exact .inl (List.mem_cons_self ..)
      · exact .inr (hsub hx)
  simp only [List.flatMap_cons, List.mem_append] at hmem ⊢
  tauto

/-- A round of the loop ends at the end of a block or of the data. -/
theorem round_end (n tot off : Nat) :
    (off + min (n - tot) (bsize - off % bsize)) % bsize = 0 ∨
      n ≤ tot + min (n - tot) (bsize - off % bsize) := by
  rw [bsize]
  omega

/-- From an aligned offset on, the loop logs one block and its bitmap block for each `BSIZE`
bytes. -/
theorem writeLoopLogs_within {fuel tot off m : Nat} (h : Good sb inum ip s)
    (haligned : off % bsize = 0 ∨ n ≤ tot) (hm : n - tot ≤ bsize * m) :
    Within sb ip m (writeLoopLogs sb buf mem n fuel tot off ip s) := by
  induction fuel generalizing tot off ip s m with
  | zero => exact .nil
  | succ fuel ih =>
    rw [writeLoopLogs]
    split_ifs with hlt
    · cases m with
      | zero => omega
      | succ m =>
        have haligned := haligned.resolve_right (by omega)
        cases hb : bmap sb s ip (off / bsize) with
        | error e =>
          rw [List.append_nil]
          exact bmapLogs_error h hb _
        | ok r =>
          obtain ⟨slot, -, hslot, hf⟩ := bmap_found h hb
          dsimp only
          split_ifs
          · refine (ih (hf.grown.good.write hslot hf.addr hf.ne_zero).good (round_end n tot off) ?_).bmap
              h hb
            rw [Nat.mul_succ] at hm
            rw [haligned, Nat.sub_zero]
            omega
          · obtain ⟨i, c, hi, hlen, hsub⟩ := Within.nil.bmap h hb
            refine ⟨i, c, hi, hlen, fun x hx => hsub ?_⟩
            rw [List.append_nil] at hx
            exact List.mem_append_left _ hx
    · exact .nil

/-- For a block that is there, `bmap` logs nothing. -/
theorem bmapLogs_eq_nil {slot : Slot} (hslot : slotOf bn = some slot)
    (hne : ip.addr s.block slot ≠ 0) :
    bmapLogs sb s ip bn = [] := by
  unfold slotOf at hslot
  unfold bmapLogs
  split_ifs at hslot ⊢ <;> cases hslot
  · exact if_neg hne
  · have hind : ip.addrs (Fin.last ndirect) ≠ 0 := by
      intro hzero
      rw [Dinode.addr, if_pos hzero] at hne
      exact hne rfl
    rw [Dinode.addr, if_neg hind] at hne
    rw [bslotLogs, bslot, if_neg hind, if_neg hind]
    exact if_neg hne

/-- Two numbers for each block. -/
theorem Within.cover {m : Nat} {logs : List (BitVec 32)} (h : Within sb ip m logs) :
    ∃ c, c.length ≤ 2 * (m + 1) ∧ logs ⊆ c := by
  obtain ⟨i, c, -, hlen, hsub⟩ := h
  refine ⟨_, ?_, hsub⟩
  simp [pair, List.length_flatMap]
  omega

theorem card_append_le {logs l c : List (BitVec 32)} {b : BitVec 32} (hsub : logs ⊆ c)
    (hlen : c.length ≤ n) (hl : l ⊆ [b]) : (logs ++ l).toFinset.card ≤ n + 1 := by
  have hall : logs ++ l ⊆ c ++ [b] := List.append_subset.mpr
    ⟨List.subset_append_of_subset_left _ hsub, List.subset_append_of_subset_right _ hl⟩
  calc (logs ++ l).toFinset.card
      ≤ (c ++ [b]).toFinset.card := Finset.card_le_card fun x hx =>
        List.mem_toFinset.mpr (hall (List.mem_toFinset.mp hx))
    _ ≤ (c ++ [b]).length := List.toFinset_card_le _
    _ ≤ n + 1 := by simpa using hlen

section

variable (howns : Owns sb.region s.addr s.bitmap) (hmapped : Mapped s)
  (htype : (s.dinode inum).type ≠ 0)

include howns hmapped htype

/-- The loop of `writei` logs at most nine blocks. -/
theorem writeLoopLogs_cover (buf : Buffer) (mem : Mem) {off : Nat}
    (hoff : off ≤ (s.dinode inum).size.toNat) (hn : n ≤ chunk) :
    ∃ c, c.length ≤ 9 ∧ writeLoopLogs sb buf mem n n 0 off (s.dinode inum) s ⊆ c := by
  have hgood : Good sb inum (s.dinode inum) s := ⟨by rwa [iupdate_self], htype⟩
  have hm : ∀ tot, n - tot ≤ bsize * 3 := fun tot => (Nat.sub_le ..).trans hn
  by_cases haligned : off % bsize = 0
  · obtain ⟨c, hlen, hsub⟩ := (writeLoopLogs_within hgood (.inl haligned) (hm 0)).cover
    exact ⟨c, Nat.le_succ_of_le hlen, hsub⟩
  cases n with
  | zero => exact ⟨[], Nat.zero_le _, List.nil_subset _⟩
  | succ n =>
    obtain ⟨slot, hslot, hne⟩ := hmapped inum (off / bsize) htype (by
      have hdiv := Nat.div_add_mod' off bsize
      omega)
    rw [writeLoopLogs, if_pos (Nat.succ_pos n), bmapLogs_eq_nil hslot ?_, List.nil_append]
    · cases hb : bmap sb s (s.dinode inum) (off / bsize) with
      | error => exact ⟨[], Nat.zero_le _, List.nil_subset _⟩
      | ok r =>
        obtain ⟨a, ip₁, s₁⟩ := r
        obtain ⟨slot, -, hind, hf⟩ := bmap_found hgood hb
        dsimp only
        split_ifs
        · obtain ⟨c, hlen, hsub⟩ := (writeLoopLogs_within
            (hf.grown.good.write hind hf.addr hf.ne_zero).good (round_end (n + 1) 0 off) (hm _)).cover
          exact ⟨a :: c, Nat.succ_le_succ hlen, List.cons_subset_cons _ hsub⟩
        · exact ⟨[], Nat.zero_le _, List.nil_subset _⟩
    · rw [State.addr, if_neg htype] at hne
      exact hne

/-- **Writes fit their budget**: what `filewrite` gives to one `writei` logs at most `MAXOPBLOCKS`
blocks. -/
theorem writei_budget (inodestart : BitVec 32) {off n : BitVec 32} (hn : n.toNat ≤ chunk) :
    (writeiLogs sb s inodestart inum (s.dinode inum) buf mem off n).toFinset.card ≤
      maxOpBlocks := by
  rw [writeiLogs]
  split_ifs with hoff hmax hok
  · exact Nat.zero_le _
  · exact Nat.zero_le _
  all_goals
    obtain ⟨c, hlen, hsub⟩ := writeLoopLogs_cover howns hmapped htype buf mem
      (Nat.not_lt.mp fun hlt => hoff (.inl hlt)) hn
  · exact card_append_le hsub hlen (List.Subset.refl [iblock inodestart inum])
  · exact card_append_le hsub hlen (List.nil_subset [iblock inodestart inum])

end

/-- A whole chunk. -/
theorem oneFile_budget :
    (writeiLogs small oneFile 33 1 (oneFile.dinode 1) ⟨none, 0⟩ (fun _ => 7) 0 3072).toFinset.card ≤
      maxOpBlocks :=
  writei_budget oneFile_owns oneFile_mapped (by decide) 33 (by decide)

end Xv6.Fs
