import Xv6.Fs.Equiv.Owner

/-!
# Files are byte arrays

The loop of `writei` stores the bytes of the buffer block by block (`writeLoop_bytes`), and `readi`
then gives the old bytes with these in place of some (`writei_bytes`).
-/

namespace Xv6.Fs

open Lib Bcache Function

variable {sb : Superblock} {s s' : State} {inum : Nat} {ip ip' : Dinode} {buf : Buffer} {mem : Mem}

def Buffer.byte (buf : Buffer) (mem : Mem) (k : Nat) : UInt8 :=
  match buf.walkaddr with
  | some walkaddr => userByte walkaddr mem (buf.addr + BitVec.ofNat 64 k)
  | none => mem (buf.addr + BitVec.ofNat 64 k)

theorem copyin_ok {tot m : Nat} {bytes : List UInt8}
    (h : buf.copyin mem tot m = (true, bytes)) :
    bytes = (List.range m).map fun k => buf.byte mem (tot + k) := by
  unfold Buffer.copyin at h
  unfold Buffer.byte
  cases hw : buf.walkaddr with simp only [hw] at h
  | none =>
    obtain ⟨-, rfl⟩ := Prod.mk.inj h
    simp only [bytesAt, add_ofNat_add]
  | some walkaddr =>
    obtain ⟨j, -, heq⟩ := copyin_reach walkaddr mem (buf.addr + BitVec.ofNat 64 tot) m
    obtain ⟨hj, rfl⟩ := Prod.mk.inj (heq.symm.trans h)
    rw [of_decide_eq_true hj]
    simp only [userBytes, add_ofNat_add]

theorem writeLoop_bytes {n : Nat} : ∀ (fuel tot off : Nat) (ip : Dinode) (s : State) {off' : Nat},
    n - tot ≤ fuel → tot ≤ n → Good sb inum ip s →
    writeLoop sb buf mem n fuel tot off ip s = .ok (n, off', ip', s') →
      off' = off + (n - tot) ∧ ∀ x k, (s'.iupdate inum ip').byte x k =
        if x = inum ∧ off ≤ k ∧ k < off' then buf.byte mem (tot + (k - off))
        else (s.iupdate inum ip).byte x k := by
  intro fuel
  induction fuel with
  | zero =>
    intro tot off ip s off' hfuel htot h hloop
    cases hloop
    exact ⟨by omega, fun x k => (if_neg (by omega)).symm⟩
  | succ fuel ih =>
    intro tot off ip s off' hfuel htot h hloop
    rw [writeLoop] at hloop
    split_ifs at hloop with hlt
    · obtain ⟨⟨a, ip₁, s₁⟩, hbmap, hloop⟩ := bind_eq_ok.mp hloop
      obtain ⟨slot, hslot, hne, hfound⟩ := bmap_found h hbmap
      dsimp only at hloop
      set m := min (n - tot) (bsize - off % bsize) with hm
      rcases hcopy : buf.copyin mem tot m with ⟨ok, bytes⟩
      rw [hcopy] at hloop
      cases ok with
      | false =>
        cases hloop
        exact absurd hlt (Nat.lt_irrefl n)
      | true =>
        rw [if_pos rfl] at hloop
        have hbytes := copyin_ok hcopy
        have hlen : bytes.length = m := by simp [hbytes]
        have hmod := Nat.mod_lt off (show bsize > 0 by decide)
        have hgood := hfound.grown.good
        have hwrite := hgood.write (v := setBytes (s₁.block a) (off % bsize) bytes) hne
          hfound.addr hfound.ne_zero
        obtain ⟨hoff, hrest⟩ := ih (tot + m) (off + m) _ _ (by omega) (by omega) hwrite.good hloop
        refine ⟨by omega, fun x k => ?_⟩
        rw [hrest, write_byte hgood hslot hfound.addr hfound.ne_zero (by omega), bmap_byte h hbmap]
        -- the byte is in this block, in one behind it, or not written
        by_cases hx : x = inum ∧ off ≤ k ∧ k < off'
        · rw [if_pos hx]
          by_cases hk : off + m ≤ k
          · rw [if_pos ⟨hx.1, hk, hx.2.2⟩, show tot + m + (k - (off + m)) = tot + (k - off) by omega]
          · rw [if_neg (by omega), if_pos ⟨hx.1, hx.2.1, by omega⟩, hbytes,
              List.getD_eq_getElem _ _ (by simp; omega)]
            simp
        · rw [if_neg hx, if_neg (by omega), if_neg (by omega)]
    · cases hloop
      exact ⟨by omega, fun x k => (if_neg (by omega)).symm⟩

/-- What `readi` gives of inode `x`, if the file has the bytes `content`. -/
def Reads (sb : Superblock) (s : State) (x : Nat) (content : Nat → UInt8) : Prop :=
  ∀ (buf : Buffer) (mem : Mem) (off n : BitVec 32), off.toNat + n.toNat < 2 ^ 32 →
    ∃ pieces, pieces.flatten = (List.range (min n.toNat ((s.dinode x).size.toNat - off.toNat))).map
        (fun k => content (off.toNat + k)) ∧
      readi sb s (s.dinode x) buf mem off n =
        .ok ((deliver buf 0 pieces mem).1, (deliver buf 0 pieces mem).2, s.dinode x, s)

theorem reads_byte (howns : Owns sb.region s.addr s.bitmap) (hmapped : Mapped s) (x : Nat)
    (htype : (s.dinode x).type ≠ 0) : Reads sb s x (s.byte x) := by
  have hself : s.iupdate x (s.dinode x) = s := iupdate_self
  intro buf mem off n hover
  have hgood : Good sb x (s.dinode x) s := ⟨by rwa [hself], htype⟩
  have hcov : Covers x (s.iupdate x (s.dinode x)) (s.dinode x).size.toNat := by
    rw [hself]
    exact fun bn => hmapped x bn htype
  have hread := readi_pieces buf mem hcov hgood hover
  rwa [hself] at hread

/-- **Files are byte arrays**: after `writei` has written all its bytes, the file has them at `off`,
and the other bytes of all files are the same. -/
theorem writei_bytes {off n : BitVec 32} (howns : Owns sb.region s.addr s.bitmap)
    (hmapped : Mapped s) (htype : (s.dinode inum).type ≠ 0)
    (hwrite : writei sb s inum (s.dinode inum) buf mem off n = .ok (some n.toNat, ip', s')) :
    (s'.dinode inum).size.toNat = max (s.dinode inum).size.toNat (off.toNat + n.toNat) ∧
      ∀ x, (s.dinode x).type ≠ 0 → Reads sb s x (s.byte x) ∧
        (x ≠ inum → (s'.dinode x).size = (s.dinode x).size) ∧
        Reads sb s' x fun k =>
          if x = inum ∧ off.toNat ≤ k ∧ k < off.toNat + n.toNat then buf.byte mem (k - off.toNat)
          else s.byte x k := by
  have hself : s.iupdate inum (s.dinode inum) = s := iupdate_self
  have hgood : Good sb inum (s.dinode inum) s := ⟨by rwa [hself], htype⟩
  have hdone : Done sb inum s (s.dinode inum) s := ⟨howns, htype, (update_eq_self ..).symm, rfl,
    fun bn => hmapped inum bn htype, fun _ _ _ _ => rfl⟩
  replace hdone := hdone.writei hwrite
  rw [writei] at hwrite
  split_ifs at hwrite with hpast hmax
  · cases hwrite
  · cases hwrite
  obtain ⟨⟨tot, off', ip₁, s₁⟩, hloop, hwrite⟩ := bind_eq_ok.mp hwrite
  obtain ⟨rfl, rfl, rfl⟩ := by simpa [pure, Except.pure] using hwrite
  rw [not_or, BitVec.not_lt, BitVec.not_lt, BitVec.le_def, BitVec.le_def, BitVec.toNat_add] at hpast
  have hn := n.isLt
  have hcov : Covers inum (s.iupdate inum (s.dinode inum)) (s.dinode inum).size.toNat := by
    rw [hself]
    exact fun bn => hmapped inum bn htype
  obtain ⟨hgrown, -, -⟩ := writeLoop_grown _ _ _ _ _ hgood (hcov.le hpast.1) hloop
  obtain ⟨rfl, hbyte⟩ := writeLoop_bytes _ 0 _ _ _ (Nat.le_refl _) (Nat.zero_le _) hgood hloop
  rw [hself, Nat.sub_zero] at hbyte
  rw [Nat.sub_zero] at hdone ⊢
  generalize hip : (if off.toNat + n.toNat > ip₁.size.toNat then
    { ip₁ with size := BitVec.ofNat 32 (off.toNat + n.toNat) } else ip₁) = ip₂ at hdone ⊢
  have hip₂ : ip₂.type = ip₁.type ∧ ip₂.addrs = ip₁.addrs ∧
      ip₂.size.toNat = max (s.dinode inum).size.toNat (off.toNat + n.toNat) := by
    rw [← hip, ← hgrown.size]
    split_ifs with hgt
    · refine ⟨rfl, rfl, ?_⟩
      rw [BitVec.toNat_ofNat]
      omega
    · exact ⟨rfl, rfl, by omega⟩
  have haddr : (s₁.iupdate inum ip₂).addr = (s₁.iupdate inum ip₁).addr :=
    addr_iupdate_congr hip₂.1 hip₂.2.1
  have hnew : (s₁.iupdate inum ip₂).dinode inum = ip₂ := update_self ..
  have hold : ∀ x, x ≠ inum → (s₁.iupdate inum ip₂).dinode x = s.dinode x := by
    intro x hx
    rw [hdone.dinode, update_of_ne hx]
  refine ⟨by rw [hnew, hip₂.2.2], fun x hx => ⟨reads_byte howns hmapped x hx, fun hne => ?_, ?_⟩⟩
  · rw [hold x hne]
  have htype' : ((s₁.iupdate inum ip₂).dinode x).type ≠ 0 := by
    by_cases hxi : x = inum
    · rw [hxi, hnew]
      exact hdone.type
    · rwa [hold x hxi]
  have hread := reads_byte hdone.owns (hdone.mapped hmapped) x htype'
  have hcongr : (s₁.iupdate inum ip₂).byte x = (s₁.iupdate inum ip₁).byte x := by
    funext k
    simp only [State.byte, haddr]
    rfl
  rw [hcongr, funext (hbyte x)] at hread
  simpa only [Nat.zero_add] using hread

def oneFile : State := (blank small).iupdate 1 ⟨2, 1, 0, fun _ => 0⟩

theorem oneFile_addr : oneFile.addr = (blank small).addr := by
  funext r
  obtain ⟨x, slot⟩ := r
  rw [oneFile, addr_iupdate]
  split_ifs
  · cases slot <;> rfl
  · cases slot <;> rfl
  · rfl

theorem oneFile_owns : Owns small.region oneFile.addr oneFile.bitmap := by
  have hstart : Start small (blank small) := blank_start
  rw [oneFile_addr]
  exact hstart.owns

theorem oneFile_mapped : Mapped oneFile := by
  intro x bn _ hbn
  have hsize : (oneFile.dinode x).size = 0 := by
    simp only [oneFile, State.iupdate, blank, Function.update_apply]
    split_ifs <;> rfl
  rw [hsize] at hbn
  exact absurd hbn (Nat.not_lt_zero _)

theorem oneFile_written : ∃ ip s',
    writei small oneFile 1 (oneFile.dinode 1) ⟨none, 0⟩ (fun _ => 7) 0 2 = .ok (some 2, ip, s') ∧
      (s'.dinode 1).size.toNat = max 0 (0 + 2) := by
  have htype : (oneFile.dinode 1).type ≠ 0 := by decide
  obtain ⟨ip, s', hwrite⟩ : ∃ ip s', writei small oneFile 1 (oneFile.dinode 1) ⟨none, 0⟩
      (fun _ => 7) 0 2 = .ok (some 2, ip, s') := ⟨_, _, rfl⟩
  exact ⟨ip, s', hwrite, (writei_bytes oneFile_owns oneFile_mapped htype hwrite).1⟩

/-- `readi` refuses a length with which the end of the range wraps, though the file has a byte at
1. -/
theorem oneFile_wraps : ∃ ip s',
    writei small oneFile 1 (oneFile.dinode 1) ⟨none, 0⟩ (fun _ => 7) 0 2 = .ok (some 2, ip, s') ∧
      (s'.dinode 1).size = 2 ∧ ∀ mem, readi small s' (s'.dinode 1) ⟨none, 0⟩ mem 1 0xffffffff =
        .ok (some 0, mem, s'.dinode 1, s') :=
  ⟨_, _, rfl, by decide +kernel, fun _ => if_pos (by decide +kernel)⟩

end Xv6.Fs
