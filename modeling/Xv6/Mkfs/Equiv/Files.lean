import Xv6.Mkfs.Equiv.Image

/-!
# What `mkfs` promises to the kernel

An image of files for which there are inodes is consistent exactly when their names are different
(`mkfs_consistent`), unless the entries fill the last block of the root directory: `main` then gives
it a block too many. The kernel reads from the image what was in the files (`mkfs_readable`).
-/

namespace Xv6.Mkfs

open Lib Fs Bcache

theorem rootino_lt {n : Nat} : rootino < n + 2 := Nat.succ_lt_succ (Nat.succ_pos n)

/-- **Consistency**: when `mkfs` exits normally and has an inode below `NINODES` for each file, and
the entries do not fill the last block of the root directory, the image is consistent exactly when
the names differ in their first `DIRSIZ` bytes. -/
theorem mkfs_consistent (files : List Input) (s : State) (hrun : mkfs files = .ok s)
    (hinodes : files.length + 2 ≤ ninodes) (hroom : 16 * (files.length + 2) % bsize ≠ 0) :
    Consistent s ↔ (names files).Nodup := by
  obtain ⟨s₀, content, hbuilt, hfin, hnext, hroot, -⟩ := mkfs_finished hrun hinodes
  have hlt : rootino < s₀.freeinode := hnext ▸ rootino_lt
  have hmapped : Mapped s.mount := by
    refine hbuilt.mapped hfin hlt ?_
    rw [hroot, length_flatten_rootEntries]
    exact hroom
  have hstores := hbuilt.mount_stores hfin
  have htype : (s.dinode rootino).type ≠ 0 := by
    rw [hfin.dinode, Function.update_self]
    exact (hbuilt.type rootino).mpr ⟨one_le_rootino, hlt⟩
  have hsize : (s.dinode rootino).size.toNat % bsize = 0 := by
    rw [hbuilt.root_size hfin hlt, Nat.mul_mod_left]
  constructor
  · intro hok
    have hentry : ∀ i, i < (names files).length → 16 * i < (s.dinode rootino).size.toNat ∧
        s.entryInum i ≠ 0 ∧ (names files)[i]? = some (s.entryName i) := by
      intro i hi
      rw [← map_drop_rootEntries, List.length_map] at hi
      have hlen := length_rootEntries files
      have hsz : 16 * i < (s.dinode rootino).size.toNat := by
        rw [hbuilt.root_size hfin hlt, hroot, length_flatten_rootEntries, bsize]
        omega
      exact ⟨hsz, entryInum_ne_zero hmapped hstores htype hroot hsize hsz hi hinodes,
        entryName_eq hmapped hstores htype hroot hsize hsz hi⟩
    refine List.nodup_iff_injective_get.mpr fun i j heq => Fin.ext ?_
    obtain ⟨hi, hinumi, hni⟩ := hentry i i.isLt
    obtain ⟨hj, hinumj, hnj⟩ := hentry j j.isLt
    obtain ⟨hilt, hi'⟩ := List.getElem?_eq_some_iff.mp hni
    obtain ⟨hjlt, hj'⟩ := List.getElem?_eq_some_iff.mp hnj
    exact hok.names i j hi hj hinumi hinumj (hi'.symm.trans (heq.trans hj'))
  intro hnames
  refine ⟨fun inum _ hinum => ?_, ⟨hbuilt.mount_owns hfin, hmapped, fun _ => rfl⟩,
    hbuilt.marked hfin, fun i j hi hj hinumi hinumj heq => ?_⟩
  · rw [hfin.freeinode, hnext] at hinum
    have hn : sb.ninodes.toNat = ninodes := by decide
    omega
  · have hli := entry_lt hmapped hstores htype hroot hsize hi hinumi
    have hlj := entry_lt hmapped hstores htype hroot hsize hj hinumj
    have hni := entryName_eq hmapped hstores htype hroot hsize hi hli
    have hnj := entryName_eq hmapped hstores htype hroot hsize hj hlj
    obtain ⟨hilt, hi'⟩ := List.getElem?_eq_some_iff.mp hni
    obtain ⟨hjlt, hj'⟩ := List.getElem?_eq_some_iff.mp hnj
    exact hnames.getElem_inj_iff.mp (hi'.trans (heq.trans hj'.symm))

/-- **The kernel reads what `mkfs` wrote**: `readi` copies the bytes of the file from `off` on, at
most `n` of them, piece by piece until a copy fails; to a kernel address they arrive as one. -/
theorem mkfs_readable (files : List Input) (s : State) (hrun : mkfs files = .ok s)
    (hinodes : files.length + 2 ≤ ninodes) (k : Nat) (f : Input) (hf : files[k]? = some f)
    (buf : Buffer) (mem : Mem) (off n : BitVec 32) (hover : off.toNat + n.toNat < 2 ^ 32) :
    (∃ pieces, pieces.flatten = (f.bytes.drop off.toNat).take n.toNat ∧
      readi sb s.mount (s.dinode (2 + k)) buf mem off n =
        .ok ((deliver buf 0 pieces mem).1, (deliver buf 0 pieces mem).2, s.dinode (2 + k), s.mount)) ∧
    (buf.walkaddr = none → readi sb s.mount (s.dinode (2 + k)) buf mem off n =
      .ok (some ((f.bytes.drop off.toNat).take n.toNat).length,
        memmove mem buf.addr ((f.bytes.drop off.toNat).take n.toNat), s.dinode (2 + k), s.mount)) := by
  obtain ⟨s₀, content, hbuilt, hfin, hnext, -, hfiles⟩ := mkfs_finished hrun hinodes
  have hk : k < files.length := (List.getElem?_eq_some_iff.mp hf).1
  have hne : 2 + k ≠ rootino := by
    rw [rootino]
    omega
  have hdinode : s.dinode (2 + k) = s₀.dinode (2 + k) := by
    rw [hfin.dinode, Function.update_of_ne hne]
  have hself : s.mount.iupdate (2 + k) (s.dinode (2 + k)) = s.mount :=
    congrArg (fun d => { s.mount with dinode := d }) (Function.update_eq_self (2 + k) s.dinode)
  have hgood : Good sb (2 + k) (s.dinode (2 + k)) s.mount := by
    refine ⟨?_, ?_⟩
    · rw [hself]
      exact hbuilt.mount_owns hfin
    · rw [hdinode]
      exact (hbuilt.type _).mpr ⟨by omega, by omega⟩
  have hsize : (s.dinode (2 + k)).size.toNat = (content (2 + k)).length := by
    rw [hdinode]
    exact hbuilt.size _ (by omega) (by omega)
  have hstores := hbuilt.mount_stores hfin
  obtain ⟨pieces, hflat, hread⟩ :=
    readi_pieces buf mem (by rw [hself, hsize]; exact hstores.covers _) hgood hover
  rw [hself, hsize, hstores.bytes_eq, hfiles k f hf] at hflat
  refine ⟨⟨pieces, hflat, hread⟩, fun hkernel => ?_⟩
  have hlen : pieces.flatten.length < 2 ^ 64 := by
    rw [hflat]
    have := List.length_take_le n.toNat (f.bytes.drop off.toNat)
    omega
  have hdeliver := deliver_kernel hkernel pieces [] mem (by simpa using hlen)
  rw [show memmove mem buf.addr [] = mem from rfl, List.length_nil, Nat.zero_add, List.nil_append,
    hflat] at hdeliver
  rw [hread, hdeliver]

theorem exists_of_isOk (files : List Input) (P : State → Bool)
    (h : (match mkfs files with | .ok s => P s | .error _ => false) = true) :
    ∃ s, mkfs files = .ok s ∧ P s = true := by
  cases hrun : mkfs files with rw [hrun] at h
  | error =>
    cases h
  | ok s =>
    exact ⟨s, rfl, h⟩

/-- `README` with two bytes, and `user/_cat` with one. -/
def twoFiles : List Input :=
  [⟨[82, 69, 65, 68, 77, 69], some [[7], [9]]⟩, ⟨[117, 115, 101, 114, 47, 95, 99, 97, 116], some [[5]]⟩]

theorem twoFiles_consistent : ∃ s, mkfs twoFiles = .ok s ∧ Consistent s := by
  obtain ⟨s, hrun, -⟩ := exists_of_isOk twoFiles (fun _ => true) (by decide +kernel)
  exact ⟨s, hrun, (mkfs_consistent twoFiles s hrun (by decide) (by decide)).mpr (by decide)⟩

def alike : List Input :=
  [⟨[97, 98, 99, 100, 101, 102, 103, 104, 105, 106, 107, 108, 109, 110, 111], some []⟩,
    ⟨[97, 98, 99, 100, 101, 102, 103, 104, 105, 106, 107, 108, 109, 110, 112], some []⟩]

/-- Two files with the same name in the root directory. -/
theorem alike_names : ∃ s, mkfs alike = .ok s ∧ s.entryInum 2 = 2 ∧ s.entryInum 3 = 3 ∧
    s.entryName 2 = s.entryName 3 ∧ ¬Consistent s := by
  obtain ⟨s, hrun, h⟩ := exists_of_isOk alike (fun s =>
    16 * 3 < (s.dinode rootino).size.toNat ∧ s.entryInum 2 = 2 ∧ s.entryInum 3 = 3 ∧
      s.entryName 2 = s.entryName 3) (by decide +kernel)
  obtain ⟨hsize, h₂, h₃, hname⟩ := of_decide_eq_true h
  refine ⟨s, hrun, h₂, h₃, hname, fun hok => ?_⟩
  have heq := hok.names 2 3 (by omega) hsize (by omega) (by omega) hname
  cases heq

theorem twoFiles_readable : ∃ s, mkfs twoFiles = .ok s ∧
    readi sb s.mount (s.dinode 2) ⟨none, 0⟩ (fun _ => 0) 1 4 =
      .ok (some 1, memmove (fun _ => 0) 0 [9], s.dinode 2, s.mount) := by
  obtain ⟨s, hrun, -⟩ := exists_of_isOk twoFiles (fun _ => true) (by decide +kernel)
  exact ⟨s, hrun, (mkfs_readable twoFiles s hrun (by decide) 0 _ rfl ⟨none, 0⟩ (fun _ => 0) 1 4
    (by decide)).2 rfl⟩

/-- A length with which `off + n` overflows: nothing is read, although the file goes on. -/
theorem twoFiles_overflow : ∃ s, mkfs twoFiles = .ok s ∧
    readi sb s.mount (s.dinode 2) ⟨none, 0⟩ (fun _ => 0) 1 4294967295 =
      .ok (some 0, fun _ => 0, s.dinode 2, s.mount) ∧
    (twoFiles[0]?.map fun f => (f.bytes.drop 1).take 4294967295) = some [9] := by
  obtain ⟨s, hrun, -⟩ := exists_of_isOk twoFiles (fun _ => true) (by decide +kernel)
  refine ⟨s, hrun, ?_, by decide⟩
  rw [readi, if_pos (.inr (by decide))]

end Xv6.Mkfs
