import Mathlib.Data.List.Nodup
import Xv6.Dir.Entries

/-!
# Directories are maps

`strncmp` and `strncpy` agree on what a name is (`strncmp_eq_zero_iff`, `key_strncpy`), so
`dirlookup` is the lookup in a list of pairs (`find`).
-/

namespace Xv6.Entries

open Function List

variable {name : Str} {de : Dirent} {es : List Dirent} {k : List UInt8}

/-! ### Names -/

theorem strncmp_eq_zero_iff (p q : Str) (n : Nat) : strncmp p q n = 0 ↔ p.key n = q.key n := by
  induction n generalizing p q with
  | zero => simp [strncmp, Str.key]
  | succ n ih =>
    rw [strncmp, Str.key, Str.key]
    by_cases hp : p 0 = 0
    · by_cases hq : q 0 = 0
      · simp [hp, hq]
      · have hne : (q 0).toNat ≠ 0 := fun h => hq (UInt8.toNat_inj.mp h)
        simp [hp, hq, hne]
    · by_cases hq : p 0 = q 0
      · simp [← hq, hp, ih]
      · have hne : (p 0).toNat ≠ (q 0).toNat := fun h => hq (UInt8.toNat_inj.mp h)
        rw [if_neg (by simp [hq]), if_neg hp]
        split_ifs <;> simp [hq] <;> omega

theorem key_strncpy (p : Str) (n : Nat) (inum : UInt16) :
    (Dirent.str ⟨inum, strncpy p n⟩).key n = p.key n := by
  induction n generalizing p with
  | zero => rfl
  | succ n ih =>
    by_cases hp : p 0 = 0
    · rw [strncpy, Str.key, Str.key, if_pos hp, if_pos hp]
      exact if_pos rfl
    · rw [strncpy, Str.key, Str.key, if_neg hp, if_neg hp]
      exact (if_neg hp).trans (congrArg _ (ih p.tail))

/-! ### Entries -/

def Dirent.key (de : Dirent) : List UInt8 := de.str.key dirsiz

/-- The inode number of a name. -/
def find (k : List UInt8) : List Dirent → Option (UInt16)
  | [] => none
  | de :: es => if de.inum ≠ 0 ∧ de.key = k then some de.inum else find k es

theorem names_cons : names (de :: es) = if de.inum = 0 then names es else de.key :: names es := by
  by_cases hde : de.inum = 0
  · simp [names, hde]
  · simp [names, hde, Dirent.key]

theorem find_eq_none_iff : find k es = none ↔ k ∉ names es := by
  induction es with
  | nil => simp [find, names]
  | cons de es ih =>
    rw [find, names_cons]
    by_cases hde : de.inum = 0
    · simp [hde, ih]
    · by_cases hk : de.key = k
      · simp [hde, hk]
      · simp [hde, hk, ih, Ne.symm hk]

theorem dirlookup_find (off : Nat) :
    (dirlookup name es off).map Prod.snd = find (name.key dirsiz) es := by
  induction es generalizing off with
  | nil => rfl
  | cons de es ih =>
    have hcmp : namecmp name de.str = 0 ↔ de.key = name.key dirsiz :=
      (strncmp_eq_zero_iff ..).trans eq_comm
    rw [dirlookup, find]
    by_cases hde : de.inum = 0
    · simp [hde, ih]
    · by_cases hk : de.key = name.key dirsiz
      · simp [hde, hcmp, hk]
      · simp [hde, hcmp, hk, ih]

theorem dirlookup_offset {off o : Nat} {inum : UInt16}
    (h : dirlookup name es off = some (o, inum)) :
    ∃ i de, o = off + 16 * i ∧ es[i]? = some de ∧ de.inum = inum ∧ de.inum ≠ 0 ∧
      de.key = name.key dirsiz := by
  induction es generalizing off with
  | nil => cases h
  | cons de es ih =>
    rw [dirlookup] at h
    have hnext : dirlookup name es (off + 16) = some (o, inum) → ∃ i de', o = off + 16 * i ∧
        (de :: es)[i]? = some de' ∧ de'.inum = inum ∧ de'.inum ≠ 0 ∧ de'.key = name.key dirsiz := by
      intro h
      obtain ⟨i, de', ho, hi, hde'⟩ := ih h
      exact ⟨i + 1, de', by omega, hi, hde'⟩
    split_ifs at h with hde hcmp
    · exact hnext h
    · cases h
      exact ⟨0, de, rfl, rfl, rfl, hde, ((strncmp_eq_zero_iff ..).mp hcmp).symm⟩
    · exact hnext h

section

variable {new : Dirent} (hnew : new.inum ≠ 0)

include hnew

theorem find_place (h : find new.key es = none) :
    find k (place new es) = if new.key = k then some new.inum else find k es := by
  induction es with
  | nil => simp [place, find, hnew]
  | cons de es ih =>
    rw [find] at h
    split_ifs at h with hde
    rw [place, find]
    by_cases hz : de.inum = 0
    · simp [hz, find, hnew]
    · rw [if_neg hz, find, ih h]
      by_cases hk : new.key = k
      · rw [if_pos hk, if_pos hk, if_neg (fun hd => hde ⟨hd.1, hd.2.trans hk.symm⟩)]
      · rw [if_neg hk, if_neg hk]

theorem names_place : (names (place new es)).Perm (new.key :: names es) := by
  induction es with
  | nil =>
    rw [place, names_cons, if_neg hnew]
  | cons de es ih =>
    rw [place]
    split_ifs with hz
    · rw [names_cons, names_cons, if_neg hnew, if_pos hz]
    · rw [names_cons, names_cons, if_neg hz, if_neg hz]
      exact (ih.cons _).trans (.swap ..)

end

theorem names_set (i : Nat) : (names (es.set i hole)).Sublist (names es) := by
  induction es generalizing i with
  | nil => exact .refl _
  | cons de es ih =>
    cases i with
    | zero =>
      rw [set_cons_zero, names_cons, names_cons, if_pos (show hole.inum = 0 from rfl)]
      split_ifs
      · exact .refl _
      · exact sublist_cons_self ..
    | succ i =>
      rw [set_cons_succ, names_cons, names_cons]
      split_ifs
      · exact ih i
      · exact (ih i).cons_cons _

theorem mem_names {i : Nat} (hi : es[i]? = some de) (hde : de.inum ≠ 0) : de.key ∈ names es :=
  mem_map.mpr ⟨de, mem_filter.mpr ⟨mem_of_getElem? hi, by simpa using hde⟩, rfl⟩

theorem find_set {i : Nat} (hnodup : (names es).Nodup) (hi : es[i]? = some de)
    (hde : de.inum ≠ 0) :
    find k (es.set i hole) = if de.key = k then none else find k es := by
  induction es generalizing i with
  | nil => cases hi
  | cons e es ih =>
    rw [names_cons] at hnodup
    cases i with
    | zero =>
      obtain rfl := Option.some.inj hi
      rw [if_neg hde, nodup_cons] at hnodup
      rw [set_cons_zero, find, find, if_neg (fun h => h.1 rfl)]
      by_cases hk : e.key = k
      · rw [if_pos hk, ← hk]
        exact find_eq_none_iff.mpr hnodup.1
      · rw [if_neg hk, if_neg (fun h => hk h.2)]
    | succ i =>
      have hmem : de.key ∈ names es := mem_names hi hde
      have hes : (names es).Nodup := by
        split_ifs at hnodup
        · exact hnodup
        · exact hnodup.of_cons
      rw [set_cons_succ, find, find, ih hes hi]
      by_cases he : e.inum ≠ 0 ∧ e.key = k
      · rw [if_neg he.1, nodup_cons] at hnodup
        have hne : de.key ≠ k := fun h => hnodup.1 (he.2.trans h.symm ▸ hmem)
        rw [if_pos he, if_neg hne, if_pos he]
      · rw [if_neg he, if_neg he]

/-! ### Histories -/

structure Refines (es : List Dirent) (m : List UInt8 → Option (UInt16)) : Prop where
  nodup : (names es).Nodup
  lookup : ∀ k, find k es = m k

variable {m : List UInt8 → Option (UInt16)}

theorem Refines.found (h : Refines es m) (name : Str) :
    (dirlookup name es 0).map Prod.snd = m (name.key dirsiz) :=
  (dirlookup_find 0).trans (h.lookup _)

theorem Refines.step (h : Refines es m) {op : Op} (hop : op.Ok) :
    Refines (step es op) (op.apply m) := by
  cases op with
  | dirlink name inum =>
    have hlookup := h.found name
    rw [Entries.step, Op.apply, dirlink]
    cases hlook : dirlookup name es 0 with rw [hlook] at hlookup
    | some found =>
      rw [if_neg (by simp [← hlookup])]
      exact h
    | none =>
      rw [if_pos (show m (name.key dirsiz) = none from hlookup.symm)]
      have hkey : Dirent.key ⟨inum, strncpy name dirsiz⟩ = name.key dirsiz := key_strncpy ..
      show Refines (place ⟨inum, strncpy name dirsiz⟩ es) _
      generalize hnew : (⟨inum, strncpy name dirsiz⟩ : Dirent) = new at hkey ⊢
      have hlive : new.inum ≠ 0 := hnew ▸ hop
      have hfree : find new.key es = none := by
        rw [hkey, h.lookup, ← hlookup]
        rfl
      refine ⟨?_, fun k => ?_⟩
      · refine (names_place hlive).nodup_iff.mpr (nodup_cons.mpr ⟨?_, h.nodup⟩)
        exact find_eq_none_iff.mp hfree
      · rw [find_place hlive hfree, hkey, update_apply, h.lookup, ← hnew]
        exact if_congr eq_comm rfl rfl
  | unlink name =>
    have hlookup := h.found name
    rw [Entries.step, Op.apply, unlink]
    cases hlook : dirlookup name es 0 with rw [hlook] at hlookup
    | none =>
      rwa [show (none : Option UInt16) = m (name.key dirsiz) from hlookup, update_eq_self]
    | some found =>
      obtain ⟨off, inum⟩ := found
      obtain ⟨i, de, rfl, hi, -, hde, hk⟩ := dirlookup_offset hlook
      have hdiv : (0 + 16 * i) / 16 = i := by omega
      show Refines (es.set ((0 + 16 * i) / 16) hole) _
      rw [hdiv]
      refine ⟨(names_set i).nodup h.nodup, fun k => ?_⟩
      rw [find_set h.nodup hi hde, hk, update_apply, h.lookup]
      exact if_congr eq_comm rfl rfl

theorem Refines.isMap (h : Refines es m) : IsMap es m := by
  refine ⟨h.nodup, h.found, fun name off inum hlook => ?_, fun name inum => ?_,
    fun op hop name hne => ?_⟩
  · obtain ⟨i, de, hoff, hi, hinum, -, hk⟩ := dirlookup_offset hlook
    exact ⟨i, de, by omega, hi, hinum, hk⟩
  · rw [← h.found, dirlink]
    cases dirlookup name es 0 <;> simp
  · rw [(h.step hop).found, h.found]
    cases op with
    | dirlink =>
      rw [Op.apply]
      split_ifs
      · exact update_of_ne hne ..
      · rfl
    | unlink => exact update_of_ne hne ..

/-- **Directories are maps**: every sequence of calls on a new directory is one on a map. -/
theorem directory_map (ops : List Op) (hops : ∀ op ∈ ops, op.Ok) :
    IsMap (ops.foldl step []) (ops.foldl Op.apply fun _ => none) := by
  have hrefines : ∀ es m, Refines es m → Refines (ops.foldl step es) (ops.foldl Op.apply m) := by
    induction ops with
    | nil => exact fun es m h => h
    | cons op ops ih =>
      intro es m h
      have hop := hops op mem_cons_self
      exact ih (fun op hmem => hops op (mem_cons_of_mem _ hmem)) _ _ (h.step hop)
  have hnew : Refines [] fun _ => none := ⟨nodup_nil, fun _ => rfl⟩
  exact (hrefines _ _ hnew).isMap

/-- `a` is linked twice, removed and linked again. -/
def relink : List Op :=
  let a : Str := fun k => if k = 0 then 97 else 0
  [.dirlink a 5, .dirlink a 6, .unlink a, .dirlink a 7]

theorem relink_map : (∀ op ∈ relink, op.Ok) ∧
    IsMap (relink.foldl step []) (relink.foldl Op.apply fun _ => none) := by
  have hok : ∀ op ∈ relink, op.Ok := by simp [relink, Op.Ok]
  exact ⟨hok, directory_map relink hok⟩

end Xv6.Entries
