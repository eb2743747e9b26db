import Mathlib.Data.List.Basic
import Mathlib.Data.Nat.ModEq

/-!
# Rings with free-running counters

A ring of `n` entries in which one side stores an entry and then advances its counter, and the other
side reads the entries up to there.  The counters have `w` bits and wrap around; the entry of a
counter is its remainder modulo `n`, which divides `2 ^ w`.

`put` and `taken` are the histories of the two sides.  `Ok r rest` says that `rest` is what was put
and not taken yet, and lies in the ring.
-/

namespace Xv6.Lib

open List

structure Ring (w n : Nat) (α : Type*) where
  data : Fin n → α
  /-- The counter of the side that puts, and of the one that takes. -/
  idx : BitVec w
  seen : BitVec w
  put : List α
  taken : List α

namespace Ring

variable {w n : Nat} {α : Type*} [NeZero n]

def slot (c : BitVec w) : Fin n := Fin.ofNat n c.toNat

variable (r : Ring w n α)

/-- The next entry is stored. -/
def set (a : α) : Ring w n α := { r with data := Function.update r.data (slot r.idx) a }

/-- It is made known. -/
def advance : Ring w n α :=
  { r with idx := r.idx + 1, put := r.put ++ [r.data (slot r.idx)] }

/-- The entry that is read next. -/
def first : α := r.data (slot r.seen)

def take : Ring w n α := { r with seen := r.seen + 1, taken := r.taken ++ [r.first] }

def back : Ring w n α := { r with idx := r.idx - 1, put := r.put.dropLast }

/-- The entries between the two counters. -/
def contents : List α :=
  (List.range (r.idx - r.seen).toNat).map fun k => r.data (slot (r.seen + BitVec.ofNat w k))

structure Ok (rest : List α) : Prop where
  history : r.put = r.taken ++ rest
  idx : r.idx = r.seen + BitVec.ofNat w rest.length
  size : rest.length ≤ n
  data : ∀ k < rest.length, rest[k]? = some (r.data (slot (r.seen + BitVec.ofNat w k)))

variable {r}

/-- The counters wrap around after a multiple of the size. -/
theorem slot_add (hdvd : n ∣ 2 ^ w) (c : BitVec w) (k : Nat) :
    (slot (n := n) (c + BitVec.ofNat w k)).val = (c.toNat + k) % n := by
  simp only [slot, Fin.ofNat, BitVec.toNat_add, BitVec.toNat_ofNat]
  rw [Nat.mod_mod_of_dvd _ hdvd, Nat.add_mod, Nat.mod_mod_of_dvd _ hdvd, ← Nat.add_mod]

theorem slot_ne (hdvd : n ∣ 2 ^ w) (c : BitVec w) {k m : Nat} (hlt : k < m) (hm : m < k + n) :
    slot (n := n) (c + BitVec.ofNat w k) ≠ slot (c + BitVec.ofNat w m) := by
  intro heq
  have hmod : (c.toNat + k) % n = (c.toNat + m) % n := by
    rw [← slot_add hdvd, ← slot_add hdvd, heq]
  have hdvd' : n ∣ (c.toNat + m) - (c.toNat + k) := (Nat.modEq_iff_dvd' (by omega)).mp hmod
  rw [Nat.add_sub_add_left] at hdvd'
  exact absurd (Nat.le_of_dvd (by omega) hdvd') (by omega)

namespace Ok

variable {rest : List α} {a : α}

theorem set (h : r.Ok rest) (hdvd : n ∣ 2 ^ w) (hroom : rest.length < n) (a : α) :
    (r.set a).Ok rest := by
  refine ⟨h.history, h.idx, h.size, fun k hk => ?_⟩
  have hne : slot (n := n) (r.seen + BitVec.ofNat w k) ≠ slot r.idx := by
    rw [h.idx]
    exact slot_ne hdvd r.seen hk (by omega)
  simp only [Ring.set, Function.update_of_ne hne]
  exact h.data k hk

theorem advance (h : r.Ok rest) (hroom : rest.length < n) (ha : r.data (slot r.idx) = a) :
    r.advance.Ok (rest ++ [a]) := by
  have hlength : (rest ++ [a]).length = rest.length + 1 := length_append
  constructor
  · simp only [Ring.advance, h.history, ha, append_assoc]
  · simp only [Ring.advance, h.idx, hlength, BitVec.ofNat_add, BitVec.add_assoc]
    rfl
  · rw [hlength]
    exact hroom
  · intro k hk
    rw [hlength] at hk
    obtain hlt | rfl := Nat.lt_succ_iff_lt_or_eq.mp hk
    · rw [List.getElem?_append_left hlt]
      exact h.data k hlt
    · rw [List.getElem?_concat_length, ← ha, h.idx]
      rfl

/-- The counters differ when there is something to take. -/
theorem idx_eq_seen (h : r.Ok rest) (hn : n < 2 ^ w) : r.idx = r.seen ↔ rest = [] := by
  have hsize := h.size
  rw [h.idx, ← length_eq_zero_iff, ← BitVec.toNat_inj, BitVec.toNat_add, BitVec.toNat_ofNat]
  have hlt := r.seen.isLt
  rw [Nat.mod_eq_of_lt (show rest.length < 2 ^ w by omega)]
  constructor
  · intro heq
    by_contra hne
    obtain hsmall | hbig := Nat.lt_or_ge (r.seen.toNat + rest.length) (2 ^ w)
    · rw [Nat.mod_eq_of_lt hsmall] at heq
      omega
    · rw [Nat.mod_eq_sub_mod hbig, Nat.mod_eq_of_lt (by omega)] at heq
      omega
  · intro hzero
    rw [hzero, Nat.add_zero, Nat.mod_eq_of_lt hlt]

theorem first_eq (h : r.Ok (a :: rest)) : r.first = a := by
  have hdata := h.data 0 (Nat.zero_lt_succ _)
  rw [List.getElem?_cons_zero] at hdata
  have hzero : r.seen + BitVec.ofNat w 0 = r.seen := BitVec.add_zero r.seen
  rw [hzero] at hdata
  exact (Option.some.inj hdata).symm

theorem take (h : r.Ok (a :: rest)) : r.take.Ok rest := by
  have hlength : (a :: rest).length = rest.length + 1 := length_cons
  have hnext : ∀ k, r.seen + 1 + BitVec.ofNat w k = r.seen + BitVec.ofNat w (k + 1) := by
    intro k
    rw [BitVec.add_assoc, Nat.add_comm k 1, BitVec.ofNat_add]
    rfl
  constructor
  · simp only [Ring.take, h.history, h.first_eq, append_assoc]
    rfl
  · simp only [Ring.take, h.idx, hlength, hnext]
  · exact le_trans (Nat.le_succ _) h.size
  · intro k hk
    simp only [Ring.take, hnext]
    have hdata := h.data (k + 1) (by rw [hlength]; omega)
    rwa [List.getElem?_cons_succ] at hdata

theorem back (h : r.Ok (rest ++ [a])) : r.back.Ok rest := by
  have hlength : (rest ++ [a]).length = rest.length + 1 := length_append
  constructor
  · simp only [Ring.back, h.history, ← append_assoc, dropLast_concat]
  · simp only [Ring.back, h.idx, hlength, BitVec.ofNat_add, ← BitVec.add_assoc]
    exact BitVec.add_sub_cancel _ _
  · exact le_trans (by omega) h.size
  · intro k hk
    have hleft : (rest ++ [a])[k]? = rest[k]? := List.getElem?_append_left hk
    exact hleft ▸ h.data k (by omega)

theorem toNat_sub (h : r.Ok rest) (hn : n < 2 ^ w) : (r.idx - r.seen).toNat = rest.length := by
  have hsize := h.size
  rw [h.idx, BitVec.add_comm, BitVec.add_sub_cancel, BitVec.toNat_ofNat,
    Nat.mod_eq_of_lt (by omega)]

theorem contents_eq (h : r.Ok rest) (hn : n < 2 ^ w) : r.contents = rest := by
  refine ext_getElem? fun k => ?_
  rw [contents, h.toNat_sub hn, List.getElem?_map]
  obtain hlt | hge := Nat.lt_or_ge k rest.length
  · rw [List.getElem?_range hlt, h.data k hlt]
    rfl
  · rw [List.getElem?_eq_none (by simpa using hge), List.getElem?_eq_none hge]
    rfl

/-- The ring seen by a side that starts behind `xs`. -/
theorem drop {xs ys : List α} (h : r.Ok (xs ++ ys)) :
    ({ r with
      seen := r.seen + BitVec.ofNat w xs.length
      taken := r.taken ++ xs } : Ring w n α).Ok ys := by
  have hlength : (xs ++ ys).length = xs.length + ys.length := length_append
  have hadd : ∀ k, r.seen + BitVec.ofNat w xs.length + BitVec.ofNat w k =
      r.seen + BitVec.ofNat w (xs.length + k) := by
    intro k
    rw [BitVec.add_assoc, BitVec.ofNat_add]
  constructor
  · rw [h.history, append_assoc]
  · rw [h.idx, hlength, hadd]
  · exact le_trans (by omega) h.size
  · intro k hk
    have hdata := h.data (xs.length + k) (by omega)
    rw [List.getElem?_append_right (Nat.le_add_right _ _), Nat.add_sub_cancel_left] at hdata
    rw [hdata, hadd]

/-- The ring seen by a side that stops behind `xs`. -/
theorem left {xs ys : List α} (h : r.Ok (xs ++ ys)) :
    ({ r with
      idx := r.seen + BitVec.ofNat w xs.length
      put := r.taken ++ xs } : Ring w n α).Ok xs := by
  have hlength : (xs ++ ys).length = xs.length + ys.length := length_append
  refine ⟨rfl, rfl, le_trans (by omega) h.size, fun k hk => ?_⟩
  have hleft : (xs ++ ys)[k]? = xs[k]? := List.getElem?_append_left hk
  exact hleft ▸ h.data k (by omega)

end Ok

end Ring

end Xv6.Lib
