import Mathlib.Data.List.Nodup
import Mathlib.Data.List.Induction

/-!
# Doubly linked circular lists

`Circle L h xs` says that from the head `h` on the nodes `xs` follow each other, each once, and that
the last one leads back to the head; both ways.  A node can be taken out (`Circle.unlink`) and put
behind the head (`Circle.link`), and a search in either direction visits the nodes in order
(`Circle.scan_next`, `Circle.scan_prev`).
-/

namespace Xv6.Lib

open Function List

structure Links (N : Type*) where
  next : N → N
  prev : N → N

namespace Links

variable {N : Type*} [DecidableEq N] (L : Links N)

def setNext (x y : N) : Links N := { L with next := update L.next x y }

def setPrev (x y : N) : Links N := { L with prev := update L.prev x y }

/-- `b->next->prev = b->prev; b->prev->next = b->next`. -/
def unlink (b : N) : Links N :=
  let L := L.setPrev (L.next b) (L.prev b)
  L.setNext (L.prev b) (L.next b)

/-- `b->next = h->next; b->prev = h; h->next->prev = b; h->next = b`. -/
def link (h b : N) : Links N :=
  let L := L.setNext b (L.next h)
  let L := L.setPrev b h
  let L := L.setPrev (L.next h) b
  L.setNext h b

/-- A search along `f` from `x` on, up to the head: what it finds, or `none` when it does not
end. -/
def scan (f : N → N) (p : N → Bool) (h : N) : Nat → N → Option (Option N)
  | 0, _ => none
  | fuel + 1, x => if x = h then some none else if p x then some (some x) else scan f p h fuel (f x)

/-- The nodes `xs` lead from `a` to `z`. -/
def Seg (a : N) : List N → N → Prop
  | [], z => L.next a = z ∧ L.prev z = a
  | x :: xs, z => (L.next a = x ∧ L.prev x = a) ∧ Seg x xs z

structure Circle (h : N) (xs : List N) : Prop where
  nodup : (h :: xs).Nodup
  seg : L.Seg h xs h

variable {L} {L' : Links N} {a b d h x z : N} {xs ys : List N}

/-! ### Segments -/

omit [DecidableEq N]

theorem seg_append : L.Seg a (xs ++ b :: ys) z ↔ L.Seg a xs b ∧ L.Seg b ys z := by
  induction xs generalizing a with
  | nil => rfl
  | cons x xs ih => simp only [cons_append, Seg, ih, and_assoc]

namespace Seg

theorem prev_mem (hs : L.Seg a xs z) : L.prev z ∈ a :: xs := by
  induction xs generalizing a with
  | nil =>
    rw [hs.2]
    exact mem_singleton_self a
  | cons x xs ih => exact mem_cons_of_mem a (ih hs.2)

/-- The pointers between the nodes are the same. -/
theorem frame (hs : L.Seg a xs z) (hnext : ∀ x ∈ a :: xs, L'.next x = L.next x)
    (hprev : ∀ x ∈ xs ++ [z], L'.prev x = L.prev x) : L'.Seg a xs z := by
  induction xs generalizing a with
  | nil =>
    refine ⟨?_, ?_⟩
    · rw [hnext a (mem_singleton_self a)]
      exact hs.1
    · rw [hprev z (mem_singleton_self z)]
      exact hs.2
  | cons x xs ih =>
    obtain ⟨⟨hn, hp⟩, hrest⟩ := hs
    refine ⟨⟨?_, ?_⟩, ih hrest (fun y hy => hnext y (mem_cons_of_mem a hy))
      fun y hy => hprev y (mem_cons_of_mem x hy)⟩
    · rw [hnext a mem_cons_self]
      exact hn
    · rw [hprev x mem_cons_self]
      exact hp

/-- The last node leads to another one. -/
theorem retarget (hs : L.Seg a xs b) (hnodup : (a :: xs).Nodup)
    (hnext : ∀ x ∈ a :: xs, x ≠ L.prev b → L'.next x = L.next x) (hlast : L'.next (L.prev b) = d)
    (hprev : ∀ x ∈ xs, L'.prev x = L.prev x) (hd : L'.prev d = L.prev b) : L'.Seg a xs d := by
  induction xs generalizing a with
  | nil =>
    rw [hs.2] at hlast hd
    exact ⟨hlast, hd⟩
  | cons x xs ih =>
    obtain ⟨⟨hn, hp⟩, hrest⟩ := hs
    rw [nodup_cons] at hnodup
    have hne : a ≠ L.prev b := fun heq => hnodup.1 (heq ▸ hrest.prev_mem)
    refine ⟨⟨?_, ?_⟩, ih hrest hnodup.2 (fun y hy => hnext y (mem_cons_of_mem a hy))
      fun y hy => hprev y (mem_cons_of_mem x hy)⟩
    · rw [hnext a mem_cons_self hne]
      exact hn
    · rw [hprev x mem_cons_self]
      exact hp

end Seg

variable [DecidableEq N]

namespace Circle

theorem unlink (hc : L.Circle h (xs ++ b :: ys)) : (L.unlink b).Circle h (xs ++ ys) := by
  obtain ⟨hleft, hright⟩ := seg_append.mp hc.seg
  have hperm : (h :: (xs ++ b :: ys)).Perm (b :: h :: (xs ++ ys)) := by
    refine (List.Perm.cons h perm_middle).trans ?_
    exact List.Perm.swap b h (xs ++ ys)
  have hnodup := hperm.nodup_iff.mp hc.nodup
  rw [nodup_cons] at hnodup
  obtain ⟨hb, hnodup⟩ := hnodup
  have hsplit : (h :: xs ++ ys).Nodup := hnodup
  rw [nodup_append] at hsplit
  obtain ⟨hleftNodup, hrightNodup, hdisjoint⟩ := hsplit
  have hlast : L.prev b ∈ h :: xs := hleft.prev_mem
  -- the store to `b->next->prev` is not one to `b->prev`
  have hself : b ≠ L.next b := by
    cases ys with
    | nil =>
      rw [hright.1]
      exact fun heq => hb (heq ▸ mem_cons_self)
    | cons =>
      rw [hright.1.1]
      rintro rfl
      exact hb (mem_cons_of_mem h (mem_append_right xs mem_cons_self))
  have hprev : (L.unlink b).prev = update L.prev (L.next b) (L.prev b) := rfl
  have hnext : (L.unlink b).next = update L.next (L.prev b) (L.next b) := by
    simp only [Links.unlink, setPrev, setNext, update_of_ne hself]
  have hsame : ∀ x, x ≠ L.prev b → (L.unlink b).next x = L.next x := by
    intro x hx
    rw [hnext, update_of_ne hx]
  have hjoin : (L.unlink b).next (L.prev b) = L.next b := by rw [hnext, update_self]
  have hback : (L.unlink b).prev (L.next b) = L.prev b := by rw [hprev, update_self]
  have hprevSame : ∀ x, x ≠ L.next b → (L.unlink b).prev x = L.prev x := by
    intro x hx
    rw [hprev, update_of_ne hx]
  refine ⟨hnodup, ?_⟩
  cases ys with
  | nil =>
    rw [append_nil]
    obtain ⟨hn, -⟩ := hright
    rw [hn] at hjoin hback hprevSame
    refine hleft.retarget hleftNodup (fun x _ => hsame x) hjoin (fun x hx => hprevSame x ?_) hback
    rintro rfl
    exact (nodup_cons.mp hleftNodup).1 hx
  | cons y =>
    obtain ⟨⟨hn, -⟩, hrest⟩ := hright
    rw [hn] at hjoin hback hprevSame
    refine seg_append.mpr ⟨?_, ?_⟩
    · refine hleft.retarget hleftNodup (fun x _ => hsame x) hjoin (fun x hx => hprevSame x ?_) hback
      exact hdisjoint x (mem_cons_of_mem h hx) y mem_cons_self
    refine hrest.frame (fun x hx => hsame x ?_) fun x hx => hprevSame x ?_
    · rintro rfl
      exact hdisjoint _ hlast _ hx rfl
    · rintro rfl
      rw [mem_append, mem_singleton] at hx
      obtain hx | rfl := hx
      · exact (nodup_cons.mp hrightNodup).1 hx
      · exact hdisjoint _ mem_cons_self _ mem_cons_self rfl

theorem link (hc : L.Circle h xs) (hb : b ∉ h :: xs) : (L.link h b).Circle h (b :: xs) := by
  have hbh : b ≠ h := fun heq => hb (heq ▸ mem_cons_self)
  have hnodup : (h :: b :: xs).Nodup := by
    have hperm : (h :: b :: xs).Perm (b :: h :: xs) := List.Perm.swap b h xs
    exact hperm.nodup_iff.mpr (nodup_cons.mpr ⟨hb, hc.nodup⟩)
  have hhx := (nodup_cons.mp hc.nodup).1
  have hnext : ∀ x, x ≠ b → x ≠ h → (L.link h b).next x = L.next x := by
    intro x hxb hxh
    simp only [Links.link, setNext, setPrev, update_of_ne hxh, update_of_ne hxb]
  have hnextb : (L.link h b).next b = L.next h := by
    simp only [Links.link, setNext, setPrev, update_of_ne hbh, update_self]
  have hnexth : (L.link h b).next h = b := by
    simp only [Links.link, setNext, update_self]
  have hprev : (L.link h b).prev
      = update (update L.prev b h) (L.next h) b := by
    simp only [Links.link, setNext, setPrev, update_of_ne hbh.symm]
  refine ⟨hnodup, ?_⟩
  have hseg := hc.seg
  cases xs with
  | nil =>
    obtain ⟨hn, -⟩ := hseg
    rw [hn] at hprev hnextb
    refine ⟨⟨hnexth, ?_⟩, hnextb, ?_⟩
    · rw [hprev, update_of_ne hbh, update_self]
    · rw [hprev, update_self]
  | cons x =>
    obtain ⟨⟨hn, -⟩, hrest⟩ := hseg
    rw [hn] at hprev hnextb
    have hbx : b ≠ x := fun heq => hb (heq ▸ mem_cons_of_mem h mem_cons_self)
    refine ⟨⟨hnexth, ?_⟩, ⟨hnextb, ?_⟩, hrest.frame (fun y hy => hnext y ?_ ?_) fun y hy => ?_⟩
    · rw [hprev, update_of_ne hbx, update_self]
    · rw [hprev, update_self]
    · rintro rfl
      exact hb (mem_cons_of_mem h hy)
    · rintro rfl
      exact hhx hy
    have hyx : y ≠ x := by
      rintro rfl
      rw [mem_append, mem_singleton] at hy
      obtain hy | rfl := hy
      · exact (nodup_cons.mp (nodup_cons.mp hc.nodup).2).1 hy
      · exact hhx mem_cons_self
    have hyb : y ≠ b := by
      rintro rfl
      rw [mem_append, mem_singleton] at hy
      obtain hy | rfl := hy
      · exact hb (mem_cons_of_mem h (mem_cons_of_mem x hy))
      · exact hbh rfl
    rw [hprev, update_of_ne hyx, update_of_ne hyb]

end Circle

/-! ### Searches -/

variable {p : N → Bool}

theorem Seg.scan_next (hs : L.Seg a xs h) (hh : h ∉ xs) {fuel : Nat} (hfuel : xs.length < fuel) :
    scan L.next p h fuel (L.next a) = some (xs.find? p) := by
  induction xs generalizing a fuel with
  | nil =>
    obtain ⟨fuel, rfl⟩ := Nat.exists_eq_succ_of_ne_zero (Nat.ne_zero_of_lt hfuel)
    rw [hs.1, scan, if_pos rfl]
    rfl
  | cons x xs ih =>
    obtain ⟨fuel, rfl⟩ := Nat.exists_eq_succ_of_ne_zero (Nat.ne_zero_of_lt hfuel)
    obtain ⟨⟨hn, -⟩, hrest⟩ := hs
    have hxh : x ≠ h := fun heq => hh (heq ▸ mem_cons_self)
    have hrec := ih hrest (fun hmem => hh (mem_cons_of_mem x hmem)) (Nat.lt_of_succ_lt_succ hfuel)
    rw [hn, scan, if_neg hxh, List.find?_cons]
    cases hp : p x
    · exact hrec
    · rfl

theorem Seg.scan_prev (hs : L.Seg h xs z) (hh : h ∉ xs) {fuel : Nat} (hfuel : xs.length < fuel) :
    scan L.prev p h fuel (L.prev z) = some (xs.reverse.find? p) := by
  induction xs using List.reverseRecOn generalizing z fuel with
  | nil =>
    obtain ⟨fuel, rfl⟩ := Nat.exists_eq_succ_of_ne_zero (Nat.ne_zero_of_lt hfuel)
    rw [hs.2, scan, if_pos rfl]
    rfl
  | append_singleton xs x ih =>
    obtain ⟨fuel, rfl⟩ := Nat.exists_eq_succ_of_ne_zero (Nat.ne_zero_of_lt hfuel)
    obtain ⟨hrest, -, hp⟩ := seg_append.mp hs
    have hxh : x ≠ h := fun heq => hh (heq ▸ mem_append_right xs mem_cons_self)
    have hlength : (xs ++ [x]).length = xs.length + 1 := length_append
    have hrec : scan L.prev p h fuel (L.prev x) = some (xs.reverse.find? p) :=
      ih hrest (fun hmem => hh (mem_append_left _ hmem)) (by omega)
    rw [hp, scan, if_neg hxh, reverse_append, reverse_singleton, singleton_append,
      List.find?_cons]
    cases hpx : p x
    · exact hrec
    · rfl

end Links

end Xv6.Lib
