import Xv6.Fs.Table
import Xv6.Lib.Sum

/-!
# The inode table keeps one copy of an inode

An entry in use with `valid` set has the inode as it is on the disk, unless its holder has changed
it or just freed it (`Inv`). An unused entry may keep an old copy with `valid` set
(`leftBehind_stale`).
-/

namespace Xv6.Itable

open Lib Function

variable {θ : Type} [DecidableEq θ] {s s' : State θ} {t u : θ} {i j : Fin ninode} {p q : Pc}

/-! ### The invariant -/

/-- What a thread knows at a line of `ilock`, `iput` or `ialloc`. -/
def PcOk (s : State θ) (t : θ) : Pc → Prop
  | .idle | .get _ => True
  | .scan _ _ type => type ≠ 0
  | .lock i => 0 < s.refs t i
  | .load i => (s.inode i).holder = some t
  | .trunc i | .zero i => (s.inode i).holder = some t ∧ (s.inode i).valid = true ∧
      (s.inode i).mem.nlink = 0 ∧ s.found t = 1 ∧ s.dirty i = false
  | .invalid i => (s.inode i).holder = some t ∧ s.dirty i = false
  | .unlock i => (s.inode i).holder = some t ∧ (s.inode i).valid = false ∧ s.dirty i = false
  | .drop i => (if (s.inode i).holder = some t then 1 else 0) < s.refs t i

/-- The inode in memory is what the disk has. -/
structure Copy (s : State θ) (i : Fin ninode) : Prop where
  type : (s.inode i).mem.type ≠ 0
  same : (s.disk (s.inode i).key).type = (s.inode i).mem.type
  clean : s.dirty i = false → (s.inode i).mem = s.disk (s.inode i).key

omit [DecidableEq θ] in
/-- Nothing changes for the copy of entry `i`; the entry may have been written to the disk. -/
theorem Copy.congr (h : Copy s i) (hmem : (s'.inode i).mem = (s.inode i).mem)
    (hdisk : s'.disk (s'.inode i).key = s.disk (s.inode i).key)
    (hdirty : s'.dirty i = false → s.dirty i = false) : Copy s' i where
  type := by
    rw [hmem]
    exact h.type
  same := by
    rw [hmem, hdisk]
    exact h.same
  clean hclean := by
    rw [hmem, hdisk]
    exact h.clean (hdirty hclean)

omit [DecidableEq θ] in
theorem Copy.setHolder {holder : Option θ} (h : Copy s i)
    (hs' : s' = { s.setInode i { s.inode i with holder } with pc := s'.pc, found := s'.found }) :
    Copy s' i := by
  rw [hs']
  refine h.congr ?_ ?_ id <;> simp only [State.setInode, update_self]

/-- Whether the inode is allocated, as a number. -/
def inUse (d : Dinode) : Nat := if d.type = 0 then 0 else 1

theorem inUse_zero {d : Dinode} (h : d.type = 0) : inUse d = 0 := if_pos h

theorem inUse_one {d : Dinode} (h : d.type ≠ 0) : inUse d = 1 := if_neg h

theorem inUse_congr {d d' : Dinode} (h : d.type = d'.type) : inUse d = inUse d' := by
  unfold inUse
  rw [h]

structure Inv [Fintype θ] (s : State θ) : Prop where
  ref : ∀ i, (s.inode i).ref = ∑ t, s.refs t i
  unique : ∀ i j, 0 < (s.inode i).ref → 0 < (s.inode j).ref → (s.inode i).key = (s.inode j).key → i = j
  copies : ∀ i, 0 < (s.inode i).ref → (s.inode i).valid = true → (∀ t, s.pc t ≠ .invalid i) → Copy s i
  dirty : ∀ i, s.dirty i = true → (s.inode i).holder ≠ none
  holds : ∀ i t, (s.inode i).holder = some t → 0 < s.refs t i
  threads : ∀ t, PcOk s t (s.pc t)
  balance : ∀ k, s.allocs k = s.frees k + inUse (s.disk k)

/-- What a thread knows depends on its own inode only. -/
theorem PcOk.frame (h : PcOk s u p)
    (hholder : ∀ i, (s'.inode i).holder = some u ↔ (s.inode i).holder = some u)
    (hsame : ∀ i, (s.inode i).holder = some u → (s'.inode i).valid = (s.inode i).valid ∧
      (s'.inode i).mem = (s.inode i).mem ∧ s'.dirty i = s.dirty i)
    (hrefs : s'.refs u = s.refs u) (hfound : s'.found u = s.found u) : PcOk s' u p := by
  cases p with
  | idle | get _ => trivial
  | scan => exact h
  | lock =>
    simp only [PcOk, hrefs] at h ⊢
    exact h
  | load i => exact (hholder i).mpr h
  | trunc i | zero i =>
    obtain ⟨hheld, hvalid, hnlink, hone, hdirty⟩ := h
    obtain ⟨hv, hm, hd⟩ := hsame i hheld
    refine ⟨(hholder i).mpr hheld, hv.trans hvalid, ?_, hfound.trans hone, hd.trans hdirty⟩
    rw [hm]
    exact hnlink
  | invalid i => exact ⟨(hholder i).mpr h.1, (hsame i h.1).2.2.trans h.2⟩
  | unlock i =>
    obtain ⟨hheld, hvalid, hdirty⟩ := h
    obtain ⟨hv, -, hd⟩ := hsame i hheld
    exact ⟨(hholder i).mpr hheld, hv.trans hvalid, hd.trans hdirty⟩
  | drop i =>
    simp only [PcOk, hrefs, hholder i] at h ⊢
    exact h

/-- A step of one thread keeps what the others know. -/
theorem threads_step (hpc : s'.pc = update s.pc t q) (ht : PcOk s' t q)
    (hothers : ∀ u, u ≠ t → PcOk s' u (s.pc u)) (u : θ) : PcOk s' u (s'.pc u) := by
  rw [hpc]
  by_cases hu : u = t
  · rw [hu, update_self]
    exact ht
  · rw [update_of_ne hu]
    exact hothers u hu

theorem not_invalid (hpc : s'.pc = update s.pc t q) (ht : s.pc t ≠ .invalid i)
    (hout : ∀ u, s'.pc u ≠ .invalid i) (u : θ) : s.pc u ≠ .invalid i := by
  by_cases hu : u = t
  · rw [hu]
    exact ht
  · have hne := hout u
    rwa [hpc, update_of_ne hu] at hne

section Steps

variable [Fintype θ]

namespace Inv

theorem ref_pos (h : Inv s) (hrefs : 0 < s.refs t i) : 0 < (s.inode i).ref := by
  rw [h.ref i]
  exact lt_of_lt_of_le hrefs (le_sum (fun u => s.refs u i) t)

theorem at_line (h : Inv s) (hp : s.pc t = p) : PcOk s t p := hp ▸ h.threads t

theorem held_pos (h : Inv s) (hheld : (s.inode i).holder = some t) : 0 < (s.inode i).ref :=
  h.ref_pos (h.holds i t hheld)

theorem holder_none (h : Inv s) (hzero : (s.inode i).ref = 0) : (s.inode i).holder = none := by
  cases hholder : (s.inode i).holder with
  | none => rfl
  | some =>
    have hpos := h.held_pos hholder
    omega

theorem goto (h : Inv s) (hq : PcOk s t q) (hpc : ∀ i, s.pc t ≠ .invalid i) : Inv (s.goto t q) := by
  refine ⟨h.ref, h.unique, fun i hi hvalid hout => ?_, h.dirty, h.holds, ?_, h.balance⟩
  · exact (h.copies i hi hvalid (not_invalid rfl (hpc i) hout)).congr rfl rfl id
  · refine threads_step rfl ?_ fun u _ => ?_
    · exact hq.frame (fun _ => Iff.rfl) (fun _ _ => ⟨rfl, rfl, rfl⟩) rfl rfl
    · exact (h.threads u).frame (fun _ => Iff.rfl) (fun _ _ => ⟨rfl, rfl, rfl⟩) rfl rfl

/-- Thread `t` changes an entry, but not its number and references; if it is locked then by `t`. -/
theorem setInode (h : Inv s) {x : Inode θ} (hpc : s'.pc = update s.pc t q)
    (hinode : s'.inode = update s.inode i x) (hkey : x.key = (s.inode i).key)
    (href : x.ref = (s.inode i).ref)
    (hfree : ∀ u, u ≠ t → (s.inode i).holder ≠ some u ∧ x.holder ≠ some u)
    (hholds : x.holder = some t → 0 < s.refs t i)
    (hcopy : 0 < x.ref → x.valid = true → q ≠ .invalid i → Copy s' i)
    (hdirty : s'.dirty i = true → x.holder ≠ none) (hq : PcOk s' t q)
    (hout : ∀ j, s.pc t = .invalid j → j = i) (hdisk : ∀ j, j ≠ i → 0 < (s.inode j).ref →
      s'.disk (s.inode j).key = s.disk (s.inode j).key)
    (hdirty' : ∀ j, j ≠ i → s'.dirty j = s.dirty j) (hrefs : s'.refs = s.refs)
    (hfound : ∀ u, u ≠ t → s'.found u = s.found u)
    (hbalance : ∀ k, s'.allocs k = s'.frees k + inUse (s'.disk k)) : Inv s' := by
  have hself : s'.inode i = x := by rw [hinode, update_self]
  have hother : ∀ j, j ≠ i → s'.inode j = s.inode j := by
    intro j hj
    rw [hinode, update_of_ne hj]
  have hkeys : ∀ j, (s'.inode j).key = (s.inode j).key ∧ (s'.inode j).ref = (s.inode j).ref := by
    intro j
    by_cases hj : j = i
    · rw [hj, hself]
      exact ⟨hkey, href⟩
    · rw [hother j hj]
      exact ⟨rfl, rfl⟩
  constructor
  · intro j
    rw [(hkeys j).2, hrefs]
    exact h.ref j
  · intro j k
    rw [(hkeys j).1, (hkeys j).2, (hkeys k).1, (hkeys k).2]
    exact h.unique j k
  · intro j hj hvalid hnot
    by_cases hji : j = i
    · subst hji
      rw [hself] at hj hvalid
      refine hcopy hj hvalid fun hqi => hnot t ?_
      rw [hpc, update_self]
      exact hqi
    rw [hother j hji] at hj hvalid
    have hout' : s.pc t ≠ .invalid j := fun hu => hji (hout j hu)
    exact (h.copies j hj hvalid (not_invalid hpc hout' hnot)).congr (by rw [hother j hji])
      (by rw [hother j hji, hdisk j hji hj]) fun hclean => (hdirty' j hji).symm.trans hclean
  · intro j hj
    by_cases hji : j = i
    · subst hji
      rw [hself]
      exact hdirty hj
    · rw [hother j hji]
      exact h.dirty j ((hdirty' j hji).symm.trans hj)
  · intro j u hu
    rw [hrefs]
    by_cases hji : j = i
    · subst hji
      rw [hself] at hu
      by_cases hut : u = t
      · rw [hut] at hu ⊢
        exact hholds hu
      · exact absurd hu (hfree u hut).2
    · rw [hother j hji] at hu
      exact h.holds j u hu
  · refine threads_step hpc hq fun u hu => ?_
    refine (h.threads u).frame (fun j => ?_) (fun j hj => ?_) (by rw [hrefs]) (hfound u hu)
    · by_cases hji : j = i
      · subst hji
        rw [hself]
        exact iff_of_false (hfree u hu).2 (hfree u hu).1
      · rw [hother j hji]
    · by_cases hji : j = i
      · subst hji
        exact absurd hj (hfree u hu).1
      · rw [hother j hji]
        exact ⟨rfl, rfl, hdirty' j hji⟩
  · exact hbalance

omit [DecidableEq θ] [Fintype θ] in
theorem free_others (hheld : (s.inode i).holder = none ∨ (s.inode i).holder = some t) {o : Option θ}
    (ho : o = none ∨ o = some t) (u : θ) (hu : u ≠ t) :
    (s.inode i).holder ≠ some u ∧ o ≠ some u := by
  have hne : ∀ {o : Option θ}, o = none ∨ o = some t → o ≠ some u := by
    rintro o (rfl | rfl)
    · exact nofun
    · exact fun heq => hu (Option.some.inj heq).symm
  exact ⟨hne hheld, hne ho⟩

/-! ### References -/

omit [Fintype θ] in
theorem setRefs_apply (s : State θ) (t u : θ) (i j : Fin ninode) (n : Nat) :
    (s.setRefs t i n).refs u j = if u = t ∧ j = i then n else s.refs u j := by
  simp only [State.setRefs, update_apply]
  by_cases hu : u = t
  · by_cases hj : j = i
    · simp [hu, hj]
    · simp [hu, hj]
  · simp [hu]

theorem sum_setRefs (s : State θ) (t : θ) (i : Fin ninode) (n : Nat) :
    (∑ u, (s.setRefs t i n).refs u i) + s.refs t i = (∑ u, s.refs u i) + n := by
  have hsum := sum_add_eq_of_agree (f := fun u => s.refs u i)
    (g := fun u => (s.setRefs t i n).refs u i) (i := t) fun u hu => by
      rw [setRefs_apply, if_neg fun h => hu h.1]
  rw [hsum, setRefs_apply, if_pos ⟨rfl, rfl⟩]

theorem sum_setRefs_of_ne (s : State θ) (t : θ) {i j : Fin ninode} (hj : j ≠ i) (n : Nat) :
    ∑ u, (s.setRefs t i n).refs u j = ∑ u, s.refs u j := by
  refine Finset.sum_congr rfl fun u _ => ?_
  rw [setRefs_apply, if_neg fun h => hj h.2]

theorem setRef (h : Inv s) {x : Inode θ} {n : Nat}
    (hs' : s' = ((s.setInode i x).setRefs t i n).goto t q)
    (hpc : ∀ j, s.pc t ≠ .invalid j)
    (hkey : x.key = (s.inode i).key ∨ (s.inode i).ref = 0 ∧ ∀ j, j ≠ i → 0 < (s.inode j).ref →
      (s.inode j).key ≠ x.key)
    (href : x.ref + s.refs t i = (s.inode i).ref + n)
    (hholder : x.holder = (s.inode i).holder)
    (hcopy : 0 < x.ref → x.valid = true → 0 < (s.inode i).ref ∧ x.key = (s.inode i).key ∧
      (s.inode i).valid = true ∧ x.mem = (s.inode i).mem)
    (hsame : ∀ u, (s.inode i).holder = some u → x.valid = (s.inode i).valid ∧ x.mem = (s.inode i).mem)
    (hkept : (s.inode i).holder = some t → 0 < n) (hpos : 0 < x.ref → 0 < (s.inode i).ref ∨
      ∀ j, j ≠ i → 0 < (s.inode j).ref → (s.inode j).key ≠ x.key) (hq : q = .idle) : Inv s' := by
  subst hs'
  have hself : (((s.setInode i x).setRefs t i n).goto t q).inode i = x := update_self ..
  have hother : ∀ j, j ≠ i → (((s.setInode i x).setRefs t i n).goto t q).inode j = s.inode j :=
    fun j hj => update_of_ne hj ..
  have hrefs : ∀ u j, (((s.setInode i x).setRefs t i n).goto t q).refs u j
      = if u = t ∧ j = i then n else s.refs u j := fun u j => setRefs_apply _ t u i j n
  have hclash : 0 < x.ref → ∀ k, k ≠ i → 0 < (s.inode k).ref → (s.inode k).key ≠ x.key := by
    obtain hsamekey | ⟨-, hnew⟩ := hkey
    · intro hx k hk hk' heq
      obtain hpos | hnew := hpos hx
      · exact hk (h.unique k i hk' hpos (heq.trans hsamekey))
      · exact hnew k hk hk' heq
    · exact fun _ => hnew
  have hholders : ∀ j u, ((((s.setInode i x).setRefs t i n).goto t q).inode j).holder = some u ↔
      (s.inode j).holder = some u := by
    intro j u
    by_cases hj : j = i
    · rw [hj, hself, hholder]
    · rw [hother j hj]
  constructor
  · intro j
    by_cases hj : j = i
    · subst hj
      rw [hself]
      have hsum := sum_setRefs (s.setInode j x) t j n
      have hold := h.ref j
      have hsame : (s.setInode j x).refs = s.refs := rfl
      rw [hsame] at hsum
      show x.ref = ∑ u, ((s.setInode j x).setRefs t j n).refs u j
      omega
    · rw [hother j hj]
      refine (h.ref j).trans ?_
      exact (sum_setRefs_of_ne (s.setInode i x) t hj n).symm
  · intro j k hj hk hjk
    by_cases hji : j = i
    · by_cases hki : k = i
      · rw [hji, hki]
      rw [hji, hself] at hj hjk
      rw [hother k hki] at hk hjk
      exact absurd hjk.symm (hclash hj k hki hk)
    · rw [hother j hji] at hj hjk
      by_cases hki : k = i
      · rw [hki, hself] at hk hjk
        exact absurd hjk (hclash hk j hji hj)
      · rw [hother k hki] at hk hjk
        exact h.unique j k hj hk hjk
  · intro j hj hvalid hout
    by_cases hji : j = i
    · subst hji
      rw [hself] at hj hvalid
      obtain ⟨hpos', hkey', hvalid', hmem⟩ := hcopy hj hvalid
      refine (h.copies j hpos' hvalid' (not_invalid rfl (hpc j) hout)).congr ?_ ?_ id
      · rw [hself, hmem]
      · rw [hself, hkey']
        rfl
    · rw [hother j hji] at hj hvalid
      refine (h.copies j hj hvalid (not_invalid rfl (hpc j) hout)).congr ?_ ?_ id
      · rw [hother j hji]
      · rw [hother j hji]
        rfl
  · intro j hj hnone
    refine h.dirty j hj ?_
    by_cases hji : j = i
    · rw [hji, hself, hholder] at hnone
      rw [hji]
      exact hnone
    · rw [hother j hji] at hnone
      exact hnone
  · intro j u hu
    have hold := (hholders j u).mp hu
    rw [hrefs]
    split_ifs with hcase
    · rw [hcase.1, hcase.2] at hold
      exact hkept hold
    · exact h.holds j u hold
  · refine threads_step rfl ?_ fun u hu => ?_
    · rw [hq]
      trivial
    refine (h.threads u).frame (fun j => hholders j u) (fun j hj => ?_) ?_ rfl
    · by_cases hji : j = i
      · subst hji
        rw [hself]
        exact ⟨(hsame u hj).1, (hsame u hj).2, rfl⟩
      · rw [hother j hji]
        exact ⟨rfl, rfl, rfl⟩
    · funext j
      rw [hrefs, if_neg fun hcase => hu hcase.1]
  · exact h.balance

omit [DecidableEq θ] [Fintype θ] in

/-- `iget` finds an entry that is in use. -/
theorem find_old {k : Key} (hfind : s.find k = some (i, false)) :
    0 < (s.inode i).ref ∧ (s.inode i).key = k := by
  unfold State.find at hfind
  split at hfind
  case h_1 x hx =>
    obtain ⟨rfl, -⟩ := Prod.mk.inj (Option.some.inj hfind)
    have hfound := List.find?_some hx
    exact of_decide_eq_true hfound
  case h_2 =>
    split at hfind
    · cases hfind
    · cases hfind

omit [DecidableEq θ] [Fintype θ] in

/-- `iget` takes a free entry if none has the inode. -/
theorem find_new {k : Key} (hfind : s.find k = some (i, true)) :
    (s.inode i).ref = 0 ∧ ∀ j, 0 < (s.inode j).ref → (s.inode j).key ≠ k := by
  unfold State.find at hfind
  split at hfind
  case h_1 => cases hfind
  case h_2 hnone =>
    split at hfind
    case h_1 x hx =>
      obtain ⟨rfl, -⟩ := Prod.mk.inj (Option.some.inj hfind)
      have hfound := List.find?_some hx
      refine ⟨of_decide_eq_true hfound, fun j hj hk => ?_⟩
      exact List.find?_eq_none.mp hnone j (List.mem_finRange j) (decide_eq_true ⟨hj, hk⟩)
    case h_2 => cases hfind

section

variable (h : Inv s)

include h

theorem iget {k : Key} (hp : s.pc t = .get k) (hstep : s.iget t k = some s') : Inv s' := by
  have hpc : ∀ j, s.pc t ≠ .invalid j := by simp [hp]
  unfold State.iget at hstep
  cases hfind : s.find k with
  | none =>
    rw [hfind] at hstep
    cases hstep
  | some y =>
    obtain ⟨i, new⟩ := y
    rw [hfind] at hstep
    cases new with
    | false =>
      obtain ⟨hpos, hk⟩ := find_old hfind
      refine h.setRef (Option.some.inj hstep).symm hpc (.inl rfl) (by dsimp only; omega) rfl
        (fun _ hv => ⟨hpos, rfl, hv, rfl⟩) (fun _ _ => ⟨rfl, rfl⟩) (fun _ => Nat.succ_pos _)
        (fun _ => .inl hpos) rfl
    | true =>
      obtain ⟨hzero, hnew⟩ := find_new hfind
      have hnone := h.holder_none hzero
      refine h.setRef (Option.some.inj hstep).symm hpc (.inr ⟨hzero, fun j _ => hnew j⟩)
        (by dsimp only; omega) rfl nofun (fun u hu => ?_) (fun _ => Nat.succ_pos _)
        (fun _ => .inr fun j _ => hnew j) rfl
      rw [hnone] at hu
      cases hu

/-! ### The other steps -/

/-- The entry is not being freed by another thread. -/
theorem copy (hheld : (s.inode i).holder = none ∨ (s.inode i).holder = some t)
    (hpc : ∀ j, s.pc t ≠ .invalid j) (hpos : 0 < (s.inode i).ref)
    (hvalid : (s.inode i).valid = true) : Copy s i := by
  refine h.copies i hpos hvalid fun u hu => ?_
  have hu' := h.threads u
  rw [hu] at hu'
  by_cases hut : u = t
  · exact hpc i (hut ▸ hu)
  · exact (free_others hheld hheld u hut).1 hu'.1

/-- Entries of other inodes do not see a store to the inode of entry `i`. -/
theorem key_ne (hpos : 0 < (s.inode i).ref) (j : Fin ninode) (hj : j ≠ i)
    (hposj : 0 < (s.inode j).ref) : (s.inode j).key ≠ (s.inode i).key :=
  fun heq => hj (h.unique j i hposj hpos heq)

theorem scan {dev inum : BitVec 32} {type : BitVec 16} (hp : s.pc t = .scan dev inum type)
    (hstep : s.scan t dev inum type = some s') : Inv s' := by
  have hpc : ∀ j, s.pc t ≠ .invalid j := by simp [hp]
  have htype : type ≠ 0 := h.at_line hp
  unfold State.scan at hstep
  split_ifs at hstep with hlt hzero <;> cases hstep
  · refine Inv.goto ?_ trivial hpc
    refine ⟨h.ref, h.unique, fun i hi hvalid hout => ?_, h.dirty, h.holds, fun u => ?_, fun k => ?_⟩
    · -- the inode of a valid entry is not free
      have hold := h.copies i hi hvalid hout
      have hne : (s.inode i).key ≠ (dev, inum) := by
        intro heq
        have hsame := hold.same
        rw [heq, hzero] at hsame
        exact hold.type hsame.symm
      have hdisk : update s.disk (dev, inum) ⟨type, 0, 0, 0, 0, fun _ => 0⟩ (s.inode i).key
          = s.disk (s.inode i).key := update_of_ne hne ..
      exact ⟨hold.type, (congrArg Dinode.type hdisk).trans hold.same,
        fun hclean => (hold.clean hclean).trans hdisk.symm⟩
    · exact (h.threads u).frame (fun _ => Iff.rfl) (fun _ _ => ⟨rfl, rfl, rfl⟩) rfl rfl
    · have hk := h.balance k
      simp only [State.setDisk]
      by_cases hkey : k = (dev, inum)
      · subst hkey
        have hnew : inUse ⟨type, 0, 0, 0, 0, fun _ => 0⟩ = 1 := inUse_one htype
        rw [inUse_zero hzero] at hk
        rw [update_self, update_self, hnew]
        omega
      · rw [update_of_ne hkey, update_of_ne hkey]
        exact hk
  · exact h.goto htype hpc

theorem lock (hp : s.pc t = .lock i) (hfree : (s.inode i).holder = none) :
    Inv ((s.setInode i { s.inode i with holder := some t }).goto t (.load i)) := by
  have hpc : ∀ j, s.pc t ≠ .invalid j := by simp [hp]
  have hrefs : 0 < s.refs t i := h.at_line hp
  refine h.setInode rfl rfl rfl rfl (free_others (.inl hfree) (.inr rfl)) (fun _ => hrefs)
    (fun hpos hvalid _ => ?_) (fun _ => nofun) ?_ (fun j hj => absurd hj (hpc j)) (fun _ _ _ => rfl)
    (fun _ _ => rfl) rfl (fun _ _ => rfl) h.balance
  · exact (h.copy (.inl hfree) hpc hpos hvalid).setHolder rfl
  · simp only [PcOk, State.goto, State.setInode, update_self]

theorem load (hp : s.pc t = .load i) (htype : (s.disk (s.inode i).key).type ≠ 0) :
    Inv ((s.setInode i
      { s.inode i with mem := s.disk (s.inode i).key, valid := true }).goto t .idle) := by
  have hheld : (s.inode i).holder = some t := h.at_line hp
  refine h.setInode rfl rfl rfl rfl (free_others (.inr hheld) (.inr hheld)) (fun _ => h.holds i t hheld)
    (fun _ _ _ => ?_) (fun _ hnone => nomatch hheld.symm.trans hnone) trivial
    (fun j hj => ?_) (fun _ _ _ => rfl) (fun _ _ => rfl) rfl (fun _ _ => rfl) h.balance
  · refine ⟨?_, ?_, fun _ => ?_⟩
    all_goals simp only [State.goto, State.setInode, update_self]
    exact htype
  · rw [hp] at hj
    cases hj

theorem trunc (hp : s.pc t = .trunc i) :
    Inv (((s.setInode i { s.inode i with mem := State.truncated (s.inode i).mem }).setDisk
      (s.inode i).key (State.truncated (s.inode i).mem)).goto t (.zero i)) := by
  obtain ⟨hheld, hvalid, hnlink, hfound, hdirty⟩ := h.at_line hp
  have hpc : ∀ j, s.pc t ≠ .invalid j := by simp [hp]
  have hpos := h.held_pos hheld
  have hold := h.copy (.inr hheld) hpc hpos hvalid
  refine h.setInode rfl rfl rfl rfl (free_others (.inr hheld) (.inr hheld)) (fun _ => h.holds i t hheld)
    (fun _ _ _ => ?_) (fun _ hnone => nomatch hheld.symm.trans hnone) ?_
    (fun j hj => absurd hj (hpc j)) (fun j hj hposj => ?_) (fun _ _ => rfl) rfl (fun _ _ => rfl)
    fun k => ?_
  · refine ⟨?_, ?_, fun _ => ?_⟩
    all_goals simp only [State.goto, State.setInode, State.setDisk, update_self]
    exact hold.type
  · simp only [PcOk, State.goto, State.setInode, State.setDisk, update_self]
    exact ⟨hheld, hvalid, hnlink, hfound, hdirty⟩
  · exact update_of_ne (h.key_ne hpos j hj hposj) ..
  · refine (h.balance k).trans ?_
    simp only [State.goto, State.setInode, State.setDisk]
    by_cases hk : k = (s.inode i).key
    · rw [hk, update_self, inUse_congr hold.same]
      rfl
    · rw [update_of_ne hk]

theorem zero (hp : s.pc t = .zero i) :
    Inv ({ (s.setInode i
        { s.inode i with mem := { (s.inode i).mem with type := 0 } }).setDisk (s.inode i).key
          { (s.inode i).mem with type := 0 } with
      frees := update s.frees (s.inode i).key
        (s.frees (s.inode i).key + 1) }.goto t (.invalid i)) := by
  obtain ⟨hheld, hvalid, -, -, hdirty⟩ := h.at_line hp
  have hpc : ∀ j, s.pc t ≠ .invalid j := by simp [hp]
  have hpos := h.held_pos hheld
  have hold := h.copy (.inr hheld) hpc hpos hvalid
  refine h.setInode rfl rfl rfl rfl (free_others (.inr hheld) (.inr hheld)) (fun _ => h.holds i t hheld)
    (fun _ _ hne => absurd rfl hne) (fun _ hnone => nomatch hheld.symm.trans hnone) ?_
    (fun j hj => absurd hj (hpc j)) (fun j hj hposj => ?_) (fun _ _ => rfl) rfl (fun _ _ => rfl)
    fun k => ?_
  · simp only [PcOk, State.goto, State.setInode, State.setDisk, update_self]
    exact ⟨hheld, hdirty⟩
  · exact update_of_ne (h.key_ne hpos j hj hposj) ..
  have hbal := h.balance k
  simp only [State.goto, State.setInode, State.setDisk]
  by_cases hk : k = (s.inode i).key
  · -- it was allocated
    subst hk
    have htype : (s.disk (s.inode i).key).type ≠ 0 := by
      rw [hold.same]
      exact hold.type
    have hnew : inUse { (s.inode i).mem with type := 0 } = 0 := inUse_zero rfl
    rw [inUse_one htype] at hbal
    rw [update_self, update_self, hnew]
    omega
  · rw [update_of_ne hk, update_of_ne hk]
    exact hbal

theorem invalid (hp : s.pc t = .invalid i) :
    Inv ((s.setInode i { s.inode i with valid := false }).goto t (.unlock i)) := by
  obtain ⟨hheld, hdirty⟩ := h.at_line hp
  refine h.setInode rfl rfl rfl rfl (free_others (.inr hheld) (.inr hheld)) (fun _ => h.holds i t hheld)
    nofun (fun _ hnone => nomatch hheld.symm.trans hnone) ?_ (fun j hj => ?_) (fun _ _ _ => rfl)
    (fun _ _ => rfl) rfl (fun _ _ => rfl) h.balance
  · simp only [PcOk, State.goto, State.setInode, update_self]
    exact ⟨hheld, trivial, hdirty⟩
  · exact (Pc.invalid.inj (hp.symm.trans hj)).symm

theorem unlock (hp : s.pc t = .unlock i) :
    Inv ((s.setInode i { s.inode i with holder := none }).goto t (.drop i)) := by
  obtain ⟨hheld, hvalid, hdirty⟩ := h.at_line hp
  refine h.setInode rfl rfl rfl rfl (free_others (.inr hheld) (.inl rfl)) nofun
    (fun _ hv => nomatch hvalid.symm.trans hv) (fun hd => nomatch hdirty.symm.trans hd) ?_ (fun j hj => ?_)
    (fun _ _ _ => rfl) (fun _ _ => rfl) rfl (fun _ _ => rfl) h.balance
  · simp only [PcOk, State.goto, State.setInode, update_self]
    rw [if_neg nofun]
    exact h.holds i t hheld
  · rw [hp] at hj
    cases hj

theorem drop (hp : s.pc t = .drop i) :
    Inv (((s.setInode i { s.inode i with ref := (s.inode i).ref - 1 }).setRefs t i
      (s.refs t i - 1)).goto t .idle) := by
  have hlt : (if (s.inode i).holder = some t then 1 else 0) < s.refs t i := h.at_line hp
  have hrefs : 0 < s.refs t i := lt_of_le_of_lt (Nat.zero_le _) hlt
  have hpos := h.ref_pos hrefs
  refine h.setRef rfl (fun j hj => ?_) (.inl rfl) (by dsimp only; omega) rfl
    (fun _ hv => ⟨hpos, rfl, hv, rfl⟩) (fun _ _ => ⟨rfl, rfl⟩) (fun hheld => ?_) (fun _ => .inl hpos) rfl
  · rw [hp] at hj
    cases hj
  · rw [if_pos hheld] at hlt
    omega

/-- One line of a thread keeps the invariant. -/
theorem next (hstep : s.next t = some s') : Inv s' := by
  unfold State.next at hstep
  cases hp : s.pc t with rw [hp] at hstep
  | idle =>
    cases hstep
  | scan =>
    exact h.scan hp hstep
  | get =>
    exact h.iget hp hstep
  | lock =>
    dsimp only at hstep
    split_ifs at hstep with hfree
    cases hstep
    exact h.lock hp hfree
  | load =>
    dsimp only at hstep
    split_ifs at hstep with hvalid htype <;> cases hstep
    · refine h.goto trivial fun j hj => ?_
      rw [hp] at hj
      cases hj
    · exact h.load hp htype
  | trunc =>
    cases hstep
    exact h.trunc hp
  | zero =>
    cases hstep
    exact h.zero hp
  | invalid =>
    cases hstep
    exact h.invalid hp
  | unlock =>
    cases hstep
    exact h.unlock hp
  | drop =>
    cases hstep
    exact h.drop hp

theorem iput (hidle : s.pc t = .idle)
    (hrefs : (if (s.inode i).holder = some t then 1 else 0) < s.refs t i)
    (hstep : s.iput t i = some s') : Inv s' := by
  have hpc : ∀ j, s.pc t ≠ .invalid j := by simp [hidle]
  have hpos : 0 < s.refs t i := lt_of_le_of_lt (Nat.zero_le _) hrefs
  unfold State.iput at hstep
  dsimp only at hstep
  split_ifs at hstep with htest hfree <;> cases hstep
  · have hclean : s.dirty i = false := by
      by_contra hd
      exact h.dirty i (by simpa using hd) hfree
    refine h.setInode rfl rfl rfl rfl (free_others (.inl hfree) (.inr rfl)) (fun _ => hpos)
      (fun hp hvalid _ => ?_) (fun _ => nofun) ?_ (fun j hj => absurd hj (hpc j)) (fun _ _ _ => rfl)
      (fun _ _ => rfl) rfl (fun u hu => update_of_ne hu ..) h.balance
    · exact (h.copy (.inl hfree) hpc hp hvalid).setHolder rfl
    · simp only [PcOk, State.goto, State.setInode, update_self]
      exact ⟨trivial, htest.2.1, htest.2.2, htest.1, hclean⟩
  · refine Inv.goto ⟨h.ref, h.unique, fun j hj hv hout => ?_, h.dirty, h.holds, fun u => ?_, h.balance⟩
      hrefs hpc
    · have hold := h.copies j hj hv hout
      exact ⟨hold.type, hold.same, hold.clean⟩
    · by_cases hu : u = t
      · rw [hu, hidle]
        trivial
      · exact (h.threads u).frame (fun _ => Iff.rfl) (fun _ _ => ⟨rfl, rfl, rfl⟩) rfl
          (update_of_ne hu ..)

/-- One action keeps the invariant. -/
theorem step {a : Act θ} (hstep : (tableMachine θ).step s a = some s') : Inv s' := by
  have hquiet : ∀ {t : θ}, s.pc t = .idle → ∀ j, s.pc t ≠ .invalid j := by
    intro t hidle j hj
    rw [hidle] at hj
    cases hj
  -- a thread that stays in no call
  have hstay : ∀ {t : θ}, s.pc t = .idle → s.pc = update s.pc t .idle := by
    intro t hidle
    rw [← hidle, update_eq_self]
  cases a with
  | ialloc | ilock =>
    simp only [tableMachine] at hstep
    split_ifs at hstep with hok
    cases hstep
    exact h.goto hok.2 (hquiet hok.1)
  | iget =>
    simp only [tableMachine] at hstep
    split_ifs at hstep with hok
    cases hstep
    exact h.goto trivial (hquiet hok)
  | idup t i =>
    simp only [tableMachine] at hstep
    split_ifs at hstep with hok
    cases hstep
    have hpos := h.ref_pos hok.2
    refine h.setRef (x := { s.inode i with ref := (s.inode i).ref + 1 }) (n := s.refs t i + 1)
      (q := .idle) ?_ (hquiet hok.1) (.inl rfl) (by dsimp only; omega) rfl
      (fun _ hv => ⟨hpos, rfl, hv, rfl⟩) (fun _ _ => ⟨rfl, rfl⟩) (fun _ => Nat.succ_pos _)
      (fun _ => .inl hpos) rfl
    exact congrArg (fun pc => { (s.setInode i
      { s.inode i with ref := (s.inode i).ref + 1 }).setRefs t i (s.refs t i + 1) with pc })
      (hstay hok.1)
  | iunlock =>
    simp only [tableMachine] at hstep
    split_ifs at hstep with hok
    obtain ⟨hidle, hheld, hclean⟩ := hok
    cases hstep
    refine h.setInode (hstay hidle) rfl rfl rfl (free_others (.inr hheld) (.inl rfl)) nofun
      (fun hp hvalid _ => ?_) (fun hd => nomatch hclean.symm.trans hd) trivial
      (fun j hj => absurd hj (hquiet hidle j)) (fun _ _ _ => rfl) (fun _ _ => rfl) rfl (fun _ _ => rfl)
      h.balance
    exact (h.copy (.inr hheld) (hquiet hidle) hp hvalid).setHolder rfl
  | iput t i =>
    simp only [tableMachine] at hstep
    by_cases hok : s.pc t = .idle ∧ (if (s.inode i).holder = some t then 1 else 0) < s.refs t i
    · rw [if_pos hok] at hstep
      exact h.iput hok.1 hok.2 hstep
    · rw [if_neg hok] at hstep
      cases hstep
  | modify t i =>
    simp only [tableMachine] at hstep
    split_ifs at hstep with hok
    obtain ⟨hidle, hheld, hvalid, htype⟩ := hok
    cases hstep
    have hold := h.copy (.inr hheld) (hquiet hidle) (h.held_pos hheld) hvalid
    refine h.setInode (hstay hidle) rfl rfl rfl (free_others (.inr hheld) (.inr hheld))
      (fun _ => h.holds i t hheld) (fun _ _ _ => ?_) (fun _ hnone => nomatch hheld.symm.trans hnone)
      trivial (fun j hj => absurd hj (hquiet hidle j)) (fun _ _ _ => rfl)
      (fun j hj => update_of_ne hj ..) rfl (fun _ _ => rfl) h.balance
    refine ⟨?_, ?_, ?_⟩
    all_goals simp only [State.setInode, update_self]
    · rw [htype]
      exact hold.type
    · rw [htype]
      exact hold.same
    · exact nofun
  | iupdate t i =>
    simp only [tableMachine] at hstep
    split_ifs at hstep with hok
    obtain ⟨hidle, hheld, hvalid⟩ := hok
    cases hstep
    have hpos := h.held_pos hheld
    have hold := h.copy (.inr hheld) (hquiet hidle) hpos hvalid
    refine h.setInode (hstay hidle) (update_eq_self i s.inode).symm rfl rfl
      (free_others (.inr hheld) (.inr hheld)) (fun _ => h.holds i t hheld) (fun _ _ _ => ?_)
      (fun _ hnone => nomatch hheld.symm.trans hnone) trivial
      (fun j hj => absurd hj (hquiet hidle j)) (fun j hj hposj => ?_)
      (fun j hj => update_of_ne hj ..) rfl (fun _ _ => rfl) fun k => ?_
    · refine ⟨?_, ?_, fun _ => ?_⟩
      all_goals simp only [State.setDisk, update_self]
      exact hold.type
    · exact update_of_ne (h.key_ne hpos j hj hposj) ..
    · refine (h.balance k).trans ?_
      simp only [State.setDisk]
      by_cases hk : k = (s.inode i).key
      · rw [hk, update_self, inUse_congr hold.same]
      · rw [update_of_ne hk]
  | next => exact h.next hstep

end

end Inv

theorem Init.inv (h : Init s) : Inv s := by
  constructor
  · intro i
    rw [h.ref i, Finset.sum_eq_zero fun t _ => h.refs t i]
  · intro i j hi
    rw [h.ref i] at hi
    cases hi
  · intro i hi
    rw [h.ref i] at hi
    cases hi
  · intro i hi
    rw [h.dirty i] at hi
    cases hi
  · intro i t hi
    rw [h.holder i] at hi
    cases hi
  · intro t
    rw [h.pc t]
    trivial
  · intro k
    rw [h.frees k, h.allocs k, Nat.zero_add]
    rfl

end Steps

/-! ### The window of `iput`, and an entry that is not in use -/

end Xv6.Itable
