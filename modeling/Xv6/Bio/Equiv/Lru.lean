import Xv6.Bio.Lru

/-!
# The list and the reference counts of the buffer cache

The links form one circle through all buffers, so the loops of `bget` see each of them: a block not
found is in no buffer, and a recycled buffer has no references (`bget_cases`).
-/

namespace Xv6.Lru

open Lib Bcache Function List Option

variable {θ : Type} {s s' : State θ} {t : θ} {i : BufId} {xs : List BufId}

/-! ### The list -/

/-- The links make one circle through all buffers. -/
structure ListOk (L : Links Node) (xs : List BufId) : Prop where
  circle : L.Circle .head (xs.map .buf)
  all : ∀ i, i ∈ xs

namespace ListOk

variable {L : Links Node}

theorem nodup (h : ListOk L xs) : xs.Nodup := (nodup_cons.mp h.circle.nodup).2.of_map

theorem length_lt (h : ListOk L xs) : (xs.map Node.buf).length < nbuf + 1 := by
  have hle := h.nodup.length_le_card
  rw [Fintype.card_fin] at hle
  rw [length_map]
  exact Nat.lt_succ_of_le hle

theorem head_notMem (xs : List BufId) : Node.head ∉ xs.map Node.buf := by
  intro hmem
  obtain ⟨i, -, hi⟩ := mem_map.mp hmem
  cases hi

/-- A search from the front. -/
theorem find_next (h : ListOk s.links xs) (p : Buf → Bool) :
    s.find s.links.next p = some ((xs.find? fun i => p (s.buf i)).map .buf) := by
  unfold State.find
  rw [h.circle.seg.scan_next (head_notMem xs) h.length_lt, List.find?_map]
  rfl

/-- A search from the back. -/
theorem find_prev (h : ListOk s.links xs) (p : Buf → Bool) :
    s.find s.links.prev p = some ((xs.reverse.find? fun i => p (s.buf i)).map .buf) := by
  unfold State.find
  rw [h.circle.seg.scan_prev (head_notMem xs) h.length_lt, ← map_reverse, List.find?_map]
  rfl

/-- Moving a buffer to the front keeps the circle. -/
theorem move (h : ListOk L xs) (i : BufId) :
    ∃ ys, ListOk ((L.unlink (.buf i)).link .head (.buf i)) ys := by
  obtain ⟨as, bs, rfl⟩ := append_of_mem (h.all i)
  have hcircle := h.circle
  rw [map_append, map_cons] at hcircle
  have hout := hcircle.unlink
  have hnotMem : Node.buf i ∉ Node.head :: (as.map Node.buf ++ bs.map Node.buf) := by
    have hperm : (Node.head :: (as.map Node.buf ++ .buf i :: bs.map Node.buf)).Perm
        (.buf i :: Node.head :: (as.map Node.buf ++ bs.map Node.buf)) :=
      (List.Perm.cons _ perm_middle).trans (List.Perm.swap ..)
    exact (nodup_cons.mp (hperm.nodup_iff.mp hcircle.nodup)).1
  refine ⟨i :: (as ++ bs), ?_, fun j => ?_⟩
  · rw [map_cons, map_append]
    exact hout.link hnotMem
  · have hj := h.all j
    rw [mem_append, mem_cons] at hj
    rw [mem_cons, mem_append]
    tauto

end ListOk

theorem binit_circle (is : List BufId) {L : Links Node} {xs : List BufId}
    (h : L.Circle .head (xs.map .buf)) (hnodup : (is ++ xs).Nodup) :
    (is.foldl (fun L i => L.link .head (.buf i)) L).Circle .head ((is.reverse ++ xs).map .buf) := by
  induction is generalizing L xs with
  | nil => exact h
  | cons i is ih =>
    rw [foldl_cons, reverse_cons, append_assoc]
    rw [cons_append, nodup_cons] at hnodup
    refine ih (h.link ?_) ?_
    · intro hmem
      obtain hhead | hxs := mem_cons.mp hmem
      · cases hhead
      · obtain ⟨j, hj, heq⟩ := mem_map.mp hxs
        obtain rfl := Node.buf.inj heq
        exact hnodup.1 (mem_append_right is hj)
    · exact nodup_middle.mpr (nodup_cons.mpr hnodup)

theorem binit_listOk : ListOk binit (List.finRange nbuf).reverse := by
  have hempty : (⟨fun _ => .head, fun _ => .head⟩ : Links Node).Circle .head
      (([] : List BufId).map .buf) := ⟨nodup_singleton _, rfl, rfl⟩
  refine ⟨?_, fun i => mem_reverse.mpr (mem_finRange i)⟩
  have hcircle := binit_circle (List.finRange nbuf) hempty (by
    rw [append_nil]
    exact nodup_finRange nbuf)
  rwa [append_nil] at hcircle

/-! ### `bget` -/

/-- **`bget`** finds the buffer of the block, or there is none, and it takes one without
references. -/
theorem bget_cases (h : ListOk s.links xs) {dev blockno : BitVec 32}
    (hget : s.bget dev blockno = some (i, s')) :
    ((s.buf i).dev = dev ∧ (s.buf i).blockno = blockno ∧
        s' = s.setBuf i { s.buf i with refcnt := (s.buf i).refcnt + 1 }) ∨
      (∀ j, ¬((s.buf j).dev = dev ∧ (s.buf j).blockno = blockno)) ∧ (s.buf i).refcnt = 0 ∧
        s' = s.setBuf i ⟨dev, blockno, 1⟩ := by
  unfold State.bget at hget
  rw [h.find_next, h.find_prev] at hget
  cases hfind : xs.find? fun i => decide ((s.buf i).dev = dev ∧ (s.buf i).blockno = blockno) with
  | some =>
    simp only [hfind, map_some] at hget
    cases hget
    have hfound := List.find?_some hfind
    obtain ⟨hdev, hblockno⟩ := of_decide_eq_true hfound
    exact .inl ⟨hdev, hblockno, rfl⟩
  | none =>
    have hnone : ∀ j, ¬((s.buf j).dev = dev ∧ (s.buf j).blockno = blockno) := by
      intro j hj
      exact List.find?_eq_none.mp hfind j (h.all j) (decide_eq_true hj)
    cases hfree : xs.reverse.find? fun i => decide ((s.buf i).refcnt = 0) with
    | some =>
      simp only [hfind, hfree, map_some, map_none] at hget
      cases hget
      have hzero := List.find?_some hfree
      exact .inr ⟨hnone, of_decide_eq_true hzero, rfl⟩
    | none =>
      simp only [hfind, hfree, map_none] at hget
      cases hget

theorem setBuf_self (s : State θ) (i : BufId) (b : Buf) : (s.setBuf i b).buf i = b := update_self ..

theorem setBuf_of_ne (s : State θ) {i j : BufId} (h : j ≠ i) (b : Buf) :
    (s.setBuf i b).buf j = s.buf j := update_of_ne h ..

/-! ### References -/

section Counts

variable [DecidableEq θ] [Fintype θ] {f : θ → Option BufId}

def held (o : Option θ) : Nat := if o = none then 0 else 1

/-- The threads that wait for buffer `i`, or leave it. -/
def count (f : θ → Option BufId) (i : BufId) : Nat := (Finset.univ.filter fun t => f t = some i).card

omit [DecidableEq θ] in
theorem uses_eq (s : State θ) (i : BufId) :
    s.uses i = held (s.holder i) + count s.waits i + count s.leaves i + s.pins i := rfl

theorem count_update (hf : f t = none) (i j : BufId) :
    count (update f t (some i)) j = count f j + if i = j then 1 else 0 := by
  unfold count
  by_cases hij : i = j
  · have hinsert : (Finset.univ.filter fun u => update f t (some i) u = some j)
        = insert t (Finset.univ.filter fun u => f u = some j) := by
      ext u
      by_cases hu : u = t
      · simp [hu, hij]
      · simp [hu]
    have hnotMem : t ∉ Finset.univ.filter fun u => f u = some j := by simp [hf]
    rw [hinsert, Finset.card_insert_of_notMem hnotMem, if_pos hij]
  · rw [if_neg hij, Nat.add_zero]
    congr 1
    ext u
    by_cases hu : u = t
    · simp [hu, hf, hij]
    · simp [hu]

theorem count_update_none (hf : f t = some i) (j : BufId) :
    count f j = count (update f t none) j + if i = j then 1 else 0 := by
  have hback : update (update f t none) t (some i) = f := by
    rw [update_idem, ← hf, update_eq_self]
  have hcount := count_update (update_self t none f) i j
  rwa [hback] at hcount

end Counts

/-! ### Steps -/

/-- The circle, the blocks and the counts. -/
structure Inv [DecidableEq θ] [Fintype θ] (s : State θ) : Prop where
  list : ∃ xs, ListOk s.links xs
  unique : ∀ i j, (s.buf i).dev ≠ 0 → (s.buf i).dev = (s.buf j).dev →
    (s.buf i).blockno = (s.buf j).blockno → i = j
  refcnt : ∀ i, (s.buf i).refcnt = s.uses i

/-- The buffers hold the same blocks. -/
def SameBlocks (s s' : State θ) : Prop :=
  ∀ i, (s'.buf i).dev = (s.buf i).dev ∧ (s'.buf i).blockno = (s.buf i).blockno

theorem sameBlocks_refcnt (s : State θ) (i : BufId) (n : Nat) :
    SameBlocks s (s.setBuf i { s.buf i with refcnt := n }) := by
  intro j
  by_cases hj : j = i
  · rw [hj, setBuf_self]
    exact ⟨rfl, rfl⟩
  · rw [setBuf_of_ne s hj]
    exact ⟨rfl, rfl⟩

theorem putBack_buf (s : State θ) (i : BufId) :
    (s.putBack i).buf = (s.setBuf i { s.buf i with refcnt := (s.buf i).refcnt - 1 }).buf := by
  unfold State.putBack
  dsimp only
  split_ifs
  · rfl
  · rfl

theorem sameBlocks_putBack (s : State θ) (i : BufId) : SameBlocks s (s.putBack i) := by
  intro j
  rw [putBack_buf]
  exact sameBlocks_refcnt s i _ j

/-- `brelse` gives back one reference. -/
theorem putBack_refcnt (s : State θ) (i j : BufId) :
    ((s.putBack i).buf j).refcnt = (s.buf j).refcnt - if i = j then 1 else 0 := by
  rw [putBack_buf]
  by_cases hj : j = i
  · rw [hj, setBuf_self, if_pos rfl]
  · rw [setBuf_of_ne s hj, if_neg fun h => hj h.symm]
    rfl

theorem putBack_list (h : ∃ xs, ListOk s.links xs) (i : BufId) :
    ∃ xs, ListOk (s.putBack i).links xs := by
  obtain ⟨xs, hxs⟩ := h
  unfold State.putBack
  dsimp only
  split_ifs
  · exact hxs.move i
  · exact ⟨xs, hxs⟩

theorem putBack_rest (s : State θ) (i : BufId) :
    (s.putBack i).holder = s.holder ∧ (s.putBack i).waits = s.waits ∧ (s.putBack i).pins = s.pins := by
  unfold State.putBack
  dsimp only
  split_ifs
  · exact ⟨rfl, rfl, rfl⟩
  · exact ⟨rfl, rfl, rfl⟩

section Steps

variable [DecidableEq θ] [Fintype θ]

namespace Inv

section

variable (h : Inv s)

include h

/-- A step that changes no block keeps the invariant. -/
theorem of_blocks (hlist : ∃ xs, ListOk s'.links xs) (hblocks : SameBlocks s s')
    (hrefcnt : ∀ i, (s'.buf i).refcnt = s'.uses i) : Inv s' := by
  refine ⟨hlist, fun i j => ?_, hrefcnt⟩
  rw [(hblocks i).1, (hblocks i).2, (hblocks j).1, (hblocks j).2]
  exact h.unique i j

/-- `bget` keeps the invariant, also where it takes another buffer. -/
theorem bget {dev blockno : BitVec 32} {s₁ : State θ}
    (hget : s.bget dev blockno = some (i, s₁)) (hfree : s.Free t) :
    Inv { s₁ with waits := update s.waits t (some i) } := by
  obtain ⟨xs, hxs⟩ := h.list
  have hcount := count_update hfree.1 i
  obtain ⟨-, -, rfl⟩ | ⟨hnone, hzero, rfl⟩ := bget_cases hxs hget
  · refine h.of_blocks h.list (sameBlocks_refcnt s i _) fun j => ?_
    have hj := h.refcnt j
    simp only [uses_eq, State.setBuf] at hj ⊢
    rw [hcount j]
    by_cases hij : i = j
    · subst hij
      rw [if_pos rfl, update_self]
      dsimp only
      omega
    · rw [if_neg hij, update_of_ne (Ne.symm hij)]
      omega
  refine ⟨h.list, fun x y hx hdev hblockno => ?_, fun j => ?_⟩
  · -- no other buffer has the block that was not found
    simp only [State.setBuf] at hx hdev hblockno
    by_cases hxi : x = i
    · by_cases hyi : y = i
      · rw [hxi, hyi]
      · rw [hxi, update_self, update_of_ne hyi] at hdev hblockno
        exact absurd ⟨hdev.symm, hblockno.symm⟩ (hnone y)
    · rw [update_of_ne hxi] at hx hdev hblockno
      by_cases hyi : y = i
      · rw [hyi, update_self] at hdev hblockno
        exact absurd ⟨hdev, hblockno⟩ (hnone x)
      · rw [update_of_ne hyi] at hdev hblockno
        exact h.unique x y hx hdev hblockno
  · have hj := h.refcnt j
    simp only [uses_eq, State.setBuf] at hj ⊢
    rw [hcount j]
    by_cases hij : i = j
    · subst hij
      rw [if_pos rfl, update_self]
      dsimp only
      omega
    · rw [if_neg hij, update_of_ne (Ne.symm hij)]
      omega

theorem lock (ht : s.waits t = some i) (hfree : s.holder i = none) :
    Inv { s with
      holder := update s.holder i (some t)
      waits := update s.waits t none } := by
  refine h.of_blocks h.list (fun _ => ⟨rfl, rfl⟩) fun j => ?_
  have hj := h.refcnt j
  have hcount := count_update_none ht j
  simp only [uses_eq] at hj ⊢
  by_cases hij : i = j
  · subst hij
    rw [if_pos rfl] at hcount
    rw [update_self]
    rw [hfree] at hj
    have hnone : held (none : Option θ) = 0 := rfl
    have hsome : held (some t) = 1 := rfl
    omega
  · rw [if_neg hij] at hcount
    rw [update_of_ne (Ne.symm hij)]
    omega

theorem brelse (hfree : s.Free t) (ht : s.holder i = some t) :
    Inv { s with
      holder := update s.holder i none
      leaves := update s.leaves t (some i) } := by
  refine h.of_blocks h.list (fun _ => ⟨rfl, rfl⟩) fun j => ?_
  have hj := h.refcnt j
  simp only [uses_eq] at hj ⊢
  rw [count_update hfree.2 i j]
  by_cases hij : i = j
  · subst hij
    rw [if_pos rfl, update_self]
    rw [ht] at hj
    have hnone : held (none : Option θ) = 0 := rfl
    have hsome : held (some t) = 1 := rfl
    omega
  · rw [if_neg hij, update_of_ne (Ne.symm hij)]
    omega

theorem putBack (ht : s.leaves t = some i) :
    Inv { s.putBack i with leaves := update s.leaves t none } := by
  refine h.of_blocks (putBack_list h.list i) (sameBlocks_putBack s i) fun j => ?_
  have hj := h.refcnt j
  have hcount := count_update_none ht j
  obtain ⟨hholder, hwaits, hpins⟩ := putBack_rest s i
  simp only [uses_eq] at hj ⊢
  rw [putBack_refcnt, hholder, hwaits, hpins]
  omega

theorem bpin (i : BufId) : Inv (s.bpin i) := by
  refine h.of_blocks h.list (sameBlocks_refcnt s i _) fun j => ?_
  have hj := h.refcnt j
  simp only [uses_eq, State.bpin, State.setBuf] at hj ⊢
  by_cases hij : i = j
  · subst hij
    rw [update_self, update_self]
    dsimp only
    omega
  · rw [update_of_ne (Ne.symm hij), update_of_ne (Ne.symm hij)]
    exact hj

theorem bunpin (hpin : s.pins i ≠ 0) : Inv (s.bunpin i) := by
  refine h.of_blocks h.list (sameBlocks_refcnt s i _) fun j => ?_
  have hj := h.refcnt j
  simp only [uses_eq, State.bunpin, State.setBuf] at hj ⊢
  by_cases hij : i = j
  · subst hij
    rw [update_self, update_self]
    dsimp only
    omega
  · rw [update_of_ne (Ne.symm hij), update_of_ne (Ne.symm hij)]
    exact hj

/-- One action keeps the invariant and the blocks in use. -/
theorem step {a : Act θ} (hstep : (lruMachine θ).step s a = some s') :
    Inv s' ∧ Keeps s s' := by
  have hsame : ∀ s' : State θ, SameBlocks s s' → Keeps s s' := fun s' hs i _ => hs i
  cases a with
  | bget =>
    simp only [lruMachine] at hstep
    split_ifs at hstep with hfree
    obtain ⟨⟨i, s₁⟩, hget, rfl⟩ := map_eq_some_iff.mp hstep
    refine ⟨h.bget hget hfree, fun j hj => ?_⟩
    obtain ⟨xs, hxs⟩ := h.list
    obtain ⟨-, -, rfl⟩ | ⟨-, hzero, rfl⟩ := bget_cases hxs hget
    · exact sameBlocks_refcnt s i _ j
    · -- the buffer that is recycled had no references
      have hji : j ≠ i := fun heq => hj (heq ▸ hzero)
      rw [setBuf_of_ne s hji]
      exact ⟨rfl, rfl⟩
  | lock t =>
    simp only [lruMachine] at hstep
    cases ht : s.waits t with rw [ht] at hstep
    | none =>
      cases hstep
    | some =>
      dsimp only at hstep
      split_ifs at hstep with hfree
      cases hstep
      exact ⟨h.lock ht hfree, hsame _ fun _ => ⟨rfl, rfl⟩⟩
  | brelse =>
    simp only [lruMachine] at hstep
    split_ifs at hstep with hheld
    cases hstep
    exact ⟨h.brelse hheld.1 hheld.2, hsame _ fun _ => ⟨rfl, rfl⟩⟩
  | putBack t =>
    simp only [lruMachine] at hstep
    cases ht : s.leaves t with rw [ht] at hstep
    | none =>
      cases hstep
    | some i =>
      cases hstep
      exact ⟨h.putBack ht, hsame _ (sameBlocks_putBack s i)⟩
  | bpin i =>
    cases hstep
    exact ⟨h.bpin i, hsame _ (sameBlocks_refcnt s i _)⟩
  | bunpin i =>
    simp only [lruMachine] at hstep
    split_ifs at hstep with hpin
    cases hstep
    exact ⟨h.bunpin hpin, hsame _ (sameBlocks_refcnt s i _)⟩

theorem cacheOk : CacheOk s where
  list := by
    obtain ⟨xs, hxs⟩ := h.list
    exact ⟨xs, hxs.circle, hxs.all⟩
  unique := h.unique
  refcnt := h.refcnt

end

end Inv

theorem Init.inv (h : Init s) : Inv s := by
  refine ⟨⟨_, h.links ▸ binit_listOk⟩, fun i j hi => ?_, fun i => ?_⟩
  · rw [h.buf i] at hi
    exact absurd rfl hi
  · simp only [State.uses, h.buf, h.holder, h.waits, h.leaves, h.pins]
    simp

/-- **The buffer cache**, in every run of any number of threads: the list, the blocks and the
reference counts are right, and the next step does not give a buffer in use to another block. -/
theorem buffers_kept (s₀ s : State θ) (as : List (Act θ)) (h₀ : Init s₀)
    (hrun : (lruMachine θ).run s₀ as = some s) :
    CacheOk s ∧ ∀ a s', (lruMachine θ).step s a = some s' → Keeps s s' := by
  have h : Inv s :=
    Machine.invariant_of_run _ (fun s a s' h hstep => (h.step hstep).1) as s₀ s h₀.inv hrun
  exact ⟨h.cacheOk, fun a s' hstep => (h.step hstep).2⟩

/-- **When `bget` panics**, in every run: the block is in no buffer, and every buffer is in use. -/
theorem bget_panics_iff (s₀ s : State θ) (as : List (Act θ)) (h₀ : Init s₀)
    (hrun : (lruMachine θ).run s₀ as = some s) (dev blockno : BitVec 32) :
    s.bget dev blockno = none ↔
      ∀ i, ¬((s.buf i).dev = dev ∧ (s.buf i).blockno = blockno) ∧ s.uses i ≠ 0 := by
  have h : Inv s :=
    Machine.invariant_of_run _ (fun s a s' h hstep => (h.step hstep).1) as s₀ s h₀.inv hrun
  obtain ⟨xs, hxs⟩ := h.list
  unfold State.bget
  rw [hxs.find_next, hxs.find_prev]
  simp only [← h.refcnt]
  cases hnext : xs.find? fun i => decide ((s.buf i).dev = dev ∧ (s.buf i).blockno = blockno) with
  | some i =>
    refine iff_of_false (Option.some_ne_none _) fun hall => (hall i).1 ?_
    simpa using find?_some hnext
  | none =>
    cases hprev : xs.reverse.find? fun i => decide ((s.buf i).refcnt = 0) with
    | some i =>
      refine iff_of_false (Option.some_ne_none _) fun hall => (hall i).2 ?_
      simpa using find?_some hprev
    | none =>
      refine iff_of_true rfl fun i => ⟨?_, ?_⟩
      · simpa using find?_eq_none.mp hnext i (hxs.all i)
      · simpa using find?_eq_none.mp hprev i (mem_reverse.mpr (hxs.all i))

end Steps

/-! ### Two threads -/

def binitDone : State (Fin 2) where
  buf _ := ⟨0, 0, 0⟩
  links := binit
  holder _ := none
  waits _ := none
  leaves _ := none
  pins _ := 0

theorem binitDone_init : Init binitDone :=
  ⟨rfl, fun _ => rfl, fun _ => rfl, fun _ => rfl, fun _ => rfl, fun _ => rfl⟩

def shared : List (Act (Fin 2)) :=
  [.bget 0 1 7, .lock 0, .bget 1 1 7, .bpin 0, .brelse 0 0, .putBack 0, .lock 1]

theorem shared_kept :
    Init binitDone ∧ ∃ s, (lruMachine (Fin 2)).run binitDone shared = some s ∧
      (s.holder 0 = some 1 ∧ (s.buf 0).refcnt = 2) ∧ CacheOk s ∧
        ∀ a s', (lruMachine (Fin 2)).step s a = some s' → Keeps s s' := by
  obtain ⟨s, hrun, hs⟩ : ∃ s, (lruMachine (Fin 2)).run binitDone shared = some s ∧
      s.holder 0 = some 1 ∧ (s.buf 0).refcnt = 2 := Machine.exists_run _ (by decide +kernel)
  exact ⟨binitDone_init, s, hrun, hs, buffers_kept binitDone s shared binitDone_init hrun⟩

theorem shared_bget : ∃ s, (lruMachine (Fin 2)).run binitDone shared = some s ∧
    s.bget 1 9 ≠ none := by
  refine Exists.imp (fun s h => ⟨h.1, fun hnone => ?_⟩)
    (Machine.exists_run (p := fun s => s.uses 5 = 0) _ (by decide +kernel))
  exact ((bget_panics_iff binitDone s shared binitDone_init h.1 1 9).mp hnone 5).2 h.2

end Xv6.Lru
