import Mathlib.Algebra.Order.BigOperators.Group.List
import Mathlib.Algebra.Order.Group.Nat
import Xv6.Pipe.Read
import Xv6.Vm.Equiv.Copy

/-!
# What a read takes and what it delivers

A byte is out of the pipe before `copyout` stores it: where the page is not mapped, it is lost.
-/

namespace Xv6.Pipes

variable {c : Reader} {v w : Pipe} {mem : Mem} {bytes : List UInt8}

namespace Pipe

def count (v : Pipe) : Nat := (v.nwrite - v.nread).toNat

theorem count_read (h : ¬ v.Empty) : v.count = v.read.count + 1 := by
  rw [Empty] at h
  simp only [count, read]
  bv_omega

end Pipe

def Return.Mapped (r : Return) : Prop := MappedFor r.walkaddr r.addr (min r.n.toNat r.v.count)

/-- The result is the number of the bytes, and they are stored at the user address. -/
def Return.Delivers (r : Return) (bytes : List UInt8) : Prop :=
  if 0 ≤ r.k then r.k = bytes.length ∧ r.mem' = storeBytes r.walkaddr r.mem r.addr bytes
  else bytes = []

theorem copy_delivers (mem : Mem) {left i : Nat}
    (h : MappedFor c.walkaddr (c.addr + BitVec.ofNat 64 i) (min left v.count)) :
    ∃ bytes v', v'.taken = v.taken ++ bytes ∧
      c.copy left i v mem = (i + bytes.length, v',
        storeBytes c.walkaddr mem (c.addr + BitVec.ofNat 64 i) bytes) := by
  induction left generalizing i v mem with
  | zero => exact ⟨[], v, by simp, rfl⟩
  | succ left ih =>
    rw [Reader.copy]
    split_ifs with hempty
    · exact ⟨[], v, by simp, rfl⟩
    have hcount := Pipe.count_read hempty
    have hrest : MappedFor c.walkaddr (c.addr + BitVec.ofNat 64 (i + 1)) (min left v.read.count) := by
      rw [← add_ofNat_add]
      exact h.drop (by omega)
    have hone : MappedFor c.walkaddr (c.addr + BitVec.ofNat 64 i) 1 := h.le (by omega)
    rw [copyout_eq hone]
    obtain ⟨bytes, v', htaken, heq⟩ := ih (storeBytes _ mem _ [v.data (slot v.nread)]) hrest
    refine ⟨[v.data (slot v.nread)] ++ bytes, v', by simp [htaken, Pipe.read], heq.trans ?_⟩
    rw [storeBytes_append, add_ofNat_add, List.length_append, ← Nat.add_assoc]
    rfl

theorem piperead_step {k : Int} {v' : Pipe} {mem' : Mem} (h : c.piperead v mem = some (k, v', mem'))
    (hmap : Return.Mapped { toReader := c, v, mem, k, mem' }) :
    ∃ bytes, v'.taken = v.taken ++ bytes ∧
      Return.Delivers { toReader := c, v, mem, k, mem' } bytes := by
  rw [Reader.piperead] at h
  split_ifs at h with hempty hkilled
  · cases h
    exact ⟨[], by simp, rfl⟩
  · have hmap' : MappedFor c.walkaddr (c.addr + BitVec.ofNat 64 0) (min c.n.toNat v.count) := by
      rw [BitVec.add_zero]
      exact hmap
    obtain ⟨bytes, w, htaken, heq⟩ := copy_delivers mem hmap'
    rw [heq, BitVec.add_zero, Nat.zero_add] at h
    cases h
    exact ⟨bytes, htaken, (if_pos (Int.natCast_nonneg _)).mpr ⟨rfl, rfl⟩⟩

/-- Reads to mapped pages deliver what they take. -/
theorem Reads.delivers {rs : List Return} (h : Reads rs v w) (hmap : ∀ r ∈ rs, r.Mapped) :
    ∃ bytes : List (List UInt8), w.taken = v.taken ++ bytes.flatten ∧
      List.Forall₂ Return.Delivers rs bytes := by
  induction h with
  | nil => exact ⟨[], by simp, .nil⟩
  | read hread _ ih =>
    rw [List.forall_mem_cons] at hmap
    obtain ⟨b, htaken, hb⟩ := piperead_step hread hmap.1
    obtain ⟨bytes, hrest, hbytes⟩ := ih hmap.2
    exact ⟨b :: bytes, by simp [hrest, htaken], .cons hb hbytes⟩
  | write ch _ ih => exact ih hmap

/-! ### What is lost -/

instance (r : Return) : Decidable r.Mapped := inferInstanceAs (Decidable (MappedFor _ _ _))

/-- The bytes that a call takes: those that it reports, and one more if it comes to a page that is
not mapped. -/
def Return.takes (r : Return) : Nat := r.k.toNat + if r.Mapped then 0 else 1

theorem mappedFor_succ {walkaddr : Addr → Addr} {va : Addr} {i n : Nat} :
    MappedFor walkaddr (va + BitVec.ofNat 64 i) (n + 1) ↔
      MappedFor walkaddr (va + BitVec.ofNat 64 i) 1 ∧
        MappedFor walkaddr (va + BitVec.ofNat 64 (i + 1)) n := by
  refine ⟨fun h => ⟨h.le (Nat.le_add_left 1 n), ?_⟩, fun h k hk => ?_⟩
  · rw [← add_ofNat_add]
    exact h.drop (by omega)
  · cases k with
    | zero => exact h.1 0 Nat.one_pos
    | succ k =>
      have hk := h.2 k (by omega)
      rwa [add_ofNat_add, show i + 1 + k = i + (k + 1) by omega, ← add_ofNat_add] at hk

theorem length_taken_copy (mem : Mem) (left i : Nat) (v : Pipe) :
    (c.copy left i v mem).2.1.taken.length + i = v.taken.length + (c.copy left i v mem).1 +
      if MappedFor c.walkaddr (c.addr + BitVec.ofNat 64 i) (min left v.count) then 0 else 1 := by
  induction left generalizing i v mem with
  | zero => simp [Reader.copy, MappedFor]
  | succ left ih =>
    rw [Reader.copy]
    by_cases hempty : v.Empty
    · have hcount : v.count = 0 := by simp [Pipe.count, hempty.symm]
      have hmapped : MappedFor c.walkaddr (c.addr + BitVec.ofNat 64 i) 0 :=
        fun k hk => absurd hk (Nat.not_lt_zero k)
      rw [if_pos hempty, hcount, Nat.min_zero, if_pos hmapped]
      rfl
    have hread : v.read.taken.length = v.taken.length + 1 := by simp [Pipe.read]
    have hsplit : MappedFor c.walkaddr (c.addr + BitVec.ofNat 64 i) (min left v.read.count + 1) ↔
        _ := mappedFor_succ
    rw [if_neg hempty, Pipe.count_read hempty, Nat.add_min_add_right]
    simp only [hsplit]
    by_cases hone : MappedFor c.walkaddr (c.addr + BitVec.ofNat 64 i) 1
    · have hrest := ih (storeBytes c.walkaddr mem (c.addr + BitVec.ofNat 64 i)
        [v.data (slot v.nread)]) (i + 1) v.read
      rw [copyout_eq hone]
      simp only [hone, true_and, if_true]
      omega
    · have hfails : ¬ (copyout c.walkaddr mem (c.addr + BitVec.ofNat 64 i)
          [v.data (slot v.nread)]).1 = true := fun hok => hone (copyout_ok_iff.mp hok)
      simp only [hone, false_and, hfails, if_false, Bool.false_eq_true]
      omega

theorem length_taken_piperead {k : Int} {v' : Pipe} {mem' : Mem}
    (h : c.piperead v mem = some (k, v', mem')) :
    v'.taken.length = v.taken.length + Return.takes { toReader := c, v, mem, k, mem' } := by
  rw [Reader.piperead] at h
  split_ifs at h with hempty hkilled
  · cases h
    have hcount : v.count = 0 := by simp [Pipe.count, hempty.1.symm]
    have hmapped : Return.Mapped { toReader := c, v, mem, k := -1, mem' := mem } := by
      show MappedFor _ _ (min _ v.count)
      rw [hcount, Nat.min_zero]
      exact fun k hk => absurd hk (Nat.not_lt_zero k)
    rw [Return.takes, if_pos hmapped]
    rfl
  · have hlength := length_taken_copy (c := c) mem c.n.toNat 0 v
    simp only [Option.some.injEq, Prod.mk.injEq] at h
    obtain ⟨rfl, hstate⟩ := h
    rw [BitVec.add_zero, hstate] at hlength
    rw [Return.takes, Int.toNat_natCast, ← Nat.add_assoc]
    exact hlength

theorem Reads.length_taken {rs : List Return} (h : Reads rs v w) :
    w.taken.length = v.taken.length + (rs.map Return.takes).sum := by
  induction h with
  | nil => rfl
  | read hread _ ih =>
    rw [ih, length_taken_piperead hread, List.map_cons, List.sum_cons, Nat.add_assoc]
  | write ch _ ih => exact ih

theorem length_of_delivers {rs : List Return} {bytes : List (List UInt8)}
    (h : List.Forall₂ Return.Delivers rs bytes) :
    bytes.flatten.length = (rs.map fun r => r.k.toNat).sum := by
  induction h with
  | nil => rfl
  | @cons r b rs bytes hr _ ih =>
    have hb : b.length = r.k.toNat := by
      rw [Return.Delivers] at hr
      split_ifs at hr with hk
      · rw [hr.1, Int.toNat_natCast]
      · rw [hr, Int.toNat_of_nonpos (by omega)]
        rfl
    rw [List.flatten_cons, List.length_append, hb, ih, List.map_cons, List.sum_cons]

/-- **A read consumes what it delivers**, over any sequence of reads, exactly if the pages of all the
bytes that they take are mapped. -/
theorem reads_deliver {rs : List Return} (h : Reads rs v w) :
    (∃ bytes : List (List UInt8), w.taken = v.taken ++ bytes.flatten ∧
      List.Forall₂ Return.Delivers rs bytes) ↔ ∀ r ∈ rs, r.Mapped := by
  refine ⟨?_, h.delivers⟩
  rintro ⟨bytes, htaken, hbytes⟩ r hr
  have hlength := h.length_taken
  rw [htaken, List.length_append, length_of_delivers hbytes] at hlength
  have hlost : (rs.map fun r : Return => if r.Mapped then 0 else 1).sum = 0 := by
    have hsum := List.sum_map_add (l := rs) (f := fun r : Return => r.k.toNat)
      (g := fun r => if r.Mapped then 0 else 1)
    have htakes : (rs.map fun r : Return => r.k.toNat + if r.Mapped then 0 else 1) =
        rs.map Return.takes := rfl
    rw [htakes] at hsum
    omega
  by_contra hno
  have hzero := (List.sum_eq_zero_iff (M := Nat)).mp hlost _ (List.mem_map_of_mem hr)
  rw [if_neg hno] at hzero
  cases hzero

/-- A byte is in the pipe, and no process was killed. -/
def oneByte : Pipe where
  data _ := 7
  nread := 0
  nwrite := 1
  readopen := true
  writeopen := true
  freed := false
  killed _ := false
  put := [7]
  taken := []

/-- `read(fd, 0, 1)`, with all pages at `pa`. -/
def readOne (pa : Addr) : Reader where
  pr := ⟨0, by decide⟩
  walkaddr _ := pa
  addr := 0
  n := 1

/-- Two reads, with a write between them. -/
theorem reads_deliver_two :
    let mem₁ := memmove (fun _ => 0) 4096 [7]
    let mem₂ := memmove mem₁ 4096 [9]
    let v := oneByte.read.write 9
    ∃ bytes : List (List UInt8), v.read.taken = oneByte.taken ++ bytes.flatten ∧
      List.Forall₂ Return.Delivers
        [⟨readOne 4096, oneByte, fun _ => 0, 1, mem₁⟩, ⟨readOne 4096, v, mem₁, 1, mem₂⟩] bytes :=
  (reads_deliver (.read rfl (.write 9 (.read rfl (.nil _))))).mpr (by
    simp only [List.forall_mem_cons]
    exact ⟨fun _ _ => show (4096 : Addr) ≠ 0 by decide, fun _ _ => show (4096 : Addr) ≠ 0 by decide,
      List.forall_mem_nil _⟩)

/-- The page of the buffer is not mapped: the call returns 0, and the byte is gone. -/
theorem piperead_loses :
    (readOne 0).piperead oneByte (fun _ => 0) = some (0, oneByte.read, fun _ => 0) ∧
      oneByte.read.taken = oneByte.taken ++ [7] :=
  ⟨rfl, rfl⟩

end Xv6.Pipes
