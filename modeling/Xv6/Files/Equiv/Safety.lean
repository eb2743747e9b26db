import Xv6.Files.Equiv.Inodes
import Xv6.Files.Equiv.Pipes

/-!
# File references under threads

A file that a thread uses, and its pipe or inode, keep their references in every run in which no
call overlaps with the `close` of its file (`files_kept`). `argfd` takes no reference, so a `close`
frees the pipe under a `read` (`closed_freed`).
-/

namespace Xv6.Files

open Lib Finset

variable {θ : Type} {s s' : State θ}

/-! ### Invariants -/

structure Inv [Fintype θ] (s : State θ) : Prop where
  refs : RefInv s
  pipes : PipeInv s
  inodes : InodeInv s
  owned : SpinCode.Owned Line.held s

theorem Start.inv [Fintype θ] (h : Start s) : Inv s where
  refs :=
    { known := fun t => by rw [h.loc]; trivial
      apart := fun t t' f _ _ hf => by
        rw [h.loc] at hf
        cases hf
      slot := fun fd f hofile => by
        have hslots := h.slots f
        have hpos := card_pos.mpr ⟨fd, Data.mem_slots.mpr hofile⟩
        omega
      call := fun t f hf => by
        rw [h.loc] at hf
        cases hf
      refs := fun f => by
        have hslots := h.slots f
        omega
      owed := fun t f _ hf => by
        rw [h.loc] at hf
        cases hf
      free := h.free }
  pipes :=
    { ends := h.ends
      opened := h.opened
      closing := fun t pi w ht => by
        rw [h.loc] at ht
        cases ht
      closingOne := fun t t' pi w _ ht => by
        rw [h.loc] at ht
        cases ht }
  inodes := by
    intro ip
    have hzero : ∑ t, (s.loc t).weight ip = 0 := sum_eq_zero fun t _ => by rw [h.loc]; rfl
    have hcard : (counted s ip).card ≤
        (Finset.univ.filter fun f => (s.data.file f).linked ip).card := by
      refine card_le_card fun f hf => ?_
      rw [mem_filter]
      exact ⟨mem_univ f, (mem_counted.mp hf).1⟩
    have hinodes := h.inodes ip
    omega
  owned := by
    intro ip t
    rw [h.owner, h.loc]
    exact iff_of_false nofun id

theorem Inv.step [Fintype θ] [DecidableEq θ] (h : Inv s) {a : θ × Choice} (hok : Apart s a)
    (hstep : fileCode.machine.step s a = some s') : Inv s' := by
  obtain ⟨c, ch⟩ := a
  obtain ⟨op, hs⟩ := stepped hstep
  exact ⟨h.refs.step hs hok, h.pipes.step (h.refs.ends hs) hs.others,
    h.inodes.step hs (h.refs.links hs), h.owned.step fileCode_disciplined hstep⟩

/-! ### What the invariants say of the calls -/

namespace Inv

variable [Fintype θ] (h : Inv s)

include h

variable {t : θ} {ip : InodeId}

/-- A pipe that a thread reads or writes is open at the end of its file. -/
theorem isEnd {f : FileId} {pi : Nat} (ht : s.loc t = .pipe f pi) :
    (s.data.file f).isEnd pi (s.data.file f).writable := by
  have hknown := h.refs.known t
  rw [ht] at hknown
  exact ⟨h.refs.call t f (by rw [ht]; rfl), hknown.1, hknown.2, rfl⟩

/-- A thread that uses an inode does so through a file that counts. -/
theorem counted (ht : (s.loc t).inode s.data = some ip) :
    ∃ f, Counted s ip f := by
  have hknown := h.refs.known t
  have hcounted := fun f => h.refs.counted (t := t) (f := f)
  generalize s.loc t = l at ht hknown hcounted
  cases l with
  | lock u f =>
    cases ht
    exact ⟨f, hcounted f rfl nofun hknown⟩
  | io u f ip' | unlock u f ip' =>
    cases ht
    have hf := hcounted f rfl nofun hknown.1
    rw [hknown.2] at hf
    exact ⟨f, hf⟩
  | _ => cases ht

/-- So does a thread that has locked one, unless it has a reference of its own. -/
theorem held (ht : (s.loc t).held ip) :
    (s.loc t).own = some ip ∨ ∃ f, Counted s ip f := by
  have hknown := h.refs.known t
  have hcounted := fun f => h.refs.counted (t := t) (f := f)
  generalize s.loc t = l at ht hknown hcounted
  cases l with
  | io u f ip' | unlock u f ip' | openMode ip' f | openUnlock ip' f =>
    obtain rfl : ip = ip' := ht
    have hf := hcounted f rfl nofun hknown.1
    rw [hknown.2] at hf
    exact .inr ⟨f, hf⟩
  | openAlloc ip' | openTest ip' f fd | openStore ip' f fd | openType ip' f | openIp ip' f
  | openClose ip' f | openFail ip' | iputFree ip' =>
    obtain rfl : ip = ip' := ht
    exact .inl rfl
  | _ => cases ht

theorem one_le_ref {f : FileId} (hf : Counted s ip f) :
    1 ≤ (s.data.inode ip).ref := by
  have hpos := card_pos.mpr ⟨f, mem_counted.mpr hf⟩
  have hinv := h.inodes ip
  omega

theorem last (ht : (s.loc t).own = some ip) (href : (s.data.inode ip).ref = 1) :
    (∀ f, ¬Counted s ip f) ∧ ∀ t', (s.loc t').own = some ip → t' = t := by
  classical
  have hinv := h.inodes ip
  have hself : (s.loc t).weight ip = 1 := if_pos ht
  have hle := le_sum (fun t => (s.loc t).weight ip) t
  constructor
  · intro f hf
    have hpos := card_pos.mpr ⟨f, mem_counted.mpr hf⟩
    omega
  · intro t' ht'
    by_contra hne
    have hother : (s.loc t').weight ip = 1 := if_pos ht'
    have hpair := add_le_sum (fun t => (s.loc t).weight ip) (Ne.symm hne)
    omega

theorem fileOk : FileOk s where
  file t f _ hf := h.refs.call t f hf
  pipe t f pi ht := (h.pipes.opened f pi _ (h.isEnd ht)).1
  inode t ip ht := by
    obtain ⟨f, hf⟩ := h.counted ht
    exact h.one_le_ref hf
  pipeclose t pi w ht hfreed t' f ht' := by
    have hend := h.isEnd ht'
    have hw : (s.data.file f).writable ≠ w := by
      rintro rfl
      exact (h.pipes.closing t pi _ ht).2.2 f hend
    obtain ⟨hnot, hopen⟩ := h.pipes.opened f pi _ hend
    have hkept := (pipeclose_other hw hnot hopen).1
    exact nomatch hkept.symm.trans hfreed
  iput t ip ht href _ := by
    obtain ⟨hnone, hone⟩ := h.last (t := t) (by rw [ht]; rfl) href
    constructor
    · by_contra howner
      obtain ⟨t', ht'⟩ := Option.ne_none_iff_exists'.mp howner
      have hheld : (s.loc t').held ip := (h.owned ip t').mp ht'
      obtain hown | ⟨f, hf⟩ := h.held hheld
      · rw [hone t' hown, ht] at hheld
        exact hheld
      · exact hnone f hf
    · intro t' ht'
      obtain ⟨f, hf⟩ := h.counted ht'
      exact hnone f hf

end Inv

/-- **File references**: in every run in which no call is made on a file that is being closed or
opened, and no file is closed during another call on it, the files that threads use keep their
references, and so do their pipes and inodes. -/
theorem files_kept [Fintype θ] [DecidableEq θ] (s₀ s : State θ) (as : List (θ × Choice))
    (h₀ : Start s₀) (hmeets : fileCode.machine.Meets Apart s₀ as)
    (hrun : fileCode.machine.run s₀ as = some s) : FileOk s := by
  have hinv : Inv s := fileCode.machine.invariant_of_meets
    (fun s a s' hinv hok hstep => hinv.step hok hstep) as s₀ s h₀.inv hmeets hrun
  exact hinv.fileOk

/-! ### A pipe -/

/-- Two threads; descriptor 0 is to read the pipe, descriptor 1 to write it. -/
def onePipe : State (Fin 2) where
  owner _ := none
  loc _ := .user
  data :=
    { ofile := fun fd => if fd = 0 then some 0 else if fd = 1 then some 1 else none
      file := fun f =>
        if f = 0 then ⟨.pipe, 1, true, false, 0, 0⟩
        else if f = 1 then ⟨.pipe, 1, false, true, 0, 0⟩ else ⟨.none, 0, false, false, 0, 0⟩
      pipe := fun _ => ⟨true, true, false⟩
      inode := fun _ => ⟨0, false, 0⟩ }

theorem onePipe_isEnd {f : FileId} {pi : Nat} {w : Bool} (h : (onePipe.data.file f).isEnd pi w) :
    f = if w then 1 else 0 := by
  obtain ⟨href, -, -, rfl⟩ := h
  by_cases h0 : f = 0
  · rw [h0]
    rfl
  · by_cases h1 : f = 1
    · rw [h1]
      rfl
    · have hfile : (onePipe.data.file f).ref = 0 := by simp [onePipe, h0, h1]
      omega

theorem onePipe_start : Start onePipe where
  owner _ := rfl
  loc _ := rfl
  slots := by decide +kernel
  free := by decide +kernel
  inodes := by decide +kernel
  ends f f' pi w hf hf' := (onePipe_isEnd hf).trans (onePipe_isEnd hf').symm
  opened f pi w hf := by cases w <;> exact ⟨rfl, rfl⟩

def lines (t : Fin 2) (n : Nat) : List (Fin 2 × Choice) := List.replicate n (t, .next)

def duplicated : List (Fin 2 × Choice) :=
  [(0, .call (.use .read 0)), (0, .next), (1, .call (.dup 0))] ++ lines 1 5

theorem duplicated_kept :
    Start onePipe ∧ fileCode.machine.Meets Apart onePipe duplicated ∧
      ∃ s, fileCode.machine.run onePipe duplicated = some s ∧ s.loc 0 = .pipe 0 0 ∧
        (s.data.file 0).ref = 2 ∧ FileOk s := by
  have hok : fileCode.machine.Meets Apart onePipe duplicated := by decide +kernel
  exact ⟨onePipe_start, hok, _, rfl, rfl, rfl, files_kept onePipe _ duplicated onePipe_start hok rfl⟩

def closed : List (Fin 2 × Choice) :=
  [(0, .call (.use .read 0)), (0, .next), (1, .call (.close 0))] ++ lines 1 3 ++
    [(1, .call (.close 1))] ++ lines 1 3

/-- The pipe has been freed under the first thread. -/
theorem closed_freed :
    Start onePipe ∧ ∃ s, fileCode.machine.run onePipe closed = some s ∧ s.loc 0 = .pipe 0 0 ∧
      (s.data.file 0).ref = 0 ∧ (s.data.pipe 0).freed = true ∧ ¬FileOk s := by
  refine ⟨onePipe_start, _, rfl, rfl, rfl, rfl, fun h => ?_⟩
  cases h.pipe 0 0 0 rfl

end Xv6.Files
