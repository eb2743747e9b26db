import Xv6.Pipe.Calls
import Xv6.Sleep.Equiv.Monitor

/-!
# The calls on a pipe keep to a monitor

The buffer holds the bytes put and not taken yet, each in the entry of its number (`Fifo`); and at
each line a thread with `pi->lock` knows for which of the two conditions a `wakeup` may be due
(`Point.Knows`).
-/

namespace Xv6.Pipes

open Lib Sleep BitVec

variable {v : Pipe}

/-! ### The buffer -/

/-- The buffer holds what was put and not taken yet. -/
structure Fifo (v : Pipe) : Prop where
  nread : v.nread = BitVec.ofNat 32 v.taken.length
  nwrite : v.nwrite = BitVec.ofNat 32 v.put.length
  le : v.taken.length ≤ v.put.length
  room : v.put.length ≤ v.taken.length + pipesize
  order : ∀ k < v.taken.length, v.taken[k]? = v.put[k]?
  data : ∀ k, v.taken.length ≤ k → k < v.put.length →
    v.put[k]? = some (v.data (slot (BitVec.ofNat 32 k)))

theorem slot_ofNat (k : Nat) : (slot (BitVec.ofNat 32 k)).val = k % pipesize := by
  simp only [slot, toNat_ofNat]
  exact Nat.mod_mod_of_dvd k (by decide)

theorem slot_ne {k m : Nat} (hlt : k < m) (hm : m < k + pipesize) :
    slot (BitVec.ofNat 32 k) ≠ slot (BitVec.ofNat 32 m) := by
  intro heq
  have hmod : k % pipesize = m % pipesize := by rw [← slot_ofNat, ← slot_ofNat, heq]
  have hsize : pipesize = 512 := rfl
  rw [hsize] at hmod hm
  omega

namespace Fifo

section

variable (h : Fifo v)

include h

theorem occupancy : (v.nwrite - v.nread).toNat = v.put.length - v.taken.length := by
  have hle := h.le
  have hroom := h.room
  have hsize : pipesize = 512 := rfl
  rw [h.nread, h.nwrite, toNat_sub, toNat_ofNat, toNat_ofNat]
  omega

theorem full_iff : v.Full ↔ v.put.length = v.taken.length + pipesize := by
  have hle := h.le
  have hroom := h.room
  have hsize : pipesize = 512 := rfl
  rw [Pipe.Full, h.nread, h.nwrite, ← toNat_inj, toNat_add, toNat_ofNat,
    toNat_ofNat, toNat_ofNat]
  omega

theorem empty_iff : v.Empty ↔ v.taken.length = v.put.length := by
  have hle := h.le
  have hroom := h.room
  have hsize : pipesize = 512 := rfl
  rw [Pipe.Empty, h.nread, h.nwrite, ← toNat_inj, toNat_ofNat, toNat_ofNat]
  omega

theorem write (hfull : ¬ v.Full) (ch : UInt8) : Fifo (v.write ch) := by
  have hroom : v.put.length < v.taken.length + pipesize :=
    lt_of_le_of_ne h.room fun heq => hfull (h.full_iff.mpr heq)
  have hlength : (v.put ++ [ch]).length = v.put.length + 1 := List.length_append
  constructor
  · exact h.nread
  · simp only [Pipe.write, hlength, h.nwrite, ofNat_add]
    rfl
  · exact le_trans h.le (by simp only [Pipe.write, hlength]; omega)
  · simp only [Pipe.write, hlength]
    omega
  · intro k hk
    have hput : k < v.put.length := lt_of_lt_of_le hk h.le
    simp only [Pipe.write, List.getElem?_append_left hput]
    exact h.order k hk
  · intro k hk hlt
    simp only [Pipe.write, hlength] at hk hlt ⊢
    obtain hput | rfl := Nat.lt_succ_iff_lt_or_eq.mp hlt
    · -- an older byte is in another entry
      rw [List.getElem?_append_left hput, h.nwrite, Function.update_of_ne (slot_ne hput (by omega))]
      exact h.data k hk hput
    · rw [List.getElem?_concat_length, h.nwrite, Function.update_self]

theorem read (hempty : ¬ v.Empty) : Fifo v.read := by
  have hlt : v.taken.length < v.put.length :=
    lt_of_le_of_ne h.le fun heq => hempty (h.empty_iff.mpr heq)
  have hroom := h.room
  have hlength : ∀ ch, (v.taken ++ [ch]).length = v.taken.length + 1 := fun _ => List.length_append
  constructor
  · simp only [Pipe.read, hlength, h.nread, ofNat_add]
    rfl
  · exact h.nwrite
  · simp only [Pipe.read, hlength]
    omega
  · simp only [Pipe.read, hlength]
    omega
  · intro k hk
    simp only [Pipe.read, hlength] at hk ⊢
    obtain htaken | rfl := Nat.lt_succ_iff_lt_or_eq.mp hk
    · rw [List.getElem?_append_left htaken]
      exact h.order k htaken
    · rw [List.getElem?_concat_length, h.nread, h.data _ le_rfl hlt]
  · intro k hk hput
    simp only [Pipe.read, hlength] at hk
    exact h.data k (by omega) hput

theorem close (writable : Bool) : Fifo (v.close writable) := by
  cases writable <;> exact ⟨h.nread, h.nwrite, h.le, h.room, h.order, h.data⟩

theorem free : Fifo v.free := ⟨h.nread, h.nwrite, h.le, h.room, h.order, h.data⟩

theorem kill (k : Option (Fin nproc)) : Fifo (v.kill k) := by
  cases k with
  | none => exact h
  | some => exact ⟨h.nread, h.nwrite, h.le, h.room, h.order, h.data⟩

theorem fifoOk : FifoOk v where
  occupancy := by
    rw [h.occupancy]
    exact Nat.sub_le_of_le_add (Nat.add_comm _ _ ▸ h.room)
  kept := by
    rw [h.occupancy]
    exact (Nat.add_sub_of_le h.le).symm
  order := h.order

end

end Fifo

/-! ### The conditions -/

theorem Cond.data_false (h : Cond.data.holds v = false) : v.Empty ∧ v.writeopen = true := by
  simpa [Cond.holds] using h

theorem Cond.room_false (h : Cond.room.holds v = false) : v.Full ∧ v.readopen = true := by
  simpa [Cond.holds] using h

theorem Cond.data_true (h : ¬ v.Empty) : Cond.data.holds v = true := decide_eq_true (.inl h)

theorem Cond.room_true (h : ¬ v.Full) : Cond.room.holds v = true := decide_eq_true (.inl h)

theorem announced_chan (i j : Cond) (w : Cond → Bool) :
    announced pipeProgram (.chan i.chan) w j = (w j || decide (i = j)) := by
  cases i <;> cases j <;> rfl

theorem newly_eq {v' : Pipe} {r : Cond → Bool} {i : Cond}
    (h : i.holds v = true ∨ i.holds v' = i.holds v) : newly pipeProgram v v' r i = r i := by
  have hcond : (!i.holds v && i.holds v') = false := by
    obtain h | h := h
    · rw [h]
      rfl
    · rw [h, Bool.not_and_self]
  show (r i || (!i.holds v && i.holds v')) = r i
  rw [hcond, Bool.or_false]

/-! ### The lines -/

/-- The lines with `pi->lock`. -/
def Point.locked : Point → Bool
  | .writeTest .. | .writeFull .. | .writeSleep .. | .writeCopy .. | .readTest .. | .readLoop ..
  | .readCopy .. | .unlock _ | .closeSet .. | .closeWake .. | .closeTest _ => true
  | _ => false

/-- What a thread with the lock knows: the conditions `r` have become true, and it has called
`wakeup` for `w`. -/
def Point.Knows (v : Pipe) (r w : Cond → Bool) : Point → Prop
  | .writeTest _ _ _ fresh =>
    r .room = false ∧ (fresh = false → r .data = false) ∧ (fresh = true → v.readopen = true)
  | .writeFull _ _ _ fresh =>
    r .room = false ∧ (fresh = false → r .data = false) ∧ v.readopen = true
  | .writeSleep .. => r .room = false ∧ w .data = true ∧ v.readopen = true ∧ v.Full
  | .writeCopy _ _ _ fresh =>
    r .room = false ∧ (fresh = false → r .data = false) ∧ v.readopen = true ∧ ¬ v.Full
  | .readTest .. | .closeSet .. => r .room = false ∧ r .data = false
  | .readLoop .. | .readCopy .. | .closeWake _ false => r .data = false
  | .closeWake _ true => r .room = false
  | .unlock _ | .closeTest _ => ∀ i, r i = true → w i = true
  | _ => True

/-- The pipe as a monitor, with its two conditions. -/
def pipeMonitor : Monitor Pipe Point Cond where
  n := pipeLock
  locked := Point.locked
  G := Fifo
  J p v r w := p.Knows v r w

/-- The lines of the calls, as rules. -/
inductive Point.Rule (v : Pipe) : Point → Input → Op Pipe Point Cond → Prop where
  | call (pr : Fin nproc) (c : Call) : Rule v (.user pr) (.call c) (c.op v pr)
  | write (pr : Fin nproc) (n : Int) :
      Rule v (.write pr n) .next (.acquire pipeLock (.writeTest pr 0 n false))
  | writeFail (pr : Fin nproc) (i : Nat) (n : Int) (fresh : Bool) (hi : i < n)
      (h : v.readopen = false ∨ v.killed pr = true) :
      Rule v (.writeTest pr i n fresh) .next (.release pipeLock (.user pr))
  | writeTest (pr : Fin nproc) (i : Nat) (n : Int) (fresh : Bool) (h : v.readopen = true) :
      Rule v (.writeTest pr i n fresh) .next (.store v (.writeFull pr i n fresh))
  | writeDone (pr : Fin nproc) (i : Nat) (n : Int) (fresh : Bool) :
      Rule v (.writeTest pr i n fresh) .next (.wake (.chan Cond.data.chan) (.unlock pr))
  | writeFull (pr : Fin nproc) (i : Nat) (n : Int) (fresh : Bool) (h : v.Full) :
      Rule v (.writeFull pr i n fresh) .next (.wake (.chan Cond.data.chan) (.writeSleep pr i n))
  | writeRoom (pr : Fin nproc) (i : Nat) (n : Int) (fresh : Bool) (h : ¬ v.Full) :
      Rule v (.writeFull pr i n fresh) .next (.store v (.writeCopy pr i n fresh))
  | writeSleep (pr : Fin nproc) (i : Nat) (n : Int) :
      Rule v (.writeSleep pr i n) .next (.sleep .room (.writeTest pr i n false))
  | writeCopy (pr : Fin nproc) (i : Nat) (n : Int) (fresh : Bool) (ch : UInt8) :
      Rule v (.writeCopy pr i n fresh) (.copyin (some ch))
        (.store (v.write ch) (.writeTest pr (i + 1) n true))
  | writeBreak (pr : Fin nproc) (i : Nat) (n : Int) (fresh : Bool) :
      Rule v (.writeCopy pr i n fresh) (.copyin none) (.wake (.chan Cond.data.chan) (.unlock pr))
  | read (pr : Fin nproc) (n : Int) : Rule v (.read pr n) .next (.acquire pipeLock (.readTest pr n))
  | readFail (pr : Fin nproc) (n : Int) :
      Rule v (.readTest pr n) .next (.release pipeLock (.user pr))
  | readSleep (pr : Fin nproc) (n : Int) (h : v.Empty ∧ v.writeopen = true) :
      Rule v (.readTest pr n) .next (.sleep .data (.readTest pr n))
  | readTest (pr : Fin nproc) (n : Int) : Rule v (.readTest pr n) .next (.store v (.readLoop pr 0 n))
  | readLoop (pr : Fin nproc) (i : Nat) (n : Int) (h : ¬ v.Empty) :
      Rule v (.readLoop pr i n) .next (.store v.read (.readCopy pr i n))
  | readDone (pr : Fin nproc) (i : Nat) (n : Int) :
      Rule v (.readLoop pr i n) .next (.wake (.chan Cond.room.chan) (.unlock pr))
  | readCopy (pr : Fin nproc) (i : Nat) (n : Int) :
      Rule v (.readCopy pr i n) (.copyout true) (.store v (.readLoop pr (i + 1) n))
  | readBreak (pr : Fin nproc) (i : Nat) (n : Int) :
      Rule v (.readCopy pr i n) (.copyout false) (.wake (.chan Cond.room.chan) (.unlock pr))
  | unlock (pr : Fin nproc) : Rule v (.unlock pr) .next (.release pipeLock (.user pr))
  | close (pr : Fin nproc) (writable : Bool) :
      Rule v (.close pr writable) .next (.acquire pipeLock (.closeSet pr writable))
  | closeSet (pr : Fin nproc) (writable : Bool) :
      Rule v (.closeSet pr writable) .next (.store (v.close writable) (.closeWake pr writable))
  | closeData (pr : Fin nproc) :
      Rule v (.closeWake pr true) .next (.wake (.chan Cond.data.chan) (.closeTest pr))
  | closeRoom (pr : Fin nproc) :
      Rule v (.closeWake pr false) .next (.wake (.chan Cond.room.chan) (.closeTest pr))
  | closeLast (pr : Fin nproc) : Rule v (.closeTest pr) .next (.release pipeLock (.closeFree pr))
  | closeTest (pr : Fin nproc) : Rule v (.closeTest pr) .next (.release pipeLock (.user pr))
  | closeFree (pr : Fin nproc) : Rule v (.closeFree pr) .next (.store v.free (.user pr))
  | kill (pr : Fin nproc) (k : Option (Fin nproc)) :
      Rule v (.kill pr k) .next (.wake (.kill k) (.user pr))

theorem Point.op_rule {p : Point} {ch : Input} {o : Op Pipe Point Cond}
    (h : pipeProgram.op v p ch = some o) : Point.Rule v p ch o := by
  have hop : p.op v ch = some o := by
    simp only [pipeProgram] at h
    split_ifs at h
    exact h
  unfold Point.op at hop
  split at hop
  case h_3 pr i n fresh =>
    split_ifs at hop with hi hfail <;> cases hop
    · exact .writeFail pr i n fresh hi hfail
    · exact .writeTest pr i n fresh (by simpa using (not_or.mp hfail).1)
    · exact .writeDone pr i n fresh
  case h_4 pr i n fresh =>
    split_ifs at hop with hfull <;> cases hop
    · exact .writeFull pr i n fresh hfull
    · exact .writeRoom pr i n fresh hfull
  case h_9 pr n =>
    split_ifs at hop with hempty hkilled <;> cases hop
    · exact .readFail pr n
    · exact .readSleep pr n hempty
    · exact .readTest pr n
  case h_10 pr i n =>
    split_ifs at hop with hi <;> cases hop
    · exact .readLoop pr i n hi.2
    · exact .readDone pr i n
  case h_18 pr =>
    split_ifs at hop with hclosed <;> cases hop
    · exact .closeLast pr
    · exact .closeTest pr
  case h_21 => cases hop
  all_goals
    cases hop
    constructor

/-! ### The monitor -/

/-- A line behind `acquire(&pi->lock)`. -/
theorem entry_of_knows {p : Point} (hlocked : p.locked = true)
    (h : ∀ v, p.Knows v (fun _ => false) fun _ => false) : pipeMonitor.Entry p :=
  ⟨hlocked, fun v _ => h v⟩

theorem entry_writeTest (pr : Fin nproc) (i : Nat) (n : Int) :
    pipeMonitor.Entry (.writeTest pr i n false) :=
  entry_of_knows rfl fun _ => ⟨rfl, fun _ => rfl, nofun⟩

theorem entry_readTest (pr : Fin nproc) (n : Int) : pipeMonitor.Entry (.readTest pr n) :=
  entry_of_knows rfl fun _ => ⟨rfl, rfl⟩

theorem entry_closeSet (pr : Fin nproc) (writable : Bool) :
    pipeMonitor.Entry (.closeSet pr writable) :=
  entry_of_knows rfl fun _ => ⟨rfl, rfl⟩

section Keeps

variable {r w : Cond → Bool}

variable {p q : Point}

theorem keeps_out {v' : Pipe} (hp : p.locked = false) (hq : q.locked = false) (hfifo : Fifo v')
    (hcond : ∀ i : Cond, i.holds v' = i.holds v)
    (hknows : ∀ (p : Point) r w, p.Knows v r w → p.Knows v' r w) :
    pipeMonitor.Keeps pipeProgram v p r w (.store v' q) := by
  refine ⟨hq.trans hp.symm, hfifo, fun hlocked => ?_, fun _ => ⟨hcond, hknows⟩⟩
  exact nomatch hp.symm.trans hlocked

theorem keeps_call (h : Fifo v) (pr : Fin nproc) (c : Call) :
    pipeMonitor.Keeps pipeProgram v (.user pr) r w (c.op v pr) := by
  cases c with
  | kill k =>
    refine keeps_out rfl rfl (h.kill k) (fun i => ?_) fun p r w hknows => ?_
    · cases k <;> rfl
    · cases k <;> exact hknows
  | _ => exact keeps_out rfl rfl h (fun _ => rfl) fun _ _ _ => id

theorem keeps_jump (h : Fifo v) (hp : p.locked = true) (hq : q.locked = true)
    (hknows : q.Knows v r w) : pipeMonitor.Keeps pipeProgram v p r w (.store v q) := by
  refine ⟨hq.trans hp.symm, h, fun _ => ?_, fun hout => nomatch hp.symm.trans hout⟩
  have hsame : newly pipeProgram v v r = r := funext fun i => newly_eq (.inr rfl)
  simp only [hsame]
  exact hknows

theorem keeps_store {v' : Pipe} (hp : p.locked = true) (hq : q.locked = true) (hfifo : Fifo v')
    (hknows : q.Knows v' (newly pipeProgram v v' r) w) :
    pipeMonitor.Keeps pipeProgram v p r w (.store v' q) :=
  ⟨hq.trans hp.symm, hfifo, fun _ => hknows, fun hout => nomatch hp.symm.trans hout⟩

/-- The last `wakeup` of a call: no other one is due. -/
theorem knows_announced {i j : Cond} (hij : ∀ k, k = i ∨ k = j) (hj : r j = false) (k : Cond)
    (hk : r k = true) : announced pipeProgram (.chan i.chan) w k = true := by
  rw [announced_chan]
  obtain rfl | rfl := hij k
  · simp
  · rw [hj] at hk
    cases hk

theorem data_or_room (k : Cond) : k = .data ∨ k = .room := by
  cases k
  · exact .inl rfl
  · exact .inr rfl

theorem room_or_data (k : Cond) : k = .room ∨ k = .data := (data_or_room k).symm

theorem close_knows {pr : Fin nproc} {writable : Bool}
    (h : (Point.closeSet pr writable).Knows v r w) :
    (Point.closeWake pr writable).Knows (v.close writable)
      (newly pipeProgram v (v.close writable) r) w := by
  cases writable with
  | true => exact (newly_eq (.inr rfl)).trans h.1
  | false => exact (newly_eq (.inr rfl)).trans h.2

theorem Point.Rule.keeps {p : Point} {ch : Input} {o : Op Pipe Point Cond} (hrule : p.Rule v ch o)
    (h : Fifo v) (hknows : p.locked = true → p.Knows v r w) :
    pipeMonitor.Keeps pipeProgram v p r w o := by
  cases hrule with
  | call pr c => exact keeps_call h pr c
  | write pr n => exact ⟨rfl, rfl, entry_writeTest pr 0 n⟩
  | read pr n => exact ⟨rfl, rfl, entry_readTest pr n⟩
  | close pr writable => exact ⟨rfl, rfl, entry_closeSet pr writable⟩
  | writeTest pr i n fresh hopen =>
    obtain ⟨hroom, hfresh, -⟩ := hknows rfl
    exact keeps_jump h rfl rfl ⟨hroom, hfresh, hopen⟩
  | writeDone | writeBreak =>
    exact ⟨rfl, fun _ => knows_announced data_or_room (hknows rfl).1⟩
  | writeFull pr i n fresh hfull =>
    obtain ⟨hroom, -, hopen⟩ := hknows rfl
    refine ⟨rfl, fun _ => ⟨hroom, ?_, hopen, hfull⟩⟩
    rw [announced_chan]
    simp
  | writeRoom pr i n fresh hfull =>
    obtain ⟨hroom, hfresh, hopen⟩ := hknows rfl
    exact keeps_jump h rfl rfl ⟨hroom, hfresh, hopen, hfull⟩
  | writeSleep pr i n =>
    obtain ⟨hroom, hdata, hopen, hfull⟩ := hknows rfl
    refine ⟨rfl, entry_writeTest pr i n, ?_, fun j hj _ => ?_⟩
    · simp [pipeProgram, Cond.holds, hfull, hopen]
    · obtain rfl | rfl := data_or_room j
      · exact hdata
      · exact nomatch hroom.symm.trans hj
  | writeCopy pr i n fresh ch =>
    obtain ⟨hroom, -, hopen, hfull⟩ := hknows rfl
    refine keeps_store rfl rfl (h.write hfull ch) ⟨?_, nofun, fun _ => hopen⟩
    rw [newly_eq (.inl (Cond.room_true hfull)), hroom]
  | readSleep pr n hempty =>
    obtain ⟨hroom, hdata⟩ := hknows rfl
    refine ⟨rfl, entry_readTest pr n, ?_, fun j hj _ => ?_⟩
    · simp [pipeProgram, Cond.holds, hempty]
    · obtain rfl | rfl := data_or_room j
      · exact nomatch hdata.symm.trans hj
      · exact nomatch hroom.symm.trans hj
  | readTest => exact keeps_jump h rfl rfl (hknows rfl).2
  | readLoop pr i n hempty =>
    refine keeps_store rfl rfl (h.read hempty) ?_
    exact (newly_eq (.inl (Cond.data_true hempty))).trans (hknows rfl)
  | readDone pr i n | readBreak pr i n =>
    exact ⟨rfl, fun _ => knows_announced room_or_data (hknows rfl)⟩
  | readCopy => exact keeps_jump h rfl rfl (hknows rfl)
  | closeSet pr writable =>
    exact keeps_store rfl (by cases writable <;> rfl) (h.close writable) (close_knows (hknows rfl))
  | closeData => exact ⟨rfl, fun _ => knows_announced data_or_room (hknows rfl)⟩
  | closeRoom => exact ⟨rfl, fun _ => knows_announced room_or_data (hknows rfl)⟩
  | closeFree => exact keeps_out rfl rfl h.free (fun _ => rfl) fun _ _ _ => id
  | kill => exact ⟨rfl, nofun⟩
  | _ => exact ⟨rfl, rfl, rfl⟩

/-- A call releases the lock when no `wakeup` is due, but for `pipewrite` of a killed process. -/
theorem Point.Rule.heed {ch : Input} {n : Nat} (hrule : p.Rule v ch (.release n q))
    (hknows : p.locked = true → p.Knows v r w)
    (hspared : ∀ pr i m, p = .writeTest pr i m true → i < m → v.killed pr = false) :
    Heed pipeProgram v r w := by
  intro j hj _
  -- before the loop has put a byte into the buffer, nothing has become true
  have hnothing : r .room = false → r .data = false → w j = true := by
    intro hroom hdata
    obtain rfl | rfl := data_or_room j
    · exact nomatch hdata.symm.trans hj
    · exact nomatch hroom.symm.trans hj
  generalize ho : Op.release n q = o at hrule
  cases hrule with
  | writeFail pr i m fresh hi hfail =>
    obtain ⟨hroom, hfresh, hopen⟩ := hknows rfl
    cases fresh with
    | false => exact hnothing hroom (hfresh rfl)
    | true =>
      -- the read end was open when the byte was put, and the lock has not been released since
      obtain hclosed | hkilled := hfail
      · exact nomatch hclosed.symm.trans (hopen rfl)
      · exact nomatch (hspared pr i m rfl hi).symm.trans hkilled
  | readFail => exact hnothing (hknows rfl).1 (hknows rfl).2
  | unlock pr | closeLast pr | closeTest pr => exact hknows rfl j hj
  | call pr c => cases c <;> cases ho
  | _ => cases ho

end Keeps

theorem pipeMonitor_sound : pipeMonitor.Sound pipeProgram where
  lock _ := rfl
  intr _ := rfl
  op _ _ _ _ _ _ hop hG hknows := (Point.op_rule hop).keeps hG hknows

end Xv6.Pipes
