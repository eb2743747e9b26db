import Xv6.Console.Line

/-!
# The line discipline of the console

The ring holds the committed characters that no call has taken, `pending`, then those that can still
be edited, `edit` (`Buffer`). Erasing stops at `cons.w`; `consoleread` takes from `pending` only. A
call copies what it takes, or ends with the `^D` that it took or left (`Cons.own`,
`Point.Delivered`).
-/

namespace Xv6.Console

open Lib Function List

variable {κ : Type*} {s s' : Cons κ} {pending edit : List UInt8} {c : UInt8}

/-! ### The ring -/

def Cons.ring (s : Cons κ) (edit : List UInt8) : Ring 32 inputBuf UInt8 :=
  ⟨s.buf, s.e, s.r, s.committed ++ edit, s.taken.map Prod.snd⟩

/-- The buffer is what waits for a reader, followed by the line that is edited. -/
structure Buffer (s : Cons κ) (pending edit : List UInt8) : Prop where
  ring : (s.ring edit).Ok (pending ++ edit)
  w : s.w = s.r + BitVec.ofNat 32 pending.length

theorem inputBuf_lt : inputBuf < 2 ^ 32 := by decide

theorem inputBuf_dvd : inputBuf ∣ 2 ^ 32 := by decide

namespace Buffer

theorem init : Buffer (Cons.init : Cons κ) [] [] :=
  ⟨⟨rfl, rfl, Nat.zero_le _, fun _ hk => absurd hk (Nat.not_lt_zero _)⟩, rfl⟩

section

variable (h : Buffer s pending edit)

include h

theorem readable :
    (⟨s.buf, s.w, s.r, s.committed, s.taken.map Prod.snd⟩ : Ring 32 inputBuf UInt8).Ok pending := by
  have hhistory : s.committed ++ edit = s.taken.map Prod.snd ++ (pending ++ edit) := h.ring.history
  rw [← append_assoc, append_cancel_right_eq] at hhistory
  rw [h.w, hhistory]
  exact h.ring.left

theorem editable :
    (⟨s.buf, s.e, s.w, s.committed ++ edit, s.taken.map Prod.snd ++ pending⟩ :
      Ring 32 inputBuf UInt8).Ok edit := by
  rw [h.w]
  exact h.ring.drop

theorem ordered : s.Ordered := by
  have hw : (s.w - s.r).toNat = pending.length := h.readable.toNat_sub inputBuf_lt
  have he : (s.e - s.r).toNat = (pending ++ edit).length := h.ring.toNat_sub inputBuf_lt
  refine ⟨?_, ?_⟩
  · rw [hw, he, length_append]
    exact Nat.le_add_right _ _
  · rw [he]
    exact h.ring.size

theorem erase (he : s.e ≠ s.w) : ∃ edit', Buffer s.erase pending edit' := by
  have hne : edit ≠ [] := fun hnil => he ((h.editable.idx_eq_seen inputBuf_lt).mpr hnil)
  obtain ⟨edit', a, rfl⟩ := (eq_nil_or_concat' edit).resolve_left hne
  have hback : (s.ring (edit' ++ [a])).back = s.erase.ring edit' := by
    simp only [Ring.back, Cons.ring, Cons.erase, ← append_assoc, dropLast_concat]
  have hring := h.ring
  rw [← append_assoc] at hring
  exact ⟨edit', hback ▸ hring.back, h.w⟩

end

theorem killLine (k : Nat) (h : Buffer s pending edit) :
    ∃ edit', Buffer (Cons.killLine k s) pending edit' := by
  induction k generalizing s edit with
  | zero => exact ⟨edit, h⟩
  | succ k ih =>
    rw [Cons.killLine]
    split_ifs with hmore
    · obtain ⟨edit', h'⟩ := h.erase hmore.1
      exact ih h'
    · exact ⟨edit, h⟩

section

variable (h : Buffer s pending edit)

include h

theorem store (hroom : (s.e - s.r).toNat < inputBuf) :
    Buffer (s.store c) pending (edit ++ [c]) := by
  have hlength : (s.e - s.r).toNat = (pending ++ edit).length := h.ring.toNat_sub inputBuf_lt
  rw [hlength] at hroom
  have hring := (h.ring.set inputBuf_dvd hroom c).advance hroom (update_self _ _ _)
  have heq : ((s.ring edit).set c).advance = (s.store c).ring (edit ++ [c]) := by
    simp only [Ring.advance, Ring.set, Cons.ring, Cons.store, update_self, append_assoc]
  rw [heq, append_assoc] at hring
  exact ⟨hring, h.w⟩

theorem commit : Buffer s.commit (pending ++ edit) [] := by
  have hbytes : s.bytes s.w s.e = edit := h.editable.contents_eq inputBuf_lt
  have heq : s.commit.ring [] = s.ring edit := by
    simp only [Cons.ring, Cons.commit, hbytes, append_nil]
  refine ⟨?_, h.ring.idx⟩
  rw [heq, append_nil]
  exact h.ring

theorem input (hroom : (s.e - s.r).toNat < inputBuf) :
    ∃ more edit', Buffer (s.input c) (pending ++ more) edit' := by
  have hstored := h.store (c := c) hroom
  dsimp only [Cons.input]
  split_ifs
  · exact ⟨_, _, hstored.commit⟩
  · exact ⟨[], _, by rwa [append_nil]⟩

/-- **Editing**: no input character touches what is committed; it may commit the rest. -/
theorem consoleintr :
    ∃ more edit', Buffer (s.consoleintr c) (pending ++ more) edit' := by
  have hsame : ∃ more edit', Buffer s (pending ++ more) edit' :=
    ⟨[], edit, by rwa [append_nil]⟩
  unfold Cons.consoleintr
  split_ifs with _ _ _ he hroom
  · exact hsame
  · obtain ⟨edit', h'⟩ := h.killLine (s.e - s.w).toNat
    exact ⟨[], edit', by rwa [append_nil]⟩
  · obtain ⟨edit', h'⟩ := h.erase he
    exact ⟨[], edit', by rwa [append_nil]⟩
  · exact hsame
  · exact h.input hroom.2
  · exact h.input hroom.2
  · exact hsame

theorem take (hne : s.r ≠ s.w) (t : κ) :
    ∃ pending', Buffer (s.take.keep t (s.buf (Ring.slot s.r))) pending' edit := by
  have hpending : pending ≠ [] := fun hnil =>
    hne ((h.readable.idx_eq_seen inputBuf_lt).mpr hnil).symm
  obtain ⟨a, pending', rfl⟩ := exists_cons_of_ne_nil hpending
  have heq : (s.ring edit).take = (s.take.keep t (s.buf (Ring.slot s.r))).ring edit := by
    simp only [Ring.take, Ring.first, Cons.ring, Cons.take, Cons.keep, map_append]
    rfl
  refine ⟨pending', heq ▸ h.ring.take, ?_⟩
  simp only [Cons.take, Cons.keep, h.w, length_cons, Nat.add_comm _ 1, BitVec.ofNat_add,
    BitVec.add_assoc]
  rfl

end

end Buffer

/-! ### The calls -/

/-- The loop stops at the start of the line: its bound suffices. -/
theorem killLine_ends (k : Nat) (hk : (s.e - s.w).toNat ≤ k) :
    (Cons.killLine k s).e = (Cons.killLine k s).w ∨
      (Cons.killLine k s).buf (Ring.slot ((Cons.killLine k s).e - 1)) = newline := by
  induction k generalizing s with
  | zero => exact .inl (by simp only [Cons.killLine]; bv_omega)
  | succ k ih =>
    rw [Cons.killLine]
    split_ifs with hmore
    · exact ih (by simp only [Cons.erase]; have hne := hmore.1; bv_omega)
    · obtain he | hc := not_and_or.mp hmore
      · exact .inl (not_not.mp he)
      · exact .inr (not_not.mp hc)

theorem calls_killLine (k : Nat) (s : Cons κ) :
    (Cons.killLine k s).call = s.call ∧ (Cons.killLine k s).taken = s.taken ∧
      (Cons.killLine k s).committed = s.committed := by
  induction k generalizing s with
  | zero => exact ⟨rfl, rfl, rfl⟩
  | succ k ih =>
    rw [Cons.killLine]
    split_ifs
    · exact ih s.erase
    · exact ⟨rfl, rfl, rfl⟩

theorem calls_consoleintr (s : Cons κ) (c : UInt8) :
    (s.consoleintr c).call = s.call ∧ (s.consoleintr c).taken = s.taken ∧
      s.committed <+: (s.consoleintr c).committed := by
  dsimp only [Cons.consoleintr, Cons.input]
  split_ifs
  all_goals first
    | exact ⟨rfl, rfl, prefix_rfl⟩
    | exact ⟨rfl, rfl, prefix_append _ _⟩
    | exact ⟨(calls_killLine _ s).1, (calls_killLine _ s).2.1,
        (calls_killLine _ s).2.2 ▸ prefix_rfl⟩

/-- `cons.w` and `cons.r` do not go back. -/
structure Extends (s s' : Cons κ) : Prop where
  committed : s.committed <+: s'.committed
  taken : s.taken <+: s'.taken

theorem Extends.trans {s₁ : Cons κ} (h : Extends s s₁) (h' : Extends s₁ s') : Extends s s' :=
  ⟨h.committed.trans h'.committed, h.taken.trans h'.taken⟩

variable [DecidableEq κ] {n : κ → Int} {t q : κ}

theorem own_keep_self : (s.keep t c).own t = s.own t ++ [c] := by
  simp [Cons.own, Cons.keep]

theorem own_keep_of_ne (h : q ≠ t) : (s.keep t c).own q = s.own q := by
  simp [Cons.own, Cons.keep, h.symm]

/-- The invariant of the console. -/
structure ConsoleInv (n : κ → Int) (s : Cons κ) : Prop where
  buffer : ∃ pending edit, Buffer s pending edit
  delivered : ∀ q, (s.call q).Delivered (n q) (s.own q)

namespace ConsoleInv

theorem init : ConsoleInv n Cons.init := ⟨⟨[], [], .init⟩, fun _ => rfl⟩

theorem goto {p : Point} (hbuffer : ∃ pending edit, Buffer s pending edit)
    (hother : ∀ q, q ≠ t → (s.call q).Delivered (n q) (s.own q))
    (hp : p.Delivered (n t) (s.own t)) : ConsoleInv n (s.goto t p) := by
  obtain ⟨pending, edit, h⟩ := hbuffer
  refine ⟨⟨pending, edit, h.ring, h.w⟩, fun q => ?_⟩
  show (update s.call t p q).Delivered (n q) (s.own q)
  by_cases hq : q = t
  · subst hq
    rwa [update_self]
  · rw [update_of_ne hq]
    exact hother q hq

section

variable (h : ConsoleInv n s)

include h

theorem setLock (lock : Option κ) : ConsoleInv n { s with lock := lock } :=
  ⟨h.buffer.imp fun _ => .imp fun _ hb => ⟨hb.ring, hb.w⟩, h.delivered⟩

theorem release {p : Point} (hp : p.Delivered (n t) (s.own t)) :
    ConsoleInv n (s.release t p) :=
  (goto h.buffer (fun q _ => h.delivered q) hp).setLock none

/-- A key press keeps the invariant. -/
theorem consoleintr : ConsoleInv n (s.consoleintr c) := by
  obtain ⟨pending, edit, hb⟩ := h.buffer
  obtain ⟨more, edit', hb'⟩ := hb.consoleintr (c := c)
  refine ⟨⟨_, _, hb'⟩, fun q => ?_⟩
  have hcalls := calls_consoleintr s c
  rw [hcalls.1, Cons.own, hcalls.2.1]
  exact h.delivered q

theorem acquire {p : Point} (hp : p.Delivered (n t) (s.own t))
    (hacquire : s.acquire t p = some s') : ConsoleInv n s' := by
  unfold Cons.acquire at hacquire
  split_ifs at hacquire
  cases hacquire
  exact (goto h.buffer (fun q _ => h.delivered q) hp).setLock _

theorem keep {p : Point} (hne : s.r ≠ s.w)
    (hp : p.Delivered (n t) (s.own t ++ [s.buf (Ring.slot s.r)])) :
    ConsoleInv n ((s.take.keep t (s.buf (Ring.slot s.r))).goto t p) := by
  obtain ⟨pending, edit, hb⟩ := h.buffer
  obtain ⟨pending', hb'⟩ := hb.take hne t
  refine goto ⟨_, _, hb'⟩ (fun q hq => ?_) ?_
  · rw [own_keep_of_ne hq]
    exact h.delivered q
  · rw [own_keep_self]
    exact hp

theorem keepLast {p : Point} (hne : s.r ≠ s.w)
    (hp : p.Delivered (n t) (s.own t ++ [s.buf (Ring.slot s.r)])) :
    ConsoleInv n ((s.take.keep t (s.buf (Ring.slot s.r))).release t p) :=
  (h.keep hne hp).setLock none

theorem read {m : Int} {dst : List UInt8} (hne : s.r ≠ s.w)
    (hp : (Point.wait m dst).Delivered (n t) (s.own t)) :
    ConsoleInv n (s.read t (n t) m dst true) := by
  obtain ⟨hown, hlength, heof⟩ := hp
  unfold Cons.read
  by_cases hc : s.buf (Ring.slot s.r) = ctrlD
  · simp only [if_pos hc]
    by_cases hm : m < n t
    · -- the `^D` is left for the next call
      rw [if_pos hm]
      have hr : ({ s.take with r := s.take.r - 1 } : Cons κ) = s := by
        simp only [Cons.take, BitVec.add_sub_cancel]
      rw [hr]
      refine h.release ⟨hlength, .inl ⟨hown, heof, ?_⟩⟩
      rintro rfl
      rw [length_nil] at hlength
      omega
    · -- nothing was copied yet: the call returns 0
      rw [if_neg hm]
      have hnil : dst = [] := length_eq_zero_iff.mp (by omega)
      refine h.keepLast hne ⟨hlength, .inr ⟨hnil, ?_⟩⟩
      rw [hown, hnil, hc]
      rfl
  · have hcopied : ctrlD ∉ dst ++ [s.buf (Ring.slot s.r)] := by
      simpa [heof] using fun heq => hc heq.symm
    have hcount : n t - (m - 1) = (dst ++ [s.buf (Ring.slot s.r)]).length := by
      rw [length_append, length_singleton]
      omega
    simp only [if_neg hc, Bool.true_eq_false, if_false]
    split_ifs
    · exact h.keepLast hne ⟨hcount, .inl ⟨by rw [hown], hcopied, by simp⟩⟩
    · exact h.keep hne ⟨by rw [hown], hcount, hcopied⟩

/-- A line of `consoleread` keeps the invariant. -/
theorem next (hnext : s.next t (n t) false true = some s') :
    ConsoleInv n s' := by
  have hp := h.delivered t
  unfold Cons.next at hnext
  cases hcall : s.call t with
  | idle =>
    rw [hcall] at hp hnext
    refine h.acquire ?_ hnext
    exact ⟨hp, sub_self _, not_mem_nil⟩
  | asleep =>
    rw [hcall] at hp hnext
    refine h.acquire ?_ hnext
    exact hp
  | done =>
    rw [hcall] at hnext
    cases hnext
  | test =>
    rw [hcall] at hp hnext
    cases hnext
    split_ifs with hm
    · exact goto h.buffer (fun q _ => h.delivered q) hp
    · obtain ⟨hown, hlength, heof⟩ := hp
      refine h.release ⟨hlength, .inl ⟨hown, heof, ?_⟩⟩
      rintro rfl
      rw [length_nil] at hlength
      omega
  | wait =>
    rw [hcall] at hp hnext
    cases hnext
    by_cases hr : s.r = s.w
    · rw [if_pos hr]
      exact h.release hp
    · rw [if_neg hr]
      exact h.read hr hp

theorem step {a : Act κ} (ha : a.Ok)
    (hstep : (consoleMachine n).step s a = some s') : ConsoleInv n s' := by
  cases a with
  | intr =>
    simp only [consoleMachine] at hstep
    split_ifs at hstep
    cases hstep
    exact h.consoleintr
  | next =>
    obtain ⟨rfl, rfl⟩ := ha
    exact h.next hstep

end

end ConsoleInv

/-! ### Whole runs -/

theorem extends_acquire {p : Point} (h : s.acquire t p = some s') : Extends s s' := by
  unfold Cons.acquire at h
  split_ifs at h
  cases h
  exact ⟨prefix_rfl, prefix_rfl⟩

theorem extends_read (m k : Int) (dst : List UInt8) (copied : Bool) :
    Extends s (s.read t m k dst copied) := by
  dsimp only [Cons.read]
  split_ifs
  all_goals first
    | exact ⟨prefix_rfl, prefix_rfl⟩
    | exact ⟨prefix_rfl, prefix_append _ _⟩

theorem extends_step {a : Act κ} (h : (consoleMachine n).step s a = some s') : Extends s s' := by
  cases a with
  | intr c =>
    simp only [consoleMachine] at h
    split_ifs at h
    cases h
    exact ⟨(calls_consoleintr s c).2.2, (calls_consoleintr s c).2.1 ▸ prefix_rfl⟩
  | next =>
    simp only [consoleMachine, Cons.next] at h
    split at h
    case h_1 | h_4 => exact extends_acquire h
    case h_2 =>
      cases h
      split_ifs <;> exact ⟨prefix_rfl, prefix_rfl⟩
    case h_3 =>
      cases h
      by_cases hr : s.r = s.w
      · rw [if_pos hr]
        exact ⟨prefix_rfl, prefix_rfl⟩
      · rw [if_neg hr]
        exact extends_read _ _ _ _
    case h_5 => cases h

/-- **Line discipline**: however the characters and the calls interleave, the indices stay in order,
the calls take the committed characters in their order and return what they took, and those that no
call has taken are in the buffer; nothing that was committed or taken changes later. -/
theorem console_lines (as : List (Act κ))
    (hok : (consoleMachine n).Meets (fun _ a => a.Ok) Cons.init as)
    (hrun : (consoleMachine n).run Cons.init as = some s) :
    s.Ordered ∧ s.committed = s.taken.map Prod.snd ++ s.bytes s.r s.w ∧
      (∀ q, (s.call q).Delivered (n q) (s.own q)) ∧
      ∀ bs s', (consoleMachine n).run s bs = some s' →
        s.committed <+: s'.committed ∧ s.taken <+: s'.taken := by
  have h : ConsoleInv n s := Machine.invariant_of_meets _
    (fun s a s' h ha hstep => h.step ha hstep) as _ _ .init hok hrun
  obtain ⟨pending, edit, hb⟩ := h.buffer
  have hbytes : s.bytes s.r s.w = pending := hb.readable.contents_eq inputBuf_lt
  refine ⟨hb.ordered, hbytes ▸ hb.readable.history, h.delivered, fun bs s' hrun' => ?_⟩
  have hextends : Extends s s' := Machine.invariant_of_run _
    (fun s₁ a s₂ hs hstep => hs.trans (extends_step hstep)) bs _ _
    ⟨prefix_rfl, prefix_rfl⟩ hrun'
  exact ⟨hextends.committed, hextends.taken⟩

/-- `ab`, a backspace, the end of the line and `^D`, for two calls. -/
def typed : List (Act Bool) :=
  [.intr 97, .intr 98, .intr delete, .intr carriageReturn, .intr ctrlD] ++
    List.replicate 5 (.next false false true) ++ List.replicate 3 (.next true false true)

theorem typed_lines : ∃ s : Cons Bool,
    (s.call false = .done 2 [97, newline] ∧ s.call true = .done 0 []) ∧ s.Ordered ∧
      s.committed = s.taken.map Prod.snd ++ s.bytes s.r s.w := by
  have hread : ∃ s, (consoleMachine fun _ => 16).run Cons.init typed = some s ∧
      s.call false = .done 2 [97, newline] ∧ s.call true = .done 0 [] :=
    Machine.exists_run _ (by decide +kernel)
  obtain ⟨s, hrun, hs⟩ := hread
  have h := console_lines typed (by decide +kernel) hrun
  exact ⟨s, hs, h.1, h.2.1⟩

end Xv6.Console
