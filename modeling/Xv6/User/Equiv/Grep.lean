import Xv6.User.Grep

/-!
# `grep` finds the matching lines

`matchhere` finds a word of the language in front of the text (`matchhere_iff`).
-/

namespace Xv6.Grep

open List

variable {re text : Str} {c x : UInt8} {is : List Item} {atEnd : Bool}

/-! ### Matching -/

theorem matchstar_iff {here : Str → Bool} : matchstar here c text = true ↔
    ∃ u t, text = u ++ t ∧ (∀ x ∈ u, Stands c x) ∧ here t = true := by
  induction text with
  | nil =>
    constructor
    · exact fun h => ⟨[], [], rfl, by simp, h⟩
    · rintro ⟨u, t, htext, -, h⟩
      obtain ⟨rfl, rfl⟩ := append_eq_nil_iff.mp htext.symm
      exact h
  | cons x text ih =>
    have hx : (decide (x = c) || decide (c = dot)) = true ↔ Stands c x := by
      rw [Bool.or_eq_true, decide_eq_true_iff, decide_eq_true_iff]
      exact or_comm
    rw [matchstar, Bool.or_eq_true, Bool.and_eq_true, hx, ih]
    constructor
    · rintro (h | ⟨hx, u, t, rfl, hu, h⟩)
      · exact ⟨[], x :: text, rfl, by simp, h⟩
      · exact ⟨x :: u, t, rfl, forall_mem_cons.mpr ⟨hx, hu⟩, h⟩
    · rintro ⟨_ | ⟨y, u⟩, t, htext, hu, h⟩
      · exact .inl (htext ▸ h)
      · obtain ⟨rfl, rfl⟩ := List.cons.inj htext
        obtain ⟨hx, hu⟩ := forall_mem_cons.mp hu
        exact .inr ⟨hx, u, t, rfl, hu, h⟩

/-- A word of the items is in front of the text; for `$` it is the whole text. -/
def Starts (is : List Item) (atEnd : Bool) (text : Str) : Prop :=
  ∃ v w, text = v ++ w ∧ v ∈ language is ∧ (atEnd = true → w = [])

theorem starts_cons {i : Item} : Starts (i :: is) atEnd text ↔
    ∃ u t, text = u ++ t ∧ u ∈ i.words ∧ Starts is atEnd t := by
  constructor
  · rintro ⟨-, w, rfl, ⟨u, v, hu, hv, rfl⟩, hw⟩
    exact ⟨u, v ++ w, append_assoc .., hu, v, w, rfl, hv, hw⟩
  · rintro ⟨u, -, rfl, hu, v, w, rfl, hv, hw⟩
    exact ⟨u ++ v, w, (append_assoc ..).symm, ⟨u, v, hu, hv, rfl⟩, hw⟩

theorem starts_one : Starts (.one c :: is) atEnd text ↔
    ∃ x t, text = x :: t ∧ Stands c x ∧ Starts is atEnd t := by
  rw [starts_cons]
  constructor
  · rintro ⟨-, t, htext, ⟨x, hx, rfl⟩, ht⟩
    exact ⟨x, t, htext, hx, ht⟩
  · rintro ⟨x, t, htext, hx, ht⟩
    exact ⟨[x], t, htext, ⟨x, hx, rfl⟩, ht⟩

theorem matchone_iff {here : Str → Bool} : matchone here c text = true ↔
    ∃ x t, text = x :: t ∧ Stands c x ∧ here t = true := by
  cases text with
  | nil => simp [matchone]
  | cons x text =>
    simp only [matchone, Stands, Bool.and_eq_true, Bool.or_eq_true, decide_eq_true_eq]
    constructor
    · rintro ⟨hx, h⟩
      exact ⟨x, text, rfl, hx.imp_right .symm, h⟩
    · rintro ⟨y, t, htext, hx, h⟩
      obtain ⟨rfl, rfl⟩ := List.cons.inj htext
      exact ⟨hx.imp_right .symm, h⟩

theorem starts_nil : Starts [] false text := ⟨[], text, rfl, rfl, by simp⟩

theorem matchhere_iff : matchhere re text = true ↔ Starts (items re).1 (items re).2 text := by
  induction re using items.induct generalizing text with
  | case1 => exact iff_of_true rfl starts_nil
  | case2 =>
    constructor
    · intro h
      exact ⟨[], [], of_decide_eq_true h, rfl, fun _ => rfl⟩
    · rintro ⟨v, w, rfl, rfl, hw⟩
      exact decide_eq_true (hw rfl)
  | case3 c hc =>
    rw [matchhere, if_neg hc, items, if_neg hc, matchone_iff, starts_one]
    simp only [matchhere, starts_nil]
  | case4 c re ih =>
    rw [matchhere, if_pos rfl, matchstar_iff, items, if_pos rfl, starts_cons]
    simp only [ih]
    rfl
  | case5 c d re hd ih =>
    rw [matchhere, if_neg hd, items, if_neg hd, matchone_iff, starts_one]
    simp only [ih]

/-- **Regular-expression matching is correct**: a substring of the text is a word of the pattern. -/
theorem matchRe_iff (re text : Str) : matchRe re text = true ↔ Accepts re text := by
  rw [matchRe, Accepts]
  split_ifs with hcaret
  · rw [matchhere_iff]
    constructor
    · rintro ⟨v, w, rfl, hv, hw⟩
      exact ⟨[], v, w, rfl, hv, fun _ => rfl, hw⟩
    · rintro ⟨u, v, w, rfl, hv, hu, hw⟩
      obtain rfl := hu hcaret
      exact ⟨v, w, rfl, hv, hw⟩
  · rw [any_eq_true]
    constructor
    · rintro ⟨t, ht, h⟩
      obtain ⟨u, rfl⟩ := (mem_tails _ _).mp ht
      obtain ⟨v, w, rfl, hv, hw⟩ := matchhere_iff.mp h
      exact ⟨u, v, w, (append_assoc ..).symm, hv, fun h => absurd h hcaret, hw⟩
    · rintro ⟨u, v, w, rfl, hv, -, hw⟩
      refine ⟨v ++ w, (mem_tails _ _).mpr ⟨u, (append_assoc ..).symm⟩, ?_⟩
      exact matchhere_iff.mpr ⟨v, w, rfl, hv, hw⟩

/-! ### Lines -/

variable {line s t : Str}

theorem scan_append (hs : newline ∉ s) (h0 : 0 ∉ s) :
    scan re line (s ++ t) = scan re (line ++ s) t := by
  induction s generalizing line with
  | nil => rw [nil_append, append_nil]
  | cons x s ih =>
    rw [mem_cons, not_or] at hs h0
    rw [cons_append, scan, if_neg (Ne.symm h0.1), if_neg (Ne.symm hs.1), ih hs.2 h0.2,
      append_assoc, singleton_append]

theorem scan_carry (hline : newline ∉ line) (h0 : 0 ∉ s) :
    newline ∉ (scan re line s).2 ∧ (scan re line s).2 <:+ line ++ s := by
  induction s generalizing line with
  | nil => exact ⟨hline, by rw [append_nil]; exact suffix_rfl⟩
  | cons x s ih =>
    rw [mem_cons, not_or] at h0
    rw [scan, if_neg (Ne.symm h0.1)]
    by_cases hx : x = newline
    · rw [if_pos hx]
      obtain ⟨h, hs⟩ := ih not_mem_nil h0.2
      exact ⟨h, hs.trans ((suffix_cons x s).trans (suffix_append line _))⟩
    · rw [if_neg hx]
      have hline' : newline ∉ line ++ [x] := by simp [hline, Ne.symm hx]
      simpa using ih hline' h0.2

theorem splitOn_of_not_mem (hline : newline ∉ line) : line.splitOn newline = [line] :=
  splitOnP_eq_singleton fun x hx => by
    simp only [beq_eq_false_iff_ne]
    exact ne_of_mem_of_not_mem hx hline

theorem lines_of_not_mem (hline : newline ∉ line) : lines line = [] := by
  rw [lines, splitOn_of_not_mem hline]
  rfl

theorem lines_cons (hline : newline ∉ line) : lines (line ++ newline :: s) = line :: lines s := by
  have hsplit : (line ++ newline :: s).splitOn newline = line :: s.splitOn newline := by
    have h := splitOn_of_not_mem hline
    rw [List.splitOn] at h ⊢
    rw [splitOnP_append_cons line s (by simp), h]
    rfl
  rw [lines, hsplit, dropLast_cons_of_ne_nil (splitOn_ne_nil newline s), lines]

theorem matching_cons (l : Str) (ls : List Str) : matching re (l :: ls) =
    if matchRe re l then l ++ newline :: matching re ls else matching re ls := by
  rw [matching, filter_cons]
  split_ifs
  · simp [matching]
  · rfl

/-- What `grep` prints: the matching lines in front of the first one that does not fit. -/
def shown (re input : Str) : Str := matching re ((lines input).takeWhile fits)

/-- Nothing is printed for a line that fills `buf`. -/
theorem shown_full (hline : newline ∉ line) (hfull : 1023 ≤ line.length) :
    shown re (line ++ s) = [] := by
  by_cases hs : newline ∈ s
  · obtain ⟨v, w, rfl, hv⟩ := eq_append_cons_of_mem hs
    have hfits : fits (line ++ v) = false := by
      rw [fits, length_append]
      exact decide_eq_false (by omega)
    rw [shown, ← append_assoc, lines_cons (by simp [hline, hv]), takeWhile_cons, hfits]
    rfl
  · rw [shown, lines_of_not_mem (by simp [hline, hs])]
    rfl

/-- The loop over a `buf` with the carried `line` and `s` prints what it should of them, and the
rest is to be found with what it carries over. -/
theorem shown_scan (hline : newline ∉ line) (h0 : 0 ∉ s) (hlen : line.length + s.length ≤ 1023) :
    shown re (line ++ (s ++ t)) = (scan re line s).1 ++ shown re ((scan re line s).2 ++ t) := by
  induction s generalizing line with
  | nil => rfl
  | cons x s ih =>
    rw [mem_cons, not_or] at h0
    rw [length_cons] at hlen
    rw [scan, if_neg (Ne.symm h0.1)]
    by_cases hx : x = newline
    · subst hx
      have hfits : fits line = true := decide_eq_true (by omega)
      have hrest := @ih [] not_mem_nil h0.2 (by rw [length_nil]; omega)
      rw [nil_append, shown] at hrest
      rw [if_pos rfl, cons_append, shown, lines_cons hline, takeWhile_cons, hfits, if_pos rfl,
        matching_cons, hrest]
      split_ifs
      · simp only [append_assoc, cons_append]
      · rfl
    · have hline' : newline ∉ line ++ [x] := by simp [hline, Ne.symm hx]
      rw [if_neg hx, ← ih hline' h0.2 (by rw [length_append, length_singleton]; omega)]
      simp

theorem grep_eq_shown (sizes : ℕ → ℕ) (hline : newline ∉ line) (h0 : 0 ∉ line ++ s) :
    grep re sizes line s = shown re (line ++ s) := by
  rw [mem_append, not_or] at h0
  -- on the input that is left, of which every iteration takes a chunk
  induction hn : s.length using Nat.strong_induction_on generalizing sizes line s with | _ n ih
  generalize hchunk : s.take (min (1024 - line.length - 1) (sizes 0 + 1)) = chunk
  rw [grep, hchunk]
  by_cases hnil : chunk = []
  · -- the input is at its end, or `buf` is full of a line that has no newline
    rw [if_pos hnil]
    obtain h | rfl := take_eq_nil_iff.mp (hchunk.trans hnil)
    · rw [shown_full hline (by omega)]
    · rw [append_nil, shown, lines_of_not_mem hline]
      rfl
  · have hlen : line.length + chunk.length ≤ 1023 := by
      have := length_pos_iff.mpr hnil
      have hle := congrArg List.length hchunk
      rw [length_take] at hle
      omega
    obtain ⟨t, rfl⟩ : chunk <+: s := hchunk ▸ take_prefix ..
    have h0s := h0.2
    rw [mem_append, not_or] at h0s
    obtain ⟨hcarry, hsuffix⟩ : _ ∧ (scan re line chunk).2 <:+ _ := scan_carry hline h0s.1
    have h0c : 0 ∉ (scan re line chunk).2 := fun h => by
      simpa [h0.1, h0s.1] using hsuffix.subset h
    have hlt : t.length < n := by
      have := length_pos_iff.mpr hnil
      rw [← hn, length_append]
      omega
    rw [if_neg hnil, scan_append hline h0.1, nil_append, drop_left, shown_scan hline h0s.1 hlen]
    exact congrArg (_ ++ ·) (ih _ hlt _ hcarry ⟨h0c, h0s.2⟩ rfl)

/-- What is not printed are the matching lines from the first one on that does not fit. -/
theorem printed_eq (re input : Str) :
    printed re input = shown re input ++ matching re ((lines input).dropWhile fits) := by
  rw [printed, shown, matching, matching, matching, ← flatMap_append, ← filter_append,
    takeWhile_append_dropWhile]

theorem matching_eq_nil_iff {ls : List Str} :
    matching re ls = [] ↔ ∀ l ∈ ls, matchRe re l = false := by
  rw [matching, flatMap_eq_nil_iff]
  simp [mem_filter]

/-- **`grep` prints the matching lines**, however the input is cut into chunks, exactly if no line
matches from the first one on that does not fit into `buf`. -/
theorem grep_printed (re input : Str) (sizes : ℕ → ℕ) (h0 : 0 ∉ input) :
    grep re sizes [] input = printed re input ↔ NoneBehind re input := by
  rw [grep_eq_shown sizes not_mem_nil h0, nil_append, printed_eq, self_eq_append_right,
    matching_eq_nil_iff, NoneBehind]

/-- The pattern `a`, and the lines `a` and `b`, byte by byte. -/
theorem grep_printed_one : grep [0x61] (fun _ => 0) [] [0x61, newline, 0x62, newline] =
    [0x61, newline] :=
  ((grep_printed [0x61] _ _ (by decide)).mpr (by decide)).trans (by decide)

/-- A line of 1023 bytes `a` fills `buf`: `read` is asked for no bytes, which looks like the end of
the input. -/
theorem grep_long_line : ∃ (re input : Str) (sizes : ℕ → ℕ),
    0 ∉ input ∧ grep re sizes [] input ≠ printed re input := by
  obtain ⟨line, hnl, h0, hlen⟩ : ∃ line : Str, newline ∉ line ∧ 0 ∉ line ∧ line.length = 1023 :=
    ⟨List.replicate 1023 0x61, fun h => absurd (eq_of_mem_replicate h) (by decide),
      fun h => absurd (eq_of_mem_replicate h) (by decide), length_replicate ..⟩
  have hzero : 0 ∉ line ++ [newline] := by simp [h0, newline]
  refine ⟨[caret], line ++ [newline], fun _ => 1022, hzero, ?_⟩
  rw [grep_eq_shown (s := line ++ [newline]) _ not_mem_nil hzero, nil_append, shown_full hnl (Nat.le_of_eq hlen.symm), printed,
    lines_cons hnl, matching_cons, if_pos (by simp [matchRe, matchhere])]
  simp

end Xv6.Grep
