import Mathlib.Data.List.TakeWhile
import Xv6.Dir.Paths

/-!
# Splitting a path

`skipelem` takes the first component off, and leaves an empty path exactly when it was the last
(`skipelemTo_some`).
-/

namespace Xv6.Dir

open List

variable {path path' name name' w : List Char}

theorem components_slash : components ('/' :: path) = components path := by
  have hp : ('/' == '/') = true := rfl
  have h := splitOnP_append_cons (p := (· == '/')) [] path hp
  rw [nil_append, splitOnP_nil] at h
  rw [components, List.splitOn, h]
  rfl

theorem components_dropWhile : components (path.dropWhile (· = '/')) = components path := by
  induction path with
  | nil => rfl
  | cons c path ih =>
    rw [dropWhile_cons]
    split_ifs with hc
    · rw [ih, of_decide_eq_true hc, components_slash]
    · rfl

theorem components_word (hne : w ≠ []) (hw : ∀ c ∈ w, (c == '/') = false) : components w = [w] := by
  rw [components, List.splitOn, splitOnP_eq_singleton hw, filter_singleton]
  simp [hne]

theorem components_append (hne : w ≠ []) (hw : ∀ c ∈ w, (c == '/') = false) :
    components (w ++ '/' :: path) = w :: components path := by
  have h := components_word hne hw
  rw [components, List.splitOn] at h
  rw [components, List.splitOn, splitOnP_append_cons w path rfl, filter_append, h]
  rfl

theorem components_of_ne {c : Char} (hc : c ≠ '/') : components (c :: path) =
    (c :: path).takeWhile (· ≠ '/') :: components ((c :: path).dropWhile (· ≠ '/')) := by
  generalize hs : c :: path = s
  have hw : ∀ c ∈ s.takeWhile (· ≠ '/'), (c == '/') = false := by
    intro c hc
    simpa using mem_takeWhile_imp hc
  have hne : s.takeWhile (· ≠ '/') ≠ [] := by
    rw [← hs, takeWhile_cons_of_pos (by simpa using hc)]
    exact cons_ne_nil _ _
  conv_lhs => rw [← takeWhile_append_dropWhile (p := (· ≠ '/')) (l := s)]
  rcases hr : s.dropWhile (· ≠ '/') with _ | ⟨d, r⟩
  · rw [append_nil, components_word hne hw]
    rfl
  · have hd : d = '/' := by
      have h := List.head?_dropWhile_not (· ≠ '/') s
      rw [hr] at h
      simpa using h
    rw [hd, components_append hne hw, components_slash]

theorem nameOf_copyName (hw : '\x00' ∉ w) : nameOf (copyName w name) = w.take dirsiz := by
  have hnul : ∀ c ∈ w.take dirsiz, decide (c ≠ '\x00') = true := by
    intro c hc
    exact decide_eq_true fun h => hw (h ▸ mem_of_mem_take hc)
  rw [nameOf, copyName]
  split_ifs with hlen
  · rw [take_left' (length_take_of_le hlen)]
    exact takeWhile_eq_self_iff.mpr hnul
  · have hlen' : w.length ≤ dirsiz := Nat.le_of_not_le hlen
    rw [take_of_length_le hlen'] at hnul ⊢
    rw [take_append, take_of_length_le hlen', takeWhile_append_of_pos hnul,
      ← Nat.succ_pred_eq_of_pos (Nat.sub_pos_of_lt (Nat.lt_of_not_le hlen)), take_succ_cons,
      takeWhile_cons_of_neg (by simp), append_nil]

theorem skipelemTo_none (h : skipelemTo path name = none) : components path = [] := by
  rw [skipelemTo] at h
  dsimp only at h
  split_ifs at h with hs
  rw [← components_dropWhile, hs]
  rfl

theorem ne_slash {c : Char} {s : List Char} (h : path.dropWhile (· = '/') = c :: s) : c ≠ '/' := by
  have hhead := List.head?_dropWhile_not (· = '/') path
  rw [h] at hhead
  simpa using hhead

theorem skipelemTo_some (h : skipelemTo path name = some (path', name')) :
    ∃ w, components path = w :: components path' ∧ name' = copyName w name ∧ w ⊆ path ∧
      path' ⊆ path ∧ path'.length < path.length ∧ (path' = [] ↔ components path' = []) := by
  rw [skipelemTo] at h
  dsimp only at h
  rcases hs : path.dropWhile (· = '/') with _ | ⟨c, s⟩
  · simp [hs] at h
  have hc := ne_slash hs
  have hsuffix : (c :: s) <:+ path := hs ▸ dropWhile_suffix _
  rw [if_neg (by rw [hs]; exact cons_ne_nil c s)] at h
  obtain ⟨rfl, rfl⟩ := Prod.mk.inj (Option.some.inj h)
  rw [hs]
  have hrest : ((c :: s).dropWhile (· ≠ '/')).dropWhile (· = '/') <:+ s := by
    rw [dropWhile_cons_of_pos (by simpa using hc)]
    exact (dropWhile_suffix _).trans (dropWhile_suffix _)
  refine ⟨_, ?_, rfl, ?_, ?_, ?_, ?_⟩
  · rw [components_dropWhile, ← components_of_ne hc, ← hs, components_dropWhile]
  · exact fun x hx => hsuffix.subset (( takeWhile_prefix _).subset hx)
  · exact fun x hx => hsuffix.subset (mem_cons_of_mem c (hrest.subset hx))
  · exact Nat.lt_of_le_of_lt hrest.length_le hsuffix.length_le
  · rcases hr : ((c :: s).dropWhile (· ≠ '/')).dropWhile (· = '/') with _ | ⟨d, r⟩
    · exact iff_of_true rfl rfl
    · rw [components_of_ne (ne_slash hr)]
      exact iff_of_false (cons_ne_nil _ _) (cons_ne_nil _ _)

/-! ### All calls -/

theorem splits_components (hnul : '\x00' ∉ path) (name : List Char) :
    ∃ calls, Splits path name calls ∧
      calls.map (fun c => nameOf c.2) = (components path).map (·.take dirsiz) ∧
      ∀ pre c post, calls = pre ++ c :: post → (c.1 = [] ↔ post = []) := by
  induction hn : path.length using Nat.strongRecOn generalizing path name with
  | ind n ih =>
    cases h : skipelemTo path name with
    | none =>
      refine ⟨[], .done h, ?_, by simp⟩
      rw [skipelemTo_none h]
      rfl
    | some r =>
      obtain ⟨w, hcomp, hname, hw, hpath, hlen, hempty⟩ := skipelemTo_some h
      obtain ⟨calls, hsplits, hnames, hlast⟩ := ih _ (hn ▸ hlen) (fun h => hnul (hpath h)) r.2 rfl
      refine ⟨r :: calls, .next h hsplits, ?_, ?_⟩
      · rw [hcomp, map_cons, map_cons, hnames, hname,
          nameOf_copyName fun h => hnul (hw h)]
      · rintro (_ | ⟨c', pre⟩) c post hcalls
        · obtain ⟨rfl, rfl⟩ := List.cons.inj hcalls
          rw [hempty, ← map_eq_nil_iff (f := (·.take dirsiz)), ← hnames, map_eq_nil_iff]
        · exact hlast pre c post (List.cons.inj hcalls).2

variable {m : Nat} {π : Type}

theorem namexLoop_eq_walk (nameiparent : Bool) (hnul : '\x00' ∉ path) {fuel : Nat}
    (hfuel : path.length < fuel) (name : List Char) (ip : Inum m) :
    (namexLoop nameiparent fuel path name ip : Kernel m π _) =
      walk nameiparent ((components path).map (·.take dirsiz)) ip := by
  induction fuel generalizing path name ip with
  | zero => omega
  | succ fuel ih =>
    rw [namexLoop]
    cases h : skipelemTo path name with
    | none =>
      rw [skipelemTo_none h]
      rfl
    | some r =>
      obtain ⟨w, hcomp, hname, hw, hpath, hlen, hempty⟩ := skipelemTo_some h
      have hrest := ih (fun h => hnul (hpath h)) (by omega) (copyName w name)
      replace hempty := hempty.trans (map_eq_nil_iff (f := take dirsiz)).symm
      simp only [hcomp, map_cons, hrest, hname, nameOf_copyName fun h => hnul (hw h), hempty]
      rfl

/-- With `nameiparent`, the last element is not looked up. -/
theorem walk_parent (names : List Name) (name : Name) (ip : Inum m) :
    (walk true (names ++ [name]) ip : Kernel m π _) = enter names name ip := by
  induction names generalizing ip with
  | nil => simp [walk, enter]
  | cons first names ih =>
    simp only [cons_append, walk, enter, ih, bind_assoc, append_eq_nil_iff,
      cons_ne_nil, and_false, Bool.false_eq_true, false_and, if_false]
    refine bind_congr fun _ => bind_congr fun s => ?_
    split_ifs with hdir
    · simp
    · rw [bind_assoc]
      refine bind_congr fun r => ?_
      cases r <;> simp

/-- **Path splitting**: `skipelem` gives the components one after the other, cut to `DIRSIZ`
characters, and the rest is empty exactly after the last one, so `namex` with `nameiparent` stops at
its parent. -/
theorem path_split (path name : List Char) (hnul : '\x00' ∉ path) :
    (∃ calls, Splits path name calls ∧
      calls.map (fun c => nameOf c.2) = (components path).map (·.take dirsiz) ∧
      ∀ pre c post, calls = pre ++ c :: post → (c.1 = [] ↔ post = [])) ∧
    ∀ (m : Nat) (π : Type) (fuel : Nat) (ip : Inum m), path.length < fuel →
      (components path = [] →
        (namexLoop true fuel path name ip : Kernel m π _) = do iput ip; return none) ∧
      ∀ elems last, components path = elems ++ [last] →
        (namexLoop true fuel path name ip : Kernel m π _) =
          enter (elems.map (·.take dirsiz)) (last.take dirsiz) ip := by
  refine ⟨splits_components hnul name, fun m π fuel ip hfuel => ?_⟩
  rw [namexLoop_eq_walk true hnul hfuel]
  refine ⟨fun h => ?_, fun elems last h => ?_⟩
  · rw [h]
    rfl
  · rw [h, map_append]
    exact walk_parent _ _ ip

/-- Leading, doubled and trailing slashes. -/
theorem path_split_slashes : (namexLoop true 9 "//a//bc/".toList [] rootino : Kernel 0 Unit _) =
    enter [['a']] ['b', 'c'] rootino :=
  ((path_split "//a//bc/".toList [] (by decide)).2 0 Unit 9 rootino (by decide)).2 [['a']]
    ['b', 'c'] (by decide)

end Xv6.Dir
