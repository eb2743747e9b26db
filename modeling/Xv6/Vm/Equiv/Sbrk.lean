import Xv6.Vm.Sbrk

/-!
# Regions of concurrent `sbrk` calls

When no call reads `p->sz` while another is pending, the address of the pending call is the current
size (`SbrkInv.pending`), so its region lies behind all others. Otherwise two calls can return the
same address (`twice_overlap`).
-/

namespace Xv6.Sbrk

open Lib Function

variable {κ : Type*} [DecidableEq κ] {n : κ → Nat} {s s' : State κ} {c : κ}

structure SbrkInv (n : κ → Nat) (s : State κ) : Prop where
  size : s.sz ≤ physSize
  regions : RegionsOk n s
  pending : ∀ q addr, (s.call q).pending = some addr →
    addr = s.sz ∧ ∀ q', q' ≠ q → (s.call q').pending = none

namespace SbrkInv

variable {p : Point}

omit [DecidableEq κ] in
theorem init (h : Start s) : SbrkInv n s := by
  refine ⟨h.size, ⟨?_, ?_⟩, ?_⟩ <;> simp [h.call, Point.pending]

theorem goto (h : SbrkInv n s) (lock : Option κ) (hdone : ∀ addr, p ≠ .done addr)
    (hp : ∀ addr, p.pending = some addr → addr = s.sz ∧ ∀ q, q ≠ c → (s.call q).pending = none) :
    SbrkInv n { s with lock := lock, call := update s.call c p } := by
  obtain ⟨hsize, ⟨hbelow, hapart⟩, hpending⟩ := h
  refine ⟨hsize, ⟨?_, ?_⟩, ?_⟩ <;> cases hpoint : p.pending <;> grind [update_apply]

/-- The pending call succeeds: its region is what the process has grown by. -/
theorem grow (h : SbrkInv n s) (hc : s.call c = .grow s.sz) (hsize : s.sz + n c ≤ physSize) :
    SbrkInv n { sz := s.sz + n c, lock := none, call := update s.call c (.done s.sz) } := by
  obtain ⟨_, ⟨hbelow, hapart⟩, hpending⟩ := h
  have hothers : ∀ q, q ≠ c → (s.call q).pending = none := (hpending c s.sz (by rw [hc]; rfl)).2
  have hself : (Point.done s.sz).pending = none := rfl
  refine ⟨hsize, ⟨?_, ?_⟩, ?_⟩ <;> grind [update_apply]

theorem step (hn : ∀ c, 0 < n c ∧ n c < 2 ^ 31) {a : κ × Bool} (h : SbrkInv n s) (ha : Alone s a)
    (hstep : (sbrkMachine n).step s a = some s') : SbrkInv n s' := by
  obtain ⟨c, fails⟩ := a
  simp only [sbrkMachine] at hstep
  cases hc : s.call c with
  | start =>
    rw [hc] at hstep
    cases hstep
    refine h.goto s.lock (by simp) fun addr hp => ?_
    cases hp
    exact ⟨rfl, fun q _ => ha hc q⟩
  | acquire addr =>
    rw [hc] at hstep
    dsimp only at hstep
    split_ifs at hstep
    cases hstep
    have hpending := h.pending c addr (by rw [hc]; rfl)
    refine h.goto _ (by simp) fun addr' hp => ?_
    cases hp
    exact hpending
  | grow addr =>
    rw [hc] at hstep
    obtain rfl := (h.pending c addr (by rw [hc]; rfl)).1
    have hsize := h.size
    have hpos := hn c
    have hphys : physSize = 2 ^ 27 := rfl
    have hsz : s.sz % 2 ^ 32 = s.sz := Nat.mod_eq_of_lt (by omega)
    have hsum : (s.sz + n c) % 2 ^ 32 = s.sz + n c := Nat.mod_eq_of_lt (by omega)
    dsimp only at hstep
    rw [hsz, hsum, uvmalloc, if_neg (by omega : ¬ s.sz + n c < s.sz)] at hstep
    by_cases hfails : fails = true ∨ physSize < s.sz + n c
    · rw [if_pos hfails, if_pos rfl] at hstep
      cases hstep
      exact h.goto none (by simp) (by simp [Point.pending])
    · rw [if_neg hfails, if_neg (by omega : s.sz + n c ≠ 0), hsum] at hstep
      cases hstep
      exact h.grow hc (by omega)
  | failed | done addr => simp [hc] at hstep

end SbrkInv

/-- **Concurrent `sbrk` calls do not overlap**, when no call reads `p->sz` while another one is
pending. -/
theorem sbrk_regions (hn : ∀ c, 0 < n c ∧ n c < 2 ^ 31) {s₀ : State κ} (as : List (κ × Bool))
    (hstart : Start s₀) (halone : (sbrkMachine n).Meets Alone s₀ as)
    (hrun : (sbrkMachine n).run s₀ as = some s) : RegionsOk n s := by
  refine (Machine.invariant_of_meets (I := SbrkInv n) _ ?_ as s₀ s (.init hstart) halone hrun).regions
  exact fun s a s' h ha hstep => h.step hn ha hstep

def fourPages : State Bool := ⟨0x4000, none, fun _ => .start⟩

theorem fourPages_start : Start fourPages := ⟨by decide, rfl, fun _ => rfl⟩

/-- Both calls read the size before one of them grows the process. -/
theorem twice_overlap : Start fourPages ∧ ∃ s,
    (sbrkMachine fun _ => 4096).run fourPages
      [(false, false), (true, false), (false, false), (false, false), (true, false),
        (true, false)] = some s ∧ ¬ RegionsOk (fun _ => 4096) s := by
  refine ⟨fourPages_start, _, rfl, fun h => ?_⟩
  have hapart := h.apart false true 0x4000 0x4000 (by decide) (by decide) (by decide)
  omega

def inTurn : List (Bool × Bool) := List.replicate 3 (false, false) ++ List.replicate 3 (true, false)

theorem inTurn_regions : ∃ s, (sbrkMachine fun _ => 4096).run fourPages inTurn = some s ∧
    s.call true = .done 0x5000 ∧ RegionsOk (fun _ => 4096) s := by
  have hrun : ∃ s, (sbrkMachine fun _ => 4096).run fourPages inTurn = some s ∧
      s.call true = .done 0x5000 := Machine.exists_run _ (by decide +kernel)
  obtain ⟨s, hs, hdone⟩ := hrun
  refine ⟨s, hs, hdone, sbrk_regions (fun _ => by decide) inTurn fourPages_start ?_ hs⟩
  simp [Machine.Meets, inTurn, Alone, sbrkMachine, fourPages, Point.pending, uvmalloc, physSize]

end Xv6.Sbrk
