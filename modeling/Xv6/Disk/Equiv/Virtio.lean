import Mathlib.Data.Fintype.Card
import Xv6.Disk.Equiv.Desc

/-!
# Disk requests are answered once

A head that the driver has published and the handler has not seen is in the ring `avail`, with the
device, or in the ring `used` (`Inv`). It is that of a call that waits, so there are at most `NUM`,
and the rings do not overflow.
-/

namespace Xv6.Virtio

open Lib Function List

variable {θ β : Type} {s s' : State θ β} {ra ru : List (Fin num)} {t u : θ} {p q : Pc β} {b : β}
  {c : Chain}

/-! ### The lines -/

/-- The thread is at a line with the lock. -/
def Pc.holds : Pc β → Bool
  | .alloc .. | .format .. | .ring .. | .publish .. | .test .. | .free .. | .unlock _ => true
  | _ => false

def Pc.buf : Pc β → Option β
  | .idle => none
  | .lock b _ | .alloc b _ | .format b _ _ | .ring b _ | .publish b _ | .test b _ | .sleep b _
  | .free b _ | .unlock b => some b

/-- The buffer and the chain of descriptors that are linked. -/
def Pc.linked : Pc β → Option (β × Chain)
  | .ring b c | .publish b c | .test b c | .sleep b c | .free b c => some (b, c)
  | _ => none

def Pc.prepares : Pc β → Option (β × Chain)
  | .ring b c | .publish b c => some (b, c)
  | _ => none

theorem Pc.prepares_holds {y : β × Chain} (h : p.prepares = some y) : p.holds = true := by
  cases p <;> first | rfl | cases h

theorem Pc.returning_holds (h : p.returning = true) : p.holds = true := by
  cases p <;> first | rfl | cases h

theorem waits_linked (h : p.waits = some (b, c)) :
    p.linked = some (b, c) ∧ p.chain = some c ∧ p.buf = some b := by
  cases p with
  | test b' c' | sleep b' c' =>
    cases h
    exact ⟨rfl, rfl, rfl⟩
  | _ => cases h

theorem linked_chain (h : p.linked = some (b, c)) : p.chain = some c := by
  cases p with
  | ring b' c' | publish b' c' | test b' c' | sleep b' c' | free b' c' =>
    cases h
    rfl
  | _ => cases h

/-! ### The invariant -/

/-- What is true of a thread at a line; `ru` are the completions that the handler has not seen. -/
structure ThreadOk (s : State θ β) (ru : List (Fin num)) (t : θ) (p : Pc β) : Prop where
  lock : p.holds = true ↔ s.lock = some (.thread t)
  buf : ∀ b, p.buf = some b → s.holder b = some t
  distinct : ∀ c, p.chain = some c → c.i0 ≠ c.i1 ∧ c.i0 ≠ c.i2 ∧ c.i1 ≠ c.i2
  taken : ∀ c i, p.chain = some c → c.Has i → s.disk.free i = false
  linked : ∀ b c, p.linked = some (b, c) → Linked s.disk b c
  prepares : ∀ b c, p.prepares = some (b, c) → s.disk.disk b = true
  stored : ∀ b c, p = .publish b c → s.disk.avail.data (Ring.slot s.disk.avail.idx) = c.i0
  finished : ∀ b c, p.waits = some (b, c) → s.disk.disk b = false ∨ c.i0 ∈ ru → s.finished t = true
  returns : p.returning = true → s.finished t = true

/-- The chains of the calls, and the heads `ra` and `ru` in the two rings. -/
structure Inv (s : State θ β) (ra ru : List (Fin num)) : Prop where
  noPanic : s.panicked = false
  handler : s.intr ≠ .idle ↔ s.lock = some .handler
  threads : ∀ t, ThreadOk s ru t (s.pc t)
  disjoint : ∀ t t' c c' i, (s.pc t).chain = some c → (s.pc t').chain = some c' →
    c.Has i → c'.Has i → t = t'
  avail : s.disk.avail.Ok ra
  used : s.disk.used.Ok ru
  nodup : (ra ++ s.inflight ++ ru).Nodup
  out : ∀ h ∈ ra ++ s.inflight ++ ru, ∃ t b c, (s.pc t).waits = some (b, c) ∧ c.i0 = h ∧
    s.disk.disk b = true ∧ s.owner h = some t
  status : ∀ h ∈ ru, (s.disk.info h).status = 0
  entry : s.intr = .entry → ru ≠ []

/-- A thread without the lock, while its chain and its buffer are left alone. -/
theorem ThreadOk.frame {ru' : List (Fin num)} (h : ThreadOk s ru u p) (hout : p.holds = false)
    (hlock : s'.lock ≠ some (.thread u)) (hholder : ∀ b, p.buf = some b → s'.holder b = s.holder b)
    (hfree : ∀ c i, p.chain = some c → c.Has i → s'.disk.free i = s.disk.free i)
    (hlinked : ∀ b c, p.linked = some (b, c) → Linked s.disk b c → Linked s'.disk b c)
    (hdisk : ∀ b c, p.waits = some (b, c) → s'.disk.disk b = false ∨ c.i0 ∈ ru' →
      s'.finished u = true) : ThreadOk s' ru' u p := by
  constructor
  · rw [hout]
    exact ⟨nofun, fun hl => absurd hl hlock⟩
  · intro b hb
    rw [hholder b hb]
    exact h.buf b hb
  · exact h.distinct
  · intro c i hc hi
    rw [hfree c i hc hi]
    exact h.taken c i hc hi
  · intro b c hc
    exact hlinked b c hc (h.linked b c hc)
  · intro b c hc
    rw [Pc.prepares_holds hc] at hout
    cases hout
  · rintro b c rfl
    cases hout
  · exact hdisk
  · intro hr
    rw [Pc.returning_holds hr] at hout
    cases hout

namespace Inv

theorem out_holds (h : Inv s ra ru) (hlock : s.lock ≠ some (.thread u)) : (s.pc u).holds = false :=
    by
  by_contra hu
  rw [Bool.not_eq_false] at hu
  exact hlock ((h.threads u).lock.mp hu)

/-- The heads, and another descriptor, are at most `NUM`. -/
theorem length_lt (h : Inv s ra ru) {i : Fin num} (hi : i ∉ ra ++ s.inflight ++ ru) :
    (ra ++ s.inflight ++ ru).length < num := by
  have hnodup : (i :: (ra ++ s.inflight ++ ru)).Nodup := nodup_cons.mpr ⟨hi, h.nodup⟩
  have hle := hnodup.length_le_card
  rwa [Fintype.card_fin] at hle

/-- The head of a chain that was not published is in none of the places. -/
theorem not_out (h : Inv s ra ru) (hc : (s.pc t).chain = some c) (hw : (s.pc t).waits = none) :
    c.i0 ∉ ra ++ s.inflight ++ ru := by
  intro hmem
  obtain ⟨u, b, c', hu, hi, -, -⟩ := h.out c.i0 hmem
  obtain ⟨-, hc', -⟩ := waits_linked hu
  obtain rfl := h.disjoint t u c c' c.i0 hc hc' (.inl rfl) (.inl hi.symm)
  rw [hw] at hu
  cases hu

/-- No two threads have one buffer. -/
theorem buf_unique (h : Inv s ra ru) (ht : (s.pc t).buf = some b) (hu : (s.pc u).buf = some b) :
    u = t := by
  have hb := (h.threads t).buf b ht
  rw [(h.threads u).buf b hu] at hb
  exact Option.some.inj hb

variable [DecidableEq θ]

theorem threads_goto {ru' : List (Fin num)} (hpc : s'.pc = update s.pc t q)
    (ht : ThreadOk s' ru' t q) (hothers : ∀ u, u ≠ t → ThreadOk s' ru' u (s.pc u)) (u : θ) :
    ThreadOk s' ru' u (s'.pc u) := by
  rw [hpc]
  by_cases hu : u = t
  · rw [hu, update_self]
    exact ht
  · rw [update_of_ne hu]
    exact hothers u hu

theorem disjoint_goto (h : Inv s ra ru) (hpc : s'.pc = update s.pc t q)
    (hq : ∀ c, q.chain = some c →
      (s.pc t).chain = some c ∨ ∀ i, c.Has i → s.disk.free i = true) (t₁ t₂ : θ) (c₁ c₂ : Chain)
    (i : Fin num) (h₁ : (s'.pc t₁).chain = some c₁) (h₂ : (s'.pc t₂).chain = some c₂)
    (hi₁ : c₁.Has i) (hi₂ : c₂.Has i) : t₁ = t₂ := by
  -- the chain of a thread is an old one, or `t` has just taken it
  have hold : ∀ x c, (s'.pc x).chain = some c →
      (s.pc x).chain = some c ∨ x = t ∧ ∀ i, c.Has i → s.disk.free i = true := by
    intro x c hc
    rw [hpc] at hc
    by_cases hx : x = t
    · rw [hx, update_self] at hc
      rw [hx]
      exact (hq c hc).imp_right fun hfree => ⟨rfl, hfree⟩
    · rw [update_of_ne hx] at hc
      exact .inl hc
  obtain ho₁ | ⟨rfl, hfree₁⟩ := hold t₁ c₁ h₁
  · obtain ho₂ | ⟨rfl, hfree₂⟩ := hold t₂ c₂ h₂
    · exact h.disjoint t₁ t₂ c₁ c₂ i ho₁ ho₂ hi₁ hi₂
    · exact nomatch ((h.threads t₁).taken c₁ i ho₁ hi₁).symm.trans (hfree₂ i hi₂)
  · obtain ho₂ | ⟨rfl, -⟩ := hold t₂ c₂ h₂
    · exact nomatch ((h.threads t₂).taken c₂ i ho₂ hi₂).symm.trans (hfree₁ i hi₁)
    · rfl

theorem out_goto (h : Inv s ra ru) (hpc : s'.pc = update s.pc t q)
    (hq : ∀ b c, (s.pc t).waits = some (b, c) → s.disk.disk b = true → q.waits = some (b, c))
    (hdisk : ∀ u b c, (s.pc u).waits = some (b, c) → s.disk.disk b = true → s'.disk.disk b = true)
    (hinflight : s'.inflight = s.inflight)
    (howner : ∀ h ∈ ra ++ s.inflight ++ ru, s'.owner h = s.owner h) :
    ∀ h ∈ ra ++ s'.inflight ++ ru, ∃ t b c, (s'.pc t).waits = some (b, c) ∧ c.i0 = h ∧
      s'.disk.disk b = true ∧ s'.owner h = some t := by
  intro i hi
  rw [hinflight] at hi
  obtain ⟨u, b, c, hu, hci, hb, ho⟩ := h.out i hi
  refine ⟨u, b, c, ?_, hci, hdisk u b c hu hb, (howner i hi).trans ho⟩
  rw [hpc]
  by_cases hut : u = t
  · rw [hut] at hu ⊢
    rw [update_self]
    exact hq b c hu hb
  · rw [update_of_ne hut]
    exact hu

structure Frame (s s' : State θ β) : Prop where
  panicked : s'.panicked = s.panicked
  inflight : s'.inflight = s.inflight
  owner : s'.owner = s.owner
  finished : s'.finished = s.finished

/-- Thread `t` goes to line `q`; only the disk and the lock change besides. -/
structure Goes (s s' : State θ β) (t : θ) (q : Pc β) : Prop extends Frame s s' where
  pc : s'.pc = update s.pc t q
  intr : s'.intr = s.intr
  holder : s'.holder = s.holder

/-- A step of a thread that does not touch the disk, but for the contents of free descriptors. -/
theorem of_goto (h : Inv s ra ru) (hg : Goes s s' t q)
    (hsame : SameTaken s.disk s'.disk) (hq : ThreadOk s' ru t q)
    (hchain : ∀ c, q.chain = some c → (s.pc t).chain = some c)
    (hwaits : ∀ b c, (s.pc t).waits = some (b, c) → s.disk.disk b = true → q.waits = some (b, c))
    (hout : ∀ u, u ≠ t → s.lock ≠ some (.thread u) ∧ s'.lock ≠ some (.thread u))
    (hhandler : s.lock ≠ some .handler) (hhandler' : s'.lock ≠ some .handler) : Inv s' ra ru := by
  have hidle : s.intr = .idle := by
    by_contra hne
    exact hhandler (h.handler.mp hne)
  constructor
  · rw [hg.panicked]
    exact h.noPanic
  · rw [hg.intr, hidle]
    exact ⟨fun hne => absurd rfl hne, fun hl => absurd hl hhandler'⟩
  · refine threads_goto hg.pc hq fun u hu => ?_
    refine (h.threads u).frame (h.out_holds (hout u hu).1) (hout u hu).2
      (fun b _ => by rw [hg.holder])
      (fun c i _ _ => by rw [hsame.free]) (fun b c hc hl => ?_) fun b c hc => ?_
    · refine hl.congr (fun i hi => hsame.desc i ?_) (by rw [hsame.info])
      exact (h.threads u).taken c i (linked_chain hc) hi
    · rw [hsame.disk, hg.finished]
      exact (h.threads u).finished b c hc
  · exact h.disjoint_goto hg.pc fun c hc => .inl (hchain c hc)
  · rw [hsame.avail]
    exact h.avail
  · rw [hsame.used]
    exact h.used
  · rw [hg.inflight]
    exact h.nodup
  · exact h.out_goto hg.pc hwaits (fun u b c _ hb => by rw [hsame.disk]; exact hb) hg.inflight
      fun i _ => by rw [hg.owner]
  · intro i hi
    rw [hsame.info]
    exact h.status i hi
  · rw [hg.intr, hidle]
    exact nofun

/-- A step of a thread with the lock that waits for nothing yet, and that changes only descriptors
`T` and what belongs to its buffer. -/
theorem of_locked (h : Inv s ra ru) (hg : Goes s s' t q)
    (hlock : s.lock = some (.thread t)) (hlock' : s'.lock = s.lock) (hq : ThreadOk s' ru t q)
    (hwaits : (s.pc t).waits = none) (hchain : ∀ c, q.chain = some c →
      (s.pc t).chain = some c ∨ ∀ i, c.Has i → s.disk.free i = true)
    (T : Fin num → Prop) (hT : ∀ u c i, u ≠ t → (s.pc u).chain = some c → c.Has i → ¬ T i)
    (hfree : ∀ i, ¬ T i → s'.disk.free i = s.disk.free i)
    (hdesc : ∀ i, ¬ T i → s'.disk.desc i = s.disk.desc i)
    (hinfo : ∀ i, ¬ T i → s'.disk.info i = s.disk.info i)
    (hdisk : ∀ b, (s.pc t).buf ≠ some b → s'.disk.disk b = s.disk.disk b)
    (havail : s'.disk.avail.Ok ra) (hused : s'.disk.used = s.disk.used) :
    Inv s' ra ru := by
  have hother : ∀ u, u ≠ t → s.lock ≠ some (.thread u) := by
    rintro u hu heq
    rw [hlock] at heq
    exact hu (Holder.thread.inj (Option.some.inj heq)).symm
  -- the buffers of the calls that wait are others
  have hbuf : ∀ u b c, (s.pc u).waits = some (b, c) → u ≠ t ∧ s'.disk.disk b = s.disk.disk b := by
    intro u b c hu
    have hut : u ≠ t := by
      rintro rfl
      rw [hwaits] at hu
      cases hu
    refine ⟨hut, hdisk b fun hb => hut ?_⟩
    exact h.buf_unique hb (waits_linked hu).2.2
  constructor
  · rw [hg.panicked]
    exact h.noPanic
  · rw [hg.intr, hlock']
    exact h.handler
  · refine threads_goto hg.pc hq fun u hu => ?_
    refine (h.threads u).frame (h.out_holds (hother u hu)) (by rw [hlock']; exact hother u hu)
      (fun b _ => by rw [hg.holder]) (fun c i hc hi => hfree i (hT u c i hu hc hi))
      (fun b c hc hl => ?_) fun b c hc => ?_
    · have hchain' := linked_chain hc
      refine hl.congr (fun i hi => hdesc i (hT u c i hu hchain' hi)) ?_
      rw [hinfo c.i0 (hT u c c.i0 hu hchain' (.inl rfl))]
    · rw [(hbuf u b c hc).2, hg.finished]
      exact (h.threads u).finished b c hc
  · exact h.disjoint_goto hg.pc hchain
  · exact havail
  · rw [hused]
    exact h.used
  · rw [hg.inflight]
    exact h.nodup
  · refine h.out_goto hg.pc (fun b c hw => ?_) (fun u b c hu hb => ?_) hg.inflight
      fun i _ => by rw [hg.owner]
    · rw [hwaits] at hw
      cases hw
    · rw [(hbuf u b c hu).2]
      exact hb
  · intro i hi
    obtain ⟨u, b, c, hu, hci, -, -⟩ := h.out i (mem_append_right _ hi)
    have hnot := hT u c i (hbuf u b c hu).1 (waits_linked hu).2.1 (.inl hci.symm)
    rw [hinfo i hnot]
    exact h.status i hi
  · intro hentry
    rw [hg.intr] at hentry
    exact h.entry hentry

/-! ### Steps of a thread -/

omit [DecidableEq θ] in
theorem thread_lock (h : Inv s ra ru) (hp : (s.pc t).holds = true) : s.lock = some (.thread t) :=
  (h.threads t).lock.mp hp

omit [DecidableEq θ] in
theorem others (hlock : s.lock = none ∨ s.lock = some (.thread t)) :
    (∀ u, u ≠ t → s.lock ≠ some (.thread u)) ∧ s.lock ≠ some .handler := by
  obtain hl | hl := hlock
  · rw [hl]
    exact ⟨fun _ _ => nofun, nofun⟩
  · rw [hl]
    refine ⟨fun u hu heq => ?_, nofun⟩
    exact hu (Holder.thread.inj (Option.some.inj heq)).symm

theorem of_lockStep (h : Inv s ra ru) (hp : s.pc t = p) (hg : Goes s s' t q)
    (hdisk : SameTaken s.disk s'.disk) (hlock : s.lock = none ∨ s.lock = some (.thread t))
    (hlock' : s'.lock = if q.holds then some (.thread t) else none)
    (hbuf : ∀ b, q.buf = some b → p.buf = some b)
    (hchain : ∀ c, q.chain = some c → p.chain = some c)
    (hlinked : ∀ b c, q.linked = some (b, c) → p.linked = some (b, c))
    (hprepares : q.prepares = none)
    (hwaits : ∀ b c, p.waits = some (b, c) → s.disk.disk b = true → q.waits = some (b, c))
    (hwaits' : ∀ b c, q.waits = some (b, c) → p.waits = some (b, c))
    (hreturns : q.returning = true → s.finished t = true) : Inv s' ra ru := by
  subst hp
  have hlock₁ : s'.lock = none ∨ s'.lock = some (.thread t) := by
    rw [hlock']
    split_ifs
    · exact .inr rfl
    · exact .inl rfl
  refine h.of_goto hg hdisk ?_ hchain hwaits
    (fun u hu => ⟨(others hlock).1 u hu, (others hlock₁).1 u hu⟩) (others hlock).2 (others hlock₁).2
  have ht := h.threads t
  constructor
  · rw [hlock']
    cases q.holds
    · exact ⟨nofun, nofun⟩
    · exact ⟨fun _ => rfl, fun _ => rfl⟩
  · intro b hb
    rw [hg.holder]
    exact ht.buf b (hbuf b hb)
  · exact fun c hc => ht.distinct c (hchain c hc)
  · intro c i hc hi
    rw [hdisk.free]
    exact ht.taken c i (hchain c hc) hi
  · intro b c hc
    refine (ht.linked b c (hlinked b c hc)).congr (fun i hi => hdisk.desc i ?_) (by rw [hdisk.info])
    exact ht.taken c i (hchain c (linked_chain hc)) hi
  · intro b c hc
    rw [hprepares] at hc
    cases hc
  · rintro b c rfl
    cases hprepares
  · intro b c hc
    rw [hdisk.disk, hg.finished]
    exact ht.finished b c (hwaits' b c hc)
  · rw [hg.finished]
    exact hreturns

/-- `alloc3_desc` takes three free descriptors. -/
theorem step_alloc (h : Inv s ra ru) {write : Bool} (hp : s.pc t = .alloc b write)
    (hdist : c.i0 ≠ c.i1 ∧ c.i0 ≠ c.i2 ∧ c.i1 ≠ c.i2) (hfree : ∀ i, c.Has i → s.disk.free i = true) :
    Inv ({ s with
      disk := ((s.disk.setFree c.i0 false).setFree c.i1 false).setFree c.i2 false }.goto t
        (.format b write c)) ra ru := by
  have hlock := h.thread_lock (t := t) (by rw [hp]; rfl)
  have ht := h.threads t
  rw [hp] at ht
  have hset : ∀ i, (((s.disk.setFree c.i0 false).setFree c.i1 false).setFree c.i2 false).free i
      = if c.Has i then false else s.disk.free i := by
    intro i
    simp only [Disk.setFree, update_apply, Chain.Has]
    by_cases h2 : i = c.i2
    · simp [h2]
    · by_cases h1 : i = c.i1
      · simp [h1]
      · simp [h1, h2]
  refine h.of_locked ⟨⟨rfl, rfl, rfl, rfl⟩, rfl, rfl, rfl⟩ hlock rfl ?_ (by rw [hp]; rfl)
    (fun c' hc' => ?_) c.Has
    (fun u c' i _ hc' hi hi' => ?_) (fun i hi => ?_) (fun _ _ => rfl) (fun _ _ => rfl)
    (fun _ _ => rfl) h.avail rfl
  · refine ⟨⟨fun _ => hlock, fun _ => rfl⟩, ht.buf, fun c' hc' => ?_, fun c' i hc' hi => ?_,
      (by intros; contradiction), (by intros; contradiction), (by intros; contradiction), (by intros; contradiction), (by intros; contradiction)⟩
    · cases hc'
      exact hdist
    · cases hc'
      exact (hset i).trans (if_pos hi)
  · cases hc'
    exact .inr hfree
  · exact absurd (((h.threads u).taken c' i hc' hi).symm.trans (hfree i hi')) (by simp)
  · exact (hset i).trans (if_neg hi)

section

variable (h : Inv s ra ru)

include h

omit [DecidableEq θ] in
theorem chain_other (hc : (s.pc t).chain = some c) (u : θ) (c' : Chain)
    (i : Fin num) (hu : u ≠ t) (hc' : (s.pc u).chain = some c') (hi : c'.Has i) : ¬ c.Has i :=
  fun hi' => hu (h.disjoint u t c' c i hc' hc hi hi')

/-- The descriptors are filled in and linked. -/
theorem step_format [DecidableEq β] {write : Bool}
    (hp : s.pc t = .format b write c) :
    Inv ({ s with disk := s.disk.format b write c }.goto t (.ring b c)) ra ru := by
  have hlock := h.thread_lock (t := t) (by rw [hp]; rfl)
  have hchain : (s.pc t).chain = some c := by rw [hp]; rfl
  have ht := h.threads t
  rw [hp] at ht
  refine h.of_locked ⟨⟨rfl, rfl, rfl, rfl⟩, rfl, rfl, rfl⟩ hlock rfl ?_ (by rw [hp]; rfl)
    (fun c' hc' => .inl (hchain.trans hc'))
    c.Has (h.chain_other hchain) (fun _ _ => rfl) (fun i hi => (format_other hi).1)
    (fun i hi => (format_other hi).2) (fun b' hb' => ?_) h.avail rfl
  · refine ⟨⟨fun _ => hlock, fun _ => rfl⟩, ht.buf, ht.distinct, ht.taken, fun b' c' hc' => ?_,
      fun b' c' hc' => ?_, nofun, nofun, nofun⟩
    · cases hc'
      exact format_linked (ht.distinct c rfl) write
    · cases hc'
      exact update_self ..
  · have hne : b' ≠ b := by
      rintro rfl
      rw [hp] at hb'
      exact hb' rfl
    exact update_of_ne hne ..

theorem step_ring (hp : s.pc t = .ring b c) :
    Inv ({ s with disk := { s.disk with avail := s.disk.avail.set c.i0 } }.goto t (.publish b c))
      ra ru := by
  have hlock := h.thread_lock (t := t) (by rw [hp]; rfl)
  have hchain : (s.pc t).chain = some c := by rw [hp]; rfl
  have ht := h.threads t
  rw [hp] at ht
  have hroom := h.length_lt (h.not_out hchain (by rw [hp]; rfl))
  rw [length_append, length_append] at hroom
  refine h.of_locked ⟨⟨rfl, rfl, rfl, rfl⟩, rfl, rfl, rfl⟩ hlock rfl ?_ (by rw [hp]; rfl)
    (fun c' hc' => .inl (hchain.trans hc'))
    c.Has (h.chain_other hchain) (fun _ _ => rfl) (fun _ _ => rfl) (fun _ _ => rfl)
    (fun _ _ => rfl) (h.avail.set (by decide) (by omega) c.i0) rfl
  refine ⟨⟨fun _ => hlock, fun _ => rfl⟩, ht.buf, ht.distinct, ht.taken, fun b' c' hc' => ?_,
    ht.prepares, fun b' c' hpub => ?_, nofun, nofun⟩
  · exact (ht.linked b' c' hc').congr (fun _ _ => rfl) rfl
  · obtain ⟨rfl, rfl⟩ := Pc.publish.inj hpub
    exact update_self ..

/-- `free_chain` gives the descriptors back. -/
theorem step_free (hp : s.pc t = .free b c) {d : Disk β} (hd : Freed s.disk d c) :
    Inv ({ s with disk := d }.goto t (.unlock b)) ra ru := by
  have hlock := h.thread_lock (t := t) (by rw [hp]; rfl)
  have hchain : (s.pc t).chain = some c := by rw [hp]; rfl
  refine h.of_locked ⟨⟨rfl, rfl, rfl, rfl⟩, rfl, rfl, rfl⟩ hlock rfl ?_ (by rw [hp]; rfl) nofun c.Has
    (h.chain_other hchain)
    (fun i hi => ?_) hd.desc (fun i hi => hd.info i fun hi0 => hi (.inl hi0))
    (fun b' _ => congrFun hd.disk b') (by
      show d.avail.Ok ra
      rw [hd.avail]
      exact h.avail) hd.used
  · have ht := h.threads t
    rw [hp] at ht
    exact ⟨⟨fun _ => hlock, fun _ => rfl⟩, ht.buf, nofun, nofun, nofun, nofun, nofun, nofun,
      fun _ => ht.returns rfl⟩
  · have hiff := hd.free i
    rw [or_iff_left hi] at hiff
    exact Bool.eq_iff_iff.mpr hiff

/-- The request becomes visible to the device. -/
theorem step_publish (hp : s.pc t = .publish b c) :
    Inv ({ s with
      disk := { s.disk with avail := s.disk.avail.advance }
      owner := update s.owner c.i0 (some t)
      finished := update s.finished t false }.goto t (.test b c)) (ra ++ [c.i0]) ru := by
  have hlock := h.thread_lock (t := t) (by rw [hp]; rfl)
  have hchain : (s.pc t).chain = some c := by rw [hp]; rfl
  have hwaits : (s.pc t).waits = none := by rw [hp]; rfl
  have ht := h.threads t
  rw [hp] at ht
  have hdisk := ht.prepares b c rfl
  have hnot := h.not_out hchain hwaits
  have hroom := h.length_lt hnot
  rw [length_append, length_append] at hroom
  have hru : c.i0 ∉ ru := fun hi => hnot (mem_append_right _ hi)
  constructor
  · exact h.noPanic
  · exact h.handler
  · refine threads_goto rfl ?_ fun u hu => ?_
    · refine ⟨⟨fun _ => hlock, fun _ => rfl⟩, ht.buf, ht.distinct, ht.taken, fun b' c' hc' => ?_,
        nofun, nofun, fun b' c' hw hfin => ?_, nofun⟩
      · exact (ht.linked b' c' hc').congr (fun _ _ => rfl) rfl
      · cases hw
        obtain hfalse | hmem := hfin
        · exact nomatch hdisk.symm.trans hfalse
        · exact absurd hmem hru
    · have hother : s.lock ≠ some (.thread u) := (others (.inr hlock)).1 u hu
      refine (h.threads u).frame (h.out_holds hother) hother (fun _ _ => rfl) (fun _ _ _ _ => rfl)
        (fun _ _ _ hl => hl.congr (fun _ _ => rfl) rfl) fun b' c' hw hfin => ?_
      refine (update_of_ne hu ..).trans ?_
      exact (h.threads u).finished b' c' hw hfin
  · exact h.disjoint_goto rfl fun c' hc' => .inl (hchain.trans hc')
  · exact h.avail.advance (by omega) (ht.stored b c rfl)
  · exact h.used
  · have hperm : (ra ++ [c.i0] ++ s.inflight ++ ru).Perm (c.i0 :: (ra ++ s.inflight ++ ru)) := by
      simp only [append_assoc]
      exact perm_middle
    exact hperm.nodup_iff.mpr (nodup_cons.mpr ⟨hnot, h.nodup⟩)
  · intro i hi
    by_cases hic : i = c.i0
    · refine ⟨t, b, c, ?_, hic.symm, hdisk, ?_⟩
      · show (update s.pc t (.test b c) t).waits = _
        rw [update_self]
        rfl
      · show update s.owner c.i0 (some t) i = _
        rw [hic, update_self]
    have hi' : i ∈ ra ++ s.inflight ++ ru := by
      simp only [mem_append, mem_singleton, State.goto] at hi ⊢
      tauto
    obtain ⟨u, b', c', hu, hci, hb, ho⟩ := h.out i hi'
    have hut : u ≠ t := by
      rintro rfl
      rw [hwaits] at hu
      cases hu
    refine ⟨u, b', c', ?_, hci, hb, (update_of_ne hic ..).trans ho⟩
    show (update s.pc t (.test b c) u).waits = _
    rw [update_of_ne hut]
    exact hu
  · exact h.status
  · exact h.entry

/-- A line of `virtio_disk_rw` keeps the protocol. -/
theorem next [DecidableEq β] (hstep : s.next t = some s') :
    ∃ ra', Inv s' ra' ru := by
  unfold State.next at hstep
  have hsame : SameTaken s.disk s.disk := ⟨rfl, fun _ _ => rfl, rfl, rfl, rfl, rfl⟩
  have hholds : (s.pc t).holds = true → s.lock = none ∨ s.lock = some (.thread t) :=
    fun hp => .inr (h.thread_lock hp)
  cases hp : s.pc t with
  | idle =>
    rw [hp] at hstep
    cases hstep
  | lock =>
    rw [hp] at hstep
    dsimp only at hstep
    split_ifs at hstep with hlock
    cases hstep
    exact ⟨ra, h.of_lockStep hp ⟨⟨rfl, rfl, rfl, rfl⟩, rfl, rfl, rfl⟩ hsame (.inl hlock) rfl
      (fun _ => id) nofun nofun rfl nofun nofun nofun⟩
  | alloc =>
    rw [hp] at hstep hholds
    dsimp only at hstep
    obtain ⟨d, hd, htaken⟩ | ⟨c, hd, hdist, hfree⟩ := alloc3Desc_cases s.disk
    · rw [hd] at hstep
      cases hstep
      exact ⟨ra, h.of_lockStep hp ⟨⟨rfl, rfl, rfl, rfl⟩, rfl, rfl, rfl⟩ htaken (hholds rfl) rfl
        (fun _ => id) nofun nofun rfl nofun nofun nofun⟩
    · rw [hd] at hstep
      cases hstep
      exact ⟨ra, h.step_alloc hp hdist hfree⟩
  | format =>
    rw [hp] at hstep
    cases hstep
    exact ⟨ra, h.step_format hp⟩
  | ring =>
    rw [hp] at hstep
    cases hstep
    exact ⟨ra, h.step_ring hp⟩
  | publish b c =>
    rw [hp] at hstep
    cases hstep
    exact ⟨ra ++ [c.i0], h.step_publish hp⟩
  | test b c =>
    rw [hp] at hstep hholds
    dsimp only at hstep
    split_ifs at hstep with hdisk
    · cases hstep
      exact ⟨ra, h.of_lockStep hp ⟨⟨rfl, rfl, rfl, rfl⟩, rfl, rfl, rfl⟩ hsame (hholds rfl) rfl
        (fun _ => id) (fun _ => id) (fun _ _ => id) rfl (fun _ _ hw _ => hw) (fun _ _ => id) nofun⟩
    cases hstep
    -- the handler has seen the completion
    have hfin : s.finished t = true := by
      refine (h.threads t).finished b c (by rw [hp]; rfl) (.inl ?_)
      simpa using hdisk
    refine ⟨ra, h.of_lockStep hp ⟨⟨rfl, rfl, rfl, rfl⟩, rfl, rfl, rfl⟩ hsame (hholds rfl)
      (h.thread_lock (by rw [hp]; rfl))
      (fun _ => id) (fun _ => id) (fun _ _ => id) rfl (fun b' c' hw hb => ?_) nofun (fun _ => hfin)⟩
    cases hw
    exact absurd hb hdisk
  | sleep =>
    rw [hp] at hstep
    dsimp only at hstep
    split_ifs at hstep with hlock
    cases hstep
    exact ⟨ra, h.of_lockStep hp ⟨⟨rfl, rfl, rfl, rfl⟩, rfl, rfl, rfl⟩ hsame (.inl hlock) rfl
      (fun _ => id) (fun _ => id) (fun _ _ => id) rfl (fun _ _ hw _ => hw) (fun _ _ => id) nofun⟩
  | free b c =>
    rw [hp] at hstep
    dsimp only at hstep
    have ht := h.threads t
    rw [hp] at ht
    obtain ⟨d, hd, hfreed⟩ := finish_linked (ht.linked b c rfl) (ht.distinct c rfl)
      fun i hi => ht.taken c i rfl hi
    rw [hd] at hstep
    cases hstep
    exact ⟨ra, h.step_free hp hfreed⟩
  | unlock =>
    rw [hp] at hstep hholds
    cases hstep
    exact ⟨ra, h.of_lockStep hp ⟨⟨rfl, rfl, rfl, rfl⟩, rfl, rfl, rfl⟩ hsame (hholds rfl) rfl nofun nofun
      nofun rfl nofun nofun nofun⟩

end

/-! ### Steps of the others -/

omit [DecidableEq θ]

theorem threads_stay {ru' : List (Fin num)} (h : Inv s ra ru) (hpc : s'.pc = s.pc)
    (hlock : ∀ u, s'.lock = some (.thread u) ↔ s.lock = some (.thread u))
    (hholder : ∀ u b, (s.pc u).buf = some b → s'.holder b = s.holder b)
    (hfree : s'.disk.free = s.disk.free) (hdesc : s'.disk.desc = s.disk.desc)
    (hinfo : ∀ i, (s'.disk.info i).b = (s.disk.info i).b)
    (hprepares : ∀ u b c, (s.pc u).prepares = some (b, c) → s'.disk.disk b = s.disk.disk b)
    (havail : s'.disk.avail.data = s.disk.avail.data ∧ s'.disk.avail.idx = s.disk.avail.idx)
    (hwaits : ∀ u b c, (s.pc u).waits = some (b, c) → s'.disk.disk b = false ∨ c.i0 ∈ ru' →
      s'.finished u = true)
    (hfin : ∀ u, s.finished u = true → s'.finished u = true) (u : θ) :
    ThreadOk s' ru' u (s'.pc u) := by
  have hu := h.threads u
  rw [hpc]
  constructor
  · rw [hlock]
    exact hu.lock
  · intro b hb
    rw [hholder u b hb]
    exact hu.buf b hb
  · exact hu.distinct
  · rw [hfree]
    exact hu.taken
  · intro b c hc
    exact (hu.linked b c hc).congr (fun i _ => by rw [hdesc]) (hinfo c.i0)
  · intro b c hc
    rw [hprepares u b c hc]
    exact hu.prepares b c hc
  · rw [havail.1, havail.2]
    exact hu.stored
  · exact hwaits u
  · exact fun hr => hfin u (hu.returns hr)

/-- The handler acquires the lock, gives it back, or finds an entry. -/
theorem of_handler (h : Inv s ra ru) (hf : Frame s s') (hdisk : s'.disk = s.disk)
    (hpc : s'.pc = s.pc) (hholder : ∀ u b, (s.pc u).buf = some b → s'.holder b = s.holder b)
    (hhandler : s'.intr ≠ .idle ↔ s'.lock = some .handler)
    (hlock : ∀ u, s'.lock = some (.thread u) ↔ s.lock = some (.thread u))
    (hentry : s'.intr = .entry → ru ≠ []) : Inv s' ra ru := by
  constructor
  · rw [hf.panicked]
    exact h.noPanic
  · exact hhandler
  · refine h.threads_stay hpc hlock hholder (by rw [hdisk]) (by rw [hdisk])
      (fun _ => by rw [hdisk]) (fun _ _ _ _ => by rw [hdisk]) ⟨by rw [hdisk], by rw [hdisk]⟩
      (fun u b c hw => ?_) (fun u => by rw [hf.finished]; exact id)
    rw [hdisk, hf.finished]
    exact (h.threads u).finished b c hw
  · rw [hpc]
    exact h.disjoint
  · rw [hdisk]
    exact h.avail
  · rw [hdisk]
    exact h.used
  · rw [hf.inflight]
    exact h.nodup
  · rw [hf.inflight, hpc, hdisk, hf.owner]
    exact h.out
  · rw [hdisk]
    exact h.status
  · exact hentry

variable [DecidableEq β]

/-- A line of `virtio_disk_intr` keeps the protocol. -/
theorem handle (h : Inv s ra ru) (hstep : s.handle = some s') : ∃ ru', Inv s' ra ru' := by
  unfold State.handle at hstep
  have hhandler : s.intr ≠ .idle → s.lock = some .handler := h.handler.mp
  cases hi : s.intr with
  | idle =>
    rw [hi] at hstep
    cases hstep
  | loop =>
    have hlock := hhandler (by rw [hi]; simp)
    rw [hi] at hstep
    dsimp only at hstep
    split_ifs at hstep with hseen <;> cases hstep
    · refine ⟨ru, h.of_handler ⟨rfl, rfl, rfl, rfl⟩ rfl rfl (fun _ _ _ => rfl)
        ⟨fun hne => absurd rfl hne, (by simp)⟩
        (fun u => ⟨(by simp), fun hu => ?_⟩) (by simp)⟩
      rw [hlock] at hu
      cases hu
    · refine ⟨ru, h.of_handler ⟨rfl, rfl, rfl, rfl⟩ rfl rfl (fun _ _ _ => rfl)
        ⟨fun _ => hlock, fun _ => (by simp)⟩
        (fun u => Iff.rfl) fun _ hru => ?_⟩
      exact hseen ((h.used.idx_eq_seen (by decide)).mpr hru).symm
  | entry =>
    have hlock := hhandler (by rw [hi]; simp)
    obtain ⟨x, rest, rfl⟩ := exists_cons_of_ne_nil (h.entry hi)
    have hfirst : s.disk.used.first = x := h.used.first_eq
    have hx : x ∈ ra ++ s.inflight ++ x :: rest := mem_append_right _ mem_cons_self
    -- the call that waits for it
    obtain ⟨t, b, c, ht, hci, hdisk, -⟩ := h.out x hx
    obtain ⟨hlinked, hchain, hbuf⟩ := waits_linked ht
    have hinfo : (s.disk.info x).b = some b := by
      rw [← hci]
      exact ((h.threads t).linked b c hlinked).info
    have hfin : s.finished t = true :=
      (h.threads t).finished b c ht (.inr (hci ▸ mem_cons_self))
    have hstatus : ¬ (s.disk.info x).status ≠ 0 := not_not.mpr (h.status x mem_cons_self)
    rw [hi] at hstep
    simp only [hfirst, hinfo, if_neg hstatus] at hstep
    cases hstep
    have hbufs : ∀ u b', (s.pc u).buf = some b' → u ≠ t → b' ≠ b := by
      rintro u b' hu hut rfl
      exact hut (h.buf_unique hbuf hu)
    refine ⟨rest, h.noPanic, ⟨fun _ => hlock, fun _ => (by simp)⟩, ?_, h.disjoint, h.avail, h.used.take,
      ?_, ?_, fun i hi => h.status i (mem_cons_of_mem _ hi), (by simp)⟩
    · refine h.threads_stay rfl (fun _ => Iff.rfl) (fun _ _ _ => rfl) rfl rfl (fun _ => rfl)
        (fun u b' c' hu => ?_) ⟨rfl, rfl⟩ (fun u b' c' hu hor => ?_) fun _ => id
      · -- a call that prepares its chain has the lock
        have hholds := (h.threads u).lock.mp (Pc.prepares_holds hu)
        rw [hlock] at hholds
        cases hholds
      · by_cases hut : u = t
        · rw [hut]
          exact hfin
        · have hne := hbufs u b' (waits_linked hu).2.2 hut
          refine (h.threads u).finished b' c' hu (hor.imp (fun hfalse => ?_) (mem_cons_of_mem _))
          rw [← hfalse]
          exact (update_of_ne hne ..).symm
    · have hsub : (ra ++ s.inflight ++ rest).Sublist (ra ++ s.inflight ++ x :: rest) :=
        List.Sublist.append (List.Sublist.refl _) (sublist_cons_self x rest)
      exact hsub.nodup h.nodup
    · intro i hi
      have hmem : i ∈ ra ++ s.inflight ++ x :: rest := by
        rw [mem_append] at hi ⊢
        exact hi.imp_right (mem_cons_of_mem _)
      obtain ⟨u, b', c', hu, hci', hb', ho⟩ := h.out i hmem
      refine ⟨u, b', c', hu, hci', ?_, ho⟩
      -- the head of `t` occurs once
      have hut : u ≠ t := by
        rintro rfl
        rw [ht] at hu
        cases hu
        have hnodup := h.nodup
        rw [nodup_middle, nodup_cons] at hnodup
        rw [← hci', hci] at hi
        exact hnodup.1 hi
      have hne := hbufs u b' (waits_linked hu).2.2 hut
      exact (update_of_ne hne ..).trans hb'

omit [DecidableEq β]

section

variable (h : Inv s ra ru)

include h

/-- The device takes a request. -/
theorem fetch (hstep : s.fetch = some s') : ∃ ra', Inv s' ra' ru := by
  unfold State.fetch at hstep
  split_ifs at hstep with hseen
  cases hstep
  cases ra with
  | nil => exact absurd ((h.avail.idx_eq_seen (by decide)).mpr rfl).symm hseen
  | cons x rest =>
    have hfirst : s.disk.avail.first = x := h.avail.first_eq
    have hperm : (rest ++ x :: s.inflight ++ ru).Perm (x :: rest ++ s.inflight ++ ru) :=
      List.Perm.append_right ru perm_middle
    refine ⟨rest, h.noPanic, h.handler, ?_, h.disjoint, h.avail.take, h.used, ?_, ?_, h.status,
      h.entry⟩
    · exact h.threads_stay rfl (fun _ => Iff.rfl) (fun _ _ _ => rfl) rfl rfl (fun _ => rfl)
        (fun _ _ _ _ => rfl) ⟨rfl, rfl⟩ (fun u => (h.threads u).finished) fun _ => id
    · simp only [hfirst]
      exact hperm.nodup_iff.mpr h.nodup
    · intro i hi
      simp only [hfirst] at hi
      exact h.out i (hperm.mem_iff.mp hi)

/-- The device completes a request. -/
theorem complete [DecidableEq θ] {x : Fin num} (hstep : s.complete x = some s') :
    ∃ ru', Inv s' ra ru' := by
  unfold State.complete at hstep
  split_ifs at hstep with hmem
  cases hstep
  have hx : x ∈ ra ++ s.inflight ++ ru := mem_append_left _ (mem_append_right _ hmem)
  obtain ⟨t, b, c, ht, hci, hdisk, howner⟩ := h.out x hx
  have hlinked := (h.threads t).linked b c (waits_linked ht).1
  have hlast : (s.disk.desc (s.disk.desc (s.disk.desc x).next).next).addr = .status x := by
    rw [← hci, hlinked.next0, hlinked.next1, hlinked.addr2]
  have hperm : (ra ++ s.inflight.erase x ++ (ru ++ [x])).Perm (ra ++ s.inflight ++ ru) := by
    have herase := perm_cons_erase hmem
    calc (ra ++ s.inflight.erase x ++ (ru ++ [x])).Perm (x :: (ra ++ s.inflight.erase x ++ ru)) := by
          rw [← append_assoc]
          exact perm_append_singleton x _
      _ |>.Perm (ra ++ (x :: s.inflight.erase x) ++ ru) := by
          rw [append_assoc, append_assoc]
          exact perm_middle.symm
      _ |>.Perm (ra ++ s.inflight ++ ru) :=
          List.Perm.append_right ru (List.Perm.append_left ra herase.symm)
  have hroom : ru.length < num := by
    have hle := h.nodup.length_le_card
    have hpos := length_pos_of_mem hmem
    rw [Fintype.card_fin, length_append, length_append] at hle
    omega
  have hput : ((s.disk.used.set x).advance).Ok (ru ++ [x]) :=
    (h.used.set (by decide) hroom x).advance hroom (update_self ..)
  -- the status goes to the head of the chain
  have hcomplete : s.disk.complete x = { s.disk.setInfo x { s.disk.info x with status := 0 } with
      used := (s.disk.used.set x).advance } := by
    simp only [Disk.complete, hlast]
    rfl
  rw [hcomplete, howner]
  refine ⟨ru ++ [x], h.noPanic, h.handler, ?_, h.disjoint, h.avail, hput, hperm.nodup_iff.mpr h.nodup,
    fun i hi => h.out i (hperm.mem_iff.mp hi), fun i hi => ?_, fun hentry => ?_⟩
  · refine h.threads_stay rfl (fun _ => Iff.rfl) (fun _ _ _ => rfl) rfl rfl (fun i => ?_)
      (fun _ _ _ _ => rfl) ⟨rfl, rfl⟩ (fun u b' c' hu hor => ?_) fun u hu => ?_
    · by_cases hix : i = x
      · rw [hix]
        simp only [Disk.setInfo, update_self]
      · simp only [Disk.setInfo, update_of_ne hix]
    · by_cases hut : u = t
      · rw [hut]
        exact update_self ..
      refine (update_of_ne hut ..).trans ?_
      refine (h.threads u).finished b' c' hu (hor.imp_right fun hi => ?_)
      -- the head of another call
      refine (mem_append.mp hi).resolve_right fun hx' => hut ?_
      have hhead : c'.i0 = x := mem_singleton.mp hx'
      exact h.disjoint u t c' c x (waits_linked hu).2.1 (waits_linked ht).2.1 (.inl hhead.symm)
        (.inl hci.symm)
    · by_cases hut : u = t
      · rw [hut]
        exact update_self ..
      · exact (update_of_ne hut ..).trans hu
  · by_cases hix : i = x
    · rw [hix]
      simp only [Disk.setInfo, update_self]
    · have hru : i ∈ ru := by simpa [hix] using hi
      simp only [Disk.setInfo, update_of_ne hix]
      exact h.status i hru
  · exact append_ne_nil_of_right_ne_nil _ (by simp)

theorem of_holder (hf : Frame s s') (hdisk : s'.disk = s.disk) (hpc : s'.pc = s.pc)
    (hintr : s'.intr = s.intr) (hlock : s'.lock = s.lock)
    (hholder : ∀ u b, (s.pc u).buf = some b → s'.holder b = s.holder b) : Inv s' ra ru := by
  refine h.of_handler hf hdisk hpc hholder ?_ (fun _ => by rw [hlock]) ?_
  · rw [hintr, hlock]
    exact h.handler
  · rw [hintr]
    exact h.entry

/-- One action keeps the protocol. -/
theorem step [DecidableEq θ] [DecidableEq β] {a : Act θ β}
    (hstep : (diskMachine θ β).step s a = some s') : ∃ ra' ru', Inv s' ra' ru' := by
  have hrunning : ¬ s.panicked = true := by
    rw [h.noPanic]
    exact nofun
  simp only [diskMachine, State.step, if_neg hrunning] at hstep
  cases a with
  | acquire t b =>
    dsimp only at hstep
    split_ifs at hstep with hfree
    cases hstep
    refine ⟨ra, ru, h.of_holder ⟨rfl, rfl, rfl, rfl⟩ rfl rfl rfl rfl fun u b' hu => ?_⟩
    have hne : b' ≠ b := by
      rintro rfl
      exact nomatch hfree.symm.trans ((h.threads u).buf b' hu)
    exact update_of_ne hne ..
  | release t b =>
    dsimp only at hstep
    split_ifs at hstep with hheld
    cases hstep
    refine ⟨ra, ru, h.of_holder ⟨rfl, rfl, rfl, rfl⟩ rfl rfl rfl rfl fun u b' hu => ?_⟩
    have hne : b' ≠ b := by
      rintro rfl
      -- the thread that has it is in no call
      have hut := Option.some.inj (hheld.1.symm.trans ((h.threads u).buf b' hu))
      rw [← hut, hheld.2] at hu
      cases hu
    exact update_of_ne hne ..
  | call t =>
    dsimp only at hstep
    split_ifs at hstep with hheld
    cases hstep
    have ht := h.threads t
    have hnot : s.lock ≠ some (.thread t) := by
      intro hl
      have hholds := ht.lock.mpr hl
      rw [hheld.2] at hholds
      cases hholds
    refine ⟨ra, ru, h.noPanic, h.handler, threads_goto rfl ?_ fun u hu => ?_,
      h.disjoint_goto rfl nofun, h.avail, h.used, h.nodup,
      h.out_goto rfl (fun b' c' hw => ?_) (fun _ _ _ _ hb => hb) rfl fun _ _ => rfl, h.status,
      h.entry⟩
    · refine ⟨⟨nofun, fun hl => absurd hl hnot⟩, fun b' hb => ?_, nofun, nofun, nofun, nofun, nofun,
        nofun, nofun⟩
      cases hb
      exact hheld.1
    · have huOk := h.threads u
      exact ⟨huOk.lock, huOk.buf, huOk.distinct, huOk.taken, huOk.linked, huOk.prepares, huOk.stored,
        huOk.finished, huOk.returns⟩
    · rw [hheld.2] at hw
      cases hw
  | next =>
    obtain ⟨ra', h'⟩ := h.next hstep
    exact ⟨ra', ru, h'⟩
  | intr =>
    dsimp only at hstep
    split_ifs at hstep with hfree
    cases hstep
    refine ⟨ra, ru, h.of_handler ⟨rfl, rfl, rfl, rfl⟩ rfl rfl (fun _ _ _ => rfl)
      ⟨fun _ => rfl, fun _ => nofun⟩
      (fun u => ⟨nofun, fun hu => ?_⟩) nofun⟩
    exact nomatch hfree.symm.trans hu
  | handle =>
    obtain ⟨ru', h'⟩ := h.handle hstep
    exact ⟨ra, ru', h'⟩
  | fetch =>
    obtain ⟨ra', h'⟩ := h.fetch hstep
    exact ⟨ra', ru, h'⟩
  | complete =>
    obtain ⟨ru', h'⟩ := h.complete hstep
    exact ⟨ra, ru', h'⟩

theorem diskOk : DiskOk s where
  noPanic := h.noPanic
  distinct t c := (h.threads t).distinct c
  disjoint := h.disjoint
  taken t c i hc hi := (h.threads t).taken c i hc hi
  inflight i hi := by
    obtain ⟨t, b, c, ht, hci, -, -⟩ := h.out i (mem_append_left _ (mem_append_right _ hi))
    have hlinked := (h.threads t).linked b c (waits_linked ht).1
    exact ⟨t, b, c, ht, hci, hlinked.next0, hlinked.next1⟩
  alloc d hd := by
    obtain ⟨d', hd', hsame⟩ | ⟨c, hd', -⟩ := alloc3Desc_cases s.disk
    · rw [hd'] at hd
      obtain rfl := (Prod.mk.inj (Option.some.inj hd)).2
      exact hsame.free
    · rw [hd'] at hd
      cases hd
  returns t := (h.threads t).returns
  freed t b c hp := by
    have ht := h.threads t
    rw [hp] at ht
    obtain ⟨d, hd, hfreed⟩ := finish_linked (ht.linked b c rfl) (ht.distinct c rfl)
      fun i hi => ht.taken c i rfl hi
    exact ⟨d, hd, hfreed.free⟩
  avail := ⟨ra, h.avail.history, h.avail.size, h.avail.idx⟩
  used := ⟨ru, h.used.history, h.used.size, h.used.idx⟩

end

end Inv

theorem Init.inv (h : Init s) : Inv s [] [] := by
  constructor
  · exact h.panicked
  · rw [h.intr, h.lock]
    exact ⟨fun hne => absurd rfl hne, nofun⟩
  · intro t
    rw [h.pc t]
    refine ⟨⟨nofun, fun hl => ?_⟩, nofun, nofun, nofun, nofun, nofun, nofun, nofun, nofun⟩
    exact nomatch h.lock.symm.trans hl
  · intro t t' c c' i hc
    rw [h.pc t] at hc
    cases hc
  · obtain ⟨hidx, hput, htaken⟩ := h.avail
    exact ⟨by rw [hput, htaken]; rfl, by rw [hidx]; exact (BitVec.add_zero _).symm, Nat.zero_le _,
      fun k hk => nomatch hk⟩
  · obtain ⟨hidx, hput, htaken⟩ := h.used
    exact ⟨by rw [hput, htaken]; rfl, by rw [hidx]; exact (BitVec.add_zero _).symm, Nat.zero_le _,
      fun k hk => nomatch hk⟩
  · rw [h.inflight]
    exact nodup_nil
  · rw [h.inflight]
    exact fun i hi => nomatch hi
  · exact fun i hi => nomatch hi
  · rw [h.intr]
    exact nofun

/-- **The protocol of disk requests**, in every run of any number of threads, the handler and a
device that completes the chains that it is given in any order. -/
theorem disk_requests [DecidableEq θ] [DecidableEq β] (s₀ s : State θ β) (as : List (Act θ β))
    (h₀ : Init s₀) (hrun : (diskMachine θ β).run s₀ as = some s) : DiskOk s := by
  have hstep : ∀ (s : State θ β) (a : Act θ β) (s' : State θ β), (∃ ra ru, Inv s ra ru) →
      (diskMachine θ β).step s a = some s' → ∃ ra ru, Inv s' ra ru := by
    rintro s a s' ⟨ra, ru, h⟩ hstep
    exact h.step hstep
  obtain ⟨ra, ru, h⟩ := Machine.invariant_of_run _ hstep as s₀ s ⟨[], [], h₀.inv⟩ hrun
  exact h.diskOk

/-! ### Two calls -/

def initDone : State (Fin 2) (Fin 2) where
  disk :=
    { desc := fun _ => ⟨.null, 0, 0, 0⟩
      avail := ⟨fun _ => 0, 0, 0, [], []⟩
      used := ⟨fun _ => 0, 0, 0, [], []⟩
      free := fun _ => true
      info := fun _ => ⟨none, 0⟩
      disk := fun _ => false }
  pc _ := .idle
  intr := .idle
  lock := none
  holder _ := none
  inflight := []
  panicked := false
  owner _ := none
  finished _ := false

theorem initDone_init : Init initDone :=
  ⟨fun _ => rfl, rfl, rfl, fun _ => rfl, ⟨rfl, rfl, rfl⟩, ⟨rfl, rfl, rfl⟩, rfl, rfl⟩

/-- The device completes the second call first. -/
def outOfOrder : List (Act (Fin 2) (Fin 2)) :=
  [.acquire 0 0, .call 0 0 true, .acquire 1 1, .call 1 1 false] ++
    List.replicate 6 (.next 0) ++ List.replicate 6 (.next 1) ++
    [.fetch, .fetch, .complete 3, .intr, .handle, .handle, .handle] ++ List.replicate 4 (.next 1)

theorem outOfOrder_ok :
    Init initDone ∧ ∃ s, (diskMachine (Fin 2) (Fin 2)).run initDone outOfOrder = some s ∧
      (s.pc 1 = .idle ∧ s.inflight = [0] ∧ s.disk.free 3 = true) ∧ DiskOk s := by
  obtain ⟨s, hrun, hs⟩ : ∃ s, (diskMachine (Fin 2) (Fin 2)).run initDone outOfOrder = some s ∧
      s.pc 1 = .idle ∧ s.inflight = [0] ∧ s.disk.free 3 = true :=
    Machine.exists_run _ (by decide +kernel)
  exact ⟨initDone_init, s, hrun, hs, disk_requests initDone s outOfOrder initDone_init hrun⟩

end Xv6.Virtio
