import Mathlib.Data.List.OfFn
import Xv6.Kthread.Equiv.Create
import Xv6.Kthread.Equiv.Threads
import Xv6.Signal.Backup
import Xv6.Table.Equiv.Basic

/-!
# The models of `kthread_create`

`kthread_create` is modelled with all that may be missing (`Create`), with the pages of the system
(`Table`), with the contexts of signals (`Signal.Contexts`), as an operation on the tree of threads
(`Kthread.Proc`) and line by line (`kthreadCode`).  A call that succeeds does the same to the states
of the threads in all of them (`startThread`), and the lines, when nobody interferes, compute the
operation on the tree (`create_reaches`).
-/

namespace Xv6

open Lib Function

/-- The first slot that is `UNUSED` or `ZOMBIE` becomes `RUNNABLE`. -/
def startThread (state : Fin nthread → ProcState) : Option (Fin nthread → ProcState) :=
  ((List.finRange nthread).find? fun t => state t = .unused ∨ state t = .zombie).map
    fun t => update state t .runnable

theorem startThread_eq {state state' : Fin nthread → ProcState} {t : Fin nthread}
    (hslot : (List.finRange nthread).find? (fun t => state t = .unused ∨ state t = .zombie) = some t)
    (hstate : state' t = .runnable) (hothers : ∀ u, u ≠ t → state' u = state u) :
    startThread state = some state' := by
  rw [startThread, hslot, Option.map_some, Option.some.injEq]
  funext u
  by_cases hu : u = t
  · rw [hu, update_self, hstate]
  · rw [update_of_ne hu, hothers u hu]

/-- A call that returns; the others fault. -/
theorem Create.kthreadCreate_starts {s s' : Create.State} {code : Code} {i : Fin nproc}
    {c : Fin nthread} {startFunc stack : Addr} {r : Int} (h : s.holding = false)
    (hcaller : (s.threads i c).state = .running)
    (hrun : (kthreadCreate code i c startFunc stack).run s = .ok (r, s')) :
    startThread (fun t => (s.threads i t).state) = some fun t => (s'.threads i t).state := by
  obtain ⟨t, page, hslot, hne, hpage, -, rfl⟩ := kthreadCreate_eq_ok h hcaller hrun
  obtain ⟨rest, hlist⟩ := List.head?_eq_some_iff.mp hpage.1
  obtain ⟨hstate, -, -, hothers, -⟩ :
      ((created s code i c t page startFunc stack).threads i t).state = _ ∧ _ ∧ _ ∧ _ ∧ _ :=
    created_spec hlist hne
  exact startThread_eq hslot hstate fun u hu =>
    congrArg Thread.state (hothers i u fun heq => hu (Prod.mk.inj heq).2)

theorem Table.kthreadCreate_starts {s s' : Table.State} {i : Fin nproc} {j : Fin nthread}
    (h : s.kthreadCreate i j = some s') :
    startThread (fun l => ((s.proc i).threads l).state) =
      some fun l => ((s'.proc i).threads l).state := by
  obtain ⟨l, stack, hslot, -, rfl⟩ := kthreadCreate_eq_some h
  refine startThread_eq hslot ?_ fun u hu => ?_
  · simp [State.logStack, Thread.created]
  · simp [State.logStack, setThread_of_ne hu]

/-- Here a call without a slot or a page changes nothing. -/
theorem Signal.create_starts {s s' : Contexts} {i : Fin nproc} {trapframe : Trapframe}
    (hslot : s.freeThreadSlot i ≠ none) (h : s.create i trapframe true = some s') :
    startThread (fun j => ((s.proc i).threads j).state) =
      some fun j => ((s'.proc i).threads j).state := by
  obtain ⟨j, hj⟩ := Option.ne_none_iff_exists'.mp hslot
  rw [Contexts.create, hj] at h
  cases h
  refine startThread_eq hj ?_ fun u hu => ?_
  · simp [Contexts.proc, Contexts.setThread, Contexts.setKernel, Kernel.setProc, Proc.setThread]
  · simp [Contexts.proc, Contexts.setThread, Contexts.setKernel, Kernel.setProc, Proc.setThread,
      update_of_ne hu]

namespace Kthread

theorem kthreadCreate_starts (p : Proc) (t : Fin nthread) :
    (p.kthreadCreate t).map (fun p' j => (p'.threads j).state) =
      startThread fun j => (p.threads j).state := by
  rw [Proc.kthreadCreate, startThread, Option.map_map]
  refine congrArg (fun f => Option.map f p.freeSlot) (funext fun l => funext fun j => ?_)
  by_cases hj : j = l
  · subst hj
    simp [Proc.setState]
  · simp [Proc.setState, Proc.setThread_threads_of_ne hj, Proc.alloc_threads_of_ne hj,
      update_of_ne hj]

variable {κ : Type*} [DecidableEq κ] {s : State κ} {c : κ} {j l : Fin nthread}

/-- A line of a thread that stays on its CPU. -/
theorem run_instr {d d' : Table} {line line' : Line} {op : LockOp LockId}
    (h : line.instr d j .next = some (op, some line', d')) :
    kthreadCode.instr d (.run j line) .next = some (op, .run j line', d') := by
  show (Loc.run j line).instr d .next = _
  simp only [Loc.instr, h]

/-- The loop of `allocthread` comes to the first free slot. -/
theorem alloc_reaches (hl : s.data.proc.freeSlot = some l) :
    kthreadCode.machine.Reaches (fun _ _ => True) (s.goto c (.run j (.alloc 0)))
      (s.goto c (.run j (.alloc l))) := by
  have hbefore : ∀ k : Fin nthread, k < l →
      ¬ (s.data.state k = .unused ∨ s.data.state k = .zombie) := by
    obtain ⟨-, i, hi, hbefore⟩ := List.find?_ofFn_eq_some.mp hl
    obtain rfl : i = l := hi
    exact fun k hk hstate => hbefore k hk (decide_eq_true hstate)
  let line (n : Nat) : Line := if h : n < nthread then .alloc ⟨n, h⟩ else .allocNone
  have hloop : kthreadCode.machine.Reaches (fun _ _ => True) (s.goto c (.run j (line 0)))
      (s.goto c (.run j (line l))) := by
    refine Machine.Reaches.loop (f := fun n => s.goto c (.run j (line n))) fun n hn => ?_
    have hlt : n < nthread := hn.trans l.isLt
    refine SpinCode.reaches_none (d := s.data) trivial (run_instr ?_)
    simp only [line, dif_pos hlt]
    exact if_neg (hbefore ⟨n, hlt⟩ hn)
  have hend : line l = .alloc l := dif_pos l.isLt
  rw [hend] at hloop
  exact hloop

/-- **The lines compute the operation**: when `p->lock` is free and nobody else moves, a call of
`kthread_create` comes to its end, and the threads are what `Proc.kthreadCreate` says. -/
theorem create_reaches {p : Proc} (hloc : s.loc c = .run j (.out .create))
    (hfree : s.owner .proc = none) (hp : s.data.proc.kthreadCreate j = some p) :
    ∃ s', kthreadCode.machine.Reaches (fun _ _ => True) s s' ∧ s'.data.proc = p ∧
      s'.loc c = .run j (.out .user) ∧ s'.owner = s.owner := by
  obtain ⟨l, hl, rfl⟩ := Option.map_eq_some_iff.mp hp
  have hslot : s.data.state l = .unused ∨ s.data.state l = .zombie := by
    have hfound := List.find?_some hl
    exact of_decide_eq_true hfound
  let t : State κ := s.setData (s.data.alloc j l)
  have hcall : kthreadCode.machine.Reaches (fun _ _ => True) (s.goto c (.run j (.out .create)))
      ((s.hold c .proc).goto c (.run j (.alloc 0))) :=
    SpinCode.reaches_acquire trivial (run_instr rfl) hfree
  rw [SpinState.goto_self hloc] at hcall
  have hfound : kthreadCode.machine.Reaches (fun _ _ => True)
      ((s.hold c .proc).goto c (.run j (.alloc l)))
      ((s.hold c .proc).goto c (.run j (.allocFound l))) :=
    SpinCode.reaches_none (d := s.data) trivial (run_instr (if_pos hslot))
  have halloc : kthreadCode.machine.Reaches (fun _ _ => True)
      ((s.hold c .proc).goto c (.run j (.allocFound l)))
      ((t.hold c .proc).goto c (.run j (.allocUnlock l))) :=
    SpinCode.reaches_none trivial (run_instr rfl)
  have hunlock : kthreadCode.machine.Reaches (fun _ _ => True)
      ((t.hold c .proc).goto c (.run j (.allocUnlock l))) (t.goto c (.run j (.out (.setup l)))) :=
    SpinCode.reaches_release trivial (run_instr rfl) hfree
  have hsetup : kthreadCode.machine.Reaches (fun _ _ => True) (t.goto c (.run j (.out (.setup l))))
      ((t.setData (t.data.save l .forkret)).goto c (.run j (.out (.created l)))) :=
    SpinCode.reaches_none trivial (run_instr rfl)
  have hstart : kthreadCode.machine.Reaches (fun _ _ => True)
      ((t.setData (t.data.save l .forkret)).goto c (.run j (.out (.created l))))
      ((t.setData ((t.data.save l .forkret).setState l .runnable)).goto c (.run j (.out .user))) :=
    SpinCode.reaches_none trivial (run_instr rfl)
  have hscan := alloc_reaches (s := s.hold c .proc) (c := c) (j := j) hl
  exact ⟨_, hcall.trans (hscan.trans (hfound.trans (halloc.trans (hunlock.trans
    (hsetup.trans hstart))))), rfl, SpinState.goto_loc .., rfl⟩

end Kthread

end Xv6
