import Xv6.Lib.Machine
import Xv6.Lib.Sum
import Xv6.Proc.State

/-!
# What `exit` releases (`kernel/proc.c`, `kernel/file.c`, `kernel/fs.c`)

The threads `ι` of one process, each of which may enter `exit` and then closes the open files of the
process and puts its current directory, without a lock: their lines interleave in any order. What
`fileclose` and `iput` do under `ftable.lock` and `itable.lock` is one step each. Files `φ` and
inodes `ν` are references into the tables of the kernel.

A panic, or a read through the null pointer, has no successor. A thread that has released everything
is `.zombie`.
-/

namespace Xv6.Exit

open Lib Function

inductive FileKind (ν : Type*) where
  | none
  | pipe
  | inode (ip : ν)
  | device (ip : ν)
  deriving DecidableEq

/-- The inode that the last `fileclose` puts. -/
def FileKind.ip {ν : Type*} : FileKind ν → Option ν
  | .none | .pipe => Option.none
  | .inode ip | .device ip => some ip

structure File (ν : Type*) where
  ref : Int
  kind : FileKind ν
  deriving DecidableEq

structure Inode where
  ref : Int
  valid : Bool
  nlink : Int
  deriving DecidableEq

inductive Ref where
  | file (fd : Fin nofile)
  | cwd
  deriving DecidableEq

inductive Pc (φ ν : Type*) where
  | user
  -- the loop over the open files
  | test (fd : Fin nofile) -- if(p->ofile[fd])
  | read (fd : Fin nofile) -- f = p->ofile[fd]
  | close (fd : Fin nofile) (f : φ) -- fileclose(f), with ftable.lock
  | pipeclose (fd : Fin nofile) -- pipeclose(ff.pipe, ff.writable)
  | beginOp (fd : Fin nofile) (ip : ν) -- begin_op()
  | clear (fd : Fin nofile) -- p->ofile[fd] = 0
  -- the current directory
  | cwdBeginOp -- begin_op()
  | cwdRead -- p->cwd
  | cwdClear -- p->cwd = 0
  -- iput and what follows it
  | iput (r : Ref) (ip : ν) -- if(ip->ref == 1 && ip->valid && ip->nlink == 0)
  | itrunc (r : Ref) (ip : ν) -- itrunc(ip) .. ip->valid = 0
  | idrop (r : Ref) (ip : ν) -- ip->ref--
  | endOp (r : Ref) -- end_op()
  | zombie
  deriving DecidableEq

/-- The process, the files and the inodes. -/
structure State (ι φ ν : Type*) where
  ofile : Fin nofile → Option φ
  cwd : Option ν
  file : φ → File ν
  inode : ν → Inode
  pc : ι → Pc φ ν
  -- how often `fileclose` has dropped a reference for the descriptor, and `iput` the one of `cwd`
  drops : Fin nofile → Nat
  cwdDrops : Nat

/-- A thread enters `exit`, or executes its next line. -/
inductive Act (ι : Type*) where
  | exit (t : ι)
  | next (t : ι)
  deriving DecidableEq

/-- The loop goes on behind `fd`. -/
def Pc.testNext {φ ν : Type*} (fd : Fin nofile) : Pc φ ν :=
  if h : fd.val + 1 < nofile then .test ⟨fd + 1, h⟩ else .cwdBeginOp

namespace State

variable {ι φ ν : Type*} [DecidableEq ι] [DecidableEq φ] [DecidableEq ν] (s : State ι φ ν)

/-- Thread `t` goes to line `pc`. -/
def goto (t : ι) (pc : Pc φ ν) : State ι φ ν := { s with pc := update s.pc t pc }

/-- `ip->ref--`. -/
def dropInode (r : Ref) (ip : ν) : State ι φ ν :=
  { s with
    inode := update s.inode ip { s.inode ip with ref := (s.inode ip).ref - 1 }
    cwdDrops := if r = .cwd then s.cwdDrops + 1 else s.cwdDrops }

def truncInode (ip : ν) : State ι φ ν :=
  { s with inode := update s.inode ip { s.inode ip with valid := false } }

def lastUse (ip : ν) : Prop :=
  (s.inode ip).ref = 1 ∧ (s.inode ip).valid = true ∧ (s.inode ip).nlink = 0

instance (ip : ν) : Decidable (s.lastUse ip) := inferInstanceAs (Decidable (_ ∧ _ ∧ _))

def dropFile (fd : Fin nofile) (f : φ) : State ι φ ν :=
  { s with
    file := update s.file f
      (if (s.file f).ref - 1 > 0 then { s.file f with ref := (s.file f).ref - 1 }
        else ⟨0, .none⟩)
    drops := update s.drops fd (s.drops fd + 1) }

def closeNext (fd : Fin nofile) (f : φ) : Pc φ ν :=
  if (s.file f).ref - 1 > 0 then .clear fd
  else
    match (s.file f).kind with
    | .pipe => .pipeclose fd
    | .inode ip | .device ip => .beginOp fd ip
    | .none => .clear fd

def clearOfile (fd : Fin nofile) : State ι φ ν :=
  { s with ofile := update s.ofile fd none }

def clearCwd : State ι φ ν := { s with cwd := none }

/-- Thread `t` executes its next line. -/
def next (t : ι) : Option (State ι φ ν) :=
  match s.pc t with
  | .user | .zombie => none
  | .test fd =>
    match s.ofile fd with
    | some _ => some (s.goto t (.read fd))
    | none => some (s.goto t (.testNext fd))
  | .read fd => (s.ofile fd).map fun f => s.goto t (.close fd f)
  | .close fd f =>
    -- panic("fileclose")
    if (s.file f).ref < 1 then none else some ((s.dropFile fd f).goto t (s.closeNext fd f))
  | .pipeclose fd => some (s.goto t (.clear fd))
  | .beginOp fd ip => some (s.goto t (.iput (.file fd) ip))
  | .clear fd => some ((s.clearOfile fd).goto t (.testNext fd))
  | .cwdBeginOp => some (s.goto t .cwdRead)
  | .cwdRead => s.cwd.map fun ip => s.goto t (.iput .cwd ip)
  | .cwdClear => some (s.clearCwd.goto t .zombie)
  | .iput r ip =>
    if s.lastUse ip then some (s.goto t (.itrunc r ip))
    else some ((s.dropInode r ip).goto t (.endOp r))
  | .itrunc r ip => some ((s.truncInode ip).goto t (.idrop r ip))
  | .idrop r ip => some ((s.dropInode r ip).goto t (.endOp r))
  | .endOp (.file fd) => some (s.goto t (.clear fd))
  | .endOp .cwd => some (s.goto t .cwdClear)

def step : Act ι → Option (State ι φ ν)
  | .exit t => if s.pc t = .user then some (s.goto t (.test 0)) else none
  | .next t => s.next t

end State

def exitMachine (ι φ ν : Type*) [DecidableEq ι] [DecidableEq φ] [DecidableEq ν] :
    Machine (State ι φ ν) (Act ι) where
  step s a := s.step a

/-! ### Released once -/

/-- What is released in the states of the runs from `s₀`. -/
structure ReleasedOnce {ι φ ν : Type*} (s₀ s : State ι φ ν) : Prop where
  file_once : ∀ fd, s.drops fd ≤ 1
  cwd_once : s.cwdDrops ≤ 1
  released : (∃ t, s.pc t = .zombie) → (∀ fd, s₀.ofile fd ≠ none → s.drops fd = 1) ∧ s.cwdDrops = 1
  -- `fileclose` finds a reference to drop
  close_ref : ∀ t fd f, s.pc t = .close fd f → 1 ≤ (s.file f).ref
  file_ref : ∀ f, 0 ≤ (s.file f).ref
  inode_ref : ∀ ip, 0 ≤ (s.inode ip).ref

def State.inodeRefs {ι φ ν : Type*} [Fintype φ] [DecidableEq ν] (s : State ι φ ν) (ip : ν) : Nat :=
  (if s.cwd = some ip then 1 else 0) +
    ∑ f, if 0 < (s.file f).ref ∧ (s.file f).kind.ip = some ip then 1 else 0

/-- Before any thread exits; files and inodes may have references from elsewhere too. -/
structure Alive {ι φ ν : Type*} [Fintype φ] [DecidableEq φ] [DecidableEq ν] (s : State ι φ ν) :
    Prop where
  user : ∀ t, s.pc t = .user
  drops : ∀ fd, s.drops fd = 0
  cwdDrops : s.cwdDrops = 0
  file_ref : ∀ f, ((Finset.univ.filter fun fd => s.ofile fd = some f).card : Int) ≤ (s.file f).ref
  inode_ref : ∀ ip, (s.inodeRefs ip : Int) ≤ (s.inode ip).ref

/-- The descriptor that the thread has found open and not yet cleared. -/
def Pc.closing {φ ν : Type*} : Pc φ ν → Option (Fin nofile)
  | .read fd | .close fd _ | .pipeclose fd | .beginOp fd _ | .clear fd
  | .iput (.file fd) _ | .itrunc (.file fd) _ | .idrop (.file fd) _ | .endOp (.file fd) => some fd
  | _ => none

/-- The thread has started to put the current directory. -/
def Pc.puttingCwd {φ ν : Type*} : Pc φ ν → Bool
  | .iput .cwd _ | .itrunc .cwd _ | .idrop .cwd _ | .endOp .cwd | .cwdClear | .zombie => true
  | _ => false

/-- No thread tests a descriptor that another one has found open and not yet cleared, or puts the
current directory when another one has started to. -/
def Alone {ι φ ν : Type*} (s : State ι φ ν) : Act ι → Prop
  | .next t =>
    (∀ fd, s.pc t = .test fd → ∀ t', (s.pc t').closing ≠ some fd) ∧
      (s.pc t = .cwdRead → ∀ t', (s.pc t').puttingCwd = false)
  | .exit _ => True

instance {ι φ ν : Type*} [Fintype ι] [DecidableEq φ] [DecidableEq ν] (s : State ι φ ν) :
    (a : Act ι) → Decidable (Alone s a)
  | .next t => inferInstanceAs (Decidable (
      (∀ fd, s.pc t = .test fd → ∀ t', (s.pc t').closing ≠ some fd) ∧
        (s.pc t = .cwdRead → ∀ t', (s.pc t').puttingCwd = false)))
  | .exit _ => inferInstanceAs (Decidable True)

end Xv6.Exit
