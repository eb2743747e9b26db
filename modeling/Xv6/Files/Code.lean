import Mathlib.Algebra.BigOperators.Group.Finset.Basic
import Mathlib.Data.Fintype.Prod
import Xv6.Lib.Spin
import Xv6.Params

/-!
# Open files under threads (`kernel/file.c`, `kernel/sysfile.c`, `kernel/pipe.c`)

The threads of one process on its table of descriptors: `read`, `write`, `fstat`, `dup`, `close` and
`open`. `argfd` and `fdalloc` use the table without a lock, and `argfd` borrows its reference.

A critical section of `ftable.lock` or `itable.lock` is one instruction; the locks of the model are
the sleep-locks of the inodes. A thread in `piperead`, `pipewrite` or a device function is at one
line for as long as the call takes. A panic has no successor.
-/

namespace Xv6.Files

open Lib Function

def nfile : Nat := 100
def ninode : Nat := 50

instance : NeZero nofile := ⟨by decide⟩
instance : NeZero nfile := ⟨by decide⟩
instance : NeZero ninode := ⟨by decide⟩

abbrev Fd := Fin nofile
abbrev FileId := Fin nfile
abbrev InodeId := Fin ninode

inductive FdType where
  | none
  | pipe
  | inode
  | device
  deriving DecidableEq

structure File where
  type : FdType
  ref : Int
  readable : Bool
  writable : Bool
  pipe : Nat
  ip : InodeId
  deriving DecidableEq

/-- `struct pipe`; `freed` once it has been given to `kfree`. -/
structure Pipe where
  readopen : Bool
  writeopen : Bool
  freed : Bool

def Pipe.isOpen (pi : Pipe) (writable : Bool) : Bool :=
  if writable then pi.writeopen else pi.readopen

structure Inode where
  ref : Int
  valid : Bool
  nlink : Int

structure Data where
  ofile : Fd → Option FileId
  file : FileId → File
  pipe : Nat → Pipe
  inode : InodeId → Inode

namespace Data

variable (d : Data)

def setOfile (fd : Fd) (v : Option FileId) : Data :=
  { d with ofile := update d.ofile fd v }

def setFile (f : FileId) (v : File) : Data :=
  { d with file := update d.file f v }

def setPipe (pi : Nat) (v : Pipe) : Data :=
  { d with pipe := update d.pipe pi v }

def setInode (ip : InodeId) (v : Inode) : Data :=
  { d with inode := update d.inode ip v }

def iget (ip : InodeId) : Data :=
  d.setInode ip
    { d.inode ip with
      ref := (d.inode ip).ref + 1
      valid := (d.inode ip).valid && (d.inode ip).ref ≠ 0 }

def idrop (ip : InodeId) : Data := d.setInode ip { d.inode ip with ref := (d.inode ip).ref - 1 }

/-- `ilock` has read the inode. -/
def setValid (ip : InodeId) (valid : Bool) : Data := d.setInode ip { d.inode ip with valid }

def freeFile : Option FileId := (List.finRange nfile).find? fun f => (d.file f).ref = 0

def pipeclose (pi : Nat) (writable : Bool) : Data :=
  let p := d.pipe pi
  let p := if writable then { p with writeopen := false } else { p with readopen := false }
  d.setPipe pi (if !p.readopen && !p.writeopen then { p with freed := true } else p)

end Data

/-- Which of `fileread`, `filewrite` and `filestat`. -/
inductive Use where
  | read
  | write
  | stat
  deriving DecidableEq

inductive Line where
  | user
  -- fileread, filewrite, filestat
  | use (u : Use) (f : FileId)
  | pipe (f : FileId) (pi : Nat) -- piperead, pipewrite
  | device (f : FileId) -- devsw[f->major].read, .write
  | lock (u : Use) (f : FileId) -- ilock(f->ip)
  | io (u : Use) (f : FileId) (ip : InodeId) -- readi, writei, stati
  | unlock (u : Use) (f : FileId) (ip : InodeId) -- iunlock(f->ip)
  | done (u : Use) (f : FileId)
  -- dup
  | dupTest (f : FileId) (fd : Fd) -- if(p->ofile[fd] == 0)
  | dupStore (f : FileId) (fd : Fd) -- p->ofile[fd] = f
  | dupRef (f : FileId) -- filedup(f)
  -- close
  | closeClear (f : FileId) (fd : Fd) -- myproc()->ofile[fd] = 0
  | closeRef (f : FileId) -- fileclose(f)
  | pipeClose (pi : Nat) (writable : Bool)
  | iput (ip : InodeId)
  | iputFree (ip : InodeId) -- itrunc(ip)
  | iputDrop (ip : InodeId) -- ip->ref--
  -- open
  | openLock (ip : InodeId) -- ilock(ip)
  | openAlloc (ip : InodeId) -- filealloc()
  | openTest (ip : InodeId) (f : FileId) (fd : Fd) -- if(p->ofile[fd] == 0)
  | openStore (ip : InodeId) (f : FileId) (fd : Fd) -- p->ofile[fd] = f
  | openType (ip : InodeId) (f : FileId) -- f->type = ..
  | openIp (ip : InodeId) (f : FileId) -- f->ip = ip
  | openMode (ip : InodeId) (f : FileId) -- f->readable = ..; f->writable = ..
  | openUnlock (ip : InodeId) (f : FileId) -- itrunc(ip); iunlock(ip)
  | openClose (ip : InodeId) (f : FileId) -- fileclose(f)
  | openFail (ip : InodeId) -- iunlockput(ip)
  deriving DecidableEq

/-- The system calls; `open` is given the inode that `namei` or `create` finds. -/
inductive Syscall where
  | use (u : Use) (fd : Fd)
  | dup (fd : Fd)
  | close (fd : Fd)
  | open (ip : InodeId)
  deriving DecidableEq

/-- The next line, a call, another round of `filewrite`, or a test of `open` fails. A thread in user
space also stands for other processes that link and unlink inodes. -/
inductive Choice where
  | next
  | call (c : Syscall)
  | again
  | fail
  | type (isDevice : Bool)
  | mode (readable writable : Bool)
  | setNlink (ip : InodeId) (nlink : Int)
  deriving DecidableEq

def Syscall.start (d : Data) : Syscall → Line × Data
  | .use u fd => ((d.ofile fd).elim .user (.use u), d)
  | .dup fd => ((d.ofile fd).elim .user fun f => .dupTest f 0, d)
  | .close fd => ((d.ofile fd).elim .user fun f => .closeClear f fd, d)
  | .open ip => (.openLock ip, d.iget ip)

def Use.start (u : Use) (f : FileId) (file : File) : Option Line :=
  match u, file.type with
  | .stat, .inode | .stat, .device => some (.lock u f)
  | .stat, _ => some .user
  | .read, type =>
    if !file.readable then some .user
    else match type with
      | .pipe => some (.pipe f file.pipe)
      | .device => some (.device f)
      | .inode => some (.lock u f)
      | .none => none -- panic("fileread")
  | .write, type =>
    if !file.writable then some .user
    else match type with
      | .pipe => some (.pipe f file.pipe)
      | .device => some (.device f)
      | .inode => some (.lock u f)
      | .none => none -- panic("filewrite")

def fileclose (d : Data) (f : FileId) : Option (Line × Data) :=
  let file := d.file f
  if file.ref < 1 then none -- panic("fileclose")
  else if file.ref - 1 > 0 then some (.user, d.setFile f { file with ref := file.ref - 1 })
  else
    let d' := d.setFile f { file with ref := 0, type := .none }
    match file.type with
    | .pipe => some (.pipeClose file.pipe file.writable, d')
    | .inode | .device => some (.iput file.ip, d')
    | .none => some (.user, d')

/-- The loop of `fdalloc`, behind descriptor `fd`. -/
def fdNext (fd : Fd) : Option Fd :=
  if h : fd.val + 1 < nofile then some ⟨fd + 1, h⟩ else none

def Line.instr (d : Data) : Line → Choice → Option (LockOp InodeId × Line × Data)
  | .user, .call c => some (.none, c.start d)
  | .user, .setNlink ip nlink => some (.none, .user, d.setInode ip { d.inode ip with nlink })
  | .use u f, .next => (u.start f (d.file f)).map fun l => (.none, l, d)
  | .pipe _ _, .next => some (.none, .user, d)
  | .device _, .next => some (.none, .user, d)
  | .lock u f, .next =>
    let ip := (d.file f).ip
    if (d.inode ip).ref < 1 then none -- panic("ilock")
    else some (.acquire ip, .io u f ip, d.setValid ip true)
  | .io u f ip, .next => some (.none, .unlock u f ip, d)
  | .unlock u f ip, .next =>
    -- panic("iunlock")
    if (d.file f).ip = ip ∧ 1 ≤ (d.inode ip).ref then some (.release ip, .done u f, d) else none
  | .done .write f, .again => some (.none, .lock .write f, d)
  | .done _ _, .next => some (.none, .user, d)
  | .dupTest f fd, .next =>
    if d.ofile fd = none then some (.none, .dupStore f fd, d)
    else some (.none, (fdNext fd).elim .user (.dupTest f), d)
  | .dupStore f fd, .next => some (.none, .dupRef f, d.setOfile fd (some f))
  | .dupRef f, .next =>
    if (d.file f).ref < 1 then none -- panic("filedup")
    else some (.none, .user, d.setFile f { d.file f with ref := (d.file f).ref + 1 })
  | .closeClear f fd, .next => some (.none, .closeRef f, d.setOfile fd none)
  | .closeRef f, .next => (fileclose d f).map fun (l, d') => (.none, l, d')
  | .pipeClose pi writable, .next => some (.none, .user, d.pipeclose pi writable)
  | .iput ip, .next =>
    if (d.inode ip).ref = 1 ∧ (d.inode ip).valid ∧ (d.inode ip).nlink = 0 then
      some (.acquire ip, .iputFree ip, d)
    else some (.none, .user, d.idrop ip)
  | .iputFree ip, .next => some (.release ip, .iputDrop ip, d.setValid ip false)
  | .iputDrop ip, .next => some (.none, .user, d.idrop ip)
  | .openLock ip, .next =>
    if (d.inode ip).ref < 1 then none -- panic("ilock")
    else some (.acquire ip, .openAlloc ip, d.setValid ip true)
  | .openAlloc ip, .fail => some (.none, .openFail ip, d)
  | .openAlloc ip, .next =>
    match d.freeFile with
    | some f => some (.none, .openTest ip f 0, d.setFile f { d.file f with ref := 1 })
    | none => some (.none, .openFail ip, d)
  | .openTest ip f fd, .next =>
    if d.ofile fd = none then some (.none, .openStore ip f fd, d)
    else some (.none, (fdNext fd).elim (.openClose ip f) (.openTest ip f), d)
  | .openStore ip f fd, .next => some (.none, .openType ip f, d.setOfile fd (some f))
  | .openType ip f, .type isDevice =>
    some (.none, .openIp ip f,
      d.setFile f { d.file f with type := if isDevice then .device else .inode })
  | .openIp ip f, .next => some (.none, .openMode ip f, d.setFile f { d.file f with ip })
  | .openMode ip f, .mode readable writable =>
    some (.none, .openUnlock ip f, d.setFile f { d.file f with readable, writable })
  | .openUnlock ip _, .next => some (.release ip, .user, d)
  | .openClose ip f, .next =>
    -- the file is new: its type is FD_NONE, and there is nothing else to close
    match fileclose d f with
    | some (.user, d') => some (.none, .openFail ip, d')
    | _ => none
  | .openFail ip, .next => some (.release ip, .iput ip, d)
  | _, _ => none

def fileCode : SpinCode InodeId Line Data Choice where
  instr d l ch := l.instr d ch

/-- The threads, with the sleep-locks of the inodes. -/
abbrev State (θ : Type) := SpinState θ InodeId Line Data

variable {θ : Type}

def Data.slots (d : Data) (f : FileId) : Finset Fd := Finset.univ.filter fun fd => d.ofile fd = some f

def File.linked (file : File) (ip : InodeId) : Prop :=
  1 ≤ file.ref ∧ (file.type = .inode ∨ file.type = .device) ∧ file.ip = ip

instance (file : File) (ip : InodeId) : Decidable (file.linked ip) :=
  inferInstanceAs (Decidable (_ ∧ _))

def File.isEnd (file : File) (pi : Nat) (writable : Bool) : Prop :=
  1 ≤ file.ref ∧ file.type = .pipe ∧ file.pipe = pi ∧ file.writable = writable

/-- All threads are in user space, and the references are counted; others may have some too. -/
structure Start (s : State θ) : Prop where
  owner : ∀ ip, s.owner ip = none
  loc : ∀ t, s.loc t = .user
  slots : ∀ f, ((s.data.slots f).card : Int) ≤ (s.data.file f).ref
  free : ∀ f, (s.data.file f).ref = 0 → (s.data.file f).type = .none
  inodes : ∀ ip, ((Finset.univ.filter fun f => (s.data.file f).linked ip).card : Int) ≤
    (s.data.inode ip).ref
  ends : ∀ f f' pi w, (s.data.file f).isEnd pi w → (s.data.file f').isEnd pi w → f = f'
  opened : ∀ f pi w, (s.data.file f).isEnd pi w →
    (s.data.pipe pi).freed = false ∧ (s.data.pipe pi).isOpen w = true

/-! ### Calls -/

def Line.file : Line → Option FileId
  | .use _ f | .pipe f _ | .device f | .lock _ f | .io _ f _ | .unlock _ f _ | .done _ f
  | .dupTest f _ | .dupStore f _ | .dupRef f | .closeClear f _ | .closeRef f
  | .openTest _ f _ | .openStore _ f _ | .openType _ f | .openIp _ f | .openMode _ f
  | .openUnlock _ f | .openClose _ f => some f
  | _ => none

def Line.owns : Line → Bool
  | .closeClear _ _ | .closeRef _ | .openTest _ _ _ | .openStore _ _ _ | .openType _ _
  | .openIp _ _ | .openMode _ _ | .openUnlock _ _ | .openClose _ _ => true
  | _ => false

/-- The lines of `fileread`, `filewrite` and `filestat`. -/
def Line.uses : Line → Bool
  | .use _ _ | .pipe _ _ | .device _ | .lock _ _ | .io _ _ _ | .unlock _ _ _ | .done _ _ => true
  | _ => false

def Line.inode (d : Data) : Line → Option InodeId
  | .lock _ f => some (d.file f).ip
  | .io _ _ ip | .unlock _ _ ip => some ip
  | _ => none

def Syscall.fd : Syscall → Option (Fd × Bool)
  | .use _ fd | .dup fd => some (fd, false)
  | .close fd => some (fd, true)
  | .open _ => none

def callOf (d : Data) : Line → Choice → Option (FileId × Bool)
  | .user, .call c => c.fd.bind fun (fd, close) => (d.ofile fd).map fun f => (f, close)
  | _, _ => none

/-- No file is in use while it is being closed or opened. -/
def Apart (s : State θ) (a : θ × Choice) : Prop :=
  ∀ y ∈ callOf s.data (s.loc a.1) a.2, ∀ t, (s.loc t).file = some y.1 →
    (s.loc t).owns = false ∧ y.2 = false

instance [Fintype θ] (s : State θ) (a : θ × Choice) : Decidable (Apart s a) :=
  Option.decidableForallMem _

/-- **File references**: the file that a thread uses has a reference, and so have its pipe and its
inode; what is freed is used by no thread, and `iput` does not wait for the lock of an inode. -/
structure FileOk (s : State θ) : Prop where
  file : ∀ t f, (s.loc t).uses = true → (s.loc t).file = some f → 1 ≤ (s.data.file f).ref
  pipe : ∀ t f pi, s.loc t = .pipe f pi → (s.data.pipe pi).freed = false
  inode : ∀ t ip, (s.loc t).inode s.data = some ip → 1 ≤ (s.data.inode ip).ref
  pipeclose : ∀ t pi w, s.loc t = .pipeClose pi w →
    (((s.data.pipeclose pi w).pipe pi).freed = true → ∀ t' f, s.loc t' ≠ .pipe f pi)
  iput : ∀ t ip, s.loc t = .iput ip → (s.data.inode ip).ref = 1 →
    (s.data.inode ip).nlink = 0 → s.owner ip = none ∧ ∀ t', (s.loc t').inode s.data ≠ some ip

end Xv6.Files
