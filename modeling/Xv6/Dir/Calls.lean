import Mathlib.Data.Fintype.BigOperators
import Xv6.Lib.Machine
import Xv6.Params

/-!
# Directories and `open` (`kernel/sysfile.c`, `kernel/fs.c`)

`create` and `open`, with the walk along a path and the references to inodes in memory. A call is a
computation on the state that may panic.

A directory is the list of its entries, a file the list of its bytes. A changed inode is copied to
disk before it is unlocked, so one value stands for both, and `valid` says whether the inode in
memory has been read. There is one device.
-/

namespace Xv6.Dir

open Lib
open Function (update)

/-! ### The file system -/

def nfile : Nat := 100
def ninode : Nat := 50
def ndev : Nat := 10
def maxpath : Nat := 128
def dirsiz : Nat := 14
/-- Entries of a directory of `MAXFILE` blocks. -/
def maxDirents : Nat := (12 + bsize / 4) * bsize / 16

/-- Inode numbers, of `m + 2` inodes; `0` names none. -/
abbrev Inum (m : Nat) := Fin (m + 2)

def rootino {m : Nat} : Inum m := 1

/-- A name of at most `DIRSIZ` characters. -/
abbrev Name := List Char

def dot : Name := ['.']
def dotdot : Name := ['.', '.']

inductive FileType where
  | free
  | dir
  | file
  | device
  deriving DecidableEq

variable (m : Nat) (π : Type)

structure Dirent where
  inum : Inum m
  name : Name
  deriving DecidableEq

/-- `struct dinode`; `entries` is the content of a directory, `data` that of a file. -/
structure Dinode where
  type : FileType
  major : BitVec 16
  minor : BitVec 16
  nlink : BitVec 16
  entries : List (Dirent m)
  data : List (BitVec 8)

/-- `struct file`; pipes have no inode. -/
structure File where
  ref : Nat
  ip : Option (Inum m)

structure State where
  dinode : Inum m → Dinode m
  ref : Inum m → Nat
  valid : Inum m → Bool
  cwd : π → Option (Inum m)
  file : Fin nfile → File m
  ofile : π → Fin nofile → Option (Fin nfile)

inductive Panic where
  | noInodes -- panic("iget: no inodes"), panic("ialloc: no inodes")
  | ilock -- panic("ilock")
  | noType -- panic("ilock: no type")
  | notDir -- panic("dirlookup not DIR")
  | dirlink -- panic("dirlink")
  | dots -- panic("create dots")
  | create -- panic("create: dirlink")
  deriving DecidableEq

abbrev Kernel := StateT (State m π) (Except Panic)

variable {m π}

def State.setDinode (s : State m π) (i : Inum m) (v : Dinode m) : State m π :=
  { s with dinode := update s.dinode i v }

def State.setNlink (s : State m π) (i : Inum m) (nlink : BitVec 16) : State m π :=
  s.setDinode i { s.dinode i with nlink }

def State.setEntries (s : State m π) (i : Inum m) (entries : List (Dirent m)) : State m π :=
  s.setDinode i { s.dinode i with entries }

def State.setRef (s : State m π) (i : Inum m) (ref : Nat) : State m π :=
  { s with ref := update s.ref i ref }

def State.setValid (s : State m π) (i : Inum m) (valid : Bool) : State m π :=
  { s with valid := update s.valid i valid }

/-! ### Inodes -/

/-- Increment the reference count. -/
def idup (i : Inum m) : Kernel m π Unit := modify fun s => s.setRef i (s.ref i + 1)

/-- Find the inode in the table, or take a free entry for it. -/
def iget (i : Inum m) : Kernel m π Unit := do
  let s ← get
  if 0 < s.ref i then idup i
  else if ninode ≤ (Finset.univ.filter fun j => 0 < s.ref j).card then throw .noInodes
  else set ((s.setRef i 1).setValid i false)

/-- Lock the inode, reading it from disk if necessary. -/
def ilock (i : Inum m) : Kernel m π Unit := do
  let s ← get
  if s.ref i < 1 then throw .ilock
  else if s.valid i then pure ()
  else if (s.dinode i).type = .free then throw .noType
  else set (s.setValid i true)

def State.iput (s : State m π) (i : Inum m) : State m π :=
  if s.ref i = 1 ∧ s.valid i ∧ (s.dinode i).nlink = 0 then
    ((s.setDinode i { s.dinode i with type := .free, entries := [], data := [] }).setValid i
      false).setRef i 0
  else s.setRef i (s.ref i - 1)

def iput (i : Inum m) : Kernel m π Unit := modify fun s => s.iput i

def ialloc (type : FileType) : Kernel m π (Inum m) := do
  let s ← get
  match (List.finRange (m + 2)).find? fun i => i ≠ 0 ∧ (s.dinode i).type = .free with
  | some i => do
    set (s.setDinode i ⟨type, 0, 0, 0, [], []⟩)
    iget i
    return i
  | none => throw .noInodes

/-! ### Directories -/

/-- The loop of `dirlookup`, from entry number `off` on. -/
def scan (name : Name) : List (Dirent m) → Nat → Option (Nat × Inum m)
  | [], _ => none
  | de :: es, off =>
    if de.inum = 0 then scan name es (off + 1)
    else if name = de.name then some (off, de.inum)
    else scan name es (off + 1)

def dirlookup (dp : Inum m) (name : Name) : Kernel m π (Option (Nat × Inum m)) := do
  let s ← get
  if (s.dinode dp).type ≠ .dir then throw .notDir
  else
    match scan name (s.dinode dp).entries 0 with
    | some (off, i) => do
      iget i
      return some (off, i)
    | none => return none

def emptySlot (es : List (Dirent m)) : Nat := es.findIdx fun de => de.inum = 0

/-- Write an entry there. -/
def addEntry (de : Dirent m) : List (Dirent m) → List (Dirent m)
  | [] => [de]
  | e :: es => if e.inum = 0 then de :: es else e :: addEntry de es

def dirlink (dp : Inum m) (name : Name) (inum : Inum m) : Kernel m π Bool := do
  match ← dirlookup dp name with
  | some (_, ip) => do
    iput ip
    return false
  | none => do
    let s ← get
    if maxDirents ≤ emptySlot (s.dinode dp).entries then throw .dirlink
    else do
      set (s.setEntries dp (addEntry ⟨inum, name⟩ (s.dinode dp).entries))
      return true

/-! ### Paths -/

/-- The next path element, and the path behind it without leading slashes. -/
def skipelem (path : List Char) : Option (Name × List Char) :=
  match path.dropWhile (· = '/') with
  | [] => none
  | c :: cs =>
    some (((c :: cs).takeWhile (· ≠ '/')).take dirsiz,
      ((c :: cs).dropWhile (· ≠ '/')).dropWhile (· = '/'))

/-- The path elements, at most `fuel` of them. -/
def elemsAux : Nat → List Char → List Name
  | 0, _ => []
  | fuel + 1, path =>
    match skipelem path with
    | none => []
    | some (name, rest) => name :: elemsAux fuel rest

def elems (path : List Char) : List Name := elemsAux path.length path

/-- The loop of `namex`. -/
def walk (nameiparent : Bool) : List Name → Inum m → Kernel m π (Option (Inum m × Name))
  | [], ip =>
    if nameiparent then do
      iput ip
      return none
    else return some (ip, [])
  | name :: rest, ip => do
    ilock ip
    let s ← get
    if (s.dinode ip).type ≠ .dir then do
      iput ip
      return none
    else if nameiparent ∧ rest = [] then return some (ip, name)
    else
      match ← dirlookup ip name with
      | none => do
        iput ip
        return none
      | some (_, next) => do
        iput ip
        walk nameiparent rest next

def namex (cwd : Inum m) (path : List Char) (nameiparent : Bool) :
    Kernel m π (Option (Inum m × Name)) :=
  if path.head? = some '/' then do
    iget rootino
    walk nameiparent (elems path) rootino
  else do
    idup cwd
    walk nameiparent (elems path) cwd

/-! ### `create` -/

/-- The entries `.` and `..` of a new directory. -/
def createDots (type : FileType) (dp ip : Inum m) : Kernel m π Unit :=
  if type = .dir then do
    modify fun s => s.setNlink dp ((s.dinode dp).nlink + 1)
    if ← dirlink ip dot ip then
      if ← dirlink ip dotdot dp then pure () else throw .dots
    else throw .dots
  else pure ()

/-- A new inode, with its entry in the parent directory. -/
def createNew (dp : Inum m) (name : Name) (type : FileType) (major minor : BitVec 16) :
    Kernel m π (Inum m) := do
  let ip ← ialloc type
  ilock ip
  modify fun s => s.setDinode ip { s.dinode ip with major, minor, nlink := 1 }
  createDots type dp ip
  if ← dirlink dp name ip then return ip else throw .create

/-- The second part of `create`, in the parent directory. -/
def createIn (dp : Inum m) (name : Name) (type : FileType) (major minor : BitVec 16) :
    Kernel m π (Option (Inum m)) := do
  ilock dp
  match ← dirlookup dp name with
  | some (_, ip) => do
    iput dp
    ilock ip
    let s ← get
    if type = .file ∧ ((s.dinode ip).type = .file ∨ (s.dinode ip).type = .device) then
      return some ip
    else do
      iput ip
      return none
  | none => do
    let ip ← createNew dp name type major minor
    iput dp
    return some ip

def create (cwd : Inum m) (path : List Char) (type : FileType) (major minor : BitVec 16) :
    Kernel m π (Option (Inum m)) := do
  match ← namex cwd path true with
  | none => return none
  | some (dp, name) => createIn dp name type major minor

/-! ### Files -/

def filealloc (s : State m π) : Option (Fin nfile) :=
  (List.finRange nfile).find? fun f => (s.file f).ref = 0

def fdalloc (s : State m π) (p : π) : Option (Fin nofile) :=
  (List.finRange nofile).find? fun fd => (s.ofile p fd).isNone

/-! ### `open`

The results are those of the source, with `none` for `-1`. -/

variable [DecidableEq π]

def oCreate : BitVec 32 := 0x200
def oTrunc : BitVec 32 := 0x400

def openInode (cwd : Inum m) (path : List Char) (omode : BitVec 32) :
    Kernel m π (Option (Inum m)) :=
  if omode &&& oCreate ≠ 0 then create cwd path .file 0 0
  else do
    match ← namex cwd path false with
    | none => return none
    | some (ip, _) => do
      ilock ip
      let s ← get
      if (s.dinode ip).type = .dir ∧ omode ≠ 0 then do
        iput ip
        return none
      else return some ip

/-- The second part of `open`, with the inode. -/
def openEnd (p : π) (ip : Inum m) (omode : BitVec 32) : Kernel m π (Option Nat) := do
  let s ← get
  if (s.dinode ip).type = .device ∧
      ((s.dinode ip).major.toInt < 0 ∨ ndev ≤ (s.dinode ip).major.toInt) then do
    iput ip
    return none
  else
    match filealloc s, fdalloc s p with
    | some f, some fd => do
      let s' : State m π := { s with
        file := update s.file f ⟨1, some ip⟩
        ofile := update s.ofile p (update (s.ofile p) fd (some f)) }
      set (if omode &&& oTrunc ≠ 0 ∧ (s.dinode ip).type = .file then
        s'.setDinode ip { s.dinode ip with data := [] } else s')
      return some fd.val
    | _, _ => do
      iput ip
      return none

def sysOpen (p : π) (cwd : Inum m) (path : List Char) (omode : BitVec 32) :
    Kernel m π (Option Nat) := do
  -- argstr(0, path, MAXPATH)
  if path.length < maxpath then
    match ← openInode cwd path omode with
    | none => return none
    | some ip => openEnd p ip omode
  else return none

end Xv6.Dir
