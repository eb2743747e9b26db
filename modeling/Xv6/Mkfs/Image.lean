import Xv6.Fs.Blocks

/-!
# Building a file system image (`mkfs/mkfs.c`)

`mkfs` writes an image of `FSSIZE` blocks: the superblock, an inode and a directory for the root,
for each input file an inode, an entry of the root directory and the contents, and at the end the
bitmap. Inodes are words of a block, so an inode number beyond `NINODES` is one of the bitmap or of
the data blocks. `mount` is what the kernel makes of the image.

The host has Intel's byte order, where `xint` and `xshort` change nothing (`xint_eq`). The program
reads every sector that it stores to, and `rsect` fails behind the end of the image, so `wsect`
never makes it longer.
-/

namespace Xv6.Mkfs

open Fs Bcache

/-! ### Layout -/

def fssize : Nat := 1000
def ninodes : Nat := 200
/-- `IPB`: an inode has 16 words. -/
def ipb : Nat := bsize / 64

def nbitmap : Nat := fssize / (bsize * 8) + 1
def ninodeblocks : Nat := ninodes / ipb + 1
def nlog : Nat := logSize
def nmeta : Nat := 2 + nlog + ninodeblocks + nbitmap
def inodestart : Nat := 2 + nlog
def bmapstart : Nat := 2 + nlog + ninodeblocks

/-- The superblock, as the kernel reads it. -/
def sb : Superblock where
  size := BitVec.ofNat 32 fssize
  ninodes := BitVec.ofNat 32 ninodes
  bmapstart := BitVec.ofNat 32 bmapstart

def tDir : BitVec 16 := 1
def tFile : BitVec 16 := 2
def rootino : Nat := 1

/-- Convert to Intel byte order. -/
def xshort (x : BitVec 16) : BitVec 16 := x.extractLsb' 8 8 ++ x.extractLsb' 0 8

def xint (x : BitVec 32) : BitVec 32 :=
  x.extractLsb' 24 8 ++ x.extractLsb' 16 8 ++ x.extractLsb' 8 8 ++ x.extractLsb' 0 8

structure Dinode extends Fs.Dinode where
  major : BitVec 16
  minor : BitVec 16

/-- The blocks from `fssize` on do not exist. -/
structure State where
  block : BitVec 32 → Block
  freeinode : Nat
  freeblock : BitVec 32

inductive Failure where
  | read -- perror("read")
  | opening -- perror(argv[i])
  | assertion
  deriving DecidableEq

variable (s : State)

/-! ### Sectors and inodes -/

def rsect (sec : BitVec 32) : Except Failure Block :=
  if sec.toNat < fssize then .ok (s.block sec) else .error .read

def State.wsect (sec : BitVec 32) (buf : Block) : State :=
  { s with block := Function.update s.block sec buf }

def iblock (inum : Nat) : BitVec 32 := BitVec.ofNat 32 (inum / ipb + inodestart)

def inodeWord (inum : Nat) (k : Fin 16) : Fin (bsize / 4) :=
  ⟨inum % ipb * 16 + k.val, by have := Nat.mod_lt inum (show ipb > 0 by decide); simp [ipb, bsize] at *; omega⟩

def Dinode.decode (w : Fin 16 → BitVec 32) : Dinode where
  type := (w 0).extractLsb' 0 16
  major := (w 0).extractLsb' 16 16
  minor := (w 1).extractLsb' 0 16
  nlink := (w 1).extractLsb' 16 16
  size := w 2
  addrs i := w (i.natAdd 3)

def Dinode.encode (d : Dinode) (k : Fin 16) : BitVec 32 :=
  match k with
  | 0 => d.major ++ d.type
  | 1 => d.nlink ++ d.minor
  | 2 => d.size
  | ⟨k + 3, h⟩ => d.addrs ⟨k, Nat.lt_of_add_lt_add_right h⟩

def State.inodeAt (inum : Nat) : Dinode :=
  Dinode.decode fun k => s.block (iblock inum) (inodeWord inum k)

def rinode (inum : Nat) : Except Failure Dinode := do
  let buf ← rsect s (iblock inum)
  return Dinode.decode fun k => buf (inodeWord inum k)

def winode (inum : Nat) (ip : Dinode) : Except Failure State := do
  let buf ← rsect s (iblock inum)
  return s.wsect (iblock inum) fun w =>
    if w.val / 16 = inum % ipb then ip.encode ⟨w.val % 16, Nat.mod_lt _ (by decide)⟩ else buf w

def ialloc (type : BitVec 16) : Except Failure (Nat × State) := do
  let inum := s.freeinode
  let s := { s with freeinode := inum + 1 }
  let din : Dinode :=
    { type := xshort type, major := 0, minor := 0, nlink := xshort 1, size := xint 0, addrs := fun _ => 0 }
  let s ← winode s inum din
  return (inum, s)

/-! ### Appending -/

def slotAddr (din : Dinode) (i : Fin (ndirect + 1)) : BitVec 32 × Dinode × State :=
  if xint (din.addrs i) = 0 then
    let a := xint s.freeblock
    (xint a, { din with toDinode := din.setAddr i a }, { s with freeblock := s.freeblock + 1 })
  else (xint (din.addrs i), din, s)

def fileBlock (din : Dinode) (fbn : Nat) : Except Failure (BitVec 32 × Dinode × State) :=
  if h : fbn < ndirect then .ok (slotAddr s din ⟨fbn, Nat.lt_succ_of_lt h⟩)
  else if h : fbn - ndirect < nindirect then do
    let (ind, din, s) := slotAddr s din (Fin.last ndirect)
    let indirect ← rsect s ind
    if indirect ⟨fbn - ndirect, h⟩ = 0 then
      let a := xint s.freeblock
      let s := { s with freeblock := s.freeblock + 1 }
      return (xint a, din, s.wsect ind (Function.update indirect ⟨fbn - ndirect, h⟩ a))
    else return (xint (indirect ⟨fbn - ndirect, h⟩), din, s)
  else .error .assertion -- assert(fbn < MAXFILE)

/-- Each round takes at least one byte, so their number bounds the rounds. -/
def appendLoop : Nat → List UInt8 → Nat → Dinode → State → Except Failure (Nat × Dinode × State)
  | 0, _, off, din, s => .ok (off, din, s)
  | fuel + 1, p, off, din, s =>
    if p = [] then .ok (off, din, s)
    else do
      let fbn := off / bsize
      let (x, din, s) ← fileBlock s din fbn
      let n1 := min p.length ((fbn + 1) * bsize - off)
      let buf ← rsect s x
      let s := s.wsect x (setBytes buf (off - fbn * bsize) (p.take n1))
      appendLoop fuel (p.drop n1) (off + n1) din s

def iappend (inum : Nat) (p : List UInt8) : Except Failure State := do
  let din ← rinode s inum
  let off := (xint din.size).toNat
  let (off, din, s) ← appendLoop p.length p off din s
  winode s inum { din with size := xint (BitVec.ofNat 32 off) }

/-! ### The program -/

def dirsiz : Nat := 14

/-- `strncpy(de.name, name, DIRSIZ)`, of a name without the byte 0 that ends it. -/
def strncpy (name : List UInt8) : List UInt8 :=
  name.take dirsiz ++ List.replicate (dirsiz - name.length) 0

def dirent (inum : Nat) (name : List UInt8) : List UInt8 :=
  let x := xshort (BitVec.ofNat 16 inum)
  UInt8.ofNat x.toNat :: UInt8.ofNat (x >>> 8).toNat :: strncpy name

/-- An input file: `argv[i]`, and what `read` gives of the file until its end, when it can be
opened. -/
structure Input where
  path : List UInt8
  chunks : Option (List (List UInt8))

def Input.shortname (f : Input) : List UInt8 :=
  if f.path.take 5 = [117, 115, 101, 114, 47] then f.path.drop 5 else f.path

/-- The name in the image: without the `_` of a binary. -/
def Input.name (f : Input) : List UInt8 :=
  if f.shortname.head? = some 95 then f.shortname.tail else f.shortname

/-- The calls of `iappend` for the contents of a file. -/
def appendAll (inum : Nat) : List (List UInt8) → State → Except Failure State
  | [], s => .ok s
  | chunk :: chunks, s => do
    let s ← iappend s inum chunk
    appendAll inum chunks s

/-- One round of the loop of `main`. -/
def addFile (f : Input) : Except Failure State := do
  if 47 ∈ f.shortname then .error .assertion
  else
    match f.chunks with
    | none => .error .opening
    | some chunks =>
      let (inum, s) ← ialloc s tFile
      let s ← iappend s rootino (dirent inum f.name)
      appendAll inum chunks s

def addFiles : List Input → State → Except Failure State
  | [], s => .ok s
  | f :: fs, s => do
    let s ← addFile s f
    addFiles fs s

def fixRoot : Except Failure State := do
  let din ← rinode s rootino
  let off := (xint din.size).toNat
  let off := (off / bsize + 1) * bsize
  winode s rootino { din with size := xint (BitVec.ofNat 32 off) }

def usedBits : Nat → Block
  | 0 => fun _ => 0
  | i + 1 => fun w =>
    if w.val = i / 32 then usedBits i w ||| BitVec.ofNat 32 1 <<< (i % 32) else usedBits i w

def balloc : Except Failure State :=
  if s.freeblock.toNat < bsize * 8 then
    .ok (s.wsect (BitVec.ofNat 32 bmapstart) (usedBits s.freeblock.toNat))
  else .error .assertion

/-- The image of zeros with the superblock. -/
def blank : State where
  block := Function.update (fun _ _ => 0) 1 fun w =>
    match w.val with
    | 0 => 0x10203040 -- FSMAGIC
    | 1 => xint (BitVec.ofNat 32 fssize)
    | 2 => xint (BitVec.ofNat 32 (fssize - nmeta))
    | 3 => xint (BitVec.ofNat 32 ninodes)
    | 4 => xint (BitVec.ofNat 32 nlog)
    | 5 => xint 2
    | 6 => xint (BitVec.ofNat 32 inodestart)
    | 7 => xint (BitVec.ofNat 32 bmapstart)
    | _ => 0
  freeinode := 1
  freeblock := BitVec.ofNat 32 nmeta

def makeRoot : Except Failure State := do
  let (inum, s) ← ialloc blank tDir
  if inum = rootino then
    let s ← iappend s inum (dirent inum [46])
    iappend s inum (dirent inum [46, 46])
  else .error .assertion

def mkfs (files : List Input) : Except Failure State := do
  let s ← makeRoot
  let s ← addFiles files s
  let s ← fixRoot s
  balloc s

/-! ### The kernel -/

def State.bit (b : BitVec 32) : Bool :=
  (s.block (BitVec.ofNat 32 (b.toNat / bpb + bmapstart))
    ⟨b.toNat % bpb / 32, by simp [bpb, bsize]; omega⟩).getLsbD (b.toNat % 32)

def State.dinode (inum : Nat) : Fs.Dinode :=
  if inum < ninodes then (s.inodeAt inum).toDinode else ⟨0, 0, 0, fun _ => 0⟩

/-- What the kernel finds at boot. -/
def State.mount : Fs.State where
  bitmap := s.bit
  block := s.block
  dinode := s.dinode
  inode _ := ⟨0, false, ⟨0, 0, 0, fun _ => 0⟩⟩

def State.rootByte (k : Nat) : UInt8 :=
  match slotOf (k / bsize) with
  | some slot => getByte (s.block (s.mount.addr (rootino, slot))) (k % bsize)
  | none => 0

def State.entryInum (i : Nat) : Nat := (s.rootByte (16 * i)).toNat + 256 * (s.rootByte (16 * i + 1)).toNat

def State.entryName (i : Nat) : List UInt8 :=
  (List.range dirsiz).map fun t => s.rootByte (16 * i + (2 + t))

/-- **A consistent image**: the inode numbers in use are below `sb.ninodes`, the kernel can start
from it (block numbers, one reference for a block, no holes), the bitmap marks the metadata and the
referenced blocks, and no two entries of the root directory have the same name. -/
structure Consistent : Prop where
  inodes : ∀ inum, 1 ≤ inum → inum < s.freeinode → inum < sb.ninodes.toNat
  start : Start sb s.mount
  marked : ∀ b : BitVec 32, b.toNat < bpb →
    (s.bit b = true ↔ b.toNat < nmeta ∨ ∃ r, s.mount.addr r ≠ 0 ∧ s.mount.addr r = b)
  names : ∀ i j, 16 * i < (s.dinode rootino).size.toNat → 16 * j < (s.dinode rootino).size.toNat →
    s.entryInum i ≠ 0 → s.entryInum j ≠ 0 → s.entryName i = s.entryName j → i = j

/-- The names for the root directory, each of `DIRSIZ` bytes. -/
def names (files : List Input) : List (List UInt8) :=
  strncpy [46] :: strncpy [46, 46] :: files.map fun f => strncpy f.name

end Xv6.Mkfs
