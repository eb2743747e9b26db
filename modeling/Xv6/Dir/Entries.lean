import Mathlib.Logic.Function.Basic

/-!
# The entries of a directory (`kernel/fs.c`, `kernel/string.c`, `kernel/sysfile.c`)

A directory is the list of its entries, which `readi` and `writei` read and write one by one, with
room for new ones. A name at a pointer ends with a NUL, or has more than `DIRSIZ` bytes.
-/

namespace Xv6.Entries

open Function (update)

def dirsiz : Nat := 14

abbrev Str := Nat → UInt8

/-- The string behind its first byte. -/
def Str.tail (p : Str) : Str := fun k => p (k + 1)

def strncmp (p q : Str) : Nat → Int
  | 0 => 0
  | n + 1 =>
    if p 0 ≠ 0 ∧ p 0 = q 0 then strncmp p.tail q.tail n else (p 0).toNat - (q 0).toNat

def strncpy (t : Str) : Nat → List UInt8
  | 0 => []
  | n + 1 => if t 0 = 0 then List.replicate (n + 1) 0 else t 0 :: strncpy t.tail n

structure Dirent where
  inum : UInt16
  name : List UInt8

def Dirent.str (de : Dirent) : Str := fun k => de.name.getD k 0

def namecmp (s t : Str) : Int := strncmp s t dirsiz

/-- The loop of `dirlookup`: the offset and the inode number. -/
def dirlookup (name : Str) : List Dirent → Nat → Option (Nat × UInt16)
  | [], _ => none
  | de :: es, off =>
    if de.inum = 0 then dirlookup name es (off + 16)
    else if namecmp name de.str = 0 then some (off, de.inum)
    else dirlookup name es (off + 16)

/-- `writei` at the first empty entry, or at the end. -/
def place (new : Dirent) : List Dirent → List Dirent
  | [] => [new]
  | de :: es => if de.inum = 0 then new :: es else de :: place new es

/-- `none` is the result `-1`. -/
def dirlink (name : Str) (inum : UInt16) (es : List Dirent) : Option (List Dirent) :=
  match dirlookup name es 0 with
  | some _ => none
  | none => some (place ⟨inum, strncpy name dirsiz⟩ es)

def hole : Dirent := ⟨0, List.replicate dirsiz 0⟩

/-- The entry that `sys_unlink` removes. -/
def unlink (name : Str) (es : List Dirent) : Option (List Dirent) :=
  match dirlookup name es 0 with
  | some (off, _) => some (es.set (off / 16) hole)
  | none => none

inductive Op where
  | dirlink (name : Str) (inum : UInt16)
  | unlink (name : Str)

/-- Inode numbers of new entries are not 0. -/
def Op.Ok : Op → Prop
  | .dirlink _ inum => inum ≠ 0
  | .unlink _ => True

def step (es : List Dirent) : Op → List Dirent
  | .dirlink name inum => (dirlink name inum es).getD es
  | .unlink name => (unlink name es).getD es

/-! ### Maps -/

/-- The bytes of a name before its NUL, at most `n`. -/
def Str.key (p : Str) : Nat → List UInt8
  | 0 => []
  | n + 1 => if p 0 = 0 then [] else p 0 :: p.tail.key n

def Op.name : Op → Str
  | .dirlink name _ | .unlink name => name

/-- A call on a map from names to inode numbers. -/
def Op.apply (m : List UInt8 → Option (UInt16)) : Op → List UInt8 → Option (UInt16)
  | .dirlink name inum =>
    if m (name.key dirsiz) = none then update m (name.key dirsiz) (some inum) else m
  | .unlink name => update m (name.key dirsiz) none

def names (es : List Dirent) : List (List UInt8) :=
  (es.filter fun de => de.inum ≠ 0).map fun de => de.str.key dirsiz

structure IsMap (es : List Dirent) (m : List UInt8 → Option (UInt16)) : Prop where
  nodup : (names es).Nodup
  lookup : ∀ name : Str, (dirlookup name es 0).map Prod.snd = m (name.key dirsiz)
  offset : ∀ name off inum, dirlookup name es 0 = some (off, inum) →
    ∃ i de, off = 16 * i ∧ es[i]? = some de ∧ de.inum = inum ∧ de.str.key dirsiz = name.key dirsiz
  fails : ∀ name inum, dirlink name inum es = none ↔ m (name.key dirsiz) ≠ none
  apart : ∀ op : Op, op.Ok → ∀ name : Str, name.key dirsiz ≠ op.name.key dirsiz →
    (dirlookup name (step es op) 0).map Prod.snd = (dirlookup name es 0).map Prod.snd

end Xv6.Entries
