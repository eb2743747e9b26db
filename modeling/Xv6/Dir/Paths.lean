import Xv6.Dir.Calls

/-!
# Path elements (`kernel/fs.c`)

`skipelem` and the loop of `namex` on the string and the buffer `name`, which `elems` and `walk`
leave out.  A path is the list of its characters before the NUL.
-/

namespace Xv6.Dir

/-- The `memmove` of an element to the buffer, with a NUL behind one shorter than `DIRSIZ`. -/
def copyName (elem name : List Char) : List Char :=
  if elem.length ≥ dirsiz then elem.take dirsiz ++ name.drop dirsiz
  else elem ++ '\x00' :: name.drop (elem.length + 1)

/-- The string in the buffer, as `namecmp` reads it. -/
def nameOf (name : List Char) : Name := (name.take dirsiz).takeWhile (· ≠ '\x00')

/-- The returned path, and the buffer. -/
def skipelemTo (path name : List Char) : Option (List Char × List Char) :=
  let s := path.dropWhile (· = '/')
  if s = [] then none
  else
    let path := s.dropWhile (· ≠ '/')
    some (path.dropWhile (· = '/'), copyName (s.takeWhile (· ≠ '/')) name)

/-- The results of `skipelem`, until that is 0. -/
inductive Splits : List Char → List Char → List (List Char × List Char) → Prop where
  | done {path name : List Char} (h : skipelemTo path name = none) : Splits path name []
  | next {path name path' name' : List Char} {calls : List (List Char × List Char)}
      (h : skipelemTo path name = some (path', name')) (hcalls : Splits path' name' calls) :
      Splits path name ((path', name') :: calls)

variable {m : Nat} {π : Type}

/-- The loop of `namex`, for at most `fuel` elements. -/
def namexLoop (nameiparent : Bool) :
    Nat → List Char → List Char → Inum m → Kernel m π (Option (Inum m × Name))
  | 0, _, _, _ => return none
  | fuel + 1, path, name, ip =>
    match skipelemTo path name with
    | none =>
      if nameiparent then do
        iput ip
        return none
      else return some (ip, [])
    | some (path, name) => do
      ilock ip
      let s ← get
      if (s.dinode ip).type ≠ .dir then do
        iput ip
        return none
      else if nameiparent ∧ path = [] then return some (ip, nameOf name)
      else
        match ← dirlookup ip (nameOf name) with
        | none => do
          iput ip
          return none
        | some (_, next) => do
          iput ip
          namexLoop nameiparent fuel path name next

/-- The directory that the elements lead to, with the name to look for in it. -/
def enter (elems : List Name) (name : Name) (ip : Inum m) : Kernel m π (Option (Inum m × Name)) := do
  match ← walk false elems ip with
  | none => return none
  | some (dp, _) => do
    ilock dp
    let s ← get
    if (s.dinode dp).type ≠ .dir then do
      iput dp
      return none
    else return some (dp, name)

/-- What is between the slashes. -/
def components (path : List Char) : List (List Char) := (path.splitOn '/').filter (· ≠ [])

end Xv6.Dir
