import Xv6.Files.Code
import Xv6.Lib.Bytes
import Xv6.Vm.Copy

/-!
# `pipe` from its start to its end (`kernel/sysfile.c`, `kernel/pipe.c`, `kernel/file.c`)

A pipe is named by its page, which is free while `freed` is set; `kalloc` gives one or fails.
-/

namespace Xv6.Files

open Lib

namespace Data

variable (d : Data)

def filealloc : Option (FileId × Data) :=
  d.freeFile.map fun f => (f, d.setFile f { d.file f with ref := 1 })

def fdalloc (f : FileId) : Option (Fd × Data) :=
  ((List.finRange nofile).find? fun fd => d.ofile fd = none).map fun fd =>
    (fd, d.setOfile fd (some f))

/-- `fileclose`, with what it does without its lock; not for inodes. -/
def close (f : FileId) : Option Data :=
  match fileclose d f with
  | some (.pipeClose pi writable, d) => some (d.pipeclose pi writable)
  | some (.user, d) => some d
  | _ => none

def closeBoth (rf wf : FileId) : Option Data := (d.close rf).bind fun d => d.close wf

def pipealloc (kalloc : Option Nat) : Option (Option (FileId × FileId) × Data) :=
  match d.filealloc with
  | none => some (none, d)
  | some (f0, d) =>
    match d.filealloc with
    | none => (d.close f0).map fun d => (none, d)
    | some (f1, d) =>
      match kalloc with
      | none => (d.closeBoth f0 f1).map fun d => (none, d)
      | some pi =>
        let d := d.setPipe pi ⟨true, true, false⟩
        let d := d.setFile f0
          { d.file f0 with type := .pipe, readable := true, writable := false, pipe := pi }
        let d := d.setFile f1
          { d.file f1 with type := .pipe, readable := false, writable := true, pipe := pi }
        some (some (f0, f1), d)

end Data

/-- The two `copyout` of `sys_pipe`, the second one after a success. -/
def copyFds (walkaddr : Addr → Addr) (mem : Mem) (fdarray : Addr) (fd0 fd1 : Fd) : Bool × Mem :=
  let out := copyout walkaddr mem fdarray (toBytes 4 fd0)
  if out.1 then copyout walkaddr out.2 (fdarray + 4) (toBytes 4 fd1) else out

/-- The result with the tables and the memory, or `none` for a panic. -/
def sysPipe (pagetable : PageTable) (fdarray : Addr) (kalloc : Option Nat) (d : Data) (mem : Mem) :
    Option (Int × Data × Mem) :=
  match d.pipealloc kalloc with
  | none => none
  | some (none, d) => some (-1, d, mem)
  | some (some (rf, wf), d) =>
    match d.fdalloc rf with
    | none => (d.closeBoth rf wf).map fun d => (-1, d, mem)
    | some (fd0, d) =>
      match d.fdalloc wf with
      | none => ((d.setOfile fd0 none).closeBoth rf wf).map fun d => (-1, d, mem)
      | some (fd1, d) =>
        let out := copyFds (walkaddr pagetable) mem fdarray fd0 fd1
        if out.1 then some (0, d, out.2)
        else (((d.setOfile fd0 none).setOfile fd1 none).closeBoth rf wf).map fun d => (-1, d, out.2)

/-- The descriptors, the references and the free pages are as before. -/
structure Released (d d' : Data) : Prop where
  ofile : d'.ofile = d.ofile
  ref : ∀ f, (d'.file f).ref = (d.file f).ref
  freed : ∀ pi, (d'.pipe pi).freed = (d.pipe pi).freed

end Xv6.Files
