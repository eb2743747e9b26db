import Xv6.Pipe.Calls
import Xv6.Vm.Copy

/-!
# `piperead` and the memory of the reader (`kernel/pipe.c`)

`pi->lock` is held from the test for an empty pipe to the return, so a call is one step from the
pipe as it is when the call has the lock, for the first time or after `sleep`.
-/

namespace Xv6.Pipes

/-- A call of `piperead` by the process `pr`. -/
structure Reader where
  pr : Fin nproc
  walkaddr : Addr → Addr
  addr : Addr
  n : Int

namespace Reader

variable (c : Reader)

/-- `for(; i < n; i++)`, with `left` iterations to go. -/
def copy : Nat → Nat → Pipe → Mem → Nat × Pipe × Mem
  | 0, i, v, mem => (i, v, mem)
  | left + 1, i, v, mem =>
    if v.Empty then (i, v, mem)
    else
      let (ok, mem) := copyout c.walkaddr mem (c.addr + BitVec.ofNat 64 i) [v.data (slot v.nread)]
      if ok then copy left (i + 1) v.read mem else (i, v.read, mem)

/-- `none` if the call sleeps. -/
def piperead (v : Pipe) (mem : Mem) : Option (Int × Pipe × Mem) :=
  if v.Empty ∧ v.writeopen then
    if v.killed c.pr then some (-1, v, mem) else none
  else
    let (i, s) := c.copy c.n.toNat 0 v mem
    some (i, s)

end Reader

/-- A call that has returned `k`, with the pipe and the memory that it found and the memory that it
left. -/
structure Return extends Reader where
  v : Pipe
  mem : Mem
  k : Int
  mem' : Mem

/-- The calls that return one after the other while bytes are written to the pipe. -/
inductive Reads : List Return → Pipe → Pipe → Prop
  | nil (v : Pipe) : Reads [] v v
  | read {c : Reader} {v v' w : Pipe} {mem mem' : Mem} {k : Int} {rs : List Return} :
      c.piperead v mem = some (k, v', mem') → Reads rs v' w →
      Reads ({ toReader := c, v, mem, k, mem' } :: rs) v w
  | write {v w : Pipe} {rs : List Return} (ch : UInt8) : Reads rs (v.write ch) w → Reads rs v w

end Xv6.Pipes
