import Xv6.Lib.Machine
import Xv6.Lib.Ring

/-!
# The disk driver and its device (`kernel/virtio_disk.c`)

Threads `θ` that call `virtio_disk_rw` on buffers `β`, the interrupt handler, and the device. The
device takes chains of descriptors from the ring `avail`, and puts the heads of those it has
completed, in any order, into the ring `used`; `status` is 0 then.

A thread that sleeps may acquire `vdisk_lock` again at any time, since it tests again what it has
slept for. What the device reads and writes in `disk.ops` and in the buffers is left out.

Not in the code are `owner` and `finished`: the thread of a chain, and whether the device has
completed the chain of its last call.
-/

namespace Xv6.Virtio

open Lib
open Function (update)

def num : Nat := 8

instance : NeZero num := ⟨by decide⟩

variable {θ β : Type}

inductive DescAddr (β : Type) where
  | null
  | op (i : Fin num)
  | data (b : β)
  | status (i : Fin num)
  deriving DecidableEq

structure Desc (β : Type) where
  addr : DescAddr β
  len : Nat
  flags : BitVec 16
  next : Fin num
  deriving DecidableEq

def fNext : BitVec 16 := 1
def fWrite : BitVec 16 := 2

structure Info (β : Type) where
  b : Option β
  status : BitVec 8
  deriving DecidableEq

/-- `struct disk`, with the indices of the device in its rings, and `b->disk`. -/
structure Disk (β : Type) where
  desc : Fin num → Desc β
  avail : Ring 16 num (Fin num)
  used : Ring 16 num (Fin num)
  free : Fin num → Bool
  info : Fin num → Info β
  disk : β → Bool

structure Chain where
  i0 : Fin num
  i1 : Fin num
  i2 : Fin num
  deriving DecidableEq

def Chain.Has (c : Chain) (i : Fin num) : Prop := i = c.i0 ∨ i = c.i1 ∨ i = c.i2

instance (c : Chain) (i : Fin num) : Decidable (c.Has i) := inferInstanceAs (Decidable (_ ∨ _ ∨ _))

namespace Disk

variable (d : Disk β)

def setFree (i : Fin num) (x : Bool) : Disk β := { d with free := update d.free i x }

def setDesc (i : Fin num) (x : Desc β) : Disk β := { d with desc := update d.desc i x }

def setInfo (i : Fin num) (x : Info β) : Disk β := { d with info := update d.info i x }

def setDisk [DecidableEq β] (b : β) (x : Bool) : Disk β :=
  { d with disk := update d.disk b x }

def allocDesc : Option (Fin num) × Disk β :=
  match (List.finRange num).find? fun i => d.free i with
  | some i => (some i, d.setFree i false)
  | none => (none, d)

/-- `free_desc`; `none` for `panic("free_desc 2")`. -/
def freeDesc (i : Fin num) : Option (Disk β) :=
  if d.free i then none else some ((d.setDesc i ⟨.null, 0, 0, 0⟩).setFree i true)

/-- `free_chain`.  Each round frees one descriptor, so that the ninth would panic. -/
def freeChain : Nat → Disk β → Fin num → Option (Disk β)
  | 0, _, _ => none
  | fuel + 1, d, i =>
    let flag := (d.desc i).flags
    let nxt := (d.desc i).next
    match d.freeDesc i with
    | some d' => if flag &&& fNext ≠ 0 then freeChain fuel d' nxt else some d'
    | none => none

/-- `alloc3_desc`, with its loop written out; `none` when `free_desc` panics. -/
def alloc3Desc : Option (Option Chain × Disk β) :=
  match d.allocDesc with
  | (none, d₁) => some (none, d₁)
  | (some i0, d₁) =>
    match d₁.allocDesc with
    | (none, d₂) => (d₂.freeDesc i0).map fun d' => (none, d')
    | (some i1, d₂) =>
      match d₂.allocDesc with
      | (none, d₃) => ((d₃.freeDesc i0).bind fun d' => d'.freeDesc i1).map fun d' => (none, d')
      | (some i2, d₃) => some (some ⟨i0, i1, i2⟩, d₃)

def format [DecidableEq β] (b : β) (write : Bool) (c : Chain) : Disk β :=
  let d := d.setDesc c.i0 ⟨.op c.i0, 16, fNext, c.i1⟩
  let d := d.setDesc c.i1 ⟨.data b, 1024, (if write then 0 else fWrite) ||| fNext, c.i2⟩
  let d := d.setDesc c.i2 ⟨.status c.i0, 1, fWrite, 0⟩
  (d.setDisk b true).setInfo c.i0 ⟨some b, 0xff⟩

def finish (c : Chain) : Option (Disk β) :=
  freeChain num (d.setInfo c.i0 { d.info c.i0 with b := none }) c.i0

/-- The device has processed the chain of `h`: it writes the status where the last descriptor says,
and puts `h` into the ring. -/
def complete (h : Fin num) : Disk β :=
  let last := d.desc (d.desc (d.desc h).next).next
  let d :=
    match last.addr with
    | .status i => d.setInfo i { d.info i with status := 0 }
    | _ => d
  { d with used := (d.used.set h).advance }

end Disk

/-- The next line of a thread, in `virtio_disk_rw(b, write)`. -/
inductive Pc (β : Type) where
  | idle
  | lock (b : β) (write : Bool) -- acquire(&disk.vdisk_lock), also in sleep
  | alloc (b : β) (write : Bool) -- if(alloc3_desc(idx) == 0)
  | format (b : β) (write : Bool) (c : Chain)
  | ring (b : β) (c : Chain) -- disk.avail->ring[disk.avail->idx % NUM] = idx[0]
  | publish (b : β) (c : Chain) -- disk.avail->idx += 1
  | test (b : β) (c : Chain) -- while(b->disk == 1)
  | sleep (b : β) (c : Chain) -- acquire(&disk.vdisk_lock), in sleep
  | free (b : β) (c : Chain) -- disk.info[idx[0]].b = 0; free_chain(idx[0])
  | unlock (b : β) -- release(&disk.vdisk_lock)
  deriving DecidableEq

/-- The next line of `virtio_disk_intr`. -/
inductive IntrPc where
  | idle
  | loop -- while(disk.used_idx != disk.used->idx)
  | entry -- int id = disk.used->ring[disk.used_idx % NUM].id
  deriving DecidableEq

inductive Holder (θ : Type) where
  | thread (t : θ)
  | handler
  deriving DecidableEq

structure State (θ β : Type) where
  disk : Disk β
  pc : θ → Pc β
  intr : IntrPc
  -- vdisk_lock, and the sleep-locks of the buffers
  lock : Option (Holder θ)
  holder : β → Option θ
  -- the chains that the device has taken and not completed
  inflight : List (Fin num)
  panicked : Bool
  owner : Fin num → Option θ
  finished : θ → Bool

inductive Act (θ β : Type) where
  | acquire (t : θ) (b : β) -- acquiresleep(&b->lock)
  | release (t : θ) (b : β) -- releasesleep(&b->lock)
  | call (t : θ) (b : β) (write : Bool)
  | next (t : θ)
  | intr
  | handle
  | fetch
  | complete (h : Fin num)

namespace State

variable [DecidableEq θ] [DecidableEq β] (s : State θ β)

/-- Thread `t` goes to line `p`. -/
def goto (t : θ) (p : Pc β) : State θ β := { s with pc := update s.pc t p }

def panic : State θ β := { s with panicked := true }

def next (t : θ) : Option (State θ β) :=
  match s.pc t with
  | .idle => none
  | .lock b write =>
    if s.lock = none then some ({ s with lock := some (.thread t) }.goto t (.alloc b write)) else none
  | .alloc b write =>
    match s.disk.alloc3Desc with
    | none => some s.panic
    | some (none, d) => some ({ s with disk := d, lock := none }.goto t (.lock b write))
    | some (some c, d) => some ({ s with disk := d }.goto t (.format b write c))
  | .format b write c => some ({ s with disk := s.disk.format b write c }.goto t (.ring b c))
  | .ring b c =>
    some ({ s with disk := { s.disk with avail := s.disk.avail.set c.i0 } }.goto t (.publish b c))
  | .publish b c =>
    some ({ s with
      disk := { s.disk with avail := s.disk.avail.advance }
      owner := update s.owner c.i0 (some t)
      finished := update s.finished t false }.goto t (.test b c))
  | .test b c =>
    if s.disk.disk b then some ({ s with lock := none }.goto t (.sleep b c))
    else some (s.goto t (.free b c))
  | .sleep b c =>
    if s.lock = none then some ({ s with lock := some (.thread t) }.goto t (.test b c)) else none
  | .free b c =>
    match s.disk.finish c with
    | none => some s.panic
    | some d => some ({ s with disk := d }.goto t (.unlock b))
  | .unlock _ => some ({ s with lock := none }.goto t .idle)

def handle : Option (State θ β) :=
  match s.intr with
  | .idle => none
  | .loop =>
    if s.disk.used.seen = s.disk.used.idx then some { s with lock := none, intr := .idle }
    else some { s with intr := .entry }
  | .entry =>
    let id := s.disk.used.first
    match (s.disk.info id).b with
    | none => some s.panic
    | some b =>
      -- panic("virtio_disk_intr status")
      if (s.disk.info id).status ≠ 0 then some s.panic
      else
        some { s with
          disk := { s.disk.setDisk b false with used := s.disk.used.take }
          intr := .loop }

/-- The device looks for chains that it was given. -/
def fetch : Option (State θ β) :=
  if s.disk.avail.seen = s.disk.avail.idx then none
  else
    some { s with
      disk := { s.disk with avail := s.disk.avail.take }
      inflight := s.disk.avail.first :: s.inflight }

/-- The device completes a chain that it was given, once. -/
def complete (h : Fin num) : Option (State θ β) :=
  if h ∈ s.inflight then
    some { s with
      disk := s.disk.complete h
      inflight := s.inflight.erase h
      finished := match s.owner h with
        | some t => update s.finished t true
        | none => s.finished }
  else none

def step (a : Act θ β) : Option (State θ β) :=
  if s.panicked then none
  else
    match a with
    | .acquire t b =>
      if s.holder b = none then some { s with holder := update s.holder b (some t) } else none
    | .release t b =>
      if s.holder b = some t ∧ s.pc t = .idle then
        some { s with holder := update s.holder b none }
      else none
    | .call t b write =>
      if s.holder b = some t ∧ s.pc t = .idle then some (s.goto t (.lock b write)) else none
    | .next t => s.next t
    | .intr =>
      if s.lock = none then some { s with lock := some .handler, intr := .loop } else none
    | .handle => s.handle
    | .fetch => s.fetch
    | .complete h => s.complete h

end State

def diskMachine (θ β : Type) [DecidableEq θ] [DecidableEq β] :
    Machine (State θ β) (Act θ β) where
  step s a := s.step a

structure Init (s : State θ β) : Prop where
  pc : ∀ t, s.pc t = .idle
  intr : s.intr = .idle
  lock : s.lock = none
  free : ∀ i, s.disk.free i = true
  avail : s.disk.avail.idx = s.disk.avail.seen ∧ s.disk.avail.put = [] ∧ s.disk.avail.taken = []
  used : s.disk.used.idx = s.disk.used.seen ∧ s.disk.used.put = [] ∧ s.disk.used.taken = []
  inflight : s.inflight = []
  panicked : s.panicked = false

/-! ### The protocol of requests -/

def Pc.chain : Pc β → Option Chain
  | .format _ _ c | .ring _ c | .publish _ c | .test _ c | .sleep _ c | .free _ c => some c
  | _ => none

def Pc.waits : Pc β → Option (β × Chain)
  | .test b c | .sleep b c => some (b, c)
  | _ => none

def Pc.returning : Pc β → Bool
  | .free .. | .unlock _ => true
  | _ => false

/-- **The protocol of disk requests**: a descriptor belongs to one chain and is not free then; the
heads under way belong to calls that wait; `alloc3_desc` that fails changes no free descriptor; a
call returns after its chain is completed; a chain is taken when it is freed, and free afterwards;
each completion is seen once, in order. -/
structure DiskOk (s : State θ β) : Prop where
  noPanic : s.panicked = false
  distinct : ∀ t c, (s.pc t).chain = some c → c.i0 ≠ c.i1 ∧ c.i0 ≠ c.i2 ∧ c.i1 ≠ c.i2
  disjoint : ∀ t t' c c' i, (s.pc t).chain = some c → (s.pc t').chain = some c' →
    c.Has i → c'.Has i → t = t'
  taken : ∀ t c i, (s.pc t).chain = some c → c.Has i → s.disk.free i = false
  inflight : ∀ h ∈ s.inflight, ∃ t b c, (s.pc t).waits = some (b, c) ∧ c.i0 = h ∧
    (s.disk.desc c.i0).next = c.i1 ∧ (s.disk.desc c.i1).next = c.i2
  alloc : ∀ d, s.disk.alloc3Desc = some (none, d) → d.free = s.disk.free
  returns : ∀ t, (s.pc t).returning = true → s.finished t = true
  freed : ∀ t b c, s.pc t = .free b c → ∃ d, s.disk.finish c = some d ∧
    ∀ i, d.free i = true ↔ s.disk.free i = true ∨ c.Has i
  avail : ∃ rest, s.disk.avail.put = s.disk.avail.taken ++ rest ∧ rest.length ≤ num ∧
    s.disk.avail.idx = s.disk.avail.seen + BitVec.ofNat 16 rest.length
  used : ∃ rest, s.disk.used.put = s.disk.used.taken ++ rest ∧ rest.length ≤ num ∧
    s.disk.used.idx = s.disk.used.seen + BitVec.ofNat 16 rest.length

end Xv6.Virtio
