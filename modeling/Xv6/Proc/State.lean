import Xv6.Params

/-!
# States of processes and threads (`kernel/proc.h`)
-/

namespace Xv6

instance : NeZero nproc := ⟨by decide⟩
instance : NeZero ncpu := ⟨by decide⟩
instance : NeZero nthread := ⟨by decide⟩
instance : NeZero nofile := ⟨by decide⟩
instance : NeZero signalsSize := ⟨by decide⟩

inductive ProcState where
  | unused | used | sleeping | runnable | running | zombie
  deriving DecidableEq

end Xv6
