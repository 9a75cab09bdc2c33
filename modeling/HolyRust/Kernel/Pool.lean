import HolyRust.Platform

/-!
# Memory pools

Four bump allocators, one for each task, over the 8 KiB that the link map carves
out below the task stacks.  Sizes are machine words: the bounds check adds and
wraps.
-/

namespace HolyRust
namespace Kernel

def poolSize : Nat := 8192

def numPools : Nat := 4

def taskPoolSize : Nat := poolSize / numPools

/-- `_heap_pool_base`. -/
def heapPoolBase : Word := 0x2000C800#32

inductive PoolError where
  | badTask
  | full
  | badAlign
deriving DecidableEq, Repr

/-- `OFFSETS`. -/
abbrev PoolOffsets : Type := Fin numPools -> Word

namespace PoolOffsets

def zero : PoolOffsets := fun _ => 0#32

def put (offsets : PoolOffsets) (task : Fin numPools) (off : Word) : PoolOffsets :=
  fun i => if i = task then off else offsets i

/-- The address of a new block of `size` bytes. -/
def alloc (task : Nat) (size : Word) (offsets : PoolOffsets) :
    Except PoolError (Word × PoolOffsets) :=
  if h : task < numPools then
    let off := offsets ⟨task, h⟩
    let addr := heapPoolBase + BitVec.ofNat 32 (task * taskPoolSize) + off
    if taskPoolSize < (off + size).toNat then .error .full
    else .ok (addr, offsets.put ⟨task, h⟩ (off + size))
  else
    .error .badTask

def reset (task : Nat) (offsets : PoolOffsets) : Except PoolError PoolOffsets :=
  if h : task < numPools then .ok (offsets.put ⟨task, h⟩ 0#32) else .error .badTask

def remaining (task : Nat) (offsets : PoolOffsets) : Except PoolError Word :=
  if h : task < numPools then .ok (BitVec.ofNat 32 taskPoolSize - offsets ⟨task, h⟩)
  else .error .badTask

end PoolOffsets

end Kernel
end HolyRust
