import HolyRust.Foundation.Memory

/-!
# Buses and access traces

A bus answers word accesses.  Its state is arbitrary and a read may change it,
so a bus stands for plain memory as well as for device registers.  Programs
that talk to a bus are compared by the accesses they make, in order.
-/

namespace HolyRust
namespace Foundation

/-- One word access as seen on the bus. -/
inductive Access (address data : Type) where
  | read (a : address)
  | write (a : address) (v : data)
deriving DecidableEq, Repr

namespace Access

/-- The address of an access. -/
def address : Access α β -> α
  | .read a => a
  | .write a _ => a

@[simp] theorem address_read (a : α) :
    (Access.read a : Access α β).address = a := rfl

@[simp] theorem address_write (a : α) (v : β) :
    (Access.write a v : Access α β).address = a := rfl

end Access

/-- What answers the accesses: the value of a read and the effect of both. -/
structure Bus (address data state : Type) where
  load : state -> address -> data × state
  store : state -> address -> data -> state

namespace Bus

/-- A bus that answers every read with the same value and forgets writes. -/
def constant (v : data) : Bus address data Unit where
  load := fun _ _ => (v, ())
  store := fun _ _ _ => ()

/-- Plain memory as a bus. -/
def ram (w : Nat) : Bus (BitVec w) (BitVec 32) (Memory w) where
  load := fun m a => (m.read32 a, m)
  store := fun m a v => m.write32 a v

@[simp] theorem ram_load (m : Memory w) (a : BitVec w) :
    (ram w).load m a = (m.read32 a, m) := rfl

@[simp] theorem ram_store (m : Memory w) (a : BitVec w) (v : BitVec 32) :
    (ram w).store m a v = m.write32 a v := rfl

end Bus

/-!
## Traces over plain memory
-/

/-- Where the writes of a trace go. -/
def storeAddrs (trace : List (Access α β)) : List α :=
  trace.filterMap fun
    | .read _ => none
    | .write a _ => some a

/-- The effect of one access on memory. -/
def Memory.access (m : Memory w) : Access (BitVec w) (BitVec 32) -> Memory w
  | .read _ => m
  | .write a v => m.write32 a v

/-- The effect of a trace, first access first. -/
def Memory.perform (m : Memory w) (trace : List (Access (BitVec w) (BitVec 32))) : Memory w :=
  trace.foldl Memory.access m

theorem Memory.sameWindow_perform {lo hi : Nat} (m : Memory w)
    {trace : List (Access (BitVec w) (BitVec 32))} (hwrap : 4 ≤ lo) (hfits : hi ≤ 2 ^ w)
    (h : forall a, a ∈ storeAddrs trace -> Misses lo hi a) :
    SameWindow lo hi (m.perform trace) m := by
  induction trace generalizing m with
  | nil => exact SameWindow.refl lo hi m
  | cons access trace ih =>
      cases access with
      | read a => exact ih m h
      | write a v =>
          have htail := ih (m.write32 a v) fun b hb => h b (List.mem_cons_of_mem _ hb)
          have hhead : Misses lo hi a := h a List.mem_cons_self
          exact htail.trans fun b hlo hhi => write32_misses m v hhead hwrap hfits hlo hhi

end Foundation
end HolyRust
