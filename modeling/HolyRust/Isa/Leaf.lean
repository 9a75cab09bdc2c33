import HolyRust.Foundation.Bus

/-!
# Leaf routines

Straight-line code that works on registers and a bus and ends with a return.
An instruction set is a decoder and the effect of each instruction; the code is
a buffer of units (halfwords or words) that is read from its start.
-/

namespace HolyRust
namespace Isa

open Foundation

/-- Registers, bus and the accesses made so far. -/
structure Core (σ : Type) where
  regs : Nat -> BitVec 32
  bus : σ
  trace : List (Access (BitVec 32) (BitVec 32))

namespace Core

def set (c : Core σ) (r : Nat) (x : BitVec 32) : Core σ :=
  { c with regs := fun r' => if r' = r then x else c.regs r' }

/-- Load the word at `addr` into `d`. -/
def load (bus : Bus (BitVec 32) (BitVec 32) σ) (c : Core σ) (d : Nat) (addr : BitVec 32) :
    Core σ :=
  let c' : Core σ := { c with
    bus := (bus.load c.bus addr).2
    trace := c.trace ++ [.read addr] }
  c'.set d (bus.load c.bus addr).1

def store (bus : Bus (BitVec 32) (BitVec 32) σ) (c : Core σ) (addr x : BitVec 32) : Core σ :=
  { c with
    bus := bus.store c.bus addr x
    trace := c.trace ++ [.write addr x] }

@[simp] theorem set_regs (c : Core σ) (r r' : Nat) (x : BitVec 32) :
    (c.set r x).regs r' = if r' = r then x else c.regs r' := rfl

@[simp] theorem set_bus (c : Core σ) (r : Nat) (x : BitVec 32) : (c.set r x).bus = c.bus := rfl

@[simp] theorem set_trace (c : Core σ) (r : Nat) (x : BitVec 32) :
    (c.set r x).trace = c.trace := rfl

theorem set_set (c : Core σ) (r : Nat) (x y : BitVec 32) :
    (c.set r x).set r y = c.set r y := by
  unfold set
  congr 1
  funext r'
  by_cases h : r' = r
  · simp only [h, if_true]
  · simp only [h, if_false]

end Core

/-- What an instruction does to control; a jump other than the return leaves
the routine. -/
inductive Flow (σ : Type) where
  | next (c : Core σ)
  | ret (c : Core σ)
  | away

/-- A decoder and the effect of each instruction. -/
structure Leaf (unit instr : Type) where
  decode : List unit -> Option (instr × List unit)
  exec : {σ : Type} -> Bus (BitVec 32) (BitVec 32) σ -> instr -> Core σ -> Flow σ

/-- Run a buffer for at most `fuel` instructions; `none` when a unit does not
decode or control does not come to a return. -/
def Leaf.run (isa : Leaf unit instr) (bus : Bus (BitVec 32) (BitVec 32) σ) :
    Nat -> List unit -> Core σ -> Option (Core σ)
  | 0, _, _ => none
  | fuel + 1, code, c =>
      match isa.decode code with
      | none => none
      | some (i, rest) =>
          match isa.exec bus i c with
          | .next c' => isa.run bus fuel rest c'
          | .ret c' => some c'
          | .away => none

theorem Leaf.run_next {isa : Leaf unit instr} {bus : Bus (BitVec 32) (BitVec 32) σ}
    {fuel : Nat} {code rest : List unit} {c c' : Core σ} {i : instr}
    (hdecode : isa.decode code = some (i, rest)) (hexec : isa.exec bus i c = .next c') :
    isa.run bus (fuel + 1) code c = isa.run bus fuel rest c' := by
  rw [Leaf.run, hdecode]
  simp only [hexec]

theorem Leaf.run_ret {isa : Leaf unit instr} {bus : Bus (BitVec 32) (BitVec 32) σ}
    {fuel : Nat} {code rest : List unit} {c c' : Core σ} {i : instr}
    (hdecode : isa.decode code = some (i, rest)) (hexec : isa.exec bus i c = .ret c') :
    isa.run bus (fuel + 1) code c = some c' := by
  rw [Leaf.run, hdecode]
  simp only [hexec]

end Isa
end HolyRust
