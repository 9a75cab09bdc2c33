import HolyRust.Isa.Leaf

/-!
# RV32IM leaf code

The encodings of RV32IM that the RISC-V emitter produces.
-/

namespace HolyRust
namespace Isa
namespace Rv32

open Foundation

inductive Instr where
  | lui (d : Nat) (imm20 : BitVec 20)
  | addi (d s : Nat) (imm12 : BitVec 12)
  | sw (s2 s1 : Nat) (imm12 : BitVec 12)
  | lw (d s1 : Nat) (imm12 : BitVec 12)
  | add (d s1 s2 : Nat)
  | sub (d s1 s2 : Nat)
  | mul (d s1 s2 : Nat)
  | div (d s1 s2 : Nat)
  | jalr (d s1 : Nat) (imm12 : BitVec 12)
deriving DecidableEq, Repr

def rd (w : BitVec 32) : Nat := (w.extractLsb' 7 5).toNat

def rs1 (w : BitVec 32) : Nat := (w.extractLsb' 15 5).toNat

def rs2 (w : BitVec 32) : Nat := (w.extractLsb' 20 5).toNat

def decodeOp (w : BitVec 32) : Option Instr :=
  if w.extractLsb' 25 7 = 0b0000000#7 ∧ w.extractLsb' 12 3 = 0b000#3 then
    some (.add (rd w) (rs1 w) (rs2 w))
  else if w.extractLsb' 25 7 = 0b0100000#7 ∧ w.extractLsb' 12 3 = 0b000#3 then
    some (.sub (rd w) (rs1 w) (rs2 w))
  else if w.extractLsb' 25 7 = 0b0000001#7 ∧ w.extractLsb' 12 3 = 0b000#3 then
    some (.mul (rd w) (rs1 w) (rs2 w))
  else if w.extractLsb' 25 7 = 0b0000001#7 ∧ w.extractLsb' 12 3 = 0b100#3 then
    some (.div (rd w) (rs1 w) (rs2 w))
  else none

def decodeWord (w : BitVec 32) : Option Instr :=
  if w.extractLsb' 0 7 = 0b0110111#7 then some (.lui (rd w) (w.extractLsb' 12 20))
  else if w.extractLsb' 0 7 = 0b0010011#7 ∧ w.extractLsb' 12 3 = 0b000#3 then
    some (.addi (rd w) (rs1 w) (w.extractLsb' 20 12))
  else if w.extractLsb' 0 7 = 0b0100011#7 ∧ w.extractLsb' 12 3 = 0b010#3 then
    some (.sw (rs2 w) (rs1 w) (w.extractLsb' 25 7 ++ w.extractLsb' 7 5))
  else if w.extractLsb' 0 7 = 0b0000011#7 ∧ w.extractLsb' 12 3 = 0b010#3 then
    some (.lw (rd w) (rs1 w) (w.extractLsb' 20 12))
  else if w.extractLsb' 0 7 = 0b1100111#7 ∧ w.extractLsb' 12 3 = 0b000#3 then
    some (.jalr (rd w) (rs1 w) (w.extractLsb' 20 12))
  else if w.extractLsb' 0 7 = 0b0110011#7 then decodeOp w
  else none

def decode : List (BitVec 32) -> Option (Instr × List (BitVec 32))
  | [] => none
  | w :: rest => (decodeWord w).map fun i => (i, rest)

theorem decode_cons (w : BitVec 32) (rest : List (BitVec 32)) :
    decode (w :: rest) = (decodeWord w).map fun i => (i, rest) := rfl

/-- `x0` reads as zero. -/
def read (c : Core σ) (r : Nat) : BitVec 32 := if r = 0 then 0#32 else c.regs r

/-- Division by zero gives all ones, the one overflow the dividend. -/
def divide (x y : BitVec 32) : BitVec 32 := if y = 0#32 then -1#32 else x.sdiv y

def exec (bus : Bus (BitVec 32) (BitVec 32) σ) (i : Instr) (c : Core σ) : Flow σ :=
  match i with
  | .lui d imm20 => .next (c.set d (imm20 ++ 0#12))
  | .addi d s imm12 => .next (c.set d (read c s + imm12.signExtend 32))
  | .sw s2 s1 imm12 => .next (c.store bus (read c s1 + imm12.signExtend 32) (read c s2))
  | .lw d s1 imm12 => .next (c.load bus d (read c s1 + imm12.signExtend 32))
  | .add d s1 s2 => .next (c.set d (read c s1 + read c s2))
  | .sub d s1 s2 => .next (c.set d (read c s1 - read c s2))
  | .mul d s1 s2 => .next (c.set d (read c s1 * read c s2))
  | .div d s1 s2 => .next (c.set d (divide (read c s1) (read c s2)))
  -- x1 still holds the return address of the caller
  | .jalr d s1 imm12 => if d = 0 ∧ s1 = 1 ∧ imm12 = 0#12 then .ret c else .away

def leaf : Leaf (BitVec 32) Instr where
  decode := decode
  exec := exec

end Rv32
end Isa
end HolyRust
