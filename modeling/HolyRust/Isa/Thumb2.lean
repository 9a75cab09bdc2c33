import HolyRust.Isa.Leaf

/-!
# Thumb-2 leaf code

The encodings of ARMv7-M that the Thumb-2 emitter produces.  Flags are not part
of the state: no instruction here reads them.
-/

namespace HolyRust
namespace Isa
namespace Thumb2

open Foundation

inductive Instr where
  | movs (d : Nat) (imm8 : BitVec 8)
  | movw (d : Nat) (imm16 : BitVec 16)
  | movt (d : Nat) (imm16 : BitVec 16)
  | str (t n : Nat) (imm5 : BitVec 5)
  | ldr (t n : Nat) (imm5 : BitVec 5)
  | adds (d n m : Nat)
  | subs (d n m : Nat)
  | movsReg (d m : Nat)
  | muls (dm n : Nat)
  | sdiv (d n m : Nat)
  | bx (m : Nat)
deriving DecidableEq, Repr

/-- The bits `lo .. lo + len - 1` of a halfword, as a number. -/
def field (hw : BitVec 16) (lo len : Nat) : Nat := (hw.extractLsb' lo len).toNat

/-- `imm4:i:imm3:imm8` of MOVW and MOVT. -/
def imm16 (hw1 hw2 : BitVec 16) : BitVec 16 :=
  hw1.extractLsb' 0 4 ++ hw1.extractLsb' 10 1 ++ hw2.extractLsb' 12 3 ++ hw2.extractLsb' 0 8

def decode16 (hw : BitVec 16) : Option Instr :=
  if hw.extractLsb' 11 5 = 0b00100#5 then some (.movs (field hw 8 3) (hw.extractLsb' 0 8))
  else if hw.extractLsb' 11 5 = 0b01100#5 then
    some (.str (field hw 0 3) (field hw 3 3) (hw.extractLsb' 6 5))
  else if hw.extractLsb' 11 5 = 0b01101#5 then
    some (.ldr (field hw 0 3) (field hw 3 3) (hw.extractLsb' 6 5))
  else if hw.extractLsb' 9 7 = 0b0001100#7 then
    some (.adds (field hw 0 3) (field hw 3 3) (field hw 6 3))
  else if hw.extractLsb' 9 7 = 0b0001101#7 then
    some (.subs (field hw 0 3) (field hw 3 3) (field hw 6 3))
  else if hw.extractLsb' 6 10 = 0b0000000000#10 then some (.movsReg (field hw 0 3) (field hw 3 3))
  else if hw.extractLsb' 6 10 = 0b0100001101#10 then some (.muls (field hw 0 3) (field hw 3 3))
  else if hw.extractLsb' 7 9 = 0b010001110#9 then some (.bx (field hw 3 4))
  else none

def decode32 (hw1 hw2 : BitVec 16) : Option Instr :=
  if hw1.extractLsb' 11 5 = 0b11110#5 ∧ hw1.extractLsb' 4 6 = 0b100100#6 ∧
      hw2.extractLsb' 15 1 = 0#1 then
    some (.movw (field hw2 8 4) (imm16 hw1 hw2))
  else if hw1.extractLsb' 11 5 = 0b11110#5 ∧ hw1.extractLsb' 4 6 = 0b101100#6 ∧
      hw2.extractLsb' 15 1 = 0#1 then
    some (.movt (field hw2 8 4) (imm16 hw1 hw2))
  else if hw1.extractLsb' 4 12 = 0b111110111001#12 ∧ hw2.extractLsb' 4 4 = 0b1111#4 then
    some (.sdiv (field hw2 8 4) (field hw1 0 4) (field hw2 0 4))
  else none

/-- The first five bits tell the 32-bit encodings apart. -/
def isWide (hw : BitVec 16) : Bool :=
  hw.extractLsb' 11 5 = 0b11101#5 || hw.extractLsb' 11 5 = 0b11110#5 ||
    hw.extractLsb' 11 5 = 0b11111#5

def decode : List (BitVec 16) -> Option (Instr × List (BitVec 16))
  | [] => none
  | hw :: rest =>
      if isWide hw then
        match rest with
        | [] => none
        | hw2 :: rest' => (decode32 hw hw2).map fun i => (i, rest')
      else
        (decode16 hw).map fun i => (i, rest)

theorem decode_narrow {hw : BitVec 16} (h : isWide hw = false) (rest : List (BitVec 16)) :
    decode (hw :: rest) = (decode16 hw).map fun i => (i, rest) := by
  unfold decode
  simp only [h, Bool.false_eq_true, if_false]

theorem decode_wide {hw : BitVec 16} (h : isWide hw = true) (hw2 : BitVec 16)
    (rest : List (BitVec 16)) :
    decode (hw :: hw2 :: rest) = (decode32 hw hw2).map fun i => (i, rest) := by
  unfold decode
  simp only [h, if_true]

/-- Signed division; a zero divisor gives 0, as the reset value of `DIV_0_TRP` has it. -/
def divide (x y : BitVec 32) : BitVec 32 := if y = 0#32 then 0#32 else x.sdiv y

def exec (bus : Bus (BitVec 32) (BitVec 32) σ) (i : Instr) (c : Core σ) : Flow σ :=
  match i with
  | .movs d imm8 => .next (c.set d (imm8.setWidth 32))
  | .movw d imm16 => .next (c.set d (imm16.setWidth 32))
  | .movt d imm16 => .next (c.set d (imm16 ++ (c.regs d).setWidth 16))
  | .str t n imm5 => .next (c.store bus (c.regs n + imm5.setWidth 32 * 4#32) (c.regs t))
  | .ldr t n imm5 => .next (c.load bus t (c.regs n + imm5.setWidth 32 * 4#32))
  | .adds d n m => .next (c.set d (c.regs n + c.regs m))
  | .subs d n m => .next (c.set d (c.regs n - c.regs m))
  | .movsReg d m => .next (c.set d (c.regs m))
  | .muls dm n => .next (c.set dm (c.regs dm * c.regs n))
  | .sdiv d n m => .next (c.set d (divide (c.regs n) (c.regs m)))
  -- r14 still holds the return address of the caller
  | .bx m => if m = 14 then .ret c else .away

def leaf : Leaf (BitVec 16) Instr where
  decode := decode
  exec := exec

end Thumb2
end Isa
end HolyRust
