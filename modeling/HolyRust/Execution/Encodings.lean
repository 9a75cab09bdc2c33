import HolyRust.Execution.NativeBlocks
import Mathlib.Tactic.IntervalCases

/-!
# Encodings read back

What the two instruction sets make of the units that `emitter.rs` encodes, for
every register the emitters accept.  The short Thumb formats and the RV32
formats are first written as the concatenation of their fields; a decoder then
finds the fields where they are.
-/

namespace HolyRust
namespace Execution

open Foundation
open Compilation
open Isa

/-- A register number that fits a field is the field, widened. -/
theorem exists_setWidth {r : RegNo} {k : Nat} (h : r.toNat < 2 ^ k) :
    exists q : BitVec k, q.setWidth 8 = r := by
  refine ⟨r.setWidth k, ?_⟩
  apply BitVec.eq_of_toNat_eq
  rw [BitVec.toNat_setWidth, BitVec.toNat_setWidth, Nat.mod_eq_of_lt h, Nat.mod_eq_of_lt r.isLt]

theorem toNat_setWidth_eight {k : Nat} (hk : k ≤ 8) (q : BitVec k) :
    (q.setWidth 8).toNat = q.toNat := by
  rw [BitVec.toNat_setWidth]
  exact Nat.mod_eq_of_lt (Nat.lt_of_lt_of_le q.isLt (Nat.pow_le_pow_right (by decide) hk))

/-!
## Short Thumb formats
-/

section Narrow

/-- Five opcode bits, five more, and two registers. -/
def narrow (op x : BitVec 5) (n d : BitVec 3) : Half := op ++ x ++ n ++ d

variable (op x : BitVec 5) (n d : BitVec 3)

/-- The bits above the two registers. -/
theorem narrow_above (k w : Nat) :
    (narrow op x n d).extractLsb' (k + 6) w = (op ++ x).extractLsb' k w := by
  unfold narrow
  rw [BitVec.extractLsb'_append_eq_of_le (by lia), BitVec.extractLsb'_append_eq_of_le (by lia),
    Nat.sub_sub, Nat.add_sub_cancel]

theorem narrow_op : (narrow op x n d).extractLsb' 11 5 = op := by
  rw [narrow_above op x n d 5]
  exact BitVec.extractLsb'_append_eq_left

theorem narrow_x : (narrow op x n d).extractLsb' 6 5 = x := by
  rw [narrow_above op x n d 0]
  exact BitVec.extractLsb'_append_eq_right

theorem narrow_n : (narrow op x n d).extractLsb' 3 3 = n := by
  unfold narrow
  rw [BitVec.extractLsb'_append_eq_of_le (by decide)]
  exact BitVec.extractLsb'_append_eq_right

theorem narrow_d : (narrow op x n d).extractLsb' 0 3 = d :=
  BitVec.extractLsb'_append_eq_right

theorem narrow_seven : (narrow op x n d).extractLsb' 9 7 = op ++ x.extractLsb' 3 2 := by
  have hspan : (op ++ x).extractLsb' 5 5 ++ (op ++ x).extractLsb' 3 2 =
      (op ++ x).extractLsb' 3 7 :=
    BitVec.extractLsb'_append_extractLsb'_eq_extractLsb' rfl
  rw [narrow_above op x n d 3, ← hspan, BitVec.extractLsb'_append_eq_left,
    BitVec.extractLsb'_append_eq_of_add_le (by decide)]

theorem narrow_ten : (narrow op x n d).extractLsb' 6 10 = op ++ x := by
  rw [narrow_above op x n d 0]
  exact BitVec.extractLsb'_eq_self

/-- The opcode bits of a short format are not those of a long one. -/
theorem decode_narrow_format {i : Thumb2.Instr} (hwide : op.toNat < 29)
    (h : Thumb2.decode16 (narrow op x n d) = some i) (rest : List Half) :
    Thumb2.decode (narrow op x n d :: rest) = some (i, rest) := by
  have hnarrow : Thumb2.isWide (narrow op x n d) = false := by
    unfold Thumb2.isWide
    rw [narrow_op]
    simp only [Bool.or_eq_false_iff, decide_eq_false_iff_not]
    refine ⟨⟨?_, ?_⟩, ?_⟩ <;> rintro rfl <;> exact absurd hwide (by decide)
  rw [Thumb2.decode_narrow hnarrow, h]
  rfl

theorem decode16_str : Thumb2.decode16 (narrow 0b01100#5 x n d) =
    some (.str d.toNat n.toNat x) := by
  unfold Thumb2.decode16 Thumb2.field
  rw [narrow_op, narrow_n, narrow_d, narrow_x, if_neg (by decide), if_pos rfl]

theorem decode16_ldr : Thumb2.decode16 (narrow 0b01101#5 x n d) =
    some (.ldr d.toNat n.toNat x) := by
  unfold Thumb2.decode16 Thumb2.field
  rw [narrow_op, narrow_n, narrow_d, narrow_x, if_neg (by decide), if_neg (by decide),
    if_pos rfl]

theorem narrow_m (y : BitVec 2) (m : BitVec 3) :
    (narrow op (y ++ m) n d).extractLsb' 6 3 = m := by
  rw [narrow_above op (y ++ m) n d 0, BitVec.extractLsb'_append_eq_of_add_le (by decide)]
  exact BitVec.extractLsb'_append_eq_right

theorem decode16_adds (m : BitVec 3) : Thumb2.decode16 (narrow 0b00011#5 (0b00#2 ++ m) n d) =
    some (.adds d.toNat n.toNat m.toNat) := by
  have hseven : (narrow 0b00011#5 (0b00#2 ++ m) n d).extractLsb' 9 7 = 0b0001100#7 := by
    rw [narrow_seven, BitVec.extractLsb'_append_eq_left]
    rfl
  unfold Thumb2.decode16 Thumb2.field
  rw [narrow_op, narrow_n, narrow_d, narrow_m, hseven, if_neg (by decide), if_neg (by decide),
    if_neg (by decide), if_pos rfl]

theorem decode16_subs (m : BitVec 3) : Thumb2.decode16 (narrow 0b00011#5 (0b01#2 ++ m) n d) =
    some (.subs d.toNat n.toNat m.toNat) := by
  have hseven : (narrow 0b00011#5 (0b01#2 ++ m) n d).extractLsb' 9 7 = 0b0001101#7 := by
    rw [narrow_seven, BitVec.extractLsb'_append_eq_left]
    rfl
  unfold Thumb2.decode16 Thumb2.field
  rw [narrow_op, narrow_n, narrow_d, narrow_m, hseven, if_neg (by decide), if_neg (by decide),
    if_neg (by decide), if_neg (by decide), if_pos rfl]

theorem decode16_movsReg : Thumb2.decode16 (narrow 0b00000#5 0b00000#5 n d) =
    some (.movsReg d.toNat n.toNat) := by
  unfold Thumb2.decode16 Thumb2.field
  rw [narrow_op, narrow_n, narrow_d, narrow_seven, narrow_ten, if_neg (by decide),
    if_neg (by decide), if_neg (by decide), if_neg (by decide), if_neg (by decide),
    if_pos (by decide)]

theorem decode16_muls : Thumb2.decode16 (narrow 0b01000#5 0b01101#5 n d) =
    some (.muls d.toNat n.toNat) := by
  unfold Thumb2.decode16 Thumb2.field
  rw [narrow_op, narrow_n, narrow_d, narrow_seven, narrow_ten, if_neg (by decide),
    if_neg (by decide), if_neg (by decide), if_neg (by decide), if_neg (by decide),
    if_neg (by decide), if_pos (by decide)]

end Narrow

/-!
The units as the emitter computes them.
-/

section NarrowUnits

variable (d n m : BitVec 3)

theorem narrow_memory (op x : BitVec 5) (opcode : Half) (hop : opcode = op ++ 0#11) :
    opcode ||| ((x.setWidth 32).setWidth 16 <<< 6) ||| ((n.setWidth 8).setWidth 16 <<< 3) |||
      (d.setWidth 8).setWidth 16 = narrow op x n d := by
  subst hop
  unfold narrow
  apply BitVec.eq_of_getLsbD_eq
  intro i hi
  simp only [BitVec.getLsbD_or, BitVec.getLsbD_append, BitVec.getLsbD_shiftLeft,
    BitVec.getLsbD_setWidth]
  interval_cases i <;> simp

theorem narrow_three (y : BitVec 2) (opcode : Half) (hop : opcode = 0b00011#5 ++ y ++ 0#9) :
    opcode ||| ((m.setWidth 8).setWidth 16 <<< 6) ||| ((n.setWidth 8).setWidth 16 <<< 3) |||
      (d.setWidth 8).setWidth 16 = narrow 0b00011#5 (y ++ m) n d := by
  subst hop
  unfold narrow
  apply BitVec.eq_of_getLsbD_eq
  intro i hi
  simp only [BitVec.getLsbD_or, BitVec.getLsbD_append, BitVec.getLsbD_shiftLeft,
    BitVec.getLsbD_setWidth]
  interval_cases i <;> simp

theorem narrow_two (op x : BitVec 5) (opcode : Half) (hop : opcode = op ++ x ++ 0#6) :
    opcode ||| ((n.setWidth 8).setWidth 16 <<< 3) ||| (d.setWidth 8).setWidth 16 =
      narrow op x n d := by
  subst hop
  unfold narrow
  apply BitVec.eq_of_getLsbD_eq
  intro i hi
  simp only [BitVec.getLsbD_or, BitVec.getLsbD_append, BitVec.getLsbD_shiftLeft,
    BitVec.getLsbD_setWidth]
  interval_cases i <;> simp

end NarrowUnits

/-!
## Immediates on Thumb-2
-/

section ThumbImmediates

def movsUnit (r : RegNo) (imm : Word) : Half :=
  0x2000#16 ||| (r.setWidth 16 <<< 8) ||| (imm.setWidth 16 &&& 0xFF#16)

theorem movsUnit_opcode (q : BitVec 3) (imm : Word) :
    (movsUnit (q.setWidth 8) imm).extractLsb' 11 5 = 0b00100#5 := by
  unfold movsUnit
  ext i hi
  interval_cases i <;> simp

theorem movsUnit_reg (q : BitVec 3) (imm : Word) :
    (movsUnit (q.setWidth 8) imm).extractLsb' 8 3 = q := by
  unfold movsUnit
  ext i hi
  interval_cases i <;> simp

theorem movsUnit_imm (q : BitVec 3) (imm : Word) :
    (movsUnit (q.setWidth 8) imm).extractLsb' 0 8 = imm.setWidth 8 := by
  unfold movsUnit
  ext i hi
  interval_cases i <;> simp

theorem decode_movsUnit {r : RegNo} (hr : r < 8#8) (imm : Word) (rest : List Half) :
    Thumb2.decode (movsUnit r imm :: rest) = some (.movs r.toNat (imm.setWidth 8), rest) := by
  obtain ⟨q, rfl⟩ := exists_setWidth (k := 3) (r := r) hr
  have hwide : Thumb2.isWide (movsUnit (q.setWidth 8) imm) = false := by
    unfold Thumb2.isWide
    rw [movsUnit_opcode]
    decide
  rw [Thumb2.decode_narrow hwide]
  unfold Thumb2.decode16 Thumb2.field
  rw [if_pos (movsUnit_opcode q imm), movsUnit_reg, movsUnit_imm,
    toNat_setWidth_eight (by decide)]
  rfl

theorem setWidth_of_le {imm : Word} (h : imm ≤ 0xFF#32) : (imm.setWidth 8).setWidth 32 = imm := by
  apply BitVec.eq_of_toNat_eq
  have hle : imm.toNat ≤ 255 := h
  simp only [BitVec.toNat_setWidth]
  lia

/-!
The halfwords of MOVW and MOVT differ in one opcode bit.
-/

theorem movw_opcode (r : RegNo) (imm : Word) :
    (encodeMovw r imm).1.extractLsb' 11 5 = 0b11110#5 ∧
      (encodeMovw r imm).1.extractLsb' 4 6 = 0b100100#6 := by
  unfold encodeMovw
  constructor <;> ext i hi <;> interval_cases i <;> simp

theorem movt_opcode (r : RegNo) (imm : Word) :
    (encodeMovt r imm).1.extractLsb' 11 5 = 0b11110#5 ∧
      (encodeMovt r imm).1.extractLsb' 4 6 = 0b101100#6 := by
  unfold encodeMovt
  constructor <;> ext i hi <;> interval_cases i <;> simp

theorem movw_imm (r : RegNo) (imm : Word) :
    Thumb2.imm16 (encodeMovw r imm).1 (encodeMovw r imm).2 = imm.setWidth 16 := by
  unfold Thumb2.imm16 encodeMovw
  ext i hi
  simp only [BitVec.getElem_append, BitVec.getElem_extractLsb', BitVec.getLsbD_or,
    BitVec.getLsbD_and, BitVec.getLsbD_shiftLeft, BitVec.getLsbD_setWidth,
    BitVec.getLsbD_ushiftRight]
  interval_cases i <;> simp

theorem movt_imm (r : RegNo) (imm : Word) :
    Thumb2.imm16 (encodeMovt r imm).1 (encodeMovt r imm).2 = (imm >>> 16).setWidth 16 := by
  unfold Thumb2.imm16 encodeMovt
  ext i hi
  simp only [BitVec.getElem_append, BitVec.getElem_extractLsb', BitVec.getLsbD_or,
    BitVec.getLsbD_and, BitVec.getLsbD_shiftLeft, BitVec.getLsbD_setWidth,
    BitVec.getLsbD_ushiftRight]
  interval_cases i <;> simp

theorem movw_second (r : RegNo) (imm : Word) :
    (encodeMovw r imm).2.extractLsb' 15 1 = 0#1 ∧
      (encodeMovw r imm).2.extractLsb' 8 4 = r.setWidth 4 := by
  unfold encodeMovw
  constructor <;> ext i hi <;> interval_cases i <;> simp

theorem movt_second (r : RegNo) (imm : Word) :
    (encodeMovt r imm).2.extractLsb' 15 1 = 0#1 ∧
      (encodeMovt r imm).2.extractLsb' 8 4 = r.setWidth 4 := by
  unfold encodeMovt
  constructor <;> ext i hi <;> interval_cases i <;> simp

theorem field_of_setWidth {hw : Half} {r : RegNo} (hr : ¬ 15#8 < r)
    (h : hw.extractLsb' 8 4 = r.setWidth 4) : Thumb2.field hw 8 4 = r.toNat := by
  have hle : r.toNat ≤ 15 := Nat.not_lt.mp hr
  unfold Thumb2.field
  rw [h, BitVec.toNat_setWidth]
  lia

theorem decode_movw {r : RegNo} (hr : ¬ 15#8 < r) (imm : Word) (rest : List Half) :
    Thumb2.decode ((encodeMovw r imm).1 :: (encodeMovw r imm).2 :: rest) =
      some (.movw r.toNat (imm.setWidth 16), rest) := by
  have hopcode := movw_opcode r imm
  have hsecond := movw_second r imm
  have hwide : Thumb2.isWide (encodeMovw r imm).1 = true := by
    unfold Thumb2.isWide
    rw [hopcode.left]
    decide
  rw [Thumb2.decode_wide hwide]
  unfold Thumb2.decode32
  rw [if_pos ⟨hopcode.left, hopcode.right, hsecond.left⟩, movw_imm,
    field_of_setWidth hr hsecond.right]
  rfl

theorem decode_movt {r : RegNo} (hr : ¬ 15#8 < r) (imm : Word) (rest : List Half) :
    Thumb2.decode ((encodeMovt r imm).1 :: (encodeMovt r imm).2 :: rest) =
      some (.movt r.toNat ((imm >>> 16).setWidth 16), rest) := by
  have hopcode := movt_opcode r imm
  have hsecond := movt_second r imm
  have hwide : Thumb2.isWide (encodeMovt r imm).1 = true := by
    unfold Thumb2.isWide
    rw [hopcode.left]
    decide
  have hmovw : (encodeMovt r imm).1.extractLsb' 4 6 ≠ 0b100100#6 := by
    rw [hopcode.right]
    decide
  rw [Thumb2.decode_wide hwide]
  unfold Thumb2.decode32
  rw [if_neg (fun h => hmovw h.right.left),
    if_pos ⟨hopcode.left, hopcode.right, hsecond.left⟩, movt_imm,
    field_of_setWidth hr hsecond.right]
  rfl

/-- The low half stays and the high half comes on top. -/
theorem movt_value (imm : Word) :
    (imm >>> 16).setWidth 16 ++ ((imm.setWidth 16).setWidth 32).setWidth 16 = imm := by
  ext i hi
  rw [BitVec.getElem_append]
  by_cases h : i < 16
  · simp [h, BitVec.getLsbD_eq_getElem hi]
  · simp [h, show 16 + (i - 16) = i by lia, BitVec.getLsbD_eq_getElem hi]

theorem movw_value {imm : Word} (h : imm >>> 16 = 0#32) : (imm.setWidth 16).setWidth 32 = imm := by
  have hnat : imm.toNat / 65536 = 0 := by
    have hshift := congrArg BitVec.toNat h
    rw [BitVec.toNat_ushiftRight, Nat.shiftRight_eq_div_pow] at hshift
    exact hshift
  apply BitVec.eq_of_toNat_eq
  simp only [BitVec.toNat_setWidth]
  lia

end ThumbImmediates

/-!
## RV32 formats
-/

section RvFormats

/-- The fields of the R, I and S formats; an immediate takes two of them. -/
def rvWord (f7 : BitVec 7) (s2 s1 : BitVec 5) (f3 : BitVec 3) (d : BitVec 5) (op : BitVec 7) :
    Word := f7 ++ s2 ++ s1 ++ f3 ++ d ++ op

variable (f7 : BitVec 7) (s2 s1 : BitVec 5) (f3 : BitVec 3) (d : BitVec 5) (op : BitVec 7)

/-- The bits above the opcode and the destination. -/
theorem rvWord_above (k w : Nat) : (rvWord f7 s2 s1 f3 d op).extractLsb' (k + 12) w =
    (f7 ++ s2 ++ s1 ++ f3).extractLsb' k w := by
  unfold rvWord
  rw [BitVec.extractLsb'_append_eq_of_le (by lia), BitVec.extractLsb'_append_eq_of_le (by lia),
    Nat.sub_sub, Nat.add_sub_cancel]

/-- The bits of a long immediate. -/
theorem rvWord_top (k w : Nat) : (rvWord f7 s2 s1 f3 d op).extractLsb' (k + 20) w =
    (f7 ++ s2).extractLsb' k w := by
  rw [rvWord_above f7 s2 s1 f3 d op (k + 8), BitVec.extractLsb'_append_eq_of_le (by lia),
    BitVec.extractLsb'_append_eq_of_le (by lia), Nat.sub_sub, Nat.add_sub_cancel]

theorem rvWord_op : (rvWord f7 s2 s1 f3 d op).extractLsb' 0 7 = op :=
  BitVec.extractLsb'_append_eq_right

theorem rvWord_d : (rvWord f7 s2 s1 f3 d op).extractLsb' 7 5 = d := by
  unfold rvWord
  rw [BitVec.extractLsb'_append_eq_of_le (by decide)]
  exact BitVec.extractLsb'_append_eq_right

theorem rvWord_f3 : (rvWord f7 s2 s1 f3 d op).extractLsb' 12 3 = f3 := by
  rw [rvWord_above f7 s2 s1 f3 d op 0]
  exact BitVec.extractLsb'_append_eq_right

theorem rvWord_s1 : (rvWord f7 s2 s1 f3 d op).extractLsb' 15 5 = s1 := by
  rw [rvWord_above f7 s2 s1 f3 d op 3, BitVec.extractLsb'_append_eq_of_le (by decide)]
  exact BitVec.extractLsb'_append_eq_right

theorem rvWord_s2 : (rvWord f7 s2 s1 f3 d op).extractLsb' 20 5 = s2 := by
  rw [rvWord_top f7 s2 s1 f3 d op 0]
  exact BitVec.extractLsb'_append_eq_right

theorem rvWord_f7 : (rvWord f7 s2 s1 f3 d op).extractLsb' 25 7 = f7 := by
  rw [rvWord_top f7 s2 s1 f3 d op 5]
  exact BitVec.extractLsb'_append_eq_left

theorem rvWord_imm : (rvWord f7 s2 s1 f3 d op).extractLsb' 20 12 = f7 ++ s2 := by
  rw [rvWord_top f7 s2 s1 f3 d op 0]
  exact BitVec.extractLsb'_eq_self

end RvFormats

/-!
The words as the emitter computes them.
-/

section RvUnits

variable (d s1 s2 : RegNo)

/-- The I format of ADDI and LW. -/
theorem rvWord_itype (f3 : BitVec 3) (op : BitVec 7) (opcode x : Word)
    (hop : opcode = 0#17 ++ f3 ++ 0#5 ++ op) :
    opcode ||| rvReg d 7 ||| rvReg s1 15 ||| ((x &&& 0xFFF#32) <<< 20) =
      rvWord (x.extractLsb' 5 7) (x.extractLsb' 0 5) (s1.setWidth 5) f3 (d.setWidth 5) op := by
  subst hop
  unfold rvWord rvReg
  apply BitVec.eq_of_getLsbD_eq
  intro i hi
  simp only [BitVec.getLsbD_or, BitVec.getLsbD_and, BitVec.getLsbD_append,
    BitVec.getLsbD_shiftLeft, BitVec.getLsbD_setWidth, BitVec.getLsbD_extractLsb']
  interval_cases i <;> simp

theorem rvWord_sw (x : Word) :
    0x23#32 ||| (2#32 <<< 12) ||| (((x &&& 0xFFF#32) >>> 5) <<< 25) ||| rvReg s2 20 |||
        rvReg s1 15 ||| (((x &&& 0xFFF#32) &&& 0x1F#32) <<< 7) =
      rvWord (x.extractLsb' 5 7) (s2.setWidth 5) (s1.setWidth 5) 0b010#3 (x.extractLsb' 0 5)
        0b0100011#7 := by
  unfold rvWord rvReg
  apply BitVec.eq_of_getLsbD_eq
  intro i hi
  simp only [BitVec.getLsbD_or, BitVec.getLsbD_and, BitVec.getLsbD_append,
    BitVec.getLsbD_shiftLeft, BitVec.getLsbD_setWidth, BitVec.getLsbD_extractLsb',
    BitVec.getLsbD_ushiftRight]
  interval_cases i <;> simp

theorem rvWord_rtype (f7 : BitVec 7) (f3 : BitVec 3) :
    encodeRtype d s1 s2 (f7.setWidth 32) (f3.setWidth 32) =
      rvWord f7 (s2.setWidth 5) (s1.setWidth 5) f3 (d.setWidth 5) 0b0110011#7 := by
  unfold encodeRtype rvWord rvReg
  apply BitVec.eq_of_getLsbD_eq
  intro i hi
  simp only [BitVec.getLsbD_or, BitVec.getLsbD_and, BitVec.getLsbD_append,
    BitVec.getLsbD_shiftLeft, BitVec.getLsbD_setWidth]
  interval_cases i <;> simp

/-- ADD and SUB are the R format with another `funct7`. -/
theorem encodeRtypeAddsub_eq (sub : Bool) :
    encodeRtypeAddsub d s1 s2 sub =
      encodeRtype d s1 s2 (if sub then 0x20#32 else 0x00#32) 0x00#32 := by
  unfold encodeRtypeAddsub encodeRtype
  rw [BitVec.zero_shiftLeft, BitVec.or_zero]

end RvUnits

section RvDecode

variable (f7 : BitVec 7) (s2 s1 d : BitVec 5)

theorem decodeWord_addi : Rv32.decodeWord (rvWord f7 s2 s1 0b000#3 d 0b0010011#7) =
    some (.addi d.toNat s1.toNat (f7 ++ s2)) := by
  unfold Rv32.decodeWord Rv32.rd Rv32.rs1
  rw [rvWord_op, rvWord_f3, rvWord_d, rvWord_s1, rvWord_imm, if_neg (by decide),
    if_pos ⟨rfl, rfl⟩]

theorem decodeWord_sw : Rv32.decodeWord (rvWord f7 s2 s1 0b010#3 d 0b0100011#7) =
    some (.sw s2.toNat s1.toNat (f7 ++ d)) := by
  unfold Rv32.decodeWord Rv32.rs1 Rv32.rs2
  rw [rvWord_op, rvWord_f3, rvWord_d, rvWord_s1, rvWord_s2, rvWord_f7, if_neg (by decide),
    if_neg (by decide), if_pos ⟨rfl, rfl⟩]

theorem decodeWord_lw : Rv32.decodeWord (rvWord f7 s2 s1 0b010#3 d 0b0000011#7) =
    some (.lw d.toNat s1.toNat (f7 ++ s2)) := by
  unfold Rv32.decodeWord Rv32.rd Rv32.rs1
  rw [rvWord_op, rvWord_f3, rvWord_d, rvWord_s1, rvWord_imm, if_neg (by decide),
    if_neg (by decide), if_neg (by decide), if_pos ⟨rfl, rfl⟩]

theorem decodeWord_rtype (f3 : BitVec 3) :
    Rv32.decodeWord (rvWord f7 s2 s1 f3 d 0b0110011#7) =
      Rv32.decodeOp (rvWord f7 s2 s1 f3 d 0b0110011#7) := by
  unfold Rv32.decodeWord
  rw [rvWord_op, if_neg (by decide), if_neg (fun h => absurd h.left (by decide)),
    if_neg (fun h => absurd h.left (by decide)), if_neg (fun h => absurd h.left (by decide)),
    if_neg (fun h => absurd h.left (by decide)), if_pos rfl]

end RvDecode

theorem toNat_setWidth_five (r : RegNo) : (r.setWidth 5).toNat = r.toNat % 32 := by
  rw [BitVec.toNat_setWidth]

/-- Both parts of an immediate together. -/
theorem extract_append (x : Word) : x.extractLsb' 5 7 ++ x.extractLsb' 0 5 = x.setWidth 12 := by
  rw [BitVec.setWidth_eq_extractLsb' (by decide)]
  exact BitVec.extractLsb'_append_extractLsb'_eq_extractLsb' rfl

theorem decode_addi (r s : RegNo) (x : Word) (rest : List Word) :
    Rv32.decode (encodeAddi r s x :: rest) =
      some (.addi (r.toNat % 32) (s.toNat % 32) (x.setWidth 12), rest) := by
  unfold encodeAddi
  rw [rvWord_itype r s 0b000#3 0b0010011#7 0x13#32 x (by decide), Rv32.decode_cons,
    decodeWord_addi, extract_append, toNat_setWidth_five, toNat_setWidth_five]
  rfl

theorem decode_lui (r : RegNo) (x : Word) (rest : List Word) :
    Rv32.decode (encodeLui r x :: rest) =
      some (.lui (r.toNat % 32) ((encodeLui r x).extractLsb' 12 20), rest) := by
  have hopcode : (encodeLui r x).extractLsb' 0 7 = 0b0110111#7 := by
    unfold encodeLui rvReg
    ext i hi
    interval_cases i <;> simp
  have hrd : (encodeLui r x).extractLsb' 7 5 = r.setWidth 5 := by
    unfold encodeLui rvReg
    ext i hi
    interval_cases i <;> simp
  rw [Rv32.decode_cons]
  unfold Rv32.decodeWord Rv32.rd
  rw [if_pos hopcode, hrd, toNat_setWidth_five]
  rfl

/-- The upper immediate arrives eight bits too high. -/
theorem lui_value (r : RegNo) (x : Word) :
    (encodeLui r x).extractLsb' 12 20 ++ 0#12 = x <<< 20 := by
  unfold encodeLui rvReg
  ext i hi
  simp only [BitVec.getElem_append, BitVec.getElem_extractLsb', BitVec.getLsbD_or,
    BitVec.getLsbD_and, BitVec.getLsbD_shiftLeft, BitVec.getElem_shiftLeft]
  interval_cases i <;> simp

theorem signedOk_iff (v : Word) :
    signedOk v = true ↔ v.toNat < 2048 ∨ 2 ^ 32 - 2048 ≤ v.toNat := by
  unfold signedOk
  rw [Bool.or_eq_true, decide_eq_true_eq, decide_eq_true_eq, BitVec.le_def, BitVec.le_def]
  simp only [BitVec.toNat_ofNat]
  lia

/-- A sign-extended field of twelve bits holds every number that fits. -/
theorem signExtend_of_signedOk {v : Word} (h : signedOk v = true) :
    (v.setWidth 12).signExtend 32 = v := by
  rw [signedOk_iff] at h
  have hv := v.isLt
  apply BitVec.eq_of_toNat_eq
  rw [BitVec.toNat_signExtend, BitVec.msb_eq_decide]
  simp only [BitVec.toNat_setWidth, decide_eq_true_eq]
  split <;> omega

/-!
## Loads and stores
-/

/-- The encoders that take an offset. -/
inductive MemEncoder where
  | strImm
  | ldrImm
  | sw
  | lw
deriving DecidableEq, Repr

/-- A signed 32-bit number that twelve bits hold. -/
def FitsTwelve (offset : Word) : Prop := -2048 ≤ offset.toInt ∧ offset.toInt ≤ 2047

/-- What a scaled five-bit offset between low registers reaches. -/
def FitsScaled (r base : RegNo) (offset : Word) : Prop :=
  r ≤ 7#8 ∧ base ≤ 7#8 ∧ offset.toNat % 4 = 0 ∧ offset ≤ 124#32

/-- The encoder answers exactly in range, and its answer reads back as the registers
and the offset it was given. -/
def MemEncoder.Exact (e : MemEncoder) (r base : RegNo) (offset : Word) : Prop :=
  match e with
  | .strImm =>
      ((encodeStrImm r base offset).isSome ↔ FitsScaled r base offset) ∧
        forall hw, encodeStrImm r base offset = some hw ->
          exists imm5, Thumb2.decode16 hw = some (.str r.toNat base.toNat imm5) ∧
            imm5.setWidth 32 * 4#32 = offset
  | .ldrImm =>
      ((encodeLdrImm r base offset).isSome ↔ FitsScaled r base offset) ∧
        forall hw, encodeLdrImm r base offset = some hw ->
          exists imm5, Thumb2.decode16 hw = some (.ldr r.toNat base.toNat imm5) ∧
            imm5.setWidth 32 * 4#32 = offset
  | .sw =>
      ((encodeSw r base offset).isSome ↔ FitsTwelve offset) ∧
        forall w, encodeSw r base offset = some w ->
          exists imm12, Rv32.decodeWord w = some (.sw (r.toNat % 32) (base.toNat % 32) imm12) ∧
            imm12.signExtend 32 = offset
  | .lw =>
      ((encodeLw r base offset).isSome ↔ FitsTwelve offset) ∧
        forall w, encodeLw r base offset = some w ->
          exists imm12, Rv32.decodeWord w = some (.lw (r.toNat % 32) (base.toNat % 32) imm12) ∧
            imm12.signExtend 32 = offset

section Thumb

variable {r base : RegNo} {offset : Word}

/-- The guard of both encoders. -/
theorem scaled_guard_iff :
    ¬ (7#8 < r ∨ 7#8 < base ∨ 124#32 < offset ∨ offset % 4#32 ≠ 0#32) ↔
      FitsScaled r base offset := by
  have hmod : offset % 4#32 = 0#32 ↔ offset.toNat % 4 = 0 := by
    rw [← BitVec.toNat_inj, BitVec.toNat_umod]
    rfl
  unfold FitsScaled
  rw [← hmod]
  simp only [not_or, not_not, BitVec.not_lt]
  tauto

/-- The parts of an encoding within range. -/
theorem scaled_parts (h : FitsScaled r base offset) :
    exists (d n : BitVec 3) (x : BitVec 5), d.setWidth 8 = r ∧ n.setWidth 8 = base ∧
      x.setWidth 32 = offset / 4#32 ∧ x.setWidth 32 * 4#32 = offset := by
  obtain ⟨hr, hbase, hmod, hle⟩ := h
  obtain ⟨d, hd⟩ := exists_setWidth (k := 3) (r := r) (Nat.lt_succ_of_le hr)
  obtain ⟨n, hn⟩ := exists_setWidth (k := 3) (r := base) (Nat.lt_succ_of_le hbase)
  have hnat : offset.toNat ≤ 124 := hle
  have hx : ((offset / 4#32).setWidth 5).setWidth 32 = offset / 4#32 := by
    apply BitVec.eq_of_toNat_eq
    simp only [BitVec.toNat_setWidth, BitVec.toNat_udiv, BitVec.toNat_ofNat]
    lia
  refine ⟨d, n, (offset / 4#32).setWidth 5, hd, hn, hx, ?_⟩
  rw [hx]
  apply BitVec.eq_of_toNat_eq
  simp only [BitVec.toNat_mul, BitVec.toNat_udiv, BitVec.toNat_ofNat]
  lia

/-- A guarded encoder is exact if its halfword is, within range. -/
theorem scaled_exact {enc : Option Half} {hw : Half} {mk : BitVec 5 -> Thumb2.Instr}
    (henc : enc =
      if 7#8 < r ∨ 7#8 < base ∨ 124#32 < offset ∨ offset % 4#32 ≠ 0#32 then none else some hw)
    (hdecode : FitsScaled r base offset -> exists imm5,
      Thumb2.decode16 hw = some (mk imm5) ∧ imm5.setWidth 32 * 4#32 = offset) :
    (enc.isSome ↔ FitsScaled r base offset) ∧ forall hw', enc = some hw' -> exists imm5,
      Thumb2.decode16 hw' = some (mk imm5) ∧ imm5.setWidth 32 * 4#32 = offset := by
  by_cases h : FitsScaled r base offset
  · rw [henc, if_neg (scaled_guard_iff.mpr h)]
    refine ⟨iff_of_true rfl h, ?_⟩
    intro hw' hhw
    cases hhw
    exact hdecode h
  · rw [henc, if_pos (not_not.mp (fun hguard => h (scaled_guard_iff.mp hguard)))]
    exact ⟨iff_of_false (by decide) h, fun _ hnone => by cases hnone⟩

theorem exact_strImm : MemEncoder.Exact .strImm r base offset := by
  refine scaled_exact rfl ?_
  intro h
  obtain ⟨d, n, x, rfl, rfl, hx, hoffset⟩ := scaled_parts h
  refine ⟨x, ?_, hoffset⟩
  rw [← hx, narrow_memory d n 0b01100#5 x 0x6000#16 (by decide), decode16_str,
    toNat_setWidth_eight (by decide), toNat_setWidth_eight (by decide)]

theorem exact_ldrImm : MemEncoder.Exact .ldrImm r base offset := by
  refine scaled_exact rfl ?_
  intro h
  obtain ⟨d, n, x, rfl, rfl, hx, hoffset⟩ := scaled_parts h
  refine ⟨x, ?_, hoffset⟩
  rw [← hx, narrow_memory d n 0b01101#5 x 0x6800#16 (by decide), decode16_ldr,
    toNat_setWidth_eight (by decide), toNat_setWidth_eight (by decide)]

end Thumb

section Rv

variable {r base : RegNo} {offset : Word}

theorem fitsTwelve_iff : FitsTwelve offset ↔ signedOk offset = true := by
  rw [signedOk_iff]
  unfold FitsTwelve
  rw [BitVec.toInt_eq_toNat_cond]
  have hlt := offset.isLt
  split <;> lia

/-- Offsets that are let through and do not fit: those from -4096 to -2049. -/
def offsetSlips (offset : Word) : Prop := 0xFFFFF000#32 ≤ offset ∧ offset < 0xFFFFF800#32

theorem offsetSlips_iff :
    offsetSlips offset ↔ 0xFFFFF000 ≤ offset.toNat ∧ offset.toNat < 0xFFFFF800 := by
  unfold offsetSlips
  rw [BitVec.le_def, BitVec.lt_def]
  rfl

theorem offsetTooFar_eq_false_iff :
    offsetTooFar offset = false ↔ offset.toNat < 0x800 ∨ 0xFFFFF000 ≤ offset.toNat := by
  unfold offsetTooFar
  rw [Bool.and_eq_false_iff, decide_eq_false_iff_not, decide_eq_false_iff_not, BitVec.le_def,
    BitVec.lt_def, Nat.not_le, Nat.not_lt]
  rfl

theorem offsetTooFar_iff (h : ¬ offsetSlips offset) :
    offsetTooFar offset = false ↔ FitsTwelve offset := by
  rw [offsetSlips_iff] at h
  rw [offsetTooFar_eq_false_iff, fitsTwelve_iff, signedOk_iff]
  lia

theorem not_fits_of_slips (h : offsetSlips offset) :
    offsetTooFar offset = false ∧ ¬ FitsTwelve offset := by
  rw [offsetSlips_iff] at h
  rw [offsetTooFar_eq_false_iff, fitsTwelve_iff, signedOk_iff]
  lia

/-- A guarded encoder whose word reads back is exact but for the offsets that slip. -/
theorem twelve_exact_iff {enc : Option Word} {w : Word} {mk : BitVec 12 -> Rv32.Instr}
    (henc : enc = if offsetTooFar offset then none else some w)
    (hdecode : Rv32.decodeWord w = some (mk (offset.setWidth 12))) :
    ((enc.isSome ↔ FitsTwelve offset) ∧ forall w', enc = some w' -> exists imm12,
      Rv32.decodeWord w' = some (mk imm12) ∧ imm12.signExtend 32 = offset) ↔
      ¬ offsetSlips offset := by
  constructor
  · intro hexact hslips
    obtain ⟨hnear, hfits⟩ := not_fits_of_slips hslips
    rw [henc, hnear] at hexact
    exact hfits (hexact.left.mp rfl)
  · intro hslips
    by_cases hfits : FitsTwelve offset
    · rw [henc, (offsetTooFar_iff hslips).mpr hfits]
      refine ⟨iff_of_true rfl hfits, ?_⟩
      intro w' hw
      cases hw
      exact ⟨offset.setWidth 12, hdecode, signExtend_of_signedOk (fitsTwelve_iff.mp hfits)⟩
    · have hfar : offsetTooFar offset = true := by
        rw [← Bool.not_eq_false, offsetTooFar_iff hslips]
        exact hfits
      rw [henc, if_pos hfar]
      exact ⟨iff_of_false (by decide) hfits, fun _ hnone => by cases hnone⟩

theorem exact_sw_iff : MemEncoder.Exact .sw r base offset ↔ ¬ offsetSlips offset := by
  refine twelve_exact_iff rfl ?_
  rw [rvWord_sw, decodeWord_sw, extract_append, toNat_setWidth_five, toNat_setWidth_five]

theorem exact_lw_iff : MemEncoder.Exact .lw r base offset ↔ ¬ offsetSlips offset := by
  refine twelve_exact_iff rfl ?_
  rw [rvWord_itype r base 0b010#3 0b0000011#7 (0x03#32 ||| (2#32 <<< 12)) offset (by decide),
    decodeWord_lw, extract_append, toNat_setWidth_five, toNat_setWidth_five]

end Rv

/-- Only LW and SW with an offset from -4096 to -2049 are encoded wrongly. -/
theorem memEncoder_exact_iff (e : MemEncoder) (r base : RegNo) (offset : Word) :
    e.Exact r base offset ↔
      (e = .sw ∨ e = .lw -> ¬ (0xFFFFF000#32 ≤ offset ∧ offset < 0xFFFFF800#32)) := by
  cases e with
  | strImm => exact iff_of_true exact_strImm (by rintro (h | h) <;> cases h)
  | ldrImm => exact iff_of_true exact_ldrImm (by rintro (h | h) <;> cases h)
  | sw => exact exact_sw_iff.trans ⟨fun h _ => h, fun h => h (Or.inl rfl)⟩
  | lw => exact exact_lw_iff.trans ⟨fun h _ => h, fun h => h (Or.inr rfl)⟩

/-- LW x10, -4096(x11) is encoded as LW x10, 0(x11). -/
theorem not_exact_lw_page : ¬ MemEncoder.Exact .lw 10#8 11#8 0xFFFFF000#32 := by
  intro h
  exact absurd (h.left.mp (by decide)).left (by decide)

end Execution
end HolyRust
