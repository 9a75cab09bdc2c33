import HolyRust.Platform
import HolyRust.Foundation.Checked
import HolyRust.Foundation.Program

/-!
# Machine code emitters

The encodings of `emitter.rs` bit by bit as written there, and the two emitters
that put them into the buffer one unit after another.  `emit_mov_ret` is not used
by the native compiler and is left out; nor are the capability guards, which stand
apart from the rest of the contract.
-/

namespace HolyRust
namespace Compilation

open Foundation

/-- Register numbers as the emitters take them. -/
abbrev RegNo : Type := BitVec 8

abbrev Half : Type := BitVec 16

/-- Emitter failure modes. -/
inductive EmitError where
  | overflow
  | badRegister
deriving DecidableEq, Repr

/-- What was written into the buffer so far. -/
structure EmitBuffer (unit : Type) where
  capWords : Nat
  code : List unit

abbrev EmitM (unit : Type) : Type -> Type := EStateM EmitError (EmitBuffer unit)

/-- `push16` and `push32`. -/
def pushUnit (u : unit) : EmitM unit Unit := do
  let b <- get
  if b.capWords ≤ b.code.length then throw .overflow
  else set { b with code := b.code ++ [u] }

/-- The emitter contract, as far as the native compiler uses it. -/
structure TargetEmitter (unit : Type) where
  movImm : RegNo -> Word -> EmitM unit Unit
  storeU32 : RegNo -> RegNo -> EmitM unit Unit
  loadU32 : RegNo -> RegNo -> EmitM unit Unit
  add : RegNo -> RegNo -> RegNo -> EmitM unit Unit
  sub : RegNo -> RegNo -> RegNo -> EmitM unit Unit
  mul : RegNo -> RegNo -> RegNo -> EmitM unit Unit
  div : RegNo -> RegNo -> RegNo -> EmitM unit Unit
  ret : EmitM unit Unit

/-- `Some(unit) => push, None => BadRegister`. -/
def pushOption (u : Option unit) : EmitM unit Unit :=
  match u with
  | some u => pushUnit u
  | none => throw .badRegister

/-!
## Thumb-2
-/

def encodeMovw (rd : RegNo) (imm : Word) : Half × Half :=
  let imm4 := ((imm >>> 12) &&& 0xF#32).setWidth 16
  let i := ((imm >>> 11) &&& 0x1#32).setWidth 16
  let imm3 := ((imm >>> 8) &&& 0x7#32).setWidth 16
  let imm8 := (imm &&& 0xFF#32).setWidth 16
  let hw1 := 0xF240#16 ||| (i <<< 10) ||| imm4
  let hw2 := (imm3 <<< 12) ||| ((rd.setWidth 16 &&& 0xF#16) <<< 8) ||| imm8
  (hw1, hw2)

def encodeMovt (rd : RegNo) (imm : Word) : Half × Half :=
  let high := imm >>> 16
  let imm4 := ((high >>> 12) &&& 0xF#32).setWidth 16
  let i := ((high >>> 11) &&& 0x1#32).setWidth 16
  let imm3 := ((high >>> 8) &&& 0x7#32).setWidth 16
  let imm8 := (high &&& 0xFF#32).setWidth 16
  let hw1 := 0xF2C0#16 ||| (i <<< 10) ||| imm4
  let hw2 := (imm3 <<< 12) ||| ((rd.setWidth 16 &&& 0xF#16) <<< 8) ||| imm8
  (hw1, hw2)

def encodeStrImm (rt rn : RegNo) (byteOffset : Word) : Option Half :=
  if 7#8 < rt ∨ 7#8 < rn ∨ 124#32 < byteOffset ∨ byteOffset % 4#32 ≠ 0#32 then none
  else
    some (0x6000#16 ||| ((byteOffset / 4#32).setWidth 16 <<< 6) ||| (rn.setWidth 16 <<< 3) |||
      rt.setWidth 16)

def encodeLdrImm (rt rn : RegNo) (byteOffset : Word) : Option Half :=
  if 7#8 < rt ∨ 7#8 < rn ∨ 124#32 < byteOffset ∨ byteOffset % 4#32 ≠ 0#32 then none
  else
    some (0x6800#16 ||| ((byteOffset / 4#32).setWidth 16 <<< 6) ||| (rn.setWidth 16 <<< 3) |||
      rt.setWidth 16)

def encodeSdiv (rd rn rm : RegNo) : Half × Half :=
  (0xFB90#16 ||| rn.setWidth 16,
    0xF010#16 ||| (rd.setWidth 16 <<< 8) ||| rm.setWidth 16)

/-- The three-register ADDS and SUBS, by their opcode bits. -/
def thumbThree (opcode : Half) (dst a b : RegNo) : EmitM Half Unit :=
  if 7#8 < dst ∨ 7#8 < a ∨ 7#8 < b then throw .badRegister
  else pushUnit (opcode ||| (b.setWidth 16 <<< 6) ||| (a.setWidth 16 <<< 3) ||| dst.setWidth 16)

def Thumb2Emitter.emitMovImm (reg : RegNo) (imm : Word) : EmitM Half Unit :=
  if 15#8 < reg then throw .badRegister
  else if imm ≤ 0xFF#32 ∧ reg < 8#8 then
    pushUnit (0x2000#16 ||| (reg.setWidth 16 <<< 8) ||| (imm.setWidth 16 &&& 0xFF#16))
  else do
    pushUnit (encodeMovw reg imm).1
    pushUnit (encodeMovw reg imm).2
    if imm >>> 16 ≠ 0#32 then do
      pushUnit (encodeMovt reg imm).1
      pushUnit (encodeMovt reg imm).2
    else
      pure ()

def thumb2Emitter : TargetEmitter Half where
  movImm := Thumb2Emitter.emitMovImm
  storeU32 := fun src addr => pushOption (encodeStrImm src addr 0#32)
  loadU32 := fun dst addr => pushOption (encodeLdrImm dst addr 0#32)
  add := thumbThree 0x1800#16
  sub := thumbThree 0x1A00#16
  mul := fun dst a b =>
    if 7#8 < dst ∨ 7#8 < a ∨ 7#8 < b then throw .badRegister
    else do
      if a ≠ dst then pushUnit ((a.setWidth 16 <<< 3) ||| dst.setWidth 16) else pure ()
      pushUnit (0x4340#16 ||| (b.setWidth 16 <<< 3) ||| dst.setWidth 16)
  div := fun dst a b =>
    if 15#8 < dst ∨ 15#8 < a ∨ 15#8 < b then throw .badRegister
    else do
      pushUnit (encodeSdiv dst a b).1
      pushUnit (encodeSdiv dst a b).2
  ret := pushUnit 0x4770#16

/-!
## RV32
-/

/-- A register number in the five-bit field at `shift`. -/
def rvReg (r : RegNo) (shift : Nat) : Word := (r.setWidth 32 &&& 0x1F#32) <<< shift

/-- The immediate of LUI goes to bit 20 here. -/
def encodeLui (rd : RegNo) (imm20 : Word) : Word :=
  0x37#32 ||| rvReg rd 7 ||| ((imm20 &&& 0xFFFFF#32) <<< 20)

def encodeAddi (rd rs1 : RegNo) (imm12Field : Word) : Word :=
  0x13#32 ||| rvReg rd 7 ||| rvReg rs1 15 ||| ((imm12Field &&& 0xFFF#32) <<< 20)

/-- Offsets outside the signed 12-bit range. -/
def offsetTooFar (offset : Word) : Bool :=
  decide (0x800#32 ≤ offset) && decide (offset < 0xFFFFF000#32)

def encodeSw (rs2 rs1 : RegNo) (offset : Word) : Option Word :=
  if offsetTooFar offset then none
  else
    let off := offset &&& 0xFFF#32
    some (0x23#32 ||| (2#32 <<< 12) ||| ((off >>> 5) <<< 25) ||| rvReg rs2 20 ||| rvReg rs1 15 |||
      ((off &&& 0x1F#32) <<< 7))

def encodeLw (rd rs1 : RegNo) (offset : Word) : Option Word :=
  if offsetTooFar offset then none
  else
    some (0x03#32 ||| (2#32 <<< 12) ||| rvReg rd 7 ||| rvReg rs1 15 |||
      ((offset &&& 0xFFF#32) <<< 20))

def encodeRtype (rd rs1 rs2 : RegNo) (funct7 funct3 : Word) : Word :=
  0x33#32 ||| (funct7 <<< 25) ||| rvReg rs2 20 ||| rvReg rs1 15 ||| (funct3 <<< 12) ||| rvReg rd 7

def encodeRtypeAddsub (rd rs1 rs2 : RegNo) (sub : Bool) : Word :=
  0x33#32 ||| ((if sub then 0x20#32 else 0x00#32) <<< 25) ||| rvReg rs2 20 ||| rvReg rs1 15 |||
    rvReg rd 7

def rv32Ret : Word := 0x00008067#32

/-- The literal fits the immediate of one ADDI. -/
def signedOk (imm : Word) : Bool := decide (imm ≤ 0x7FF#32) || decide (0xFFFFF800#32 ≤ imm)

/-- The upper part of a literal, rounded so that the lower part may be negative. -/
def hi20 (imm : Word) : Word := (imm + 0x800#32) >>> 12

def lo12 (imm : Word) : Word := imm - (hi20 imm <<< 12)

def Riscv32Emitter.emitMovImm (reg : RegNo) (imm : Word) : EmitM Word Unit :=
  if signedOk imm then pushUnit (encodeAddi reg 0#8 imm)
  else do
    pushUnit (encodeLui reg (hi20 imm))
    if lo12 imm ≠ 0#32 then pushUnit (encodeAddi reg reg (lo12 imm)) else pure ()

def riscv32Emitter : TargetEmitter Word where
  movImm := Riscv32Emitter.emitMovImm
  storeU32 := fun src addr => pushOption (encodeSw src addr 0#32)
  loadU32 := fun dst addr => pushOption (encodeLw dst addr 0#32)
  add := fun dst a b => pushUnit (encodeRtypeAddsub dst a b false)
  sub := fun dst a b => pushUnit (encodeRtypeAddsub dst a b true)
  mul := fun dst a b => pushUnit (encodeRtype dst a b 0x01#32 0x00#32)
  div := fun dst a b => pushUnit (encodeRtype dst a b 0x01#32 0x04#32)
  ret := pushUnit rv32Ret

/-!
## Capability guards

The length of a vector guard is a `usize` of `w` bits.  Where its arithmetic panics,
it does so before anything is written.
-/

/-- The guards of the emitter contract. -/
structure GuardEmitter (unit : Type) (w : Nat) where
  capGuardScalar : RegNo -> RegNo -> EmitM unit Unit
  capGuardVector : RegNo -> BitVec w -> Except Panic (EmitM unit Unit)
  capGuardCustom : RegNo -> RegNo -> EmitM unit Unit

/-- Three placeholders, whatever the registers are. -/
def Thumb2Emitter.emitCapGuardScalar (_addrReg _tmpReg : RegNo) : EmitM Half Unit := do
  pushUnit 0xF3AF#16
  pushUnit 0xF8D0#16
  pushUnit 0xEC10#16
  pure ()

/-- A trap of the `UDF` space with the register and the length less one. -/
def Thumb2Emitter.emitCapGuardVector (checks : OverflowChecks) (addrReg : RegNo)
    (len : BitVec w) : Except Panic (EmitM Half Unit) :=
  if 7#8 < addrReg ∨ 16#w < len then pure (throw .badRegister)
  else do
    let imm4Reg := (addrReg &&& 0x0F#8).setWidth 16
    let index <- Checked.subFixed checks len 1#w
    let imm4Len := (index &&& 0x0F#w).setWidth 16
    pure (pushUnit (0xDE00#16 ||| (imm4Reg <<< 4) ||| imm4Len))

/-- The same traps, with two registers. -/
def Thumb2Emitter.emitCapGuardCustom (addrReg capReg : RegNo) : EmitM Half Unit :=
  if 7#8 < addrReg ∨ 7#8 < capReg then throw .badRegister
  else
    pushUnit (0xDE00#16 ||| ((capReg &&& 0x0F#8).setWidth 16 <<< 4) |||
      (addrReg &&& 0x0F#8).setWidth 16)

def thumb2Guards (checks : OverflowChecks) : GuardEmitter Half w where
  capGuardScalar := Thumb2Emitter.emitCapGuardScalar
  capGuardVector := Thumb2Emitter.emitCapGuardVector checks
  capGuardCustom := Thumb2Emitter.emitCapGuardCustom

def Riscv32Emitter.emitCapGuardScalar (_addrReg _tmpReg : RegNo) : EmitM Word Unit := do
  pushUnit 0x00C55133#32
  pushUnit 0x03F55033#32
  pushUnit 0x00058063#32
  pure ()

/-- The address register does not get into the word. -/
def Riscv32Emitter.emitCapGuardVector (_addrReg : RegNo) (len : BitVec w) : EmitM Word Unit :=
  if 256#w < len then throw .overflow
  else pushUnit (0xF3AF8000#32 ||| (len.setWidth 32 &&& 0xFF#32))

/-- `hros.capchk`. -/
def Riscv32Emitter.emitCapGuardCustom (addrReg capReg : RegNo) : EmitM Word Unit :=
  let opcode := 0b0001011#32
  let funct3 := 0b000#32
  let funct7 := 0b0000001#32
  pushUnit ((funct7 <<< 25) ||| rvReg capReg 20 ||| rvReg addrReg 15 ||| (funct3 <<< 12) |||
    opcode)

/-- No arithmetic of these guards can overflow. -/
def riscv32Guards (_checks : OverflowChecks) : GuardEmitter Word w where
  capGuardScalar := Riscv32Emitter.emitCapGuardScalar
  capGuardVector := fun addrReg len => pure (Riscv32Emitter.emitCapGuardVector addrReg len)
  capGuardCustom := Riscv32Emitter.emitCapGuardCustom

/-!
## What emission appends
-/

/-- With room for them, `x` appends exactly `units`. -/
def Appends (units : List unit) (x : EStateM ε (EmitBuffer unit) Unit) : Prop :=
  forall b : EmitBuffer unit, b.code.length + units.length ≤ b.capWords ->
    x b = .ok () { b with code := b.code ++ units }

theorem appends_pure : Appends ([] : List unit) (pure () : EStateM ε (EmitBuffer unit) Unit) := by
  intro b _
  rw [List.append_nil]
  rfl

theorem appends_pushUnit (u : unit) : Appends [u] (pushUnit u) := by
  intro b hroom
  rw [List.length_singleton] at hroom
  unfold pushUnit
  rw [bind_apply, get_apply]
  show (if b.capWords ≤ b.code.length then throw .overflow
    else set { b with code := b.code ++ [u] } : EmitM unit PUnit) b = _
  rw [if_neg (by lia)]
  rfl

theorem appends_bind {us vs : List unit} {x y : EStateM ε (EmitBuffer unit) Unit}
    (hx : Appends us x) (hy : Appends vs y) : Appends (us ++ vs) (x >>= fun _ => y) := by
  intro b hroom
  rw [List.length_append] at hroom
  rw [bind_apply, hx b (by lia)]
  show y { b with code := b.code ++ us } = _
  rw [hy _ (by show (b.code ++ us).length + _ ≤ _; rw [List.length_append]; lia)]
  show EStateM.Result.ok () { b with code := b.code ++ us ++ vs } = _
  rw [List.append_assoc]

/-- However `x` ends, it leaves at most `k` more units in the buffer. -/
def EmitsAtMost (k : Nat) (x : EStateM ε (EmitBuffer unit) Unit) : Prop :=
  forall b : EmitBuffer unit, (finalState (x b)).code.length ≤ b.code.length + k

theorem emitsAtMost_pure :
    EmitsAtMost 0 (pure () : EStateM ε (EmitBuffer unit) Unit) :=
  fun _ => Nat.le_refl _

theorem emitsAtMost_throw (e : ε) :
    EmitsAtMost 0 (throw e : EStateM ε (EmitBuffer unit) Unit) :=
  fun _ => Nat.le_refl _

theorem emitsAtMost_mono {k n : Nat} (hkn : k ≤ n) {x : EStateM ε (EmitBuffer unit) Unit}
    (hx : EmitsAtMost k x) : EmitsAtMost n x :=
  fun b => (hx b).trans (Nat.add_le_add_left hkn _)

theorem emitsAtMost_pushUnit (u : unit) : EmitsAtMost 1 (pushUnit u) := by
  intro b
  unfold pushUnit
  rw [bind_apply, get_apply]
  show (finalState ((if b.capWords ≤ b.code.length then throw .overflow
    else set { b with code := b.code ++ [u] } : EmitM unit PUnit) b)).code.length ≤ _
  split
  · exact Nat.le_add_right _ _
  · show (b.code ++ [u]).length ≤ b.code.length + 1
    rw [List.length_append, List.length_singleton]

theorem emitsAtMost_bind {k n : Nat} {x y : EStateM ε (EmitBuffer unit) Unit}
    (hx : EmitsAtMost k x) (hy : EmitsAtMost n y) : EmitsAtMost (k + n) (x >>= fun _ => y) := by
  intro b
  have hfirst := hx b
  rw [bind_apply]
  cases hrun : x b with
  | ok a b' =>
      rw [hrun, finalState_ok] at hfirst
      have hsecond := hy b'
      lia
  | error e b' =>
      rw [hrun, finalState_error] at hfirst
      rw [finalState_error]
      lia

end Compilation
end HolyRust
