import HolyRust.Execution.ImmediateLoads

/-!
# Arithmetic instructions

What the code of `emit_add`, `emit_sub`, `emit_mul` and `emit_div` computes, for
all registers and all operands, against the contract of `TargetEmitter`.  MULS
overwrites its first operand, SDIV has a fixed field that the Thumb-2 emitter
does not fill, and RISC-V divides by zero in its own way.
-/

namespace HolyRust
namespace Execution

open Foundation
open Compilation
open Isa

inductive ArithOp where
  | add
  | sub
  | mul
  | div
deriving DecidableEq, Repr

namespace ArithOp

/-- The method of the emitter. -/
def emit (e : TargetEmitter unit) : ArithOp -> RegNo -> RegNo -> RegNo -> EmitM unit Unit
  | .add => e.add
  | .sub => e.sub
  | .mul => e.mul
  | .div => e.div

/-- The contract: division is signed and truncates, and a zero divisor gives 0. -/
def contract : ArithOp -> Word -> Word -> Word
  | .add, x, y => x + y
  | .sub, x, y => x - y
  | .mul, x, y => x * y
  | .div, x, y => if y = 0#32 then 0#32 else x.sdiv y

end ArithOp

/-- Units that do not decode have no effect to speak of. -/
theorem not_executes {isa : Leaf unit instr} {u : unit} (hret : Returns isa u)
    {units : List unit} (h : forall rest, isa.decode (units ++ rest) = none)
    (bus : Bus Word Word σ) (c c' : Core σ) : ¬ Executes isa bus units c c' := by
  rintro ⟨n, _, hrun⟩
  have hreturn : isa.run bus (0 + 1 + n) (units ++ [u]) c = some c' := by
    rw [hrun]
    exact hret bus c' 0 []
  rw [show 0 + 1 + n = n + 1 by lia, Leaf.run, h] at hreturn
  cases hreturn

/-!
## Thumb-2
-/

section Thumb2

variable {dst a b : RegNo}

/-- No register number here is too large. -/
theorem low_guard (hdst : dst ≤ 7#8) (ha : a ≤ 7#8) (hb : b ≤ 7#8) :
    ¬ (7#8 < dst ∨ 7#8 < a ∨ 7#8 < b) := by
  simp only [not_or, BitVec.not_lt]
  exact ⟨hdst, ha, hb⟩

theorem exists_low (h : a ≤ 7#8) : exists q : BitVec 3, q.setWidth 8 = a :=
  exists_setWidth (k := 3) (Nat.lt_succ_of_le h)

/-- ADDS and SUBS, as far as they are the same. -/
theorem thumbThree_implements {opcode : Half} {y : BitVec 2} {f : Word -> Word -> Word}
    {mk : Nat -> Nat -> Nat -> Thumb2.Instr} (hop : opcode = 0b00011#5 ++ y ++ 0#9)
    (hdecode : forall d n m : BitVec 3, Thumb2.decode16 (narrow 0b00011#5 (y ++ m) n d) =
      some (mk d.toNat n.toNat m.toNat))
    (hexec : forall {σ : Type} (bus : Bus Word Word σ) (d n m : Nat) (c : Core σ),
      Thumb2.exec bus (mk d n m) c = .next (c.set d (f (c.regs n) (c.regs m))))
    (hdst : dst ≤ 7#8) (ha : a ≤ 7#8) (hb : b ≤ 7#8) :
    Implements Thumb2.leaf 1 (thumbThree opcode dst a b) dst.toNat
      (fun regs => f (regs a.toNat) (regs b.toNat)) := by
  unfold thumbThree
  rw [if_neg (low_guard hdst ha hb)]
  refine ⟨[_], Nat.le_refl 1, emits_pushUnit _, ?_⟩
  intro σ bus c
  obtain ⟨d, rfl⟩ := exists_low hdst
  obtain ⟨n, rfl⟩ := exists_low ha
  obtain ⟨m, rfl⟩ := exists_low hb
  rw [narrow_three d n m y opcode hop]
  refine executes_instr (i := mk d.toNat n.toNat m.toNat) (by simp)
    (decode_narrow_format _ _ _ _ (by decide) (hdecode d n m)) ?_
  simp only [toNat_setWidth_eight (show 3 ≤ 8 by decide)]
  exact hexec bus _ _ _ c

theorem thumb2_add_implements (hdst : dst ≤ 7#8) (ha : a ≤ 7#8) (hb : b ≤ 7#8) :
    Implements Thumb2.leaf 1 (thumb2Emitter.add dst a b) dst.toNat
      (fun regs => regs a.toNat + regs b.toNat) :=
  thumbThree_implements (f := (· + ·)) (by decide) (fun d n m => decode16_adds n d m)
    (fun _ _ _ _ _ => rfl) hdst ha hb

theorem thumb2_sub_implements (hdst : dst ≤ 7#8) (ha : a ≤ 7#8) (hb : b ≤ 7#8) :
    Implements Thumb2.leaf 1 (thumb2Emitter.sub dst a b) dst.toNat
      (fun regs => regs a.toNat - regs b.toNat) :=
  thumbThree_implements (f := (· - ·)) (by decide) (fun d n m => decode16_subs n d m)
    (fun _ _ _ _ _ => rfl) hdst ha hb

/-- MULS and the register move, as far as they are the same. -/
theorem thumbTwo_executes {op x : BitVec 5} {opcode : Half} {mk : Nat -> Nat -> Thumb2.Instr}
    (hop : opcode = op ++ x ++ 0#6) (hnarrow : op.toNat < 29)
    (hdecode : forall d n : BitVec 3, Thumb2.decode16 (narrow op x n d) =
      some (mk d.toNat n.toNat))
    (hdst : dst ≤ 7#8) (ha : a ≤ 7#8) {bus : Bus Word Word σ} {c c' : Core σ}
    (hexec : Thumb2.exec bus (mk dst.toNat a.toNat) c = .next c') :
    Executes Thumb2.leaf bus [opcode ||| (a.setWidth 16 <<< 3) ||| dst.setWidth 16] c c' := by
  obtain ⟨d, rfl⟩ := exists_low hdst
  obtain ⟨n, rfl⟩ := exists_low ha
  rw [narrow_two d n op x opcode hop]
  simp only [toNat_setWidth_eight (show 3 ≤ 8 by decide)] at hexec
  exact executes_instr (by simp) (decode_narrow_format _ _ _ _ hnarrow (hdecode d n)) hexec

/-- MULS takes its second operand after the first has moved to the destination. -/
theorem thumb2_mul_implements (hdst : dst ≤ 7#8) (ha : a ≤ 7#8) (hb : b ≤ 7#8) :
    Implements Thumb2.leaf 2 (thumb2Emitter.mul dst a b) dst.toNat
      (fun regs => regs a.toNat * regs (if b = dst then a else b).toNat) := by
  show Implements _ _ (if 7#8 < dst ∨ 7#8 < a ∨ 7#8 < b then throw .badRegister
    else if a ≠ dst then do
      pushUnit ((a.setWidth 16 <<< 3) ||| dst.setWidth 16)
      pushUnit (0x4340#16 ||| (b.setWidth 16 <<< 3) ||| dst.setWidth 16)
    else pushUnit (0x4340#16 ||| (b.setWidth 16 <<< 3) ||| dst.setWidth 16)) _ _
  rw [if_neg (low_guard hdst ha hb)]
  have hmuls : forall {σ : Type} (bus : Bus Word Word σ) (c : Core σ),
      Executes Thumb2.leaf bus [0x4340#16 ||| (b.setWidth 16 <<< 3) ||| dst.setWidth 16] c
        (c.set dst.toNat (c.regs dst.toNat * c.regs b.toNat)) := by
    intro σ bus c
    exact thumbTwo_executes (by decide) (by decide) (fun d m => decode16_muls m d) hdst hb rfl
  by_cases hsame : a = dst
  · rw [if_neg (not_not.mpr hsame)]
    refine ⟨[_], by simp, emits_pushUnit _, ?_⟩
    intro σ bus c
    have hoperand : (if b = dst then a else b) = b := by
      by_cases hb : b = dst
      · rw [if_pos hb, hsame, hb]
      · rw [if_neg hb]
    rw [hoperand, hsame]
    exact hmuls bus c
  · rw [if_pos hsame]
    refine ⟨_, by simp, emits_bind (emits_pushUnit _) (emits_pushUnit _), ?_⟩
    intro σ bus c
    have hmove : Executes Thumb2.leaf bus [(a.setWidth 16 <<< 3) ||| dst.setWidth 16] c
        (c.set dst.toNat (c.regs a.toNat)) := by
      rw [← BitVec.zero_or (x := a.setWidth 16 <<< 3)]
      exact thumbTwo_executes (by decide) (by decide) (fun d n => decode16_movsReg n d) hdst ha
        rfl
    refine executes_append hmove ?_
    have h := hmuls bus (c.set dst.toNat (c.regs a.toNat))
    rw [Core.set_set, Core.set_regs, if_pos rfl, Core.set_regs] at h
    by_cases hb : b = dst
    · rw [if_pos (congrArg BitVec.toNat hb)] at h
      rw [if_pos hb]
      exact h
    · rw [if_neg (fun heq => hb (BitVec.eq_of_toNat_eq heq))] at h
      rw [if_neg hb]
      exact h

/-- The second halfword of SDIV lacks three of its fixed bits. -/
theorem decode_sdiv (hdst : dst ≤ 7#8) (ha : a ≤ 7#8) (hb : b ≤ 7#8) (rest : List Half) :
    Thumb2.decode ((encodeSdiv dst a b).1 :: (encodeSdiv dst a b).2 :: rest) = none := by
  obtain ⟨d, rfl⟩ := exists_low hdst
  obtain ⟨n, rfl⟩ := exists_low ha
  obtain ⟨m, rfl⟩ := exists_low hb
  have hopcode : (encodeSdiv (d.setWidth 8) (n.setWidth 8) (m.setWidth 8)).1.extractLsb' 11 5 =
      0b11111#5 := by
    unfold encodeSdiv
    ext i hi
    interval_cases i <;> simp
  have hfixed : (encodeSdiv (d.setWidth 8) (n.setWidth 8) (m.setWidth 8)).2.extractLsb' 4 4 =
      0b0001#4 := by
    unfold encodeSdiv
    ext i hi
    interval_cases i <;> simp
  have hwide : Thumb2.isWide (encodeSdiv (d.setWidth 8) (n.setWidth 8) (m.setWidth 8)).1 =
      true := by
    unfold Thumb2.isWide
    rw [hopcode]
    decide
  rw [Thumb2.decode_wide hwide]
  unfold Thumb2.decode32
  rw [hopcode, hfixed, if_neg (fun h => absurd h.left (by decide)),
    if_neg (fun h => absurd h.left (by decide)), if_neg (fun h => absurd h.right (by decide))]
  rfl

theorem thumb2_div_emits (hdst : dst ≤ 7#8) (ha : a ≤ 7#8) (hb : b ≤ 7#8) :
    Emits [(encodeSdiv dst a b).1, (encodeSdiv dst a b).2] (thumb2Emitter.div dst a b) := by
  have hguard : ¬ (15#8 < dst ∨ 15#8 < a ∨ 15#8 < b) := by
    simp only [not_or, BitVec.not_lt]
    exact ⟨BitVec.le_trans hdst (by decide), BitVec.le_trans ha (by decide),
      BitVec.le_trans hb (by decide)⟩
  show Emits _ (if 15#8 < dst ∨ 15#8 < a ∨ 15#8 < b then throw .badRegister
    else pushUnit (encodeSdiv dst a b).1 >>= fun _ => pushUnit (encodeSdiv dst a b).2)
  rw [if_neg hguard]
  exact emits_bind (emits_pushUnit _) (emits_pushUnit _)

theorem not_thumb2_div_computes (hdst : dst ≤ 7#8) (ha : a ≤ 7#8) (hb : b ≤ 7#8)
    (value : (Nat -> Word) -> Word) :
    ¬ Computes Thumb2.leaf (thumb2Emitter.div dst a b) dst.toNat value := by
  intro h
  obtain ⟨c', hexec, _⟩ := h.sets (thumb2_div_emits hdst ha hb) (Bus.constant 0#32)
    ⟨fun _ => 0#32, (), []⟩
  refine not_executes thumb2_returns ?_ _ _ _ hexec
  exact decode_sdiv hdst ha hb

/-- The product has the wrong operand exactly when the move has overwritten it. -/
theorem thumb2_mul_computes_iff (hdst : dst ≤ 7#8) (ha : a ≤ 7#8) (hb : b ≤ 7#8) :
    Computes Thumb2.leaf (thumb2Emitter.mul dst a b) dst.toNat
      (fun regs => regs a.toNat * regs b.toNat) ↔ a = dst ∨ b ≠ dst := by
  rw [(thumb2_mul_implements hdst ha hb).computes_iff thumb2_returns]
  by_cases hbd : b = dst
  · rw [if_pos hbd]
    constructor
    · intro h
      by_contra hnot
      have hab : a.toNat ≠ b.toNat := by
        intro heq
        exact hnot (Or.inl ((BitVec.eq_of_toNat_eq heq).trans hbd))
      have hone := h (fun r => if r = a.toNat then 1#32 else 0#32)
      simp only [if_pos, if_neg hab.symm] at hone
      exact absurd hone (by decide)
    · rintro (h | h) regs
      · rw [hbd, h]
      · exact absurd hbd h
  · rw [if_neg hbd]
    exact iff_of_true (fun _ => rfl) (Or.inr hbd)

/-- Sums and differences are right on all registers, products where the destination is not
the second operand alone, quotients nowhere. -/
theorem thumb2_arith_iff (op : ArithOp) (hdst : dst ≤ 7#8) (ha : a ≤ 7#8) (hb : b ≤ 7#8) :
    Computes Thumb2.leaf (op.emit thumb2Emitter dst a b) dst.toNat
        (fun regs => op.contract (regs a.toNat) (regs b.toNat)) ↔
      op = .add ∨ op = .sub ∨ (op = .mul ∧ (a = dst ∨ b ≠ dst)) := by
  cases op with
  | add => exact iff_of_true (thumb2_add_implements hdst ha hb).computes (Or.inl rfl)
  | sub => exact iff_of_true (thumb2_sub_implements hdst ha hb).computes (Or.inr (Or.inl rfl))
  | mul =>
      refine (thumb2_mul_computes_iff hdst ha hb).trans ⟨fun h => Or.inr (Or.inr ⟨rfl, h⟩), ?_⟩
      rintro (h | h | h)
      · cases h
      · cases h
      · exact h.right
  | div =>
      refine iff_of_false (not_thumb2_div_computes hdst ha hb _) ?_
      rintro (h | h | h)
      · cases h
      · cases h
      · cases h.left

/-- `r2 = r3 - r3`. -/
theorem thumb2_sub_same :
    Computes Thumb2.leaf (ArithOp.emit thumb2Emitter .sub 2#8 3#8 3#8) 2
      (fun regs => ArithOp.contract .sub (regs 3) (regs 3)) :=
  (thumb2_arith_iff .sub (show 2#8 ≤ 7#8 by decide) (show 3#8 ≤ 7#8 by decide)
    (show 3#8 ≤ 7#8 by decide)).mpr (Or.inr (Or.inl rfl))

/-- `r0 = r1 * r0` gives the square of r1, and `r0 = r0 / r1` does not decode. -/
theorem not_thumb2_mul_div_computes :
    ¬ Computes Thumb2.leaf (ArithOp.emit thumb2Emitter .mul 0#8 1#8 0#8) 0
        (fun regs => ArithOp.contract .mul (regs 1) (regs 0)) ∧
      ¬ Computes Thumb2.leaf (ArithOp.emit thumb2Emitter .div 0#8 0#8 1#8) 0
        (fun regs => ArithOp.contract .div (regs 0) (regs 1)) := by
  constructor
  · intro h
    have hiff := (thumb2_mul_computes_iff (show 0#8 ≤ 7#8 by decide)
      (show 1#8 ≤ 7#8 by decide) (show 0#8 ≤ 7#8 by decide)).mp h
    exact absurd hiff (by decide)
  · exact not_thumb2_div_computes (show 0#8 ≤ 7#8 by decide)
      (show 0#8 ≤ 7#8 by decide) (show 1#8 ≤ 7#8 by decide) _

end Thumb2

/-!
## RV32
-/

section Rv32

namespace ArithOp

/-- The word that the RISC-V emitter pushes. -/
def rvUnit : ArithOp -> RegNo -> RegNo -> RegNo -> Word
  | .add, dst, a, b => encodeRtypeAddsub dst a b false
  | .sub, dst, a, b => encodeRtypeAddsub dst a b true
  | .mul, dst, a, b => encodeRtype dst a b 0x01#32 0x00#32
  | .div, dst, a, b => encodeRtype dst a b 0x01#32 0x04#32

def rvInstr : ArithOp -> Nat -> Nat -> Nat -> Rv32.Instr
  | .add => .add
  | .sub => .sub
  | .mul => .mul
  | .div => .div

/-- What RV32IM computes. -/
def rvValue : ArithOp -> Word -> Word -> Word
  | .add, x, y => x + y
  | .sub, x, y => x - y
  | .mul, x, y => x * y
  | .div, x, y => Rv32.divide x y

end ArithOp

variable (op : ArithOp) (dst a b : RegNo)

theorem emit_riscv32 : op.emit riscv32Emitter dst a b = pushUnit (op.rvUnit dst a b) := by
  cases op <;> rfl

theorem decodeOp_rvWord (f7 : BitVec 7) (s2 s1 d : BitVec 5) (f3 : BitVec 3)
    (h : (f7 = 0b0000000#7 ∧ f3 = 0b000#3 ∧ op = .add) ∨
      (f7 = 0b0100000#7 ∧ f3 = 0b000#3 ∧ op = .sub) ∨
      (f7 = 0b0000001#7 ∧ f3 = 0b000#3 ∧ op = .mul) ∨
      (f7 = 0b0000001#7 ∧ f3 = 0b100#3 ∧ op = .div)) :
    Rv32.decodeOp (rvWord f7 s2 s1 f3 d 0b0110011#7) =
      some (op.rvInstr d.toNat s1.toNat s2.toNat) := by
  unfold Rv32.decodeOp Rv32.rd Rv32.rs1 Rv32.rs2
  rw [rvWord_f7, rvWord_f3, rvWord_d, rvWord_s1, rvWord_s2]
  rcases h with ⟨rfl, rfl, rfl⟩ | ⟨rfl, rfl, rfl⟩ | ⟨rfl, rfl, rfl⟩ | ⟨rfl, rfl, rfl⟩ <;> rfl

/-- The register fields keep five bits of the numbers they are given. -/
theorem decode_rvUnit (rest : List Word) :
    Rv32.decode (op.rvUnit dst a b :: rest) =
      some (op.rvInstr (dst.toNat % 32) (a.toNat % 32) (b.toNat % 32), rest) := by
  have hword : exists f7 f3,
      op.rvUnit dst a b = encodeRtype dst a b (f7.setWidth 32) (f3.setWidth 32) ∧
      ((f7 = 0b0000000#7 ∧ f3 = 0b000#3 ∧ op = .add) ∨
        (f7 = 0b0100000#7 ∧ f3 = 0b000#3 ∧ op = .sub) ∨
        (f7 = 0b0000001#7 ∧ f3 = 0b000#3 ∧ op = .mul) ∨
        (f7 = 0b0000001#7 ∧ f3 = 0b100#3 ∧ op = .div)) := by
    cases op with
    | add => exact ⟨0b0000000#7, 0b000#3, encodeRtypeAddsub_eq dst a b false, by simp⟩
    | sub => exact ⟨0b0100000#7, 0b000#3, encodeRtypeAddsub_eq dst a b true, by simp⟩
    | mul => exact ⟨0b0000001#7, 0b000#3, rfl, by simp⟩
    | div => exact ⟨0b0000001#7, 0b100#3, rfl, by simp⟩
  obtain ⟨f7, f3, hunit, hop⟩ := hword
  rw [hunit, rvWord_rtype, Rv32.decode_cons, decodeWord_rtype, decodeOp_rvWord op _ _ _ _ _ hop,
    toNat_setWidth_five, toNat_setWidth_five, toNat_setWidth_five]
  rfl

theorem exec_rvInstr (bus : Bus Word Word σ) (d s1 s2 : Nat) (c : Core σ) :
    Rv32.exec bus (op.rvInstr d s1 s2) c =
      .next (c.set d (op.rvValue (Rv32.read c s1) (Rv32.read c s2))) := by
  cases op <;> rfl

theorem rvUnit_executes (bus : Bus Word Word σ) (c : Core σ) :
    Executes Rv32.leaf bus [op.rvUnit dst a b] c (c.set (dst.toNat % 32)
      (op.rvValue (Rv32.read c (a.toNat % 32)) (Rv32.read c (b.toNat % 32)))) :=
  executes_instr (by simp) (fun rest => decode_rvUnit op dst a b rest) (exec_rvInstr op bus _ _ _ c)

/-- Only division by zero differs from the contract. -/
theorem rvValue_eq_contract_iff (x y : Word) :
    op.rvValue x y = op.contract x y ↔ (op = .div -> y ≠ 0#32) := by
  cases op with
  | add => exact iff_of_true rfl (fun h => by cases h)
  | sub => exact iff_of_true rfl (fun h => by cases h)
  | mul => exact iff_of_true rfl (fun h => by cases h)
  | div =>
      show Rv32.divide x y = (if y = 0#32 then 0#32 else x.sdiv y) ↔ _
      unfold Rv32.divide
      by_cases hy : y = 0#32
      · rw [if_pos hy, if_pos hy]
        exact iff_of_false (by decide) (fun h => h rfl hy)
      · rw [if_neg hy, if_neg hy]
        exact iff_of_true rfl (fun _ => hy)

/-- The call is refused with nothing emitted, or all register numbers are registers, the
destination is not x0, and the one word that is emitted sets the destination alone, as the
contract says. -/
def RvMeets (buf : EmitBuffer Word) (regs : Nat -> Word) : Prop :=
  op.emit riscv32Emitter dst a b buf = .error .badRegister buf ∨
    (dst < 32#8 ∧ a < 32#8 ∧ b < 32#8 ∧ dst ≠ 0#8 ∧
      exists w, op.emit riscv32Emitter dst a b buf = .ok () { buf with code := buf.code ++ [w] } ∧
        forall {σ : Type} (bus : Bus Word Word σ) (c : Core σ), c.regs = regs ->
          SetsOnly Rv32.leaf bus [w] c dst.toNat
            (op.contract (Rv32.read c a.toNat) (Rv32.read c b.toNat)))

variable {op dst a b}

/-- The emitter never answers `BadRegister`. -/
theorem emit_riscv32_cases (buf : EmitBuffer Word) :
    (buf.capWords ≤ buf.code.length ∧
        op.emit riscv32Emitter dst a b buf = .error .overflow buf) ∨
      (buf.code.length < buf.capWords ∧ op.emit riscv32Emitter dst a b buf =
        .ok () { buf with code := buf.code ++ [op.rvUnit dst a b] }) := by
  rw [emit_riscv32]
  by_cases hroom : buf.capWords ≤ buf.code.length
  · refine Or.inl ⟨hroom, ?_⟩
    unfold pushUnit
    rw [bind_apply, get_apply]
    show (if buf.capWords ≤ buf.code.length then throw .overflow
      else set { buf with code := buf.code ++ [op.rvUnit dst a b] } : EmitM Word PUnit) buf = _
    rw [if_pos hroom]
    rfl
  · exact Or.inr ⟨Nat.not_le.mp hroom, appends_pushUnit _ buf (Nat.not_le.mp hroom)⟩

theorem RvMeets.registers {buf : EmitBuffer Word} {regs : Nat -> Word}
    (h : RvMeets op dst a b buf regs) :
    buf.code.length < buf.capWords ∧ dst < 32#8 ∧ a < 32#8 ∧ b < 32#8 ∧ dst ≠ 0#8 := by
  rcases (emit_riscv32_cases buf : (_ ∧ op.emit riscv32Emitter dst a b buf = _) ∨ _) with
    ⟨_, hrun⟩ | ⟨hroom, hrun⟩
  · rcases h with h | ⟨_, _, _, _, w, h, _⟩
    · rw [hrun] at h
      cases h
    · rw [hrun] at h
      cases h
  · rcases h with h | ⟨hdst, ha, hb, hzero, _⟩
    · rw [hrun] at h
      cases h
    · exact ⟨hroom, hdst, ha, hb, hzero⟩

theorem mod_of_register {r : RegNo} (h : r < 32#8) : r.toNat % 32 = r.toNat :=
  Nat.mod_eq_of_lt h

theorem read_ne_zero_iff (c : Core σ) (r : RegNo) :
    Rv32.read c r.toNat ≠ 0#32 ↔ r ≠ 0#8 ∧ c.regs r.toNat ≠ 0#32 := by
  have hx0 : r.toNat = 0 ↔ r = 0#8 := by
    rw [← BitVec.toNat_inj]
    rfl
  unfold Rv32.read
  by_cases h : r = 0#8
  · rw [if_pos (hx0.mpr h)]
    exact iff_of_false (fun hne => hne rfl) (fun hne => hne.left h)
  · rw [if_neg (fun hr => h (hx0.mp hr))]
    exact ⟨fun hne => ⟨h, hne⟩, fun hne => hne.right⟩

/-- With registers for register numbers, it is a matter of the value. -/
theorem rvMeets_iff_value {buf : EmitBuffer Word} (regs : Nat -> Word)
    (hroom : buf.code.length < buf.capWords) (hdst : dst < 32#8) (ha : a < 32#8) (hb : b < 32#8)
    (hzero : dst ≠ 0#8) :
    RvMeets op dst a b buf regs ↔ (op = .div -> b ≠ 0#8 ∧ regs b.toNat ≠ 0#32) := by
  have hrun : op.emit riscv32Emitter dst a b buf =
      .ok () { buf with code := buf.code ++ [op.rvUnit dst a b] } := by
    rw [emit_riscv32]
    exact appends_pushUnit _ buf hroom
  have hexec : forall {σ : Type} (bus : Bus Word Word σ) (c : Core σ),
      Executes Rv32.leaf bus [op.rvUnit dst a b] c (c.set dst.toNat
        (op.rvValue (Rv32.read c a.toNat) (Rv32.read c b.toNat))) := by
    intro σ bus c
    have h := rvUnit_executes op dst a b bus c
    rw [mod_of_register hdst, mod_of_register ha, mod_of_register hb] at h
    exact h
  constructor
  · intro h
    rcases h with h | ⟨_, _, _, _, w, h, hsets⟩
    · rw [hrun] at h
      cases h
    · have hw : [op.rvUnit dst a b] = [w] := by
        rw [hrun] at h
        injection h with _ hbuf
        exact List.append_cancel_left (congrArg EmitBuffer.code hbuf)
      rw [← hw] at hsets
      have hvalue := setsOnly_value rv32_returns (hexec (Bus.constant 0#32) ⟨regs, (), []⟩)
        (hsets (Bus.constant 0#32) ⟨regs, (), []⟩ rfl)
      rw [rvValue_eq_contract_iff] at hvalue
      exact fun hop => (read_ne_zero_iff _ b).mp (hvalue hop)
  · intro h
    refine Or.inr ⟨hdst, ha, hb, hzero, op.rvUnit dst a b, hrun, ?_⟩
    intro σ bus c hc
    have hvalue := (rvValue_eq_contract_iff op (Rv32.read c a.toNat) (Rv32.read c b.toNat)).mpr
      (fun hop => (read_ne_zero_iff c b).mpr (by rw [hc]; exact h hop))
    rw [← hvalue]
    exact setsOnly_set (hexec bus c)

/-- The contract is met exactly with room in the buffer, on registers x0 to x31 with
another destination than x0, and by a division only if the divisor is not zero. -/
theorem rv32_arith_iff (op : ArithOp) (dst a b : RegNo) (buf : EmitBuffer Word)
    (regs : Nat -> Word) :
    RvMeets op dst a b buf regs ↔
      buf.code.length < buf.capWords ∧ dst < 32#8 ∧ a < 32#8 ∧ b < 32#8 ∧ dst ≠ 0#8 ∧
        (op = .div -> b ≠ 0#8 ∧ regs b.toNat ≠ 0#32) := by
  constructor
  · intro h
    obtain ⟨hroom, hdst, ha, hb, hzero⟩ := h.registers
    exact ⟨hroom, hdst, ha, hb, hzero, (rvMeets_iff_value regs hroom hdst ha hb hzero).mp h⟩
  · rintro ⟨hroom, hdst, ha, hb, hzero, hvalue⟩
    exact (rvMeets_iff_value regs hroom hdst ha hb hzero).mpr hvalue

/-- `x10 = x11 / x12` with zero in x12 gives all ones; `x33 = x10 + x11` goes to x1. -/
theorem not_rvMeets_div_zero :
    ¬ RvMeets .div 10#8 11#8 12#8 { capWords := 192, code := [] } (fun _ => 0#32) ∧
      ¬ RvMeets .add 33#8 10#8 11#8 { capWords := 192, code := [] } (fun _ => 0#32) := by
  constructor
  · intro h
    have hvalue := (rvMeets_iff_value (fun _ => 0#32) (by decide) (by decide) (by decide)
      (by decide) (by decide)).mp h
    exact (hvalue rfl).right rfl
  · intro h
    exact absurd h.registers.right.left (by decide)

end Rv32

end Execution
end HolyRust
