import HolyRust.Execution.Encodings

/-!
# Immediate loads

The code that `emit_mov_imm` leaves in the buffer, for every register and every
literal.  On Thumb-2 it loads the literal.  On RV32 it does so for the literals
that fit the immediate of one ADDI; for all others the operand of LUI is eight
bits too high.
-/

namespace HolyRust
namespace Execution

open Foundation
open Compilation
open Isa

/-!
## What an emitter call leaves behind
-/

/-- `x` appends exactly `units` whenever it succeeds, and succeeds with room for them. -/
structure Emits (units : List unit) (x : EmitM unit Unit) : Prop where
  appends : Appends units x
  only : forall b b', x b = .ok () b' -> b'.code = b.code ++ units

theorem emits_pure : Emits ([] : List unit) (pure ()) where
  appends := appends_pure
  only := by
    intro b b' h
    cases h
    rw [List.append_nil]

theorem emits_pushUnit (u : unit) : Emits [u] (pushUnit u) where
  appends := appends_pushUnit u
  only := by
    intro b b' h
    unfold pushUnit at h
    rw [bind_apply, get_apply] at h
    change (if b.capWords ≤ b.code.length then throw .overflow
      else set { b with code := b.code ++ [u] } : EmitM unit PUnit) b = _ at h
    split at h
    · cases h
    · cases h
      rfl

theorem emits_bind {us vs : List unit} {x y : EmitM unit Unit} (hx : Emits us x)
    (hy : Emits vs y) : Emits (us ++ vs) (x >>= fun _ => y) where
  appends := appends_bind hx.appends hy.appends
  only := by
    intro b b' h
    rw [bind_apply] at h
    cases hrun : x b with
    | ok _ b1 =>
        rw [hrun] at h
        rw [hy.only b1 b' h, hx.only b b1 hrun, List.append_assoc]
    | error e b1 =>
        rw [hrun] at h
        cases h

/-- From `c`, the units put `v` into register `r` and leave all others as they are. -/
def SetsOnly (isa : Leaf unit instr) (bus : Bus Word Word σ) (units : List unit) (c : Core σ)
    (r : Nat) (v : Word) : Prop :=
  exists c', Executes isa bus units c c' ∧ c'.regs r = v ∧
    forall q, q ≠ r -> c'.regs q = c.regs q

/-- Whenever the emitter call succeeds, what it has appended sets register `r` to a
function of the registers before. -/
def Computes (isa : Leaf unit instr) (x : EmitM unit Unit) (r : Nat)
    (value : (Nat -> Word) -> Word) : Prop :=
  forall b b', x b = .ok () b' -> exists units, b'.code = b.code ++ units ∧
    forall {σ : Type} (bus : Bus Word Word σ) (c : Core σ),
      SetsOnly isa bus units c r (value c.regs)

theorem setsOnly_set {isa : Leaf unit instr} {bus : Bus Word Word σ} {units : List unit}
    {c : Core σ} {r : Nat} {v : Word} (h : Executes isa bus units c (c.set r v)) :
    SetsOnly isa bus units c r v := by
  refine ⟨c.set r v, h, ?_, ?_⟩
  · rw [Core.set_regs, if_pos rfl]
  · intro q hq
    rw [Core.set_regs, if_neg hq]

/-- A unit of the set returns to the caller. -/
def Returns (isa : Leaf unit instr) (u : unit) : Prop :=
  forall {σ : Type} (bus : Bus Word Word σ) (c : Core σ) (fuel : Nat) (rest : List unit),
    isa.run bus (fuel + 1) (u :: rest) c = some c

/-- Where units end is determined, as one sees by returning behind them. -/
theorem executes_unique {isa : Leaf unit instr} {u : unit} (hret : Returns isa u)
    {bus : Bus Word Word σ} {units : List unit} {c c1 c2 : Core σ}
    (h1 : Executes isa bus units c c1) (h2 : Executes isa bus units c c2) : c1 = c2 := by
  obtain ⟨n, _, hn⟩ := h1
  obtain ⟨m, _, hm⟩ := h2
  have hfirst : isa.run bus (m + 1 + n) (units ++ [u]) c = some c1 := by
    rw [hn]
    exact hret bus c1 m []
  have hsecond : isa.run bus (n + 1 + m) (units ++ [u]) c = some c2 := by
    rw [hm]
    exact hret bus c2 n []
  rw [show m + 1 + n = n + 1 + m by lia, hsecond] at hfirst
  cases hfirst
  rfl

theorem setsOnly_value {isa : Leaf unit instr} {u : unit} (hret : Returns isa u)
    {bus : Bus Word Word σ} {units : List unit} {c : Core σ} {r : Nat} {v w : Word}
    (h : Executes isa bus units c (c.set r v)) (hsets : SetsOnly isa bus units c r w) :
    v = w := by
  obtain ⟨c', hc', hvalue, _⟩ := hsets
  rw [← executes_unique hret h hc', Core.set_regs, if_pos rfl] at hvalue
  exact hvalue

/-- The emitter call appends at most `k` units, and they set `r` and do nothing else. -/
def Implements (isa : Leaf unit instr) (k : Nat) (x : EmitM unit Unit) (r : Nat)
    (value : (Nat -> Word) -> Word) : Prop :=
  exists units, units.length ≤ k ∧ Emits units x ∧
    forall {σ : Type} (bus : Bus Word Word σ) (c : Core σ),
      Executes isa bus units c (c.set r (value c.regs))

theorem Implements.computes {isa : Leaf unit instr} {k : Nat} {x : EmitM unit Unit} {r : Nat}
    {value : (Nat -> Word) -> Word} (h : Implements isa k x r value) :
    Computes isa x r value := by
  obtain ⟨units, _, hemits, hexec⟩ := h
  intro b b' hrun
  exact ⟨units, hemits.only b b' hrun, fun bus c => setsOnly_set (hexec bus c)⟩

/-- With room for the units there is a successful call to look at. -/
theorem Computes.sets {isa : Leaf unit instr} {x : EmitM unit Unit} {units : List unit}
    (hemits : Emits units x) {r : Nat} {value : (Nat -> Word) -> Word}
    (h : Computes isa x r value) (bus : Bus Word Word σ) (c : Core σ) :
    SetsOnly isa bus units c r (value c.regs) := by
  have hrun := hemits.appends { capWords := units.length, code := [] } (by simp)
  obtain ⟨us, hcode, hsets⟩ := h _ _ hrun
  rw [List.nil_append] at hcode
  change units = us at hcode
  rw [hcode]
  exact hsets bus c

/-- Code that computes one value computes another only if they are always the same. -/
theorem Implements.computes_iff {isa : Leaf unit instr} {u : unit} (hret : Returns isa u)
    {k : Nat} {x : EmitM unit Unit} {r : Nat} {value value' : (Nat -> Word) -> Word}
    (h : Implements isa k x r value) :
    Computes isa x r value' ↔ forall regs, value regs = value' regs := by
  constructor
  · intro hcomputes regs
    obtain ⟨units, _, hemits, hexec⟩ := h
    have hsets := hcomputes.sets hemits (Bus.constant 0#32) ⟨regs, (), []⟩
    exact setsOnly_value hret (hexec _ _) hsets
  · intro heq
    rw [← funext heq]
    exact h.computes

/-!
## Thumb-2
-/

section Thumb2

theorem thumb2_ret (rest : List Half) :
    Thumb2.decode (0x4770#16 :: rest) = some (.bx 14, rest) := by
  have hdecode : Thumb2.decode16 0x4770#16 = some (.bx 14) := by decide
  rw [Thumb2.decode_narrow (by decide), hdecode]
  rfl

theorem thumb2_returns : Returns Thumb2.leaf 0x4770#16 :=
  fun _ _ _ rest => Leaf.run_ret (thumb2_ret rest) rfl

/-- One to four halfwords that put the literal into the register. -/
theorem thumb2_mov {r : RegNo} (hreg : ¬ 15#8 < r) (v : Word) :
    Implements Thumb2.leaf 4 (thumb2Emitter.movImm r v) r.toNat (fun _ => v) := by
  show exists units, _ ∧ Emits units (Thumb2Emitter.emitMovImm r v) ∧ _
  unfold Thumb2Emitter.emitMovImm
  rw [if_neg hreg]
  by_cases hbyte : v ≤ 0xFF#32 ∧ r < 8#8
  · refine ⟨[movsUnit r v], by simp, ?_, ?_⟩
    · rw [if_pos hbyte]
      exact emits_pushUnit _
    · intro σ bus c
      refine executes_instr (i := .movs r.toNat (v.setWidth 8)) (by simp)
        (fun rest => decode_movsUnit hbyte.right v rest) ?_
      show Flow.next (c.set r.toNat ((v.setWidth 8).setWidth 32)) = _
      rw [setWidth_of_le hbyte.left]
  · rw [if_neg hbyte]
    have hmovw : forall {σ : Type} (bus : Bus Word Word σ) (c : Core σ),
        Executes Thumb2.leaf bus [(encodeMovw r v).1, (encodeMovw r v).2] c
          (c.set r.toNat ((v.setWidth 16).setWidth 32)) := by
      intro σ bus c
      exact executes_instr (i := .movw r.toNat (v.setWidth 16)) (by simp)
        (fun rest => decode_movw hreg v rest) rfl
    by_cases hhigh : v >>> 16 = 0#32
    · refine ⟨[(encodeMovw r v).1, (encodeMovw r v).2], by simp, ?_, ?_⟩
      · rw [if_neg (not_not.mpr hhigh)]
        exact emits_bind (emits_pushUnit _) (emits_bind (emits_pushUnit _) emits_pure)
      · intro σ bus c
        have h := hmovw bus c
        rw [movw_value hhigh] at h
        exact h
    · refine ⟨[(encodeMovw r v).1, (encodeMovw r v).2] ++
        [(encodeMovt r v).1, (encodeMovt r v).2], by simp, ?_, ?_⟩
      · rw [if_pos hhigh]
        have htop := emits_bind (emits_pushUnit (encodeMovt r v).1)
          (emits_pushUnit (encodeMovt r v).2)
        have hlow := emits_bind (emits_pushUnit (encodeMovw r v).2) htop
        have hall := emits_bind (emits_pushUnit (encodeMovw r v).1) hlow
        exact hall
      · intro σ bus c
        refine executes_append (hmovw bus c) ?_
        refine executes_instr (i := .movt r.toNat ((v >>> 16).setWidth 16)) (by simp)
          (fun rest => decode_movt hreg v rest) ?_
        show Flow.next (Core.set _ r.toNat ((v >>> 16).setWidth 16 ++
          ((c.set r.toNat ((v.setWidth 16).setWidth 32)).regs r.toNat).setWidth 16)) = _
        rw [Core.set_regs, if_pos rfl, movt_value, Core.set_set]

/-- Every general register, the link register included, gets every literal. -/
theorem thumb2_movImm_computes {r : RegNo} (hr : r ≤ 12#8 ∨ r = 14#8) (imm : Word) :
    Computes Thumb2.leaf (thumb2Emitter.movImm r imm) r.toNat (fun _ => imm) := by
  have hreg : ¬ 15#8 < r := by
    rcases hr with hr | rfl
    · exact Nat.not_lt.mpr (Nat.le_trans hr (by decide))
    · decide
  exact (thumb2_mov hreg imm).computes

/-- `MOVW r12` and `MOVT r12`, in a fresh buffer. -/
theorem thumb2_movImm_r12 :
    exists b, thumb2Emitter.movImm 12#8 0xDEADBEEF#32 ⟨64, []⟩ = .ok () b ∧
      forall {σ : Type} (bus : Bus Word Word σ) (c : Core σ),
        SetsOnly Thumb2.leaf bus b.code c 12 0xDEADBEEF#32 := by
  have hfits : exists b, thumb2Emitter.movImm 12#8 0xDEADBEEF#32 ⟨64, []⟩ = .ok () b := ⟨_, rfl⟩
  rcases hfits with ⟨b, hb⟩
  rcases thumb2_movImm_computes (r := 12#8) (Or.inl (by decide)) 0xDEADBEEF#32 _ b hb with
    ⟨units, hcode, hruns⟩
  rw [List.nil_append] at hcode
  refine ⟨b, hb, ?_⟩
  rw [hcode]
  exact hruns

end Thumb2

/-!
## RV32
-/

section Rv32

/-- What LUI and ADDI, or ADDI alone, leave in the register. -/
def rvLoaded (v : Word) : Word :=
  if signedOk v then v else (hi20 v <<< 20) + lo12 v

theorem hi20_toNat (v : Word) : (hi20 v).toNat = (v.toNat + 2048) % 2 ^ 32 / 4096 := by
  unfold hi20
  rw [BitVec.toNat_ushiftRight, Nat.shiftRight_eq_div_pow, BitVec.toNat_add]
  simp only [BitVec.toNat_ofNat]

theorem hi20_shift_toNat (v : Word) : (hi20 v <<< 12).toNat = (hi20 v).toNat * 4096 := by
  have hv := hi20_toNat v
  rw [BitVec.toNat_shiftLeft, Nat.shiftLeft_eq]
  omega

/-- Rounding leaves a lower part that fits. -/
theorem signedOk_lo12 (v : Word) : signedOk (lo12 v) = true := by
  rw [signedOk_iff]
  unfold lo12
  have hhi := hi20_toNat v
  have hshift := hi20_shift_toNat v
  have hv := v.isLt
  rw [BitVec.toNat_sub, hshift]
  lia

/-- A literal that needs LUI is never loaded as it is. -/
theorem rvLoaded_eq_iff (v : Word) : rvLoaded v = v ↔ signedOk v = true := by
  unfold rvLoaded
  by_cases h : signedOk v = true
  · rw [if_pos h]
    exact iff_of_true rfl h
  · rw [if_neg h]
    refine iff_of_false ?_ h
    intro heq
    apply h
    have hshift : hi20 v <<< 20 = hi20 v <<< 12 := by
      unfold lo12 at heq
      generalize hi20 v <<< 20 = x at *
      generalize hi20 v <<< 12 = y at *
      bv_omega
    have hnat := congrArg BitVec.toNat hshift
    rw [hi20_shift_toNat, BitVec.toNat_shiftLeft, Nat.shiftLeft_eq] at hnat
    have hhi := hi20_toNat v
    have hv := v.isLt
    have hzero : (hi20 v).toNat = 0 := by lia
    rw [signedOk_iff]
    lia

theorem rv32_ret (rest : List Word) :
    Rv32.decode (rv32Ret :: rest) = some (.jalr 0 1 0#12, rest) := by
  have hdecode : Rv32.decodeWord rv32Ret = some (.jalr 0 1 0#12) := by decide
  rw [Rv32.decode_cons, hdecode]
  rfl

theorem rv32_returns : Returns Rv32.leaf rv32Ret :=
  fun _ _ _ rest => Leaf.run_ret (rv32_ret rest) rfl

theorem rv32_mov {r : RegNo} (hr : 1#8 ≤ r ∧ r ≤ 31#8) (v : Word) :
    Implements Rv32.leaf 2 (riscv32Emitter.movImm r v) r.toNat (fun _ => rvLoaded v) := by
  have hpos : 1 ≤ r.toNat := hr.left
  have hle : r.toNat ≤ 31 := hr.right
  have hmod : r.toNat % 32 = r.toNat := Nat.mod_eq_of_lt (by lia)
  show exists units, _ ∧ Emits units (Riscv32Emitter.emitMovImm r v) ∧ _
  unfold Riscv32Emitter.emitMovImm rvLoaded
  by_cases hok : signedOk v = true
  · rw [if_pos hok, if_pos hok]
    refine ⟨[encodeAddi r 0#8 v], by simp, emits_pushUnit _, ?_⟩
    intro σ bus c
    refine executes_instr (by simp) (fun rest => decode_addi r 0#8 v rest) ?_
    show Flow.next (c.set (r.toNat % 32) (0#32 + (v.setWidth 12).signExtend 32)) = _
    rw [BitVec.zero_add, signExtend_of_signedOk hok, hmod]
  · rw [if_neg hok, if_neg hok]
    have hlui : forall {σ : Type} (bus : Bus Word Word σ) (c : Core σ),
        Executes Rv32.leaf bus [encodeLui r (hi20 v)] c (c.set r.toNat (hi20 v <<< 20)) := by
      intro σ bus c
      refine executes_instr (by simp) (fun rest => decode_lui r (hi20 v) rest) ?_
      show Flow.next (c.set (r.toNat % 32) (_ ++ 0#12)) = _
      rw [lui_value, hmod]
    by_cases hlo : lo12 v = 0#32
    · refine ⟨[encodeLui r (hi20 v)], by simp, ?_, ?_⟩
      · rw [if_neg (not_not.mpr hlo)]
        exact emits_bind (emits_pushUnit _) emits_pure
      · intro σ bus c
        rw [hlo, BitVec.add_zero]
        exact hlui bus c
    · refine ⟨[encodeLui r (hi20 v)] ++ [encodeAddi r r (lo12 v)], by simp, ?_, ?_⟩
      · rw [if_pos hlo]
        exact emits_bind (emits_pushUnit _) (emits_pushUnit _)
      · intro σ bus c
        refine executes_append (hlui bus c) ?_
        refine executes_instr (by simp) (fun rest => decode_addi r r (lo12 v) rest) ?_
        show Flow.next (Core.set _ (r.toNat % 32) (Rv32.read _ (r.toNat % 32) + _)) = _
        unfold Rv32.read
        rw [hmod, if_neg (by lia), Core.set_regs, if_pos rfl,
          signExtend_of_signedOk (signedOk_lo12 v), Core.set_set]

theorem rv32_computes_iff {r : RegNo} (hr : 1#8 ≤ r ∧ r ≤ 31#8) (imm : Word) :
    Computes Rv32.leaf (riscv32Emitter.movImm r imm) r.toNat (fun _ => imm) ↔
      signedOk imm = true := by
  rw [(rv32_mov hr imm).computes_iff rv32_returns, ← rvLoaded_eq_iff]
  exact ⟨fun h => h (fun _ => 0#32), fun h _ => h⟩

/-- Exactly the signed 12-bit literals are loaded right. -/
theorem rv32_movImm_computes_iff {r : RegNo} (hr : 1#8 ≤ r ∧ r ≤ 31#8) (imm : Word) :
    Computes Rv32.leaf (riscv32Emitter.movImm r imm) r.toNat (fun _ => imm) ↔
      imm ≤ 0x7FF#32 ∨ 0xFFFFF800#32 ≤ imm := by
  rw [rv32_computes_iff hr imm]
  unfold signedOk
  rw [Bool.or_eq_true, decide_eq_true_eq, decide_eq_true_eq]

/-- One ADDI to x31, in a fresh buffer. -/
theorem rv32_movImm_minus_one :
    exists b, riscv32Emitter.movImm 31#8 0xFFFFFFFF#32 ⟨64, []⟩ = .ok () b ∧
      forall {σ : Type} (bus : Bus Word Word σ) (c : Core σ),
        SetsOnly Rv32.leaf bus b.code c 31 0xFFFFFFFF#32 := by
  have hcomputes := (rv32_movImm_computes_iff (r := 31#8) ⟨by decide, by decide⟩
    0xFFFFFFFF#32).mpr (Or.inr (by decide))
  have hfits : exists b, riscv32Emitter.movImm 31#8 0xFFFFFFFF#32 ⟨64, []⟩ = .ok () b := ⟨_, rfl⟩
  rcases hfits with ⟨b, hb⟩
  rcases hcomputes _ b hb with ⟨units, hcode, hruns⟩
  rw [List.nil_append] at hcode
  refine ⟨b, hb, ?_⟩
  rw [hcode]
  exact hruns

/-- The base address of the UART: LUI leaves 0x01300000 in x10. -/
theorem rv32_movImm_uart :
    ¬ Computes Rv32.leaf (riscv32Emitter.movImm 10#8 0x10013000#32) 10
      (fun _ => 0x10013000#32) := by
  intro h
  have hok := (rv32_computes_iff (r := 10#8) ⟨by decide, by decide⟩ 0x10013000#32).mp h
  exact absurd hok (by decide)

end Rv32

end Execution
end HolyRust
