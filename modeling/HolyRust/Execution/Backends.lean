import HolyRust.Execution.ImmediateLoads

/-!
# The two backends

The laws that native blocks rest on, for the two registers that the native
compiler uses on each target: immediate loads, the store of the scratch register
through the accumulator, the load through the scratch register, and the return.
-/

namespace HolyRust
namespace Execution

open Foundation
open Compilation
open Isa

/-!
## Thumb-2
-/

section Thumb2

theorem thumb2_str : encodeStrImm 1#8 0#8 0#32 = some 0x6001#16 ∧
    forall rest, Thumb2.decode (0x6001#16 :: rest) = some (.str 1 0 0#5, rest) := by
  have hdecode : Thumb2.decode16 0x6001#16 = some (.str 1 0 0#5) := by decide
  refine ⟨by decide, ?_⟩
  intro rest
  rw [Thumb2.decode_narrow (by decide), hdecode]
  rfl

theorem thumb2_ldr : encodeLdrImm 0#8 1#8 0#32 = some 0x6808#16 ∧
    forall rest, Thumb2.decode (0x6808#16 :: rest) = some (.ldr 0 1 0#5, rest) := by
  have hdecode : Thumb2.decode16 0x6808#16 = some (.ldr 0 1 0#5) := by decide
  refine ⟨by decide, ?_⟩
  intro rest
  rw [Thumb2.decode_narrow (by decide), hdecode]
  rfl

theorem offset_zero : (0#5).setWidth 32 * 4#32 = 0#32 := by
  decide

theorem thumb2_laws : BackendLaws thumb2Backend (fun v => v) 4 where
  mov := by
    intro r hr v
    have hreg : ¬ 15#8 < r := by
      rcases hr with rfl | rfl <;> decide
    obtain ⟨units, hlength, hemits, hexec⟩ := thumb2_mov hreg v
    exact ⟨units, hlength, hemits.appends, hexec⟩
  store := by
    refine ⟨0x6001#16, ?_, ?_⟩
    · show Appends _ (pushOption (encodeStrImm 1#8 0#8 0#32))
      rw [thumb2_str.left]
      exact appends_pushUnit _
    · intro σ bus c
      refine executes_instr (i := .str 1 0 0#5) (by decide) thumb2_str.right ?_
      show Flow.next (c.store bus (c.regs 0 + (0#5).setWidth 32 * 4#32) (c.regs 1)) = _
      rw [offset_zero, BitVec.add_zero]
      rfl
  load := by
    refine ⟨0x6808#16, ?_, ?_⟩
    · show Appends _ (pushOption (encodeLdrImm 0#8 1#8 0#32))
      rw [thumb2_ldr.left]
      exact appends_pushUnit _
    · intro σ bus c
      refine executes_instr (i := .ldr 0 1 0#5) (by decide) thumb2_ldr.right ?_
      show Flow.next (c.load bus 0 (c.regs 1 + (0#5).setWidth 32 * 4#32)) = _
      rw [offset_zero, BitVec.add_zero]
      rfl
  ret := ⟨0x4770#16, appends_pushUnit _, thumb2_returns⟩
  distinct := by decide

theorem thumb2_roomy : Roomy thumb2Backend 4 2 where
  perWord := ⟨by decide, by decide⟩
  pos := by decide
  fits := by decide

end Thumb2

/-!
## RV32
-/

section Rv32

theorem rv32_sw : encodeSw 11#8 10#8 0#32 = some 0x00B52023#32 ∧
    forall rest, Rv32.decode (0x00B52023#32 :: rest) = some (.sw 11 10 0#12, rest) := by
  have hdecode : Rv32.decodeWord 0x00B52023#32 = some (.sw 11 10 0#12) := by decide
  refine ⟨by decide, ?_⟩
  intro rest
  rw [Rv32.decode_cons, hdecode]
  rfl

theorem rv32_lw : encodeLw 10#8 11#8 0#32 = some 0x0005A503#32 ∧
    forall rest, Rv32.decode (0x0005A503#32 :: rest) = some (.lw 10 11 0#12, rest) := by
  have hdecode : Rv32.decodeWord 0x0005A503#32 = some (.lw 10 11 0#12) := by decide
  refine ⟨by decide, ?_⟩
  intro rest
  rw [Rv32.decode_cons, hdecode]
  rfl

theorem signExtend_zero : (0#12).signExtend 32 = 0#32 := by
  decide

theorem rv32_laws : BackendLaws riscv32Backend rvLoaded 2 where
  mov := by
    intro r hr v
    have hreg : 1#8 ≤ r ∧ r ≤ 31#8 := by
      rcases hr with rfl | rfl <;> decide
    obtain ⟨units, hlength, hemits, hexec⟩ := rv32_mov hreg v
    exact ⟨units, hlength, hemits.appends, hexec⟩
  store := by
    refine ⟨0x00B52023#32, ?_, ?_⟩
    · show Appends _ (pushOption (encodeSw 11#8 10#8 0#32))
      rw [rv32_sw.left]
      exact appends_pushUnit _
    · intro σ bus c
      refine executes_instr (i := .sw 11 10 0#12) (by decide) rv32_sw.right ?_
      show Flow.next (c.store bus (c.regs 10 + (0#12).signExtend 32) (c.regs 11)) = _
      rw [signExtend_zero, BitVec.add_zero]
      rfl
  load := by
    refine ⟨0x0005A503#32, ?_, ?_⟩
    · show Appends _ (pushOption (encodeLw 10#8 11#8 0#32))
      rw [rv32_lw.left]
      exact appends_pushUnit _
    · intro σ bus c
      refine executes_instr (i := .lw 10 11 0#12) (by decide) rv32_lw.right ?_
      show Flow.next (c.load bus 10 (c.regs 11 + (0#12).signExtend 32)) = _
      rw [signExtend_zero, BitVec.add_zero]
      rfl
  ret := ⟨rv32Ret, appends_pushUnit _, rv32_returns⟩
  distinct := by decide

theorem rv32_roomy : Roomy riscv32Backend 2 1 where
  perWord := ⟨by decide, by decide⟩
  pos := by decide
  fits := by decide

end Rv32

end Execution
end HolyRust
