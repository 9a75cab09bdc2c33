import HolyRust.Foundation.Checked
import HolyRust.Capabilities.WindowCheck

/-!
# Sizing a base address register

`bar_size` writes all ones into a register of a PCIe function, reads back which of them
stuck and restores the register.  The size is computed in `usize`.
-/

namespace HolyRust
namespace Drivers

open Foundation
open Capabilities

/-- What hardware is behind a 32-bit base address register. -/
inductive BarKind where
  | memory (k : Nat) (flags : BitVec 4)
  | unimplemented
deriving DecidableEq, Repr

namespace BarKind

/-- What a register holds after `v` was written to it: the bits from `k` on are writable. -/
def latch : BarKind -> Word -> Word
  | memory k flags, v => v &&& (BitVec.allOnes 32 <<< k) ||| flags.setWidth 32
  | unimplemented, _ => 0#32

/-- The bytes that the register decodes. -/
def size : BarKind -> Nat
  | memory k _ => 2 ^ k
  | unimplemented => 0

/-- The sizes that a 32-bit register can decode. -/
def Valid : BarKind -> Prop
  | memory k _ => 4 ≤ k ∧ k ≤ 31
  | unimplemented => True

end BarKind

/-- A register; it holds something that can be written to it. -/
structure Bar where
  kind : BarKind
  valid : kind.Valid
  value : Word
  latched : kind.latch value = value

namespace Bar

theorem latch_latch (kind : BarKind) (v : Word) : kind.latch (kind.latch v) = kind.latch v := by
  cases kind with
  | unimplemented => rfl
  | memory k flags =>
      apply BitVec.eq_of_getLsbD_eq
      intro i hi
      simp only [BarKind.latch, BitVec.getLsbD_or, BitVec.getLsbD_and]
      cases v.getLsbD i <;> cases (BitVec.allOnes 32 <<< k).getLsbD i <;>
        cases (flags.setWidth 32).getLsbD i <;> rfl

def peek (bar : Bar) : Word := bar.value

def poke (bar : Bar) (v : Word) : Bar :=
  { bar with value := bar.kind.latch v, latched := latch_latch bar.kind v }

end Bar

/-- `(!((mask as usize) & !0xF)) + 1`. -/
def sizeOfMask (checks : OverflowChecks) (w : PointerWidth) (mask : Word) :
    Except Panic (BitVec w.bits) :=
  Checked.add checks (~~~(mask.setWidth w.bits &&& ~~~0xF#w.bits)) 1#w.bits

/-- The size, and the register afterwards; the copy in the drivers crate is the same. -/
def barSize (checks : OverflowChecks) (w : PointerWidth) (bar : Bar) :
    Except Panic (BitVec w.bits) × Bar :=
  let orig := bar.peek
  let probed := bar.poke 0xFFFFFFFF#32
  let mask := probed.peek
  let restored := probed.poke orig
  (sizeOfMask checks w mask, restored)

theorem barSize_restores (checks : OverflowChecks) (w : PointerWidth) (bar : Bar) :
    (barSize checks w bar).2.value = bar.value :=
  bar.latched

/-!
## The mask
-/

/-- Without the flags, the mask of a memory register is its writable bits. -/
theorem mask_memory (w : PointerWidth) {k : Nat} (hk : 4 ≤ k) (flags : BitVec 4) :
    ((BarKind.memory k flags).latch 0xFFFFFFFF#32).setWidth w.bits &&& ~~~0xF#w.bits =
      (BitVec.allOnes 32 <<< k).setWidth w.bits := by
  have hflags : forall i, (0xF#w.bits).getLsbD i = decide (i < 4) := by
    intro i
    cases w <;> show (BitVec.ofNat _ (2 ^ 4 - 1)).getLsbD i = _ <;>
      rw [BitVec.getLsbD_ofNat, Nat.testBit_two_pow_sub_one] <;>
      simp [PointerWidth.bits] <;> lia
  apply BitVec.eq_of_getLsbD_eq
  intro i hi
  simp only [BarKind.latch, BitVec.getLsbD_and, BitVec.getLsbD_not, BitVec.getLsbD_setWidth,
    BitVec.getLsbD_or, BitVec.getLsbD_shiftLeft, BitVec.getLsbD_allOnes, hflags]
  by_cases hlow : i < 4
  · simp [hlow, show i < k by lia]
  · have hones : (0xFFFFFFFF#32).getLsbD i = decide (i < 32) := by
      show (BitVec.allOnes 32).getLsbD i = _
      exact BitVec.getLsbD_allOnes
    rw [hones]
    simp [hlow, hi, BitVec.getLsbD_of_ge flags i (by lia)]
    lia

theorem toNat_allOnes_shiftLeft {k : Nat} (hk : k ≤ 31) :
    (BitVec.allOnes 32 <<< k).toNat = 2 ^ 32 - 2 ^ k := by
  have hpow : 2 ^ k < 2 ^ 32 := Nat.pow_lt_pow_right (by decide) (by lia)
  have hpos : 0 < 2 ^ k := Nat.two_pow_pos k
  rw [BitVec.toNat_shiftLeft, BitVec.toNat_allOnes, Nat.shiftLeft_eq,
    show (2 ^ 32 - 1) * 2 ^ k = (2 ^ 32 - 2 ^ k) + 2 ^ 32 * (2 ^ k - 1) by
      generalize 2 ^ k = p at *
      lia,
    Nat.add_mul_mod_self_left, Nat.mod_eq_of_lt (by lia)]

/-- Complement and increment, as numbers. -/
theorem sizeOfMask_memory (checks : OverflowChecks) (w : PointerWidth) {k : Nat} (hlo : 4 ≤ k)
    (hhi : k ≤ 31) (flags : BitVec 4) :
    exists size, sizeOfMask checks w ((BarKind.memory k flags).latch 0xFFFFFFFF#32) = .ok size ∧
      size.toNat = 2 ^ w.bits - 2 ^ 32 + 2 ^ k := by
  have hpow : 2 ^ k < 2 ^ 32 := Nat.pow_lt_pow_right (by decide) (by lia)
  have hpos : 0 < 2 ^ k := Nat.two_pow_pos k
  have hbits : 2 ^ 32 ≤ 2 ^ w.bits := by cases w <;> decide
  have hone : (1#w.bits).toNat = 1 := by cases w <;> rfl
  have hmask : (~~~((BitVec.allOnes 32 <<< k).setWidth w.bits)).toNat =
      2 ^ w.bits - 1 - (2 ^ 32 - 2 ^ k) := by
    rw [BitVec.toNat_not, BitVec.toNat_setWidth, toNat_allOnes_shiftLeft hhi,
      Nat.mod_eq_of_lt (by lia)]
  have hfits : (~~~((BitVec.allOnes 32 <<< k).setWidth w.bits)).toNat + (1#w.bits).toNat <
      2 ^ w.bits := by
    rw [hmask, hone]
    lia
  refine ⟨~~~((BitVec.allOnes 32 <<< k).setWidth w.bits) + 1#w.bits, ?_, ?_⟩
  · unfold sizeOfMask
    rw [mask_memory w hlo flags]
    exact Checked.add_of_lt hfits checks
  · rw [BitVec.toNat_add_of_lt hfits, hmask, hone]
    generalize 2 ^ w.bits = range, 2 ^ 32 = words at *
    lia

/-- The mask of an unimplemented register is zero, and its complement cannot be incremented. -/
theorem sizeOfMask_unimplemented (w : PointerWidth) :
    sizeOfMask .on w (BarKind.unimplemented.latch 0xFFFFFFFF#32) = .error .overflow := by
  cases w <;> decide

/-!
## Sizing
-/

/-- The size without arithmetic overflow, and the register as it was. -/
def SizesBar (w : PointerWidth) (bar : Bar) : Prop :=
  forall checks, (exists size, (barSize checks w bar).1 = .ok size ∧ size.toNat = bar.kind.size) ∧
    (barSize checks w bar).2.value = bar.value

theorem not_sizesBar_unimplemented (w : PointerWidth) {bar : Bar}
    (h : bar.kind = .unimplemented) : ¬ SizesBar w bar := by
  intro hsizes
  obtain ⟨⟨size, hsize, _⟩, _⟩ := hsizes .on
  have hoverflow : (barSize .on w bar).1 = .error .overflow := by
    show sizeOfMask .on w (bar.kind.latch 0xFFFFFFFF#32) = _
    rw [h]
    exact sizeOfMask_unimplemented w
  rw [hoverflow] at hsize
  cases hsize

/-- Sizing is right exactly for implemented registers where `usize` has 32 bits. -/
theorem sizesBar_iff (w : PointerWidth) (bar : Bar) :
    SizesBar w bar ↔ w = .w32 ∧ bar.kind ≠ .unimplemented := by
  cases hkind : bar.kind with
  | unimplemented =>
      constructor
      · intro h
        exact absurd h (not_sizesBar_unimplemented w hkind)
      · rintro ⟨_, hne⟩
        exact absurd rfl hne
  | memory k flags =>
      have hvalid := bar.valid
      rw [hkind] at hvalid
      have hresult : forall checks, exists size, (barSize checks w bar).1 = .ok size ∧
          size.toNat = 2 ^ w.bits - 2 ^ 32 + 2 ^ k := by
        intro checks
        obtain ⟨size, hok, hvalue⟩ :=
          sizeOfMask_memory checks w hvalid.left hvalid.right flags
        refine ⟨size, ?_, hvalue⟩
        show sizeOfMask checks w (bar.kind.latch 0xFFFFFFFF#32) = _
        rw [hkind]
        exact hok
      constructor
      · intro h
        obtain ⟨⟨size, hok, hsize⟩, _⟩ := h .on
        obtain ⟨size', hok', hsize'⟩ := hresult .on
        rw [hok, Except.ok.injEq] at hok'
        subst hok'
        rw [hsize, hkind] at hsize'
        refine ⟨?_, fun hne => by cases hne⟩
        cases w with
        | w32 => rfl
        | w64 =>
            -- the upper half of the complement stays set
            have hlarge : 2 ^ k = 2 ^ 64 - 2 ^ 32 + 2 ^ k := hsize'
            lia
      · rintro ⟨rfl, _⟩ checks
        obtain ⟨size, hok, hsize⟩ := hresult checks
        refine ⟨⟨size, hok, ?_⟩, barSize_restores checks _ bar⟩
        rw [hsize, hkind]
        exact Nat.zero_add _

/-- An unimplemented register, which always reads zero, with a 32-bit `usize`. -/
theorem not_sizesBar_zero :
    ¬ SizesBar .w32 { kind := .unimplemented, valid := trivial, value := 0#32, latched := rfl } :=
  not_sizesBar_unimplemented .w32 rfl

end Drivers
end HolyRust
