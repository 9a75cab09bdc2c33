import Mathlib.Data.Nat.Count
import Mathlib.Order.Interval.Finset.Nat
import HolyRust.Capabilities.WindowCheck

/-!
# The five mask builders

`build_mask` exists five times.  The kernel's and those of the three architecture
crates are one text; the one of `hros_cap` hands over to `build_mask_window`, which
cuts a request off at the end of its window where the others give up.
-/

namespace HolyRust
namespace Capabilities

/-- `VectorCapabilityEngine::build_mask` of `hros-arch-arm`. -/
def ArmCapEngine.buildMask (addr : Word) (len : Nat) : Option Mask256 :=
  Capabilities.buildMask addr len

/-- `VectorCapabilityEngine::build_mask` of `hros-arch-riscv`. -/
def RiscvCapEngine.buildMask (addr : Word) (len : Nat) : Option Mask256 :=
  Capabilities.buildMask addr len

/-- `VectorCapabilityEngine::build_mask` of `hros-arch-x86`. -/
def X86CapEngine.buildMask (addr : Word) (len : Nat) : Option Mask256 :=
  Capabilities.buildMask addr len

def HrosCap.buildMask (w : PointerWidth) (addr : Word) (len : Nat) : Option Mask256 :=
  if len = 0 ∨ 256 < len then none
  else HrosCap.buildMaskWindow w addr len (windowBase (blockOf addr))

/-!
## Counting bits
-/

/-- Bit `k` of the mask. -/
def Mask256.bit (mask : Mask256) (k : Nat) : Bool :=
  if h : k / 64 < 4 then (mask ⟨k / 64, h⟩).getLsbD (k % 64) else false

def Mask256.bitCount (mask : Mask256) : Nat := Nat.count (fun k => mask.bit k = true) 256

theorem bit_markBlocks {base n k i : Nat} (hbase : base ≤ k) (hi : i < 256) :
    (markBlocks base n k Mask256.zero).bit i = true ↔ k - base ≤ i ∧ i < k - base + n := by
  unfold Mask256.bit
  rw [dif_pos (by lia), markBlocks_getLsbD _ _ _ _ _ (Nat.mod_lt i (by decide)) hbase]
  simp only [Mask256.zero, BitVec.getLsbD_zero, Bool.false_eq_true, false_or]
  lia

theorem bitCount_markBlocks {base n k : Nat} (hbase : base ≤ k) (hfits : k + n ≤ base + 256) :
    (markBlocks base n k Mask256.zero).bitCount = n := by
  unfold Mask256.bitCount
  rw [Nat.count_eq_card_filter_range]
  have hblocks : (Finset.range 256).filter
      (fun i => (markBlocks base n k Mask256.zero).bit i = true) =
        Finset.Ico (k - base) (k - base + n) := by
    ext i
    rw [Finset.mem_filter, Finset.mem_range, Finset.mem_Ico]
    constructor
    · rintro ⟨hi, hbit⟩
      exact (bit_markBlocks hbase hi).mp hbit
    · intro hin
      have hi : i < 256 := by lia
      exact ⟨hi, (bit_markBlocks hbase hi).mpr hin⟩
  rw [hblocks, Nat.card_Ico]
  lia

/-!
## Agreement
-/

/-- All five build the same mask, with one bit for each block: a comparison that
passes has looked at all of them. -/
structure MasksAgree (w : PointerWidth) (addr : Word) (len : Nat) : Prop where
  kernel : HrosCap.buildMask w addr len = buildMask addr len
  arm : HrosCap.buildMask w addr len = ArmCapEngine.buildMask addr len
  riscv : HrosCap.buildMask w addr len = RiscvCapEngine.buildMask addr len
  x86 : HrosCap.buildMask w addr len = X86CapEngine.buildMask addr len
  bits : forall mask, HrosCap.buildMask w addr len = some mask -> mask.bitCount = len
  authorises : forall mask caps, HrosCap.buildMask w addr len = some mask ->
    (verifyVector caps mask (windowBase (blockOf addr) / 32)).1 = true ->
    BlocksMarked caps (blockOf addr) len

theorem hrosCap_buildMask_eq_none (w : PointerWidth) (addr : Word) {len : Nat}
    (h : len = 0 ∨ 256 < len) : HrosCap.buildMask w addr len = none := if_pos h

/-- The crate's mask: the blocks up to the end of the window. -/
theorem hrosCap_buildMask_eq_some (w : PointerWidth) (addr : Word) {len : Nat}
    (hpos : 1 ≤ len) (hle : len ≤ 256) :
    HrosCap.buildMask w addr len =
      some (markBlocks (windowBase (blockOf addr))
        (min (blockOf addr + len) (windowBase (blockOf addr) + 256) - blockOf addr)
        (blockOf addr) Mask256.zero) := by
  have hpow := HrosCap.pow_bits_le w
  have hbase := windowBase_le (blockOf addr)
  have hblock : blockOf addr < 2 ^ 20 := by
    have haddr := addr.isLt
    unfold blockOf
    lia
  have hwindow : blockOf addr < windowBase (blockOf addr) + 256 := by
    unfold windowBase
    lia
  unfold HrosCap.buildMask
  rw [if_neg (by lia), HrosCap.buildMaskWindow_eq_some (by lia) (by lia) (by lia) hwindow
    (by lia), Nat.max_eq_left hbase]

theorem masksAgree_of_none {w : PointerWidth} {addr : Word} {len : Nat}
    (h : len = 0 ∨ 256 < len) : MasksAgree w addr len := by
  have hcrate := hrosCap_buildMask_eq_none w addr h
  have hkernel : buildMask addr len = none :=
    buildMask_eq_none fun hwindow => by
      unfold SingleWindow at hwindow
      lia
  have hsame := hcrate.trans hkernel.symm
  refine ⟨hsame, hsame, hsame, hsame, ?_, ?_⟩
  · intro mask hmask
    rw [hcrate] at hmask
    cases hmask
  · intro mask caps hmask
    rw [hcrate] at hmask
    cases hmask

theorem masksAgree_of_singleWindow {w : PointerWidth} {addr : Word} {len : Nat}
    (h : SingleWindow addr len) : MasksAgree w addr len := by
  have hkernel := buildMask_of_singleWindow h
  obtain ⟨hpos, hle, hfits⟩ := h
  have hcrate := hrosCap_buildMask_eq_some w addr hpos hle
  rw [Nat.min_eq_left hfits, Nat.add_sub_cancel_left] at hcrate
  have hsame := hcrate.trans hkernel.symm
  refine ⟨hsame, hsame, hsame, hsame, ?_, ?_⟩
  · intro mask hmask
    rw [hcrate] at hmask
    cases hmask
    exact bitCount_markBlocks (windowBase_le _) hfits
  · intro mask caps hmask hpasses
    rw [hcrate] at hmask
    cases hmask
    exact (verifyVector_markBlocks caps hfits).mp hpasses

/-- The builders agree unless the request runs over the end of its window. -/
theorem masksAgree_iff (w : PointerWidth) (addr : Word) (len : BitVec w.bits) :
    MasksAgree w addr len.toNat ↔
      len.toNat = 0 ∨ 256 < len.toNat ∨ blockOf addr % 256 + len.toNat ≤ 256 := by
  have hmod : blockOf addr = windowBase (blockOf addr) + blockOf addr % 256 := by
    unfold windowBase
    lia
  by_cases hlen : len.toNat = 0 ∨ 256 < len.toNat
  · exact iff_of_true (masksAgree_of_none hlen) (by lia)
  · by_cases hfits : blockOf addr % 256 + len.toNat ≤ 256
    · refine iff_of_true (masksAgree_of_singleWindow ?_) (Or.inr (Or.inr hfits))
      exact ⟨by lia, by lia, by lia⟩
    · refine iff_of_false (fun hagree => ?_) (by lia)
      have hkernel : buildMask addr len.toNat = none :=
        buildMask_eq_none fun hwindow => by
          unfold SingleWindow at hwindow
          lia
      have hsame := hagree.kernel
      rw [hkernel, hrosCap_buildMask_eq_some w addr (by lia) (by lia)] at hsame
      cases hsame

/-- Two blocks from block 255 on: a mask with one bit, and no mask at all. -/
theorem not_masksAgree_straddling : ¬ MasksAgree .w32 0x000FF000#32 2 := by
  intro hagree
  have hsame := hagree.kernel
  have hcrate : (HrosCap.buildMask .w32 0x000FF000#32 2).isSome = true := by decide
  rw [hsame] at hcrate
  exact absurd hcrate (by decide)

end Capabilities
end HolyRust
