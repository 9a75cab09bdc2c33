import HolyRust.Foundation.Checked
import HolyRust.Drivers.Frames

/-!
# Single-bit register edits

`reg_set_bit` and `reg_clr_bit` read a register, change it by the mask `1u32 << bit` and
write it back through the enforced poke.  The bit number is any word that the line
computes.  A shift by 32 or more stops a build with overflow checks and selects another
bit in one without.
-/

namespace HolyRust
namespace Drivers

open Foundation
open Capabilities
open Kernel
open Compilation

/-- The two commands. -/
inductive BitEdit where
  | set
  | clr
deriving DecidableEq, Repr

namespace BitEdit

def outcome : BitEdit -> Word -> Word -> Outcome
  | set => .setBit
  | clr => .clrBit

/-- The edit that an outcome asks for. -/
def ofOutcome : Outcome -> Option (BitEdit × Word × Word)
  | .setBit addr bit => some (set, addr, bit)
  | .clrBit addr bit => some (clr, addr, bit)
  | _ => none

/-- What is written back. -/
def apply : BitEdit -> Word -> Word -> Word
  | set, v, mask => v ||| mask
  | clr, v, mask => v &&& ~~~mask

/-- The value that the bit gets. -/
def bit : BitEdit -> Bool
  | set => true
  | clr => false

end BitEdit

/-- The arms of `Outcome::SetBit` and `Outcome::ClrBit`; the mask is computed before
`enforced_poke_u32` is called. -/
def editBit (checks : OverflowChecks) (t : Target) (cycles : Word) (edit : BitEdit)
    (addr bit : Word) (m : Machine) : Except Panic (EStateM.Result MemError Machine Unit) := do
  let mask <- Checked.shl checks 1#32 bit.toNat
  pure (enforcedPokeU32 t cycles addr (edit.apply (peekU32 m addr) mask) m)

theorem shl_off (bit : Word) : Checked.shl .off 1#32 bit.toNat = .ok (bitMask bit) := by
  unfold bitMask
  by_cases h : bit.toNat < 32
  · rw [Checked.shl_of_lt h, Nat.mod_eq_of_lt h]
  · exact if_neg h

/-- The session executes the arms of a build without overflow checks. -/
theorem execute_editBit (b : Build) (input : Input) (edit : BitEdit) (addr bit : Word)
    (s : Session) (hread : input.answers addr = some (peekU32 s.machine addr)) :
    exists r, editBit .off b.target input.cycles edit addr bit s.machine = .ok r ∧
      execute b input (edit.outcome addr bit) s = some { s with machine := finalState r } := by
  refine ⟨enforcedPokeU32 b.target input.cycles addr
    (edit.apply (peekU32 s.machine addr) (bitMask bit)) s.machine, ?_, ?_⟩
  · unfold editBit
    rw [shl_off]
    rfl
  · cases edit with
    | set =>
        show (input.answers addr).map _ = _
        rw [hread]
        rfl
    | clr =>
        show (input.answers addr).map _ = _
        rw [hread]
        rfl

/-!
## What an edit has to do
-/

/-- The word at `addr` differs in one bit at most, and no other memory does. -/
structure ChangesBit (edit : BitEdit) (addr : Word) (bit : Nat) (mem mem' : Mem) : Prop where
  word : forall i, i < 32 -> (mem'.read32 addr).getLsbD i =
    if i = bit then edit.bit else (mem.read32 addr).getLsbD i
  frame : forall a, 4 ≤ (a - addr).toNat -> mem' a = mem a

/-- The edit does not panic, its mask is the bit that was asked for, and it is refused or
changes that bit. -/
structure EditsBit (checks : OverflowChecks) (t : Target) (cycles : Word) (edit : BitEdit)
    (addr bit : Word) (m : Machine) : Prop where
  shift : exists mask, Checked.shl checks 1#32 bit.toNat = .ok mask ∧
    mask.toNat = 2 ^ bit.toNat
  effect : exists r, editBit checks t cycles edit addr bit m = .ok r ∧
    ((exists e m', r = .error e m' ∧ m'.mem = m.mem) ∨
      exists m', r = .ok () m' ∧ ChangesBit edit addr bit.toNat m.mem m'.mem)

theorem getLsbD_apply (edit : BitEdit) (v : Word) {bit i : Nat} (hi : i < 32) :
    (edit.apply v (1#32 <<< bit)).getLsbD i = if i = bit then edit.bit else v.getLsbD i := by
  have hmask : (1#32 <<< bit).getLsbD i = decide (i = bit) := by
    rw [BitVec.getLsbD_shiftLeft, BitVec.getLsbD_one]
    by_cases h : i = bit
    · subst h
      simp [hi]
    · simp only [h, decide_false]
      by_cases hlt : i < bit
      · simp [hlt]
      · simp [show i - bit ≠ 0 by lia]
  cases edit with
  | set =>
      show (v ||| _).getLsbD i = if i = bit then true else _
      rw [BitVec.getLsbD_or, hmask]
      by_cases h : i = bit <;> simp [h]
  | clr =>
      show (v &&& ~~~_).getLsbD i = if i = bit then false else _
      rw [BitVec.getLsbD_and, BitVec.getLsbD_not, hmask]
      by_cases h : i = bit <;> simp [h, hi]

theorem changesBit_write (edit : BitEdit) (addr : Word) (bit : Nat) (mem : Mem) :
    ChangesBit edit addr bit mem
      (mem.write32 addr (edit.apply (mem.read32 addr) (1#32 <<< bit))) where
  word := by
    intro i hi
    rw [Memory.read32_write32 _ _ _ (by decide)]
    exact getLsbD_apply edit _ hi
  frame := fun a ha => Memory.write32_apply_of_le mem addr a _ ha

theorem one_shiftLeft_toNat {bit : Nat} (h : bit < 32) : (1#32 <<< bit).toNat = 2 ^ bit := by
  have hlt : 2 ^ bit < 2 ^ 32 := Nat.pow_lt_pow_right (by decide) h
  rw [BitVec.toNat_shiftLeft, Nat.shiftLeft_eq, BitVec.toNat_ofNat]
  show 1 * 2 ^ bit % 2 ^ 32 = 2 ^ bit
  rw [Nat.one_mul, Nat.mod_eq_of_lt hlt]

theorem bit_lt_of_editsBit {checks : OverflowChecks} {t : Target} {cycles addr bit : Word}
    {edit : BitEdit} {m : Machine} (h : EditsBit checks t cycles edit addr bit m) :
    bit.toNat < 32 := by
  obtain ⟨mask, _, hmask⟩ := h.shift
  have hlt : 2 ^ bit.toNat < 2 ^ 32 := hmask ▸ mask.isLt
  exact (Nat.pow_lt_pow_iff_right (by decide)).mp hlt

/-- An edit is right exactly when its bit number is that of a bit of a word. -/
theorem editsBit_iff (checks : OverflowChecks) (t : Target) (cycles : Word) (edit : BitEdit)
    (addr bit : Word) (m : Machine) :
    EditsBit checks t cycles edit addr bit m ↔ bit.toNat < 32 := by
  constructor
  · exact bit_lt_of_editsBit
  · intro hbit
    have hshift : Checked.shl checks 1#32 bit.toNat = .ok (1#32 <<< bit.toNat) :=
      Checked.shl_of_lt hbit checks 1#32
    have hedit : editBit checks t cycles edit addr bit m = .ok (enforcedPokeU32 t cycles addr
        (edit.apply (peekU32 m addr) (1#32 <<< bit.toNat)) m) := by
      unfold editBit
      rw [hshift]
      rfl
    refine ⟨⟨_, hshift, one_shiftLeft_toNat hbit⟩, _, hedit, ?_⟩
    rw [enforcedPokeU32_eq]
    by_cases hpasses : passes t (m.registry t) addr = true
    · rw [if_pos hpasses]
      refine Or.inr ⟨_, rfl, ?_⟩
      show ChangesBit edit addr bit.toNat m.mem
        ((logged t cycles addr _ m).mem.write32 addr _)
      rw [logged_mem]
      exact changesBit_write edit addr bit.toNat m.mem
    · rw [if_neg hpasses]
      exact Or.inl ⟨_, _, rfl, rfl⟩

/-- Bit 32 passes the parser; the shift panics or the edit sets bit 0. -/
theorem not_editsBit_thirtyTwo :
    (accepted .arm (typed "reg_set_bit 0x20003000 32;") .blank).bind BitEdit.ofOutcome =
        some (.set, 0x20003000#32, 32#32) ∧
      forall checks,
        ¬ EditsBit checks .arm 0#32 .set 0x20003000#32 32#32 Session.blank.machine := by
  constructor
  · decide +kernel
  · intro checks h
    exact absurd (bit_lt_of_editsBit h) (by decide)

end Drivers
end HolyRust
