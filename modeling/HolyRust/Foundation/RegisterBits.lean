import Mathlib.Tactic.Common

/-!
# Bits of a register

Drivers test, set and clear one bit of a register at a time.
-/

namespace HolyRust
namespace Foundation

section Bits

variable {w : Nat}

theorem getLsbD_bit {k i : Nat} (hi : i < w) : (1#w <<< k).getLsbD i = decide (i = k) := by
  rw [BitVec.getLsbD_shiftLeft, BitVec.getLsbD_one]
  by_cases hik : i = k
  · have hpos : 0 < w := Nat.zero_lt_of_lt hi
    simp [hik, hpos, hik ▸ hi]
  · have hsub : i < k ∨ i - k ≠ 0 := by lia
    cases hsub with
    | inl hlt => simp [hik, hlt]
    | inr hne => simp [hik, hne]

theorem getLsbD_or_bit (v : BitVec w) (k : Nat) {i : Nat} (hi : i < w) :
    (v ||| (1#w <<< k)).getLsbD i = (v.getLsbD i || decide (i = k)) := by
  rw [BitVec.getLsbD_or, getLsbD_bit hi]

/-- Setting or clearing one bit. -/
theorem getLsbD_assign_bit (v : BitVec w) (b : Bool) (k : Nat) {i : Nat} (hi : i < w) :
    (if b then v ||| (1#w <<< k) else v &&& ~~~(1#w <<< k)).getLsbD i =
      if i = k then b else v.getLsbD i := by
  cases b with
  | true =>
      rw [if_pos rfl, getLsbD_or_bit v k hi]
      by_cases hik : i = k <;> simp [hik]
  | false =>
      rw [if_neg Bool.false_ne_true, BitVec.getLsbD_and, BitVec.getLsbD_not, getLsbD_bit hi]
      by_cases hik : i = k <;> simp [hi, hik]

theorem and_bit_eq_zero_iff (v : BitVec w) {k : Nat} (hk : k < w) :
    v &&& (1#w <<< k) = 0#w ↔ v.getLsbD k = false := by
  constructor
  · intro h
    have hbit := congrArg (BitVec.getLsbD · k) h
    simp only [BitVec.getLsbD_and, getLsbD_bit hk, BitVec.getLsbD_zero] at hbit
    simpa using hbit
  · intro h
    apply BitVec.eq_of_getLsbD_eq
    intro i hi
    rw [BitVec.getLsbD_and, getLsbD_bit hi, BitVec.getLsbD_zero]
    by_cases hik : i = k
    · rw [hik, h, Bool.false_and]
    · simp [hik]

theorem and_bit_ne_zero_iff (v : BitVec w) {k : Nat} (hk : k < w) :
    v &&& (1#w <<< k) ≠ 0#w ↔ v.getLsbD k = true := by
  rw [ne_eq, and_bit_eq_zero_iff v hk, Bool.not_eq_false]

theorem clear_bit_of_clear {v : BitVec w} {k : Nat} (h : v.getLsbD k = false) :
    v &&& ~~~(1#w <<< k) = v := by
  apply BitVec.eq_of_getLsbD_eq
  intro i hi
  rw [BitVec.getLsbD_and, BitVec.getLsbD_not, getLsbD_bit hi]
  by_cases hik : i = k
  · rw [hik, h, Bool.false_and]
  · simp [hi, hik]

theorem clear_bit_set {v : BitVec w} {k : Nat} (h : v.getLsbD k = false) :
    (v ||| (1#w <<< k)) &&& ~~~(1#w <<< k) = v := by
  apply BitVec.eq_of_getLsbD_eq
  intro i hi
  rw [BitVec.getLsbD_and, getLsbD_or_bit v k hi, BitVec.getLsbD_not, getLsbD_bit hi]
  by_cases hik : i = k
  · simp [hik, h]
  · simp [hi, hik]

/-- A byte on a bus of words. -/
theorem byte_of_word (byte : BitVec 8) : (byte.setWidth 32).setWidth 8 = byte := by
  rw [BitVec.setWidth_setWidth_of_le _ (by decide), BitVec.setWidth_eq]

end Bits

end Foundation
end HolyRust
