import HolyRust.Foundation.Checked
import HolyRust.Compilation.Expressions

/-!
# Formatted output

The number printers of the UART driver, up to the bytes they put out.  The decimal
printer fills a scratch buffer of ten cells from the lowest digit on and then reads it
backwards.
-/

namespace HolyRust
namespace Drivers

open Foundation
open Compilation

/-!
## Hexadecimal
-/

/-- `(0..32).step_by(4).rev()`. -/
def hexShifts : List Nat := [28, 24, 20, 16, 12, 8, 4, 0]

/-- Write `0x` + 8 hex digits. -/
def writeHexU32 (value : Word) : Except Panic (List Byte) := do
  let digits <- hexShifts.mapM fun shift =>
    Checked.get (ascii "0123456789ABCDEF") ((value >>> shift) &&& 0xF#32).toNat
  pure (ascii "0x" ++ digits)

/-- The digit for `d`, in upper case. -/
def hexByte (d : Nat) : Byte :=
  if d < 10 then digitByte d else BitVec.ofNat 8 ('A'.toNat + (d - 10))

/-- The eight digits of a word. -/
def hexText (value : Word) : List Byte :=
  hexShifts.map fun shift => hexByte (value.toNat / 2 ^ shift % 16)

theorem get_hexDigits {d : Nat} (h : d < 16) :
    Checked.get (ascii "0123456789ABCDEF") d = .ok (hexByte d) := by
  revert d
  decide

theorem nibble_toNat (value : Word) (shift : Nat) :
    ((value >>> shift) &&& 0xF#32).toNat = value.toNat / 2 ^ shift % 16 := by
  rw [BitVec.toNat_and, BitVec.toNat_ushiftRight, Nat.shiftRight_eq_div_pow]
  exact Nat.and_two_pow_sub_one_eq_mod _ 4

theorem writeHexU32_eq (value : Word) : writeHexU32 value = .ok (ascii "0x" ++ hexText value) := by
  have hdigit : (fun shift => Checked.get (ascii "0123456789ABCDEF")
      ((value >>> shift) &&& 0xF#32).toNat) =
      fun shift => pure (hexByte (value.toNat / 2 ^ shift % 16)) := by
    funext shift
    rw [nibble_toNat]
    exact get_hexDigits (Nat.mod_lt _ (by decide))
  unfold writeHexU32
  rw [hdigit, List.mapM_pure]
  rfl

/-!
## Decimal
-/

/-- The digits of `value` from `scratch[len]` on, lowest first.  Each round writes one
cell, so there are fewer rounds than the eleven allowed here or one of them panics. -/
def fillScratch : Nat -> List Byte -> Nat -> Nat -> Except Panic (List Byte × Nat)
  | 0, _, _, _ => .error .index
  | rounds + 1, scratch, len, value => do
      let scratch <- Checked.put scratch len (digitByte (value % 10))
      if value / 10 = 0 then pure (scratch, len + 1)
      else fillScratch rounds scratch (len + 1) (value / 10)

/-- The first `len` cells from the last one down. -/
def emitScratch (scratch : List Byte) : Nat -> Except Panic (List Byte)
  | 0 => pure []
  | len + 1 => do
      let b <- Checked.get scratch len
      let rest <- emitScratch scratch len
      pure (b :: rest)

/-- Write a decimal number. -/
def writeDecU32 (value : Word) : Except Panic (List Byte) := do
  let filled <- fillScratch 11 (List.replicate 10 0#8) 0 value.toNat
  emitScratch filled.1 filled.2

theorem emitScratch_eq {scratch : List Byte} {len : Nat} (h : len ≤ scratch.length) :
    emitScratch scratch len = .ok (scratch.take len).reverse := by
  induction len with
  | zero => rfl
  | succ len ih =>
      have hcell : Checked.get scratch len = .ok (scratch[len]) :=
        Checked.get_of_getElem? (List.getElem?_eq_getElem h)
      rw [emitScratch, hcell, ih (Nat.le_of_succ_le h), List.take_succ_eq_append_getElem h,
        List.reverse_append]
      rfl

/-- The cells filled so far, read backwards, are the digits of what is left and of what
came before; a number below `10 ^ n` needs `n` cells. -/
theorem fillScratch_spec {rounds n len value : Nat} {scratch : List Byte}
    (hvalue : value < 10 ^ (n + 1)) (hroom : len + n + 1 ≤ scratch.length)
    (hrounds : n < rounds) :
    exists scratch' len', fillScratch rounds scratch len value = .ok (scratch', len') ∧
      len' ≤ scratch'.length ∧
      (scratch'.take len').reverse = decimalText value ++ (scratch.take len).reverse := by
  induction rounds generalizing n len value scratch with
  | zero => cases hrounds
  | succ rounds ih =>
      have hlen : len < scratch.length := by lia
      have htake : ((scratch.set len (digitByte (value % 10))).take (len + 1)).reverse =
          digitByte (value % 10) :: (scratch.take len).reverse := by
        rw [List.take_succ_eq_append_getElem (by rw [List.length_set]; exact hlen),
          List.getElem_set_self, List.take_set_of_le (Nat.le_refl len), List.reverse_append]
        rfl
      rw [fillScratch, Checked.put_of_lt hlen]
      by_cases hlast : value / 10 = 0
      · refine ⟨scratch.set len (digitByte (value % 10)), len + 1, if_pos hlast, ?_, ?_⟩
        · rw [List.length_set]
          exact hlen
        · have hsmall : value < 10 := by lia
          rw [htake, decimalText, if_pos hsmall, Nat.mod_eq_of_lt hsmall]
          rfl
      · have hn : n ≠ 0 := by
          rintro rfl
          lia
        have hnext : value / 10 < 10 ^ (n - 1 + 1) := by
          rw [Nat.sub_add_cancel (Nat.pos_of_ne_zero hn), Nat.div_lt_iff_lt_mul (by decide),
            ← Nat.pow_succ]
          exact hvalue
        obtain ⟨scratch', len', hfill, hle, hdigits⟩ :=
          @ih (n - 1) (len + 1) (value / 10) (scratch.set len (digitByte (value % 10))) hnext
            (by rw [List.length_set]; lia) (by lia)
        refine ⟨scratch', len', ?_, hle, ?_⟩
        · show (if value / 10 = 0 then _ else _ : Except Panic (List Byte × Nat)) = _
          rw [if_neg hlast, hfill]
        · have hlarge : ¬ value < 10 := by lia
          rw [hdigits, htake]
          conv => rhs; rw [decimalText, if_neg hlarge, List.append_assoc]
          rfl

theorem writeDecU32_eq (value : Word) : writeDecU32 value = .ok (decimalText value.toNat) := by
  have hvalue : value.toNat < 10 ^ (9 + 1) := Nat.lt_trans value.isLt (by decide)
  obtain ⟨scratch, len, hfill, hle, hdigits⟩ :=
    @fillScratch_spec 11 9 0 value.toNat (List.replicate 10 0#8) hvalue (by decide) (by decide)
  unfold writeDecU32
  rw [hfill]
  show emitScratch scratch len = _
  rw [emitScratch_eq hle, hdigits, List.take_zero, List.reverse_nil, List.append_nil]

/-!
## No line ends among the digits
-/

theorem hexByte_isAsciiHexdigit {d : Nat} (h : d < 16) : isAsciiHexdigit (hexByte d) = true := by
  revert d
  decide

theorem hexText_hexdigits {value : Word} {b : Byte} (h : b ∈ hexText value) :
    isAsciiHexdigit b = true := by
  obtain ⟨shift, _, rfl⟩ := List.mem_map.mp h
  exact hexByte_isAsciiHexdigit (Nat.mod_lt _ (by decide))

end Drivers
end HolyRust
