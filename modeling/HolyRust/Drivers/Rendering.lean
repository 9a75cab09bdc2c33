import HolyRust.Compilation.Literals
import HolyRust.Drivers.Printing

/-!
# Printing and reading back

Tokens are written with one space between them, numbers by the printers of the UART
driver.  The lexer reads the same tokens back.
-/

namespace HolyRust
namespace Drivers

open Foundation
open Compilation

/-!
## Rendering
-/

/-- What can be written down: everything but errors and the end of input. -/
def Printable : Token -> Prop
  | .identifier name => IsIdent name
  | .operator op => isOperator op = true
  | .error _ => False
  | .eof => False
  | _ => True

/-- A token to be printed, and the printer to be used if it is a number. -/
structure PrintedToken where
  token : Token
  radix : Radix
  printable : Printable token

/-- The number printers. -/
def writeNumber : Radix -> Word -> Except Panic (List Byte)
  | .decimal => writeDecU32
  | .hex => writeHexU32

def renderToken (t : PrintedToken) : Except Panic (List Byte) :=
  match t.token with
  | .kwFn => pure (ascii "fn")
  | .kwLet => pure (ascii "let")
  | .identifier name => pure name
  | .operator op => pure [op]
  | .literal value => writeNumber t.radix value
  | .lParen => pure (ascii "(")
  | .rParen => pure (ascii ")")
  | .lBrace => pure (ascii "\x7b")
  | .rBrace => pure (ascii "\x7d")
  | .semicolon => pure (ascii ";")
  | .comma => pure (ascii ",")
  | .error _ => pure []
  | .eof => pure []

/-- Words with one space between them. -/
def joined : List (List Byte) -> List Byte
  | [] => []
  | word :: words => word ++ spaced words

def render (ts : List PrintedToken) : Except Panic (List Byte) := do
  let words <- ts.mapM renderToken
  pure (joined words)

/-- Print a value as the REPL does. -/
def writeValue (value : Word) : Except Panic (List Byte) := do
  let hex <- writeHexU32 value
  let dec <- writeDecU32 value
  pure (hex ++ ascii " (" ++ dec ++ ascii ")" ++ ascii "\r\n")

/-!
## Numbers
-/

theorem extend_hexByte (value : Nat) {d : Nat} (h : d < 16) :
    Radix.hex.extend value (hexByte d) = value * 16 + d := by
  have hdigit : Radix.hex.digit (hexByte d) = some d := by
    revert d
    decide
  unfold Radix.extend
  rw [hdigit]
  rfl

/-- Shifting in the four bits at `shift`. -/
theorem shift_in (n shift : Nat) :
    n / 2 ^ (shift + 4) * 16 + n / 2 ^ shift % 16 = n / 2 ^ shift := by
  rw [Nat.pow_add, ← Nat.div_div_eq_div_mul]
  exact Nat.div_add_mod' _ _

theorem value_hexText (v : Word) : Radix.hex.value (hexText v) = v.toNat := by
  have hdigit : forall value shift, Radix.hex.extend value (hexByte (v.toNat / 2 ^ shift % 16)) =
      value * 16 + v.toNat / 2 ^ shift % 16 :=
    fun value shift => extend_hexByte value (Nat.mod_lt _ (by decide))
  have htop : 0 * 16 + v.toNat / 2 ^ 28 % 16 = v.toNat / 2 ^ 28 := by
    rw [Nat.zero_mul, Nat.zero_add, Nat.mod_eq_of_lt]
    exact Nat.div_lt_of_lt_mul v.isLt
  unfold Radix.value hexText hexShifts
  simp only [List.map_cons, List.map_nil, List.foldl_cons, List.foldl_nil, hdigit]
  rw [htop, shift_in _ 24, shift_in _ 20, shift_in _ 16, shift_in _ 12, shift_in _ 8,
    shift_in _ 4, shift_in _ 0, Nat.pow_zero, Nat.div_one]

theorem inRun_hexText {v : Word} {b : Byte} (h : b ∈ hexText v) : Radix.hex.inRun b = true := by
  rw [inRun_hex, hexText_hexdigits h, Bool.true_or]

/-- A token that takes all bytes is the only one. -/
theorem tokensOf_single {b : Byte} {rest : List Byte} {t : Token}
    (hb : Indexed.isBlank b = false) (h : parseToken b rest = (t, [])) :
    tokensOf (b :: rest) = [t] := by
  have hne : t ≠ .eof := by
    have hlexed := parseToken_lexed b rest
    rw [h] at hlexed
    exact Token.ne_eof_of_lexed hlexed
  have hnext : nextTokenFrom 1 (b :: rest) = (t, ⟨[], 1⟩) := by
    rw [nextTokenFrom, if_neg (Indexed.not_blank_iff.mp hb).left,
      if_neg (Indexed.not_blank_iff.mp hb).right, h]
  rw [tokensOf_eq 1, hnext, if_neg hne]
  rfl

theorem tokensOf_hexText (v : Word) : tokensOf (ascii "0x" ++ hexText v) = [.literal v] := by
  have hall : (hexText v).takeWhile Radix.hex.inRun = hexText v :=
    List.takeWhile_eq_self_iff.mpr fun _ hb => inRun_hexText hb
  have hnone : (hexText v).dropWhile Radix.hex.inRun = [] := by
    have hsplit := List.takeWhile_append_dropWhile (p := Radix.hex.inRun) (l := hexText v)
    rw [hall] at hsplit
    exact List.append_right_eq_self.mp hsplit
  have hparse : parseLiteral (byte '0') (byte 'x' :: hexText v) = (.literal v, []) := by
    have hstart : byte '0' = byte '0' ∧ (byte 'x' = byte 'x' ∨ byte 'x' = byte 'X') :=
      ⟨rfl, Or.inl rfl⟩
    rw [parseLiteral, if_pos hstart, parseHex_run, hall, hnone, hexToken,
      if_neg (show hexText v ≠ [] from List.cons_ne_nil _ _), value_hexText, numberToken,
      if_pos v.isLt, BitVec.ofNat_toNat, BitVec.setWidth_eq]
  show tokensOf (byte '0' :: byte 'x' :: hexText v) = _
  refine tokensOf_single (by decide) ?_
  rw [parseToken_digit (by decide), hparse]

/-!
## Reading back
-/

theorem writeNumber_lexes (radix : Radix) (v : Word) :
    exists text, writeNumber radix v = .ok text ∧ tokensOf text = [.literal v] := by
  cases radix with
  | decimal => exact ⟨_, writeDecU32_eq v, tokensOf_decimalText v⟩
  | hex => exact ⟨_, writeHexU32_eq v, tokensOf_hexText v⟩

theorem tokensOf_operator {op : Byte} (h : isOperator op = true) :
    tokensOf [op] = [.operator op] := by
  revert op
  decide

theorem renderToken_lexes (t : PrintedToken) :
    exists word, renderToken t = .ok word ∧ tokensOf word = [t.token] := by
  obtain ⟨token, radix, hprintable⟩ := t
  cases token with
  | identifier name => exact ⟨name, rfl, tokensOf_name hprintable⟩
  | operator op => exact ⟨[op], rfl, tokensOf_operator hprintable⟩
  | literal value => exact writeNumber_lexes radix value
  | error msg => exact hprintable.elim
  | eof => exact hprintable.elim
  | _ =>
      refine ⟨_, rfl, ?_⟩
      dsimp only
      decide

theorem renderTokens_lexes (ts : List PrintedToken) :
    exists words, ts.mapM renderToken = .ok words ∧
      words.flatMap tokensOf = ts.map PrintedToken.token := by
  induction ts with
  | nil => exact ⟨[], rfl, rfl⟩
  | cons t ts ih =>
      obtain ⟨word, hword, hlex⟩ := renderToken_lexes t
      obtain ⟨words, hwords, hlexes⟩ := ih
      refine ⟨word :: words, ?_, ?_⟩
      · rw [List.mapM_cons, hword, hwords]
        rfl
      · rw [List.flatMap_cons, List.map_cons, hlex, hlexes]
        rfl

theorem tokensOf_joined (words : List (List Byte)) :
    tokensOf (joined words) = words.flatMap tokensOf := by
  cases words with
  | nil => rfl
  | cons word words => exact tokensOf_spaced word words

/-- What is rendered is read back, and a value that was printed can be typed in again in
either form. -/
theorem render_lexes :
    (forall ts : List PrintedToken, exists text, render ts = .ok text ∧
      Indexed.Lexes text (ts.map PrintedToken.token)) ∧
    forall v : Word, exists hex dec, writeHexU32 v = .ok hex ∧ writeDecU32 v = .ok dec ∧
      writeValue v = .ok (hex ++ ascii " (" ++ dec ++ ascii ")" ++ ascii "\r\n") ∧
      Indexed.Lexes hex [.literal v] ∧ Indexed.Lexes dec [.literal v] := by
  constructor
  · intro ts
    obtain ⟨words, hwords, hlexes⟩ := renderTokens_lexes ts
    refine ⟨joined words, ?_, Indexed.lexes_iff.mpr ?_⟩
    · unfold render
      rw [hwords]
      rfl
    · rw [tokensOf_joined, hlexes]
  · intro v
    refine ⟨_, _, writeHexU32_eq v, writeDecU32_eq v, ?_,
      Indexed.lexes_iff.mpr (tokensOf_hexText v), Indexed.lexes_iff.mpr (tokensOf_decimalText v)⟩
    unfold writeValue
    rw [writeHexU32_eq, writeDecU32_eq]
    rfl

end Drivers
end HolyRust
