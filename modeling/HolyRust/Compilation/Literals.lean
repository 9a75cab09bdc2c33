import HolyRust.Compilation.Coverage
import HolyRust.Compilation.Expressions

/-!
# Numeric literals

A literal text is a run of digits and separators, in hexadecimal behind `0x`.  The two
digit loops are one loop at two bases: it reads the run to its end, and it returns the
number if that fits a word.
-/

namespace HolyRust
namespace Compilation

/-!
## Runs of digits
-/

inductive Radix where
  | decimal
  | hex
deriving DecidableEq, Repr

namespace Radix

def base : Radix -> Nat
  | decimal => 10
  | hex => 16

/-- The value of a byte that is a digit. -/
def digit : Radix -> Byte -> Option Nat
  | decimal, b => if isAsciiDigit b then some (b.toNat - '0'.toNat) else none
  | hex, b => hexDigit b

/-- Digits and separators. -/
def inRun (r : Radix) (b : Byte) : Bool := (r.digit b).isSome || b == byte '_'

/-- A number read so far, extended by one byte of the run. -/
def extend (r : Radix) (value : Nat) (b : Byte) : Nat :=
  match r.digit b with
  | some d => value * r.base + d
  | none => value

/-- The number that a run denotes. -/
def value (r : Radix) (run : List Byte) : Nat := run.foldl r.extend 0

def overflow : Radix -> LexMsg
  | decimal => .literalOverflow
  | hex => .hexLiteralOverflow

/-- The digit loops of `parse_literal`, at either base. -/
def loop (r : Radix) (value : Nat) : List Byte -> Token × List Byte
  | [] => (.literal (BitVec.ofNat 32 value), [])
  | b :: rest =>
      match r.digit b with
      | some d =>
          if value * r.base + d < 2 ^ 32 then r.loop (value * r.base + d) rest
          else (.error r.overflow, skipWhile r.inRun (b :: rest))
      | none =>
          if b = byte '_' then r.loop value rest
          else (.literal (BitVec.ofNat 32 value), b :: rest)

end Radix

theorem skipWhile_eq_dropWhile (p : Byte -> Bool) (bytes : List Byte) :
    skipWhile p bytes = bytes.dropWhile p := by
  induction bytes with
  | nil => rfl
  | cons b rest ih =>
      rw [skipWhile, List.dropWhile_cons, ih]

theorem inRun_hex (b : Byte) :
    Radix.hex.inRun b = (isAsciiHexdigit b || b == byte '_') := by
  rw [Indexed.isAsciiHexdigit_iff]
  rfl

theorem inRun_decimal (b : Byte) :
    Radix.decimal.inRun b = (isAsciiDigit b || b == byte '_') := by
  show ((if isAsciiDigit b then some _ else none : Option Nat).isSome || _) = _
  by_cases hb : isAsciiDigit b = true
  · rw [if_pos hb, hb]
    rfl
  · rw [if_neg hb, Bool.eq_false_iff.mpr hb]
    rfl

theorem hexLoop_eq (value : Nat) (bytes : List Byte) :
    hexLoop value bytes = Radix.hex.loop value bytes := by
  induction bytes generalizing value with
  | nil => rfl
  | cons b rest ih =>
      rw [hexLoop, Radix.loop, ← funext inRun_hex]
      show (match hexDigit b with | some d => _ | none => _) =
        match hexDigit b with | some d => _ | none => _
      cases hexDigit b with
      | some d =>
          dsimp only
          rw [ih]
          rfl
      | none =>
          dsimp only
          rw [ih]

theorem decimalLoop_eq (value : Nat) (bytes : List Byte) :
    decimalLoop value bytes = Radix.decimal.loop value bytes := by
  induction bytes generalizing value with
  | nil => rfl
  | cons b rest ih =>
      have hdigit : Radix.decimal.digit b =
          if isAsciiDigit b then some (b.toNat - '0'.toNat) else none := rfl
      rw [decimalLoop, Radix.loop, ← funext inRun_decimal, hdigit]
      by_cases hb : isAsciiDigit b = true
      · rw [if_pos hb, if_pos hb]
        dsimp only
        rw [ih]
        rfl
      · rw [if_neg hb, if_neg hb]
        dsimp only
        rw [ih]

/-!
## What the loop reads
-/

namespace Radix

theorem base_pos (r : Radix) : 0 < r.base := by
  cases r <;> decide

theorem le_extend (r : Radix) (value : Nat) (b : Byte) : value ≤ r.extend value b := by
  unfold extend
  cases r.digit b with
  | none => exact Nat.le_refl _
  | some d =>
      have hmul := Nat.le_mul_of_pos_right value r.base_pos
      dsimp only
      lia

/-- Digits only make a number larger. -/
theorem le_foldl_extend (r : Radix) (value : Nat) (run : List Byte) :
    value ≤ run.foldl r.extend value := by
  induction run generalizing value with
  | nil => exact Nat.le_refl _
  | cons b rest ih => exact Nat.le_trans (r.le_extend value b) (ih _)

/-- The loop reads the whole run, whether the number fits or not. -/
theorem loop_spec (r : Radix) {value : Nat} (hvalue : value < 2 ^ 32) (bytes : List Byte) :
    r.loop value bytes =
      (if (bytes.takeWhile r.inRun).foldl r.extend value < 2 ^ 32 then
        .literal (BitVec.ofNat 32 ((bytes.takeWhile r.inRun).foldl r.extend value))
      else .error r.overflow,
      bytes.dropWhile r.inRun) := by
  induction bytes generalizing value with
  | nil =>
      rw [List.takeWhile_nil, List.foldl_nil, if_pos hvalue]
      rfl
  | cons b rest ih =>
      rw [loop]
      cases hdigit : r.digit b with
      | some d =>
          have hin : r.inRun b = true := by
            unfold inRun
            rw [hdigit]
            rfl
          have hextend : r.extend value b = value * r.base + d := by
            unfold extend
            rw [hdigit]
          rw [List.takeWhile_cons_of_pos hin, List.dropWhile_cons_of_pos hin, List.foldl_cons,
            hextend]
          dsimp only
          by_cases hfits : value * r.base + d < 2 ^ 32
          · rw [if_pos hfits]
            exact ih hfits
          · have hgrows := r.le_foldl_extend (value * r.base + d) (rest.takeWhile r.inRun)
            rw [if_neg hfits, if_neg (by lia), skipWhile_eq_dropWhile,
              List.dropWhile_cons_of_pos hin]
      | none =>
          dsimp only
          by_cases hunder : b = byte '_'
          · have hin : r.inRun b = true := by
              unfold inRun
              rw [hunder, beq_self_eq_true, Bool.or_true]
            have hextend : r.extend value b = value := by
              unfold extend
              rw [hdigit]
            rw [if_pos hunder, List.takeWhile_cons_of_pos hin, List.dropWhile_cons_of_pos hin,
              List.foldl_cons, hextend]
            exact ih hvalue
          · have hout : ¬ r.inRun b = true := by
              unfold inRun
              rw [hdigit]
              simpa using hunder
            rw [if_neg hunder, List.takeWhile_cons_of_neg hout, List.dropWhile_cons_of_neg hout,
              List.foldl_nil, if_pos hvalue]

/-- A run without a digit is zero. -/
theorem foldl_extend_of_none (r : Radix) {run : List Byte}
    (h : forall b, b ∈ run -> r.digit b = none) (value : Nat) :
    run.foldl r.extend value = value := by
  induction run with
  | nil => rfl
  | cons b rest ih =>
      have hextend : r.extend value b = value := by
        unfold extend
        rw [h b List.mem_cons_self]
      rw [List.foldl_cons, hextend]
      exact ih fun x hx => h x (List.mem_cons_of_mem b hx)

end Radix

/-!
## Literal texts
-/

/-- `0x` or `0X`. -/
def isHexPrefix (b x : Byte) : Bool :=
  decide (b = byte '0' ∧ (x = byte 'x' ∨ x = byte 'X'))

/-- The longest literal text at the start of `bytes`. -/
def literalText : List Byte -> List Byte
  | b :: x :: more =>
      if isHexPrefix b x then b :: x :: more.takeWhile Radix.hex.inRun
      else (b :: x :: more).takeWhile Radix.decimal.inRun
  | bytes => bytes.takeWhile Radix.decimal.inRun

/-- The number that a literal text denotes; a hexadecimal one needs a digit. -/
def literalValue : List Byte -> Option Nat
  | b :: x :: run =>
      if isHexPrefix b x then
        if run.any isAsciiHexdigit then some (Radix.hex.value run) else none
      else some (Radix.decimal.value (b :: x :: run))
  | text => some (Radix.decimal.value text)

/-- The token for a number, which has to fit a word. -/
def numberToken (r : Radix) (n : Nat) : Token :=
  if n < 2 ^ 32 then .literal (BitVec.ofNat 32 n) else .error r.overflow

/-- The token for what stands behind `0x`. -/
def hexToken (run : List Byte) : Token :=
  if run = [] then .error .malformedHexLiteral else numberToken .hex (Radix.hex.value run)

theorem decimalLoop_run (bytes : List Byte) :
    decimalLoop 0 bytes =
      (numberToken .decimal (Radix.decimal.value (bytes.takeWhile Radix.decimal.inRun)),
        bytes.dropWhile Radix.decimal.inRun) := by
  rw [decimalLoop_eq, Radix.loop_spec _ (by decide)]
  rfl

theorem parseHex_run (bytes : List Byte) :
    parseHex bytes =
      (hexToken (bytes.takeWhile Radix.hex.inRun), bytes.dropWhile Radix.hex.inRun) := by
  unfold parseHex
  cases bytes with
  | nil => rfl
  | cons b rest =>
      dsimp only
      rw [← inRun_hex]
      by_cases hb : Radix.hex.inRun b = true
      · have hne : (b :: rest).takeWhile Radix.hex.inRun ≠ [] := by
          rw [List.takeWhile_cons_of_pos hb]
          exact List.cons_ne_nil _ _
        rw [if_pos hb, hexLoop_eq, Radix.loop_spec _ (by decide), hexToken, if_neg hne]
        rfl
      · rw [if_neg hb, List.takeWhile_cons_of_neg hb, List.dropWhile_cons_of_neg hb]
        rfl

/-- The token of a literal text, and that nothing of the text is left. -/
theorem parseLiteral_cases (b : Byte) (rest : List Byte) :
    literalText (b :: rest) ++ (parseLiteral b rest).2 = b :: rest ∧
      ((exists x more, rest = x :: more ∧ isHexPrefix b x = true ∧
          (parseLiteral b rest).1 = hexToken (more.takeWhile Radix.hex.inRun) ∧
          literalText (b :: rest) = b :: x :: more.takeWhile Radix.hex.inRun) ∨
        ((forall x more, rest = x :: more -> isHexPrefix b x = false) ∧
          (parseLiteral b rest).1 =
            numberToken .decimal (Radix.decimal.value (literalText (b :: rest))))) := by
  have hdecimal : forall bytes : List Byte, bytes.takeWhile Radix.decimal.inRun ++
      (decimalLoop 0 bytes).2 = bytes := by
    intro bytes
    rw [decimalLoop_run]
    exact List.takeWhile_append_dropWhile
  unfold parseLiteral literalText
  cases rest with
  | nil =>
      refine ⟨hdecimal [b], Or.inr ⟨(fun x more h => by cases h), ?_⟩⟩
      dsimp only
      rw [decimalLoop_run]
  | cons x more =>
      dsimp only
      by_cases hhex : b = byte '0' ∧ (x = byte 'x' ∨ x = byte 'X')
      · have hstart : isHexPrefix b x = true := decide_eq_true hhex
        rw [if_pos hstart, if_pos hhex, parseHex_run]
        refine ⟨?_, Or.inl ⟨x, more, rfl, hstart, rfl, rfl⟩⟩
        rw [List.cons_append, List.cons_append, List.takeWhile_append_dropWhile]
      · have hstart : isHexPrefix b x = false := decide_eq_false hhex
        rw [if_neg (by rw [hstart]; decide), if_neg hhex]
        refine ⟨hdecimal _, Or.inr ⟨?_, ?_⟩⟩
        · intro y ys h
          rw [← (List.cons.inj h).left]
          exact hstart
        · rw [decimalLoop_run]

/-!
## Reading a literal
-/

/-- `0x` followed by separators alone, one at least. -/
def SeparatorsOnly : List Byte -> Prop
  | b :: x :: u :: more =>
      isHexPrefix b x = true ∧ u = byte '_' ∧
        (more.takeWhile Radix.hex.inRun).any isAsciiHexdigit = false
  | _ => False

/-- The literal text at the start of the buffer is read to its end, and the token is the
number that it denotes, or an error if it denotes none that fits a word. -/
def ReadsLiteral (bytes : List Byte) : Prop :=
  exists r, (Indexed.Lexer.new bytes).nextToken = .ok r ∧
    r.lexer.cursor = (literalText bytes).length ∧
    (forall v : Word, r.token = .literal v ↔
      literalValue (literalText bytes) = some v.toNat) ∧
    ((forall v : Word, literalValue (literalText bytes) ≠ some v.toNat) ->
      exists msg, r.token = .error msg)

theorem numberToken_spec (r : Radix) (n : Nat) :
    (forall v : Word, numberToken r n = .literal v ↔ some n = some v.toNat) ∧
      ((forall v : Word, some n ≠ some v.toNat) -> exists msg, numberToken r n = .error msg) := by
  unfold numberToken
  by_cases hfits : n < 2 ^ 32
  · rw [if_pos hfits]
    have hn : (BitVec.ofNat 32 n).toNat = n := by
      rw [BitVec.toNat_ofNat, Nat.mod_eq_of_lt hfits]
    refine ⟨?_, ?_⟩
    · intro v
      rw [Token.literal.injEq, ← BitVec.toNat_inj, hn, Option.some.injEq]
    · intro hnone
      exact absurd (by rw [hn]) (hnone (BitVec.ofNat 32 n))
  · rw [if_neg hfits]
    refine ⟨?_, fun _ => ⟨_, rfl⟩⟩
    intro v
    have hv := v.isLt
    rw [Option.some.injEq]
    constructor
    · intro h
      cases h
    · intro h
      lia

/-- At a digit nothing is skipped. -/
theorem nextToken_digit {b : Byte} (hb : isAsciiDigit b = true) (rest : List Byte) :
    exists r, (Indexed.Lexer.new (b :: rest)).nextToken = .ok r ∧
      r.token = (parseLiteral b rest).1 ∧
      r.lexer.cursor = (literalText (b :: rest)).length := by
  obtain ⟨r, hnext, hfinds⟩ :=
    @Indexed.nextToken_finds (b :: rest) 0 1 (Nat.zero_le _)
  have hnot : Indexed.isBlank b = false := by
    have hblank := not_blank_of_isIdentByte (isIdentByte_of_digit hb)
    rw [Bool.not_eq_true'] at hblank
    exact hblank
  refine ⟨r, hnext, ?_⟩
  cases hfinds with
  | eof gap hskipped hblank hr =>
      have hmem : b ∈ gap := by
        rw [← hskipped]
        exact List.mem_cons_self
      rw [hblank b hmem] at hnot
      cases hnot
  | token gap rest' b' cursor' hskipped hblank hb' hle hleft hr =>
      have hgap : gap = [] := by
        cases gap with
        | nil => rfl
        | cons x gap =>
            have hx : b = x := (List.cons.inj hskipped).left
            rw [hx, hblank x List.mem_cons_self] at hnot
            cases hnot
      subst hgap
      obtain ⟨rfl, rfl⟩ := List.cons.inj hskipped
      rw [parseToken_digit hb] at hleft hr
      have hlength := congrArg List.length (parseLiteral_cases b rest).left
      rw [← hleft, List.length_append, List.length_drop] at hlength
      subst hr
      refine ⟨rfl, ?_⟩
      show cursor' = _
      lia

/-- A run of separators alone is taken for the number zero. -/
theorem not_readsLiteral_of_separatorsOnly {bytes : List Byte} (h : SeparatorsOnly bytes) :
    ¬ ReadsLiteral bytes := by
  match bytes, h with
  | b :: x :: u :: more, ⟨hstart, hunder, hnone⟩ =>
      rintro ⟨r, hnext, _, hvalue, _⟩
      have hb : isAsciiDigit b = true := by
        rw [(of_decide_eq_true hstart).left]
        decide
      obtain ⟨r', hnext', htoken, _⟩ := nextToken_digit hb (x :: u :: more)
      cases hnext.symm.trans hnext'
      have hin : Radix.hex.inRun u = true := by
        rw [hunder]
        decide
      -- no byte of the run is a digit
      have hdigits : forall c, c ∈ (u :: more).takeWhile Radix.hex.inRun ->
          Radix.hex.digit c = none := by
        intro c hc
        rw [List.takeWhile_cons_of_pos hin] at hc
        rcases List.mem_cons.mp hc with rfl | hc
        · rw [hunder]
          decide
        · have hnot := List.any_eq_false.mp hnone c hc
          rw [Indexed.isAsciiHexdigit_iff, Option.not_isSome_iff_eq_none] at hnot
          exact hnot
      have hzero : r.token = .literal 0#32 := by
        rw [htoken]
        rcases (parseLiteral_cases b (x :: u :: more)).right with
          ⟨x', more', hcons, _, hhex, _⟩ | ⟨hnot, _⟩
        · obtain ⟨rfl, rfl⟩ := List.cons.inj hcons
          rw [hhex, hexToken, if_neg (by
            rw [List.takeWhile_cons_of_pos hin]
            exact List.cons_ne_nil _ _), Radix.value,
            Radix.foldl_extend_of_none _ hdigits]
          rfl
        · rw [hnot x _ rfl] at hstart
          cases hstart
      have htext : literalText (b :: x :: u :: more) =
          b :: x :: u :: more.takeWhile Radix.hex.inRun := by
        rw [literalText, if_pos hstart, List.takeWhile_cons_of_pos hin]
      have hsome := (hvalue 0#32).mp hzero
      rw [htext, literalValue, if_pos hstart, List.any_cons, hnone, hunder] at hsome
      cases hsome

/-- A decimal run is not behind `0x`. -/
theorem literalValue_decimal {text : List Byte}
    (h : forall c, c ∈ text -> Radix.decimal.inRun c = true) :
    literalValue text = some (Radix.decimal.value text) := by
  match text with
  | [] => rfl
  | [b] => rfl
  | b :: x :: run =>
      have hx := h x (List.mem_cons_of_mem _ List.mem_cons_self)
      have hstart : isHexPrefix b x = false := by
        refine decide_eq_false ?_
        rintro ⟨_, rfl | rfl⟩ <;> exact absurd hx (by decide)
      rw [literalValue, if_neg (by rw [hstart]; decide)]

theorem literalText_decimal {b : Byte} {rest : List Byte}
    (h : forall x more, rest = x :: more -> isHexPrefix b x = false) {c : Byte}
    (hc : c ∈ literalText (b :: rest)) : Radix.decimal.inRun c = true := by
  cases rest with
  | nil => exact List.mem_takeWhile_imp hc
  | cons x more =>
      rw [literalText, if_neg (by rw [h x more rfl]; decide)] at hc
      exact List.mem_takeWhile_imp hc

/-- A text that starts with a digit is read right unless it is `0x` and separators alone. -/
theorem readsLiteral_iff {b : Byte} (rest : List Byte) (hb : isAsciiDigit b = true) :
    ReadsLiteral (b :: rest) ↔ ¬ SeparatorsOnly (b :: rest) := by
  constructor
  · intro hreads honly
    exact not_readsLiteral_of_separatorsOnly honly hreads
  · intro hnot
    obtain ⟨r, hnext, htoken, hcursor⟩ := nextToken_digit hb rest
    refine ⟨r, hnext, hcursor, ?_⟩
    rw [htoken]
    rcases (parseLiteral_cases b rest).right with
      ⟨x, more, rfl, hstart, hhex, htext⟩ | ⟨hdecimal, htoken'⟩
    · rw [hhex, htext, literalValue, if_pos hstart]
      by_cases hempty : more.takeWhile Radix.hex.inRun = []
      · rw [hempty]
        refine ⟨?_, fun _ => ⟨_, rfl⟩⟩
        intro v
        constructor
        · intro h
          cases h
        · intro h
          cases h
      · have hsome : (more.takeWhile Radix.hex.inRun).any isAsciiHexdigit = true := by
          cases more with
          | nil => exact absurd rfl hempty
          | cons u more =>
              by_cases hin : Radix.hex.inRun u = true
              · rw [List.takeWhile_cons_of_pos hin, List.any_cons]
                by_cases hdigit : isAsciiHexdigit u = true
                · rw [hdigit, Bool.true_or]
                · have hunder : u = byte '_' := by
                    rw [inRun_hex, Bool.eq_false_iff.mpr hdigit, Bool.false_or] at hin
                    exact beq_iff_eq.mp hin
                  have hmore : (more.takeWhile Radix.hex.inRun).any isAsciiHexdigit ≠ false :=
                    fun hnone => hnot ⟨hstart, hunder, hnone⟩
                  rw [Bool.eq_false_iff.mpr hdigit, Bool.false_or]
                  exact Bool.eq_true_of_not_eq_false hmore
              · exact absurd (List.takeWhile_cons_of_neg hin) hempty
        rw [if_pos hsome, hexToken, if_neg hempty]
        exact numberToken_spec .hex _
    · rw [htoken', literalValue_decimal fun c hc => literalText_decimal hdecimal hc]
      exact numberToken_spec .decimal _

/-- A number of nine hex digits overflows, and the cursor is behind the last of them. -/
theorem readsLiteral_overflow :
    isAsciiDigit (byte '0') = true ∧ ReadsLiteral (ascii "0x1_0000_0000;") ∧
      literalText (ascii "0x1_0000_0000;") = ascii "0x1_0000_0000" :=
  ⟨by decide,
    (readsLiteral_iff (ascii "x1_0000_0000;") (by decide)).mpr fun h => absurd h.right.left
      (by decide),
    by decide⟩

/-- `0x_` has no digit and is read as zero. -/
theorem not_readsLiteral_separator : ¬ ReadsLiteral (ascii "0x_") :=
  not_readsLiteral_of_separatorsOnly ⟨by decide, by decide, by decide⟩

end Compilation
end HolyRust
