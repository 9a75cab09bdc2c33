import HolyRust.Platform

/-!
# Streaming lexer

A single pass over the bytes of one line.  A lexer holds the bytes it has not
consumed yet and the line counter; an identifier token carries its bytes.
-/

namespace HolyRust
namespace Compilation

/-- Interned messages of lexical errors. -/
inductive LexMsg where
  | unexpectedCharacter
  | hexLiteralOverflow
  | malformedHexLiteral
  | literalOverflow
deriving DecidableEq, Repr

inductive Token where
  | kwFn
  | kwLet
  | identifier (name : List Byte)
  | operator (op : Byte)
  | literal (value : Word)
  | lParen
  | rParen
  | lBrace
  | rBrace
  | semicolon
  | comma
  | error (msg : LexMsg)
  | eof
deriving DecidableEq, Repr

structure Lexer where
  rest : List Byte
  line : Nat

def Lexer.new (stream : List Byte) : Lexer where
  rest := stream
  line := 1

/-!
## Byte classes
-/

/-- An ASCII character literal `b'c'`. -/
def byte (c : Char) : Byte := BitVec.ofNat 8 c.toNat

/-- `lo..=hi` as a pattern on bytes. -/
def between (lo hi : Char) (b : Byte) : Bool :=
  decide (lo.toNat ≤ b.toNat) && decide (b.toNat ≤ hi.toNat)

def isAsciiDigit (b : Byte) : Bool := between '0' '9' b

def isAsciiAlphabetic (b : Byte) : Bool := between 'a' 'z' b || between 'A' 'Z' b

def isAsciiAlphanumeric (b : Byte) : Bool := isAsciiAlphabetic b || isAsciiDigit b

def isAsciiHexdigit (b : Byte) : Bool :=
  isAsciiDigit b || between 'a' 'f' b || between 'A' 'F' b

def isOperator (b : Byte) : Bool :=
  (ascii "+-*/%=<>!&|^~:?").contains b

/-- The value of a hexadecimal digit. -/
def hexDigit (b : Byte) : Option Nat :=
  if isAsciiDigit b then some (b.toNat - '0'.toNat)
  else if between 'a' 'f' b then some (b.toNat - 'a'.toNat + 10)
  else if between 'A' 'F' b then some (b.toNat - 'A'.toNat + 10)
  else none

/-!
## Token scanners

Each takes the unconsumed bytes and returns the token and the bytes after it.
-/

/-- Drop leading bytes that satisfy `p`. -/
def skipWhile (p : Byte -> Bool) : List Byte -> List Byte
  | [] => []
  | b :: rest => if p b then skipWhile p rest else b :: rest

/-- Leading bytes that satisfy `p`, and the rest. -/
def takeSpan (p : Byte -> Bool) : List Byte -> List Byte × List Byte
  | [] => ([], [])
  | b :: rest =>
      if p b then
        let s := takeSpan p rest
        (b :: s.1, s.2)
      else
        ([], b :: rest)

def parseIdentifier (bytes : List Byte) : Token × List Byte :=
  let s := takeSpan (fun b => isAsciiAlphanumeric b || b == byte '_') bytes
  if s.1 = ascii "fn" then (.kwFn, s.2)
  else if s.1 = ascii "let" then (.kwLet, s.2)
  else (.identifier s.1, s.2)

/-- Digits after `0x`.  An overflowing literal is consumed to its end. -/
def hexLoop (value : Nat) : List Byte -> Token × List Byte
  | [] => (.literal (BitVec.ofNat 32 value), [])
  | b :: rest =>
      match hexDigit b with
      | some digit =>
          if value * 16 + digit < 2 ^ 32 then
            hexLoop (value * 16 + digit) rest
          else
            (.error .hexLiteralOverflow,
              skipWhile (fun c => isAsciiHexdigit c || c == byte '_') (b :: rest))
      | none =>
          if b = byte '_' then hexLoop value rest
          else (.literal (BitVec.ofNat 32 value), b :: rest)

/-- The hex form past its `0x`; at least one byte has to be consumed. -/
def parseHex (bytes : List Byte) : Token × List Byte :=
  match bytes with
  | [] => (.error .malformedHexLiteral, [])
  | b :: rest =>
      if isAsciiHexdigit b || b == byte '_' then hexLoop 0 (b :: rest)
      else (.error .malformedHexLiteral, b :: rest)

def decimalLoop (value : Nat) : List Byte -> Token × List Byte
  | [] => (.literal (BitVec.ofNat 32 value), [])
  | b :: rest =>
      if isAsciiDigit b then
        if value * 10 + (b.toNat - '0'.toNat) < 2 ^ 32 then
          decimalLoop (value * 10 + (b.toNat - '0'.toNat)) rest
        else
          (.error .literalOverflow,
            skipWhile (fun c => isAsciiDigit c || c == byte '_') (b :: rest))
      else if b = byte '_' then decimalLoop value rest
      else (.literal (BitVec.ofNat 32 value), b :: rest)

/-- A literal whose first digit is `b`. -/
def parseLiteral (b : Byte) (rest : List Byte) : Token × List Byte :=
  match rest with
  | x :: digits =>
      if b = byte '0' ∧ (x = byte 'x' ∨ x = byte 'X') then parseHex digits
      else decimalLoop 0 (b :: rest)
  | [] => decimalLoop 0 [b]

/-- The token that starts with the byte `b`, which is not white space. -/
def parseToken (b : Byte) (rest : List Byte) : Token × List Byte :=
  if isAsciiAlphabetic b || b == byte '_' then parseIdentifier (b :: rest)
  else if isAsciiDigit b then parseLiteral b rest
  else if b = byte '(' then (.lParen, rest)
  else if b = byte ')' then (.rParen, rest)
  else if b = byte '{' then (.lBrace, rest)
  else if b = byte '}' then (.rBrace, rest)
  else if b = byte ';' then (.semicolon, rest)
  else if b = byte ',' then (.comma, rest)
  else if isOperator b then (.operator b, rest)
  else (.error .unexpectedCharacter, rest)

def nextTokenFrom (line : Nat) : List Byte -> Token × Lexer
  | [] => (.eof, ⟨[], line⟩)
  | b :: rest =>
      if b = byte ' ' ∨ b = byte '\t' ∨ b = byte '\r' then nextTokenFrom line rest
      else if b = byte '\n' then nextTokenFrom (line + 1) rest
      else
        let t := parseToken b rest
        (t.1, ⟨t.2, line⟩)

def Lexer.nextToken (lx : Lexer) : Token × Lexer :=
  nextTokenFrom lx.line lx.rest

/-!
## Progress

Every token but the end of input consumes at least one byte.
-/

theorem skipWhile_length_le (p : Byte -> Bool) (bytes : List Byte) :
    (skipWhile p bytes).length ≤ bytes.length := by
  induction bytes with
  | nil => exact Nat.le_refl 0
  | cons b rest ih =>
      simp only [skipWhile]
      by_cases h : p b = true
      · rw [if_pos h, List.length_cons]
        lia
      · rw [if_neg h]

theorem takeSpan_length_le (p : Byte -> Bool) (bytes : List Byte) :
    (takeSpan p bytes).2.length ≤ bytes.length := by
  induction bytes with
  | nil => exact Nat.le_refl 0
  | cons b rest ih =>
      simp only [takeSpan]
      by_cases h : p b = true
      · rw [if_pos h, List.length_cons]
        lia
      · rw [if_neg h]

theorem hexLoop_length_le (value : Nat) (bytes : List Byte) :
    (hexLoop value bytes).2.length ≤ bytes.length := by
  induction bytes generalizing value with
  | nil => exact Nat.le_refl 0
  | cons b rest ih =>
      simp only [hexLoop]
      cases hexDigit b with
      | some digit =>
          dsimp only
          by_cases h : value * 16 + digit < 2 ^ 32
          · rw [if_pos h, List.length_cons]
            have hrest := ih (value * 16 + digit)
            lia
          · rw [if_neg h]
            exact skipWhile_length_le _ _
      | none =>
          dsimp only
          by_cases h : b = byte '_'
          · rw [if_pos h, List.length_cons]
            have hrest := ih value
            lia
          · rw [if_neg h]

theorem decimalLoop_length_le (value : Nat) (bytes : List Byte) :
    (decimalLoop value bytes).2.length ≤ bytes.length := by
  induction bytes generalizing value with
  | nil => exact Nat.le_refl 0
  | cons b rest ih =>
      simp only [decimalLoop]
      by_cases hdigit : isAsciiDigit b = true
      · rw [if_pos hdigit]
        by_cases h : value * 10 + (b.toNat - '0'.toNat) < 2 ^ 32
        · rw [if_pos h, List.length_cons]
          have hrest := ih (value * 10 + (b.toNat - '0'.toNat))
          lia
        · rw [if_neg h]
          exact skipWhile_length_le _ _
      · rw [if_neg hdigit]
        by_cases h : b = byte '_'
        · rw [if_pos h, List.length_cons]
          have hrest := ih value
          lia
        · rw [if_neg h]

theorem parseIdentifier_length_le {b : Byte} (rest : List Byte)
    (h : (isAsciiAlphabetic b || b == byte '_') = true) :
    (parseIdentifier (b :: rest)).2.length ≤ rest.length := by
  have hfirst : (isAsciiAlphanumeric b || b == byte '_') = true := by
    unfold isAsciiAlphanumeric
    rw [Bool.or_eq_true] at h ⊢
    rcases h with h | h
    · exact Or.inl (by rw [h, Bool.true_or])
    · exact Or.inr h
  have hspan : (takeSpan (fun b => isAsciiAlphanumeric b || b == byte '_') (b :: rest)).2 =
      (takeSpan (fun b => isAsciiAlphanumeric b || b == byte '_') rest).2 := by
    simp only [takeSpan]
    rw [if_pos hfirst]
  have hlength := takeSpan_length_le (fun b => isAsciiAlphanumeric b || b == byte '_') rest
  unfold parseIdentifier
  dsimp only
  split
  · rw [hspan]
    exact hlength
  · split
    · rw [hspan]
      exact hlength
    · rw [hspan]
      exact hlength

theorem parseHex_length_le (bytes : List Byte) :
    (parseHex bytes).2.length ≤ bytes.length := by
  unfold parseHex
  cases bytes with
  | nil => exact Nat.le_refl 0
  | cons b rest =>
      dsimp only
      split
      · exact hexLoop_length_le 0 (b :: rest)
      · exact Nat.le_refl _

theorem parseLiteral_length_le {b : Byte} (rest : List Byte) (h : isAsciiDigit b = true) :
    (parseLiteral b rest).2.length ≤ rest.length := by
  have hdecimal : (decimalLoop 0 (b :: rest)).2.length ≤ rest.length := by
    have hb := b.isLt
    simp only [decimalLoop]
    rw [if_pos h, if_pos (by lia)]
    exact decimalLoop_length_le _ _
  unfold parseLiteral
  cases rest with
  | nil => exact hdecimal
  | cons x digits =>
      dsimp only
      split
      · exact Nat.le_trans (parseHex_length_le digits) (Nat.le_succ _)
      · exact hdecimal

/-- Tokens of a single byte, and the error for a byte that starts none. -/
def Token.IsMark : Token -> Prop
  | lParen | rParen | lBrace | rBrace | semicolon | comma | operator _ | error _ => True
  | _ => False

/-- What the first byte of a token decides. -/
theorem parseToken_cases (b : Byte) :
    ((isAsciiAlphabetic b || b == byte '_') = true ∧
      forall rest, parseToken b rest = parseIdentifier (b :: rest)) ∨
    (isAsciiDigit b = true ∧ forall rest, parseToken b rest = parseLiteral b rest) ∨
    exists t : Token, t.IsMark ∧ forall rest, parseToken b rest = (t, rest) := by
  by_cases hident : (isAsciiAlphabetic b || b == byte '_') = true
  · exact Or.inl ⟨hident, fun rest => if_pos hident⟩
  by_cases hdigit : isAsciiDigit b = true
  · exact Or.inr (Or.inl ⟨hdigit, fun rest => (if_neg hident).trans (if_pos hdigit)⟩)
  refine Or.inr (Or.inr ?_)
  simp only [parseToken, if_neg hident, if_neg hdigit]
  by_cases h1 : b = byte '('
  · exact ⟨.lParen, trivial, fun rest => if_pos h1⟩
  by_cases h2 : b = byte ')'
  · exact ⟨.rParen, trivial, fun rest => by rw [if_neg h1, if_pos h2]⟩
  by_cases h3 : b = byte '{'
  · exact ⟨.lBrace, trivial, fun rest => by rw [if_neg h1, if_neg h2, if_pos h3]⟩
  simp only [if_neg h1, if_neg h2, if_neg h3]
  by_cases h4 : b = byte '}'
  · exact ⟨.rBrace, trivial, fun rest => if_pos h4⟩
  by_cases h5 : b = byte ';'
  · exact ⟨.semicolon, trivial, fun rest => by rw [if_neg h4, if_pos h5]⟩
  by_cases h6 : b = byte ','
  · exact ⟨.comma, trivial, fun rest => by rw [if_neg h4, if_neg h5, if_pos h6]⟩
  simp only [if_neg h4, if_neg h5, if_neg h6]
  by_cases h7 : isOperator b = true
  · exact ⟨.operator b, trivial, fun rest => if_pos h7⟩
  · exact ⟨.error .unexpectedCharacter, trivial, fun rest => if_neg h7⟩

theorem parseToken_length_le (b : Byte) (rest : List Byte) :
    (parseToken b rest).2.length ≤ rest.length := by
  rcases parseToken_cases b with ⟨hident, h⟩ | ⟨hdigit, h⟩ | ⟨t, _, h⟩
  · rw [h]
    exact parseIdentifier_length_le rest hident
  · rw [h]
    exact parseLiteral_length_le rest hdigit
  · rw [h]

/-- Blanks are skipped, up to the end of input or to the byte that starts a token. -/
theorem nextTokenFrom_skips (line : Nat) (bytes : List Byte) :
    ((nextTokenFrom line bytes).1 = .eof ∧ (nextTokenFrom line bytes).2.rest = []) ∨
      exists b rest, rest.length + 1 ≤ bytes.length ∧
        (nextTokenFrom line bytes).1 = (parseToken b rest).1 ∧
        (nextTokenFrom line bytes).2.rest = (parseToken b rest).2 := by
  induction bytes generalizing line with
  | nil => exact Or.inl ⟨rfl, rfl⟩
  | cons b rest ih =>
      simp only [nextTokenFrom]
      split
      · rcases ih line with h | ⟨b', rest', hlength, htoken⟩
        · exact Or.inl h
        · exact Or.inr ⟨b', rest', Nat.le_succ_of_le hlength, htoken⟩
      · split
        · rcases ih (line + 1) with h | ⟨b', rest', hlength, htoken⟩
          · exact Or.inl h
          · exact Or.inr ⟨b', rest', Nat.le_succ_of_le hlength, htoken⟩
        · exact Or.inr ⟨b, rest, Nat.le_refl _, rfl, rfl⟩

/-- A token other than the end of input is paid for with a byte. -/
theorem nextTokenFrom_length (line : Nat) (bytes : List Byte) :
    ((nextTokenFrom line bytes).1 = .eof ∧ (nextTokenFrom line bytes).2.rest = []) ∨
      (nextTokenFrom line bytes).2.rest.length + 1 ≤ bytes.length := by
  rcases nextTokenFrom_skips line bytes with h | ⟨b, rest, hlength, _, hrest⟩
  · exact Or.inl h
  · have hle := parseToken_length_le b rest
    refine Or.inr ?_
    rw [hrest]
    lia

end Compilation
end HolyRust
