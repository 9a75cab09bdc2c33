import Mathlib.Data.List.TakeWhile
import HolyRust.Foundation.Checked
import HolyRust.Compilation.Tokens

/-!
# The lexer on its buffer

The same lexer with the buffer and the cursor of the source, where reading past the end
or slicing backwards is a panic.  The place where the text of a token starts is a ghost.

A position of the buffer stands for the bytes from there on: the last section shows that
the lexer never panics and does what the lexer on lists does.
-/

namespace HolyRust
namespace Compilation
namespace Indexed

open Foundation

structure Lexer where
  stream : List Byte
  cursor : Nat
  line : Nat

def Lexer.new (stream : List Byte) : Lexer where
  stream := stream
  cursor := 0
  line := 1

/-- A token, where its text starts, and the lexer behind it. -/
structure Lexed where
  token : Token
  start : Nat
  lexer : Lexer

/-!
## Scanners
-/

/-- Advance the cursor over bytes that satisfy `p`. -/
def scanWhile (stream : List Byte) (p : Byte -> Bool) (cursor : Nat) : Except Panic Nat :=
  if h : cursor < stream.length then do
    let b <- Checked.get stream cursor
    if p b then scanWhile stream p (cursor + 1) else pure cursor
  else
    pure cursor
termination_by stream.length - cursor

def parseIdentifier (stream : List Byte) (cursor : Nat) : Except Panic (Token × Nat) := do
  let start := cursor
  let cursor <- scanWhile stream (fun b => isAsciiAlphanumeric b || b == byte '_') cursor
  let ident <- Checked.slice stream start cursor
  if ident = ascii "fn" then pure (.kwFn, cursor)
  else if ident = ascii "let" then pure (.kwLet, cursor)
  else pure (.identifier ident, cursor)

def hexDigit (b : Byte) : Except Panic (Option Nat) :=
  if isAsciiDigit b then do
    let digit <- Checked.sub b.toNat '0'.toNat
    pure (some digit)
  else if between 'a' 'f' b then do
    let digit <- Checked.sub b.toNat 'a'.toNat
    pure (some (digit + 10))
  else if between 'A' 'F' b then do
    let digit <- Checked.sub b.toNat 'A'.toNat
    pure (some (digit + 10))
  else
    pure none

/-- The loop over hex digits and what follows it. -/
def hexLoop (stream : List Byte) (digitsStart cursor value : Nat) : Except Panic (Token × Nat) :=
  if h : cursor < stream.length then do
    let b <- Checked.get stream cursor
    let digit <- hexDigit b
    match digit with
    | some digit =>
        if value * 16 + digit < 2 ^ 32 then
          hexLoop stream digitsStart (cursor + 1) (value * 16 + digit)
        else do
          let cursor <- scanWhile stream (fun c => isAsciiHexdigit c || c == byte '_') cursor
          pure (.error .hexLiteralOverflow, cursor)
    | none =>
        if b = byte '_' then hexLoop stream digitsStart (cursor + 1) value
        else if cursor = digitsStart then pure (.error .malformedHexLiteral, cursor)
        else pure (.literal (BitVec.ofNat 32 value), cursor)
  else if cursor = digitsStart then pure (.error .malformedHexLiteral, cursor)
  else pure (.literal (BitVec.ofNat 32 value), cursor)
termination_by stream.length - cursor

/-- The loop over decimal digits and what follows it; `start` is where it began. -/
def decimalLoop (stream : List Byte) (start cursor value : Nat) : Except Panic (Token × Nat) :=
  if h : cursor < stream.length then do
    let b <- Checked.get stream cursor
    if isAsciiDigit b then do
      let digit <- Checked.sub b.toNat '0'.toNat
      if value * 10 + digit < 2 ^ 32 then
        decimalLoop stream start (cursor + 1) (value * 10 + digit)
      else do
        let cursor <- scanWhile stream (fun c => isAsciiDigit c || c == byte '_') cursor
        pure (.error .literalOverflow, cursor)
    else if b = byte '_' then decimalLoop stream start (cursor + 1) value
    else do
      Checked.assert (start < cursor)
      pure (.literal (BitVec.ofNat 32 value), cursor)
  else do
    Checked.assert (start < cursor)
    pure (.literal (BitVec.ofNat 32 value), cursor)
termination_by stream.length - cursor

/-- The `0x` test, which looks one byte ahead if there is one. -/
def isHexForm (stream : List Byte) (cursor : Nat) : Except Panic Bool := do
  let b <- Checked.get stream cursor
  if b = byte '0' then
    if cursor + 1 < stream.length then do
      let x <- Checked.get stream (cursor + 1)
      pure (decide (x = byte 'x' ∨ x = byte 'X'))
    else pure false
  else pure false

def parseLiteral (stream : List Byte) (cursor : Nat) : Except Panic (Token × Nat) := do
  if <- isHexForm stream cursor then hexLoop stream (cursor + 2) (cursor + 2) 0
  else decimalLoop stream cursor cursor 0

/-- The arms of `next_token` for a byte `b` that is not white space. -/
def parseToken (stream : List Byte) (cursor : Nat) (b : Byte) : Except Panic (Token × Nat) :=
  if isAsciiAlphabetic b || b == byte '_' then parseIdentifier stream cursor
  else if isAsciiDigit b then parseLiteral stream cursor
  else if b = byte '(' then pure (.lParen, cursor + 1)
  else if b = byte ')' then pure (.rParen, cursor + 1)
  else if b = byte '{' then pure (.lBrace, cursor + 1)
  else if b = byte '}' then pure (.rBrace, cursor + 1)
  else if b = byte ';' then pure (.semicolon, cursor + 1)
  else if b = byte ',' then pure (.comma, cursor + 1)
  else if isOperator b then pure (.operator b, cursor + 1)
  else pure (.error .unexpectedCharacter, cursor + 1)

def nextTokenLoop (stream : List Byte) (cursor line : Nat) : Except Panic Lexed :=
  if h : cursor < stream.length then do
    let b <- Checked.get stream cursor
    if b = byte ' ' ∨ b = byte '\t' ∨ b = byte '\r' then nextTokenLoop stream (cursor + 1) line
    else if b = byte '\n' then nextTokenLoop stream (cursor + 1) (line + 1)
    else do
      let t <- parseToken stream cursor b
      pure ⟨t.1, cursor, ⟨stream, t.2, line⟩⟩
  else
    pure ⟨.eof, cursor, ⟨stream, cursor, line⟩⟩
termination_by stream.length - cursor

def Lexer.nextToken (lx : Lexer) : Except Panic Lexed :=
  nextTokenLoop lx.stream lx.cursor lx.line

/-!
## Positions and suffixes
-/

theorem get_of_drop {stream rest : List Byte} {cursor : Nat} {b : Byte}
    (h : stream.drop cursor = b :: rest) :
    cursor < stream.length ∧ Checked.get stream cursor = .ok b ∧
      stream.drop (cursor + 1) = rest := by
  have hlt : cursor < stream.length := by
    rcases Nat.lt_or_ge cursor stream.length with hlt | hge
    · exact hlt
    · rw [List.drop_eq_nil_of_le hge] at h
      cases h
  rw [List.drop_eq_getElem_cons hlt] at h
  obtain ⟨hb, hrest⟩ := List.cons.inj h
  refine ⟨hlt, Checked.get_of_getElem? ?_, hrest⟩
  rw [List.getElem?_eq_getElem hlt, hb]

theorem length_le_of_drop_nil {stream : List Byte} {cursor : Nat} (h : stream.drop cursor = []) :
    ¬ cursor < stream.length :=
  Nat.not_lt.mpr (List.drop_eq_nil_iff.mp h)

/-- A scanner on positions that does what `result` says about the bytes there. -/
def Follows (stream : List Byte) (scan : Except Panic (Token × Nat))
    (result : Token × List Byte) : Prop :=
  exists cursor', scan = .ok (result.1, cursor') ∧ cursor' ≤ stream.length ∧
    stream.drop cursor' = result.2

theorem follows_ite {stream : List Byte} {P : Prop} [Decidable P]
    {x x' : Except Panic (Token × Nat)} {y y' : Token × List Byte}
    (hpos : P -> Follows stream x y) (hneg : ¬ P -> Follows stream x' y') :
    Follows stream (if P then x else x') (if P then y else y') := by
  by_cases h : P
  · rw [if_pos h, if_pos h]
    exact hpos h
  · rw [if_neg h, if_neg h]
    exact hneg h

theorem scanWhile_spec {stream bytes : List Byte} (p : Byte -> Bool) {cursor : Nat}
    (h : stream.drop cursor = bytes) (hle : cursor ≤ stream.length) :
    exists cursor', scanWhile stream p cursor = .ok cursor' ∧ cursor ≤ cursor' ∧
      cursor' ≤ stream.length ∧ stream.drop cursor' = skipWhile p bytes ∧
      bytes = (stream.take cursor').drop cursor ++ skipWhile p bytes := by
  induction bytes generalizing cursor with
  | nil =>
      refine ⟨cursor, ?_, Nat.le_refl _, hle, h, ?_⟩
      · rw [scanWhile, dif_neg (length_le_of_drop_nil h)]
        rfl
      · simp [skipWhile]
  | cons b rest ih =>
      obtain ⟨hlt, hget, hdrop⟩ := get_of_drop h
      rw [scanWhile, dif_pos hlt, hget]
      show exists cursor', (if p b then _ else _ : Except Panic Nat) = _ ∧ _
      by_cases hp : p b = true
      · obtain ⟨cursor', hscan, hlo, hhi, hrest, hsplit⟩ := ih hdrop hlt
        have hskip : skipWhile p (b :: rest) = skipWhile p rest := by
          rw [skipWhile, if_pos hp]
        have htake : (stream.take cursor').drop cursor =
            b :: (stream.take cursor').drop (cursor + 1) := by
          have hin : cursor < (stream.take cursor').length := by
            rw [List.length_take]
            lia
          have hb : stream[cursor] = b := by
            have hcons := List.drop_eq_getElem_cons hlt
            rw [h] at hcons
            exact (List.cons.inj hcons).left.symm
          rw [List.drop_eq_getElem_cons hin, List.getElem_take, hb]
        rw [if_pos hp]
        refine ⟨cursor', hscan, by lia, hhi, by rw [hskip]; exact hrest, ?_⟩
        rw [hskip, htake, List.cons_append, ← hsplit]
      · have hskip : skipWhile p (b :: rest) = b :: rest := by
          rw [skipWhile, if_neg hp]
        rw [if_neg hp, hskip]
        refine ⟨cursor, rfl, Nat.le_refl _, hle, h, ?_⟩
        simp

theorem takeSpan_append_skipWhile (p : Byte -> Bool) (bytes : List Byte) :
    (takeSpan p bytes).1 ++ skipWhile p bytes = bytes ∧
      (takeSpan p bytes).2 = skipWhile p bytes := by
  induction bytes with
  | nil => exact ⟨rfl, rfl⟩
  | cons b rest ih =>
      simp only [takeSpan, skipWhile]
      by_cases hp : p b = true
      · rw [if_pos hp, if_pos hp]
        exact ⟨by rw [List.cons_append, ih.left], ih.right⟩
      · rw [if_neg hp, if_neg hp]
        exact ⟨rfl, rfl⟩

theorem parseIdentifier_follows {stream bytes : List Byte} {cursor : Nat}
    (h : stream.drop cursor = bytes) (hle : cursor ≤ stream.length) :
    Follows stream (parseIdentifier stream cursor) (Compilation.parseIdentifier bytes) := by
  obtain ⟨cursor', hscan, hlo, hhi, hrest, hsplit⟩ :=
    scanWhile_spec (fun b => isAsciiAlphanumeric b || b == byte '_') h hle
  obtain ⟨hspan, hspan2⟩ :=
    takeSpan_append_skipWhile (fun b => isAsciiAlphanumeric b || b == byte '_') bytes
  have hident : (stream.take cursor').drop cursor =
      (takeSpan (fun b => isAsciiAlphanumeric b || b == byte '_') bytes).1 :=
    List.append_cancel_right (hsplit.symm.trans hspan.symm)
  refine ⟨cursor', ?_, hhi, ?_⟩
  · unfold parseIdentifier Compilation.parseIdentifier
    rw [hscan]
    show (Checked.slice stream cursor cursor' >>= _) = _
    rw [Checked.slice_of_le hlo hhi, hident]
    show (if _ = ascii "fn" then _ else _ : Except Panic (Token × Nat)) = _
    dsimp only
    split
    · rfl
    · split <;> rfl
  · unfold Compilation.parseIdentifier
    dsimp only
    rw [hspan2]
    split
    · exact hrest
    · split
      · exact hrest
      · exact hrest

/-- An overflowing literal is consumed to its end. -/
theorem scanWhile_follows {stream bytes : List Byte} (p : Byte -> Bool) (t : Token) {cursor : Nat}
    (h : stream.drop cursor = bytes) (hle : cursor ≤ stream.length) :
    Follows stream (do
      let cursor <- scanWhile stream p cursor
      pure (t, cursor)) (t, skipWhile p bytes) := by
  obtain ⟨cursor', hscan, _, hhi, hrest, _⟩ := scanWhile_spec p h hle
  refine ⟨cursor', ?_, hhi, hrest⟩
  rw [hscan]
  rfl

/-- A digit is subtracted from only inside its range. -/
theorem hexDigit_eq (b : Byte) : hexDigit b = .ok (Compilation.hexDigit b) := by
  have hrange : forall {lo hi : Char}, between lo hi b = true -> lo.toNat ≤ b.toNat := by
    intro lo hi hbetween
    unfold between at hbetween
    rw [Bool.and_eq_true] at hbetween
    exact of_decide_eq_true hbetween.left
  unfold hexDigit Compilation.hexDigit
  by_cases hdigit : isAsciiDigit b = true
  · rw [if_pos hdigit, if_pos hdigit, Checked.sub_of_le (hrange hdigit)]
    rfl
  · rw [if_neg hdigit, if_neg hdigit]
    by_cases hlower : between 'a' 'f' b = true
    · rw [if_pos hlower, if_pos hlower, Checked.sub_of_le (hrange hlower)]
      rfl
    · rw [if_neg hlower, if_neg hlower]
      by_cases hupper : between 'A' 'F' b = true
      · rw [if_pos hupper, if_pos hupper, Checked.sub_of_le (hrange hupper)]
        rfl
      · rw [if_neg hupper, if_neg hupper]
        rfl

theorem sub_zero_of_isAsciiDigit {b : Byte} (h : isAsciiDigit b = true) :
    Checked.sub b.toNat '0'.toNat = .ok (b.toNat - '0'.toNat) := by
  unfold isAsciiDigit between at h
  rw [Bool.and_eq_true] at h
  exact Checked.sub_of_le (of_decide_eq_true h.left)

/-- Behind the first byte after `0x`, what the loop has read is a literal. -/
theorem hexLoop_follows {stream bytes : List Byte} {digitsStart cursor : Nat} (value : Nat)
    (h : stream.drop cursor = bytes) (hle : cursor ≤ stream.length)
    (hstart : digitsStart < cursor) :
    Follows stream (hexLoop stream digitsStart cursor value)
      (Compilation.hexLoop value bytes) := by
  induction bytes generalizing cursor value with
  | nil =>
      rw [hexLoop, dif_neg (length_le_of_drop_nil h), if_neg (Nat.ne_of_gt hstart)]
      exact ⟨cursor, rfl, hle, h⟩
  | cons b rest ih =>
      obtain ⟨hlt, hget, hdrop⟩ := get_of_drop h
      rw [hexLoop, dif_pos hlt, hget, Compilation.hexLoop]
      show Follows stream (hexDigit b >>= _) _
      rw [hexDigit_eq]
      show Follows stream (match Compilation.hexDigit b with | some digit => _ | none => _) _
      cases Compilation.hexDigit b with
      | some digit =>
          exact follows_ite (fun _ => ih _ hdrop hlt (Nat.lt_succ_of_lt hstart))
            fun _ => scanWhile_follows _ _ h hle
      | none =>
          refine follows_ite (fun _ => ih _ hdrop hlt (Nat.lt_succ_of_lt hstart)) fun _ => ?_
          rw [if_neg (Nat.ne_of_gt hstart)]
          exact ⟨cursor, rfl, hle, h⟩

theorem isAsciiHexdigit_iff (b : Byte) :
    isAsciiHexdigit b = (Compilation.hexDigit b).isSome := by
  unfold isAsciiHexdigit Compilation.hexDigit
  cases isAsciiDigit b <;> cases between 'a' 'f' b <;> cases between 'A' 'F' b <;> rfl

/-- Right behind `0x`, a byte has to be read first. -/
theorem parseHex_follows {stream bytes : List Byte} {cursor : Nat}
    (h : stream.drop cursor = bytes) (hle : cursor ≤ stream.length) :
    Follows stream (hexLoop stream cursor cursor 0) (parseHex bytes) := by
  cases bytes with
  | nil =>
      rw [hexLoop, dif_neg (length_le_of_drop_nil h), if_pos rfl]
      exact ⟨cursor, rfl, hle, h⟩
  | cons b rest =>
      obtain ⟨hlt, hget, hdrop⟩ := get_of_drop h
      rw [hexLoop, dif_pos hlt, hget, parseHex, Compilation.hexLoop, isAsciiHexdigit_iff]
      show Follows stream (hexDigit b >>= _) _
      rw [hexDigit_eq]
      show Follows stream (match Compilation.hexDigit b with | some digit => _ | none => _) _
      cases hdigit : Compilation.hexDigit b with
      | some digit =>
          rw [Option.isSome_some, Bool.true_or, if_pos rfl]
          dsimp only
          exact follows_ite (fun _ => hexLoop_follows _ hdrop hlt (Nat.lt_succ_self cursor))
            fun _ => scanWhile_follows _ _ h hle
      | none =>
          rw [Option.isSome_none, Bool.false_or]
          dsimp only
          by_cases hunder : b = byte '_'
          · rw [if_pos hunder, if_pos (beq_iff_eq.mpr hunder), if_pos hunder]
            exact hexLoop_follows _ hdrop hlt (Nat.lt_succ_self cursor)
          · rw [if_neg hunder, if_neg (fun hb => hunder (beq_iff_eq.mp hb)), if_pos rfl]
            exact ⟨cursor, rfl, hle, h⟩

/-- Behind its first byte the loop has moved, as the assertion at its end says. -/
theorem decimalLoop_follows {stream bytes : List Byte} {start cursor : Nat} (value : Nat)
    (h : stream.drop cursor = bytes) (hle : cursor ≤ stream.length) (hstart : start < cursor) :
    Follows stream (decimalLoop stream start cursor value)
      (Compilation.decimalLoop value bytes) := by
  induction bytes generalizing cursor value with
  | nil =>
      rw [decimalLoop, dif_neg (length_le_of_drop_nil h), Checked.assert_of hstart]
      exact ⟨cursor, rfl, hle, h⟩
  | cons b rest ih =>
      obtain ⟨hlt, hget, hdrop⟩ := get_of_drop h
      rw [decimalLoop, dif_pos hlt, hget, Compilation.decimalLoop]
      show Follows stream (if isAsciiDigit b = true then _ else _) _
      refine follows_ite (fun hdigit => ?_) fun _ => ?_
      · rw [sub_zero_of_isAsciiDigit hdigit]
        exact follows_ite (fun _ => ih _ hdrop hlt (Nat.lt_succ_of_lt hstart))
          fun _ => scanWhile_follows _ _ h hle
      · refine follows_ite (fun _ => ih _ hdrop hlt (Nat.lt_succ_of_lt hstart)) fun _ => ?_
        rw [Checked.assert_of hstart]
        exact ⟨cursor, rfl, hle, h⟩

/-- A digit is read first. -/
theorem parseDecimal_follows {stream rest : List Byte} {cursor : Nat} {b : Byte}
    (h : stream.drop cursor = b :: rest) (hdigit : isAsciiDigit b = true) :
    Follows stream (decimalLoop stream cursor cursor 0)
      (Compilation.decimalLoop 0 (b :: rest)) := by
  obtain ⟨hlt, hget, hdrop⟩ := get_of_drop h
  rw [decimalLoop, dif_pos hlt, hget, Compilation.decimalLoop]
  show Follows stream (if isAsciiDigit b = true then _ else _) _
  rw [if_pos hdigit, if_pos hdigit, sub_zero_of_isAsciiDigit hdigit]
  exact follows_ite (fun _ => decimalLoop_follows _ hdrop hlt (Nat.lt_succ_self cursor))
    fun _ => scanWhile_follows _ _ h (Nat.le_of_lt hlt)

theorem isHexForm_cons {stream rest : List Byte} {cursor : Nat} {b : Byte}
    (h : stream.drop cursor = b :: rest) :
    isHexForm stream cursor = .ok (match rest with
      | x :: _ => decide (b = byte '0' ∧ (x = byte 'x' ∨ x = byte 'X'))
      | [] => false) := by
  obtain ⟨hlt, hget, hdrop⟩ := get_of_drop h
  unfold isHexForm
  rw [hget]
  show (if b = byte '0' then _ else _ : Except Panic Bool) = _
  by_cases hzero : b = byte '0'
  · rw [if_pos hzero]
    cases rest with
    | nil =>
        rw [if_neg (length_le_of_drop_nil hdrop)]
        rfl
    | cons x digits =>
        obtain ⟨hlt', hget', _⟩ := get_of_drop hdrop
        rw [if_pos hlt', hget']
        simp only [hzero, true_and]
        rfl
  · rw [if_neg hzero]
    cases rest with
    | nil => rfl
    | cons x digits =>
        simp only [hzero, false_and, decide_false]
        rfl

theorem parseLiteral_follows {stream rest : List Byte} {cursor : Nat} {b : Byte}
    (h : stream.drop cursor = b :: rest) (hdigit : isAsciiDigit b = true) :
    Follows stream (parseLiteral stream cursor) (Compilation.parseLiteral b rest) := by
  unfold parseLiteral Compilation.parseLiteral
  rw [isHexForm_cons h]
  cases rest with
  | nil => exact parseDecimal_follows h hdigit
  | cons x digits =>
      obtain ⟨_, _, hdrop⟩ := get_of_drop h
      obtain ⟨hlt, _, hdrop2⟩ := get_of_drop hdrop
      show Follows stream (if decide (b = byte '0' ∧ (x = byte 'x' ∨ x = byte 'X')) = true then _
        else _) (if b = byte '0' ∧ (x = byte 'x' ∨ x = byte 'X') then _ else _)
      by_cases hhex : b = byte '0' ∧ (x = byte 'x' ∨ x = byte 'X')
      · rw [if_pos (decide_eq_true hhex), if_pos hhex]
        exact parseHex_follows hdrop2 hlt
      · rw [if_neg (fun hd => hhex (of_decide_eq_true hd)), if_neg hhex]
        exact parseDecimal_follows h hdigit

theorem parseToken_follows {stream rest : List Byte} {cursor : Nat} {b : Byte}
    (h : stream.drop cursor = b :: rest) :
    Follows stream (parseToken stream cursor b) (Compilation.parseToken b rest) := by
  obtain ⟨hlt, _, hdrop⟩ := get_of_drop h
  have hone : forall t, Follows stream (pure (t, cursor + 1)) (t, rest) :=
    fun t => ⟨cursor + 1, rfl, hlt, hdrop⟩
  unfold parseToken Compilation.parseToken
  refine follows_ite (fun _ => parseIdentifier_follows h (Nat.le_of_lt hlt)) fun _ => ?_
  refine follows_ite (fun hdigit => parseLiteral_follows h hdigit) fun _ => ?_
  refine follows_ite (fun _ => hone _) fun _ => follows_ite (fun _ => hone _) fun _ => ?_
  refine follows_ite (fun _ => hone _) fun _ => follows_ite (fun _ => hone _) fun _ => ?_
  refine follows_ite (fun _ => hone _) fun _ => follows_ite (fun _ => hone _) fun _ => ?_
  exact follows_ite (fun _ => hone _) fun _ => hone _

/-!
## Blanks
-/

/-- Space, tab, carriage return and line feed. -/
def isBlank (b : Byte) : Bool :=
  decide (b = byte ' ' ∨ b = byte '\t' ∨ b = byte '\r') || decide (b = byte '\n')

/-- The blanks in front of the first byte of a token. -/
theorem exists_blanks (bytes : List Byte) :
    exists gap after, bytes = gap ++ after ∧ (forall b, b ∈ gap -> isBlank b = true) ∧
      forall b rest, after = b :: rest -> isBlank b = false := by
  refine ⟨bytes.takeWhile isBlank, bytes.dropWhile isBlank,
    List.takeWhile_append_dropWhile.symm, ?_, ?_⟩
  · intro b hb
    exact List.mem_takeWhile_imp hb
  · intro b rest hafter
    have hhead := List.head?_dropWhile_not isBlank bytes
    rw [hafter] at hhead
    exact hhead

theorem count_feed_of_space {b : Byte} (h : b = byte ' ' ∨ b = byte '\t' ∨ b = byte '\r') :
    [b].count (byte '\n') = 0 := by
  rcases h with rfl | rfl | rfl <;> decide

theorem eq_feed_of_blank {b : Byte} (hb : isBlank b = true)
    (hspace : ¬ (b = byte ' ' ∨ b = byte '\t' ∨ b = byte '\r')) : b = byte '\n' := by
  unfold isBlank at hb
  rw [decide_eq_false hspace, Bool.false_or] at hb
  exact of_decide_eq_true hb

/-- A blank byte advances the cursor, and a line feed the line as well. -/
theorem nextTokenLoop_blank {stream rest : List Byte} {cursor : Nat} {b : Byte} (line : Nat)
    (h : stream.drop cursor = b :: rest) (hb : isBlank b = true) :
    nextTokenLoop stream cursor line =
      nextTokenLoop stream (cursor + 1) (line + [b].count (byte '\n')) := by
  obtain ⟨hlt, hget, _⟩ := get_of_drop h
  rw [nextTokenLoop, dif_pos hlt, hget]
  show (if b = byte ' ' ∨ b = byte '\t' ∨ b = byte '\r' then _ else _ : Except Panic Lexed) = _
  by_cases hspace : b = byte ' ' ∨ b = byte '\t' ∨ b = byte '\r'
  · rw [if_pos hspace, count_feed_of_space hspace]
    rfl
  · have hfeed := eq_feed_of_blank hb hspace
    rw [if_neg hspace, if_pos hfeed, hfeed]
    rfl

theorem nextTokenLoop_blanks {stream gap after : List Byte} {cursor : Nat} (line : Nat)
    (h : stream.drop cursor = gap ++ after) (hgap : forall b, b ∈ gap -> isBlank b = true) :
    nextTokenLoop stream cursor line =
      nextTokenLoop stream (cursor + gap.length) (line + gap.count (byte '\n')) := by
  induction gap generalizing cursor line with
  | nil => rfl
  | cons b gap ih =>
      obtain ⟨_, _, hdrop⟩ := get_of_drop h
      rw [nextTokenLoop_blank line h (hgap b List.mem_cons_self),
        ih _ hdrop fun x hx => hgap x (List.mem_cons_of_mem b hx), List.length_cons,
        show b :: gap = [b] ++ gap from rfl, List.count_append]
      congr 1 <;> lia

theorem nextTokenFrom_blanks {gap after : List Byte} (line : Nat)
    (hgap : forall b, b ∈ gap -> isBlank b = true) :
    nextTokenFrom line (gap ++ after) =
      nextTokenFrom (line + gap.count (byte '\n')) after := by
  induction gap generalizing line with
  | nil => rfl
  | cons b gap ih =>
      have hb := hgap b List.mem_cons_self
      rw [List.cons_append, nextTokenFrom, show b :: gap = [b] ++ gap from rfl,
        List.count_append, ← Nat.add_assoc,
        ← ih _ fun x hx => hgap x (List.mem_cons_of_mem b hx)]
      by_cases hspace : b = byte ' ' ∨ b = byte '\t' ∨ b = byte '\r'
      · rw [if_pos hspace, count_feed_of_space hspace, Nat.add_zero]
      · have hfeed := eq_feed_of_blank hb hspace
        rw [if_neg hspace, if_pos hfeed, hfeed]
        rfl

theorem not_blank_iff {b : Byte} : isBlank b = false ↔
    ¬ (b = byte ' ' ∨ b = byte '\t' ∨ b = byte '\r') ∧ b ≠ byte '\n' := by
  unfold isBlank
  rw [Bool.or_eq_false_iff, decide_eq_false_iff_not, decide_eq_false_iff_not]

/-!
## One token
-/

/-- How a call of `next_token` at `cursor` ends: it skips the blanks in `gap` and finds the
end of the buffer, or a token that starts with another byte. -/
inductive Finds (stream : List Byte) (cursor line : Nat) (r : Lexed) : Prop where
  | eof (gap : List Byte)
      (skipped : stream.drop cursor = gap)
      (blank : forall b, b ∈ gap -> isBlank b = true)
      (result : r = ⟨.eof, stream.length, ⟨stream, stream.length, line + gap.count (byte '\n')⟩⟩)
  | token (gap rest : List Byte) (b : Byte) (cursor' : Nat)
      (skipped : stream.drop cursor = gap ++ b :: rest)
      (blank : forall x, x ∈ gap -> isBlank x = true)
      (start : isBlank b = false)
      (le_length : cursor' ≤ stream.length)
      (left : stream.drop cursor' = (Compilation.parseToken b rest).2)
      (result : r = ⟨(Compilation.parseToken b rest).1, cursor + gap.length,
        ⟨stream, cursor', line + gap.count (byte '\n')⟩⟩)

/-- `next_token` never panics, and this is what it does. -/
theorem nextToken_finds {stream : List Byte} {cursor : Nat} (line : Nat)
    (hle : cursor ≤ stream.length) :
    exists r, nextTokenLoop stream cursor line = .ok r ∧ Finds stream cursor line r := by
  obtain ⟨gap, after, hsplit, hgap, hafter⟩ := exists_blanks (stream.drop cursor)
  rw [nextTokenLoop_blanks line hsplit hgap]
  have hdrop : stream.drop (cursor + gap.length) = after := by
    rw [← List.drop_drop, hsplit, List.drop_left]
  cases after with
  | nil =>
      have hlength : cursor + gap.length = stream.length := by
        have hgapLength := congrArg List.length hsplit
        rw [List.append_nil, List.length_drop] at hgapLength
        lia
      rw [List.append_nil] at hsplit
      refine ⟨_, ?_, Finds.eof gap hsplit hgap rfl⟩
      rw [nextTokenLoop, dif_neg (length_le_of_drop_nil hdrop), hlength]
      rfl
  | cons b rest =>
      have hb := hafter b rest rfl
      obtain ⟨cursor', hparse, hle', hleft⟩ := parseToken_follows hdrop
      obtain ⟨hlt, hget, _⟩ := get_of_drop hdrop
      refine ⟨_, ?_, Finds.token gap rest b cursor' hsplit hgap hb hle' hleft rfl⟩
      rw [nextTokenLoop, dif_pos hlt, hget]
      show (if b = byte ' ' ∨ b = byte '\t' ∨ b = byte '\r' then _ else _ : Except Panic Lexed) = _
      rw [if_neg (not_blank_iff.mp hb).left, if_neg (not_blank_iff.mp hb).right, hparse]
      rfl

/-- The lexer on the buffer and the lexer on the rest of it agree. -/
theorem nextTokenLoop_refines {stream : List Byte} {cursor : Nat} (line : Nat)
    (hle : cursor ≤ stream.length) :
    exists r, nextTokenLoop stream cursor line = .ok r ∧
      r.token = (nextTokenFrom line (stream.drop cursor)).1 ∧
      r.lexer.stream = stream ∧ r.lexer.cursor ≤ stream.length ∧
      (nextTokenFrom line (stream.drop cursor)).2 =
        ⟨stream.drop r.lexer.cursor, r.lexer.line⟩ := by
  obtain ⟨r, hnext, hfinds⟩ := nextToken_finds line hle
  refine ⟨r, hnext, ?_⟩
  cases hfinds with
  | eof gap hskipped hblank hr =>
      subst hr
      rw [hskipped, ← List.append_nil gap, nextTokenFrom_blanks line hblank, List.append_nil]
      refine ⟨rfl, rfl, Nat.le_refl _, ?_⟩
      show _ = (⟨stream.drop stream.length, _⟩ : Compilation.Lexer)
      rw [List.drop_length]
      rfl
  | token gap rest b cursor' hskipped hblank hb hle' hleft hr =>
      subst hr
      have htoken : nextTokenFrom (line + gap.count (byte '\n')) (b :: rest) =
          ((Compilation.parseToken b rest).1,
            ⟨(Compilation.parseToken b rest).2, line + gap.count (byte '\n')⟩) := by
        rw [nextTokenFrom, if_neg (not_blank_iff.mp hb).left, if_neg (not_blank_iff.mp hb).right]
      rw [hskipped, nextTokenFrom_blanks line hblank, htoken]
      refine ⟨rfl, rfl, hle', ?_⟩
      show _ = (⟨stream.drop cursor', _⟩ : Compilation.Lexer)
      rw [hleft]

end Indexed
end Compilation
end HolyRust
