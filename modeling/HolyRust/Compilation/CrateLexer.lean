import HolyRust.Compilation.Literals

/-!
# The lexer of the `hros-jit` crate

The crate has a lexer of its own.  On texts of spaces, letters, digits and semicolons it
is compared with the lexer of the kernel, token by token: both stand at the same
position, and the question is which token each of them takes from there.
-/

namespace HolyRust
namespace Compilation

open Foundation

namespace Crate

inductive Token where
  | identifier (name : List Byte)
  | literal (value : Word)
  | semicolon
  | eof
  | error
deriving DecidableEq, Repr

structure Lexer where
  stream : List Byte
  cursor : Nat

def Lexer.new (s : List Byte) : Lexer where
  stream := s
  cursor := 0

/-- `v * 10 + digit`. -/
def pushDigit (checks : OverflowChecks) (v : Word) (digit : Nat) : Except Panic Word := do
  let shifted <- Checked.mul checks v 10#32
  Checked.add checks shifted (BitVec.ofNat 32 digit)

def digitLoop (checks : OverflowChecks) (stream : List Byte) (cursor : Nat) (v : Word) :
    Except Panic (Word × Nat) :=
  if h : cursor < stream.length then do
    let b <- Checked.get stream cursor
    if isAsciiDigit b then do
      let v <- pushDigit checks v (b.toNat - '0'.toNat)
      digitLoop checks stream (cursor + 1) v
    else pure (v, cursor)
  else
    pure (v, cursor)
termination_by stream.length - cursor

/-- `next_token` behind the spaces. -/
def tokenAt (checks : OverflowChecks) (stream : List Byte) (cursor : Nat) :
    Except Panic (Token × Lexer) :=
  if stream.length ≤ cursor then pure (.eof, ⟨stream, cursor⟩)
  else do
    let b <- Checked.get stream cursor
    if isAsciiAlphabetic b then do
      let stop <- Indexed.scanWhile stream isAsciiAlphanumeric cursor
      let name <- Checked.slice stream cursor stop
      pure (.identifier name, ⟨stream, stop⟩)
    else if isAsciiDigit b then do
      let v <- digitLoop checks stream cursor 0#32
      pure (.literal v.1, ⟨stream, v.2⟩)
    else
      pure (.error, ⟨stream, cursor + 1⟩)

def Lexer.nextToken (checks : OverflowChecks) (lx : Lexer) : Except Panic (Token × Lexer) := do
  let cursor <- Indexed.scanWhile lx.stream (fun b => b == byte ' ') lx.cursor
  tokenAt checks lx.stream cursor

/-- The tokens up to the end of input. -/
inductive Iterates (checks : OverflowChecks) : Lexer -> List Token -> Prop where
  | eof {lx lx' : Lexer} (next : lx.nextToken checks = .ok (.eof, lx')) : Iterates checks lx []
  | token {lx lx' : Lexer} {t : Token} {ts : List Token}
      (next : lx.nextToken checks = .ok (t, lx')) (more : t ≠ .eof)
      (rest : Iterates checks lx' ts) : Iterates checks lx (t :: ts)

end Crate

/-!
## Digits in a word
-/

theorem takeWhile_congr {p q : Byte -> Bool} {bytes : List Byte}
    (h : forall b, b ∈ bytes -> p b = q b) : bytes.takeWhile p = bytes.takeWhile q := by
  induction bytes with
  | nil => rfl
  | cons b rest ih =>
      rw [List.takeWhile_cons, List.takeWhile_cons, h b List.mem_cons_self,
        ih fun x hx => h x (List.mem_cons_of_mem b hx)]

theorem extend_digit {b : Byte} (hb : isAsciiDigit b = true) (value : Nat) :
    Radix.decimal.extend value b = value * 10 + (b.toNat - '0'.toNat) ∧
      b.toNat - '0'.toNat < 10 := by
  have hdigit : Radix.decimal.digit b = some (b.toNat - '0'.toNat) := if_pos hb
  refine ⟨?_, ?_⟩
  · unfold Radix.extend
    rw [hdigit]
    rfl
  · unfold isAsciiDigit between at hb
    rw [Bool.and_eq_true, decide_eq_true_eq, decide_eq_true_eq] at hb
    have hnine : '9'.toNat = 57 := rfl
    have hzero : '0'.toNat = 48 := rfl
    lia

namespace Crate

theorem pushDigit_fits {v : Word} {d : Nat} (checks : OverflowChecks)
    (h : v.toNat * 10 + d < 2 ^ 32) :
    pushDigit checks v d = .ok (BitVec.ofNat 32 (v.toNat * 10 + d)) := by
  have hten : (10#32).toNat = 10 := rfl
  have hd : (BitVec.ofNat 32 d).toNat = d := by
    rw [BitVec.toNat_ofNat, Nat.mod_eq_of_lt (by lia)]
  have hmul : (v * 10#32).toNat = v.toNat * 10 := by
    rw [BitVec.toNat_mul, hten, Nat.mod_eq_of_lt (by lia)]
  unfold pushDigit
  rw [Checked.mul_of_lt (by rw [hten]; lia)]
  show Checked.add checks (v * 10#32) (BitVec.ofNat 32 d) = _
  rw [Checked.add_of_lt (by rw [hmul, hd]; exact h), Except.ok.injEq, ← BitVec.toNat_inj,
    BitVec.toNat_add, hmul, hd, BitVec.toNat_ofNat]

/-- A number that fits is read with all its digits. -/
theorem digitLoop_fits {stream bytes : List Byte} {cursor : Nat} {v : Word}
    (checks : OverflowChecks) (h : stream.drop cursor = bytes) (hle : cursor ≤ stream.length)
    (hfits : (bytes.takeWhile isAsciiDigit).foldl Radix.decimal.extend v.toNat < 2 ^ 32) :
    digitLoop checks stream cursor v =
      .ok (BitVec.ofNat 32 ((bytes.takeWhile isAsciiDigit).foldl Radix.decimal.extend v.toNat),
        cursor + (bytes.takeWhile isAsciiDigit).length) := by
  induction bytes generalizing cursor v with
  | nil =>
      rw [digitLoop, dif_neg (Indexed.length_le_of_drop_nil h), List.takeWhile_nil,
        List.foldl_nil, BitVec.ofNat_toNat, BitVec.setWidth_eq]
      rfl
  | cons b rest ih =>
      obtain ⟨hlt, hget, hdrop⟩ := Indexed.get_of_drop h
      rw [digitLoop, dif_pos hlt, hget]
      show (if isAsciiDigit b = true then _ else _ : Except Panic (Word × Nat)) = _
      by_cases hb : isAsciiDigit b = true
      · obtain ⟨hextend, _⟩ := extend_digit hb v.toNat
        rw [List.takeWhile_cons_of_pos hb, List.foldl_cons, hextend] at hfits
        have hgrows := Radix.decimal.le_foldl_extend (v.toNat * 10 + (b.toNat - '0'.toNat))
          (rest.takeWhile isAsciiDigit)
        have hround : v.toNat * 10 + (b.toNat - '0'.toNat) < 2 ^ 32 := by lia
        have hvalue : (BitVec.ofNat 32 (v.toNat * 10 + (b.toNat - '0'.toNat))).toNat =
            v.toNat * 10 + (b.toNat - '0'.toNat) := by
          rw [BitVec.toNat_ofNat, Nat.mod_eq_of_lt hround]
        rw [if_pos hb, pushDigit_fits checks hround]
        show digitLoop checks stream (cursor + 1) _ = _
        rw [ih hdrop hlt (by rw [hvalue]; exact hfits), hvalue, List.takeWhile_cons_of_pos hb,
          List.foldl_cons, hextend, List.length_cons, Nat.add_assoc, Nat.add_comm 1]
      · rw [if_neg hb, List.takeWhile_cons_of_neg hb, List.foldl_nil, BitVec.ofNat_toNat,
          BitVec.setWidth_eq]
        rfl

end Crate

/-!
## Plain texts
-/

/-- Spaces, letters, digits and semicolons. -/
def isPlain (b : Byte) : Bool := b == byte ' ' || isAsciiAlphanumeric b || b == byte ';'

def HexPrefixed : List Byte -> Prop
  | b :: x :: _ => isHexPrefix b x = true
  | _ => False

instance (bytes : List Byte) : Decidable (HexPrefixed bytes) :=
  match bytes with
  | b :: x :: _ => inferInstanceAs (Decidable (isHexPrefix b x = true))
  | [_] => inferInstanceAs (Decidable False)
  | [] => inferInstanceAs (Decidable False)

/-- A literal at the start of `bytes` denotes a number below `2 ^ 32`. -/
def LiteralFits (bytes : List Byte) : Prop :=
  forall b rest, bytes = b :: rest -> isAsciiDigit b = true ->
    Radix.decimal.value (bytes.takeWhile isAsciiDigit) < 2 ^ 32

/-- The same identifier or number, or both a semicolon or an error. -/
def SameToken : Token -> Crate.Token -> Prop
  | .identifier name, .identifier name' => name = name'
  | .literal v, .literal v' => v = v'
  | .semicolon, .semicolon => True
  | .error _, .error => True
  | _, _ => False

theorem plain_blank_iff {b : Byte} (h : isPlain b = true) :
    Indexed.isBlank b = (b == byte ' ') := by
  revert b
  decide

theorem plain_isIdentByte {b : Byte} (h : isPlain b = true) :
    isAsciiAlphanumeric b = isIdentByte b := by
  revert b
  decide

theorem plain_inRun {b : Byte} (h : isPlain b = true) :
    Radix.decimal.inRun b = isAsciiDigit b := by
  revert b
  decide

/-- A plain byte that is not blank starts an identifier or a literal, or is a semicolon. -/
theorem plain_cases {b : Byte} (h : isPlain b = true) (hblank : Indexed.isBlank b = false) :
    isAsciiAlphabetic b = true ∨ isAsciiDigit b = true ∨ b = byte ';' := by
  revert b
  decide

theorem not_alphabetic_of_digit {b : Byte} (h : isAsciiDigit b = true) :
    isAsciiAlphabetic b = false := by
  revert b
  decide

theorem skipWhile_congr {p q : Byte -> Bool} {bytes : List Byte}
    (h : forall b, b ∈ bytes -> p b = q b) : skipWhile p bytes = skipWhile q bytes := by
  induction bytes with
  | nil => rfl
  | cons b rest ih =>
      rw [skipWhile, skipWhile, h b List.mem_cons_self,
        ih fun x hx => h x (List.mem_cons_of_mem b hx)]

theorem eq_of_drop_eq {stream : List Byte} {i j : Nat} (hi : i ≤ stream.length)
    (hj : j ≤ stream.length) (h : stream.drop i = stream.drop j) : i = j := by
  have hlength := congrArg List.length h
  rw [List.length_drop, List.length_drop] at hlength
  lia

/-- Both lexers skip the same blanks of a plain text. -/
theorem crate_nextToken_skips {stream gap after : List Byte} {cursor : Nat}
    (checks : OverflowChecks) (hle : cursor ≤ stream.length)
    (h : stream.drop cursor = gap ++ after)
    (hplain : forall b, b ∈ stream.drop cursor -> isPlain b = true)
    (hgap : forall b, b ∈ gap -> Indexed.isBlank b = true)
    (hafter : forall b rest, after = b :: rest -> Indexed.isBlank b = false) :
    Crate.Lexer.nextToken checks ⟨stream, cursor⟩ =
      Crate.tokenAt checks stream (cursor + gap.length) := by
  obtain ⟨cursor', hscan, _, hle', hleft, _⟩ :=
    Indexed.scanWhile_spec (fun b => b == byte ' ') h hle
  have hskip : skipWhile (fun b => b == byte ' ') (gap ++ after) = after := by
    rw [skipWhile_congr (q := Indexed.isBlank) fun b hb =>
      (plain_blank_iff (hplain b (by rw [h]; exact hb))).symm, skipWhile_eq_dropWhile,
      List.dropWhile_append_of_pos hgap]
    cases after with
    | nil => rfl
    | cons b rest =>
        exact List.dropWhile_cons_of_neg (by rw [hafter b rest rfl]; decide)
  have hcursor : cursor' = cursor + gap.length := by
    have hbound : cursor + gap.length ≤ stream.length := by
      have hlength := congrArg List.length h
      rw [List.length_append, List.length_drop] at hlength
      lia
    refine eq_of_drop_eq hle' hbound ?_
    rw [hleft, hskip, ← List.drop_drop, h, List.drop_left]
  unfold Crate.Lexer.nextToken
  rw [hscan, hcursor]
  rfl

/-!
## One token
-/

section Step

variable {stream rest : List Byte} {start stop : Nat} {b : Byte}

theorem tokenAt_cons (checks : OverflowChecks) (h : stream.drop start = b :: rest) :
    Crate.tokenAt checks stream start =
      if isAsciiAlphabetic b then do
        let stop <- Indexed.scanWhile stream isAsciiAlphanumeric start
        let name <- Checked.slice stream start stop
        pure (.identifier name, ⟨stream, stop⟩)
      else if isAsciiDigit b then do
        let v <- Crate.digitLoop checks stream start 0#32
        pure (.literal v.1, ⟨stream, v.2⟩)
      else
        pure (.error, ⟨stream, start + 1⟩) := by
  obtain ⟨hlt, hget, _⟩ := Indexed.get_of_drop h
  unfold Crate.tokenAt
  rw [if_neg (Nat.not_le.mpr hlt), hget]
  rfl

theorem parseToken_alphabetic (h : isAsciiAlphabetic b = true) :
    parseToken b rest = parseIdentifier (b :: rest) := by
  unfold parseToken
  rw [if_pos (by rw [h, Bool.true_or])]

/-- Identifiers are the same, except that the crate knows no keywords. -/
theorem identifier_agrees (checks : OverflowChecks) (h : stream.drop start = b :: rest)
    (hplain : forall x, x ∈ b :: rest -> isPlain x = true) (hb : isAsciiAlphabetic b = true)
    (hstop : stop ≤ stream.length) (hleft : stream.drop stop = (parseToken b rest).2)
    (hfn : (parseToken b rest).1 ≠ .kwFn) (hlet : (parseToken b rest).1 ≠ .kwLet) :
    exists t, Crate.tokenAt checks stream start = .ok (t, ⟨stream, stop⟩) ∧
      SameToken (parseToken b rest).1 t := by
  rw [parseToken_alphabetic hb] at hleft hfn hlet ⊢
  obtain ⟨hlt, _, _⟩ := Indexed.get_of_drop h
  obtain ⟨stop', hscan, hlo, hhi, hleft', hsplit⟩ :=
    Indexed.scanWhile_spec isAsciiAlphanumeric h (Nat.le_of_lt hlt)
  obtain ⟨hword, hrest⟩ := parseIdentifier_word (b :: rest)
  have hsame : skipWhile isAsciiAlphanumeric (b :: rest) = skipWhile isIdentByte (b :: rest) :=
    skipWhile_congr fun x hx => plain_isIdentByte (hplain x hx)
  have heq : stop' = stop := by
    refine eq_of_drop_eq hhi hstop ?_
    rw [hleft', hsame, hleft, hrest]
  have hname : (takeSpan isIdentByte (b :: rest)).1 = (stream.take stop).drop start := by
    have hspan := (Indexed.takeSpan_append_skipWhile isIdentByte (b :: rest)).left
    rw [hsame, heq] at hsplit
    exact List.append_cancel_right (hspan.trans hsplit)
  refine ⟨.identifier ((stream.take stop).drop start), ?_, ?_⟩
  · rw [tokenAt_cons checks h, if_pos hb, hscan, heq]
    show (Checked.slice stream start stop >>= _) = _
    rw [Checked.slice_of_le (heq ▸ hlo) hstop]
    rfl
  · cases htoken : (parseIdentifier (b :: rest)).1 with
    | identifier name =>
        rw [htoken, hname] at hword
        exact Option.some.inj hword
    | kwFn => exact absurd htoken hfn
    | kwLet => exact absurd htoken hlet
    | _ =>
        rw [htoken] at hword
        cases hword

/-- What the kernel makes of a decimal literal in a plain text. -/
theorem decimal_token (hplain : forall x, x ∈ b :: rest -> isPlain x = true)
    (hb : isAsciiDigit b = true) (hhex : ¬ HexPrefixed (b :: rest)) :
    (parseToken b rest).1 =
        numberToken .decimal (Radix.decimal.value ((b :: rest).takeWhile isAsciiDigit)) ∧
      (b :: rest).takeWhile isAsciiDigit ++ (parseToken b rest).2 = b :: rest := by
  rw [parseToken_digit hb]
  obtain ⟨hsplit, hcases⟩ := parseLiteral_cases b rest
  rcases hcases with ⟨x, more, rfl, hstart, _⟩ | ⟨hdecimal, htoken⟩
  · exact absurd hstart hhex
  · have htext : literalText (b :: rest) = (b :: rest).takeWhile isAsciiDigit := by
      rw [← takeWhile_congr fun x hx => plain_inRun (hplain x hx)]
      cases rest with
      | nil => rfl
      | cons x more => rw [literalText, if_neg (by rw [hdecimal x more rfl]; decide)]
    rw [htext] at hsplit htoken
    exact ⟨htoken, hsplit⟩

/-- Numbers that fit are the same. -/
theorem literal_agrees (checks : OverflowChecks) (h : stream.drop start = b :: rest)
    (hplain : forall x, x ∈ b :: rest -> isPlain x = true)
    (hb : isAsciiDigit b = true) (hhex : ¬ HexPrefixed (b :: rest))
    (hfits : LiteralFits (b :: rest)) (hstop : stop ≤ stream.length)
    (hleft : stream.drop stop = (parseToken b rest).2) :
    exists t, Crate.tokenAt checks stream start = .ok (t, ⟨stream, stop⟩) ∧
      SameToken (parseToken b rest).1 t := by
  obtain ⟨hlt, _, _⟩ := Indexed.get_of_drop h
  obtain ⟨htoken, hsplit⟩ := decimal_token hplain hb hhex
  have hvalue := hfits b rest rfl hb
  have hend : start + ((b :: rest).takeWhile isAsciiDigit).length = stop := by
    have hlength := congrArg List.length hsplit
    have hstart := congrArg List.length h
    rw [List.length_append, ← hleft, List.length_drop] at hlength
    rw [List.length_drop] at hstart
    lia
  refine ⟨.literal (BitVec.ofNat 32 (Radix.decimal.value ((b :: rest).takeWhile isAsciiDigit))),
    ?_, ?_⟩
  · have hloop := Crate.digitLoop_fits (v := 0#32) checks h (Nat.le_of_lt hlt) hvalue
    rw [tokenAt_cons checks h, if_neg (by rw [not_alphabetic_of_digit hb]; decide), if_pos hb,
      hloop, hend]
    rfl
  · rw [htoken, numberToken, if_pos hvalue]
    rfl

/-- Tokens that agree are no semicolons and no numbers that do not fit. -/
theorem good_of_agrees {checks : OverflowChecks} (h : stream.drop start = b :: rest)
    (hplain : forall x, x ∈ b :: rest -> isPlain x = true)
    (hhex : ¬ HexPrefixed (b :: rest)) {t : Crate.Token} {lx : Crate.Lexer}
    (hcrate : Crate.tokenAt checks stream start = .ok (t, lx))
    (hsame : SameToken (parseToken b rest).1 t) : b ≠ byte ';' ∧ LiteralFits (b :: rest) := by
  rw [tokenAt_cons checks h] at hcrate
  constructor
  · rintro rfl
    rw [if_neg (by decide), if_neg (by decide)] at hcrate
    cases hcrate
    exact hsame
  · intro b' rest' hcons hb
    obtain ⟨rfl, rfl⟩ := List.cons.inj hcons
    rw [if_neg (by rw [not_alphabetic_of_digit hb]; decide), if_pos hb] at hcrate
    cases hloop : Crate.digitLoop checks stream start 0#32 with
    | error e =>
        rw [hloop] at hcrate
        cases hcrate
    | ok v =>
        rw [hloop] at hcrate
        cases hcrate
        rw [(decimal_token hplain hb hhex).left, numberToken] at hsame
        by_cases hfits : Radix.decimal.value ((b :: rest).takeWhile isAsciiDigit) < 2 ^ 32
        · exact hfits
        · rw [if_neg hfits] at hsame
          exact hsame.elim

/-- Every token but a semicolon takes bytes of words. -/
theorem parseToken_consumes (hplain : isPlain b = true) (hblank : Indexed.isBlank b = false)
    (hsemicolon : b ≠ byte ';') : Consumes isIdentByte (b :: rest) (parseToken b rest).2 := by
  rcases plain_cases hplain hblank with hletter | hdigit | rfl
  · rw [parseToken_alphabetic hletter, (parseIdentifier_word (b :: rest)).right]
    exact skipWhile_consumes isIdentByte (b :: rest)
  · rw [parseToken_digit hdigit]
    exact parseLiteral_consumes b rest
  · exact absurd rfl hsemicolon

theorem token_agrees (checks : OverflowChecks) (h : stream.drop start = b :: rest)
    (hplain : forall x, x ∈ b :: rest -> isPlain x = true) (hblank : Indexed.isBlank b = false)
    (hfn : (parseToken b rest).1 ≠ .kwFn) (hlet : (parseToken b rest).1 ≠ .kwLet)
    (hhex : ¬ HexPrefixed (b :: rest)) (hsemicolon : b ≠ byte ';')
    (hfits : LiteralFits (b :: rest)) (hstop : stop ≤ stream.length)
    (hleft : stream.drop stop = (parseToken b rest).2) :
    exists t, Crate.tokenAt checks stream start = .ok (t, ⟨stream, stop⟩) ∧
      SameToken (parseToken b rest).1 t := by
  rcases plain_cases (hplain b List.mem_cons_self) hblank with hletter | hdigit | rfl
  · exact identifier_agrees checks h hplain hletter hstop hleft hfn hlet
  · exact literal_agrees checks h hplain hdigit hhex hfits hstop hleft
  · exact absurd rfl hsemicolon

end Step

/-!
## Whole texts
-/

theorem ne_eof_of_same {t : Token} {t' : Crate.Token} (h : SameToken t t') : t' ≠ .eof := by
  rintro rfl
  cases t <;> exact h

/-- A text without keywords and hexadecimal literals, as far as its tokens `spans` are
concerned. -/
structure Plain (text : List Byte) (spans : List Indexed.Span) : Prop where
  bytes : forall b, b ∈ text -> isPlain b = true
  keywords : forall s, s ∈ spans -> s.token ≠ .kwFn ∧ s.token ≠ .kwLet
  decimal : forall s, s ∈ spans -> ¬ HexPrefixed (text.drop s.start)

/-- From `cursor` on, the crate gives the tokens `spans` of the kernel. -/
def AgreesFrom (checks : OverflowChecks) (stream : List Byte) (cursor : Nat)
    (spans : List Indexed.Span) : Prop :=
  exists ts, Crate.Iterates checks ⟨stream, cursor⟩ ts ∧
    List.Forall₂ SameToken (spans.map Indexed.Span.token) ts

theorem agreesFrom_cons {checks : OverflowChecks} {stream : List Byte} {cursor stop : Nat}
    {s : Indexed.Span} {spans : List Indexed.Span}
    (hgood : forall t lx, Crate.Lexer.nextToken checks ⟨stream, cursor⟩ = .ok (t, lx) ->
      SameToken s.token t -> lx = ⟨stream, stop⟩) :
    AgreesFrom checks stream cursor (s :: spans) ↔
      (exists t lx, Crate.Lexer.nextToken checks ⟨stream, cursor⟩ = .ok (t, lx) ∧
        SameToken s.token t) ∧ AgreesFrom checks stream stop spans := by
  constructor
  · rintro ⟨ts, hiter, hall⟩
    cases hall with
    | cons hsame hrest =>
        cases hiter with
        | token hnext hmore hrest' =>
            cases hgood _ _ hnext hsame
            exact ⟨⟨_, _, hnext, hsame⟩, _, hrest', hrest⟩
  · rintro ⟨⟨t, lx, hnext, hsame⟩, ts, hiter, hall⟩
    cases hgood _ _ hnext hsame
    exact ⟨t :: ts, Crate.Iterates.token hnext (ne_eof_of_same hsame) hiter,
      List.Forall₂.cons hsame hall⟩

theorem Plain.tail {text : List Byte} {s : Indexed.Span} {spans : List Indexed.Span}
    (h : Plain text (s :: spans)) : Plain text spans where
  bytes := h.bytes
  keywords := fun s' hs => h.keywords s' (List.mem_cons_of_mem s hs)
  decimal := fun s' hs => h.decimal s' (List.mem_cons_of_mem s hs)

theorem semicolon_not_mem_of_blank {gap : List Byte}
    (h : forall b, b ∈ gap -> Indexed.isBlank b = true) : byte ';' ∉ gap := by
  intro hmem
  exact absurd (h _ hmem) (by decide)

/-- A semicolon behind the token, or the token itself. -/
theorem semicolon_mem_iff {rest : List Byte} {b : Byte} (hplain : isPlain b = true)
    (hblank : Indexed.isBlank b = false) (hsemicolon : b ≠ byte ';') :
    byte ';' ∈ b :: rest ↔ byte ';' ∈ (parseToken b rest).2 := by
  have hconsumes : Consumes isIdentByte (b :: rest) (parseToken b rest).2 :=
    parseToken_consumes hplain hblank hsemicolon
  obtain ⟨text, hsplit, htext⟩ := hconsumes
  rw [hsplit, List.mem_append]
  constructor
  · rintro (hmem | hmem)
    · exact absurd (htext _ hmem) (by decide)
    · exact hmem
  · exact Or.inr

/-- Nothing but blanks is left. -/
theorem agreesFrom_nil (checks : OverflowChecks) {stream gap : List Byte} {cursor : Nat}
    (hle : cursor ≤ stream.length) (hskipped : stream.drop cursor = gap)
    (hbytes : forall b, b ∈ stream -> isPlain b = true)
    (hblank : forall b, b ∈ gap -> Indexed.isBlank b = true) :
    AgreesFrom checks stream cursor [] := by
  have hcrate := crate_nextToken_skips checks hle (hskipped.trans (List.append_nil gap).symm)
    (fun b hb => hbytes b (List.mem_of_mem_drop hb)) hblank (fun b rest h => by cases h)
  have hend : stream.length ≤ cursor + gap.length := by
    have hlength := congrArg List.length hskipped
    rw [List.length_drop] at hlength
    lia
  have heof : Crate.Lexer.nextToken checks ⟨stream, cursor⟩ =
      .ok (.eof, ⟨stream, cursor + gap.length⟩) := by
    rw [hcrate]
    exact if_pos hend
  exact ⟨[], Crate.Iterates.eof heof, List.Forall₂.nil⟩

/-- One token in front of the others: it has to be no semicolon and to fit. -/
theorem agreesFrom_token (checks : OverflowChecks) {stream gap rest : List Byte}
    {cursor stop : Nat} {b : Byte} {spans : List Indexed.Span}
    (hat : Indexed.TokenAt stream cursor gap rest b stop)
    (hplain : Plain stream (⟨(parseToken b rest).1, cursor + gap.length, stop⟩ :: spans)) :
    AgreesFrom checks stream cursor (⟨(parseToken b rest).1, cursor + gap.length, stop⟩ :: spans) ↔
      (b ≠ byte ';' ∧ LiteralFits (b :: rest)) ∧ AgreesFrom checks stream stop spans := by
  have hstart := hat.drop_start
  have hbytes : forall x, x ∈ b :: rest -> isPlain x = true := by
    intro x hx
    rw [← hstart] at hx
    exact hplain.bytes x (List.mem_of_mem_drop hx)
  have hhex : ¬ HexPrefixed (b :: rest) := by
    have hspan := hplain.decimal _ List.mem_cons_self
    rw [hstart] at hspan
    exact hspan
  obtain ⟨hfn, hlet⟩ := hplain.keywords _ List.mem_cons_self
  have hcrate := crate_nextToken_skips checks hat.inside hat.skipped
    (fun x hx => hplain.bytes x (List.mem_of_mem_drop hx)) hat.blank
    (fun x more hx => by rw [← (List.cons.inj hx).left]; exact hat.start)
  have hagrees : b ≠ byte ';' ∧ LiteralFits (b :: rest) ->
      exists t, Crate.Lexer.nextToken checks ⟨stream, cursor⟩ = .ok (t, ⟨stream, stop⟩) ∧
        SameToken (parseToken b rest).1 t := by
    rintro ⟨hsemicolon, hfits⟩
    rw [hcrate]
    exact token_agrees checks hstart hbytes hat.start hfn hlet hhex hsemicolon hfits
      hat.le_length hat.left
  have hgood : forall t lx', Crate.Lexer.nextToken checks ⟨stream, cursor⟩ = .ok (t, lx') ->
      SameToken (parseToken b rest).1 t ->
      (b ≠ byte ';' ∧ LiteralFits (b :: rest)) ∧ lx' = ⟨stream, stop⟩ := by
    intro t lx' ht hsame
    have hok : b ≠ byte ';' ∧ LiteralFits (b :: rest) := by
      rw [hcrate] at ht
      exact good_of_agrees hstart hbytes hhex ht hsame
    obtain ⟨t', ht', _⟩ := hagrees hok
    rw [ht] at ht'
    cases ht'
    exact ⟨hok, rfl⟩
  rw [agreesFrom_cons fun t lx' ht hsame => (hgood t lx' ht hsame).right]
  constructor
  · rintro ⟨⟨t, lx', ht, hsame⟩, hrest⟩
    exact ⟨(hgood t lx' ht hsame).left, hrest⟩
  · rintro ⟨hok, hrest⟩
    obtain ⟨t, ht, hsame⟩ := hagrees hok
    exact ⟨⟨t, _, ht, hsame⟩, hrest⟩

/-- There is no semicolon before the end of a token that is none. -/
theorem semicolon_not_mem_iff {stream gap rest : List Byte} {cursor stop : Nat} {b : Byte}
    (hat : Indexed.TokenAt stream cursor gap rest b stop) (hplain : isPlain b = true) :
    byte ';' ∉ stream.drop cursor ↔ b ≠ byte ';' ∧ byte ';' ∉ stream.drop stop := by
  rw [hat.skipped, hat.left, List.mem_append, not_or]
  by_cases hsemicolon : b = byte ';'
  · rw [hsemicolon]
    exact ⟨fun hnone => absurd List.mem_cons_self hnone.right, fun hnone => absurd rfl hnone.left⟩
  · rw [semicolon_mem_iff hplain hat.start hsemicolon]
    exact ⟨fun hnone => ⟨hsemicolon, hnone.right⟩,
      fun hnone => ⟨semicolon_not_mem_of_blank hat.blank, hnone.right⟩⟩

theorem agreesFrom_iff (checks : OverflowChecks) {lx last : Indexed.Lexer}
    {spans : List Indexed.Span} (h : Indexed.Iterates lx spans last)
    (hle : lx.cursor ≤ lx.stream.length) (hplain : Plain lx.stream spans) :
    AgreesFrom checks lx.stream lx.cursor spans ↔
      byte ';' ∉ lx.stream.drop lx.cursor ∧
        forall s, s ∈ spans -> LiteralFits (lx.stream.drop s.start) := by
  induction h with
  | @eof lx r hnext heof =>
      obtain ⟨r', hnext', hfinds⟩ := Indexed.nextToken_finds lx.line hle
      cases hnext.symm.trans hnext'
      cases hfinds with
      | eof gap hskipped hblank hr =>
          refine ⟨fun _ => ?_, fun _ => agreesFrom_nil checks hle hskipped hplain.bytes hblank⟩
          rw [hskipped]
          refine ⟨semicolon_not_mem_of_blank hblank, ?_⟩
          intro s hs
          cases hs
      | token gap rest b stop hskipped hblank hb hstop hleft hr =>
          subst hr
          exact absurd heof (Token.ne_eof_of_lexed (parseToken_lexed b rest))
  | @token lx last r spans hnext hmore hrest ih =>
      obtain ⟨r', hnext', hfinds⟩ := Indexed.nextToken_finds lx.line hle
      cases hnext.symm.trans hnext'
      cases hfinds with
      | eof gap hskipped hblank hr =>
          subst hr
          exact absurd rfl hmore
      | token gap rest b stop hskipped hblank hb hstop hleft hr =>
          subst hr
          have hat : Indexed.TokenAt lx.stream lx.cursor gap rest b stop :=
            ⟨hle, hskipped, hblank, hb, hstop, hleft⟩
          have hbyte : isPlain b = true := by
            have hmem : b ∈ lx.stream.drop (lx.cursor + gap.length) := by
              rw [hat.drop_start]
              exact List.mem_cons_self
            exact hplain.bytes b (List.mem_of_mem_drop hmem)
          rw [agreesFrom_token checks hat hplain, ih hstop hplain.tail,
            semicolon_not_mem_iff hat hbyte, List.forall_mem_cons, hat.drop_start]
          constructor
          · rintro ⟨⟨hsemicolon, hfirst⟩, hnone, hfits⟩
            exact ⟨⟨hsemicolon, hnone⟩, hfirst, hfits⟩
          · rintro ⟨⟨hsemicolon, hnone⟩, hfirst, hfits⟩
            exact ⟨⟨hsemicolon, hfirst⟩, hnone, hfits⟩

/-- A text that has no `0x` anywhere has none in front of a literal. -/
theorem plain_of_text {text : List Byte} {spans : List Indexed.Span} {last : Indexed.Lexer}
    (h : Indexed.Iterates (Indexed.Lexer.new text) spans last)
    (hbytes : forall b, b ∈ text -> isPlain b = true) (hfn : .kwFn ∉ tokensOf text)
    (hlet : .kwLet ∉ tokensOf text)
    (hhex : forall i, i < text.length -> ¬ HexPrefixed (text.drop i)) : Plain text spans := by
  have htokens : spans.map Indexed.Span.token = tokensOf text :=
    Indexed.tokens_of_iterates h (Nat.zero_le _)
  refine ⟨hbytes, ?_, ?_⟩
  · intro s hs
    have hmem : s.token ∈ tokensOf text := by
      rw [← htokens]
      exact List.mem_map_of_mem hs
    refine ⟨?_, ?_⟩
    · intro hkw
      exact hfn (hkw ▸ hmem)
    · intro hkw
      exact hlet (hkw ▸ hmem)
  · intro s hs
    have hcovers := Indexed.covers_of_iterates h (Nat.zero_le _)
    have hlt := hcovers.nonempty s hs
    have hle := (hcovers.inside s hs).right
    exact hhex s.start (Nat.lt_of_lt_of_le hlt hle)

/-- The two lexers give the same tokens of a text, whatever the overflow checks do. -/
def LexersAgree (text : List Byte) (spans : List Indexed.Span) : Prop :=
  forall checks, exists ts, Crate.Iterates checks (Crate.Lexer.new text) ts ∧
    List.Forall₂ SameToken (spans.map Indexed.Span.token) ts

/-- They agree exactly on the texts without semicolons and without literals that overflow. -/
theorem lexersAgree_iff {text : List Byte} {spans : List Indexed.Span} {last : Indexed.Lexer}
    (hkernel : Indexed.Iterates (Indexed.Lexer.new text) spans last) (hplain : Plain text spans) :
    LexersAgree text spans ↔
      byte ';' ∉ text ∧ forall s, s ∈ spans -> LiteralFits (text.drop s.start) := by
  have hagrees : forall checks, AgreesFrom checks text 0 spans ↔
      byte ';' ∉ text ∧ forall s, s ∈ spans -> LiteralFits (text.drop s.start) :=
    fun checks => agreesFrom_iff checks hkernel (Nat.zero_le _) hplain
  constructor
  · intro h
    exact (hagrees .on).mp (h .on)
  · intro h checks
    exact (hagrees checks).mpr h

theorem lexersAgree_words :
    exists spans last, Indexed.Iterates (Indexed.Lexer.new (ascii "led 42")) spans last ∧
      Plain (ascii "led 42") spans ∧ LexersAgree (ascii "led 42") spans := by
  obtain ⟨spans, last, hiter⟩ :=
    Indexed.exists_iterates (Indexed.Lexer.new (ascii "led 42")) (Nat.zero_le _)
  have hplain : Plain (ascii "led 42") spans :=
    plain_of_text hiter (by decide) (by decide) (by decide) (by decide)
  refine ⟨spans, last, hiter, hplain, (lexersAgree_iff hiter hplain).mpr ⟨by decide, ?_⟩⟩
  intro s hs b rest hdrop hb
  have hrun : forall i, i < (ascii "led 42").length ->
      Radix.decimal.value (((ascii "led 42").drop i).takeWhile isAsciiDigit) < 2 ^ 32 := by
    decide
  have hcovers := Indexed.covers_of_iterates hiter (Nat.zero_le _)
  exact hrun s.start
    (Nat.lt_of_lt_of_le (hcovers.nonempty s hs) (hcovers.inside s hs).right)

/-- The kernel ends the statement `1;` with a semicolon, the crate with an error. -/
theorem not_lexersAgree_semicolon :
    exists spans last, Indexed.Iterates (Indexed.Lexer.new (ascii "1;")) spans last ∧
      Plain (ascii "1;") spans ∧ ¬ LexersAgree (ascii "1;") spans := by
  obtain ⟨spans, last, hiter⟩ :=
    Indexed.exists_iterates (Indexed.Lexer.new (ascii "1;")) (Nat.zero_le _)
  have hplain : Plain (ascii "1;") spans :=
    plain_of_text hiter (by decide) (by decide) (by decide) (by decide)
  refine ⟨spans, last, hiter, hplain, ?_⟩
  intro hagree
  have hnone := (agreesFrom_iff .on hiter (Nat.zero_le _) hplain).mp (hagree .on)
  exact hnone.left (by decide)

end Compilation
end HolyRust
