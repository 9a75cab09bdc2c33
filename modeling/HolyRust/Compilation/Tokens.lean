import HolyRust.Compilation.Parser

/-!
# Token lists

The lexer is lazy: the cursor holds the bytes that are left and one token at most.  What
a cursor still has to say is a list of tokens, and `next` takes one off its front.
-/

namespace HolyRust
namespace Compilation

open Foundation

/-!
## The tokens of a text
-/

/-- The first `n` tokens at most, without the end of input. -/
def lexFrom : Nat -> List Byte -> List Token
  | 0, _ => []
  | n + 1, bytes =>
      if (nextTokenFrom 1 bytes).1 = .eof then []
      else (nextTokenFrom 1 bytes).1 :: lexFrom n (nextTokenFrom 1 bytes).2.rest

/-- The tokens of a line; each of them takes a byte at least. -/
def tokensOf (bytes : List Byte) : List Token := lexFrom bytes.length bytes

/-- Where the line number stands changes nothing else. -/
theorem nextTokenFrom_line (line line' : Nat) (bytes : List Byte) :
    (nextTokenFrom line bytes).1 = (nextTokenFrom line' bytes).1 ∧
      (nextTokenFrom line bytes).2.rest = (nextTokenFrom line' bytes).2.rest := by
  induction bytes generalizing line line' with
  | nil => exact ⟨rfl, rfl⟩
  | cons b rest ih =>
      simp only [nextTokenFrom]
      split
      · exact ih line line'
      · split
        · exact ih (line + 1) (line' + 1)
        · exact ⟨rfl, rfl⟩

/-- What a literal lexes to. -/
def Token.IsNumeral : Token -> Prop
  | .literal _ => True
  | .error _ => True
  | _ => False

theorem hexLoop_numeral (value : Nat) (bytes : List Byte) : (hexLoop value bytes).1.IsNumeral := by
  induction bytes generalizing value with
  | nil => trivial
  | cons b rest ih =>
      simp only [hexLoop]
      cases hexDigit b with
      | some digit =>
          dsimp only
          split
          · exact ih _
          · trivial
      | none =>
          dsimp only
          split
          · exact ih _
          · trivial

theorem decimalLoop_numeral (value : Nat) (bytes : List Byte) :
    (decimalLoop value bytes).1.IsNumeral := by
  induction bytes generalizing value with
  | nil => trivial
  | cons b rest ih =>
      simp only [decimalLoop]
      split
      · split
        · exact ih _
        · trivial
      · split
        · exact ih _
        · trivial

theorem parseLiteral_numeral (b : Byte) (rest : List Byte) :
    (parseLiteral b rest).1.IsNumeral := by
  unfold parseLiteral
  cases rest with
  | nil => exact decimalLoop_numeral _ _
  | cons x digits =>
      dsimp only
      split
      · unfold parseHex
        cases digits with
        | nil => trivial
        | cons d ds =>
            dsimp only
            split
            · exact hexLoop_numeral _ _
            · trivial
      · exact decimalLoop_numeral _ _

/-!
## Identifiers
-/

def isIdentStart (b : Byte) : Bool := isAsciiAlphabetic b || b == byte '_'

def isIdentByte (b : Byte) : Bool := isAsciiAlphanumeric b || b == byte '_'

/-- The bytes of an identifier token. -/
structure IsIdent (name : List Byte) : Prop where
  starts : exists b rest, name = b :: rest ∧ isIdentStart b = true
  bytes : forall b, b ∈ name -> isIdentByte b = true
  not_fn : name ≠ ascii "fn"
  not_let : name ≠ ascii "let"

theorem isIdentByte_of_start {b : Byte} (h : isIdentStart b = true) : isIdentByte b = true := by
  unfold isIdentStart at h
  unfold isIdentByte isAsciiAlphanumeric
  rw [Bool.or_eq_true] at h ⊢
  rcases h with h | h
  · exact Or.inl (by rw [h, Bool.true_or])
  · exact Or.inr h

theorem takeSpan_all (p : Byte -> Bool) (bytes : List Byte) :
    forall b, b ∈ (takeSpan p bytes).1 -> p b = true := by
  induction bytes with
  | nil =>
      intro b hb
      cases hb
  | cons x rest ih =>
      intro b hb
      simp only [takeSpan] at hb
      split at hb
      · rename_i hx
        rcases List.mem_cons.mp hb with rfl | hmem
        · exact hx
        · exact ih b hmem
      · cases hb

/-- A span ends where its first byte outside ends it. -/
theorem takeSpan_append {p : Byte -> Bool} {name : List Byte} {b : Byte} (rest : List Byte)
    (hname : forall x, x ∈ name -> p x = true) (hb : p b = false) :
    takeSpan p (name ++ b :: rest) = (name, b :: rest) := by
  induction name with
  | nil =>
      rw [List.nil_append]
      simp only [takeSpan]
      rw [if_neg (by rw [hb]; decide)]
  | cons x name ih =>
      rw [List.cons_append]
      simp only [takeSpan]
      rw [if_pos (hname x List.mem_cons_self), ih fun y hy => hname y (List.mem_cons_of_mem x hy)]

theorem parseIdentifier_cases {b : Byte} (rest : List Byte) (h : isIdentStart b = true) :
    (parseIdentifier (b :: rest)).1 = .kwFn ∨ (parseIdentifier (b :: rest)).1 = .kwLet ∨
      exists name, (parseIdentifier (b :: rest)).1 = .identifier name ∧ IsIdent name := by
  have hspan : (takeSpan (fun b => isAsciiAlphanumeric b || b == byte '_') (b :: rest)).1 =
      b :: (takeSpan (fun b => isAsciiAlphanumeric b || b == byte '_') rest).1 := by
    simp only [takeSpan]
    rw [if_pos (show (isAsciiAlphanumeric b || b == byte '_') = true from isIdentByte_of_start h)]
  unfold parseIdentifier
  dsimp only
  split
  · exact Or.inl rfl
  · rename_i hfn
    split
    · exact Or.inr (Or.inl rfl)
    · rename_i hlet
      refine Or.inr (Or.inr ⟨_, rfl, ⟨_, _, hspan, h⟩, ?_, hfn, hlet⟩)
      exact takeSpan_all _ _

/-- What the lexer gives while there is input. -/
def Token.Lexed : Token -> Prop
  | .eof => False
  | .identifier name => IsIdent name
  | _ => True

theorem Token.ne_eof_of_lexed {t : Token} (h : t.Lexed) : t ≠ .eof := by
  rintro rfl
  exact h

theorem Token.lexed_of_numeral {t : Token} (h : t.IsNumeral) : t.Lexed := by
  cases t with
  | literal v => trivial
  | error m => trivial
  | _ => exact h.elim

theorem Token.lexed_of_mark {t : Token} (h : t.IsMark) : t.Lexed := by
  cases t with
  | lParen | rParen | lBrace | rBrace | semicolon | comma | operator _ | error _ => trivial
  | _ => exact h.elim

theorem parseToken_lexed (b : Byte) (rest : List Byte) : (parseToken b rest).1.Lexed := by
  rcases parseToken_cases b with ⟨hstart, htoken⟩ | ⟨_, htoken⟩ | ⟨t, hmark, htoken⟩
  · rw [htoken]
    rcases parseIdentifier_cases rest hstart with h | h | ⟨name, h, hident⟩
    · rw [h]
      trivial
    · rw [h]
      trivial
    · rw [h]
      exact hident
  · rw [htoken]
    exact Token.lexed_of_numeral (parseLiteral_numeral b rest)
  · rw [htoken]
    exact Token.lexed_of_mark hmark

theorem nextTokenFrom_lexed (line : Nat) (bytes : List Byte)
    (h : (nextTokenFrom line bytes).1 ≠ .eof) : (nextTokenFrom line bytes).1.Lexed := by
  rcases nextTokenFrom_skips line bytes with ⟨heof, _⟩ | ⟨b, rest, _, htoken, _⟩
  · exact absurd heof h
  · rw [htoken]
    exact parseToken_lexed b rest

/-- The end of input comes where no bytes are left, and anything else takes a byte. -/
theorem nextTokenFrom_cases (line : Nat) (bytes : List Byte) :
    ((nextTokenFrom line bytes).1 = .eof ∧ (nextTokenFrom line bytes).2.rest = []) ∨
      ((nextTokenFrom line bytes).1 ≠ .eof ∧
        (nextTokenFrom line bytes).2.rest.length < bytes.length) := by
  rcases nextTokenFrom_skips line bytes with h | ⟨b, rest, hlength, htoken, hrest⟩
  · exact Or.inl h
  · have hle := parseToken_length_le b rest
    refine Or.inr ⟨?_, ?_⟩
    · rw [htoken]
      exact Token.ne_eof_of_lexed (parseToken_lexed b rest)
    · rw [hrest]
      lia

theorem lexFrom_of_le {n : Nat} {bytes : List Byte} (h : bytes.length ≤ n) :
    lexFrom n bytes = tokensOf bytes := by
  induction n using Nat.strongRecOn generalizing bytes with
  | ind n ih =>
      cases n with
      | zero =>
          rw [List.length_eq_zero_iff.mp (Nat.le_zero.mp h)]
          rfl
      | succ n =>
          cases hbytes : bytes with
          | nil => rfl
          | cons b rest =>
              unfold tokensOf
              rw [List.length_cons]
              simp only [lexFrom]
              rcases nextTokenFrom_cases 1 (b :: rest) with ⟨heof, _⟩ | ⟨heof, hlength⟩
              · rw [if_pos heof, if_pos heof]
              · rw [if_neg heof, if_neg heof]
                rw [hbytes, List.length_cons] at h
                rw [List.length_cons] at hlength
                rw [ih n (Nat.lt_succ_self n) (by lia), ih rest.length (by lia) (by lia)]

/-- One token of the lexer is one token of the list. -/
theorem tokensOf_eq (line : Nat) (bytes : List Byte) :
    tokensOf bytes =
      if (nextTokenFrom line bytes).1 = .eof then []
      else (nextTokenFrom line bytes).1 :: tokensOf (nextTokenFrom line bytes).2.rest := by
  obtain ⟨htok, hrest⟩ := nextTokenFrom_line line 1 bytes
  rw [htok, hrest]
  cases bytes with
  | nil => rfl
  | cons b rest =>
      have hlex : tokensOf (b :: rest) = lexFrom (rest.length + 1) (b :: rest) := rfl
      rw [hlex]
      simp only [lexFrom]
      rcases nextTokenFrom_cases 1 (b :: rest) with ⟨heof, _⟩ | ⟨heof, hlength⟩
      · rw [if_pos heof, if_pos heof]
      · rw [if_neg heof, if_neg heof, lexFrom_of_le]
        rw [List.length_cons] at hlength
        lia

theorem lexed_of_mem {bytes : List Byte} {t : Token} (h : t ∈ tokensOf bytes) : t.Lexed := by
  unfold tokensOf at h
  generalize bytes.length = n at h
  induction n generalizing bytes with
  | zero => cases h
  | succ n ih =>
      simp only [lexFrom] at h
      split at h
      · cases h
      · rename_i hne
        rcases List.mem_cons.mp h with rfl | hmem
        · exact nextTokenFrom_lexed 1 bytes hne
        · exact ih hmem

/-- An identifier is read back from its own bytes, up to a byte that ends it. -/
theorem tokensOf_ident {name : List Byte} {b : Byte} (rest : List Byte) (h : IsIdent name)
    (hb : isIdentByte b = false) :
    tokensOf (name ++ b :: rest) = .identifier name :: tokensOf (b :: rest) := by
  obtain ⟨x, xs, rfl, hstart⟩ := h.starts
  have hspan : takeSpan (fun b => isAsciiAlphanumeric b || b == byte '_')
      (x :: xs ++ b :: rest) = (x :: xs, b :: rest) :=
    takeSpan_append rest h.bytes hb
  have hident : parseIdentifier (x :: xs ++ b :: rest) = (.identifier (x :: xs), b :: rest) := by
    unfold parseIdentifier
    rw [hspan]
    dsimp only
    rw [if_neg h.not_fn, if_neg h.not_let]
  have hspace : ¬ (x = byte ' ' ∨ x = byte '\t' ∨ x = byte '\r') ∧ x ≠ byte '\n' := by
    refine ⟨?_, ?_⟩
    · rintro (rfl | rfl | rfl) <;> exact absurd hstart (by decide)
    · rintro rfl
      exact absurd hstart (by decide)
  have htoken :
      nextTokenFrom 1 (x :: xs ++ b :: rest) = (.identifier (x :: xs), ⟨b :: rest, 1⟩) := by
    rw [List.cons_append]
    simp only [nextTokenFrom]
    rw [if_neg hspace.1, if_neg hspace.2]
    have hword : (isAsciiAlphabetic x || x == byte '_') = true := hstart
    unfold parseToken
    rw [if_pos hword, ← List.cons_append, hident]
  rw [tokensOf_eq 1, htoken, if_neg (by intro h; cases h)]

/-!
## Words with spaces between them
-/

/-- A scanner that a space ends: more input behind the space is left over. -/
def EndsAtSpace (scan : List Byte -> Token × List Byte) (bytes : List Byte) : Prop :=
  forall more, scan (bytes ++ byte ' ' :: more) =
    ((scan bytes).1, (scan bytes).2 ++ byte ' ' :: more)

theorem skipWhile_space {p : Byte -> Bool} (hp : p (byte ' ') = false) (bytes more : List Byte) :
    skipWhile p (bytes ++ byte ' ' :: more) = skipWhile p bytes ++ byte ' ' :: more := by
  induction bytes with
  | nil =>
      rw [List.nil_append]
      simp only [skipWhile]
      rw [if_neg (by rw [hp]; decide)]
      rfl
  | cons b rest ih =>
      rw [List.cons_append]
      simp only [skipWhile]
      split
      · exact ih
      · rfl

theorem takeSpan_space {p : Byte -> Bool} (hp : p (byte ' ') = false) (bytes more : List Byte) :
    takeSpan p (bytes ++ byte ' ' :: more) =
      ((takeSpan p bytes).1, (takeSpan p bytes).2 ++ byte ' ' :: more) := by
  induction bytes with
  | nil =>
      rw [List.nil_append]
      simp only [takeSpan]
      rw [if_neg (by rw [hp]; decide)]
      rfl
  | cons b rest ih =>
      rw [List.cons_append]
      simp only [takeSpan]
      split
      · rw [ih]
      · rfl

theorem parseIdentifier_space (bytes : List Byte) : EndsAtSpace parseIdentifier bytes := by
  intro more
  unfold parseIdentifier
  rw [takeSpan_space (by decide) bytes more]
  dsimp only
  split
  · rfl
  · split <;> rfl

theorem hexLoop_space (value : Nat) (bytes : List Byte) : EndsAtSpace (hexLoop value) bytes := by
  induction bytes generalizing value with
  | nil => exact fun _ => rfl
  | cons b rest ih =>
      intro more
      rw [List.cons_append]
      simp only [hexLoop]
      cases hexDigit b with
      | some digit =>
          dsimp only
          split
          · exact ih _ more
          · rw [← List.cons_append, skipWhile_space (by decide)]
      | none =>
          dsimp only
          split
          · exact ih _ more
          · rfl

theorem decimalLoop_space (value : Nat) (bytes : List Byte) :
    EndsAtSpace (decimalLoop value) bytes := by
  induction bytes generalizing value with
  | nil => exact fun _ => rfl
  | cons b rest ih =>
      intro more
      rw [List.cons_append]
      simp only [decimalLoop]
      split
      · split
        · exact ih _ more
        · rw [← List.cons_append, skipWhile_space (by decide)]
      · split
        · exact ih _ more
        · rfl

theorem parseHex_space (bytes : List Byte) : EndsAtSpace parseHex bytes := by
  intro more
  cases bytes with
  | nil => rfl
  | cons b rest =>
      rw [List.cons_append]
      unfold parseHex
      dsimp only
      split
      · exact hexLoop_space 0 (b :: rest) more
      · rfl

theorem parseLiteral_space (b : Byte) (rest : List Byte) : EndsAtSpace (parseLiteral b) rest := by
  intro more
  cases rest with
  | nil =>
      have hspace : ¬ (b = byte '0' ∧ (byte ' ' = byte 'x' ∨ byte ' ' = byte 'X')) := by
        rintro ⟨_, h | h⟩
        · exact absurd h (by decide)
        · exact absurd h (by decide)
      rw [List.nil_append]
      unfold parseLiteral
      dsimp only
      rw [if_neg hspace]
      exact decimalLoop_space 0 [b] more
  | cons x digits =>
      rw [List.cons_append]
      unfold parseLiteral
      dsimp only
      split
      · exact parseHex_space digits more
      · exact decimalLoop_space 0 (b :: x :: digits) more

theorem parseToken_space (b : Byte) (rest : List Byte) : EndsAtSpace (parseToken b) rest := by
  intro more
  rcases parseToken_cases b with ⟨_, h⟩ | ⟨_, h⟩ | ⟨t, _, h⟩
  · rw [h, h]
    exact parseIdentifier_space (b :: rest) more
  · rw [h, h]
    exact parseLiteral_space b rest more
  · rw [h, h]

theorem nextTokenFrom_space (line : Nat) (bytes more : List Byte) :
    ((nextTokenFrom line bytes).1 = .eof ∧ exists line',
      nextTokenFrom line (bytes ++ byte ' ' :: more) = nextTokenFrom line' more) ∨
    ((nextTokenFrom line bytes).1 ≠ .eof ∧
      (nextTokenFrom line (bytes ++ byte ' ' :: more)).1 = (nextTokenFrom line bytes).1 ∧
      (nextTokenFrom line (bytes ++ byte ' ' :: more)).2.rest =
        (nextTokenFrom line bytes).2.rest ++ byte ' ' :: more) := by
  induction bytes generalizing line with
  | nil => exact Or.inl ⟨rfl, line, rfl⟩
  | cons b rest ih =>
      rw [List.cons_append]
      simp only [nextTokenFrom]
      split
      · exact ih line
      · split
        · exact ih (line + 1)
        · rw [parseToken_space b rest more]
          exact Or.inr ⟨Token.ne_eof_of_lexed (parseToken_lexed b rest), rfl, rfl⟩

/-- A space separates the tokens before it from those after it. -/
theorem tokensOf_space (bytes more : List Byte) :
    tokensOf (bytes ++ byte ' ' :: more) = tokensOf bytes ++ tokensOf more := by
  induction hn : bytes.length using Nat.strongRecOn generalizing bytes with
  | ind n ih =>
      rw [tokensOf_eq 1 (bytes ++ byte ' ' :: more), tokensOf_eq 1 bytes]
      rcases nextTokenFrom_space 1 bytes more with ⟨heof, line', hmore⟩ | ⟨hne, htok, hrest⟩
      · rw [hmore, if_pos heof, List.nil_append]
        exact (tokensOf_eq line' more).symm
      · have hshort : (nextTokenFrom 1 bytes).2.rest.length < n := by
          rcases nextTokenFrom_cases 1 bytes with ⟨heof, _⟩ | ⟨_, hlength⟩
          · exact absurd heof hne
          · rw [← hn]
            exact hlength
        rw [htok, hrest, if_neg hne, if_neg hne, ih _ hshort _ rfl, List.cons_append]

/-- Words with a space before each of them. -/
def spaced : List (List Byte) -> List Byte
  | [] => []
  | word :: words => byte ' ' :: word ++ spaced words

theorem tokensOf_spaced (word : List Byte) (words : List (List Byte)) :
    tokensOf (word ++ spaced words) = tokensOf word ++ words.flatMap tokensOf := by
  induction words generalizing word with
  | nil =>
      rw [spaced, List.append_nil, List.flatMap_nil, List.append_nil]
  | cons w words ih =>
      rw [spaced, List.cons_append, tokensOf_space, ih w, List.flatMap_cons]

/-!
## Cursors
-/

/-- The tokens that the cursor has yet to give. -/
def Cur.Has (cur : Cur) (ts : List Token) : Prop :=
  match cur.ahead with
  | none => ts = tokensOf cur.lx.rest
  | some t =>
      (t = .eof ∧ ts = [] ∧ cur.lx.rest = []) ∨ (t ≠ .eof ∧ ts = t :: tokensOf cur.lx.rest)

theorem Cur.has_unique {cur : Cur} {ts ts' : List Token} (h : cur.Has ts) (h' : cur.Has ts') :
    ts = ts' := by
  unfold Cur.Has at h h'
  cases hahead : cur.ahead with
  | none =>
      rw [hahead] at h h'
      exact h.trans h'.symm
  | some t =>
      rw [hahead] at h h'
      rcases h with ⟨heof, hts, _⟩ | ⟨hne, hts⟩
      · rcases h' with ⟨_, hts', _⟩ | ⟨hne', _⟩
        · exact hts.trans hts'.symm
        · exact absurd heof hne'
      · rcases h' with ⟨heof', _, _⟩ | ⟨_, hts'⟩
        · exact absurd heof' hne
        · exact hts.trans hts'.symm

theorem Cur.exists_has_lex (lx : Lexer) :
    (lx.nextToken.1 = .eof ∧ tokensOf lx.rest = [] ∧ lx.nextToken.2.rest = []) ∨
      (lx.nextToken.1 ≠ .eof ∧
        tokensOf lx.rest = lx.nextToken.1 :: tokensOf lx.nextToken.2.rest) := by
  have htokens := tokensOf_eq lx.line lx.rest
  rcases nextTokenFrom_cases lx.line lx.rest with ⟨heof, hrest⟩ | ⟨hne, _⟩
  · rw [if_pos heof] at htokens
    exact Or.inl ⟨heof, htokens, hrest⟩
  · rw [if_neg hne] at htokens
    exact Or.inr ⟨hne, htokens⟩

/-- `next` gives the first token, or the end of input for ever. -/
theorem Cur.next_spec {cur : Cur} {ts : List Token} (h : cur.Has ts) :
    cur.next.1 = ts.headD .eof ∧ cur.next.2.Has ts.tail := by
  unfold Cur.Has at h
  unfold Cur.next
  cases hahead : cur.ahead with
  | none =>
      rw [hahead] at h
      rcases Cur.exists_has_lex cur.lx with ⟨heof, hnil, hrest⟩ | ⟨_, hcons⟩
      · rw [h, hnil]
        refine ⟨heof, ?_⟩
        show [] = tokensOf cur.lx.nextToken.2.rest
        rw [hrest]
        rfl
      · rw [h, hcons]
        exact ⟨rfl, rfl⟩
  | some t =>
      rw [hahead] at h
      rcases h with ⟨rfl, rfl, hrest⟩ | ⟨_, rfl⟩
      · refine ⟨rfl, ?_⟩
        show [] = tokensOf cur.lx.rest
        rw [hrest]
        rfl
      · exact ⟨rfl, rfl⟩

theorem Cur.peek_spec {cur : Cur} {ts : List Token} (h : cur.Has ts) :
    cur.peek.1 = ts.headD .eof ∧ cur.peek.2.Has ts := by
  unfold Cur.Has at h
  unfold Cur.peek
  cases hahead : cur.ahead with
  | none =>
      rw [hahead] at h
      rcases Cur.exists_has_lex cur.lx with ⟨heof, hnil, hrest⟩ | ⟨hne, hcons⟩
      · rw [h, hnil]
        exact ⟨heof, Or.inl ⟨heof, rfl, hrest⟩⟩
      · rw [h, hcons]
        exact ⟨rfl, Or.inr ⟨hne, rfl⟩⟩
  | some t =>
      rw [hahead] at h
      rcases h with ⟨rfl, rfl, hrest⟩ | ⟨hne, rfl⟩
      · refine ⟨rfl, ?_⟩
        unfold Cur.Has
        rw [hahead]
        exact Or.inl ⟨rfl, rfl, hrest⟩
      · refine ⟨rfl, ?_⟩
        unfold Cur.Has
        rw [hahead]
        exact Or.inr ⟨hne, rfl⟩

/-- The end of input is no token. -/
theorem Cur.ne_eof_of_has {cur : Cur} {ts : List Token} (h : cur.Has ts) :
    forall t, t ∈ ts -> t ≠ .eof := by
  intro t ht
  unfold Cur.Has at h
  cases hahead : cur.ahead with
  | none =>
      rw [hahead] at h
      rw [h] at ht
      exact Token.ne_eof_of_lexed (lexed_of_mem ht)
  | some t' =>
      rw [hahead] at h
      rcases h with ⟨_, rfl, _⟩ | ⟨hne, rfl⟩
      · cases ht
      · rcases List.mem_cons.mp ht with rfl | hmem
        · exact hne
        · exact Token.ne_eof_of_lexed (lexed_of_mem hmem)

/-!
## Reading tokens
-/

theorem has_next {s : Scan} {ts : List Token} (h : s.cur.Has ts)
    {E : Abort -> Scan -> Prop} :
    Sat next s (fun tok s' => tok = ts.headD .eof ∧ s'.cur.Has ts.tail) E :=
  Cur.next_spec h

theorem has_peek {s : Scan} {ts : List Token} (h : s.cur.Has ts)
    {E : Abort -> Scan -> Prop} :
    Sat peek s (fun tok s' => tok = ts.headD .eof ∧ s'.cur.Has ts) E :=
  Cur.peek_spec h

def ParseState.Has (s : ParseState) (ts : List Token) : Prop := s.scan.cur.Has ts

theorem has_of_scan {s s' : ParseState} {ts : List Token} (h : s'.scan = s.scan)
    (hs : s.Has ts) : s'.Has ts := by
  unfold ParseState.Has
  rw [h]
  exact hs

theorem has_startState (c : Compiler) (line : List Byte) :
    (startState c line).Has (tokensOf line) := rfl

/-- The parser is at `ts` now and has left the compiler alone. -/
structure MovedTo (s : ParseState) (ts : List Token) (s' : ParseState) : Prop where
  tokens : s'.Has ts
  comp : s'.comp = s.comp

theorem movedTo_trans {s s' s'' : ParseState} {ts ts' : List Token} (h : MovedTo s ts s')
    (h' : MovedTo s' ts' s'') : MovedTo s ts' s'' :=
  ⟨h'.tokens, h'.comp.trans h.comp⟩

theorem has_nextToken {s : ParseState} {ts : List Token} (h : s.Has ts)
    {E : Abort -> ParseState -> Prop} :
    Sat nextToken s (fun tok s' => tok = ts.headD .eof ∧ MovedTo s ts.tail s') E := by
  exact sat_scanning (sat_mono (has_next h) (fun _ _ h => ⟨h.1, h.2, rfl⟩) (fun _ _ h => h))

theorem has_peekToken {s : ParseState} {ts : List Token} (h : s.Has ts)
    {E : Abort -> ParseState -> Prop} :
    Sat peekToken s (fun tok s' => tok = ts.headD .eof ∧ MovedTo s ts s') E := by
  exact sat_scanning (sat_mono (has_peek h) (fun _ _ h => ⟨h.1, h.2, rfl⟩) (fun _ _ h => h))

theorem has_expectToken {s : ParseState} {t : Token} {ts : List Token} (h : s.Has (t :: ts))
    {E : Abort -> ParseState -> Prop} :
    Sat (expectToken t) s (fun _ s' => MovedTo s ts s') E := by
  refine sat_seq (has_nextToken h) fun tok s' hs' => ?_
  rw [hs'.1]
  exact sat_ite (fun _ => hs'.2) (fun hne => absurd rfl hne)

/-- A token that is not the end of input was there. -/
theorem eq_cons_of_headD {ts : List Token} {t : Token} (h : ts.headD .eof = t) (hne : t ≠ .eof) :
    ts = t :: ts.tail := by
  cases ts with
  | nil => exact absurd h.symm hne
  | cons t' ts => rw [← h]; rfl

/-- A token that was expected was there. -/
theorem took_expectToken {s : ParseState} {ts : List Token} (h : s.Has ts) {t : Token}
    (hne : t ≠ .eof) :
    Sat (expectToken t) s (fun _ s' => exists rest, ts = t :: rest ∧ MovedTo s rest s')
      (fun _ _ => True) := by
  refine sat_seq (has_nextToken h) fun tok s' hs' => ?_
  refine sat_ite (fun htok => ?_) (fun _ => trivial)
  exact ⟨ts.tail, eq_cons_of_headD (hs'.1.symm.trans htok) hne, hs'.2⟩

/-- So was a name, and its buffer holds it whole. -/
theorem took_expectName {s : ParseState} {ts : List Token} (h : s.Has ts) :
    Sat expectName s (fun name s' => exists rest, ts = .identifier name.bytes :: rest ∧
      MovedTo s rest s') (fun _ _ => True) := by
  refine sat_seq (has_nextToken h) fun tok s' hs' => ?_
  cases tok with
  | identifier id =>
      have hts := eq_cons_of_headD hs'.1.symm (by rintro ⟨⟩)
      dsimp only
      unfold NameBuf.fromSlice
      split
      · exact ⟨ts.tail, hts, hs'.2⟩
      · trivial
  | _ => trivial

theorem has_expectSemicolon {s : ParseState} {ts : List Token} (h : s.Has (.semicolon :: ts))
    {E : Abort -> ParseState -> Prop} :
    Sat expectSemicolon s (fun _ s' => MovedTo s ts s') E := by
  refine sat_seq (has_nextToken h) fun tok s' hs' => ?_
  rw [hs'.1]
  exact sat_ite (fun _ => hs'.2) (fun hne => absurd (Or.inl rfl) hne)

end Compilation
end HolyRust
