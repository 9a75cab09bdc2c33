import HolyRust.Compilation.IndexedLexer

/-!
# What the lexer covers

Iterating `next_token` up to the end of input cuts the buffer into the texts of the
tokens and blanks between them.  Each kind of token advances the cursor in a way of its
own; what they share is that they consume some bytes, none of which is blank.
-/

namespace HolyRust
namespace Compilation

/-!
## The text of a token
-/

/-- `rest` is left of `bytes` after a text of bytes that satisfy `p`. -/
def Consumes (p : Byte -> Bool) (bytes rest : List Byte) : Prop :=
  exists text, bytes = text ++ rest ∧ forall b, b ∈ text -> p b = true

theorem consumes_nil (p : Byte -> Bool) (bytes : List Byte) : Consumes p bytes bytes :=
  ⟨[], rfl, fun b hb => by cases hb⟩

theorem consumes_cons {p : Byte -> Bool} {b : Byte} {bytes rest : List Byte} (hb : p b = true)
    (h : Consumes p bytes rest) : Consumes p (b :: bytes) rest := by
  obtain ⟨text, rfl, htext⟩ := h
  refine ⟨b :: text, rfl, ?_⟩
  intro x hx
  rcases List.mem_cons.mp hx with rfl | hx
  · exact hb
  · exact htext x hx

theorem consumes_mono {p q : Byte -> Bool} {bytes rest : List Byte}
    (hpq : forall b, p b = true -> q b = true) (h : Consumes p bytes rest) :
    Consumes q bytes rest := by
  obtain ⟨text, hsplit, htext⟩ := h
  exact ⟨text, hsplit, fun b hb => hpq b (htext b hb)⟩

theorem skipWhile_consumes (p : Byte -> Bool) (bytes : List Byte) :
    Consumes p bytes (skipWhile p bytes) := by
  induction bytes with
  | nil => exact consumes_nil p []
  | cons b rest ih =>
      rw [skipWhile]
      by_cases hb : p b = true
      · rw [if_pos hb]
        exact consumes_cons hb ih
      · rw [if_neg hb]
        exact consumes_nil p _

theorem isIdentByte_of_hexdigit {b : Byte} (h : isAsciiHexdigit b = true) :
    isIdentByte b = true := by
  revert b
  decide

theorem isIdentByte_of_digit {b : Byte} (h : isAsciiDigit b = true) : isIdentByte b = true := by
  unfold isIdentByte isAsciiAlphanumeric
  rw [h, Bool.or_true, Bool.true_or]

theorem isIdentByte_underscore : isIdentByte (byte '_') = true := by decide

/-- The bytes of an overflowing literal are bytes of an identifier, too. -/
theorem skipDigits_consumes {p : Byte -> Bool} (hp : forall b, p b = true -> isIdentByte b = true)
    (bytes : List Byte) :
    Consumes isIdentByte bytes (skipWhile (fun c => p c || c == byte '_') bytes) := by
  refine consumes_mono ?_ (skipWhile_consumes _ bytes)
  intro b hb
  rcases Bool.or_eq_true_iff.mp hb with h | h
  · exact hp b h
  · rw [beq_iff_eq.mp h]
    exact isIdentByte_underscore

theorem hexLoop_consumes (value : Nat) (bytes : List Byte) :
    Consumes isIdentByte bytes (hexLoop value bytes).2 := by
  induction bytes generalizing value with
  | nil => exact consumes_nil _ []
  | cons b rest ih =>
      rw [hexLoop]
      cases hdigit : hexDigit b with
      | some digit =>
          have hb : isIdentByte b = true := by
            apply isIdentByte_of_hexdigit
            rw [Indexed.isAsciiHexdigit_iff, hdigit]
            rfl
          dsimp only
          split
          · exact consumes_cons hb (ih _)
          · exact skipDigits_consumes (fun _ => isIdentByte_of_hexdigit) _
      | none =>
          dsimp only
          split
          · rename_i hunder
            rw [hunder]
            exact consumes_cons isIdentByte_underscore (ih _)
          · exact consumes_nil _ _

theorem decimalLoop_consumes (value : Nat) (bytes : List Byte) :
    Consumes isIdentByte bytes (decimalLoop value bytes).2 := by
  induction bytes generalizing value with
  | nil => exact consumes_nil _ []
  | cons b rest ih =>
      rw [decimalLoop]
      split
      · rename_i hdigit
        split
        · exact consumes_cons (isIdentByte_of_digit hdigit) (ih _)
        · exact skipDigits_consumes (fun _ => isIdentByte_of_digit) _
      · split
        · rename_i hunder
          rw [hunder]
          exact consumes_cons isIdentByte_underscore (ih _)
        · exact consumes_nil _ _

theorem parseHex_consumes (bytes : List Byte) :
    Consumes isIdentByte bytes (parseHex bytes).2 := by
  unfold parseHex
  cases bytes with
  | nil => exact consumes_nil _ []
  | cons b rest =>
      dsimp only
      split
      · exact hexLoop_consumes 0 (b :: rest)
      · exact consumes_nil _ _

theorem parseLiteral_consumes (b : Byte) (rest : List Byte) :
    Consumes isIdentByte (b :: rest) (parseLiteral b rest).2 := by
  unfold parseLiteral
  cases rest with
  | nil => exact decimalLoop_consumes 0 [b]
  | cons x digits =>
      dsimp only
      split
      · rename_i hhex
        obtain ⟨hzero, hx⟩ := hhex
        have hxByte : isIdentByte x = true := by
          rcases hx with rfl | rfl <;> decide
        rw [hzero]
        exact consumes_cons (by decide) (consumes_cons hxByte (parseHex_consumes digits))
      · exact decimalLoop_consumes 0 (b :: x :: digits)

/-- The word that an identifier or a keyword was read from. -/
def Token.word : Token -> Option (List Byte)
  | .identifier name => some name
  | .kwFn => some (ascii "fn")
  | .kwLet => some (ascii "let")
  | _ => none

theorem parseIdentifier_word (bytes : List Byte) :
    (parseIdentifier bytes).1.word = some (takeSpan isIdentByte bytes).1 ∧
      (parseIdentifier bytes).2 = skipWhile isIdentByte bytes := by
  obtain ⟨_, hrest⟩ := Indexed.takeSpan_append_skipWhile isIdentByte bytes
  have hparse : parseIdentifier bytes =
      if (takeSpan isIdentByte bytes).1 = ascii "fn" then (.kwFn, (takeSpan isIdentByte bytes).2)
      else if (takeSpan isIdentByte bytes).1 = ascii "let" then
        (.kwLet, (takeSpan isIdentByte bytes).2)
      else (.identifier (takeSpan isIdentByte bytes).1, (takeSpan isIdentByte bytes).2) := rfl
  rw [hparse]
  by_cases hfn : (takeSpan isIdentByte bytes).1 = ascii "fn"
  · rw [if_pos hfn, hfn]
    exact ⟨rfl, hrest⟩
  · rw [if_neg hfn]
    by_cases hlet : (takeSpan isIdentByte bytes).1 = ascii "let"
    · rw [if_pos hlet, hlet]
      exact ⟨rfl, hrest⟩
    · rw [if_neg hlet]
      exact ⟨rfl, hrest⟩

theorem word_eq_none_of_numeral {t : Token} (h : t.IsNumeral) : t.word = none := by
  cases t with
  | literal v => rfl
  | error m => rfl
  | _ => exact h.elim

theorem word_eq_none_of_mark {t : Token} (h : t.IsMark) : t.word = none := by
  cases t with
  | lParen | rParen | lBrace | rBrace | semicolon | comma | operator _ | error _ => rfl
  | _ => exact h.elim

theorem skipWhile_head {p : Byte -> Bool} {bytes rest : List Byte} {b : Byte}
    (h : skipWhile p bytes = b :: rest) : p b = false := by
  induction bytes with
  | nil => cases h
  | cons x bytes ih =>
      rw [skipWhile] at h
      by_cases hx : p x = true
      · rw [if_pos hx] at h
        exact ih h
      · rw [if_neg hx] at h
        rw [← (List.cons.inj h).left]
        exact Bool.eq_false_iff.mpr hx

/-- What a token takes of the bytes from its first one on. -/
structure TakesText (b : Byte) (rest : List Byte) (t : Token × List Byte) : Prop where
  consumes : Consumes (fun x => !Indexed.isBlank x) (b :: rest) t.2
  word : forall name, t.1.word = some name ->
    b :: rest = name ++ t.2 ∧ forall x more, t.2 = x :: more -> isIdentByte x = false

theorem not_blank_of_isIdentByte {b : Byte} (h : isIdentByte b = true) :
    (!Indexed.isBlank b) = true := by
  revert b
  decide

theorem parseToken_takesText {b : Byte} (hb : Indexed.isBlank b = false) (rest : List Byte) :
    TakesText b rest (parseToken b rest) := by
  rcases parseToken_cases b with ⟨_, h⟩ | ⟨_, h⟩ | ⟨t, hmark, h⟩
  · rw [h]
    obtain ⟨hword, hrest⟩ := parseIdentifier_word (b :: rest)
    refine ⟨?_, ?_⟩
    · rw [hrest]
      exact consumes_mono (fun _ => not_blank_of_isIdentByte) (skipWhile_consumes _ _)
    · intro name hname
      rw [hword, Option.some.injEq] at hname
      rw [hrest, ← hname]
      refine ⟨(Indexed.takeSpan_append_skipWhile isIdentByte (b :: rest)).left.symm, ?_⟩
      intro x more hx
      exact skipWhile_head hx
  · rw [h]
    refine ⟨consumes_mono (fun _ => not_blank_of_isIdentByte) (parseLiteral_consumes b rest), ?_⟩
    intro name hname
    rw [word_eq_none_of_numeral (parseLiteral_numeral b rest)] at hname
    cases hname
  · rw [h]
    refine ⟨consumes_cons (by rw [hb]; rfl) (consumes_nil _ _), ?_⟩
    intro name hname
    rw [word_eq_none_of_mark hmark] at hname
    cases hname

/-!
## Iterating to the end
-/

namespace Indexed

/-- A token with the positions of its text. -/
structure Span where
  token : Token
  start : Nat
  stop : Nat

/-- The tokens that repeated calls of `next_token` give, and the lexer after the last call. -/
inductive Iterates : Lexer -> List Span -> Lexer -> Prop where
  | eof {lx : Lexer} {r : Lexed} (next : lx.nextToken = .ok r) (eof : r.token = .eof) :
      Iterates lx [] r.lexer
  | token {lx last : Lexer} {r : Lexed} {spans : List Span} (next : lx.nextToken = .ok r)
      (more : r.token ≠ .eof) (rest : Iterates r.lexer spans last) :
      Iterates lx (⟨r.token, r.start, r.lexer.cursor⟩ :: spans) last

/-- What is required of the tokens from position `cursor` on. -/
structure Covers (stream : List Byte) (cursor line : Nat) (spans : List Span) (last : Lexer) :
    Prop where
  nonempty : forall s, s ∈ spans -> s.start < s.stop
  ordered : spans.Pairwise fun s s' => s.stop ≤ s'.start
  inside : forall s, s ∈ spans -> cursor ≤ s.start ∧ s.stop ≤ stream.length
  covered : forall i b, cursor ≤ i -> stream[i]? = some b -> isBlank b = false ->
    exists s, s ∈ spans ∧ s.start ≤ i ∧ i < s.stop
  maximal : forall s, s ∈ spans -> forall name, s.token.word = some name ->
    (stream.take s.stop).drop s.start = name ∧
      forall b, stream[s.stop]? = some b -> isIdentByte b = false
  advances : (cursor :: spans.map Span.stop).IsChain (· < ·)
  lines : last.line = line + (stream.drop cursor).count (byte '\n')

/-- A token that starts with `b` behind the blanks `gap` and ends at `cursor'`. -/
structure TokenAt (stream : List Byte) (cursor : Nat) (gap rest : List Byte) (b : Byte)
    (cursor' : Nat) : Prop where
  inside : cursor ≤ stream.length
  skipped : stream.drop cursor = gap ++ b :: rest
  blank : forall x, x ∈ gap -> isBlank x = true
  start : isBlank b = false
  le_length : cursor' ≤ stream.length
  left : stream.drop cursor' = (Compilation.parseToken b rest).2

namespace TokenAt

variable {stream gap rest : List Byte} {cursor cursor' : Nat} {b : Byte}

theorem drop_start (h : TokenAt stream cursor gap rest b cursor') :
    stream.drop (cursor + gap.length) = b :: rest := by
  rw [← List.drop_drop, h.skipped, List.drop_left]

/-- The text of the token, which is not empty and has no blanks. -/
theorem exists_text (h : TokenAt stream cursor gap rest b cursor') :
    exists text, b :: rest = text ++ stream.drop cursor' ∧ 0 < text.length ∧
      cursor' = cursor + gap.length + text.length ∧
      forall x, x ∈ text -> (!isBlank x) = true := by
  obtain ⟨text, htext, hnonblank⟩ := (parseToken_takesText h.start rest).consumes
  rw [← h.left] at htext
  refine ⟨text, htext, ?_, ?_, hnonblank⟩
  · cases text with
    | nil =>
        have hlength := parseToken_length_le b rest
        rw [List.nil_append, h.left] at htext
        rw [← htext, List.length_cons] at hlength
        lia
    | cons x xs => exact Nat.succ_pos _
  · have hlength := congrArg List.length h.drop_start
    have hgap := congrArg List.length h.skipped
    have hle := h.le_length
    rw [htext, List.length_append, List.length_drop, List.length_drop] at hlength
    rw [List.length_append, List.length_drop, List.length_cons] at hgap
    lia

/-- Before the token there are only blanks. -/
theorem blank_of_lt (h : TokenAt stream cursor gap rest b cursor') {i : Nat} {x : Byte}
    (hi : cursor ≤ i) (hlt : i < cursor + gap.length) (hx : stream[i]? = some x) :
    isBlank x = true := by
  refine h.blank x (List.mem_of_getElem? (i := i - cursor) ?_)
  rw [← hx, show i = cursor + (i - cursor) by lia, ← List.getElem?_drop, h.skipped,
    List.getElem?_append_left (by lia), Nat.add_sub_cancel_left]

/-- A word is the text of its token, and no byte of a word follows it. -/
theorem maximal (h : TokenAt stream cursor gap rest b cursor') {name : List Byte}
    (hname : (Compilation.parseToken b rest).1.word = some name) :
    (stream.take cursor').drop (cursor + gap.length) = name ∧
      forall x, stream[cursor']? = some x -> isIdentByte x = false := by
  obtain ⟨text, htext, _, hstop, _⟩ := h.exists_text
  obtain ⟨hsplit, hnext⟩ := (parseToken_takesText h.start rest).word name hname
  rw [← h.left] at hsplit
  have hsame : text = name := List.append_cancel_right (htext.symm.trans hsplit)
  constructor
  · rw [List.drop_take, h.drop_start, htext, hstop, Nat.add_sub_cancel_left, List.take_left, hsame]
  · intro x hx
    have hdrop : (stream.drop cursor')[0]? = some x := by
      rw [List.getElem?_drop]
      exact hx
    rw [h.left] at hdrop
    cases hrest : (Compilation.parseToken b rest).2 with
    | nil =>
        rw [hrest] at hdrop
        cases hdrop
    | cons y more =>
        rw [hrest] at hdrop
        cases hdrop
        exact hnext x more hrest

/-- All line feeds before the end of the token are in the gap. -/
theorem count_newlines (h : TokenAt stream cursor gap rest b cursor') :
    (stream.drop cursor).count (byte '\n') =
      gap.count (byte '\n') + (stream.drop cursor').count (byte '\n') := by
  obtain ⟨text, htext, _, _, hnonblank⟩ := h.exists_text
  have hnone : text.count (byte '\n') = 0 := by
    refine List.count_eq_zero_of_not_mem ?_
    intro hmem
    exact absurd (hnonblank _ hmem) (by decide)
  rw [h.skipped, List.count_append, htext, List.count_append, hnone, Nat.zero_add]

end TokenAt

/-- What one token adds in front of the others. -/
theorem covers_token {stream gap rest : List Byte} {cursor cursor' line : Nat} {b : Byte}
    {spans : List Span} {last : Lexer} (hat : TokenAt stream cursor gap rest b cursor')
    (h : Covers stream cursor' (line + gap.count (byte '\n')) spans last) :
    Covers stream cursor line
      (⟨(Compilation.parseToken b rest).1, cursor + gap.length, cursor'⟩ :: spans) last := by
  obtain ⟨text, _, hne, hstop, _⟩ := hat.exists_text
  constructor
  · intro s hs
    rcases List.mem_cons.mp hs with rfl | hs
    · show cursor + gap.length < cursor'
      lia
    · exact h.nonempty s hs
  · refine List.pairwise_cons.mpr ⟨?_, h.ordered⟩
    intro s hs
    exact (h.inside s hs).left
  · intro s hs
    rcases List.mem_cons.mp hs with rfl | hs
    · exact ⟨Nat.le_add_right _ _, hat.le_length⟩
    · have hinside := h.inside s hs
      exact ⟨by lia, hinside.right⟩
  · intro i x hi hx hnot
    rcases Nat.lt_or_ge i cursor' with hlt | hge
    · rcases Nat.lt_or_ge i (cursor + gap.length) with hgap | hin
      · rw [hat.blank_of_lt hi hgap hx] at hnot
        cases hnot
      · exact ⟨_, List.mem_cons_self, hin, hlt⟩
    · obtain ⟨s, hs, hrange⟩ := h.covered i x hge hx hnot
      exact ⟨s, List.mem_cons_of_mem _ hs, hrange⟩
  · intro s hs name hname
    rcases List.mem_cons.mp hs with rfl | hs
    · exact hat.maximal hname
    · exact h.maximal s hs name hname
  · refine List.isChain_cons_cons.mpr ⟨?_, h.advances⟩
    show cursor < cursor'
    lia
  · rw [h.lines, hat.count_newlines, Nat.add_assoc]

/-- The end of input covers the blanks that are left. -/
theorem covers_eof {stream gap : List Byte} {cursor : Nat} (line : Nat)
    (hskipped : stream.drop cursor = gap) (hblank : forall b, b ∈ gap -> isBlank b = true) :
    Covers stream cursor line []
      ⟨stream, stream.length, line + gap.count (byte '\n')⟩ := by
  constructor
  · intro s hs
    cases hs
  · exact List.Pairwise.nil
  · intro s hs
    cases hs
  · intro i b hi hb hnot
    have hmem : b ∈ gap := by
      refine List.mem_of_getElem? (i := i - cursor) ?_
      rw [← hskipped, List.getElem?_drop, Nat.add_sub_cancel' hi, hb]
    rw [hblank b hmem] at hnot
    cases hnot
  · intro s hs
    cases hs
  · exact List.IsChain.singleton _
  · rw [hskipped]

theorem covers_of_iterates {lx last : Lexer} {spans : List Span} (h : Iterates lx spans last)
    (hle : lx.cursor ≤ lx.stream.length) : Covers lx.stream lx.cursor lx.line spans last := by
  induction h with
  | @eof lx r hnext heof =>
      obtain ⟨r', hnext', hfinds⟩ := nextToken_finds lx.line hle
      cases hnext.symm.trans hnext'
      cases hfinds with
      | eof gap hskipped hblank hr =>
          subst hr
          exact covers_eof lx.line hskipped hblank
      | token gap rest b cursor' hskipped hblank hb hle' hleft hr =>
          subst hr
          exact absurd heof (Token.ne_eof_of_lexed (parseToken_lexed b rest))
  | @token lx last r spans hnext hmore hrest ih =>
      obtain ⟨r', hnext', hfinds⟩ := nextToken_finds lx.line hle
      cases hnext.symm.trans hnext'
      cases hfinds with
      | eof gap hskipped hblank hr =>
          subst hr
          exact absurd rfl hmore
      | token gap rest b cursor' hskipped hblank hb hle' hleft hr =>
          subst hr
          exact covers_token ⟨hle, hskipped, hblank, hb, hle', hleft⟩ (ih hle')

/-- Every call but the last takes a byte at least, so the end of input is reached. -/
theorem exists_iterates (lx : Lexer) (hle : lx.cursor ≤ lx.stream.length) :
    exists spans last, Iterates lx spans last := by
  generalize hn : lx.stream.length - lx.cursor = n
  induction n using Nat.strongRecOn generalizing lx with
  | ind n ih =>
      obtain ⟨r, hnext, hfinds⟩ := nextToken_finds lx.line hle
      cases hfinds with
      | eof gap hskipped hblank hr =>
          subst hr
          exact ⟨_, _, Iterates.eof hnext rfl⟩
      | token gap rest b cursor' hskipped hblank hb hle' hleft hr =>
          subst hr
          have hat : TokenAt lx.stream lx.cursor gap rest b cursor' :=
            ⟨hle, hskipped, hblank, hb, hle', hleft⟩
          obtain ⟨text, _, hne, hstop, _⟩ := hat.exists_text
          obtain ⟨spans, last, hrest⟩ :=
            ih (lx.stream.length - cursor') (by lia) ⟨lx.stream, cursor', _⟩ hle' rfl
          exact ⟨_, _, Iterates.token hnext
            (Token.ne_eof_of_lexed (parseToken_lexed b rest)) hrest⟩

/-- Iterating `next_token` ends, and the tokens it gives cover the buffer. -/
theorem iterates_covers (stream : List Byte) :
    (exists spans last, Iterates (Lexer.new stream) spans last) ∧
      forall spans last, Iterates (Lexer.new stream) spans last ->
        Covers stream 0 1 spans last := by
  constructor
  · exact exists_iterates (Lexer.new stream) (Nat.zero_le _)
  · intro spans last h
    exact covers_of_iterates h (Nat.zero_le _)

/-!
## The tokens of a buffer
-/

/-- Lexing `text` gives the tokens `ts` and then the end of input. -/
def Lexes (text : List Byte) (ts : List Token) : Prop :=
  exists spans last, Iterates (Lexer.new text) spans last ∧ spans.map Span.token = ts

theorem tokens_of_iterates {lx last : Lexer} {spans : List Span} (h : Iterates lx spans last)
    (hle : lx.cursor ≤ lx.stream.length) :
    spans.map Span.token = tokensOf (lx.stream.drop lx.cursor) := by
  induction h with
  | @eof lx r hnext heof =>
      obtain ⟨r', hnext', htoken, _⟩ := nextTokenLoop_refines lx.line hle
      cases hnext.symm.trans hnext'
      rw [tokensOf_eq lx.line, ← htoken, if_pos heof]
      rfl
  | @token lx last r spans hnext hmore hrest ih =>
      obtain ⟨r', hnext', htoken, hstream, hle', hleft⟩ := nextTokenLoop_refines lx.line hle
      cases hnext.symm.trans hnext'
      rw [List.map_cons, ih (by rw [hstream]; exact hle'), hstream,
        tokensOf_eq lx.line (lx.stream.drop lx.cursor), ← htoken, if_neg hmore, hleft]

theorem lexes_iff {text : List Byte} {ts : List Token} : Lexes text ts ↔ tokensOf text = ts := by
  constructor
  · rintro ⟨spans, last, hiter, rfl⟩
    exact (tokens_of_iterates hiter (Nat.zero_le _)).symm
  · intro htokens
    obtain ⟨spans, last, hiter⟩ := exists_iterates (Lexer.new text) (Nat.zero_le _)
    refine ⟨spans, last, hiter, ?_⟩
    rw [tokens_of_iterates hiter (Nat.zero_le _)]
    exact htokens

end Indexed

end Compilation
end HolyRust
