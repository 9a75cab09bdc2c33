import HolyRust.Foundation.Tandem
import HolyRust.Compilation.Coverage
import HolyRust.Compilation.RawParser
import HolyRust.Compilation.StreamShape

/-!
# The two parsers in tandem

The parser on arrays runs beside the parser of `Compilation.Parser`.  Their states match
when the arrays hold the tables and the buffer holds the bytes that are left.  The cursor
carries what bounds the calls of the lexer: behind its words the lexer has only produced
ends of line, and the parser has consumed at most one of these.
-/

namespace HolyRust
namespace Compilation
namespace Raw

open Foundation
open Capabilities

/-!
## The cursor
-/

/-- No end of line has been consumed. -/
def Cur.Fresh (cur : Cur) : Prop := Token.eof ∉ cur.consumed

/-- A cursor in its line.  The lexer has produced words and then ends of line, and each of
them is consumed or ahead. -/
structure Cur.Orderly (line : List Byte) (cur : Cur) : Prop where
  stream : cur.lx.stream = line
  inside : cur.lx.cursor ≤ line.length
  once : cur.produced = cur.consumed ++ cur.ahead.toList
  words : exists ws k, cur.produced = ws ++ List.replicate k .eof ∧ Token.eof ∉ ws ∧
    ws.length ≤ cur.lx.cursor ∧ (0 < k -> cur.lx.cursor = line.length)
  ends : cur.consumed.count .eof ≤ 1

/-- What one call of the lexer does to a matching pair of lexers. -/
structure Fetches (line : List Byte) (lx : Indexed.Lexer) (r : Indexed.Lexed) : Prop where
  token : r.token = (nextTokenFrom lx.line (line.drop lx.cursor)).1
  lexer : (nextTokenFrom lx.line (line.drop lx.cursor)).2 =
    ⟨line.drop r.lexer.cursor, r.lexer.line⟩
  stream : r.lexer.stream = line
  inside : r.lexer.cursor ≤ line.length
  advances : r.token ≠ .eof -> lx.cursor < r.lexer.cursor
  ends : r.token = .eof -> r.lexer.cursor = line.length

theorem Cur.Orderly.exists_fetches {line : List Byte} {cur : Cur} (h : cur.Orderly line) :
    exists r, cur.lx.nextToken = .ok r ∧ Fetches line cur.lx r := by
  have hinside := h.inside
  obtain ⟨r, hnext, htoken, hsame, hle, hlexer⟩ := Indexed.nextTokenLoop_refines cur.lx.line hinside
  obtain ⟨r', hnext', hfinds⟩ := Indexed.nextToken_finds cur.lx.line hinside
  rw [hnext] at hnext'
  cases hnext'
  refine ⟨r, ?_, htoken, hlexer, hsame, hle, ?_, ?_⟩
  · unfold Indexed.Lexer.nextToken
    rw [h.stream]
    exact hnext
  · intro hne
    cases hfinds with
    | eof gap _ _ hr =>
        rw [hr] at hne
        exact absurd rfl hne
    | token gap rest b cursor' hskipped hblank hb hle' hleft hr =>
        have hat : Indexed.TokenAt line cur.lx.cursor gap rest b cursor' :=
          ⟨hinside, hskipped, hblank, hb, hle', hleft⟩
        obtain ⟨text, _, hpos, hstop, _⟩ := hat.exists_text
        rw [hr]
        show cur.lx.cursor < cursor'
        lia
  · intro heof
    cases hfinds with
    | eof gap _ _ hr => rw [hr]
    | token gap rest b cursor' _ _ _ _ _ hr =>
        rw [hr] at heof
        exact absurd heof (Token.ne_eof_of_lexed (parseToken_lexed b rest))

/-- At the end of the buffer there is only the end of line. -/
theorem eof_of_fetches {line : List Byte} {lx : Indexed.Lexer} {r : Indexed.Lexed}
    (h : Fetches line lx r) (hend : lx.cursor = line.length) : r.token = .eof := by
  by_contra hne
  have hlt := h.advances hne
  have hle := h.inside
  lia

namespace Cur

variable {line : List Byte} {cur : Cur}

/-- The lexer has produced one more token. -/
theorem words_fetch (h : cur.Orderly line) {r : Indexed.Lexed} (hr : Fetches line cur.lx r) :
    exists ws k, cur.produced ++ [r.token] = ws ++ List.replicate k .eof ∧ Token.eof ∉ ws ∧
      ws.length ≤ r.lexer.cursor ∧ (0 < k -> r.lexer.cursor = line.length) := by
  obtain ⟨ws, k, hproduced, hwords, hlength, hend⟩ := h.words
  by_cases heof : r.token = .eof
  · have hcursor := hr.ends heof
    refine ⟨ws, k + 1, ?_, hwords, ?_, fun _ => hcursor⟩
    · rw [hproduced, heof, List.append_assoc, ← List.replicate_succ']
    · have hinside := h.inside
      lia
  · -- a word comes before every end of line
    have hnone : k = 0 := by
      by_contra hk
      exact heof (eof_of_fetches hr (hend (Nat.pos_of_ne_zero hk)))
    have hlt := hr.advances heof
    refine ⟨ws ++ [r.token], 0, ?_, ?_, ?_, fun hk => absurd hk (by decide)⟩
    · rw [hproduced, hnone]
      simp
    · intro hmem
      rcases List.mem_append.mp hmem with hmem | hmem
      · exact hwords hmem
      · exact heof (List.mem_singleton.mp hmem).symm
    · rw [List.length_append]
      show ws.length + 1 ≤ r.lexer.cursor
      lia

/-- A word that is ahead is the last token so far, so no end of line came before it. -/
theorem fresh_of_ahead (h : cur.Orderly line) {t : Token} (hahead : cur.ahead = some t)
    (hne : t ≠ .eof) : Token.eof ∉ cur.produced := by
  obtain ⟨ws, k, hproduced, hwords, _, _⟩ := h.words
  have honce := h.once
  rw [hahead] at honce
  cases k with
  | zero =>
      rw [hproduced]
      simpa using hwords
  | succ k =>
      rw [honce, List.replicate_succ', ← List.append_assoc] at hproduced
      have hlast := List.append_inj_right' hproduced rfl
      exact absurd (List.singleton_inj.mp hlast) hne

end Cur

/-!
## Matching states
-/

/-- The arrays hold the tables, and the cursors read the same line at the same place. -/
structure Matched (line : List Byte) (r : State) (s : ParseState) : Prop where
  comp : r.comp.Shows s.comp
  lexer : s.scan.cur.lx = ⟨line.drop r.cur.lx.cursor, r.cur.lx.line⟩
  ahead : s.scan.cur.ahead = r.cur.ahead
  orderly : r.cur.Orderly line

section Runs

variable (env : Env) (line : List Byte)

/-- Both parsers fail with the same error, which is a fault only where memory faults. -/
structure Failed (e : Stop) (d : Abort) (r : State) (s : ParseState) : Prop where
  same : e = .abort d
  fault : forall addr, d = .fault addr -> env.mem addr = none
  matched : Matched line r s

theorem failed_error {r : State} {s : ParseState} (h : Matched line r s) (e : ParseError) :
    Failed env line (.abort (.error e)) (.error e) r s where
  same := rfl
  fault := fun _ hfault => by cases hfault
  matched := h

theorem failed_fuel {r : State} {s : ParseState} (h : Matched line r s) :
    Failed env line (.abort .fuel) .fuel r s where
  same := rfl
  fault := fun _ hfault => by cases hfault
  matched := h

/-- From matching states with a cursor in `p`, the parsers return values in `V` and leave a
cursor in `q`, or both fail. -/
def Runs (p : Cur -> Prop) (x : M α) (y : ParseM β) (V : α -> β -> Prop)
    (q : α -> Cur -> Prop) : Prop :=
  forall r s, Matched line r s -> p r.cur -> Tandem x r y s
    (fun a b r' s' => V a b ∧ Matched line r' s' ∧ q a r'.cur) (Failed env line)

variable {env line}

theorem runs_pure {p : Cur -> Prop} {a : α} {b : β} {V : α -> β -> Prop} (h : V a b) :
    Runs env line p (pure a) (pure b) V (fun _ => p) :=
  fun _ _ hmatched hp => ⟨h, hmatched, hp⟩

theorem runs_reject {p : Cur -> Prop} (e : ParseError) {V : α -> β -> Prop}
    {q : α -> Cur -> Prop} : Runs env line p (reject e) (Compilation.reject e) V q :=
  fun _ _ hmatched _ => failed_error env line hmatched e

theorem runs_fuel {p : Cur -> Prop} {V : α -> β -> Prop} {q : α -> Cur -> Prop} :
    Runs env line p (throw (.abort .fuel)) (throw .fuel) V q :=
  fun _ _ hmatched _ => failed_fuel env line hmatched

theorem runs_bind {p : Cur -> Prop} {x : M α} {y : ParseM β} {f : α -> M γ} {g : β -> ParseM η}
    {V : α -> β -> Prop} {q : α -> Cur -> Prop} {V' : γ -> η -> Prop} {q' : γ -> Cur -> Prop}
    (hxy : Runs env line p x y V q)
    (hfg : forall a b, V a b -> Runs env line (q a) (f a) (g b) V' q') :
    Runs env line p (x >>= f) (y >>= g) V' q' := by
  intro r s hmatched hp
  refine tandem_seq (hxy r s hmatched hp) fun a b r' s' h => ?_
  exact hfg a b h.left r' s' h.right.left h.right.right

/-- Sequencing behind a value that is the same on both sides. -/
theorem runs_seq {p : Cur -> Prop} {x : M α} {y : ParseM α} {f : α -> M γ} {g : α -> ParseM η}
    {q : α -> Cur -> Prop} {V' : γ -> η -> Prop} {q' : γ -> Cur -> Prop}
    (hxy : Runs env line p x y Eq q)
    (hfg : forall a, Runs env line (q a) (f a) (g a) V' q') :
    Runs env line p (x >>= f) (y >>= g) V' q' := by
  refine runs_bind hxy fun a b hab => ?_
  rw [← hab]
  exact hfg a

/-- A value, with what is needed of the cursor behind it. -/
theorem runs_return {p : Cur -> Prop} {a : α} {b : β} {V : α -> β -> Prop}
    {q : α -> Cur -> Prop} (h : V a b) (hq : forall cur, p cur -> q a cur) :
    Runs env line p (pure a) (pure b) V q :=
  fun _ _ hmatched hp => ⟨h, hmatched, hq _ hp⟩

theorem runs_pre {p p' : Cur -> Prop} {x : M α} {y : ParseM β} {V : α -> β -> Prop}
    {q : α -> Cur -> Prop} (h : Runs env line p x y V q) (hp : forall cur, p' cur -> p cur) :
    Runs env line p' x y V q :=
  fun r s hmatched hcur => h r s hmatched (hp r.cur hcur)

theorem runs_ite {p : Cur -> Prop} {P : Prop} [Decidable P] {x x' : M α} {y y' : ParseM β}
    {V : α -> β -> Prop} {q : α -> Cur -> Prop} (hpos : P -> Runs env line p x y V q)
    (hneg : ¬ P -> Runs env line p x' y' V q) :
    Runs env line p (if P then x else x') (if P then y else y') V q := by
  by_cases h : P
  · rw [if_pos h, if_pos h]
    exact hpos h
  · rw [if_neg h, if_neg h]
    exact hneg h

/-!
## Tokens
-/

theorem lexer_fetch {r : State} {s : ParseState} (h : Matched line r s) {fetched : Indexed.Lexed}
    (hfetches : Fetches line r.cur.lx fetched) :
    s.scan.cur.lx.nextToken.1 = fetched.token ∧
      s.scan.cur.lx.nextToken.2 = ⟨line.drop fetched.lexer.cursor, fetched.lexer.line⟩ := by
  have hnext : s.scan.cur.lx.nextToken =
      nextTokenFrom r.cur.lx.line (line.drop r.cur.lx.cursor) := by
    rw [h.lexer]
    rfl
  rw [hnext]
  exact ⟨hfetches.token.symm, hfetches.lexer⟩

theorem check_ok {x : Except Panic α} {a : α} (h : x = .ok a) (r : State) :
    check x r = .ok a r := by
  rw [h]
  rfl

theorem getComp_apply (r : State) : getComp r = .ok r.comp r := rfl

theorem next_of_ok {r : State} {tok : Token} {cur : Cur} (h : r.cur.next = .ok (tok, cur)) :
    next r = .ok tok { r with cur := cur } := by
  rw [next, bind_of_ok (get_apply r), bind_of_ok (check_ok h r)]
  rfl

theorem peek_of_ok {r : State} {tok : Token} {cur : Cur} (h : r.cur.peek = .ok (tok, cur)) :
    peek r = .ok tok { r with cur := cur } := by
  rw [peek, bind_of_ok (get_apply r), bind_of_ok (check_ok h r)]
  rfl

/-- The end of line may be consumed once, a word that is ahead always. -/
def Cur.Spendable (cur : Cur) : Prop :=
  cur.Fresh ∨ exists t, cur.ahead = some t ∧ t ≠ .eof

theorem count_eof_le {cur : Cur} {line : List Byte} (h : cur.Orderly line) {t : Token}
    (hspend : cur.Fresh ∨ t ≠ .eof) : (cur.consumed ++ [t]).count .eof ≤ 1 := by
  rw [List.count_append]
  rcases hspend with hfresh | hne
  · rw [List.count_eq_zero_of_not_mem hfresh, Nat.zero_add]
    exact List.count_le_length
  · rw [List.count_singleton, if_neg (by simpa using hne)]
    exact h.ends

/-- How `next` ends: the values agree, and behind a word nothing but words was consumed. -/
def NextEnds (line : List Byte) (a b : Token) (r : State) (s : ParseState) : Prop :=
  a = b ∧ Matched line r s ∧ (a ≠ .eof -> r.cur.Fresh)

/-- The token that is ahead is taken. -/
theorem tandem_next_ahead {r : State} {s : ParseState} {t : Token} (h : Matched line r s)
    (hahead : r.cur.ahead = some t) (hspend : r.cur.Fresh ∨ t ≠ .eof) :
    Tandem next r nextToken s (fun a b r' s' => a = t ∧ NextEnds line a b r' s')
      (Failed env line) := by
  have hnext : r.cur.next = .ok (t, { r.cur with
      ahead := none, consumed := r.cur.consumed ++ [t] }) := by
    unfold Cur.next
    rw [hahead]
  have habstract : nextToken s = .ok t { s with scan := { s.scan with
      cur := { s.scan.cur with ahead := none } } } := by
    show EStateM.Result.ok s.scan.cur.next.1 _ = _
    unfold Compilation.Cur.next
    rw [h.ahead, hahead]
  have honce : r.cur.produced = r.cur.consumed ++ [t] := by
    rw [h.orderly.once, hahead]
    rfl
  refine tandem_of_ok (next_of_ok hnext) habstract ⟨rfl, rfl, ?_, ?_⟩
  · refine ⟨h.comp, h.lexer, rfl, h.orderly.stream, h.orderly.inside, ?_, h.orderly.words,
      count_eof_le h.orderly hspend⟩
    rw [honce]
    exact (List.append_nil _).symm
  · intro hne
    have hfresh := Cur.fresh_of_ahead h.orderly hahead hne
    rw [honce] at hfresh
    exact hfresh

/-- Nothing is ahead: the lexer is called. -/
theorem tandem_next_fetch {r : State} {s : ParseState} (h : Matched line r s)
    (hahead : r.cur.ahead = none) (hfresh : r.cur.Fresh) :
    Tandem next r nextToken s (NextEnds line) (Failed env line) := by
  obtain ⟨fetched, hlexer, hfetches⟩ := h.orderly.exists_fetches
  obtain ⟨htoken, hrest⟩ := lexer_fetch h hfetches
  have hnext : r.cur.next = .ok (fetched.token, { r.cur with
      lx := fetched.lexer
      ahead := none
      produced := r.cur.produced ++ [fetched.token]
      consumed := r.cur.consumed ++ [fetched.token] }) := by
    unfold Cur.next
    rw [hahead]
    dsimp only
    rw [hlexer]
    rfl
  have habstract : nextToken s = .ok fetched.token { s with scan := { s.scan with
      cur := { lx := s.scan.cur.lx.nextToken.2, ahead := none } } } := by
    show EStateM.Result.ok s.scan.cur.next.1 _ = _
    unfold Compilation.Cur.next
    rw [h.ahead, hahead]
    dsimp only
    rw [htoken]
  refine tandem_of_ok (next_of_ok hnext) habstract ⟨rfl, ?_, ?_⟩
  · refine ⟨h.comp, hrest, rfl, hfetches.stream, hfetches.inside, ?_,
      Cur.words_fetch h.orderly hfetches, count_eof_le h.orderly (Or.inl hfresh)⟩
    have honce := h.orderly.once
    rw [hahead] at honce
    rw [honce]
    simp
  · intro hne hmem
    rcases List.mem_append.mp hmem with hmem | hmem
    · exact hfresh hmem
    · exact hne (List.mem_singleton.mp hmem).symm

/-- Peeking consumes nothing. -/
theorem tandem_peek {r : State} {s : ParseState} (h : Matched line r s) :
    Tandem peek r peekToken s
      (fun a b r' s' => a = b ∧ Matched line r' s' ∧ r'.cur.ahead = some a ∧
        r'.cur.consumed = r.cur.consumed) (Failed env line) := by
  cases hahead : r.cur.ahead with
  | some t =>
      have hpeek : r.cur.peek = .ok (t, r.cur) := by
        unfold Cur.peek
        rw [hahead]
      have habstract : peekToken s = .ok t s := by
        show EStateM.Result.ok s.scan.cur.peek.1 _ = _
        unfold Compilation.Cur.peek
        rw [h.ahead, hahead]
      exact tandem_of_ok (peek_of_ok hpeek) habstract ⟨rfl, h, hahead, rfl⟩
  | none =>
      obtain ⟨fetched, hlexer, hfetches⟩ := h.orderly.exists_fetches
      obtain ⟨htoken, hrest⟩ := lexer_fetch h hfetches
      have hpeek : r.cur.peek = .ok (fetched.token, { r.cur with
          lx := fetched.lexer
          ahead := some fetched.token
          produced := r.cur.produced ++ [fetched.token] }) := by
        unfold Cur.peek
        rw [hahead]
        dsimp only
        rw [hlexer]
        rfl
      have habstract : peekToken s = .ok fetched.token { s with scan := { s.scan with
          cur := { lx := s.scan.cur.lx.nextToken.2, ahead := some fetched.token } } } := by
        show EStateM.Result.ok s.scan.cur.peek.1 _ = _
        unfold Compilation.Cur.peek
        rw [h.ahead, hahead]
        dsimp only
        rw [htoken]
      refine tandem_of_ok (peek_of_ok hpeek) habstract ⟨rfl, ?_, rfl, rfl⟩
      refine ⟨h.comp, hrest, rfl, hfetches.stream, hfetches.inside, ?_,
        Cur.words_fetch h.orderly hfetches, h.orderly.ends⟩
      have honce := h.orderly.once
      rw [hahead] at honce
      rw [honce]
      simp

theorem Cur.Fresh.spendable {cur : Cur} (h : cur.Fresh) : cur.Spendable := Or.inl h

theorem runs_next :
    Runs env line Cur.Spendable next nextToken Eq (fun t cur => t ≠ .eof -> cur.Fresh) := by
  intro r s h hspend
  cases hahead : r.cur.ahead with
  | some t =>
      have hword : r.cur.Fresh ∨ t ≠ .eof := by
        refine hspend.imp_right ?_
        rintro ⟨t', ht', hne⟩
        rw [hahead] at ht'
        cases ht'
        exact hne
      exact tandem_imp (tandem_next_ahead h hahead hword) (fun _ _ _ _ hend => hend.right)
  | none =>
      have hfresh : r.cur.Fresh := by
        rcases hspend with hfresh | ⟨t, ht, _⟩
        · exact hfresh
        · rw [hahead] at ht
          cases ht
      exact tandem_next_fetch h hahead hfresh

theorem runs_next_fresh :
    Runs env line Cur.Fresh next nextToken Eq (fun t cur => t ≠ .eof -> cur.Fresh) :=
  runs_pre runs_next (fun _ => Cur.Fresh.spendable)

/-- A word that was peeked is consumed. -/
theorem runs_next_ahead {t : Token} (ht : t ≠ .eof) :
    Runs env line (fun cur => cur.ahead = some t) next nextToken Eq (fun _ => Cur.Fresh) := by
  intro r s h hahead
  refine tandem_imp (tandem_next_ahead h hahead (Or.inr ht)) ?_
  rintro a b r' s' ⟨rfl, hsame, hmatched, hfresh⟩
  exact ⟨hsame, hmatched, hfresh ht⟩

theorem runs_peek :
    Runs env line (fun _ => True) peek peekToken Eq (fun t cur => cur.ahead = some t) := by
  intro r s h _
  refine tandem_imp (tandem_peek h) ?_
  intro a b r' s' hend
  exact ⟨hend.left, hend.right.left, hend.right.right.left⟩

theorem runs_peek_fresh :
    Runs env line Cur.Fresh peek peekToken Eq
      (fun t cur => cur.ahead = some t ∧ cur.Fresh) := by
  intro r s h hfresh
  refine tandem_imp (tandem_peek h) ?_
  intro a b r' s' hend
  refine ⟨hend.left, hend.right.left, hend.right.right.left, ?_⟩
  unfold Cur.Fresh
  rw [hend.right.right.right]
  exact hfresh

theorem runs_expectToken {t : Token} (ht : t ≠ .eof) :
    Runs env line Cur.Fresh (expectToken t) (Compilation.expectToken t) Eq
      (fun _ => Cur.Fresh) := by
  refine runs_seq runs_next_fresh fun tok => runs_ite (fun htok => ?_) (fun _ => runs_reject _)
  refine runs_return rfl ?_
  intro cur hcur
  exact hcur (by rw [htok]; exact ht)

theorem runs_liftExcept {p : Cur -> Prop} {x : Except ParseError α} {y : Except ParseError β}
    {f : β -> α} (h : x = y.map f) :
    Runs env line p (liftExcept x) (Compilation.liftExcept y) (fun a b => a = f b)
      (fun _ => p) := by
  rw [h]
  cases y with
  | ok b => exact runs_pure rfl
  | error e => exact runs_reject e

theorem runs_expectName :
    Runs env line Cur.Fresh expectName Compilation.expectName (fun a b => a = b.raw)
      (fun _ => Cur.Fresh) := by
  refine runs_seq runs_next_fresh fun tok => ?_
  cases tok with
  | identifier id =>
      intro r s h hfresh
      refine tandem_left (check_ok (fromSlice_raw id) r) ?_
      exact runs_liftExcept rfl r s h (hfresh Token.noConfusion)
  | _ => exact runs_reject _

theorem runs_expectSemicolon :
    Runs env line Cur.Fresh expectSemicolon Compilation.expectSemicolon Eq
      (fun _ _ => True) := by
  refine runs_seq runs_next_fresh fun tok => runs_ite (fun _ => ?_) (fun _ => runs_reject _)
  exact runs_return rfl fun _ _ => trivial

theorem runs_allowOptionalSemicolon :
    Runs env line Cur.Fresh allowOptionalSemicolon Compilation.allowOptionalSemicolon Eq
      (fun _ _ => True) := by
  refine runs_seq runs_peek_fresh fun tok => runs_ite (fun htok => ?_) (fun _ => ?_)
  · rw [htok]
    refine runs_pre ?_ (fun _ hcur => hcur.left)
    exact runs_seq (runs_next_ahead Token.noConfusion) fun _ => runs_return rfl fun _ _ => trivial
  · exact runs_return rfl fun _ _ => trivial

/-!
## Expressions

The expression parsers of `Compilation.Parser` see the compiler as an argument.
-/

theorem scanning_bind (x : Compilation.Compiler -> ScanM α)
    (f : Compilation.Compiler -> α -> ScanM β) :
    scanning (fun c => x c >>= f c) = scanning x >>= fun a => scanning fun c => f c a := by
  funext s
  rw [bind_apply]
  unfold scanning
  dsimp only
  rw [bind_apply]
  cases x s.comp s.scan with
  | ok a scan => rfl
  | error e scan => rfl

theorem scanning_ite {P : Prop} [Decidable P] (x y : Compilation.Compiler -> ScanM α) :
    scanning (fun c => if P then x c else y c) = if P then scanning x else scanning y := by
  by_cases h : P
  · simp only [if_pos h]
  · simp only [if_neg h]

theorem scanning_of_ok {x : Compilation.Compiler -> ScanM α} {s : ParseState} {a : α}
    {scan : Scan} (h : x s.comp s.scan = .ok a scan) :
    scanning x s = .ok a { s with scan := scan } := by
  unfold scanning
  rw [h]

theorem scanning_of_error {x : Compilation.Compiler -> ScanM α} {s : ParseState} {e : Abort}
    {scan : Scan} (h : x s.comp s.scan = .error e scan) :
    scanning x s = .error e { s with scan := scan } := by
  unfold scanning
  rw [h]

theorem runs_peekU32 {p : Cur -> Prop} (addr : Word) :
    Runs env line p (peekU32 env addr) (scanning fun _ => Compilation.peekU32 env addr) Eq
      (fun _ => p) := by
  intro r s h hp
  have hmatched : Matched line r { s with scan := ⟨s.scan.cur, addr :: s.scan.reads⟩ } :=
    ⟨h.comp, h.lexer, h.ahead, h.orderly⟩
  unfold peekU32
  cases hmem : env.mem addr with
  | some v =>
      have hread : Compilation.peekU32 env addr s.scan =
          .ok v ⟨s.scan.cur, addr :: s.scan.reads⟩ := by
        unfold Compilation.peekU32
        rw [hmem]
        rfl
      exact tandem_of_ok rfl (scanning_of_ok hread) ⟨rfl, hmatched, hp⟩
  | none =>
      have hfault : Compilation.peekU32 env addr s.scan =
          .error (.fault addr) ⟨s.scan.cur, addr :: s.scan.reads⟩ := by
        unfold Compilation.peekU32
        rw [hmem]
        rfl
      refine tandem_of_error rfl (scanning_of_error hfault) ⟨rfl, ?_, hmatched⟩
      intro a ha
      cases ha
      exact hmem

theorem runs_applyOperator {p : Cur -> Prop} (op : Byte) (acc rhs : Word) :
    Runs env line p (applyOperator op acc rhs)
      (scanning fun _ => Compilation.applyOperator op acc rhs) Eq (fun _ => p) := by
  unfold applyOperator Compilation.applyOperator
  simp only [scanning_ite]
  refine runs_ite (fun _ => runs_pure rfl) fun _ => ?_
  refine runs_ite (fun _ => runs_pure rfl) fun _ => ?_
  refine runs_ite (fun _ => runs_pure rfl) fun _ => ?_
  refine runs_ite (fun _ => ?_) fun _ => ?_
  · refine runs_ite (fun _ => runs_reject _) fun hrhs => ?_
    rw [Checked.div_of_ne_zero hrhs]
    exact runs_pure rfl
  · refine runs_ite (fun _ => runs_reject _) fun hrhs => ?_
    rw [Checked.rem_of_ne_zero hrhs]
    exact runs_pure rfl

theorem runs_lookup {p : Cur -> Prop} (id : List Byte) :
    Runs env line p
      (do
        let c <- getComp
        let value <- check (c.lookupSymbol id)
        match value with
        | some v => pure v
        | none => reject .unknownSymbol)
      (scanning fun c => match c.lookupSymbol id with
        | some v => pure v
        | none => fail .unknownSymbol)
      Eq (fun _ => p) := by
  intro r s h hp
  refine tandem_left (getComp_apply r) ?_
  refine tandem_left (check_ok (Compiler.lookupSymbol_shows h.comp.symbols id) r) ?_
  cases hvalue : s.comp.lookupSymbol id with
  | some v => exact tandem_of_ok rfl (scanning_of_ok (by rw [hvalue]; rfl)) ⟨rfl, h, hp⟩
  | none =>
      exact tandem_of_error rfl (scanning_of_error (by rw [hvalue]; rfl))
        (failed_error env line h .unknownSymbol)

/-- The expression parsers run in tandem with this fuel. -/
structure ExprRuns (env : Env) (line : List Byte) (fuel : Nat) : Prop where
  operand : forall tok, Runs env line (fun cur => tok ≠ .eof -> cur.Fresh)
    (operand env fuel tok) (scanning fun c => Compilation.operand env c fuel tok) Eq
    (fun _ => Cur.Fresh)
  resolveTerm : forall tok, Runs env line (fun cur => tok ≠ .eof -> cur.Fresh)
    (resolveTerm env fuel tok) (scanning fun c => Compilation.resolveTerm env c fuel tok) Eq
    (fun _ => Cur.Fresh)
  evalExpr : forall first, Runs env line Cur.Fresh
    (evalExpr env fuel first) (scanning fun c => Compilation.evalExpr env c fuel first) Eq
    (fun _ => Cur.Fresh)
  evalTail : forall acc, Runs env line Cur.Fresh
    (evalTail env fuel acc) (scanning fun c => Compilation.evalTail env c fuel acc) Eq
    (fun _ => Cur.Fresh)

theorem runs_operand_succ {fuel : Nat} (h : ExprRuns env line fuel) (tok : Token) :
    Runs env line (fun cur => tok ≠ .eof -> cur.Fresh)
      (operand env (fuel + 1) tok) (scanning fun c => Compilation.operand env c (fuel + 1) tok)
      Eq (fun _ => Cur.Fresh) := by
  simp only [operand, Compilation.operand, scanning_ite, scanning_bind]
  refine runs_ite (fun htok => ?_) (fun _ => h.resolveTerm tok)
  refine runs_pre ?_ (fun cur hcur => hcur (by rw [htok]; exact Token.noConfusion))
  refine runs_seq (h.evalExpr none) fun v => runs_seq runs_next_fresh fun close => ?_
  refine runs_ite (fun hclose => ?_) (fun _ => runs_reject _)
  exact runs_return rfl (fun cur hcur => hcur (by rw [hclose]; exact Token.noConfusion))

theorem runs_resolveTerm_succ {fuel : Nat} (h : ExprRuns env line fuel) (tok : Token) :
    Runs env line (fun cur => tok ≠ .eof -> cur.Fresh)
      (resolveTerm env (fuel + 1) tok)
      (scanning fun c => Compilation.resolveTerm env c (fuel + 1) tok)
      Eq (fun _ => Cur.Fresh) := by
  simp only [resolveTerm, Compilation.resolveTerm]
  cases tok with
  | literal v =>
      exact runs_return rfl (fun cur hcur => hcur Token.noConfusion)
  | identifier id =>
      refine runs_pre ?_ (fun cur hcur => hcur Token.noConfusion)
      simp only [scanning_ite, scanning_bind]
      refine runs_ite (fun _ => ?_) (fun _ => runs_lookup id)
      refine runs_seq runs_next_fresh fun first => runs_seq (h.operand first) fun addr => ?_
      exact runs_peekU32 addr
  | error msg => exact runs_reject _
  | _ => exact runs_reject _

theorem runs_evalExpr_succ {fuel : Nat} (h : ExprRuns env line fuel) (first : Option Token) :
    Runs env line Cur.Fresh
      (evalExpr env (fuel + 1) first)
      (scanning fun c => Compilation.evalExpr env c (fuel + 1) first)
      Eq (fun _ => Cur.Fresh) := by
  cases first with
  | none =>
      simp only [evalExpr, Compilation.evalExpr, scanning_bind]
      exact runs_seq runs_next_fresh fun head =>
        runs_seq (h.operand head) fun acc => h.evalTail acc
  | some t =>
      simp only [evalExpr, Compilation.evalExpr, scanning_bind]
      have hhead : Runs env line Cur.Fresh (pure t) (scanning fun _ => pure t) Eq
          (fun _ => Cur.Fresh) := runs_pure rfl
      refine runs_seq hhead fun head => ?_
      refine runs_seq (runs_pre (h.operand head) (fun _ hcur _ => hcur)) ?_
      exact fun acc => h.evalTail acc

theorem runs_evalTail_succ {fuel : Nat} (h : ExprRuns env line fuel) (acc : Word) :
    Runs env line Cur.Fresh
      (evalTail env (fuel + 1) acc)
      (scanning fun c => Compilation.evalTail env c (fuel + 1) acc)
      Eq (fun _ => Cur.Fresh) := by
  simp only [evalTail, Compilation.evalTail, scanning_bind]
  refine runs_seq runs_peek_fresh fun tok => ?_
  have hdone : Runs env line (fun cur => cur.ahead = some tok ∧ cur.Fresh) (pure acc) (pure acc) Eq
      (fun _ => Cur.Fresh) :=
    runs_return rfl fun _ hcur => hcur.right
  cases tok with
  | operator op =>
      simp only [scanning_ite, scanning_bind]
      refine runs_ite (fun _ => ?_) (fun _ => hdone)
      refine runs_pre ?_ (fun _ hcur => hcur.left)
      refine runs_seq (runs_next_ahead Token.noConfusion) fun _ => ?_
      refine runs_seq runs_next_fresh fun first => runs_seq (h.operand first) fun rhs => ?_
      exact runs_seq (runs_applyOperator op acc rhs) fun acc' => h.evalTail acc'
  | _ => exact hdone

theorem exprRuns (env : Env) (line : List Byte) (fuel : Nat) : ExprRuns env line fuel := by
  induction fuel with
  | zero =>
      refine ⟨fun _ => ?_, fun _ => ?_, fun _ => ?_, fun _ => ?_⟩
      · simp only [operand, Compilation.operand]
        exact runs_fuel
      · simp only [resolveTerm, Compilation.resolveTerm]
        exact runs_fuel
      · simp only [evalExpr, Compilation.evalExpr]
        exact runs_fuel
      · simp only [evalTail, Compilation.evalTail]
        exact runs_fuel
  | succ fuel ih =>
      exact ⟨runs_operand_succ ih, runs_resolveTerm_succ ih, runs_evalExpr_succ ih,
        runs_evalTail_succ ih⟩

theorem runs_parseAtomicTerm (env : Env) (line : List Byte) (fuel : Nat) :
    Runs env line Cur.Fresh (parseAtomicTerm env fuel)
      (scanning (Compilation.parseAtomicTerm env fuel)) Eq (fun _ => Cur.Fresh) := by
  unfold parseAtomicTerm Compilation.parseAtomicTerm
  simp only [scanning_bind]
  exact runs_seq runs_next_fresh fun first => (exprRuns env line fuel).operand first

/-!
## Capabilities
-/

theorem available_eq (registry : Registry) (resourceId : Nat) :
    available registry resourceId = .ok (Capabilities.available registry resourceId) := by
  unfold available Capabilities.available
  cases registry.get? (resourceId / 32) with
  | none => rfl
  | some w =>
      dsimp only
      rw [Checked.shl_of_lt (Nat.mod_lt resourceId (by decide))]
      rfl

theorem checkAccess_eq (target : Target) (registry : Registry) (addr : Word) :
    checkAccess target registry addr = .ok (Capabilities.checkAccess target registry addr) := by
  unfold checkAccess Capabilities.checkAccess isSuperuserActive Capabilities.isSuperuserActive
  rw [available_eq]
  show (if (!Capabilities.available registry _) = true then _ else _ :
    Except Panic (Except CapId Unit)) = _
  split
  · rfl
  · cases addrToCapId target addr with
    | some capId =>
        dsimp only
        unfold isClaimed Capabilities.isClaimed
        rw [available_eq]
        show (if (!!Capabilities.available registry _) = true then _ else _ :
          Except Panic (Except CapId Unit)) = _
        split
        · rfl
        · rfl
    | none =>
        dsimp only
        split
        · rfl
        · rfl

theorem runs_requireAccess {p : Cur -> Prop} (addr : Word) :
    Runs env line p (requireAccess env addr) (Compilation.requireAccess env addr) Eq
      (fun _ => p) := by
  intro r s h hp
  refine tandem_left (check_ok (checkAccess_eq env.target env.registry addr) r) ?_
  unfold Compilation.requireAccess
  cases Capabilities.checkAccess env.target env.registry addr with
  | ok _ => exact ⟨rfl, ⟨h.comp, h.lexer, h.ahead, h.orderly⟩, hp⟩
  | error _ => exact runs_reject _ r s h hp

theorem runs_checkTimerCap {p : Cur -> Prop} :
    Runs env line p (checkTimerCap env) (Compilation.checkTimerCap env) Eq (fun _ => p) := by
  unfold checkTimerCap Compilation.checkTimerCap
  exact runs_requireAccess _

theorem runs_checkSpiCap {p : Cur -> Prop} :
    Runs env line p (checkSpiCap env) (Compilation.checkSpiCap env) Eq (fun _ => p) := by
  unfold checkSpiCap Compilation.checkSpiCap
  exact runs_requireAccess _

/-!
## Stream emission
-/

theorem matched_of_shows {r : State} {s : ParseState} (h : Matched line r s) {c : Compiler}
    {c' : Compilation.Compiler} (hc : c.Shows c') :
    Matched line { r with comp := c } { s with comp := c' } :=
  ⟨hc, h.lexer, h.ahead, h.orderly⟩

theorem shows_streamReset {c : Compiler} {c' : Compilation.Compiler} (h : c.Shows c') :
    ({ c with streamLen := 0 } : Compiler).Shows { c' with stream := .empty } :=
  ⟨h.symbols, h.fnNames, h.fnBodyLens, h.fnBodies, h.length_stream, rfl, rfl⟩

theorem runs_streamReset {p : Cur -> Prop} :
    Runs env line p streamReset Compilation.streamReset Eq (fun _ => p) :=
  fun _ _ h hp => ⟨rfl, matched_of_shows h (shows_streamReset h.comp), hp⟩

theorem take_succ_set {xs : List α} {n : Nat} (h : n < xs.length) (a : α) :
    (xs.set n a).take (n + 1) = xs.take n ++ [a] := by
  rw [List.take_add_one, List.getElem?_set_self h, List.take_set_of_le (Nat.le_refl n)]
  rfl

theorem shows_streamPush {c : Compiler} {c' : Compilation.Compiler} (h : c.Shows c')
    (word : Word) (hroom : c'.stream.words.length < maxStreamWords)
    (hlength : (c'.stream.words ++ [word]).length ≤ maxStreamWords) :
    ({ c with
      stream := c.stream.set c.streamLen word
      streamLen := c.streamLen + 1 } : Compiler).Shows
      { c' with stream := ⟨c'.stream.words ++ [word], hlength⟩ } := by
  refine ⟨h.symbols, h.fnNames, h.fnBodyLens, h.fnBodies, ?_, ?_, ?_⟩
  · rw [List.length_set]
    exact h.length_stream
  · rw [h.streamLen, List.length_append]
    rfl
  · show (c.stream.set c.streamLen word).take (c'.stream.words ++ [word]).length = _
    have hin : c'.stream.words.length < c.stream.length := by
      rw [h.length_stream]
      exact hroom
    rw [List.length_append, h.streamLen]
    show (c.stream.set c'.stream.words.length word).take (c'.stream.words.length + 1) = _
    rw [take_succ_set hin, h.stream]

theorem runs_streamPush {p : Cur -> Prop} (word : Word) :
    Runs env line p (streamPush word) (Compilation.streamPush word) Eq (fun _ => p) := by
  intro r s h hp
  refine tandem_left (getComp_apply r) ?_
  have hgetStream : getStream s = .ok s.comp.stream s := rfl
  refine tandem_right hgetStream ?_
  have hlen := h.comp.streamLen
  by_cases hroom : s.comp.stream.words.length < maxStreamWords
  · rw [dif_pos hroom, if_neg (by rw [hlen]; exact Nat.not_le.mpr hroom)]
    have hput : r.comp.streamLen < r.comp.stream.length := by
      rw [h.comp.length_stream, hlen]
      exact hroom
    refine tandem_left (check_ok (Checked.put_of_lt hput word) r) ?_
    exact ⟨rfl, matched_of_shows h (shows_streamPush h.comp word hroom _), hp⟩
  · rw [dif_neg hroom, if_pos (by rw [hlen]; exact Nat.le_of_not_lt hroom)]
    exact runs_reject _ r s h hp

theorem runs_streamPushLit {p : Cur -> Prop} (value : Word) :
    Runs env line p (streamPushLit env value) (Compilation.streamPushLit env value) Eq
      (fun _ => p) :=
  runs_seq (runs_streamPush _) fun _ => runs_streamPush value

theorem runs_streamHalt {p : Cur -> Prop} :
    Runs env line p (streamHalt env) (Compilation.streamHalt env) Eq (fun _ => p) :=
  runs_streamPush _

end Runs

end Raw
end Compilation
end HolyRust
