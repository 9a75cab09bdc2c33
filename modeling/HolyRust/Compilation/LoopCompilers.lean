import HolyRust.Compilation.LineEnds
import HolyRust.Compilation.Lookahead
import HolyRust.Compilation.Progress
import HolyRust.Compilation.Tables

/-!
# The two loop compilers

A loop inside a function body is compiled by `parse_body_stmt`, a loop at top level by
its own reader in `parse_command`.  Both unroll what they have read, but the second one
knows `poke` and `peek` only and steps over everything else.  As long as it has nothing to
step over the two do the same.
-/

namespace HolyRust
namespace Compilation

open Foundation

/-!
## Bodies made of accesses
-/

theorem isAccess_cases {t : Token} (h : isAccess t = true) :
    t = .identifier (ascii "poke") ∨ t = .identifier (ascii "peek") := by
  unfold isAccess at h
  rw [Bool.or_eq_true, decide_eq_true_eq, decide_eq_true_eq] at h
  exact h

/-- A statement that starts before a closing brace ends before it. -/
theorem stmtEnd_inside {bs more : List Token} {cur : Cur}
    (h : StmtEnd (bs ++ .rBrace :: more) cur) :
    cur.Has (after .semicolon bs ++ .rBrace :: more) := by
  obtain ⟨used, rest, hused, hrest, hend⟩ := h
  have hclose : forall t, t ∈ used -> t ≠ .rBrace := fun t ht => (hused t ht).2.2
  rcases hend with heq | ⟨heq, _⟩
  · suffices hsplit : rest = after .semicolon bs ++ .rBrace :: more by
      rw [← hsplit]
      exact hrest
    clear hrest
    induction bs generalizing used with
    | nil =>
        cases used with
        | nil => cases heq
        | cons u used =>
            injection heq with hu _
            exact absurd hu.symm (hclose u List.mem_cons_self)
    | cons b bs ih =>
        cases used with
        | nil =>
            injection heq with hb hbs
            rw [hb, after_self]
            exact hbs.symm
        | cons u used =>
            injection heq with hu hbs
            have hne : b ≠ .semicolon := by
              rw [hu]
              exact (hused u List.mem_cons_self).1
            rw [after, if_neg hne]
            exact ih used (fun t ht => hused t (List.mem_cons_of_mem u ht))
              (fun t ht => hclose t (List.mem_cons_of_mem u ht)) hbs
  · have hmem : Token.rBrace ∈ used := by
      rw [← heq]
      exact List.mem_append_right bs List.mem_cons_self
    exact absurd rfl (hclose .rBrace hmem)

/-- Where the first closing brace is, whatever comes after the last one. -/
theorem exists_firstClose (bs more more' : List Token) :
    exists us ms mt, (forall t, t ∈ us -> t ≠ .rBrace) ∧
      bs ++ .rBrace :: more = us ++ .rBrace :: ms ∧
      bs ++ .rBrace :: more' = us ++ .rBrace :: mt := by
  induction bs with
  | nil => exact ⟨[], more, more', fun _ ht => absurd ht List.not_mem_nil, rfl, rfl⟩
  | cons b bs ih =>
      by_cases hb : b = .rBrace
      · rw [hb]
        exact ⟨[], _, _, fun _ ht => absurd ht List.not_mem_nil, rfl, rfl⟩
      · obtain ⟨us, ms, mt, hus, heq, heq'⟩ := ih
        refine ⟨b :: us, ms, mt, ?_, ?_, ?_⟩
        · intro t ht
          rcases List.mem_cons.mp ht with rfl | hmem
          · exact hb
          · exact hus t hmem
        · rw [List.cons_append, heq, List.cons_append]
        · rw [List.cons_append, heq', List.cons_append]

/-!
## The two readers of a block
-/

/-- What the two parsers have before them; they have compiled the same. -/
structure BothHave (ts ts' : List Token) (s t : ParseState) : Prop where
  left : s.Has ts
  right : t.Has ts'
  comp : t.comp = s.comp

theorem sameState_of_bothHave {bs more more' : List Token} {s t : ParseState}
    (h : BothHave (bs ++ .rBrace :: more) (bs ++ .rBrace :: more') s t) :
    exists ms mt, SameState (SameAhead ms mt) s t := by
  obtain ⟨us, ms, mt, hus, heq, heq'⟩ := exists_firstClose bs more more'
  refine ⟨ms, mt, ⟨us, hus, ?_, ?_⟩, h.comp⟩
  · rw [← heq]
    exact h.left
  · rw [← heq']
    exact h.right

/-- One access, read with any two amounts of fuel. -/
theorem endAlike_access {x y : ParseM Unit} (hx : EndsStmt x) (hy : EndsStmt y)
    (hxy : forall ms mt, ParseLockstep (SameAhead ms mt) x y) {bs more more' : List Token}
    {s t : ParseState} (h : BothHave (bs ++ .rBrace :: more) (bs ++ .rBrace :: more') s t) :
    EndAlike OutOfFuel
      (BothHave (after .semicolon bs ++ .rBrace :: more) (after .semicolon bs ++ .rBrace :: more'))
      (x s) (y t) := by
  obtain ⟨ms, mt, hsame⟩ := sameState_of_bothHave h
  refine endAlike_mono (hxy ms mt s t hsame) fun _ s' t' hxs hyt hsame' => ?_
  have hs' := sat_of_ok (hx s _ h.left) hxs
  have ht' := sat_of_ok (hy t _ h.right) hyt
  exact ⟨stmtEnd_inside hs', stmtEnd_inside ht', hsame'.2⟩

/-- The access that `t` starts. -/
def accessStmt (env : Env) (fuel : Nat) (t : Token) : ParseM Unit :=
  if t = .identifier (ascii "poke") then pokeStmt env fuel else peekStmt env fuel

theorem ends_accessStmt (env : Env) (fuel : Nat) (t : Token) :
    EndsStmt (accessStmt env fuel t) := by
  unfold accessStmt
  split
  · exact ends_pokeStmt env fuel
  · exact ends_peekStmt env fuel

theorem lockstep_accessStmt {ms mt : List Token} (env : Env) (fuel fuel' : Nat) (t : Token) :
    ParseLockstep (SameAhead ms mt) (accessStmt env fuel t) (accessStmt env fuel' t) :=
  lockstep_ite (related_pokeStmt (onOperands_lockstep env fuel fuel') (onStream_lockstep _))
    (related_peekStmt (onOperands_lockstep env fuel fuel') (onStream_lockstep _))

/-- A block that starts with an access reads a statement of a body. -/
theorem parseBlock_access (env : Env) (fuel : Nat) {t : Token} {ts : List Token} {s : ParseState}
    (ht : isAccess t = true) (hs : s.Has (t :: ts)) :
    exists s', MovedTo s (t :: ts) s' ∧ parseBlock env (fuel + 1) s =
      (parseBodyStmt env fuel >>= fun _ => parseBlock env fuel) s' := by
  obtain ⟨tok, s1, hpeek, htok, hs1⟩ := exists_of_sat (has_peekToken hs)
  refine ⟨s1, hs1, ?_⟩
  have hclose : t ≠ .rBrace := by
    rintro rfl
    exact absurd ht (by decide)
  have heof : t ≠ .eof := by
    rintro rfl
    exact absurd ht (by decide)
  rw [parseBlock, bind_apply, hpeek, show tok = t from htok]
  dsimp only
  rw [if_neg hclose, if_neg heof]

theorem parseBodyStmt_access (env : Env) (fuel : Nat) {t : Token} {ts : List Token}
    {s : ParseState} (ht : isAccess t = true) (hs : s.Has (t :: ts)) :
    exists s', MovedTo s ts s' ∧ parseBodyStmt env (fuel + 1) s = accessStmt env fuel t s' := by
  obtain ⟨tok, s1, hnext, htok, hs1⟩ := exists_of_sat (has_nextToken hs)
  refine ⟨s1, hs1, ?_⟩
  unfold parseBodyStmt accessStmt
  rw [bind_apply, hnext, show tok = t from htok]
  rcases isAccess_cases ht with rfl | rfl
  · dsimp only
    rw [if_pos rfl, if_pos rfl]
  · dsimp only
    rw [if_neg (by decide), if_pos rfl, if_neg (by decide)]

theorem parseBlock_close (env : Env) (fuel : Nat) {ts : List Token} {s : ParseState}
    (hs : s.Has (.rBrace :: ts)) :
    exists s', MovedTo s ts s' ∧ parseBlock env (fuel + 1) s = .ok () s' := by
  obtain ⟨tok, s1, hpeek, htok, hs1⟩ := exists_of_sat (has_peekToken hs)
  obtain ⟨_, s2, hnext, _, hs2⟩ := exists_of_sat (has_nextToken hs1.tokens)
  refine ⟨s2, movedTo_trans hs1 hs2, ?_⟩
  rw [parseBlock, bind_apply, hpeek, show tok = .rBrace from htok]
  dsimp only
  rw [if_pos rfl, bind_apply, hnext]
  rfl

theorem parseTopBlock_close (env : Env) (fuel : Nat) {ts : List Token} {s : ParseState}
    (hs : s.Has (.rBrace :: ts)) :
    exists s', MovedTo s ts s' ∧ parseTopBlock env (fuel + 1) s = .ok () s' := by
  obtain ⟨tok, s1, hpeek, htok, hs1⟩ := exists_of_sat (has_peekToken hs)
  obtain ⟨_, s2, hnext, _, hs2⟩ := exists_of_sat (has_nextToken hs1.tokens)
  refine ⟨s2, movedTo_trans hs1 hs2, ?_⟩
  rw [parseTopBlock, bind_apply, hpeek, show tok = .rBrace from htok]
  dsimp only
  rw [if_pos rfl, bind_apply, hnext]
  rfl

/-- A statement of a body, and the same access at top level after its keyword. -/
theorem endAlike_bodyStmt (env : Env) (fuel fuel' : Nat) {b : Token} {bs more more' : List Token}
    {s t : ParseState} (hb : isAccess b = true)
    (h : BothHave (b :: bs ++ .rBrace :: more) (bs ++ .rBrace :: more') s t) :
    EndAlike OutOfFuel
      (BothHave (after .semicolon bs ++ .rBrace :: more) (after .semicolon bs ++ .rBrace :: more'))
      (parseBodyStmt env fuel s) (accessStmt env fuel' b t) := by
  have hfuel : OutOfFuel .fuel := rfl
  cases fuel with
  | zero => exact endAlike_spent_left hfuel _ _
  | succ fuel =>
      obtain ⟨s', hs', heq⟩ := parseBodyStmt_access env fuel hb h.left
      rw [heq]
      exact endAlike_access (ends_accessStmt env fuel b) (ends_accessStmt env fuel' b)
        (fun _ _ => lockstep_accessStmt env fuel fuel' b)
        ⟨hs'.tokens, h.right, h.comp.trans hs'.comp.symm⟩

/-- Whether the reader of a top-level block comes to a statement that it steps over. -/
def comesToOther (env : Env) : Nat -> ParseM Bool
  | 0 => throw .fuel
  | fuel + 1 => do
      let tok <- peekToken
      if tok = .rBrace ∨ tok = .eof then pure false
      else do
        let stmt <- nextToken
        if isAccess stmt then do
          accessStmt env fuel stmt
          comesToOther env fuel
        else pure true

/-- One round of the reader of a top-level block, if it has nothing to step over. -/
theorem parseTopBlock_access {env : Env} {fuel : Nat} {t : Token} {ts : List Token}
    {s : ParseState} (hs : s.Has (t :: ts)) (hclose : t ≠ .rBrace)
    (h : forall s', comesToOther env (fuel + 1) s ≠ .ok true s') :
    isAccess t = true ∧ exists s', MovedTo s ts s' ∧
      parseTopBlock env (fuel + 1) s =
        (accessStmt env fuel t >>= fun _ => parseTopBlock env fuel) s' ∧
      forall s1 s2, accessStmt env fuel t s' = .ok () s1 ->
        comesToOther env fuel s1 ≠ .ok true s2 := by
  obtain ⟨tok, s1, hpeek, htok, hs1⟩ := exists_of_sat (has_peekToken hs)
  obtain ⟨tok', s2, hnext, htok', hs2⟩ := exists_of_sat (has_nextToken hs1.tokens)
  rw [show tok = t from htok] at hpeek
  rw [show tok' = t from htok'] at hnext
  have heof : t ≠ .eof := Cur.ne_eof_of_has hs t List.mem_cons_self
  have hother : comesToOther env (fuel + 1) s =
      (if isAccess t then accessStmt env fuel t >>= fun _ => comesToOther env fuel
        else pure true) s2 := by
    rw [comesToOther, bind_of_ok hpeek, if_neg (not_or.mpr ⟨hclose, heof⟩), bind_of_ok hnext]
  have ht : isAccess t = true := by
    by_contra hnot
    rw [if_neg hnot] at hother
    exact h s2 hother
  rw [if_pos ht] at hother
  refine ⟨ht, s2, movedTo_trans hs1 hs2, ?_, ?_⟩
  · rw [parseTopBlock, bind_of_ok hpeek, if_neg hclose, if_neg heof, bind_of_ok hnext]
    unfold accessStmt
    rcases isAccess_cases ht with rfl | rfl
    · dsimp only
      rw [if_pos rfl, if_pos rfl]
    · dsimp only
      rw [if_neg (by decide), if_pos rfl, if_neg (by decide)]
  · intro s3 s4 hstmt
    rw [bind_of_ok hstmt] at hother
    rw [← hother]
    exact h s4

/-- As long as nothing is stepped over, the two readers end alike. -/
theorem endAlike_blocks (env : Env) (fuel fuel' : Nat) {bs more : List Token}
    {s t : ParseState} (hclosed : closeAt 1 (bs ++ [.rBrace]) = [])
    (hother : forall t', comesToOther env fuel' t ≠ .ok true t')
    (h : BothHave (bs ++ .rBrace :: more) (bs ++ [.rBrace]) s t) :
    EndAlike OutOfFuel (BothHave more []) (parseBlock env fuel s) (parseTopBlock env fuel' t) := by
  have hfuel : OutOfFuel .fuel := rfl
  -- one round of each reader takes one statement of the body
  induction fuel generalizing fuel' bs s t with
  | zero => exact endAlike_spent_left hfuel _ _
  | succ fuel ih =>
      cases fuel' with
      | zero => exact endAlike_spent_right hfuel _ _
      | succ fuel' =>
          cases bs with
          | nil =>
              obtain ⟨s', hs', heq⟩ := parseBlock_close env fuel h.left
              obtain ⟨t', ht', heq'⟩ := parseTopBlock_close env fuel' h.right
              rw [heq, heq']
              exact ⟨rfl, hs'.tokens, ht'.tokens, by rw [ht'.comp, hs'.comp, h.comp]⟩
          | cons b bs =>
              have hb : b ≠ .rBrace := by
                rintro rfl
                have hnil : closeAt 0 (bs ++ [.rBrace]) = [] := hclosed
                rw [closeAt_zero] at hnil
                exact List.append_ne_nil_of_right_ne_nil bs (List.cons_ne_nil _ _) hnil
              obtain ⟨haccess, t', ht', heq', hrest⟩ := parseTopBlock_access h.right hb hother
              obtain ⟨s', hs', heq⟩ := parseBlock_access env fuel haccess h.left
              rw [heq, heq']
              have hboth : BothHave (b :: bs ++ .rBrace :: more) (bs ++ [.rBrace]) s' t' :=
                ⟨hs'.tokens, ht'.tokens, by rw [ht'.comp, hs'.comp, h.comp]⟩
              refine endAlike_bind (endAlike_bodyStmt env fuel fuel' haccess hboth) ?_
              intro _ s1 t1 _ ht1 hboth1
              refine ih fuel' ?_ (fun t2 => hrest t1 t2 ht1) hboth1
              have hends := sat_of_ok (ends_accessStmt env fuel' b t' _ ht'.tokens) ht1
              obtain ⟨rest, hhas, hrestClosed⟩ := closeAt_stmtEnd hends
              have hplain : forall t, t ∈ [b] -> t.Plain := by
                intro t ht
                rw [List.mem_singleton.mp ht]
                rcases isAccess_cases haccess with rfl | rfl
                · exact Token.plain_identifier _
                · exact Token.plain_identifier _
              calc closeAt 1 (after .semicolon bs ++ [.rBrace])
                  = closeAt 1 rest := by rw [Cur.has_unique hboth1.right hhas]
                _ = closeAt 1 (bs ++ [.rBrace]) := (hrestClosed 0).symm
                _ = closeAt 1 ([b] ++ (bs ++ [.rBrace])) := (closeAt_append 0 _ hplain).symm
                _ = [] := hclosed

/-!
## The two lines
-/

/-- `fn f() { loop N { B } }`. -/
def fnLine (f n b : List Byte) : List Byte :=
  ascii "fn" ++ spaced [f ++ ascii "()", ascii "\x7b", ascii "loop", n, ascii "\x7b", b,
    ascii "\x7d", ascii "\x7d"]

/-- `loop N { B }`. -/
def loopLine (n b : List Byte) : List Byte :=
  ascii "loop" ++ spaced [n, ascii "\x7b", b, ascii "\x7d"]

/-- `N { B`. -/
def loopTokens (n b : List Byte) : List Token := tokensOf n ++ .lBrace :: tokensOf b

/-- What follows the brace that opens the loop: `B`, if `N` has no brace. -/
def bodyTokens (n b : List Byte) : List Token := after .lBrace (loopTokens n b)

theorem lBrace_mem_loopTokens (n b : List Byte) : .lBrace ∈ loopTokens n b :=
  List.mem_append_right _ List.mem_cons_self

theorem tokensOf_fnLine {f : List Byte} (hf : IsIdent f) (n b : List Byte) :
    tokensOf (fnLine f n b) = .kwFn :: .identifier f :: .lParen :: .rParen :: .lBrace ::
      .identifier (ascii "loop") :: (loopTokens n b ++ .rBrace :: [.rBrace]) := by
  have hname : tokensOf (f ++ ascii "()") = [.identifier f, .lParen, .rParen] := by
    rw [show ascii "()" = byte '(' :: ascii ")" from rfl, tokensOf_ident (ascii ")") hf (by decide)]
    rfl
  have hfn : tokensOf (ascii "fn") = [.kwFn] := by decide
  have hloop : tokensOf (ascii "loop") = [.identifier (ascii "loop")] := by decide
  have hopen : tokensOf (ascii "\x7b") = [.lBrace] := by decide
  have hclose : tokensOf (ascii "\x7d") = [.rBrace] := by decide
  unfold fnLine loopTokens
  rw [tokensOf_spaced]
  simp only [List.flatMap_cons, List.flatMap_nil, hname, hfn, hloop, hopen, hclose,
    List.cons_append, List.nil_append, List.append_assoc]

theorem tokensOf_loopLine (n b : List Byte) :
    tokensOf (loopLine n b) =
      .identifier (ascii "loop") :: (loopTokens n b ++ .rBrace :: []) := by
  have hloop : tokensOf (ascii "loop") = [.identifier (ascii "loop")] := by decide
  have hopen : tokensOf (ascii "\x7b") = [.lBrace] := by decide
  have hclose : tokensOf (ascii "\x7d") = [.rBrace] := by decide
  unfold loopLine loopTokens
  rw [tokensOf_spaced]
  simp only [List.flatMap_cons, List.flatMap_nil, hloop, hopen, hclose, List.cons_append,
    List.nil_append, List.append_assoc]

/-- The line up to `loop`. -/
def fnOpen : ParseM NameBuf := do
  let _ <- nextToken
  let name <- expectName
  expectToken .lParen
  expectToken .rParen
  expectToken .lBrace
  streamReset
  let _ <- peekToken
  let _ <- nextToken
  pure name

/-- `N {`, and the stream at the start of the block. -/
def loopOpen (env : Env) (fuel : Nat) : ParseM (Word × Stream) := do
  let count <- loopCount env fuel
  let before <- getStream
  expectToken .lBrace
  pure (count, before)

/-- What follows the block in a function. -/
def fnClose (env : Env) (fuel : Nat) (name : NameBuf) (head : Word × Stream) :
    ParseM Outcome := do
  let body <- getStream
  unroll head.2.words.length (body.words.length - head.2.words.length) (head.1.toNat - 1)
  parseBlock env (fuel + 1)
  defineFn name
  pure (.fnDefined name)

/-- What follows the block at top level. -/
def topClose (env : Env) (head : Word × Stream) : ParseM Outcome := do
  let body <- getStream
  unroll 0 body.words.length (head.1.toNat - 1)
  streamHalt env
  let program <- takeProgram false
  pure (.run program)

/-- The head of the loop and its block, in a function. -/
def fnPart (env : Env) (fuel : Nat) : ParseM (Word × Stream) := do
  let head <- loopOpen env fuel
  parseBlock env fuel
  pure head

/-- The head of the loop and its block, at top level. -/
def topPart (env : Env) (fuel : Nat) : ParseM (Word × Stream) := do
  let head <- loopOpen env fuel
  streamReset
  parseTopBlock env fuel
  pure head

theorem loopCommand_eq (env : Env) (fuel : Nat) :
    loopCommand env fuel = topPart env fuel >>= topClose env := by
  unfold loopCommand topPart loopOpen topClose
  simp only [bind_assoc, pure_bind]
  rfl

theorem has_expectName {s : ParseState} {f : List Byte} {ts : List Token}
    (h : s.Has (.identifier f :: ts)) :
    Sat expectName s (fun name s' => name.bytes = f ∧ MovedTo s ts s') (fun _ _ => True) := by
  refine sat_mono (took_expectName h) ?_ (fun _ _ _ => trivial)
  rintro name s' ⟨rest, htokens, hs'⟩
  cases htokens
  exact ⟨rfl, hs'⟩

theorem has_streamReset {s : ParseState} {ts : List Token} (h : s.Has ts)
    {E : Abort -> ParseState -> Prop} :
    Sat streamReset s (fun _ s' => s'.Has ts ∧ s'.comp = s.comp.withStream .empty) E :=
  ⟨h, rfl⟩

theorem sat_fnOpen {s : ParseState} {f : List Byte} {ts : List Token}
    (hs : s.Has (.kwFn :: .identifier f :: .lParen :: .rParen :: .lBrace ::
      .identifier (ascii "loop") :: ts)) :
    Sat fnOpen s (fun name s' => name.bytes = f ∧ s'.Has ts ∧
      s'.comp = s.comp.withStream .empty) (fun _ _ => True) := by
  unfold fnOpen
  refine sat_seq (has_nextToken hs) fun _ s1 hs1 => ?_
  refine sat_seq (has_expectName hs1.2.tokens) fun name s2 hs2 => ?_
  refine sat_seq (has_expectToken hs2.2.tokens) fun _ s3 hs3 => ?_
  refine sat_seq (has_expectToken hs3.tokens) fun _ s4 hs4 => ?_
  refine sat_seq (has_expectToken hs4.tokens) fun _ s5 hs5 => ?_
  refine sat_seq (has_streamReset hs5.tokens) fun _ s6 hs6 => ?_
  refine sat_seq (has_peekToken hs6.1) fun _ s7 hs7 => ?_
  refine sat_seq (has_nextToken hs7.2.tokens) fun _ s8 hs8 => ?_
  refine ⟨hs2.1, hs8.2.tokens, ?_⟩
  rw [hs8.2.comp, hs7.2.comp, hs6.2, hs5.comp, hs4.comp, hs3.comp, hs2.2.comp, hs1.2.comp]

/-- A function whose body starts with a loop. -/
theorem parseLine_fn (env : Env) (fuel : Nat) {s : ParseState} {f : List Byte} {ts : List Token}
    (hs : s.Has (.kwFn :: .identifier f :: .lParen :: .rParen :: .lBrace ::
      .identifier (ascii "loop") :: ts)) :
    parseLine env (fuel + 2) s =
      (fnOpen >>= fun name => fnPart env fuel >>= fnClose env fuel name) s := by
  obtain ⟨tok, s1, hnext, htok, hs1⟩ := exists_of_sat (has_nextToken hs)
  unfold parseLine fnOpen
  rw [bind_apply, hnext, show tok = .kwFn from htok]
  simp only [bind_assoc]
  rw [bind_apply, hnext]
  dsimp only
  unfold parseFn
  rw [bind_apply, bind_apply]
  have hname := has_expectName hs1.tokens
  revert hname
  unfold Sat
  cases expectName s1 with
  | error e s2 => exact fun _ => rfl
  | ok name s2 =>
      rintro ⟨_, hs2⟩
      obtain ⟨_, s3, hopen, hs3⟩ := exists_of_sat (has_expectToken hs2.tokens)
      obtain ⟨_, s4, hclose, hs4⟩ := exists_of_sat (has_expectToken hs3.tokens)
      obtain ⟨_, s5, hbrace, hs5⟩ := exists_of_sat (has_expectToken hs4.tokens)
      obtain ⟨_, s6, hreset, hs6⟩ := exists_of_sat (has_streamReset hs5.tokens)
      obtain ⟨tok7, s7, hpeek, htok7, hs7⟩ := exists_of_sat (has_peekToken hs6.1)
      obtain ⟨tok8, s8, hloop, htok8, hs8⟩ := exists_of_sat (has_nextToken hs7.tokens)
      dsimp only
      rw [bind_of_ok hopen, bind_of_ok hopen, bind_of_ok hclose, bind_of_ok hclose,
        bind_of_ok hbrace, bind_of_ok hbrace, bind_of_ok hreset, bind_of_ok hreset,
        bind_of_ok hpeek, bind_of_ok hloop, pure_bind]
      have hblock : parseBlock env (fuel + 2) s6 =
          ((loopCount env fuel >>= fun count => getStream >>= fun before =>
            expectToken .lBrace >>= fun _ => parseBlock env fuel >>= fun _ =>
            getStream >>= fun body => unroll before.words.length
              (body.words.length - before.words.length) (count.toNat - 1)) >>= fun _ =>
            parseBlock env (fuel + 1)) s8 := by
        rw [parseBlock, bind_of_ok hpeek, show tok7 = .identifier (ascii "loop") from htok7,
          if_neg (by decide), if_neg (by decide), bind_apply, bind_apply, parseBodyStmt,
          bind_of_ok hloop, show tok8 = .identifier (ascii "loop") from htok8]
        dsimp only
        rw [if_neg (by decide), if_neg (by decide), if_pos rfl]
      rw [bind_apply, hblock, ← bind_apply]
      unfold fnPart loopOpen fnClose
      simp only [bind_assoc, pure_bind]

theorem parseLine_loop (env : Env) (fuel : Nat) {s : ParseState} {ts : List Token}
    (hs : s.Has (.identifier (ascii "loop") :: ts)) :
    exists s', MovedTo s ts s' ∧ nextToken s = .ok (.identifier (ascii "loop")) s' ∧
      parseLine env fuel s = (topPart env fuel >>= topClose env) s' := by
  obtain ⟨tok, s1, hnext, htok, hs1⟩ := exists_of_sat (has_nextToken hs)
  rw [show tok = .identifier (ascii "loop") from htok] at hnext
  have hcommand : commandOf (ascii "loop") = some .loop := by decide
  refine ⟨s1, hs1, hnext, ?_⟩
  unfold parseLine
  rw [bind_of_ok hnext]
  dsimp only
  unfold parseCommand
  rw [hcommand, ← loopCommand_eq]
  rfl

/-!
## The loop in both lines
-/

theorem after_append_of_mem {stop : Token} {ts : List Token} (h : stop ∈ ts)
    (more : List Token) : after stop (ts ++ more) = after stop ts ++ more := by
  induction ts with
  | nil => cases h
  | cons t ts ih =>
      rw [List.cons_append]
      simp only [after]
      by_cases ht : t = stop
      · rw [if_pos ht, if_pos ht]
      · rw [if_neg ht, if_neg ht]
        rcases List.mem_cons.mp h with heq | hmem
        · exact absurd heq.symm ht
        · exact ih hmem

theorem quiet_loopCount (env : Env) (fuel : Nat) : Quiet (loopCount env fuel) := by
  intro s
  refine sat_seq (quiet_scanning _ s) fun count s' hs' => ?_
  exact sat_ite (fun _ => trivial) (fun _ => hs')

theorem sat_getStream {s : ParseState} {E : Abort -> ParseState -> Prop} :
    Sat getStream s (fun stream s' => stream = s.comp.stream ∧ s' = s) E :=
  ⟨rfl, rfl⟩

theorem lockstep_loopOpen {ms mt : List Token} (env : Env) (fuel fuel' : Nat) :
    ParseLockstep (SameAhead ms mt) (loopOpen env fuel) (loopOpen env fuel') :=
  lockstep_bind (related_loopCount (onOperands_lockstep env fuel fuel')) fun _ =>
    lockstep_bind (onStream_lockstep _).onGet fun _ =>
      lockstep_bind (lockstep_expectToken (by decide)) fun _ => lockstep_pure _

/-- The head ends at the first opening brace, and compiles nothing. -/
theorem sat_loopOpen (env : Env) (fuel : Nat) {s : ParseState} {ts more : List Token}
    (hs : s.Has (ts ++ more)) (hopen : .lBrace ∈ ts) :
    Sat (loopOpen env fuel) s
      (fun head s' => MovedTo s (after .lBrace ts ++ more) s' ∧ head.2 = s.comp.stream)
      (fun _ _ => True) := by
  unfold loopOpen
  refine sat_seq (sat_mono (sat_and (eats_loopCount env fuel s _ hs) (quiet_loopCount env fuel s))
    (fun _ _ h => h) (fun _ _ _ => trivial)) fun count s1 hs1 => ?_
  obtain ⟨⟨used, rest, heq, hused, hrest⟩, hcomp⟩ := hs1
  have hne : forall t, t ∈ used -> t ≠ .lBrace := fun t ht => (hused t ht).2.1
  refine sat_seq sat_getStream fun before s2 hs2 => ?_
  obtain ⟨rfl, rfl⟩ := hs2
  refine sat_seq (took_expectToken hrest (by decide)) fun _ s3 hs3 => ?_
  obtain ⟨rest', rfl, hs3⟩ := hs3
  refine ⟨⟨?_, hs3.comp.trans hcomp⟩, ?_⟩
  · rw [← after_append_of_mem hopen, heq, after_append _ hne, after_self]
    exact hs3.tokens
  · rw [hcomp]

theorem streamReset_of_empty {s : ParseState} (h : s.comp.stream = .empty) :
    streamReset s = .ok () s := by
  have hcomp : { s.comp with stream := .empty } = s.comp := by
    rw [← h]
  show EStateM.Result.ok () { s with comp := { s.comp with stream := .empty } } = _
  rw [hcomp]

/-- Whether a top-level loop makes its reader step over a token. -/
def loopComesToOther (env : Env) (fuel : Nat) : ParseM Bool := do
  let _ <- loopCount env fuel
  expectToken .lBrace
  streamReset
  comesToOther env fuel

theorem loopComesToOther_eq (env : Env) (fuel : Nat) :
    loopComesToOther env fuel =
      loopOpen env fuel >>= fun _ => streamReset >>= fun _ => comesToOther env fuel := by
  unfold loopComesToOther loopOpen
  simp only [bind_assoc, pure_bind]
  rfl

/-- A block in which every statement is an access has nothing to step over. -/
theorem sat_comesToOther (env : Env) (fuel : Nat) {s : ParseState} {ts : List Token}
    (hs : s.Has ts) (h : onlyAccesses true ts = true) :
    Sat (comesToOther env fuel) s (fun other _ => other = false) (fun _ _ => True) := by
  induction fuel generalizing s ts with
  | zero => trivial
  | succ fuel ih =>
      unfold comesToOther
      refine sat_seq (has_peekToken hs) fun tok s1 hs1 => ?_
      refine sat_ite (fun _ => rfl) fun hstmt => ?_
      refine sat_seq (has_nextToken hs1.2.tokens) fun stmt s2 hs2 => ?_
      rw [hs1.1] at hstmt
      rw [hs2.1]
      cases ts with
      | nil => exact absurd (Or.inr rfl) hstmt
      | cons t ts =>
          have hclose : t ≠ .rBrace := fun hclose => hstmt (Or.inl hclose)
          rw [onlyAccesses, if_neg hclose, if_pos rfl, Bool.and_eq_true] at h
          refine sat_ite (fun _ => ?_) fun hnot => absurd h.1 hnot
          refine sat_seq (ends_accessStmt env fuel t s2 ts hs2.2.tokens) fun _ s3 hs3 => ?_
          obtain ⟨used, rest, hused, hrest, hend⟩ := hs3
          rcases hend with rfl | ⟨rfl, rfl⟩
          · rw [onlyAccesses_append rest hused] at h
            exact ih hrest h.2
          · exact ih hrest rfl

/-- The loop is read alike in both lines. -/
theorem endAlike_parts (env : Env) (fuel fuel' : Nat) {ts more : List Token} {s t : ParseState}
    (hopen : .lBrace ∈ ts) (hclosed : closeAt 1 (after .lBrace ts ++ [.rBrace]) = [])
    (hother : forall t', loopComesToOther env fuel' t ≠ .ok true t')
    (hempty : s.comp.stream = .empty)
    (h : BothHave (ts ++ .rBrace :: more) (ts ++ [.rBrace]) s t) :
    EndAlike OutOfFuel (BothHave more []) (fnPart env fuel s) (topPart env fuel' t) := by
  obtain ⟨ms, mt, hsame⟩ := sameState_of_bothHave h
  rw [loopComesToOther_eq] at hother
  unfold fnPart topPart
  refine endAlike_bind (lockstep_loopOpen env fuel fuel' s t hsame) ?_
  intro head s1 t1 hs1 ht1 _
  have hleft := sat_of_ok (sat_loopOpen env fuel h.left hopen) hs1
  have hright := sat_of_ok (sat_loopOpen env fuel' h.right hopen) ht1
  have hreset : t1.comp.stream = .empty := by
    rw [hright.1.comp, h.comp]
    exact hempty
  rw [bind_of_ok ht1, bind_of_ok (streamReset_of_empty hreset)] at hother
  rw [bind_of_ok (streamReset_of_empty hreset)]
  refine endAlike_bind (endAlike_blocks env fuel fuel' hclosed hother
    ⟨hleft.1.tokens, hright.1.tokens, ?_⟩) fun _ s2 t2 _ _ hboth => ⟨rfl, hboth⟩
  rw [hright.1.comp, h.comp, hleft.1.comp]

/-- What `defineFn` has stored. -/
theorem sat_defineFn {name : NameBuf} {s : ParseState} (hname : name.bytes ≠ []) :
    Sat (defineFn name) s
      (fun _ s' => s'.comp.HasFn name.bytes s.comp.stream.words ∧
        s.comp.stream.words.length ≤ fnBodyWords) (fun _ _ => True) := by
  unfold defineFn
  rw [sat_bind, sat_get]
  by_cases hlength : s.comp.stream.words.length ≤ fnBodyWords
  · rw [dif_pos hlength]
    cases halloc : s.comp.allocFnSlot name with
    | ok i => exact ⟨hasFn_setFn halloc rfl hname, hlength⟩
    | error e => trivial
  · rw [dif_neg hlength]
    trivial

/-- A function that was stored fits a program of its own, with its `halt`. -/
theorem sat_topHalt (env : Env) {s : ParseState}
    (h : s.comp.stream.words.length ≤ fnBodyWords) {E : Abort -> ParseState -> Prop} :
    Sat (streamHalt env >>= fun _ => takeProgram false >>= fun program =>
        (pure (.run program) : ParseM Outcome)) s
      (fun outcome _ => exists program, outcome = .run program ∧
        program.stream.words = s.comp.stream.words ++ [env.prims.wordOf .halt]) E := by
  have hroom : s.comp.stream.words.length < maxStreamWords := Nat.lt_of_le_of_lt h (by decide)
  refine sat_seq (sat_of_emitter (emitter_streamPush _) hroom) fun _ s1 hs1 => ?_
  exact ⟨_, rfl, hs1⟩

/-- After the same block, the program of the loop is the body of the function and `halt`. -/
theorem topClose_of_fnClose {env : Env} {fuel : Nat} {name : NameBuf} {head : Word × Stream}
    {ts : List Token} {s s' t : ParseState} {outcome : Outcome}
    (h : BothHave (.rBrace :: ts) [] s t) (hname : name.bytes ≠ []) (hempty : head.2 = .empty)
    (hclose : fnClose env fuel name head s = .ok outcome s') :
    exists body program t', s'.comp.HasFn name.bytes body ∧
      topClose env head t = .ok (.run program) t' ∧
      program.stream.words = body ++ [env.prims.wordOf .halt] := by
  have hbody : getStream s = .ok s.comp.stream s := rfl
  have hbody' : getStream t = .ok t.comp.stream t := rfl
  have hlock := related_unroll (onStream_lockstep fun _ _ => True) 0 s.comp.stream.words.length
    (head.1.toNat - 1) s t ⟨trivial, h.comp⟩
  have hstill := related_unroll onStream_still 0 s.comp.stream.words.length (head.1.toNat - 1) s
  have hfuel := related_unroll (onStream_within _) 0 s.comp.stream.words.length
    (head.1.toNat - 1) t (Nat.le_refl _)
  unfold fnClose at hclose
  unfold topClose
  rw [bind_of_ok hbody, hempty, show Stream.empty.words.length = 0 from rfl, Nat.sub_zero] at hclose
  rw [bind_of_ok hbody', h.comp]
  cases hs : unroll 0 s.comp.stream.words.length (head.1.toNat - 1) s with
  | error e s1 =>
      rw [bind_apply, hs] at hclose
      cases hclose
  | ok u s1 =>
      cases ht : unroll 0 s.comp.stream.words.length (head.1.toNat - 1) t with
      | error e t1 =>
          rw [hs, ht] at hlock
          exact absurd hlock (sat_of_error hfuel ht)
      | ok u' t1 =>
          rw [hs, ht] at hlock
          have hcomp : t1.comp = s1.comp := hlock.2.2
          have hscan := sat_of_ok hstill hs
          have hs1 : s1.Has (.rBrace :: ts) := has_of_scan hscan h.left
          obtain ⟨s2, hs2, hblock⟩ := parseBlock_close env fuel hs1
          rw [bind_of_ok hs, bind_of_ok hblock] at hclose
          have hdefined : Sat (defineFn name >>= fun _ => (pure (.fnDefined name) : ParseM Outcome))
              s2 (fun _ s' => s'.comp.HasFn name.bytes s2.comp.stream.words ∧
                s2.comp.stream.words.length ≤ fnBodyWords) (fun _ _ => True) :=
            sat_seq (sat_defineFn hname) fun _ _ h => h
          obtain ⟨hfn, hlength⟩ := sat_of_ok hdefined hclose
          have hsame : t1.comp = s2.comp := hcomp.trans hs2.comp.symm
          rw [← hsame] at hfn hlength
          obtain ⟨outcome', t2, htop, program, rfl, hwords⟩ :=
            exists_of_sat (sat_topHalt env hlength)
          refine ⟨t1.comp.stream.words, program, t2, hfn, ?_, hwords⟩
          rw [bind_of_ok ht]
          exact htop

/-!
## Agreement
-/

/-- The fuel of the loop in `fn f() { loop N { B } }`. -/
def fnLoopFuel (f n b : List Byte) : Nat := parseFuel (fnLine f n b) - 2

/-- The parser has given an error. -/
def isRejected : EStateM.Result Abort ParseState α -> Bool
  | .error (.error _) _ => true
  | _ => false

theorem isRejected_of_isAccepted {r : EStateM.Result Abort ParseState α}
    (h : isAccepted r = true) : isRejected r = false := by
  cases r with
  | ok a s => rfl
  | error e s => cases h

theorem exists_of_isRejected {r : EStateM.Result Abort ParseState α} (h : isRejected r = true) :
    exists e s, r = .error (.error e) s := by
  cases r with
  | ok a s => cases h
  | error e s =>
      cases e with
      | error e => exact ⟨e, s, rfl⟩
      | _ => cases h

/-- The function and the head of its loop are read, and the block `B }` is rejected. -/
def rejectedInside (env : Env) (c : Compiler) (f n b : List Byte) : Bool :=
  match fnOpen (startState c (fnLine f n b)) with
  | .ok _ s =>
      match loopOpen env (fnLoopFuel f n b) s with
      | .ok _ s' => isRejected (parseBlock env (fnLoopFuel f n b) s')
      | .error _ _ => false
  | .error _ _ => false

theorem rejectedInside_cases {env : Env} {c : Compiler} {f n b : List Byte}
    (h : rejectedInside env c f n b = true) :
    exists name s e s', fnOpen (startState c (fnLine f n b)) = .ok name s ∧
      fnPart env (fnLoopFuel f n b) s = .error (.error e) s' := by
  unfold rejectedInside at h
  cases hfn : fnOpen (startState c (fnLine f n b)) with
  | error e s =>
      rw [hfn] at h
      cases h
  | ok name s =>
      rw [hfn] at h
      dsimp only at h
      cases hhead : loopOpen env (fnLoopFuel f n b) s with
      | error e s' =>
          rw [hhead] at h
          cases h
      | ok head s' =>
          rw [hhead] at h
          obtain ⟨e, s'', hblock⟩ := exists_of_isRejected h
          refine ⟨name, s, e, s'', rfl, ?_⟩
          unfold fnPart
          rw [bind_of_ok hhead, bind_apply, hblock]

/-- What an accepted function or a rejected body says about the loop at top level. -/
structure LoopsAgree (env : Env) (c : Compiler) (f n b : List Byte) : Prop where
  accepted : forall outcome s, parse env c (fnLine f n b) = .ok outcome s ->
    exists body program t, s.comp.HasFn f body ∧
      parse env c (loopLine n b) = .ok (.run program) t ∧
      program.stream.words = body ++ [env.prims.wordOf .halt]
  rejected : rejectedInside env c f n b = true -> isRejected (parse env c (loopLine n b)) = true

/-- The reader of the line `loop N { B }` steps over a token. -/
def StepsOver (env : Env) (c : Compiler) (n b : List Byte) : Prop :=
  exists s, (nextToken >>= fun _ => loopComesToOther env (parseFuel (loopLine n b)))
    (startState c (loopLine n b)) = .ok true s

theorem blind_loopComesToOther (env : Env) (fuel : Nat) : Blind (loopComesToOther env fuel) :=
  blind_bind (related_loopCount (onOperands_blind env fuel)) fun _ =>
    blind_bind (related_expectToken onTokens_blind _) fun _ => blind_reset _

/-- The stream that an earlier line has left does not matter. -/
theorem ok_of_blind {x : ParseM α} (hx : Blind x) {s t : ParseState} {stream : Stream} {a : α}
    (h : x { s with comp := s.comp.withStream stream } = .ok a t) : exists s', x s = .ok a s' := by
  have hanswer := hx s stream
  rw [h] at hanswer
  cases hrun : x s with
  | ok a' s' =>
      rw [hrun] at hanswer
      rw [hanswer.1]
      exact ⟨s', rfl⟩
  | error e s' =>
      rw [hrun] at hanswer
      exact hanswer.elim

theorem error_of_blind {x : ParseM α} (hx : Blind x) {s t : ParseState} {stream : Stream}
    {e : Abort} (h : x { s with comp := s.comp.withStream stream } = .error e t) :
    exists s', x s = .error e s' := by
  have hanswer := hx s stream
  rw [h] at hanswer
  cases hrun : x s with
  | ok a s' =>
      rw [hrun] at hanswer
      exact hanswer.elim
  | error e' s' =>
      rw [hrun] at hanswer
      rw [hanswer.1]
      exact ⟨s', rfl⟩

theorem stepsOver_of_empty {env : Env} {c : Compiler} {n b : List Byte}
    (h : StepsOver env (c.withStream .empty) n b) : StepsOver env c n b := by
  obtain ⟨s, hs⟩ := h
  exact ok_of_blind (blind_bind onTokens_blind.onNext fun _ => blind_loopComesToOther env _) hs

theorem not_stepsOver_of_onlyAccesses {n b : List Byte}
    (h : onlyAccesses true (bodyTokens n b ++ [.rBrace]) = true) (env : Env) (c : Compiler) :
    ¬ StepsOver env c n b := by
  rintro ⟨s, hs⟩
  have htokens := has_startState c (loopLine n b)
  rw [tokensOf_loopLine] at htokens
  have hsat : Sat (nextToken >>= fun _ => loopComesToOther env (parseFuel (loopLine n b)))
      (startState c (loopLine n b)) (fun other _ => other = false) (fun _ _ => True) := by
    refine sat_seq (has_nextToken htokens) fun _ s1 hs1 => ?_
    rw [loopComesToOther_eq]
    refine sat_seq (sat_loopOpen env _ hs1.2.tokens (lBrace_mem_loopTokens n b))
      fun _ s2 hs2 => ?_
    refine sat_seq (has_streamReset hs2.1.tokens) fun _ s3 hs3 => ?_
    exact sat_comesToOther env _ hs3.1 h
  exact absurd (sat_of_ok hsat hs) (by decide)

theorem sat_fnPart (env : Env) (fuel : Nat) {s : ParseState} {ts more : List Token}
    (hs : s.Has (ts ++ more)) (hopen : .lBrace ∈ ts) :
    Sat (fnPart env fuel) s (fun head _ => head.2 = s.comp.stream) (fun _ _ => True) := by
  refine sat_seq (sat_loopOpen env fuel hs hopen) fun head s1 hs1 => ?_
  rw [sat_bind]
  refine sat_mono (keeps_parseBlock env fuel s1) (fun _ _ _ => hs1.2) (fun _ _ _ => trivial)

theorem fnLine_eq (env : Env) (c : Compiler) {f : List Byte} (hf : IsIdent f) (n b : List Byte) :
    parse env c (fnLine f n b) =
      (fnOpen >>= fun name => fnPart env (fnLoopFuel f n b) >>=
        fnClose env (fnLoopFuel f n b) name) (startState c (fnLine f n b)) := by
  have htokens := has_startState c (fnLine f n b)
  rw [tokensOf_fnLine hf] at htokens
  have hfuel : parseFuel (fnLine f n b) = fnLoopFuel f n b + 2 := by
    unfold fnLoopFuel parseFuel
    lia
  unfold parse
  rw [hfuel]
  exact parseLine_fn env (fnLoopFuel f n b) htokens

theorem fnOpen_spec {c : Compiler} {f n b : List Byte} (hf : IsIdent f) {name : NameBuf}
    {s : ParseState} (hfn : fnOpen (startState c (fnLine f n b)) = .ok name s) :
    name.bytes = f ∧ s.Has (loopTokens n b ++ .rBrace :: [.rBrace]) ∧
      s.comp = c.withStream .empty := by
  have htokens := has_startState c (fnLine f n b)
  rw [tokensOf_fnLine hf] at htokens
  have hspec := sat_of_ok (sat_fnOpen htokens) hfn
  exact hspec

/-- Once the function is open, the loop of both lines is read alike. -/
theorem exists_topPart (env : Env) (c : Compiler) {f n b : List Byte} (hf : IsIdent f)
    (hclosed : closeAt 1 (bodyTokens n b ++ [.rBrace]) = []) (hsteps : ¬ StepsOver env c n b)
    {name : NameBuf} {s : ParseState} (hfn : fnOpen (startState c (fnLine f n b)) = .ok name s) :
    exists t, parse env (c.withStream .empty) (loopLine n b) =
        (topPart env (parseFuel (loopLine n b)) >>= topClose env) t ∧
      EndAlike OutOfFuel (BothHave [.rBrace] []) (fnPart env (fnLoopFuel f n b) s)
        (topPart env (parseFuel (loopLine n b)) t) := by
  have hloopTokens := has_startState (c.withStream .empty) (loopLine n b)
  rw [tokensOf_loopLine] at hloopTokens
  obtain ⟨_, hs, hcomp⟩ := fnOpen_spec hf hfn
  obtain ⟨t, ht, hnext, hline⟩ := parseLine_loop env (parseFuel (loopLine n b)) hloopTokens
  have hempty : s.comp.stream = .empty := by
    rw [hcomp]
    rfl
  have hother : forall t', loopComesToOther env (parseFuel (loopLine n b)) t ≠ .ok true t' := by
    intro t' hrun
    refine hsteps (stepsOver_of_empty ⟨t', ?_⟩)
    rw [bind_of_ok hnext]
    exact hrun
  exact ⟨t, hline, endAlike_parts env _ _ (lBrace_mem_loopTokens n b) hclosed hother hempty
    ⟨hs, ht.tokens, ht.comp.trans hcomp.symm⟩⟩

theorem accepted_of_not_stepsOver {env : Env} {c : Compiler} {f n b : List Byte} (hf : IsIdent f)
    (hclosed : closeAt 1 (bodyTokens n b ++ [.rBrace]) = []) (hsteps : ¬ StepsOver env c n b)
    {outcome : Outcome} {s : ParseState} (h : parse env c (fnLine f n b) = .ok outcome s) :
    exists body program t, s.comp.HasFn f body ∧
      parse env c (loopLine n b) = .ok (.run program) t ∧
      program.stream.words = body ++ [env.prims.wordOf .halt] := by
  rw [fnLine_eq env c hf n b, bind_apply] at h
  cases hfn : fnOpen (startState c (fnLine f n b)) with
  | error e s1 =>
      rw [hfn] at h
      cases h
  | ok name s1 =>
      rw [hfn] at h
      dsimp only at h
      rw [bind_apply] at h
      obtain ⟨hname, hs1, hcomp⟩ := fnOpen_spec hf hfn
      obtain ⟨t, hline, hparts⟩ := exists_topPart env c hf hclosed hsteps hfn
      cases hpart : fnPart env (fnLoopFuel f n b) s1 with
      | error e s2 =>
          rw [hpart] at h
          cases h
      | ok head s2 =>
          rw [hpart] at h hparts
          have hhead := sat_of_ok
            (sat_fnPart env (fnLoopFuel f n b) hs1 (lBrace_mem_loopTokens n b)) hpart
          rw [hcomp] at hhead
          cases htop : topPart env (parseFuel (loopLine n b)) t with
          | error e t' =>
              rw [htop] at hparts
              rw [bind_apply, htop, show e = .fuel from hparts] at hline
              exact absurd hline (parse_ne_fuel env _ _ t')
          | ok head' t' =>
              rw [htop] at hparts
              obtain ⟨rfl, hboth⟩ := hparts
              rw [bind_of_ok htop] at hline
              have hnonempty : name.bytes ≠ [] := by
                rw [hname]
                exact isIdent_ne_nil hf
              obtain ⟨body, program, t2, hfnBody, hclose, hwords⟩ :=
                topClose_of_fnClose hboth hnonempty hhead h
              rw [hclose] at hline
              obtain ⟨t3, hparse⟩ :=
                ok_of_blind (s := startState c (loopLine n b)) (blind_parseLine env _) hline
              rw [hname] at hfnBody
              exact ⟨body, program, t3, hfnBody, hparse, hwords⟩

theorem rejected_of_not_stepsOver {env : Env} {c : Compiler} {f n b : List Byte} (hf : IsIdent f)
    (hclosed : closeAt 1 (bodyTokens n b ++ [.rBrace]) = []) (hsteps : ¬ StepsOver env c n b)
    (h : rejectedInside env c f n b = true) :
    isRejected (parse env c (loopLine n b)) = true := by
  obtain ⟨name, s, e, s', hfn, hpart⟩ := rejectedInside_cases h
  obtain ⟨t, hline, hparts⟩ := exists_topPart env c hf hclosed hsteps hfn
  rw [hpart] at hparts
  cases htop : topPart env (parseFuel (loopLine n b)) t with
  | ok head' t' =>
      rw [htop] at hparts
      cases hparts
  | error e' t' =>
      rw [bind_apply, htop] at hline
      rw [htop] at hparts
      rcases hparts with rfl | hfuel | hfuel
      · obtain ⟨t'', hparse⟩ :=
          error_of_blind (s := startState c (loopLine n b)) (blind_parseLine env _) hline
        unfold parse
        rw [hparse]
        rfl
      · cases hfuel
      · rw [show e' = .fuel from hfuel] at hline
        exact absurd hline (parse_ne_fuel env _ _ t')

theorem loopsAgree_of_not_stepsOver {env : Env} {c : Compiler} {f n b : List Byte}
    (hf : IsIdent f) (hclosed : closeAt 1 (bodyTokens n b ++ [.rBrace]) = [])
    (hsteps : ¬ StepsOver env c n b) : LoopsAgree env c f n b where
  accepted := fun _ _ h => accepted_of_not_stepsOver hf hclosed hsteps h
  rejected := rejected_of_not_stepsOver hf hclosed hsteps

/-- The two loop compilers agree on every body that closes its own braces only and is made of
`poke` and `peek` statements.  Of any other body they agree as long as the one at top level
does not get to a token that it steps over. -/
theorem loopsAgree_of_onlyAccesses (env : Env) (c : Compiler) (f n b : List Byte)
    (hf : IsIdent f) (hclosed : closeAt 1 (bodyTokens n b ++ [.rBrace]) = []) :
    (onlyAccesses true (bodyTokens n b ++ [.rBrace]) = true -> LoopsAgree env c f n b) ∧
      (¬ StepsOver env c n b -> LoopsAgree env c f n b) := by
  constructor
  · intro honly
    exact loopsAgree_of_not_stepsOver hf hclosed (not_stepsOver_of_onlyAccesses honly env c)
  · intro hsteps
    exact loopsAgree_of_not_stepsOver hf hclosed hsteps

theorem loopsAgree_poke :
    isAccepted (parse Env.idle Compiler.new
      (fnLine (ascii "f") (ascii "2") (ascii "poke 0x20000000 1;"))) = true ∧
    LoopsAgree Env.idle Compiler.new (ascii "f") (ascii "2") (ascii "poke 0x20000000 1;") := by
  have hname : IsIdent (ascii "f") :=
    ⟨⟨byte 'f', [], rfl, by decide⟩, by decide, by decide, by decide⟩
  have honly : onlyAccesses true
      (bodyTokens (ascii "2") (ascii "poke 0x20000000 1;") ++ [.rBrace]) = true := by decide
  exact ⟨by decide +kernel,
    (loopsAgree_of_onlyAccesses _ _ _ _ _ hname (by decide)).left honly⟩

/-- The two readers do not agree on what is stepped over: `x` has no value, so the function
is rejected, and the loop at top level runs twice over nothing. -/
theorem not_loopsAgree_unknown :
    ¬ LoopsAgree Env.idle Compiler.new (ascii "f") (ascii "2") (ascii "x;") := by
  intro h
  have hinside :
      rejectedInside Env.idle Compiler.new (ascii "f") (ascii "2") (ascii "x;") = true := by
    decide +kernel
  have haccepted :
      isAccepted (parse Env.idle Compiler.new (loopLine (ascii "2") (ascii "x;"))) = true := by
    decide +kernel
  exact absurd (h.rejected hinside) (Bool.eq_false_iff.mp (isRejected_of_isAccepted haccepted))

end Compilation
end HolyRust
