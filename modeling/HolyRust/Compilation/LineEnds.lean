import HolyRust.Compilation.Consumption

/-!
# Where accepted lines end

An accepted line ignores nothing when its tokens stop where its statement does, and when
the block of a top-level loop has nothing to step over.
-/

namespace HolyRust
namespace Compilation

open Foundation

/-!
## Finding the end in a list of tokens
-/

/-- What follows the first `stop`. -/
def after (stop : Token) : List Token -> List Token
  | [] => []
  | t :: ts => if t = stop then ts else after stop ts

/-- What follows the brace that closes the last of `d` open ones. -/
def closeAt : Nat -> List Token -> List Token
  | 0, ts => ts
  | _ + 1, [] => []
  | d + 1, t :: ts =>
      if t = .rBrace then closeAt d ts
      else if t = .lBrace then closeAt (d + 2) ts
      else closeAt (d + 1) ts

def isAccess (t : Token) : Bool :=
  decide (t = .identifier (ascii "poke")) || decide (t = .identifier (ascii "peek"))

/-- Up to the first closing brace, `poke` or `peek` stands first and after every
semicolon. -/
def onlyAccesses : Bool -> List Token -> Bool
  | _, [] => true
  | first, t :: ts =>
      if t = .rBrace then true
      else if first then isAccess t && onlyAccesses false ts
      else onlyAccesses (decide (t = .semicolon)) ts

/-- The tokens up to the first closing brace that stand where a statement would, and are no
`poke` or `peek`. -/
def steppedOver : Bool -> List Token -> List Token
  | _, [] => []
  | first, t :: ts =>
      if t = .rBrace then []
      else if first then
        if isAccess t then steppedOver false ts else t :: steppedOver true ts
      else steppedOver (decide (t = .semicolon)) ts

theorem steppedOver_eq_nil (first : Bool) (ts : List Token) :
    steppedOver first ts = [] ↔ onlyAccesses first ts = true := by
  induction ts generalizing first with
  | nil => exact iff_of_true rfl rfl
  | cons t ts ih =>
      simp only [steppedOver, onlyAccesses]
      split
      · exact iff_of_true rfl rfl
      · cases first with
        | false => exact ih _
        | true =>
            cases isAccess t with
            | true => exact ih false
            | false => exact iff_of_false (List.cons_ne_nil _ _) Bool.false_ne_true

theorem after_append {stop : Token} {used : List Token} (ts : List Token)
    (h : forall t, t ∈ used -> t ≠ stop) : after stop (used ++ ts) = after stop ts :=
  skip_append (fun _ _ hne => if_neg hne) ts h

theorem after_self (stop : Token) (ts : List Token) : after stop (stop :: ts) = ts :=
  if_pos rfl

theorem closeAt_zero (ts : List Token) : closeAt 0 ts = ts := by
  cases ts <;> rfl

theorem closeAt_plain (d : Nat) (t : Token) (ts : List Token) (h : t.Plain) :
    closeAt (d + 1) (t :: ts) = closeAt (d + 1) ts := by
  obtain ⟨_, hopen, hclose⟩ := h
  simp only [closeAt]
  rw [if_neg hclose, if_neg hopen]

theorem closeAt_append {used : List Token} (d : Nat) (ts : List Token)
    (h : forall t, t ∈ used -> t.Plain) : closeAt (d + 1) (used ++ ts) = closeAt (d + 1) ts :=
  skip_append (closeAt_plain d) ts h

theorem onlyAccesses_append {used : List Token} (ts : List Token)
    (h : forall t, t ∈ used -> t.Plain) :
    onlyAccesses false (used ++ .semicolon :: ts) = onlyAccesses true ts := by
  induction used with
  | nil => rfl
  | cons t used ih =>
      obtain ⟨hsemicolon, _, hclose⟩ := h t List.mem_cons_self
      rw [List.cons_append]
      simp only [onlyAccesses]
      rw [if_neg hclose, if_neg (by decide), decide_eq_false hsemicolon]
      exact ih fun t' ht' => h t' (List.mem_cons_of_mem t ht')

theorem after_semicolon {ts : List Token} {cur : Cur} (h : StmtEnd ts cur) :
    cur.Has (after .semicolon ts) := by
  obtain ⟨used, rest, hused, hrest, hend⟩ := h
  have hne : forall t, t ∈ used -> t ≠ .semicolon := fun t ht => (hused t ht).1
  rcases hend with rfl | ⟨rfl, rfl⟩
  · rw [after_append _ hne, after_self]
    exact hrest
  · have hnil := after_append [] hne
    rw [List.append_nil] at hnil
    rw [hnil]
    exact hrest

theorem closeAt_stmtEnd {ts : List Token} {cur : Cur} (h : StmtEnd ts cur) :
    exists rest, cur.Has rest ∧ forall d, closeAt (d + 1) ts = closeAt (d + 1) rest :=
  stmtEnd_skips closeAt_plain (fun _ _ => rfl) h

/-!
## Function bodies
-/

/-- A statement closes the braces that it opens. -/
def Balanced (x : ParseM α) : Prop :=
  forall s ts, s.Has ts -> Sat x s
    (fun _ s' => exists rest, s'.Has rest ∧ forall d, closeAt (d + 1) ts = closeAt (d + 1) rest)
    (fun _ _ => True)

/-- A block also closes the one before it. -/
def Closes (x : ParseM α) : Prop :=
  forall s ts, s.Has ts -> Sat x s
    (fun _ s' => exists rest, s'.Has rest ∧ forall d, closeAt (d + 1) ts = closeAt d rest)
    (fun _ _ => True)

theorem balanced_of_ends {x : ParseM α} (hx : EndsStmt x) : Balanced x :=
  fun s ts hs => sat_mono (hx s ts hs) (fun _ _ h => closeAt_stmtEnd h) (fun _ _ h => h)

theorem balanced_of_eats {x : ParseM α} (hx : Eats x) : Balanced x := by
  intro s ts hs
  refine sat_mono (hx s ts hs) ?_ (fun _ _ h => h)
  rintro _ s' ⟨used, rest, rfl, hused, hrest⟩
  exact ⟨rest, hrest, fun d => closeAt_append d rest hused⟩

/-- A statement before `f` leaves the depth that `f` comes to. -/
theorem sat_balanced_bind {x : ParseM α} {f : α -> ParseM β} (depth : Nat -> Nat)
    (hx : Balanced x) (hf : forall a s ts, s.Has ts -> Sat (f a) s
      (fun _ s' => exists rest, s'.Has rest ∧ forall d, closeAt (d + 1) ts = closeAt (depth d) rest)
      (fun _ _ => True)) {s : ParseState} {ts : List Token} (hs : s.Has ts) :
    Sat (x >>= f) s
      (fun _ s' => exists rest, s'.Has rest ∧ forall d, closeAt (d + 1) ts = closeAt (depth d) rest)
      (fun _ _ => True) := by
  refine sat_seq (hx s ts hs) fun a s1 hs1 => ?_
  obtain ⟨rest, hrest, hclose⟩ := hs1
  refine sat_mono (hf a s1 rest hrest) ?_ (fun _ _ h => h)
  rintro _ s2 ⟨rest', hrest', hclose'⟩
  exact ⟨rest', hrest', fun d => (hclose d).trans (hclose' d)⟩

theorem balanced_bind {x : ParseM α} {f : α -> ParseM β} (hx : Balanced x)
    (hf : forall a, Balanced (f a)) : Balanced (x >>= f) :=
  fun _ _ hs => sat_balanced_bind (fun d => d + 1) hx hf hs

theorem balanced_ite {p : Prop} [Decidable p] {x y : ParseM α} (hx : Balanced x)
    (hy : Balanced y) : Balanced (if p then x else y) :=
  fun s ts hs => sat_ite (fun _ => hx s ts hs) (fun _ => hy s ts hs)

theorem closes_bind {x : ParseM α} {f : α -> ParseM β} (hx : Balanced x)
    (hf : forall a, Closes (f a)) : Closes (x >>= f) :=
  fun _ _ hs => sat_balanced_bind (fun d => d) hx hf hs

/-- An opening brace, a block and what takes no token. -/
theorem balanced_braces {x : ParseM α} {f : α -> ParseM β} (hx : Closes x)
    (hf : forall a, Still (f a)) : Balanced (expectToken .lBrace >>= fun _ => x >>= f) := by
  intro s ts hs
  refine sat_seq (took_expectToken hs (by decide)) fun _ s1 hs1 => ?_
  obtain ⟨ts1, rfl, hs1⟩ := hs1
  refine sat_seq (hx s1 ts1 hs1.tokens) fun a s2 hs2 => ?_
  obtain ⟨rest, hrest, hclose⟩ := hs2
  refine sat_mono (hf a s2) ?_ (fun _ _ h => h)
  intro _ s3 hs3
  exact ⟨rest, has_of_scan hs3 hrest, fun d => hclose (d + 1)⟩

/-- A token that the continuation only accepts when it is plain. -/
theorem balanced_nextToken {f : Token -> ParseM α}
    (hf : forall tok, tok.Plain -> Balanced (f tok))
    (hbad : forall tok s, ¬ tok.Plain -> Sat (f tok) s (fun _ _ => False) (fun _ _ => True)) :
    Balanced (nextToken >>= f) := by
  intro s ts hs
  refine sat_seq (has_nextToken hs) fun tok s1 hs1 => ?_
  by_cases hplain : tok.Plain
  · refine sat_mono (hf tok hplain s1 ts.tail hs1.2.tokens) ?_ (fun _ _ h => h)
    rintro _ s2 ⟨rest, hrest, hclose⟩
    refine ⟨rest, hrest, ?_⟩
    intro d
    cases ts with
    | nil => exact hclose d
    | cons t ts =>
        rw [show tok = t from hs1.1] at hplain
        exact (closeAt_plain d t ts hplain).trans (hclose d)
  · exact sat_mono (hbad tok s1 hplain) (fun _ _ h => h.elim) (fun _ _ h => h)

theorem balanced_parseBodyStmt_succ {env : Env} {fuel : Nat} (h : Closes (parseBlock env fuel)) :
    Balanced (parseBodyStmt env (fuel + 1)) := by
  unfold parseBodyStmt
  refine balanced_nextToken ?_ ?_
  · intro tok _
    cases tok with
    | identifier id =>
        refine balanced_ite (balanced_of_ends (ends_pokeStmt env fuel)) ?_
        refine balanced_ite (balanced_of_ends (ends_peekStmt env fuel)) ?_
        refine balanced_ite ?_ ?_
        · refine balanced_bind (balanced_of_eats (eats_loopCount env fuel)) fun _ => ?_
          refine balanced_bind (balanced_of_eats (eats_of_still onStream_still.onGet)) fun _ => ?_
          exact balanced_braces h fun _ =>
            still_bind onStream_still.onGet fun _ => related_unroll onStream_still _ _ _
        · have hsplice : Still (spliceCall id) :=
            related_spliceCall onStream_still (still_getFnBody id)
          exact balanced_of_ends (ends_call (fun _ => hsplice)
            (ends_bind (eats_evalExpr env fuel _) fun _ => ends_expectSemicolon))
    | _ => exact balanced_of_eats (eats_of_still (still_reject _))
  · intro tok s hplain
    cases tok with
    | identifier id => exact absurd (Token.plain_identifier id) hplain
    | _ => trivial

theorem closes_parseBlock_succ {env : Env} {fuel : Nat} (hstmt : Balanced (parseBodyStmt env fuel))
    (hblock : Closes (parseBlock env fuel)) : Closes (parseBlock env (fuel + 1)) := by
  intro s ts hs
  unfold parseBlock
  refine sat_seq (has_peekToken hs) fun tok s1 hs1 => ?_
  refine sat_ite (fun hclose => ?_) (fun _ => sat_ite (fun _ => trivial) fun _ => ?_)
  · refine sat_seq (has_nextToken hs1.2.tokens) fun _ s2 hs2 => ?_
    cases ts with
    | nil => exact absurd (hclose.symm.trans hs1.1) (by decide)
    | cons t ts =>
        rw [show t = .rBrace from hs1.1.symm.trans hclose]
        exact ⟨ts, hs2.2.tokens, fun d => rfl⟩
  · exact closes_bind hstmt (fun _ => hblock) s1 ts hs1.2.tokens

theorem balanced_body (env : Env) (fuel : Nat) :
    Balanced (parseBodyStmt env fuel) ∧ Closes (parseBlock env fuel) := by
  induction fuel with
  | zero => exact ⟨fun _ _ _ => trivial, fun _ _ _ => trivial⟩
  | succ fuel ih =>
      exact ⟨balanced_parseBodyStmt_succ ih.2, closes_parseBlock_succ ih.1 ih.2⟩

/-- What happens to the tokens after the first opening brace. -/
def AfterOpen (Q : α -> List Token -> ParseState -> Prop) (x : ParseM α) : Prop :=
  forall s ts, s.Has ts -> Sat x s (fun a s' => Q a (after .lBrace ts) s') (fun _ _ => True)

theorem afterOpen_bind {Q : β -> List Token -> ParseState -> Prop} {x : ParseM α}
    {f : α -> ParseM β} (hx : Eats x) (hf : forall a, AfterOpen Q (f a)) :
    AfterOpen Q (x >>= f) := by
  intro s ts hs
  refine sat_seq (hx s ts hs) fun a s1 hs1 => ?_
  obtain ⟨used, rest, rfl, hused, hrest⟩ := hs1
  have hne : forall t, t ∈ used -> t ≠ .lBrace := fun t ht => (hused t ht).2.1
  rw [after_append rest hne]
  exact hf a s1 rest hrest

theorem afterOpen_brace {Q : α -> List Token -> ParseState -> Prop} {x : ParseM α}
    (hx : forall s ts, s.Has ts -> Sat x s (fun a s' => Q a ts s') (fun _ _ => True)) :
    AfterOpen Q (expectToken .lBrace >>= fun _ => x) := by
  intro s ts hs
  refine sat_seq (took_expectToken hs (by decide)) fun _ s1 hs1 => ?_
  obtain ⟨rest, rfl, hs1⟩ := hs1
  rw [after_self]
  exact hx s1 rest hs1.tokens

theorem still_defineFn (name : NameBuf) : Still (defineFn name) := by
  refine still_bind still_get fun s => ?_
  by_cases h : s.comp.stream.words.length ≤ fnBodyWords
  · rw [dif_pos h]
    exact still_bind (related_liftExcept composes_still _) fun _ => still_setComp _
  · rw [dif_neg h]
    exact still_reject _

/-- A function takes its line up to the brace that closes its body. -/
theorem afterOpen_parseFn (env : Env) (fuel : Nat) :
    AfterOpen (fun _ body s' => s'.Has (closeAt 1 body)) (parseFn env fuel) := by
  refine afterOpen_bind eats_expectName fun name => ?_
  refine afterOpen_bind (eats_expectToken (by decide)) fun _ => ?_
  refine afterOpen_bind (eats_expectToken (by decide)) fun _ => ?_
  refine afterOpen_brace fun s ts hs => ?_
  refine sat_still (still_setStream _) hs fun _ s1 hs1 => ?_
  refine sat_seq ((balanced_body env fuel).2 s1 ts hs1) fun _ s2 hs2 => ?_
  obtain ⟨rest, hrest, hclose⟩ := hs2
  refine sat_mono (still_bind (still_defineFn name) (fun _ => still_pure _) s2) ?_
    (fun _ _ h => h)
  intro _ s3 hs3
  rw [hclose 0, closeAt_zero]
  exact has_of_scan hs3 hrest

/-!
## Top-level loops
-/

/-- `parseTopBlock`, and the tokens that it steps over. -/
def parseTopBlockSkips (env : Env) : Nat -> ParseM (List Token)
  | 0 => throw .fuel
  | fuel + 1 => do
      let tok <- peekToken
      if tok = .rBrace then do
        let _ <- nextToken
        pure []
      else if tok = .eof then reject .unexpectedToken
      else do
        let stmt <- nextToken
        if stmt = .identifier (ascii "poke") then do
          pokeStmt env fuel
          parseTopBlockSkips env fuel
        else if stmt = .identifier (ascii "peek") then do
          peekStmt env fuel
          parseTopBlockSkips env fuel
        else do
          let skipped <- parseTopBlockSkips env fuel
          pure (stmt :: skipped)

theorem parseTopBlock_eq (env : Env) (fuel : Nat) :
    parseTopBlock env fuel = parseTopBlockSkips env fuel >>= fun _ => pure () := by
  induction fuel with
  | zero => rfl
  | succ fuel ih =>
      unfold parseTopBlock parseTopBlockSkips
      rw [bind_assoc]
      refine congrArg (peekToken >>= ·) (funext fun tok => ?_)
      dsimp only
      split
      · rw [bind_assoc]
        rfl
      · split
        · rfl
        · rw [bind_assoc, ih]
          refine congrArg (nextToken >>= ·) (funext fun stmt => ?_)
          split
          · rw [bind_assoc]
          · split
            · rw [bind_assoc]
            · rw [bind_assoc]
              rfl

theorem steppedOver_append {used : List Token} (ts : List Token)
    (h : forall t, t ∈ used -> t.Plain) :
    steppedOver false (used ++ .semicolon :: ts) = steppedOver true ts := by
  induction used with
  | nil => rfl
  | cons t used ih =>
      obtain ⟨hsemicolon, _, hclose⟩ := h t List.mem_cons_self
      rw [List.cons_append]
      simp only [steppedOver]
      rw [if_neg hclose, if_neg (by decide), decide_eq_false hsemicolon]
      exact ih fun t' ht' => h t' (List.mem_cons_of_mem t ht')

theorem steppedOver_stmt {t : Token} (ht : isAccess t = true) {used rest : List Token}
    (hused : forall t, t ∈ used -> t.Plain) :
    steppedOver true (t :: (used ++ .semicolon :: rest)) = steppedOver true rest := by
  have hne : t ≠ .rBrace := by
    rintro rfl
    exact absurd ht (by decide)
  rw [steppedOver, if_neg hne, if_pos rfl, if_pos ht, steppedOver_append rest hused]

/-- Where the block ends, and what it steps over. -/
def TopBlockEnds (skipped : List Token) (ts : List Token) (s : ParseState) : Prop :=
  s.Has (after .rBrace ts) ∧ skipped = steppedOver true ts

/-- One access of the block, and the rest of it. -/
theorem topBlockEnds_access {env : Env} {fuel : Nat} {x : ParseM Unit} (hx : EndsStmt x)
    (ih : forall s ts, s.Has ts -> Sat (parseTopBlockSkips env fuel) s
      (fun skipped s' => TopBlockEnds skipped ts s') (fun _ _ => True))
    (hend : forall s, s.Has [] -> Sat (parseTopBlockSkips env fuel) s (fun _ _ => False)
      (fun _ _ => True))
    {t : Token} (ht : isAccess t = true) {s : ParseState} {ts : List Token} (hs : s.Has ts) :
    Sat (x >>= fun _ => parseTopBlockSkips env fuel) s
      (fun skipped s' => TopBlockEnds skipped (t :: ts) s') (fun _ _ => True) := by
  have hplain : t.Plain := by
    refine ⟨?_, ?_, ?_⟩ <;> rintro rfl <;> exact absurd ht (by decide)
  refine sat_seq (hx s ts hs) fun _ s1 hs1 => ?_
  obtain ⟨used, rest, hused, hrest, hstmt⟩ := hs1
  rcases hstmt with rfl | ⟨rfl, rfl⟩
  · refine sat_mono (ih s1 rest hrest) ?_ (fun _ _ h => h)
    intro skipped s2 hs2
    have hgone : forall t', t' ∈ t :: used ++ [.semicolon] -> t' ≠ .rBrace := by
      intro t' ht'
      rcases List.mem_append.mp ht' with hmem | hmem
      · rcases List.mem_cons.mp hmem with rfl | hmem
        · exact hplain.2.2
        · exact (hused t' hmem).2.2
      · rw [List.mem_singleton.mp hmem]
        decide
    have hafter : after .rBrace (t :: (used ++ .semicolon :: rest)) = after .rBrace rest := by
      rw [← after_append rest hgone]
      simp
    unfold TopBlockEnds
    rw [hafter, steppedOver_stmt ht hused]
    exact hs2
  · exact sat_mono (hend s1 hrest) (fun _ _ h => h.elim) (fun _ _ h => h)

theorem topBlockSkips_nil (env : Env) (fuel : Nat) {s : ParseState} (hs : s.Has []) :
    Sat (parseTopBlockSkips env fuel) s (fun _ _ => False) (fun _ _ => True) := by
  cases fuel with
  | zero => trivial
  | succ fuel =>
      unfold parseTopBlockSkips
      refine sat_seq (has_peekToken hs) fun tok s1 hs1 => ?_
      rw [hs1.1]
      refine sat_ite (fun h => absurd h (by decide)) fun _ => ?_
      exact sat_ite (fun _ => trivial) (fun h => absurd rfl h)

theorem topBlockEnds (env : Env) (fuel : Nat) {s : ParseState} {ts : List Token} (hs : s.Has ts) :
    Sat (parseTopBlockSkips env fuel) s (fun skipped s' => TopBlockEnds skipped ts s')
      (fun _ _ => True) := by
  induction fuel generalizing s ts with
  | zero => trivial
  | succ fuel ih =>
      unfold parseTopBlockSkips
      refine sat_seq (has_peekToken hs) fun tok s1 hs1 => ?_
      cases ts with
      | nil =>
          rw [hs1.1]
          refine sat_ite (fun h => absurd h (by decide)) fun _ => ?_
          exact sat_ite (fun _ => trivial) (fun h => absurd rfl h)
      | cons t ts =>
          rw [show tok = t from hs1.1]
          refine sat_ite (fun hclose => ?_) (fun hopen => sat_ite (fun _ => trivial) fun _ => ?_)
          · refine sat_seq (has_nextToken hs1.2.tokens) fun _ s2 hs2 => ?_
            rw [hclose]
            exact ⟨hs2.2.tokens, rfl⟩
          · refine sat_seq (has_nextToken hs1.2.tokens) fun stmt s2 hs2 => ?_
            rw [show stmt = t from hs2.1]
            refine sat_ite (fun hpoke => ?_) fun hpoke => sat_ite (fun hpeek => ?_) fun hpeek => ?_
            · refine topBlockEnds_access (ends_pokeStmt env fuel) (fun _ _ h => ih h)
                (fun _ h => topBlockSkips_nil env fuel h) ?_ hs2.2.tokens
              unfold isAccess
              rw [decide_eq_true hpoke, Bool.true_or]
            · refine topBlockEnds_access (ends_peekStmt env fuel) (fun _ _ h => ih h)
                (fun _ h => topBlockSkips_nil env fuel h) ?_ hs2.2.tokens
              unfold isAccess
              rw [decide_eq_true hpeek, Bool.or_true]
            · refine sat_seq (ih hs2.2.tokens) fun skipped s3 hs3 => ?_
              have haccess : isAccess t = false := by
                unfold isAccess
                rw [decide_eq_false hpoke, decide_eq_false hpeek]
                rfl
              refine ⟨?_, ?_⟩
              · rw [after, if_neg hopen]
                exact hs3.1
              · rw [steppedOver, if_neg hopen, if_pos rfl, haccess, hs3.2]
                rfl

/-!
## Lines with what they skip
-/

/-- `loopCommand`, and the tokens that its block steps over. -/
def loopCommandSkips (env : Env) (fuel : Nat) : ParseM (Outcome × List Token) := do
  let count <- loopCount env fuel
  expectToken .lBrace
  streamReset
  let skipped <- parseTopBlockSkips env fuel
  let body <- getStream
  unroll 0 body.words.length (count.toNat - 1)
  streamHalt env
  let program <- takeProgram false
  pure (.run program, skipped)

/-- Everything else compiles what it consumes. -/
def skipsNothing (x : ParseM Outcome) : ParseM (Outcome × List Token) := do
  let outcome <- x
  pure (outcome, [])

def parseCommandSkips (env : Env) (fuel : Nat) (id : List Byte) : ParseM (Outcome × List Token) :=
  if commandOf id = some .loop then loopCommandSkips env fuel
  else skipsNothing (parseCommand env fuel id)

def parseLineSkips (env : Env) (fuel : Nat) : ParseM (Outcome × List Token) := do
  let first <- nextToken
  match first with
  | .eof => reject .emptyLine
  | .kwLet => skipsNothing (parseLet env fuel)
  | .kwFn => skipsNothing (parseFn env fuel)
  | .identifier id => parseCommandSkips env fuel id
  | .literal v => skipsNothing (valueCommand env fuel (.literal v))
  | .operator op => skipsNothing (valueCommand env fuel (.operator op))
  | .lParen => skipsNothing (valueCommand env fuel .lParen)
  | .error msg => reject (.lexError msg)
  | _ => reject .unexpectedToken

/-- `parse`, and the tokens that it steps over. -/
def parseSkips (env : Env) (c : Compiler) (line : List Byte) :
    EStateM.Result Abort ParseState (Outcome × List Token) :=
  parseLineSkips env (parseFuel line) (startState c line)

theorem skipsNothing_eq (x : ParseM Outcome) :
    (skipsNothing x >>= fun r => pure r.1) = x := by
  unfold skipsNothing
  rw [bind_assoc]
  exact bind_pure x

theorem parseCommandSkips_eq (env : Env) (fuel : Nat) (id : List Byte) :
    (parseCommandSkips env fuel id >>= fun r => pure r.1) = parseCommand env fuel id := by
  unfold parseCommandSkips
  by_cases hloop : commandOf id = some .loop
  · rw [if_pos hloop]
    unfold parseCommand
    rw [hloop]
    show (loopCommandSkips env fuel >>= fun r => pure r.1) = loopCommand env fuel
    unfold loopCommandSkips loopCommand
    simp only [parseTopBlock_eq, bind_assoc, pure_bind]
  · rw [if_neg hloop]
    exact skipsNothing_eq _

theorem parseLineSkips_eq (env : Env) (fuel : Nat) :
    (parseLineSkips env fuel >>= fun r => pure r.1) = parseLine env fuel := by
  unfold parseLineSkips parseLine
  rw [bind_assoc]
  refine congrArg (nextToken >>= ·) (funext fun first => ?_)
  cases first with
  | kwLet => exact skipsNothing_eq _
  | kwFn => exact skipsNothing_eq _
  | identifier id => exact parseCommandSkips_eq env fuel id
  | literal v => exact skipsNothing_eq _
  | operator op => exact skipsNothing_eq _
  | lParen => exact skipsNothing_eq _
  | _ => rfl

/-- A line is accepted with the same outcome, in the same state. -/
theorem parseSkips_of_ok {env : Env} {c : Compiler} {line : List Byte} {outcome : Outcome}
    {s : ParseState} (h : parse env c line = .ok outcome s) :
    exists skipped, parseSkips env c line = .ok (outcome, skipped) s :=
  exists_of_fst_ok (parseLineSkips_eq env (parseFuel line)) h

/-!
## Where lines end
-/

/-- Where the tokens after the word of a command have to stop. -/
def CommandEnds : Command -> List Token -> Prop
  | .help, ts | .banner, ts | .sysAudit, ts | .bench, ts | .storeList, ts | .flashTest, ts
  | .poolFree, ts => ts = [] ∨ ts = [.semicolon]
  | .poolStats, ts => ts = []
  | .loop, ts => after .rBrace (after .lBrace ts) = [] ∧
      onlyAccesses true (after .lBrace ts) = true
  | _, ts => after .semicolon ts = []

/-- Where the tokens of a line have to stop. -/
def LineEnds : List Token -> Prop
  | .kwFn :: ts => closeAt 1 (after .lBrace ts) = []
  | .identifier id :: ts => (commandOf id).elim (after .semicolon ts = [])
      fun command => CommandEnds command ts
  | ts => after .semicolon ts = []

/-- What follows the semicolon, if there is one. -/
def afterOptional : List Token -> List Token
  | .semicolon :: ts => ts
  | ts => ts

/-- What a command leaves of the tokens after its word. -/
def commandRest : Command -> List Token -> List Token
  | .help, ts | .banner, ts | .sysAudit, ts | .bench, ts | .storeList, ts | .flashTest, ts
  | .poolFree, ts => afterOptional ts
  | .poolStats, ts => ts
  | .loop, ts => after .rBrace (after .lBrace ts)
  | _, ts => after .semicolon ts

/-- The tokens behind the statement that the line is accepted for. -/
def lineRest : List Token -> List Token
  | .kwFn :: ts => closeAt 1 (after .lBrace ts)
  | .identifier id :: ts =>
      (commandOf id).elim (after .semicolon ts) fun command => commandRest command ts
  | ts => after .semicolon ts

def commandSkips : Command -> List Token -> List Token
  | .loop, ts => steppedOver true (after .lBrace ts)
  | _, _ => []

/-- The tokens that a loop at top level steps over. -/
def lineSkips : List Token -> List Token
  | .identifier id :: ts => (commandOf id).elim [] fun command => commandSkips command ts
  | _ => []

/-- All tokens that an accepted line is accepted in spite of. -/
def ignoredTokens (ts : List Token) : List Token := lineSkips ts ++ lineRest ts

theorem afterOptional_eq_nil (ts : List Token) :
    afterOptional ts = [] ↔ ts = [] ∨ ts = [.semicolon] := by
  unfold afterOptional
  split
  · simp
  · rename_i hne
    exact ⟨Or.inl, fun h => h.resolve_right fun hts => hne [] hts⟩

theorem commandEnds_iff (command : Command) (ts : List Token) :
    CommandEnds command ts ↔ commandRest command ts = [] ∧ commandSkips command ts = [] := by
  cases command with
  | help | banner | sysAudit | bench | storeList | flashTest | poolFree =>
      exact (afterOptional_eq_nil ts).symm.trans (and_iff_left rfl).symm
  | loop => exact and_congr Iff.rfl (steppedOver_eq_nil true _).symm
  | _ => exact (and_iff_left rfl).symm

theorem lineEnds_iff (ts : List Token) :
    LineEnds ts ↔ lineRest ts = [] ∧ lineSkips ts = [] := by
  cases ts with
  | nil => exact iff_of_true rfl ⟨rfl, rfl⟩
  | cons t ts =>
      cases t with
      | identifier id =>
          show (commandOf id).elim (after .semicolon ts = [])
              (fun command => CommandEnds command ts) ↔
            (commandOf id).elim (after .semicolon ts) (fun command => commandRest command ts) = [] ∧
              (commandOf id).elim [] (fun command => commandSkips command ts) = []
          cases commandOf id with
          | none => exact (and_iff_left rfl).symm
          | some command => exact commandEnds_iff command ts
      | _ => exact (and_iff_left rfl).symm

/-- What is left of the line, and what was skipped. -/
def EndsAt (rest skipped : List Token) (r : Outcome × List Token) (s : ParseState) : Prop :=
  s.Has rest ∧ r.2 = skipped

theorem endsAt_skipsNothing {x : ParseM Outcome} {s : ParseState} {rest : List Token}
    (hx : Sat x s (fun _ s' => s'.Has rest) (fun _ _ => True)) :
    Sat (skipsNothing x) s (EndsAt rest []) (fun _ _ => True) :=
  sat_seq hx fun _ _ hs' => ⟨hs', rfl⟩

theorem endsAt_semicolon {x : ParseM Outcome} (hx : EndsStmt x) {s : ParseState}
    {ts : List Token} (hs : s.Has ts) :
    Sat (skipsNothing x) s (EndsAt (after .semicolon ts) []) (fun _ _ => True) :=
  endsAt_skipsNothing (sat_mono (hx s ts hs) (fun _ _ h => after_semicolon h) (fun _ _ h => h))

theorem sat_allowOptionalSemicolon {s : ParseState} {ts : List Token} (hs : s.Has ts) :
    Sat allowOptionalSemicolon s (fun _ s' => s'.Has (afterOptional ts)) (fun _ _ => True) := by
  refine sat_seq (has_peekToken hs) fun tok s1 hs1 => ?_
  cases ts with
  | nil =>
      rw [hs1.1]
      exact sat_ite (fun h => absurd h (by decide)) fun _ => hs1.2.tokens
  | cons t ts =>
      rw [show tok = t from hs1.1]
      refine sat_ite (fun hsemicolon => ?_) fun hsemicolon => ?_
      · refine sat_seq (has_nextToken hs1.2.tokens) fun _ s2 hs2 => ?_
        rw [hsemicolon]
        exact hs2.2.tokens
      · have hsame : afterOptional (t :: ts) = t :: ts := by
          unfold afterOptional
          split
          · rename_i heq
            exact absurd (List.cons.inj heq).1 hsemicolon
          · rfl
        rw [hsame]
        exact hs1.2.tokens

theorem endsAt_keyword (outcome : Outcome) {s : ParseState} {ts : List Token} (hs : s.Has ts) :
    Sat (skipsNothing (keywordCommand outcome)) s (EndsAt (afterOptional ts) [])
      (fun _ _ => True) := by
  unfold skipsNothing keywordCommand
  rw [bind_assoc]
  exact sat_seq (sat_allowOptionalSemicolon hs) fun _ _ hs' => ⟨hs', rfl⟩

theorem ends_parseLet (env : Env) (fuel : Nat) : EndsStmt (parseLet env fuel) :=
  ends_bind eats_expectName fun _ =>
    ends_bind (eats_expectToken (Token.plain_operator _)) fun _ =>
      ends_bind (eats_evalExpr env fuel none) fun _ => ends_then ends_expectSemicolon fun _ =>
        still_bind still_get fun _ => still_bind (related_liftExcept composes_still _) fun _ =>
          still_bind (still_setComp _) fun _ => still_pure _

theorem ends_nameCommand (outcome : NameBuf -> Outcome) : EndsStmt (nameCommand outcome) :=
  ends_bind eats_expectName fun _ => ends_then ends_expectSemicolon fun _ => still_pure _

theorem ends_valueCommand (env : Env) (fuel : Nat) (first : Token) :
    EndsStmt (valueCommand env fuel first) :=
  ends_bind (eats_evalExpr env fuel _) fun _ => ends_then ends_expectSemicolon fun _ =>
    still_bind (related_buildValueProgram onStream_still ⟨rfl, rfl⟩ _) fun _ => still_pure _

theorem ends_callOrValue (env : Env) (fuel : Nat) (id : List Byte) :
    EndsStmt (callOrValue env fuel id) := by
  have hbuild : Still (buildCallProgram env id) :=
    related_buildCallProgram onStream_still ⟨rfl, rfl⟩ (still_getFnBody id)
  exact ends_call (fun _ => still_bind hbuild fun _ => still_pure _)
    (ends_valueCommand env fuel _)

/-- Every other command ends with its semicolon. -/
theorem endsAt_runCommand (env : Env) (fuel : Nat) (command : Command)
    (hloop : command ≠ .loop) {s : ParseState} {ts : List Token} (hs : s.Has ts) :
    Sat (skipsNothing (runCommand env fuel command)) s
      (EndsAt (commandRest command ts) (commandSkips command ts)) (fun _ _ => True) := by
  have hterm := eats_atomicTerm env fuel
  have hchecked : forall (addr : Word) (outcome : Outcome), EndsStmt (do
      expectSemicolon
      requireAccess env addr
      pure outcome) := fun addr outcome =>
    ends_then ends_expectSemicolon fun _ => still_bind (still_requireAccess env addr) fun _ =>
      still_pure outcome
  cases command with
  | peek => exact endsAt_semicolon (ends_bind hterm fun _ => hchecked _ _) hs
  | poke =>
      exact endsAt_semicolon (ends_bind hterm fun _ =>
        ends_bind (eats_evalExpr env fuel none) fun _ => hchecked _ _) hs
  | regSetBit | regClrBit | pwm =>
      exact endsAt_semicolon (ends_bind hterm fun _ => ends_bind hterm fun _ => hchecked _ _) hs
  | pwmDuty | spiTx => exact endsAt_semicolon (ends_bind hterm fun _ => hchecked _ _) hs
  | poolAlloc =>
      exact endsAt_semicolon (ends_bind hterm fun _ =>
        ends_then ends_expectSemicolon fun _ => still_pure _) hs
  | capClaim | capDrop | store | load | spawn =>
      exact endsAt_semicolon (ends_nameCommand _) hs
  | help | banner | sysAudit | bench | storeList | flashTest | poolFree =>
      exact endsAt_keyword _ hs
  | poolStats => exact endsAt_skipsNothing hs
  | loop => exact absurd rfl hloop

theorem endsAt_loop (env : Env) (fuel : Nat) {s : ParseState} {ts : List Token} (hs : s.Has ts) :
    Sat (loopCommandSkips env fuel) s (EndsAt (commandRest .loop ts) (commandSkips .loop ts))
      (fun _ _ => True) := by
  have hloop : AfterOpen (fun r body s' => TopBlockEnds r.2 body s')
      (loopCommandSkips env fuel) := by
    refine afterOpen_bind (eats_loopCount env fuel) fun count => ?_
    refine afterOpen_brace fun s ts hs => ?_
    refine sat_still (still_setStream _) hs fun _ s1 hs1 => ?_
    refine sat_seq (topBlockEnds env fuel hs1) fun skipped s2 hs2 => ?_
    refine sat_seq (onStream_still.onGet s2) fun body s3 hs3 => ?_
    refine sat_seq (related_unroll onStream_still _ _ _ s3) fun _ s4 hs4 => ?_
    refine sat_seq (related_streamPush onStream_still _ s4) fun _ s5 hs5 => ?_
    refine sat_seq (related_takeProgram onStream_still _ s5) fun program s6 hs6 => ?_
    have hscan : s6.scan = s2.scan := by rw [hs6, hs5, hs4, hs3]
    exact ⟨has_of_scan hscan hs2.1, hs2.2⟩
  exact hloop s ts hs

theorem endsAt_parseCommand (env : Env) (fuel : Nat) (id : List Byte) {s : ParseState}
    {ts : List Token} (hs : s.Has ts) :
    Sat (parseCommandSkips env fuel id) s
      (EndsAt ((commandOf id).elim (after .semicolon ts) fun command => commandRest command ts)
        ((commandOf id).elim [] fun command => commandSkips command ts)) (fun _ _ => True) := by
  unfold parseCommandSkips parseCommand
  cases commandOf id with
  | none =>
      rw [if_neg (by intro h; cases h)]
      exact endsAt_semicolon (ends_callOrValue env fuel id) hs
  | some command =>
      by_cases hloop : command = .loop
      · rw [hloop, if_pos rfl]
        exact endsAt_loop env fuel hs
      · rw [if_neg (by intro h; exact hloop (Option.some.inj h))]
        exact endsAt_runCommand env fuel command hloop hs

theorem endsAt_parseLine (env : Env) (fuel : Nat) {s : ParseState} {ts : List Token}
    (hs : s.Has ts) :
    Sat (parseLineSkips env fuel) s (EndsAt (lineRest ts) (lineSkips ts)) (fun _ _ => True) := by
  refine sat_seq (has_nextToken hs) fun first s1 hs1 => ?_
  cases ts with
  | nil =>
      rw [hs1.1]
      trivial
  | cons t ts =>
      rw [show first = t from hs1.1]
      have hrest : s1.Has ts := hs1.2.tokens
      have hstmt : forall {x : ParseM Outcome}, EndsStmt x ->
          Sat (skipsNothing x) s1 (EndsAt (after .semicolon ts) []) (fun _ _ => True) :=
        fun hx => endsAt_semicolon hx hrest
      cases t with
      | kwLet => exact hstmt (ends_parseLet env fuel)
      | kwFn => exact endsAt_skipsNothing (afterOpen_parseFn env fuel s1 ts hrest)
      | identifier id => exact endsAt_parseCommand env fuel id hrest
      | literal v => exact hstmt (ends_valueCommand env fuel _)
      | operator op => exact hstmt (ends_valueCommand env fuel _)
      | lParen => exact hstmt (ends_valueCommand env fuel _)
      | _ => trivial

/-- What an accepted line leaves and skips can be told from its tokens. -/
theorem endsAt_of_ok {env : Env} {c : Compiler} {line : List Byte} {r : Outcome × List Token}
    {s : ParseState} (h : parseSkips env c line = .ok r s) :
    EndsAt (lineRest (tokensOf line)) (lineSkips (tokensOf line)) r s :=
  sat_of_ok (endsAt_parseLine env (parseFuel line) (has_startState c line)) h

/-- The line is accepted, all of its tokens were taken, and none of them was skipped. -/
def NothingIgnored (env : Env) (c : Compiler) (line : List Byte) : Prop :=
  exists outcome s, parseSkips env c line = .ok (outcome, []) s ∧ s.Has []

/-- An accepted line ignores nothing exactly if its tokens stop where they have to. -/
theorem nothingIgnored_iff {env : Env} {c : Compiler} {line : List Byte} {outcome : Outcome}
    {s : ParseState} (h : parse env c line = .ok outcome s) :
    NothingIgnored env c line ↔ LineEnds (tokensOf line) := by
  obtain ⟨skipped, hskips⟩ := parseSkips_of_ok h
  obtain ⟨hrest, hskipped⟩ := endsAt_of_ok hskips
  rw [lineEnds_iff, ← hskipped]
  constructor
  · rintro ⟨outcome', s', hskips', hnil⟩
    rw [hskips] at hskips'
    cases hskips'
    exact ⟨Cur.has_unique hrest hnil, rfl⟩
  · rintro ⟨hnil, hnone⟩
    rw [show skipped = [] from hnone] at hskips
    rw [hnil] at hrest
    exact ⟨outcome, s, hskips, hrest⟩

def isAccepted : EStateM.Result Abort ParseState α -> Bool
  | .ok _ _ => true
  | .error _ _ => false

theorem exists_of_isAccepted {r : EStateM.Result Abort ParseState α} (h : isAccepted r = true) :
    exists a s, r = .ok a s := by
  cases r with
  | ok a s => exact ⟨a, s, rfl⟩
  | error e s => cases h

/-- A function and a loop at top level, and nothing else. -/
theorem nothingIgnored_loops :
    (exists outcome s, parse Env.idle Compiler.new
        (ascii "fn f() \x7b loop 2 \x7b poke 0x20000000 1; \x7d \x7d") = .ok outcome s ∧
      NothingIgnored Env.idle Compiler.new
        (ascii "fn f() \x7b loop 2 \x7b poke 0x20000000 1; \x7d \x7d")) ∧
    exists outcome s, parse Env.idle Compiler.new
        (ascii "loop 2 \x7b poke 0x20000000 1; \x7d") = .ok outcome s ∧
      NothingIgnored Env.idle Compiler.new (ascii "loop 2 \x7b poke 0x20000000 1; \x7d") := by
  have hfn : exists outcome s, parse Env.idle Compiler.new
      (ascii "fn f() \x7b loop 2 \x7b poke 0x20000000 1; \x7d \x7d") = .ok outcome s :=
    exists_of_isAccepted (by decide +kernel)
  have hloop : exists outcome s, parse Env.idle Compiler.new
      (ascii "loop 2 \x7b poke 0x20000000 1; \x7d") = .ok outcome s :=
    exists_of_isAccepted (by decide +kernel)
  have hfnEnds : LineEnds [.kwFn, .identifier (ascii "f"), .lParen, .rParen, .lBrace,
      .identifier (ascii "loop"), .literal 2#32, .lBrace, .identifier (ascii "poke"),
      .literal 0x20000000#32, .literal 1#32, .semicolon, .rBrace, .rBrace] := rfl
  have hloopEnds : LineEnds [.identifier (ascii "loop"), .literal 2#32, .lBrace,
      .identifier (ascii "poke"), .literal 0x20000000#32, .literal 1#32, .semicolon,
      .rBrace] := ⟨rfl, rfl⟩
  obtain ⟨outcome, s, hfn⟩ := hfn
  obtain ⟨outcome', s', hloop⟩ := hloop
  exact ⟨⟨outcome, s, hfn, (nothingIgnored_iff hfn).mpr hfnEnds⟩,
    outcome', s', hloop, (nothingIgnored_iff hloop).mpr hloopEnds⟩

theorem not_nothingIgnored_of_skips {env : Env} {c : Compiler} {line : List Byte}
    {r : Outcome × List Token} {s : ParseState} {rest : List Token}
    (h : parseSkips env c line = .ok r s) (hrest : s.Has rest) (hne : rest ≠ [] ∨ r.2 ≠ []) :
    ¬ NothingIgnored env c line := by
  rintro ⟨outcome, s', hskips, hnil⟩
  rw [h] at hskips
  cases hskips
  rcases hne with hne | hne
  · exact hne (Cur.has_unique hrest hnil)
  · exact hne rfl

/-- `1; 2;` is accepted for its first statement, and a loop is accepted that steps over
all of its body. -/
theorem not_nothingIgnored_second :
    (exists outcome s, parse Env.idle Compiler.new (ascii "1; 2;") = .ok outcome s) ∧
      ¬ NothingIgnored Env.idle Compiler.new (ascii "1; 2;") ∧
      (exists outcome s, parse Env.idle Compiler.new (ascii "loop 2 { x; }") = .ok outcome s) ∧
      ¬ NothingIgnored Env.idle Compiler.new (ascii "loop 2 { x; }") := by
  refine ⟨⟨_, _, rfl⟩, ?_, ⟨_, _, rfl⟩, ?_⟩
  · have hskips : exists r s, parseSkips Env.idle Compiler.new (ascii "1; 2;") = .ok r s ∧
        s.Has [.literal 2#32, .semicolon] := ⟨_, _, rfl, rfl⟩
    obtain ⟨r, s, hskips, hrest⟩ := hskips
    exact not_nothingIgnored_of_skips hskips hrest (Or.inl (List.cons_ne_nil _ _))
  · have hskips : exists r s, parseSkips Env.idle Compiler.new (ascii "loop 2 { x; }") =
        .ok r s ∧ s.Has [] ∧ r.2 = [.identifier (ascii "x"), .semicolon] := ⟨_, _, rfl, rfl, rfl⟩
    obtain ⟨r, s, hskips, hrest, hskipped⟩ := hskips
    refine not_nothingIgnored_of_skips hskips hrest (Or.inr ?_)
    rw [hskipped]
    exact List.cons_ne_nil _ _

end Compilation
end HolyRust
