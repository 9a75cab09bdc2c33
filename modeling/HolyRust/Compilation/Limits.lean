import HolyRust.Foundation.Trail
import HolyRust.Compilation.LineEnds
import HolyRust.Compilation.ReachedPeeks
import HolyRust.Compilation.Tables

/-!
# Declared limits

The parser declares how many functions, symbols, words and loop rounds there may be, and
how deep loops may nest.  The last of these limits is never read: an accepted line nests
its loops as deep as it opens braces.  Loops in the tokens that an accepted line ignores
are held to no limit at all.  All the others hold in every state that lines and imports
lead to.
-/

namespace HolyRust
namespace Compilation

open Foundation

/-- Declared next to the other limits. -/
def maxLoopDepth : Nat := 4

/-!
## Depth of braces
-/

/-- The most braces that are open at a time, from `d` open ones on and until the last of
these is closed. -/
def deepest : Nat -> List Token -> Nat
  | 0, _ => 0
  | d + 1, [] => d + 1
  | d + 1, t :: ts =>
      if t = .rBrace then max (d + 1) (deepest d ts)
      else if t = .lBrace then deepest (d + 2) ts
      else deepest (d + 1) ts

theorem deepest_zero (ts : List Token) : deepest 0 ts = 0 := by
  cases ts <;> rfl

theorem le_deepest (d : Nat) (ts : List Token) : d ≤ deepest d ts := by
  induction ts generalizing d with
  | nil =>
      cases d with
      | zero => exact Nat.zero_le _
      | succ d => exact Nat.le_refl _
  | cons t ts ih =>
      cases d with
      | zero => exact Nat.zero_le _
      | succ d =>
          simp only [deepest]
          split
          · exact Nat.le_max_left _ _
          · split
            · exact Nat.le_of_succ_le (ih (d + 2))
            · exact ih (d + 1)

theorem deepest_plain (d : Nat) (t : Token) (ts : List Token) (h : t.Plain) :
    deepest (d + 1) (t :: ts) = deepest (d + 1) ts := by
  obtain ⟨_, hopen, hclose⟩ := h
  simp only [deepest]
  rw [if_neg hclose, if_neg hopen]

/-!
## Lines with their loops
-/

/-- A loop that was compiled, and how many loops it is in, with itself. -/
structure Loop where
  count : Word
  depth : Nat

/-- The deepest of the loops. -/
def depthOf (loops : List Loop) : Nat :=
  loops.foldr (fun l d => max l.depth d) 0

theorem depthOf_append (loops more : List Loop) :
    depthOf (loops ++ more) = max (depthOf loops) (depthOf more) := by
  induction loops with
  | nil => exact (Nat.zero_max _).symm
  | cons l loops ih =>
      show max l.depth (depthOf (loops ++ more)) = max (max l.depth (depthOf loops)) (depthOf more)
      rw [ih, Nat.max_assoc]

theorem depthOf_le {loops : List Loop} {d : Nat} :
    depthOf loops ≤ d ↔ forall l, l ∈ loops -> l.depth ≤ d := by
  induction loops with
  | nil => exact iff_of_true (Nat.zero_le _) (fun l hl => by cases hl)
  | cons l loops ih =>
      show max l.depth (depthOf loops) ≤ d ↔ _
      rw [Nat.max_le, ih, List.forall_mem_cons]

mutual

/-- `parseBodyStmt`, and the loops that it compiles; `around` of them are open. -/
def bodyStmtLoops (env : Env) : Nat -> Nat -> ParseM (List Loop)
  | 0, _ => throw .fuel
  | fuel + 1, around => do
      let tok <- nextToken
      match tok with
      | .identifier id =>
          if id = ascii "poke" then do
            pokeStmt env fuel
            pure []
          else if id = ascii "peek" then do
            peekStmt env fuel
            pure []
          else if id = ascii "loop" then do
            let count <- loopCount env fuel
            let before <- getStream
            expectToken .lBrace
            let inner <- blockLoops env fuel (around + 1)
            let after <- getStream
            unroll before.words.length (after.words.length - before.words.length)
              (count.toNat - 1)
            pure (⟨count, around + 1⟩ :: inner)
          else do
            let ahead <- peekToken
            if ahead = .lParen then do
              callTail
              spliceCall id
              pure []
            else do
              let _ <- scanning (fun c => evalExpr env c fuel (some (.identifier id)))
              expectSemicolon
              pure []
      | _ => reject .unexpectedToken

/-- `parseBlock`, and the loops that it compiles. -/
def blockLoops (env : Env) : Nat -> Nat -> ParseM (List Loop)
  | 0, _ => throw .fuel
  | fuel + 1, around => do
      let tok <- peekToken
      if tok = .rBrace then do
        let _ <- nextToken
        pure []
      else if tok = .eof then reject .unexpectedToken
      else do
        let loops <- bodyStmtLoops env fuel around
        let more <- blockLoops env fuel around
        pure (loops ++ more)

end

/-- The loops are only written down. -/
theorem bodyLoops_eq (env : Env) (fuel around : Nat) :
    (bodyStmtLoops env fuel around >>= fun _ => pure ()) = parseBodyStmt env fuel ∧
      (blockLoops env fuel around >>= fun _ => pure ()) = parseBlock env fuel := by
  induction fuel generalizing around with
  | zero => exact ⟨rfl, rfl⟩
  | succ fuel ih =>
      constructor
      · unfold bodyStmtLoops parseBodyStmt
        rw [bind_assoc]
        refine congrArg (nextToken >>= ·) (funext fun tok => ?_)
        cases tok with
        | identifier id =>
            dsimp only
            rw [← (ih (around + 1)).2]
            split
            · simp only [bind_assoc, pure_bind, bind_pure_unit]
            · split
              · simp only [bind_assoc, pure_bind, bind_pure_unit]
              · split
                · simp only [bind_assoc, pure_bind, bind_pure_unit]
                · rw [bind_assoc]
                  refine congrArg (peekToken >>= ·) (funext fun ahead => ?_)
                  split
                  · simp only [bind_assoc, pure_bind, bind_pure_unit]
                  · simp only [bind_assoc, pure_bind, bind_pure_unit]
        | _ => rfl
      · unfold blockLoops parseBlock
        rw [bind_assoc, ← (ih around).1, ← (ih around).2]
        refine congrArg (peekToken >>= ·) (funext fun tok => ?_)
        split
        · simp only [bind_assoc, pure_bind]
        · split
          · rfl
          · simp only [bind_assoc, pure_bind]

/-- `parseFn`, and the loops of the body. -/
def fnLoops (env : Env) (fuel : Nat) : ParseM (Outcome × List Loop) := do
  let name <- expectName
  expectToken .lParen
  expectToken .rParen
  expectToken .lBrace
  streamReset
  let loops <- blockLoops env fuel 0
  defineFn name
  pure (.fnDefined name, loops)

/-- `loopCommand` and its loop; a loop in its block is skipped like any other word. -/
def loopCommandLoops (env : Env) (fuel : Nat) : ParseM (Outcome × List Loop) := do
  let count <- loopCount env fuel
  expectToken .lBrace
  streamReset
  parseTopBlock env fuel
  let body <- getStream
  unroll 0 body.words.length (count.toNat - 1)
  streamHalt env
  let program <- takeProgram false
  pure (.run program, [⟨count, 1⟩])

/-- Everything else compiles no loop. -/
def withoutLoops (x : ParseM Outcome) : ParseM (Outcome × List Loop) := do
  let outcome <- x
  pure (outcome, [])

def lineLoops (env : Env) (fuel : Nat) : ParseM (Outcome × List Loop) := do
  let first <- nextToken
  match first with
  | .eof => reject .emptyLine
  | .kwLet => withoutLoops (parseLet env fuel)
  | .kwFn => fnLoops env fuel
  | .identifier id =>
      if commandOf id = some .loop then loopCommandLoops env fuel
      else withoutLoops (parseCommand env fuel id)
  | .literal v => withoutLoops (valueCommand env fuel (.literal v))
  | .operator op => withoutLoops (valueCommand env fuel (.operator op))
  | .lParen => withoutLoops (valueCommand env fuel .lParen)
  | .error msg => reject (.lexError msg)
  | _ => reject .unexpectedToken

/-- `parse`, and the loops that were compiled. -/
def parseLoops (env : Env) (c : Compiler) (line : List Byte) :
    EStateM.Result Abort ParseState (Outcome × List Loop) :=
  lineLoops env (parseFuel line) (startState c line)

theorem withoutLoops_eq (x : ParseM Outcome) : (withoutLoops x >>= fun r => pure r.1) = x := by
  unfold withoutLoops
  rw [bind_assoc]
  exact bind_pure x

theorem lineLoops_eq (env : Env) (fuel : Nat) :
    (lineLoops env fuel >>= fun r => pure r.1) = parseLine env fuel := by
  unfold lineLoops parseLine
  rw [bind_assoc]
  refine congrArg (nextToken >>= ·) (funext fun first => ?_)
  cases first with
  | kwLet => exact withoutLoops_eq _
  | kwFn =>
      show (fnLoops env fuel >>= fun r => pure r.1) = parseFn env fuel
      unfold fnLoops parseFn
      simp only [← (bodyLoops_eq env fuel 0).2, bind_assoc, pure_bind]
  | identifier id =>
      dsimp only
      split
      · rename_i hloop
        unfold parseCommand
        rw [hloop]
        show (loopCommandLoops env fuel >>= fun r => pure r.1) = loopCommand env fuel
        unfold loopCommandLoops loopCommand
        simp only [bind_assoc, pure_bind]
      · exact withoutLoops_eq _
  | literal v => exact withoutLoops_eq _
  | operator op => exact withoutLoops_eq _
  | lParen => exact withoutLoops_eq _
  | _ => rfl

theorem parseLoops_of_ok {env : Env} {c : Compiler} {line : List Byte} {outcome : Outcome}
    {s : ParseState} (h : parse env c line = .ok outcome s) :
    exists loops, parseLoops env c line = .ok (outcome, loops) s :=
  exists_of_fst_ok (lineLoops_eq env (parseFuel line)) h

/-!
## Loops and braces
-/

/-- The count is one that the parser lets pass. -/
def Loop.CountOk (l : Loop) : Prop :=
  1 ≤ l.count.toNat ∧ l.count.toNat ≤ maxLoopUnroll

theorem returns_loopCount (env : Env) (fuel : Nat) :
    Returns (fun count => 1 ≤ count.toNat ∧ count.toNat ≤ maxLoopUnroll) (loopCount env fuel) := by
  refine returns_bind fun count => ?_
  intro s
  refine sat_ite (fun _ => trivial) fun hrange => ?_
  rw [not_or] at hrange
  refine ⟨Nat.one_le_iff_ne_zero.mpr fun hzero => hrange.1 ?_, Nat.not_lt.mp hrange.2⟩
  exact BitVec.eq_of_toNat_eq hzero

/-- In a body with `around` open loops, the loops of the statement are as deep as its
braces. -/
def LoopsNest (around : Nat) (x : ParseM (List Loop)) : Prop :=
  forall s ts, s.Has ts -> Sat x s
    (fun loops s' => (forall l, l ∈ loops -> l.CountOk) ∧ exists rest, s'.Has rest ∧
      deepest (around + 1) ts = max (depthOf loops + 1) (deepest (around + 1) rest))
    (fun _ _ => True)

/-- A block also closes the brace of the loop or function that it belongs to. -/
def BlockNests (around : Nat) (x : ParseM (List Loop)) : Prop :=
  forall s ts, s.Has ts -> Sat x s
    (fun loops s' => (forall l, l ∈ loops -> l.CountOk) ∧ exists rest, s'.Has rest ∧
      deepest (around + 1) ts = max (max (around + 1) (depthOf loops + 1)) (deepest around rest))
    (fun _ _ => True)

/-- A statement that is no loop. -/
theorem loopsNest_of_ends {x : ParseM (List Loop)} (hx : EndsStmt x)
    (hnone : Returns (fun loops => loops = []) x) (around : Nat) : LoopsNest around x := by
  intro s ts hs
  refine sat_mono (sat_and (hx s ts hs) (hnone s)) ?_ (fun _ _ _ => trivial)
  rintro _ s' ⟨hs', rfl⟩
  obtain ⟨rest, hrest, hdeepest⟩ := stmtEnd_skips deepest_plain (fun _ _ => rfl) hs'
  refine ⟨List.forall_mem_nil _, rest, hrest, ?_⟩
  rw [hdeepest, Nat.max_eq_right]
  exact Nat.le_trans (Nat.le_add_left 1 around) (le_deepest _ rest)

/-- A loop and its block. -/
theorem loopsNest_loop {env : Env} {fuel around : Nat}
    (hblock : BlockNests (around + 1) (blockLoops env fuel (around + 1))) :
    LoopsNest around (do
      let count <- loopCount env fuel
      let before <- getStream
      expectToken .lBrace
      let inner <- blockLoops env fuel (around + 1)
      let after <- getStream
      unroll before.words.length (after.words.length - before.words.length) (count.toNat - 1)
      pure (⟨count, around + 1⟩ :: inner)) := by
  intro s ts hs
  have hcount := sat_mono (sat_and (eats_loopCount env fuel s ts hs) (returns_loopCount env fuel s))
    (fun _ _ h => h) (fun _ _ _ => trivial)
  refine sat_seq hcount fun count s1 hs1 => ?_
  obtain ⟨⟨used, ts1, rfl, hused, hts1⟩, hrange⟩ := hs1
  refine sat_still onStream_still.onGet hts1 fun before s2 hs2 => ?_
  refine sat_seq (took_expectToken hs2 (by decide)) fun _ s3 hs3 => ?_
  obtain ⟨ts3, rfl, hs3⟩ := hs3
  refine sat_seq (hblock s3 ts3 hs3.tokens) fun inner s4 hs4 => ?_
  obtain ⟨hinner, rest, hrest, hdeepest⟩ := hs4
  refine sat_still onStream_still.onGet hrest fun after s5 hs5 => ?_
  refine sat_still (related_unroll onStream_still _ _ _) hs5 fun _ s6 hs6 => ?_
  refine ⟨List.forall_mem_cons.mpr ⟨hrange, hinner⟩, rest, hs6, ?_⟩
  rw [skip_append (deepest_plain around) _ hused]
  show deepest (around + 2) ts3 = max (max (around + 1) (depthOf inner) + 1) _
  rw [hdeepest]
  lia

theorem loopsNest_ite {p : Prop} [Decidable p] {around : Nat} {x y : ParseM (List Loop)}
    (hx : LoopsNest around x) (hy : LoopsNest around y) :
    LoopsNest around (if p then x else y) :=
  fun s ts hs => sat_ite (fun _ => hx s ts hs) (fun _ => hy s ts hs)

/-- A token that the continuation only accepts when it is plain. -/
theorem loopsNest_nextToken {around : Nat} {f : Token -> ParseM (List Loop)}
    (hf : forall tok, tok.Plain -> LoopsNest around (f tok))
    (hbad : forall tok s, ¬ tok.Plain -> Sat (f tok) s (fun _ _ => False) (fun _ _ => True)) :
    LoopsNest around (nextToken >>= f) := by
  intro s ts hs
  refine sat_seq (has_nextToken hs) fun tok s1 hs1 => ?_
  by_cases hplain : tok.Plain
  · have hdeepest : deepest (around + 1) ts = deepest (around + 1) ts.tail := by
      cases ts with
      | nil => rfl
      | cons t ts =>
          rw [show tok = t from hs1.1] at hplain
          exact deepest_plain around t ts hplain
    rw [hdeepest]
    exact hf tok hplain s1 ts.tail hs1.2.tokens
  · exact sat_mono (hbad tok s1 hplain) (fun _ _ h => h.elim) (fun _ _ h => h)

theorem loopsNest_bodyStmt_succ {env : Env} {fuel around : Nat}
    (hblock : BlockNests (around + 1) (blockLoops env fuel (around + 1))) :
    LoopsNest around (bodyStmtLoops env (fuel + 1) around) := by
  unfold bodyStmtLoops
  refine loopsNest_nextToken ?_ ?_
  · intro tok _
    cases tok with
    | identifier id =>
        refine loopsNest_ite ?_ (loopsNest_ite ?_ (loopsNest_ite (loopsNest_loop hblock) ?_))
        · exact loopsNest_of_ends (ends_then (ends_pokeStmt env fuel) fun _ => still_pure _)
            (returns_bind fun _ => returns_pure rfl) around
        · exact loopsNest_of_ends (ends_then (ends_peekStmt env fuel) fun _ => still_pure _)
            (returns_bind fun _ => returns_pure rfl) around
        · have hsplice : Still (spliceCall id) :=
            related_spliceCall onStream_still (still_getFnBody id)
          refine loopsNest_of_ends (ends_call (fun _ => still_bind hsplice fun _ => still_pure _)
            (ends_bind (eats_evalExpr env fuel _) fun _ =>
              ends_then ends_expectSemicolon fun _ => still_pure _)) ?_ around
          exact returns_bind fun _ => returns_ite
            (returns_bind fun _ => returns_bind fun _ => returns_pure rfl)
            (returns_bind fun _ => returns_bind fun _ => returns_pure rfl)
    | _ => exact fun _ _ _ => trivial
  · intro tok s hplain
    cases tok with
    | identifier id => exact absurd (Token.plain_identifier id) hplain
    | _ => trivial

theorem blockNests_succ {env : Env} {fuel around : Nat}
    (hstmt : LoopsNest around (bodyStmtLoops env fuel around))
    (hblock : BlockNests around (blockLoops env fuel around)) :
    BlockNests around (blockLoops env (fuel + 1) around) := by
  intro s ts hs
  unfold blockLoops
  refine sat_seq (has_peekToken hs) fun tok s1 hs1 => ?_
  refine sat_ite (fun hclose => ?_) (fun _ => sat_ite (fun _ => trivial) fun _ => ?_)
  · refine sat_seq (has_nextToken hs1.2.tokens) fun _ s2 hs2 => ?_
    cases ts with
    | nil => exact absurd (hclose.symm.trans hs1.1) (by decide)
    | cons t ts =>
        rw [show t = .rBrace from hs1.1.symm.trans hclose]
        refine ⟨List.forall_mem_nil _, ts, hs2.2.tokens, ?_⟩
        show max (around + 1) (deepest around ts) = max (max (around + 1) 1) (deepest around ts)
        rw [Nat.max_eq_left (Nat.le_add_left 1 around)]
  · refine sat_seq (hstmt s1 ts hs1.2.tokens) fun loops s2 hs2 => ?_
    obtain ⟨hloops, rest, hrest, hdeepest⟩ := hs2
    refine sat_seq (hblock s2 rest hrest) fun more s3 hs3 => ?_
    obtain ⟨hmore, rest', hrest', hdeepest'⟩ := hs3
    refine ⟨List.forall_mem_append.mpr ⟨hloops, hmore⟩, rest', hrest', ?_⟩
    rw [hdeepest, hdeepest', depthOf_append]
    lia

theorem loops_nest (env : Env) (fuel around : Nat) :
    LoopsNest around (bodyStmtLoops env fuel around) ∧
      BlockNests around (blockLoops env fuel around) := by
  induction fuel generalizing around with
  | zero => exact ⟨fun _ _ _ => trivial, fun _ _ _ => trivial⟩
  | succ fuel ih =>
      exact ⟨loopsNest_bodyStmt_succ (ih (around + 1)).2,
        blockNests_succ (ih around).1 (ih around).2⟩

/-- The most braces that a function body opens at a time, its own among them. -/
def braceDepth : List Token -> Nat
  | .kwFn :: ts => deepest 1 (after .lBrace ts)
  | _ => 0

/-- What is known about the loops of an accepted line. -/
structure LoopsFit (ts : List Token) (loops : List Loop) : Prop where
  counts : forall l, l ∈ loops -> l.CountOk
  depth : depthOf loops ≤ maxLoopDepth ↔ braceDepth ts ≤ maxLoopDepth + 1

theorem loopsFit_fn (env : Env) (fuel : Nat) {s : ParseState} {ts : List Token} (hs : s.Has ts) :
    Sat (fnLoops env fuel) s (fun r _ => LoopsFit (.kwFn :: ts) r.2) (fun _ _ => True) := by
  have hopen : AfterOpen (fun r body _ => (forall l, l ∈ r.2 -> l.CountOk) ∧
      deepest 1 body = depthOf r.2 + 1) (fnLoops env fuel) := by
    refine afterOpen_bind eats_expectName fun name => ?_
    refine afterOpen_bind (eats_expectToken (by decide)) fun _ => ?_
    refine afterOpen_bind (eats_expectToken (by decide)) fun _ => ?_
    refine afterOpen_brace fun s ts hs => ?_
    refine sat_still (still_setStream _) hs fun _ s1 hs1 => ?_
    refine sat_seq ((loops_nest env fuel 0).2 s1 ts hs1) fun loops s2 hs2 => ?_
    obtain ⟨hloops, rest, _, hdeepest⟩ := hs2
    refine sat_seq (sat_mono (still_defineFn name s2) (fun _ _ _ => trivial) (fun _ _ h => h))
      fun _ _ (_ : True) => ⟨hloops, ?_⟩
    rw [hdeepest, deepest_zero]
    show max (max 1 (depthOf loops + 1)) 0 = depthOf loops + 1
    lia
  refine sat_mono (hopen s ts hs) ?_ (fun _ _ h => h)
  rintro r s' ⟨hcounts, hdeepest⟩
  refine ⟨hcounts, ?_⟩
  show _ ↔ deepest 1 (after .lBrace ts) ≤ maxLoopDepth + 1
  rw [hdeepest, Nat.add_le_add_iff_right]

/-- A line that opens no body. -/
theorem loopsFit_of_shallow {ts : List Token} {loops : List Loop} (hts : braceDepth ts = 0)
    (hcounts : forall l, l ∈ loops -> l.CountOk) (hdepth : depthOf loops ≤ 1) :
    LoopsFit ts loops where
  counts := hcounts
  depth := by
    rw [hts]
    exact iff_of_true (hdepth.trans (by decide)) (Nat.zero_le _)

theorem loopsFit_withoutLoops (x : ParseM Outcome) {ts : List Token} (hts : braceDepth ts = 0)
    (s : ParseState) :
    Sat (withoutLoops x) s (fun r _ => LoopsFit ts r.2) (fun _ _ => True) :=
  sat_seq (returns_any x s) fun _ _ _ =>
    loopsFit_of_shallow hts (List.forall_mem_nil _) (Nat.zero_le 1)

theorem loopsFit_loopCommand (env : Env) (fuel : Nat) {ts : List Token} (hts : braceDepth ts = 0)
    (s : ParseState) :
    Sat (loopCommandLoops env fuel) s (fun r _ => LoopsFit ts r.2) (fun _ _ => True) := by
  refine sat_seq (returns_loopCount env fuel s) fun count s1 hcount => ?_
  have hfit : LoopsFit ts [⟨count, 1⟩] :=
    loopsFit_of_shallow hts (by simpa [Loop.CountOk] using hcount) (Nat.le_refl 1)
  have hreturns : Returns (fun r : Outcome × List Loop => LoopsFit ts r.2) (do
      expectToken .lBrace
      streamReset
      parseTopBlock env fuel
      let body <- getStream
      unroll 0 body.words.length (count.toNat - 1)
      streamHalt env
      let program <- takeProgram false
      pure (Outcome.run program, [⟨count, 1⟩])) :=
    returns_bind fun _ => returns_bind fun _ => returns_bind fun _ => returns_bind fun _ =>
      returns_bind fun _ => returns_bind fun _ => returns_bind fun _ => returns_pure hfit
  exact hreturns s1

theorem loopsFit_line (env : Env) (fuel : Nat) {s : ParseState} {ts : List Token}
    (hs : s.Has ts) :
    Sat (lineLoops env fuel) s (fun r _ => LoopsFit ts r.2) (fun _ _ => True) := by
  refine sat_seq (has_nextToken hs) fun first s1 hs1 => ?_
  cases ts with
  | nil =>
      rw [hs1.1]
      trivial
  | cons t ts =>
      rw [show first = t from hs1.1]
      cases t with
      | kwFn => exact loopsFit_fn env fuel hs1.2.tokens
      | identifier id =>
          exact sat_ite (fun _ => loopsFit_loopCommand env fuel rfl s1)
            (fun _ => loopsFit_withoutLoops _ rfl s1)
      | kwLet => exact loopsFit_withoutLoops _ rfl s1
      | literal v => exact loopsFit_withoutLoops _ rfl s1
      | operator op => exact loopsFit_withoutLoops _ rfl s1
      | lParen => exact loopsFit_withoutLoops _ rfl s1
      | _ => trivial

theorem parseLoops_fit {env : Env} {c : Compiler} {line : List Byte} {r : Outcome × List Loop}
    {s : ParseState} (h : parseLoops env c line = .ok r s) : LoopsFit (tokensOf line) r.2 := by
  have hfit := sat_of_ok (loopsFit_line env (parseFuel line) (has_startState c line)) h
  exact hfit

/-!
## Loops that are ignored
-/

/-- A `loop` word: how many braces are open before it, and the tokens behind it. -/
structure LoopWord where
  around : Nat
  behind : List Token

/-- The `loop` words of the tokens, with `d` braces open before them. -/
def loopWords : Nat -> List Token -> List LoopWord
  | _, [] => []
  | d, t :: ts =>
      if t = .lBrace then loopWords (d + 1) ts
      else if t = .rBrace then loopWords (d - 1) ts
      else if t = .identifier (ascii "loop") then ⟨d, ts⟩ :: loopWords d ts
      else loopWords d ts

theorem mem_of_mem_loopWords {w : LoopWord} {d : Nat} {ts : List Token} (h : w ∈ loopWords d ts) :
    .identifier (ascii "loop") ∈ ts := by
  induction ts generalizing d with
  | nil => cases h
  | cons t ts ih =>
      simp only [loopWords] at h
      split at h
      · exact List.mem_cons_of_mem t (ih h)
      · split at h
        · exact List.mem_cons_of_mem t (ih h)
        · split at h
          · rename_i hloop
            rw [hloop]
            exact List.mem_cons_self
          · exact List.mem_cons_of_mem t (ih h)

/-- The word is that of a loop: a term with a value is its count, and a brace follows. -/
def LoopWord.Opens (env : Env) (c : Compiler) (fuel : Nat) (w : LoopWord) (l : Loop) : Prop :=
  l.depth = w.around + 1 ∧ exists p,
    (walkAtomic env c.lookupSymbol fuel ⟨w.behind, 0⟩).2 = some (l.count, p) ∧
      p.tokens.head? = some .lBrace

/-- A loop in the tokens that an accepted line ignores.  What a block at top level skips
stands in that block, and the brace that closes it comes next. -/
def IgnoredLoop (env : Env) (c : Compiler) (text : List Byte) (outcome : Outcome)
    (s : ParseState) (l : Loop) : Prop :=
  exists skipped rest w, parseSkips env c text = .ok (outcome, skipped) s ∧ s.Has rest ∧
    w ∈ loopWords 1 (skipped ++ .rBrace :: rest) ∧ w.Opens env c (parseFuel text) l

/-- The tokens that are ignored can be told from the line. -/
theorem mem_ignoredTokens {env : Env} {c : Compiler} {text : List Byte} {outcome : Outcome}
    {s : ParseState} {l : Loop} (h : IgnoredLoop env c text outcome s l) :
    .identifier (ascii "loop") ∈ ignoredTokens (tokensOf text) := by
  obtain ⟨skipped, rest, w, hskips, hrest, hw, _⟩ := h
  obtain ⟨hends, hskipped⟩ := endsAt_of_ok hskips
  rw [Cur.has_unique hrest hends, show skipped = lineSkips (tokensOf text) from hskipped] at hw
  have hmem := mem_of_mem_loopWords hw
  rw [List.mem_append, List.mem_cons] at hmem
  unfold ignoredTokens
  rw [List.mem_append]
  rcases hmem with hmem | hmem | hmem
  · exact Or.inl hmem
  · cases hmem
  · exact Or.inr hmem

/-!
## Tables
-/

/-- The names of the functions that are defined. -/
def Compiler.fnNames (c : Compiler) : List (List Byte) :=
  (List.finRange maxFns).filterMap fun i =>
    if c.fnAllocated i then some (c.fns i).name.bytes else none

/-- The names of the symbols that are bound. -/
def Compiler.symbolNames (c : Compiler) : List (List Byte) :=
  (List.finRange symbolSlots).filterMap fun i => (c.symbols i).map fun s => s.name.bytes

/-- The limits of what the compiler keeps. -/
structure TablesWithin (c : Compiler) : Prop where
  fns : c.fnNames.length ≤ maxFns
  fnNames : forall name, name ∈ c.fnNames -> name ≠ [] ∧ name.length ≤ nameMax
  fnsDistinct : c.fnNames.Nodup
  bodies : forall i, (c.fns i).body.length ≤ fnBodyWords
  symbols : c.symbolNames.length ≤ symbolSlots
  symbolsDistinct : c.symbolNames.Nodup

/-- No function is defined in two slots. -/
def Compiler.FnsApart (c : Compiler) : Prop :=
  forall i j, c.fnAllocated i = true -> c.fnAllocated j = true ->
    (c.fns i).name.bytes = (c.fns j).name.bytes -> i = j

/-- The invariant behind the limits. -/
structure Compiler.Sound (c : Compiler) : Prop where
  fnsApart : c.FnsApart
  probed : c.Probed
  namesApart : c.NamesApart

theorem mem_fnNames {c : Compiler} {name : List Byte} :
    name ∈ c.fnNames ↔ exists i, c.fnAllocated i = true ∧ (c.fns i).name.bytes = name := by
  unfold Compiler.fnNames
  simp only [List.mem_filterMap, List.mem_finRange, true_and, Option.ite_none_right_eq_some,
    Option.some.injEq]

theorem tablesWithin_of_sound {c : Compiler} (h : c.Sound) : TablesWithin c where
  fns := by
    refine le_trans (List.length_filterMap_le _ _) ?_
    rw [List.length_finRange]
  fnNames := by
    intro name hname
    obtain ⟨i, halloc, rfl⟩ := mem_fnNames.mp hname
    exact ⟨List.ne_nil_of_length_pos (of_decide_eq_true halloc), (c.fns i).name.length_le⟩
  fnsDistinct := by
    refine List.Nodup.filterMap ?_ (List.nodup_finRange maxFns)
    intro i j name hi hj
    simp only [Option.mem_def, Option.ite_none_right_eq_some, Option.some.injEq] at hi hj
    exact h.fnsApart i j hi.1 hj.1 (hi.2.trans hj.2.symm)
  bodies := fun i => (c.fns i).length_le
  symbols := by
    refine le_trans (List.length_filterMap_le _ _) ?_
    rw [List.length_finRange]
  symbolsDistinct := by
    refine List.Nodup.filterMap ?_ (List.nodup_finRange symbolSlots)
    intro i j name hi hj
    simp only [Option.mem_def, Option.map_eq_some_iff] at hi hj
    obtain ⟨s, hs, hname⟩ := hi
    obtain ⟨s', hs', hname'⟩ := hj
    exact h.namesApart i j s s' hs hs' (hname.trans hname'.symm)

theorem sound_new : Compiler.new.Sound where
  fnsApart := by
    intro i j hi
    cases hi
  probed := by
    intro i s hs
    cases hs
  namesApart := by
    intro i j s s' hs
    cases hs

theorem sound_of_sameTables {c c' : Compiler} (hc : c.Sound) (h : SameTables c c') :
    c'.Sound := by
  rw [eq_withStream h]
  exact ⟨hc.fnsApart, hc.probed, hc.namesApart⟩

theorem sound_insert {c c' : Compiler} {name : NameBuf} {value : Word} (hc : c.Sound)
    (h : c.insertSymbol name value = .ok c') : c'.Sound where
  fnsApart := by
    unfold Compiler.FnsApart Compiler.fnAllocated
    rw [fns_insert h]
    exact hc.fnsApart
  probed := probed_insert hc.probed h
  namesApart := namesApart_insert hc.probed hc.namesApart h

/-- A free slot is only given to a name that no function has. -/
theorem sound_setFn {c : Compiler} {name : NameBuf} {i : Fin maxFns} {slot : FnSlot}
    (hc : c.Sound) (halloc : c.allocFnSlot name = .ok i) (hslot : slot.name = name) :
    (c.setFn i slot).Sound where
  fnsApart := by
    obtain ⟨hfind, _⟩ := allocFnSlot_ok halloc
    have hfresh : forall k, c.fnAllocated k = true -> (c.fns k).name.bytes ≠ name.bytes := by
      intro k hk hname
      have hnone := List.find?_eq_none.mp hfind k (List.mem_finRange k)
      exact hnone (by rw [hk, hname]; simp)
    have hold : forall k, k ≠ i -> (c.setFn i slot).fnAllocated k = true ->
        c.fnAllocated k = true ∧ ((c.setFn i slot).fns k).name = (c.fns k).name := by
      intro k hk halloc
      have hfns : (c.setFn i slot).fns k = c.fns k := if_neg hk
      unfold Compiler.fnAllocated at halloc
      rw [hfns] at halloc ⊢
      exact ⟨halloc, rfl⟩
    have hnew : ((c.setFn i slot).fns i).name = name := by
      rw [show (c.setFn i slot).fns i = slot from if_pos rfl, hslot]
    intro j k hj hk hname
    by_cases hji : j = i
    · by_cases hki : k = i
      · rw [hji, hki]
      · obtain ⟨hk, hkname⟩ := hold k hki hk
        rw [hji, hnew, hkname] at hname
        exact absurd hname.symm (hfresh k hk)
    · obtain ⟨hj, hjname⟩ := hold j hji hj
      by_cases hki : k = i
      · rw [hki, hnew, hjname] at hname
        exact absurd hname (hfresh j hj)
      · obtain ⟨hk, hkname⟩ := hold k hki hk
        rw [hjname, hkname] at hname
        exact hc.fnsApart j k hj hk hname
  probed := hc.probed
  namesApart := hc.namesApart

theorem sound_effect {c c' : Compiler} {outcome : Outcome} (hc : c.Sound)
    (h : Effect c outcome c') : c'.Sound := by
  cases outcome with
  | bound name value => exact sound_insert hc h.2
  | fnDefined name =>
      obtain ⟨_, i, hlength, halloc, hset⟩ := h
      rw [hset]
      have hstream : (c.withStream c'.stream).Sound := ⟨hc.fnsApart, hc.probed, hc.namesApart⟩
      exact sound_setFn hstream halloc rfl
  | _ => exact sound_of_sameTables hc h

/-- Every use of the compiler keeps the invariant. -/
theorem sound_run {c : Compiler} (hc : c.Sound) (use : Use) : (use.run c).2.Sound := by
  cases use with
  | line env text =>
      show (lineReply (parse env c text)).2.Sound
      cases hparse : parse env c text with
      | ok outcome s => exact sound_effect hc (parse_effect hparse)
      | error e s => exact sound_of_sameTables hc (sameTables_of_error hparse)
  | importFn name words =>
      show (importReply (importFnInto name words c)).2.Sound
      rw [importFnInto_eq]
      cases himport : c.importFn name words with
      | error e => exact hc
      | ok c' =>
          obtain ⟨nb, i, h, halloc, rfl⟩ := importFn_ok himport
          exact sound_setFn hc halloc rfl
  | exportFn name capacity => exact hc

/-!
## Whole runs
-/

/-- Lines and imports one after another, each with any registry and memory. -/
abbrev Uses : List (Transition Compiler Use) -> Compiler -> Prop :=
  Trail (fun c use c' => (use.run c).2 = c') Compiler.new

/-- The line is accepted. -/
def Use.Accepted (c : Compiler) : Use -> Prop
  | .line env text => exists outcome s, parse env c text = .ok outcome s
  | _ => False

/-- The limits of a loop. -/
def Loop.Within (l : Loop) : Prop :=
  l.CountOk ∧ l.depth ≤ maxLoopDepth

/-- The limits of an accepted line, for the loops that it compiles and those that it
ignores. -/
def Use.Within (c : Compiler) : Use -> Prop
  | .line env text => forall outcome s, parse env c text = .ok outcome s ->
      (forall program, outcome = .run program -> program.stream.words.length ≤ maxStreamWords) ∧
        (exists loops, parseLoops env c text = .ok (outcome, loops) s ∧
          forall l, l ∈ loops -> l.Within) ∧
        forall l, IgnoredLoop env c text outcome s l -> l.Within
  | _ => True

/-- At most four loops fit between the braces of a function. -/
def Use.FewBraces : Use -> Prop
  | .line _ text => braceDepth (tokensOf text) ≤ maxLoopDepth + 1
  | _ => True

/-- No `loop` is among the tokens that are ignored. -/
def Use.LoopsCompiled : Use -> Prop
  | .line _ text => .identifier (ascii "loop") ∉ ignoredTokens (tokensOf text)
  | _ => True

structure Use.Shallow (use : Use) : Prop where
  fewBraces : use.FewBraces
  compiled : use.LoopsCompiled

/-- All limits, in every state and for every line of a run. -/
structure RunWithin (past : List (Transition Compiler Use)) (c : Compiler) : Prop where
  reached : TablesWithin c
  states : forall tr, tr ∈ past -> TablesWithin tr.before
  lines : forall tr, tr ∈ past -> tr.label.Within tr.before

theorem within_of_shallow {use : Use} (h : use.Shallow) (c : Compiler) : use.Within c := by
  cases use with
  | line env text =>
      intro outcome s hparse
      obtain ⟨loops, hloops⟩ := parseLoops_of_ok hparse
      have hfit := parseLoops_fit hloops
      have hdepth := depthOf_le.mp (hfit.depth.mpr h.fewBraces)
      refine ⟨fun program _ => program.stream.length_le,
        ⟨loops, hloops, fun l hl => ⟨hfit.counts l hl, hdepth l hl⟩⟩, fun l hl => ?_⟩
      exact absurd (mem_ignoredTokens hl) h.compiled
  | importFn name words => trivial
  | exportFn name capacity => trivial

theorem fewBraces_of_within {use : Use} {c : Compiler} (haccepted : use.Accepted c)
    (h : use.Within c) : use.FewBraces := by
  cases use with
  | line env text =>
      obtain ⟨outcome, s, hparse⟩ := haccepted
      obtain ⟨_, ⟨loops, hloops, hwithin⟩, _⟩ := h outcome s hparse
      exact (parseLoops_fit hloops).depth.mp (depthOf_le.mpr fun l hl => (hwithin l hl).2)
  | importFn name words => trivial
  | exportFn name capacity => trivial

theorem tablesWithin_of_uses {past : List (Transition Compiler Use)} {c : Compiler}
    (hrun : Uses past c) :
    (forall tr, tr ∈ past -> TablesWithin tr.before) ∧ TablesWithin c := by
  have h := Trail.forall_mem Compiler.Sound (fun tr => TablesWithin tr.before) (fun _ => True)
    sound_new
    (by
      rintro c use c' hc rfl _
      exact ⟨tablesWithin_of_sound hc, sound_run hc use⟩)
    hrun (fun _ _ => trivial)
  exact ⟨h.1, tablesWithin_of_sound h.2⟩

/-- In a run of shallow lines that ignore no loop all limits hold; and where they hold,
every accepted line is shallow. -/
theorem runWithin_of_shallow {past : List (Transition Compiler Use)} {c : Compiler}
    (hrun : Uses past c) :
    ((forall tr, tr ∈ past -> tr.label.Shallow) -> RunWithin past c) ∧
      (RunWithin past c -> forall tr, tr ∈ past -> tr.label.Accepted tr.before ->
        tr.label.FewBraces) := by
  obtain ⟨hstates, hreached⟩ := tablesWithin_of_uses hrun
  constructor
  · intro hshallow
    exact ⟨hreached, hstates, fun tr htr => within_of_shallow (hshallow tr htr) tr.before⟩
  · intro hwithin tr htr haccepted
    exact fewBraces_of_within haccepted (hwithin.lines tr htr)

/-- A line in the run of that line alone. -/
theorem uses_line (env : Env) (text : List Byte) :
    Uses [⟨Compiler.new, .line env text, ((Use.line env text).run Compiler.new).2⟩]
      ((Use.line env text).run Compiler.new).2 :=
  Trail.snoc Trail.nil rfl

theorem accepted_of_leftover {env : Env} {c : Compiler} {text : List Byte}
    (h : leftover (parse env c text) = none) : (Use.line env text).Accepted c := by
  show exists outcome s, parse env c text = .ok outcome s
  cases hparse : parse env c text with
  | ok outcome s => exact ⟨outcome, s, rfl⟩
  | error e s =>
      rw [hparse] at h
      cases h

/-- Four loops, one in another. -/
def fourLoops : List Byte :=
  ascii "fn f() \x7b loop 1 \x7b loop 1 \x7b loop 1 \x7b loop 1 \x7b \x7d \x7d \x7d \x7d \x7d"

theorem runWithin_fourLoops : exists past c, Uses past c ∧ c.fnNames = [ascii "f"] ∧
    RunWithin past c := by
  have hfew : braceDepth (tokensOf fourLoops) ≤ maxLoopDepth + 1 := by decide +kernel
  have hcompiled : .identifier (ascii "loop") ∉ ignoredTokens (tokensOf fourLoops) := by
    decide +kernel
  have hnames : ((Use.line Env.idle fourLoops).run Compiler.new).2.fnNames = [ascii "f"] := by
    decide +kernel
  have hrun := uses_line Env.idle fourLoops
  refine ⟨_, _, hrun, hnames, (runWithin_of_shallow hrun).1 ?_⟩
  intro tr htr
  rw [List.mem_singleton.mp htr]
  exact ⟨hfew, hcompiled⟩

/-- Five of them are accepted too. -/
def fiveLoops : List Byte :=
  ascii ("fn f() \x7b loop 1 \x7b loop 1 \x7b loop 1 \x7b loop 1 \x7b loop 1 \x7b " ++
    "\x7d \x7d \x7d \x7d \x7d \x7d")

theorem not_runWithin_fiveLoops : ¬ forall past c, Uses past c -> RunWithin past c := by
  intro hall
  have haccepted : (Use.line Env.idle fiveLoops).Accepted Compiler.new :=
    accepted_of_leftover (by decide +kernel)
  have hwithin := (hall _ _ (uses_line Env.idle fiveLoops)).lines _ List.mem_cons_self
  have hmany : ¬ braceDepth (tokensOf fiveLoops) ≤ maxLoopDepth + 1 := by decide +kernel
  exact hmany (fewBraces_of_within haccepted hwithin)

/-- A block at top level steps over a loop of 999 rounds. -/
def ignoredLoop : List Byte :=
  ascii "loop 1 \x7b loop 999 \x7b peek 0x20000000; \x7d \x7d"

theorem not_runWithin_ignoredLoop : exists past c, Uses past c ∧ ¬ RunWithin past c := by
  refine ⟨_, _, uses_line Env.idle ignoredLoop, fun hwithin => ?_⟩
  have haccepted : isAccepted (parse Env.idle Compiler.new ignoredLoop) = true := by decide +kernel
  obtain ⟨outcome, s, hparse⟩ := exists_of_isAccepted haccepted
  obtain ⟨skipped, hskips⟩ := parseSkips_of_ok hparse
  obtain ⟨hrest, hskipped⟩ := endsAt_of_ok hskips
  have hword : ⟨1, [.literal 999#32, .lBrace, .rBrace, .rBrace]⟩ ∈
      loopWords 1 (skipped ++ .rBrace :: lineRest (tokensOf ignoredLoop)) := by
    rw [show skipped = lineSkips (tokensOf ignoredLoop) from hskipped]
    exact List.mem_cons_self
  have hignored : IgnoredLoop Env.idle Compiler.new ignoredLoop outcome s ⟨999#32, 2⟩ :=
    ⟨skipped, _, _, hskips, hrest, hword, rfl, _, rfl, rfl⟩
  have hlimits := (hwithin.lines _ List.mem_cons_self outcome s hparse).2.2 _ hignored
  exact absurd hlimits.1.2 (by decide)

end Compilation
end HolyRust
