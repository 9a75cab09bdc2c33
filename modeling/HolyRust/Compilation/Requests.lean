import HolyRust.Compilation.Flattening

/-!
# Lines that run

A line that is to be run is read into a request, with the checks of the parser but without
its stream: a bare expression asks for its value, a call and a top-level loop ask for
statements.  The parser builds the program of the request whenever the stream can hold it.
-/

namespace HolyRust
namespace Compilation

open Foundation

/-- What a line asks for. -/
inductive Request where
  | value (v : Word)
  | perform (body : List Stmt)

namespace Request

def words (prims : Prims) (c : Compiler) : Request -> List Word
  | .value v => [prims.wordOf .lit, v, prims.wordOf .halt]
  | .perform body => flattenAll prims c body ++ [prims.wordOf .halt]

def yieldsValue : Request -> Bool
  | .value _ => true
  | .perform _ => false

end Request

/-!
## Reading
-/

/-- What one token of a top-level loop contributes: all but `poke` and `peek` are skipped. -/
def readTopStmt (env : Env) (fuel : Nat) (tok : Token) : ParseM (List Stmt) :=
  if tok = .identifier (ascii "poke") then do
    let stmt <- readPoke env fuel
    pure [stmt]
  else if tok = .identifier (ascii "peek") then do
    let stmt <- readPeek env fuel
    pure [stmt]
  else
    pure []

def readTopBlock (env : Env) : Nat -> ParseM (List Stmt)
  | 0 => throw .fuel
  | fuel + 1 => do
      let tok <- peekToken
      if tok = .rBrace then do
        let _ <- nextToken
        pure []
      else if tok = .eof then reject .unexpectedToken
      else do
        let tok <- nextToken
        let stmts <- readTopStmt env fuel tok
        let body <- readTopBlock env fuel
        pure (stmts ++ body)

def readLoop (env : Env) (fuel : Nat) : ParseM Request := do
  let count <- loopCount env fuel
  expectToken .lBrace
  let body <- readTopBlock env fuel
  pure (.perform [.loop count.toNat body])

def readValue (env : Env) (fuel : Nat) (first : Token) : ParseM Request := do
  let value <- scanning (fun c => evalExpr env c fuel (some first))
  expectSemicolon
  pure (.value value)

def readCallOrValue (env : Env) (fuel : Nat) (id : List Byte) : ParseM Request := do
  let ahead <- peekToken
  if ahead = .lParen then do
    callTail
    let _ <- getFnBody id
    pure (.perform [.call id])
  else
    readValue env fuel (.identifier id)

/-- The commands other than `loop` run nothing that was compiled. -/
def readCommand (env : Env) (fuel : Nat) (id : List Byte) : ParseM Request :=
  match commandOf id with
  | some .loop => readLoop env fuel
  | some _ => reject .unexpectedToken
  | none => readCallOrValue env fuel id

def readRequest (env : Env) (fuel : Nat) : ParseM Request := do
  let first <- nextToken
  match first with
  | .identifier id => readCommand env fuel id
  | .literal v => readValue env fuel (.literal v)
  | .operator op => readValue env fuel (.operator op)
  | .lParen => readValue env fuel .lParen
  | _ => reject .unexpectedToken

/-- The line asks for `request`, and everything in it is valid. -/
def ReadsRequest (env : Env) (c : Compiler) (line : List Byte) (request : Request) : Prop :=
  exists s, readRequest env (parseFuel line) (startState c line) = .ok request s

/-!
## Building what is read
-/

section Blocks

variable {env : Env} {c : Compiler}

theorem flattenAll_append (prims : Prims) (c : Compiler) (xs ys : List Stmt) :
    flattenAll prims c (xs ++ ys) = flattenAll prims c xs ++ flattenAll prims c ys := by
  induction xs with
  | nil => rfl
  | cons x xs ih => rw [List.cons_append, flattenAll, flattenAll, ih, List.append_assoc]

theorem flattenAll_singleton (prims : Prims) (c : Compiler) (stmt : Stmt) :
    flattenAll prims c [stmt] = stmt.flatten prims c := by
  rw [flattenAll, flattenAll, List.append_nil]

theorem ite_bind (p : Prop) [Decidable p] (x y : ParseM α) (f : α -> ParseM β) :
    (if p then x else y) >>= f = if p then x >>= f else y >>= f := by
  split <;> rfl

theorem bind_of_error {x : ParseM α} {f : α -> ParseM β} {e : Abort} {s s' : ParseState}
    (h : x s = .error e s') : (x >>= f) s = .error e s' := by
  rw [bind_apply, h]

/-- One statement as the list of it. -/
theorem compiles_singleton {x : ParseM Unit} {y : ParseM Stmt}
    (h : Compiles c (Stmt.flatten env.prims c) x y) :
    Compiles c (flattenAll env.prims c) x (do
      let stmt <- y
      pure [stmt]) := by
  have hempty : Compiles c (fun _ : Unit => []) (pure ()) (pure ()) :=
    compiles_emitter () emitter_pure
  have hsame : forall (stmt : Stmt) (_ : Unit),
      flattenAll env.prims c [stmt] = Stmt.flatten env.prims c stmt ++ [] := by
    intro stmt _
    rw [flattenAll_singleton, List.append_nil]
  have hseq := compiles_seq (k := fun stmt (_ : Unit) => [stmt]) h hempty hsame
  rw [bind_pure_unit] at hseq
  exact hseq

theorem compiles_topStmt (fuel : Nat) (tok : Token) :
    Compiles c (flattenAll env.prims c)
      (if tok = .identifier (ascii "poke") then pokeStmt env fuel
        else if tok = .identifier (ascii "peek") then peekStmt env fuel
        else pure ())
      (readTopStmt env fuel tok) := by
  refine compiles_ite (compiles_singleton (compiles_pokeStmt fuel)) ?_
  refine compiles_ite (compiles_singleton (compiles_peekStmt fuel)) ?_
  exact compiles_emitter [] emitter_pure

theorem compiles_topBlock (fuel : Nat) :
    Compiles c (flattenAll env.prims c) (parseTopBlock env fuel) (readTopBlock env fuel) := by
  induction fuel with
  | zero => exact compiles_throw _ _
  | succ fuel ih =>
      unfold parseTopBlock readTopBlock
      refine compiles_reading onTokens_reading.onPeek fun tok => compiles_ite ?_ ?_
      · exact compiles_reading onTokens_reading.onNext fun _ => compiles_emitter [] emitter_pure
      · refine compiles_ite (compiles_throw _ _) ?_
        refine compiles_reading onTokens_reading.onNext fun tok => ?_
        have hseq := compiles_seq (compiles_topStmt fuel tok) ih
          fun stmts body => flattenAll_append env.prims c stmts body
        simp only [ite_bind] at hseq
        exact hseq

end Blocks

/-!
## Programs
-/

/-- The line is answered by the program `ws`, or is refused because the stream is too short
for it; the addresses that were checked for the program are `checked`. -/
def Built (ws : List Word) (yieldsValue : Bool) (checked : List Word) :
    EStateM.Result Abort ParseState Outcome -> Prop
  | .ok outcome s' => (exists program, outcome = .run program ∧ program.stream.words = ws ∧
      program.yieldsValue = yieldsValue) ∧ s'.checked = checked
  | .error e _ => e = .error .streamFull ∧ maxStreamWords < ws.length

/-- Where `y` reads a request, `x` builds its program; where `y` fails, `x` runs nothing. -/
def Builds (env : Env) (c : Compiler) (x : ParseM Outcome) (y : ParseM Request) : Prop :=
  forall s, s.comp = c ->
    match y s with
    | .ok request t => Built (request.words env.prims c) request.yieldsValue t.checked (x s)
    | .error _ _ => forall program s', x s ≠ .ok (.run program) s'

section Programs

variable {env : Env} {c : Compiler}

theorem builds_bind {p : ParseM α} {x : α -> ParseM Outcome} {y : α -> ParseM Request}
    (hp : Reading p) (hxy : forall a, Builds env c (x a) (y a)) :
    Builds env c (p >>= x) (p >>= y) := by
  intro s hs
  have hquiet := hp.right s
  rw [bind_apply, bind_apply]
  cases h : p s with
  | ok a s1 => exact hxy a s1 ((sat_of_ok hquiet h).trans hs)
  | error e s1 => exact fun _ _ heq => by cases heq

theorem builds_ite {p : Prop} [Decidable p] {x x' : ParseM Outcome} {y y' : ParseM Request}
    (h : Builds env c x y) (h' : Builds env c x' y') :
    Builds env c (if p then x else x') (if p then y else y') := by
  by_cases hp : p
  · rw [if_pos hp, if_pos hp]
    exact h
  · rw [if_neg hp, if_neg hp]
    exact h'

/-- A line of another kind runs no program. -/
theorem builds_reject {x : ParseM Outcome} {e : Abort}
    (hx : Returns (fun o => forall program, o ≠ .run program) x) :
    Builds env c x (throw e) := by
  intro s _
  rw [throw_apply]
  exact fun program s' hok => returns_of_ok hx hok program rfl

/-- How every program is finished. -/
def finish (env : Env) (yieldsValue : Bool) : ParseM Outcome := do
  streamHalt env
  let program <- takeProgram yieldsValue
  pure (.run program)

/-- What was emitted into the empty stream becomes a program with a halt after it. -/
theorem built_finish (env : Env) {ws : List Word} {x : ParseM Unit} {s t : ParseState}
    (h : Fills ws s.fresh t (x s.fresh)) (yieldsValue : Bool) :
    Built (ws ++ [env.prims.wordOf .halt]) yieldsValue t.checked
      ((x >>= fun _ => finish env yieldsValue) s.fresh) := by
  have hhalt := fills_seq h fun s1 hsame _ =>
    fills_of_same (emitter_streamPush (env.prims.wordOf .halt) s1) hsame
  unfold finish streamHalt
  rw [← bind_assoc, bind_apply]
  cases hrun : (x >>= fun _ => streamPush (env.prims.wordOf .halt)) s.fresh with
  | ok u s1 =>
      rw [hrun] at hhalt
      exact ⟨⟨_, rfl, hhalt.right, rfl⟩, sameButStream_checked hhalt.left⟩
  | error e s1 =>
      rw [hrun] at hhalt
      refine ⟨hhalt.left, ?_⟩
      have hlong := hhalt.right
      rw [show s.fresh.words.length = 0 from rfl, Nat.zero_add] at hlong
      exact hlong

theorem builds_valueCommand (fuel : Nat) (first : Token) :
    Builds env c (valueCommand env fuel first) (readValue env fuel first) := by
  refine builds_bind (reading_evalExpr env fuel _) fun value => ?_
  refine builds_bind (related_expectSemicolon onTokens_reading) fun _ => ?_
  intro s _
  exact built_finish env (emitter_streamPushLit env value s.fresh) true

theorem builds_call (name : List Byte) :
    Builds env c (buildCallProgram env name >>= fun program => pure (.run program))
      (getFnBody name >>= fun _ => pure (.perform [.call name])) := by
  intro s hs
  unfold buildCallProgram
  rw [bind_assoc, bind_apply, bind_apply]
  cases hfind : c.findFn name with
  | none =>
      rw [getFnBody_of_none (by rw [hs]; exact hfind)]
      exact fun _ _ heq => by cases heq
  | some i =>
      rw [getFnBody_of_some (by rw [hs]; exact hfind)]
      have hwords : (Request.perform [.call name]).words env.prims c =
          (s.comp.fns i).body ++ [env.prims.wordOf .halt] := by
        show flattenAll env.prims c [.call name] ++ _ = _
        rw [flattenAll_singleton, Stmt.flatten, Compiler.bodyOf, hfind, hs]
      dsimp only
      rw [pure_apply]
      dsimp only
      rw [hwords]
      simp only [bind_assoc]
      exact built_finish env (emitter_pushWords (s.comp.fns i).body s.fresh) false

theorem builds_callOrValue (fuel : Nat) (id : List Byte) :
    Builds env c (callOrValue env fuel id) (readCallOrValue env fuel id) := by
  refine builds_bind onTokens_reading.onPeek fun ahead => ?_
  refine builds_ite ?_ (builds_valueCommand fuel _)
  exact builds_bind (related_callTail onTokens_reading) fun _ => builds_call id

/-- From the opening brace of a top-level loop on.  The stream is empty there, so its words
are those of one round. -/
theorem builds_rounds {count : Word} (hcount : 0 < count.toNat) (fuel : Nat) :
    Builds env c
      (do
        streamReset
        parseTopBlock env fuel
        let body <- getStream
        unroll 0 body.words.length (count.toNat - 1)
        finish env false)
      (do
        let body <- readTopBlock env fuel
        pure (.perform [.loop count.toNat body])) := by
  intro s hs
  have hcopies : forall body, flattenAll env.prims c [.loop count.toNat body] =
      (List.replicate (count.toNat - 1 + 1) (flattenAll env.prims c body)).flatten := by
    intro body
    rw [flattenAll_singleton, Stmt.flatten, Nat.sub_add_cancel hcount]
  have hblock : Compiles c (flattenAll env.prims c) (parseTopBlock env fuel)
      (readTopBlock env fuel) := compiles_topBlock fuel
  have hrounds := compiles_unrolled hblock (count.toNat - 1) hcopies s.fresh s
    ⟨s.comp.stream, rfl⟩ (congrArg Compiler.fns hs)
  rw [bind_apply] at hrounds ⊢
  cases hread : readTopBlock env fuel s with
  | error e t =>
      rw [hread] at hrounds
      obtain ⟨e', s', hparse⟩ := hrounds
      have herror := bind_of_error (f := fun _ => finish env false) hparse
      simp only [bind_assoc] at herror
      exact fun _ _ hok => by cases hok.symm.trans herror
  | ok body t =>
      rw [hread] at hrounds
      have hbuilt := built_finish env hrounds.right false
      simp only [bind_assoc] at hbuilt
      exact hbuilt

theorem builds_loopCommand (fuel : Nat) :
    Builds env c (loopCommand env fuel) (readLoop env fuel) := by
  unfold loopCommand readLoop loopCount
  rw [bind_assoc, bind_assoc]
  refine builds_bind (onOperands_reading env fuel).onTerm fun count => ?_
  by_cases hbad : count = 0#32 ∨ maxLoopUnroll < count.toNat
  · rw [if_pos hbad]
    exact builds_reject (returns_throw _ _)
  · rw [if_neg hbad, pure_bind, pure_bind]
    refine builds_bind (related_expectToken onTokens_reading _) fun _ => ?_
    refine builds_rounds (Nat.pos_of_ne_zero fun hzero => hbad (Or.inl ?_)) fuel
    exact BitVec.eq_of_toNat_eq hzero

theorem answers_ne_run {command : Command} {outcome : Outcome} (h : Answers env command outcome)
    (hloop : command ≠ .loop) (program : StreamProgram) : outcome ≠ .run program := by
  rintro rfl
  exact hloop (loop_of_answers_run h)

theorem builds_parseCommand (fuel : Nat) (id : List Byte) :
    Builds env c (parseCommand env fuel id) (readCommand env fuel id) := by
  have hother : forall command, command ≠ .loop ->
      Builds env c (runCommand env fuel command) (reject .unexpectedToken) := by
    intro command hloop
    exact builds_reject (returns_mono (returns_runCommand env fuel command) fun _ h =>
      answers_ne_run h hloop)
  unfold parseCommand readCommand
  cases commandOf id with
  | none => exact builds_callOrValue fuel id
  | some command =>
      cases command with
      | loop => exact builds_loopCommand fuel
      | _ => exact hother _ (by decide)

theorem builds_parseLine (fuel : Nat) :
    Builds env c (parseLine env fuel) (readRequest env fuel) := by
  unfold parseLine readRequest
  refine builds_bind onTokens_reading.onNext fun first => ?_
  cases first with
  | identifier id => exact builds_parseCommand fuel id
  | literal v => exact builds_valueCommand fuel _
  | operator op => exact builds_valueCommand fuel _
  | lParen => exact builds_valueCommand fuel _
  | kwLet =>
      exact builds_reject (returns_bind fun _ => returns_bind fun _ => returns_bind fun _ =>
        returns_bind fun _ => returns_bind fun _ => returns_bind fun _ => returns_bind fun _ =>
          returns_pure fun _ heq => by cases heq)
  | kwFn =>
      exact builds_reject (returns_bind fun _ => returns_bind fun _ => returns_bind fun _ =>
        returns_bind fun _ => returns_bind fun _ => returns_bind fun _ => returns_bind fun _ =>
          returns_pure fun _ heq => by cases heq)
  | _ => exact builds_reject (returns_throw _ _)

end Programs

section Lines

variable {env : Env} {c : Compiler} {line : List Byte}

theorem built_of_readRequest {request : Request} {t : ParseState}
    (hread : readRequest env (parseFuel line) (startState c line) = .ok request t) :
    Built (request.words env.prims c) request.yieldsValue t.checked (parse env c line) := by
  have hline : Builds env c (parseLine env (parseFuel line)) (readRequest env (parseFuel line)) :=
    builds_parseLine _
  have hbuilt := hline (startState c line) rfl
  rw [hread] at hbuilt
  exact hbuilt

/-- Every line that runs was a request, and its program is the one of the request. -/
theorem exists_readsRequest {program : StreamProgram} {s' : ParseState}
    (h : parse env c line = .ok (.run program) s') :
    exists request, ReadsRequest env c line request ∧
      program.stream.words = request.words env.prims c ∧
      program.yieldsValue = request.yieldsValue := by
  have hline : Builds env c (parseLine env (parseFuel line)) (readRequest env (parseFuel line)) :=
    builds_parseLine _
  cases hread : readRequest env (parseFuel line) (startState c line) with
  | error e t =>
      have hnone := hline (startState c line) rfl
      rw [hread] at hnone
      exact absurd h (hnone program s')
  | ok request t =>
      have hbuilt := built_of_readRequest hread
      rw [h] at hbuilt
      obtain ⟨⟨program', heq, hwords, hyields⟩, _⟩ := hbuilt
      cases heq
      exact ⟨request, ⟨t, hread⟩, hwords, hyields⟩

end Lines

end Compilation
end HolyRust
