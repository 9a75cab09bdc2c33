import HolyRust.Compilation.Parser

/-!
# Relations that parsers respect

Much of what holds of every parser is a relation between a parser and itself, or between
the parsers of two environments, that survives sequencing.  Such a relation is checked on
the operations it can tell apart; here it is carried to everything that is built from
them.  A property of one parser is the relation that ignores its second side.
-/

namespace HolyRust
namespace Compilation

open Foundation
open Capabilities

/-- Values and rejections are related to themselves, and sequencing keeps the relation. -/
structure Composes (R : forall {α : Type}, ParseM α -> ParseM α -> Prop) : Prop where
  onPure : forall {α : Type} (a : α), R (pure a) (pure a)
  onReject : forall {α : Type} (e : ParseError), R (reject e : ParseM α) (reject e)
  onBind : forall {α β : Type} {x y : ParseM α} {f g : α -> ParseM β},
    R x y -> (forall a, R (f a) (g a)) -> R (x >>= f) (y >>= g)

/-- The relation holds of the parsers of single tokens. -/
structure OnTokens (R : forall {α : Type}, ParseM α -> ParseM α -> Prop) : Prop
    extends Composes R where
  onNext : R nextToken nextToken
  onPeek : R peekToken peekToken

/-- The relation holds of the accesses to the stream. -/
structure OnStream (R : forall {α : Type}, ParseM α -> ParseM α -> Prop) : Prop
    extends Composes R where
  onGet : R getStream getStream
  onSet : forall stream, R (setStream stream) (setStream stream)

/-- Environments of one build: only the registry and memory may differ. -/
structure SameBuild (env env' : Env) : Prop where
  target : env'.target = env.target
  prims : env'.prims = env.prims

/-- The relation holds of operands, of what ends a statement and of the access check. -/
structure OnOperands (R : forall {α : Type}, ParseM α -> ParseM α -> Prop) (env env' : Env)
    (fuel fuel' : Nat) : Prop extends Composes R, SameBuild env env' where
  onTerm : R (scanning (parseAtomicTerm env fuel)) (scanning (parseAtomicTerm env' fuel'))
  onExpr : R (scanning fun c => evalExpr env c fuel none)
    (scanning fun c => evalExpr env' c fuel' none)
  onSemicolon : R expectSemicolon expectSemicolon
  onAccess : forall addr, R (requireAccess env addr) (requireAccess env' addr)

section Operations

variable {R : forall {α : Type}, ParseM α -> ParseM α -> Prop}

theorem related_ite (_ : Composes R) {p : Prop} [Decidable p] {x x' y y' : ParseM α}
    (hx : R x x') (hy : R y y') : R (if p then x else y) (if p then x' else y') := by
  by_cases hp : p
  · rw [if_pos hp, if_pos hp]
    exact hx
  · rw [if_neg hp, if_neg hp]
    exact hy

theorem related_liftExcept (h : Composes R) (x : Except ParseError α) :
    R (liftExcept x) (liftExcept x) := by
  cases x with
  | ok a => exact h.onPure a
  | error e => exact h.onReject e

/-!
## Tokens
-/

theorem related_expectToken (h : OnTokens R) (t : Token) : R (expectToken t) (expectToken t) :=
  h.onBind h.onNext fun _ => related_ite h.toComposes (h.onPure _) (h.onReject _)

theorem related_expectName (h : OnTokens R) : R expectName expectName := by
  refine h.onBind h.onNext fun tok => ?_
  cases tok with
  | identifier id => exact related_liftExcept h.toComposes _
  | _ => exact h.onReject _

theorem related_expectSemicolon (h : OnTokens R) : R expectSemicolon expectSemicolon :=
  h.onBind h.onNext fun _ => related_ite h.toComposes (h.onPure _) (h.onReject _)

theorem related_allowOptionalSemicolon (h : OnTokens R) :
    R allowOptionalSemicolon allowOptionalSemicolon :=
  h.onBind h.onPeek fun _ =>
    related_ite h.toComposes (h.onBind h.onNext fun _ => h.onPure _) (h.onPure _)

theorem related_callTail (h : OnTokens R) : R callTail callTail :=
  h.onBind h.onNext fun _ => h.onBind (related_expectToken h _) fun _ => related_expectSemicolon h

theorem related_keywordCommand (h : OnTokens R) (outcome : Outcome) :
    R (keywordCommand outcome) (keywordCommand outcome) :=
  h.onBind (related_allowOptionalSemicolon h) fun _ => h.onPure _

theorem related_nameCommand (h : OnTokens R) (outcome : NameBuf -> Outcome) :
    R (nameCommand outcome) (nameCommand outcome) :=
  h.onBind (related_expectName h) fun _ =>
    h.onBind (related_expectSemicolon h) fun _ => h.onPure _

/-!
## Stream emission
-/

theorem related_streamPush (h : OnStream R) (word : Word) :
    R (streamPush word) (streamPush word) := by
  refine h.onBind h.onGet fun stream => ?_
  by_cases hroom : stream.words.length < maxStreamWords
  · rw [dif_pos hroom]
    exact h.onSet _
  · rw [dif_neg hroom]
    exact h.onReject _

theorem related_streamPushLit (h : OnStream R) {env env' : Env} (hbuild : SameBuild env env')
    (value : Word) : R (streamPushLit env value) (streamPushLit env' value) := by
  unfold streamPushLit
  rw [hbuild.prims]
  exact h.onBind (related_streamPush h _) fun _ => related_streamPush h _

theorem related_streamHalt (h : OnStream R) {env env' : Env} (hbuild : SameBuild env env') :
    R (streamHalt env) (streamHalt env') := by
  unfold streamHalt
  rw [hbuild.prims]
  exact related_streamPush h _

theorem related_takeProgram (h : OnStream R) (yieldsValue : Bool) :
    R (takeProgram yieldsValue) (takeProgram yieldsValue) :=
  h.onBind h.onGet fun _ => h.onPure _

theorem related_pushWords (h : OnStream R) (ws : List Word) : R (pushWords ws) (pushWords ws) := by
  induction ws with
  | nil => exact h.onPure _
  | cons w ws ih => exact h.onBind (related_streamPush h w) fun _ => ih

theorem related_copyRange (h : OnStream R) (n i : Nat) : R (copyRange n i) (copyRange n i) := by
  induction n generalizing i with
  | zero => exact h.onPure _
  | succ n ih =>
      exact h.onBind h.onGet fun _ => h.onBind (related_streamPush h _) fun _ => ih (i + 1)

theorem related_unroll (h : OnStream R) (start len rounds : Nat) :
    R (unroll start len rounds) (unroll start len rounds) := by
  induction rounds with
  | zero => exact h.onPure _
  | succ rounds ih =>
      exact h.onBind h.onGet fun _ => related_ite h.toComposes (h.onReject _)
        (h.onBind (related_copyRange h len start) fun _ => ih)

theorem related_buildValueProgram (h : OnStream R) {env env' : Env}
    (hbuild : SameBuild env env') (value : Word) :
    R (buildValueProgram env value) (buildValueProgram env' value) :=
  h.onBind (h.onSet _) fun _ => h.onBind (related_streamPushLit h hbuild value) fun _ =>
    h.onBind (related_streamHalt h hbuild) fun _ => related_takeProgram h _

theorem related_buildCallProgram (h : OnStream R) {env env' : Env} (hbuild : SameBuild env env')
    {name : List Byte} (hbody : R (getFnBody name) (getFnBody name)) :
    R (buildCallProgram env name) (buildCallProgram env' name) :=
  h.onBind hbody fun _ => h.onBind (h.onSet _) fun _ =>
    h.onBind (related_pushWords h _) fun _ =>
      h.onBind (related_streamHalt h hbuild) fun _ => related_takeProgram h _

theorem related_spliceCall (h : OnStream R) {name : List Byte}
    (hbody : R (getFnBody name) (getFnBody name)) : R (spliceCall name) (spliceCall name) :=
  h.onBind hbody fun _ => related_pushWords h _

end Operations

/-!
## Accesses and commands
-/

section Commands

variable {R : forall {α : Type}, ParseM α -> ParseM α -> Prop} {env env' : Env} {fuel fuel' : Nat}

theorem related_loopCount (h : OnOperands R env env' fuel fuel') :
    R (loopCount env fuel) (loopCount env' fuel') :=
  h.onBind h.onTerm fun _ => related_ite h.toComposes (h.onReject _) (h.onPure _)

theorem related_pokeStmt (h : OnOperands R env env' fuel fuel') (hstream : OnStream R) :
    R (pokeStmt env fuel) (pokeStmt env' fuel') := by
  have hlit := related_streamPushLit hstream h.toSameBuild
  unfold pokeStmt
  rw [h.prims]
  exact h.onBind h.onTerm fun _ => h.onBind h.onExpr fun _ => h.onBind h.onSemicolon fun _ =>
    h.onBind (h.onAccess _) fun _ => h.onBind (hlit _) fun _ => h.onBind (hlit _) fun _ =>
      related_streamPush hstream _

theorem related_peekStmt (h : OnOperands R env env' fuel fuel') (hstream : OnStream R) :
    R (peekStmt env fuel) (peekStmt env' fuel') := by
  unfold peekStmt
  rw [h.prims]
  exact h.onBind h.onTerm fun _ => h.onBind h.onSemicolon fun _ =>
    h.onBind (h.onAccess _) fun _ =>
      h.onBind (related_streamPushLit hstream h.toSameBuild _) fun _ =>
        related_streamPush hstream _

theorem related_checkTimerCap (h : OnOperands R env env' fuel fuel') :
    R (checkTimerCap env) (checkTimerCap env') := by
  unfold checkTimerCap
  rw [h.target]
  exact h.onAccess _

theorem related_checkSpiCap (h : OnOperands R env env' fuel fuel') :
    R (checkSpiCap env) (checkSpiCap env') := by
  unfold checkSpiCap
  rw [h.target]
  exact h.onAccess _

theorem related_bitCommand (h : OnOperands R env env' fuel fuel')
    (outcome : Word -> Word -> Outcome) :
    R (bitCommand env fuel outcome) (bitCommand env' fuel' outcome) :=
  h.onBind h.onTerm fun _ => h.onBind h.onTerm fun _ => h.onBind h.onSemicolon fun _ =>
    h.onBind (h.onAccess _) fun _ => h.onPure _

theorem related_loopCommand (h : OnOperands R env env' fuel fuel') (htokens : OnTokens R)
    (hstream : OnStream R) (hblock : R (parseTopBlock env fuel) (parseTopBlock env' fuel')) :
    R (loopCommand env fuel) (loopCommand env' fuel') :=
  h.onBind (related_loopCount h) fun _ => h.onBind (related_expectToken htokens _) fun _ =>
    h.onBind (hstream.onSet _) fun _ => h.onBind hblock fun _ => h.onBind hstream.onGet fun _ =>
      h.onBind (related_unroll hstream _ _ _) fun _ =>
        h.onBind (related_streamHalt hstream h.toSameBuild) fun _ =>
          h.onBind (related_takeProgram hstream _) fun _ => h.onPure _

/-- Every command but a loop is made of operands and tokens. -/
theorem related_runCommand_of_ne (h : OnOperands R env env' fuel fuel') (htokens : OnTokens R)
    {command : Command} (hne : command ≠ .loop) :
    R (runCommand env fuel command) (runCommand env' fuel' command) := by
  cases command with
  | peek =>
      exact h.onBind h.onTerm fun _ => h.onBind h.onSemicolon fun _ =>
        h.onBind (h.onAccess _) fun _ => h.onPure _
  | poke =>
      exact h.onBind h.onTerm fun _ => h.onBind h.onExpr fun _ => h.onBind h.onSemicolon fun _ =>
        h.onBind (h.onAccess _) fun _ => h.onPure _
  | regSetBit => exact related_bitCommand h _
  | regClrBit => exact related_bitCommand h _
  | pwm =>
      exact h.onBind h.onTerm fun _ => h.onBind h.onTerm fun _ => h.onBind h.onSemicolon fun _ =>
        h.onBind (related_checkTimerCap h) fun _ => h.onPure _
  | pwmDuty =>
      exact h.onBind h.onTerm fun _ => h.onBind h.onSemicolon fun _ =>
        h.onBind (related_checkTimerCap h) fun _ => h.onPure _
  | poolAlloc =>
      exact h.onBind h.onTerm fun _ => h.onBind h.onSemicolon fun _ => h.onPure _
  | spiTx =>
      exact h.onBind h.onTerm fun _ => h.onBind h.onSemicolon fun _ =>
        h.onBind (related_checkSpiCap h) fun _ => h.onPure _
  | loop => exact absurd rfl hne
  | poolStats => exact h.onPure _
  | capClaim | capDrop | store | load | spawn => exact related_nameCommand htokens _
  | _ => exact related_keywordCommand htokens _

theorem related_runCommand (h : OnOperands R env env' fuel fuel') (htokens : OnTokens R)
    (hloop : R (loopCommand env fuel) (loopCommand env' fuel')) (command : Command) :
    R (runCommand env fuel command) (runCommand env' fuel' command) := by
  by_cases hcommand : command = .loop
  · rw [hcommand]
    exact hloop
  · exact related_runCommand_of_ne h htokens hcommand

theorem related_valueCommand (h : OnOperands R env env' fuel fuel') (hstream : OnStream R)
    {first : Token} (hexpr : R (scanning fun c => evalExpr env c fuel (some first))
      (scanning fun c => evalExpr env' c fuel' (some first))) :
    R (valueCommand env fuel first) (valueCommand env' fuel' first) :=
  h.onBind hexpr fun _ => h.onBind h.onSemicolon fun _ =>
    h.onBind (related_buildValueProgram hstream h.toSameBuild _) fun _ => h.onPure _

theorem related_callOrValue (h : OnOperands R env env' fuel fuel') (htokens : OnTokens R)
    {id : List Byte} (hcall : R (buildCallProgram env id) (buildCallProgram env' id))
    (hvalue : R (valueCommand env fuel (.identifier id))
      (valueCommand env' fuel' (.identifier id))) :
    R (callOrValue env fuel id) (callOrValue env' fuel' id) :=
  h.onBind htokens.onPeek fun _ => related_ite h.toComposes
    (h.onBind (related_callTail htokens) fun _ => h.onBind hcall fun _ => h.onPure _) hvalue

/-- A line is a definition, a command, a call or an expression. -/
theorem related_parseLine (h : OnOperands R env env' fuel fuel') (htokens : OnTokens R)
    (hlet : R (parseLet env fuel) (parseLet env' fuel'))
    (hfn : R (parseFn env fuel) (parseFn env' fuel'))
    (hcommand : forall command, R (runCommand env fuel command) (runCommand env' fuel' command))
    (hcall : forall id, R (callOrValue env fuel id) (callOrValue env' fuel' id))
    (hvalue : forall first, R (valueCommand env fuel first) (valueCommand env' fuel' first)) :
    R (parseLine env fuel) (parseLine env' fuel') := by
  refine h.onBind htokens.onNext fun first => ?_
  cases first with
  | kwLet => exact hlet
  | kwFn => exact hfn
  | identifier id =>
      show R (parseCommand env fuel id) (parseCommand env' fuel' id)
      unfold parseCommand
      cases commandOf id with
      | some command => exact hcommand command
      | none => exact hcall id
  | literal v => exact hvalue _
  | operator op => exact hvalue _
  | lParen => exact hvalue _
  | _ => exact h.onReject _

end Commands

/-!
## Blocks
-/

/-- `loop N { .. }` in a body, after its keyword. -/
def loopStmt (env : Env) (fuel : Nat) : ParseM Unit := do
  let count <- loopCount env fuel
  let before <- getStream
  expectToken .lBrace
  parseBlock env fuel
  let after <- getStream
  unroll before.words.length (after.words.length - before.words.length) (count.toNat - 1)

section Blocks

variable {R : forall {α : Type}, ParseM α -> ParseM α -> Prop} {env env' : Env}

/-- The relation holds of the statements of a body, loops given their block. -/
structure OnStatements (R : forall {α : Type}, ParseM α -> ParseM α -> Prop) (env env' : Env) :
    Prop extends OnTokens R where
  onFuel : R (throw .fuel : ParseM Unit) (throw .fuel)
  onPoke : forall fuel, R (pokeStmt env fuel) (pokeStmt env' fuel)
  onPeekStmt : forall fuel, R (peekStmt env fuel) (peekStmt env' fuel)
  onLoop : forall fuel, R (parseBlock env fuel) (parseBlock env' fuel) ->
    R (loopStmt env fuel) (loopStmt env' fuel)
  onCall : forall id, R (spliceCall id) (spliceCall id)
  onExpr : forall fuel first, R (scanning fun c => evalExpr env c fuel (some first))
    (scanning fun c => evalExpr env' c fuel (some first))

theorem related_parseBodyStmt_succ (h : OnStatements R env env') {fuel : Nat}
    (hblock : R (parseBlock env fuel) (parseBlock env' fuel)) :
    R (parseBodyStmt env (fuel + 1)) (parseBodyStmt env' (fuel + 1)) := by
  unfold parseBodyStmt
  refine h.onBind h.onNext fun tok => ?_
  cases tok with
  | identifier id =>
      refine related_ite h.toComposes (h.onPoke fuel) ?_
      refine related_ite h.toComposes (h.onPeekStmt fuel) ?_
      refine related_ite h.toComposes (h.onLoop fuel hblock) ?_
      refine h.onBind h.onPeek fun ahead => related_ite h.toComposes ?_ ?_
      · exact h.onBind (related_callTail h.toOnTokens) fun _ => h.onCall id
      · exact h.onBind (h.onExpr fuel _) fun _ => related_expectSemicolon h.toOnTokens
  | _ => exact h.onReject _

theorem related_parseBlock_succ (h : OnStatements R env env') {fuel : Nat}
    (hstmt : R (parseBodyStmt env fuel) (parseBodyStmt env' fuel))
    (hblock : R (parseBlock env fuel) (parseBlock env' fuel)) :
    R (parseBlock env (fuel + 1)) (parseBlock env' (fuel + 1)) := by
  unfold parseBlock
  refine h.onBind h.onPeek fun tok => ?_
  refine related_ite h.toComposes (h.onBind h.onNext fun _ => h.onPure _) ?_
  exact related_ite h.toComposes (h.onReject _) (h.onBind hstmt fun _ => hblock)

/-- Statements and blocks are parsed in turn, so the induction is on both. -/
theorem related_body (h : OnStatements R env env') (fuel : Nat) :
    R (parseBodyStmt env fuel) (parseBodyStmt env' fuel) ∧
      R (parseBlock env fuel) (parseBlock env' fuel) := by
  induction fuel with
  | zero => exact ⟨h.onFuel, h.onFuel⟩
  | succ fuel ih =>
      exact ⟨related_parseBodyStmt_succ h ih.2, related_parseBlock_succ h ih.1 ih.2⟩

theorem related_parseTopBlock (h : OnStatements R env env') (fuel : Nat) :
    R (parseTopBlock env fuel) (parseTopBlock env' fuel) := by
  induction fuel with
  | zero => exact h.onFuel
  | succ fuel ih =>
      unfold parseTopBlock
      refine h.onBind h.onPeek fun tok => ?_
      refine related_ite h.toComposes (h.onBind h.onNext fun _ => h.onPure _) ?_
      refine related_ite h.toComposes (h.onReject _) (h.onBind h.onNext fun stmt => ?_)
      refine related_ite h.toComposes (h.onBind (h.onPoke fuel) fun _ => ih) ?_
      refine related_ite h.toComposes (h.onBind (h.onPeekStmt fuel) fun _ => ih) ?_
      exact h.onBind (h.onPure ()) fun _ => ih

/-- A loop statement, from its parts. -/
theorem related_loopStmt {fuel : Nat} (h : OnOperands R env env' fuel fuel) (htokens : OnTokens R)
    (hstream : OnStream R) (hblock : R (parseBlock env fuel) (parseBlock env' fuel)) :
    R (loopStmt env fuel) (loopStmt env' fuel) :=
  h.onBind (related_loopCount h) fun _ => h.onBind hstream.onGet fun _ =>
    h.onBind (related_expectToken htokens _) fun _ => h.onBind hblock fun _ =>
      h.onBind hstream.onGet fun _ => related_unroll hstream _ _ _

end Blocks

end Compilation
end HolyRust
