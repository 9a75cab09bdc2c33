import HolyRust.Compilation.IndexedLexer
import HolyRust.Compilation.RawState
import HolyRust.Compilation.Parser

/-!
# The parser on its arrays

The parser of `Compilation.Parser` once more, over the lexer with its buffer and the
compiler in its arrays.  Every index, slice, subtraction, shift and division of the source
is an operation that may panic.  The tokens that the lexer has produced and those that the
parser has consumed are ghosts of the cursor.
-/

namespace HolyRust
namespace Compilation
namespace Raw

open Foundation
open Capabilities

/-- How a parse ends without an outcome. -/
inductive Stop where
  | panic (p : Panic)
  | abort (a : Abort)

structure StreamProgram where
  words : List Word
  len : Nat
  yieldsValue : Bool

inductive Outcome where
  | empty
  | bound (name : NameBuf) (value : Word)
  | fnDefined (name : NameBuf)
  | run (program : StreamProgram)
  | claim (name : NameBuf)
  | drop (name : NameBuf)
  | setBit (addr bit : Word)
  | clrBit (addr bit : Word)
  | help
  | banner
  | sysAudit
  | enforcedPoke (addr val : Word)
  | enforcedPeek (addr : Word)
  | bench
  | pwm (period duty : Word)
  | pwmDuty (duty : Word)
  | spiTx (byte : Byte)
  | flashTest
  | store (name : NameBuf)
  | load (name : NameBuf)
  | storeList
  | spawn (name : NameBuf)
  | poolAlloc (size : Word)
  | poolFree
  | poolStats

/-!
## Cursor
-/

structure Cur where
  lx : Indexed.Lexer
  ahead : Option Token
  produced : List Token
  consumed : List Token

namespace Cur

def next (cur : Cur) : Except Panic (Token × Cur) :=
  match cur.ahead with
  | some t => .ok (t, { cur with ahead := none, consumed := cur.consumed ++ [t] })
  | none => do
      let r <- cur.lx.nextToken
      .ok (r.token, { cur with
        lx := r.lexer
        produced := cur.produced ++ [r.token]
        consumed := cur.consumed ++ [r.token] })

def peek (cur : Cur) : Except Panic (Token × Cur) :=
  match cur.ahead with
  | some t => .ok (t, cur)
  | none => do
      let r <- cur.lx.nextToken
      .ok (r.token, { cur with
        lx := r.lexer
        ahead := some r.token
        produced := cur.produced ++ [r.token] })

end Cur

structure State where
  cur : Cur
  comp : Compiler

abbrev M : Type -> Type := EStateM Stop State

/-- An operation that may panic. -/
def check (x : Except Panic α) : M α :=
  match x with
  | .ok a => pure a
  | .error p => throw (.panic p)

def reject (e : ParseError) : M α := throw (.abort (.error e))

def liftExcept (x : Except ParseError α) : M α :=
  match x with
  | .ok a => pure a
  | .error e => reject e

def next : M Token := do
  let s <- get
  let (tok, cur) <- check s.cur.next
  set { s with cur := cur }
  pure tok

def peek : M Token := do
  let s <- get
  let (tok, cur) <- check s.cur.peek
  set { s with cur := cur }
  pure tok

def getComp : M Compiler := do
  let s <- get
  pure s.comp

def setComp (c : Compiler) : M Unit :=
  modify fun s => { s with comp := c }

def expectToken (t : Token) : M Unit := do
  let tok <- next
  if tok = t then pure () else reject .unexpectedToken

def expectName : M NameBuf := do
  let tok <- next
  match tok with
  | .identifier id => do
      let name <- check (NameBuf.fromSlice id)
      liftExcept name
  | _ => reject .unexpectedToken

def expectSemicolon : M Unit := do
  let tok <- next
  if tok = .semicolon ∨ tok = .eof then pure () else reject .missingSemicolon

def allowOptionalSemicolon : M Unit := do
  let tok <- peek
  if tok = .semicolon then do
    let _ <- next
    pure ()
  else
    pure ()

/-!
## Capabilities
-/

def available (r : Registry) (resourceId : Nat) : Except Panic Bool :=
  match r.get? (resourceId / 32) with
  | some w => do
      let mask <- Checked.shl .on 1#32 (resourceId % 32)
      .ok (w &&& mask == 0#32)
  | none => .ok false

def isClaimed (r : Registry) (resourceId : Nat) : Except Panic Bool := do
  let free <- available r resourceId
  .ok (!free)

def isSuperuserActive (r : Registry) : Except Panic Bool := do
  let free <- available r CapId.superUser.index
  .ok (!free)

def checkAccess (t : Target) (r : Registry) (addr : Word) : Except Panic (Except CapId Unit) := do
  let active <- isSuperuserActive r
  if active then
    .ok (.ok ())
  else
    match addrToCapId t addr with
    | some capId => do
        let claimed <- isClaimed r capId.index
        if !claimed then .ok (.error capId) else .ok (.ok ())
    | none =>
        if isRamFlash t addr then .ok (.ok ()) else .ok (.error .superUser)

def requireAccess (env : Env) (addr : Word) : M Unit := do
  let access <- check (checkAccess env.target env.registry addr)
  match access with
  | .ok _ => pure ()
  | .error _ => reject .capabilityViolation

def checkTimerCap (env : Env) : M Unit :=
  requireAccess env (match env.target with
    | .riscv32 => 0x10015000#32
    | .arm => 0x40000000#32)

def checkSpiCap (env : Env) : M Unit :=
  requireAccess env (match env.target with
    | .riscv32 => 0x10014000#32
    | .arm => 0x40013000#32)

/-!
## Expressions
-/

def peekU32 (env : Env) (addr : Word) : M Word :=
  match env.mem addr with
  | some v => pure v
  | none => throw (.abort (.fault addr))

def applyOperator (op : Byte) (acc rhs : Word) : M Word :=
  if op = byte '+' then pure (acc + rhs)
  else if op = byte '-' then pure (acc - rhs)
  else if op = byte '*' then pure (acc * rhs)
  else if op = byte '/' then
    if rhs = 0#32 then reject .divByZero else check (Checked.div acc rhs)
  else
    if rhs = 0#32 then reject .divByZero else check (Checked.rem acc rhs)

mutual

def operand (env : Env) : Nat -> Token -> M Word
  | 0, _ => throw (.abort .fuel)
  | fuel + 1, tok =>
      if tok = .lParen then do
        let v <- evalExpr env fuel none
        let close <- next
        if close = .rParen then pure v else reject .unexpectedToken
      else
        resolveTerm env fuel tok

def resolveTerm (env : Env) : Nat -> Token -> M Word
  | 0, _ => throw (.abort .fuel)
  | fuel + 1, tok =>
      match tok with
      | .literal v => pure v
      | .identifier id =>
          if id = ascii "peek" then do
            let first <- next
            let addr <- operand env fuel first
            peekU32 env addr
          else do
            let c <- getComp
            let value <- check (c.lookupSymbol id)
            match value with
            | some v => pure v
            | none => reject .unknownSymbol
      | .error msg => reject (.lexError msg)
      | _ => reject .unexpectedToken

def evalExpr (env : Env) : Nat -> Option Token -> M Word
  | 0, _ => throw (.abort .fuel)
  | fuel + 1, first => do
      let head <- match first with
        | some t => pure t
        | none => next
      let acc <- operand env fuel head
      evalTail env fuel acc

def evalTail (env : Env) : Nat -> Word -> M Word
  | 0, _ => throw (.abort .fuel)
  | fuel + 1, acc => do
      let tok <- peek
      match tok with
      | .operator op =>
          if isArithmetic op then do
            let _ <- next
            let first <- next
            let rhs <- operand env fuel first
            let acc' <- applyOperator op acc rhs
            evalTail env fuel acc'
          else
            pure acc
      | _ => pure acc

end

def parseAtomicTerm (env : Env) (fuel : Nat) : M Word := do
  let first <- next
  operand env fuel first

/-!
## Stream emission
-/

def streamReset : M Unit := do
  let c <- getComp
  setComp { c with streamLen := 0 }

def streamPush (word : Word) : M Unit := do
  let c <- getComp
  if maxStreamWords ≤ c.streamLen then reject .streamFull
  else do
    let stream <- check (Checked.put c.stream c.streamLen word)
    setComp { c with stream := stream, streamLen := c.streamLen + 1 }

def streamPushLit (env : Env) (value : Word) : M Unit := do
  streamPush (env.prims.wordOf .lit)
  streamPush value

def streamHalt (env : Env) : M Unit :=
  streamPush (env.prims.wordOf .halt)

def takeProgram (yieldsValue : Bool) : M StreamProgram := do
  let c <- getComp
  let stream <- check (Checked.slice c.stream 0 c.streamLen)
  let words <- check (Checked.copy (List.replicate maxStreamWords 0#32) c.streamLen stream)
  pure { words := words, len := c.streamLen, yieldsValue := yieldsValue }

/-- `for i in body_start..body_end`, with `n` indices left. -/
def copyRange : Nat -> Nat -> M Unit
  | 0, _ => pure ()
  | n + 1, i => do
      let c <- getComp
      let word <- check (Checked.get c.stream i)
      streamPush word
      copyRange n (i + 1)

/-- `for _ in 1..count`, with `rounds` of them left. -/
def unroll (bodyStart bodyEnd bodyLen : Nat) : Nat -> M Unit
  | 0 => pure ()
  | rounds + 1 => do
      let c <- getComp
      if maxStreamWords < c.streamLen + bodyLen then reject .streamFull
      else do
        copyRange (bodyEnd - bodyStart) bodyStart
        unroll bodyStart bodyEnd bodyLen rounds

def buildValueProgram (env : Env) (value : Word) : M StreamProgram := do
  streamReset
  streamPushLit env value
  streamHalt env
  takeProgram true

/-- `for w in 0..len`, with `n` words left. -/
def pushBody (index : Nat) : Nat -> Nat -> M Unit
  | 0, _ => pure ()
  | n + 1, w => do
      let c <- getComp
      let body <- check (Checked.get c.fnBodies index)
      let word <- check (Checked.get body w)
      streamPush word
      pushBody index n (w + 1)

/-- `find_fn(name).ok_or(UnknownSymbol)`. -/
def requireFn (name : List Byte) : M Nat := do
  let c <- getComp
  let index <- check (c.findFn name)
  match index with
  | some i => pure i
  | none => reject .unknownSymbol

/-- `if len > 0 { for w in 0..len { .. } }`. -/
def pushNonempty (index len : Nat) : M Unit :=
  if 0 < len then pushBody index len 0 else pure ()

def buildCallProgram (env : Env) (name : List Byte) : M StreamProgram := do
  let index <- requireFn name
  streamReset
  let c <- getComp
  let len <- check (Checked.get c.fnBodyLens index)
  pushNonempty index len
  streamHalt env
  takeProgram false

def spliceCall (name : List Byte) : M Unit := do
  let index <- requireFn name
  let c <- getComp
  let len <- check (Checked.get c.fnBodyLens index)
  pushBody index len 0

/-!
## Function bodies and loops
-/

def pokeStmt (env : Env) (fuel : Nat) : M Unit := do
  let addr <- parseAtomicTerm env fuel
  let val <- evalExpr env fuel none
  expectSemicolon
  requireAccess env addr
  streamPushLit env addr
  streamPushLit env val
  streamPush (env.prims.wordOf .writeReg)

def peekStmt (env : Env) (fuel : Nat) : M Unit := do
  let addr <- parseAtomicTerm env fuel
  expectSemicolon
  requireAccess env addr
  streamPushLit env addr
  streamPush (env.prims.wordOf .loadReg)

def loopCount (env : Env) (fuel : Nat) : M Word := do
  let count <- parseAtomicTerm env fuel
  if count = 0#32 ∨ maxLoopUnroll < count.toNat then reject .loopTooLarge
  else pure count

def callTail : M Unit := do
  let _ <- next
  expectToken .rParen
  expectSemicolon

mutual

def parseBodyStmt (env : Env) : Nat -> M Unit
  | 0 => throw (.abort .fuel)
  | fuel + 1 => do
      let tok <- next
      match tok with
      | .identifier id =>
          if id = ascii "poke" then
            pokeStmt env fuel
          else if id = ascii "peek" then
            peekStmt env fuel
          else if id = ascii "loop" then do
            let count <- loopCount env fuel
            let before <- getComp
            let bodyStart := before.streamLen
            expectToken .lBrace
            loopBlock env fuel
            let after <- getComp
            let bodyEnd := after.streamLen
            let bodyLen <- check (Checked.sub bodyEnd bodyStart)
            unroll bodyStart bodyEnd bodyLen (count.toNat - 1)
          else do
            let ahead <- peek
            if ahead = .lParen then do
              callTail
              spliceCall id
            else do
              let _ <- evalExpr env fuel (some (.identifier id))
              expectSemicolon
      | _ => reject .unexpectedToken

/-- The `while` loop of a loop statement and the brace behind it; it peeks twice. -/
def loopBlock (env : Env) : Nat -> M Unit
  | 0 => throw (.abort .fuel)
  | fuel + 1 => do
      let tok <- peek
      if tok = .rBrace then do
        let _ <- next
        pure ()
      else do
        let tok <- peek
        if tok = .eof then reject .unexpectedToken
        else do
          parseBodyStmt env fuel
          loopBlock env fuel

end

/-- The loop of `parse_fn`. -/
def fnBlock (env : Env) : Nat -> M Unit
  | 0 => throw (.abort .fuel)
  | fuel + 1 => do
      let tok <- peek
      if tok = .rBrace then do
        let _ <- next
        pure ()
      else if tok = .eof then reject .unexpectedToken
      else do
        parseBodyStmt env fuel
        fnBlock env fuel

/-- The `while` loop of the `loop` command. -/
def topBlock (env : Env) : Nat -> M Unit
  | 0 => throw (.abort .fuel)
  | fuel + 1 => do
      let tok <- peek
      if tok = .rBrace then do
        let _ <- next
        pure ()
      else do
        let tok <- peek
        if tok = .eof then reject .unexpectedToken
        else do
          let stmt <- next
          if stmt = .identifier (ascii "poke") then pokeStmt env fuel
          else if stmt = .identifier (ascii "peek") then peekStmt env fuel
          else pure ()
          topBlock env fuel

/-!
## Lines
-/

def parseLet (env : Env) (fuel : Nat) : M Outcome := do
  let name <- expectName
  expectToken (.operator (byte '='))
  let value <- evalExpr env fuel none
  expectSemicolon
  let c <- getComp
  let (result, c) <- check (c.insertSymbol name value)
  setComp c
  liftExcept result
  pure (.bound name value)

def defineFn (name : NameBuf) : M Unit := do
  let c <- getComp
  if fnBodyWords < c.streamLen then reject .streamFull
  else do
    let slot <- check (c.allocFnSlot name)
    let index <- liftExcept slot
    let words <- check (Checked.slice c.stream 0 c.streamLen)
    let c <- check (c.setFn index name words)
    setComp c

def parseFn (env : Env) (fuel : Nat) : M Outcome := do
  let name <- expectName
  expectToken .lParen
  expectToken .rParen
  expectToken .lBrace
  streamReset
  fnBlock env fuel
  defineFn name
  pure (.fnDefined name)

def keywordCommand (outcome : Outcome) : M Outcome := do
  allowOptionalSemicolon
  pure outcome

def nameCommand (outcome : NameBuf -> Outcome) : M Outcome := do
  let name <- expectName
  expectSemicolon
  pure (outcome name)

def bitCommand (env : Env) (fuel : Nat) (outcome : Word -> Word -> Outcome) : M Outcome := do
  let addr <- parseAtomicTerm env fuel
  let bit <- parseAtomicTerm env fuel
  expectSemicolon
  requireAccess env addr
  pure (outcome addr bit)

def peekCommand (env : Env) (fuel : Nat) : M Outcome := do
  let addr <- parseAtomicTerm env fuel
  expectSemicolon
  requireAccess env addr
  pure (.enforcedPeek addr)

def pokeCommand (env : Env) (fuel : Nat) : M Outcome := do
  let addr <- parseAtomicTerm env fuel
  let val <- evalExpr env fuel none
  expectSemicolon
  requireAccess env addr
  pure (.enforcedPoke addr val)

def pwmCommand (env : Env) (fuel : Nat) : M Outcome := do
  let period <- parseAtomicTerm env fuel
  let duty <- parseAtomicTerm env fuel
  expectSemicolon
  checkTimerCap env
  pure (.pwm period duty)

def pwmDutyCommand (env : Env) (fuel : Nat) : M Outcome := do
  let duty <- parseAtomicTerm env fuel
  expectSemicolon
  checkTimerCap env
  pure (.pwmDuty duty)

def poolAllocCommand (env : Env) (fuel : Nat) : M Outcome := do
  let size <- parseAtomicTerm env fuel
  expectSemicolon
  pure (.poolAlloc size)

def spiTxCommand (env : Env) (fuel : Nat) : M Outcome := do
  let b <- parseAtomicTerm env fuel
  expectSemicolon
  checkSpiCap env
  pure (.spiTx (b.setWidth 8))

def loopCommand (env : Env) (fuel : Nat) : M Outcome := do
  let count <- loopCount env fuel
  expectToken .lBrace
  streamReset
  let bodyStart := 0
  topBlock env fuel
  let c <- getComp
  let bodyEnd := c.streamLen
  let bodyLen <- check (Checked.sub bodyEnd bodyStart)
  unroll bodyStart bodyEnd bodyLen (count.toNat - 1)
  streamHalt env
  let program <- takeProgram false
  pure (.run program)

def valueCommand (env : Env) (fuel : Nat) (first : Token) : M Outcome := do
  let value <- evalExpr env fuel (some first)
  expectSemicolon
  let program <- buildValueProgram env value
  pure (.run program)

def callOrValue (env : Env) (fuel : Nat) (id : List Byte) : M Outcome := do
  let ahead <- peek
  if ahead = .lParen then do
    callTail
    let program <- buildCallProgram env id
    pure (.run program)
  else
    valueCommand env fuel (.identifier id)

def runCommand (env : Env) (fuel : Nat) : Command -> M Outcome
  | .peek => peekCommand env fuel
  | .poke => pokeCommand env fuel
  | .capClaim => nameCommand .claim
  | .capDrop => nameCommand .drop
  | .regSetBit => bitCommand env fuel .setBit
  | .regClrBit => bitCommand env fuel .clrBit
  | .help => keywordCommand .help
  | .banner => keywordCommand .banner
  | .sysAudit => keywordCommand .sysAudit
  | .bench => keywordCommand .bench
  | .pwm => pwmCommand env fuel
  | .pwmDuty => pwmDutyCommand env fuel
  | .store => nameCommand .store
  | .load => nameCommand .load
  | .storeList => keywordCommand .storeList
  | .loop => loopCommand env fuel
  | .flashTest => keywordCommand .flashTest
  | .poolAlloc => poolAllocCommand env fuel
  | .poolFree => keywordCommand .poolFree
  | .poolStats => pure .poolStats
  | .spawn => nameCommand .spawn
  | .spiTx => spiTxCommand env fuel

def parseCommand (env : Env) (fuel : Nat) (id : List Byte) : M Outcome :=
  match commandOf id with
  | some command => runCommand env fuel command
  | none => callOrValue env fuel id

def parseLine (env : Env) (fuel : Nat) : M Outcome := do
  let first <- next
  match first with
  | .eof => reject .emptyLine
  | .kwLet => parseLet env fuel
  | .kwFn => parseFn env fuel
  | .identifier id => parseCommand env fuel id
  | .literal v => valueCommand env fuel (.literal v)
  | .operator op => valueCommand env fuel (.operator op)
  | .lParen => valueCommand env fuel .lParen
  | .error msg => reject (.lexError msg)
  | _ => reject .unexpectedToken

def startState (c : Compiler) (line : List Byte) : State where
  cur :=
    { lx := Indexed.Lexer.new line
      ahead := none
      produced := []
      consumed := [] }
  comp := c

/-- Compile one REPL line. -/
def parse (env : Env) (c : Compiler) (line : List Byte) : EStateM.Result Stop State Outcome :=
  parseLine env (parseFuel line) (startState c line)

end Raw
end Compilation
end HolyRust
