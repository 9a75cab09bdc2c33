import HolyRust.Foundation.Program
import HolyRust.Capabilities.Registry
import HolyRust.Compilation.State

/-!
# Single-pass parser

Expression parsing only moves the cursor and may read memory, so it runs over
the scan state alone; statement parsing also owns the compiler.  The lists of
addresses read while compiling and of addresses that `check_access` accepted
are ghosts.

Recursion is bounded by fuel.  A line comes with more fuel than it has bytes to
spend, so `Abort.fuel` never ends a parse.
-/

namespace HolyRust
namespace Compilation

open Foundation
open Capabilities

/-- What a parse sees besides its line and the compiler: the registry, and
memory, where `none` is an access that faults. -/
structure Env where
  target : Target
  prims : Prims
  registry : Registry
  mem : Word -> Option Word

/-- An ARM build with no capability claimed and all of memory zero. -/
def Env.idle : Env where
  target := .arm
  prims := .inFlash
  registry := fun _ => 0#32
  mem := fun _ => some 0#32

/-- How a parse ends without an outcome. -/
inductive Abort where
  | error (e : ParseError)
  | fault (addr : Word)
  | fuel
deriving DecidableEq, Repr

/-!
## Cursor
-/

/-- One-token-lookahead cursor over the lexer. -/
structure Cur where
  lx : Lexer
  ahead : Option Token

namespace Cur

def next (cur : Cur) : Token × Cur :=
  match cur.ahead with
  | some t => (t, { cur with ahead := none })
  | none => (cur.lx.nextToken.1, { lx := cur.lx.nextToken.2, ahead := none })

def peek (cur : Cur) : Token × Cur :=
  match cur.ahead with
  | some t => (t, cur)
  | none => (cur.lx.nextToken.1,
      { lx := cur.lx.nextToken.2, ahead := some cur.lx.nextToken.1 })

end Cur

structure Scan where
  cur : Cur
  reads : List Word

/-- Expression parsers. -/
abbrev ScanM : Type -> Type := EStateM Abort Scan

def next : ScanM Token :=
  modifyGet fun s => (s.cur.next.1, { s with cur := s.cur.next.2 })

def peek : ScanM Token :=
  modifyGet fun s => (s.cur.peek.1, { s with cur := s.cur.peek.2 })

def fail (e : ParseError) : ScanM α := throw (.error e)

/-- The compile-time read of a `peek` term. -/
def peekU32 (env : Env) (addr : Word) : ScanM Word := do
  modify fun s => { s with reads := addr :: s.reads }
  match env.mem addr with
  | some v => pure v
  | none => throw (.fault addr)

/-!
## Expressions
-/

def isArithmetic (op : Byte) : Bool := (ascii "+-*/%").contains op

/-- Wrapping arithmetic; division and remainder by zero are errors. -/
def applyOperator (op : Byte) (acc rhs : Word) : ScanM Word :=
  if op = byte '+' then pure (acc + rhs)
  else if op = byte '-' then pure (acc - rhs)
  else if op = byte '*' then pure (acc * rhs)
  else if op = byte '/' then
    if rhs = 0#32 then fail .divByZero else pure (acc / rhs)
  else
    if rhs = 0#32 then fail .divByZero else pure (acc % rhs)

mutual

/-- A parenthesised expression or a single term, from its first token on. -/
def operand (env : Env) (c : Compiler) : Nat -> Token -> ScanM Word
  | 0, _ => throw .fuel
  | fuel + 1, tok =>
      if tok = .lParen then do
        let v <- evalExpr env c fuel none
        let close <- next
        if close = .rParen then pure v else fail .unexpectedToken
      else
        resolveTerm env c fuel tok

/-- One term; `peek ADDR` reads memory here and now. -/
def resolveTerm (env : Env) (c : Compiler) : Nat -> Token -> ScanM Word
  | 0, _ => throw .fuel
  | fuel + 1, tok =>
      match tok with
      | .literal v => pure v
      | .identifier id =>
          if id = ascii "peek" then do
            let first <- next
            let addr <- operand env c fuel first
            peekU32 env addr
          else
            match c.lookupSymbol id with
            | some v => pure v
            | none => fail .unknownSymbol
      | .error msg => fail (.lexError msg)
      | _ => fail .unexpectedToken

/-- Left to right, no precedence; `first` is a token that was consumed already. -/
def evalExpr (env : Env) (c : Compiler) : Nat -> Option Token -> ScanM Word
  | 0, _ => throw .fuel
  | fuel + 1, first => do
      let head <- match first with
        | some t => pure t
        | none => next
      let acc <- operand env c fuel head
      evalTail env c fuel acc

/-- The loop of `eval_expr` over operator and right operand. -/
def evalTail (env : Env) (c : Compiler) : Nat -> Word -> ScanM Word
  | 0, _ => throw .fuel
  | fuel + 1, acc => do
      let tok <- peek
      match tok with
      | .operator op =>
          if isArithmetic op then do
            let _ <- next
            let first <- next
            let rhs <- operand env c fuel first
            let acc' <- applyOperator op acc rhs
            evalTail env c fuel acc'
          else
            pure acc
      | _ => pure acc

end

def parseAtomicTerm (env : Env) (fuel : Nat) (c : Compiler) : ScanM Word := do
  let first <- next
  operand env c fuel first

/-!
## Statements
-/

structure ParseState where
  scan : Scan
  comp : Compiler
  checked : List Word

/-- Statement parsers. -/
abbrev ParseM : Type -> Type := EStateM Abort ParseState

/-- Run an expression parser; it sees the compiler but cannot change it. -/
def scanning (x : Compiler -> ScanM α) : ParseM α :=
  fun s =>
    match x s.comp s.scan with
    | .ok a scan => .ok a { s with scan := scan }
    | .error e scan => .error e { s with scan := scan }

theorem sat_scanning {x : Compiler -> ScanM α} {s : ParseState}
    {Q : α -> ParseState -> Prop} {E : Abort -> ParseState -> Prop}
    (h : Sat (x s.comp) s.scan (fun a scan => Q a { s with scan := scan })
      (fun e scan => E e { s with scan := scan })) :
    Sat (scanning x) s Q E := by
  unfold Sat scanning at *
  cases hx : x s.comp s.scan with
  | ok a scan =>
      rw [hx] at h
      exact h
  | error e scan =>
      rw [hx] at h
      exact h

def reject (e : ParseError) : ParseM α := throw (.error e)

/-- A pure step of the compiler that may fail. -/
def liftExcept (x : Except ParseError α) : ParseM α :=
  match x with
  | .ok a => pure a
  | .error e => reject e

def nextToken : ParseM Token := scanning fun _ => next

def peekToken : ParseM Token := scanning fun _ => peek

def expectToken (t : Token) : ParseM Unit := do
  let tok <- nextToken
  if tok = t then pure () else reject .unexpectedToken

def expectName : ParseM NameBuf := do
  let tok <- nextToken
  match tok with
  | .identifier id => liftExcept (NameBuf.fromSlice id)
  | _ => reject .unexpectedToken

def expectSemicolon : ParseM Unit := do
  let tok <- nextToken
  if tok = .semicolon ∨ tok = .eof then pure () else reject .missingSemicolon

def allowOptionalSemicolon : ParseM Unit := do
  let tok <- peekToken
  if tok = .semicolon then do
    let _ <- nextToken
    pure ()
  else
    pure ()

/-- `check_access(addr).map_err(|_| CapabilityViolation)`. -/
def requireAccess (env : Env) (addr : Word) : ParseM Unit :=
  match checkAccess env.target env.registry addr with
  | .ok _ => modify fun s => { s with checked := addr :: s.checked }
  | .error _ => reject .capabilityViolation

def checkTimerCap (env : Env) : ParseM Unit :=
  requireAccess env (match env.target with
    | .riscv32 => 0x10015000#32
    | .arm => 0x40000000#32)

def checkSpiCap (env : Env) : ParseM Unit :=
  requireAccess env (match env.target with
    | .riscv32 => 0x10014000#32
    | .arm => 0x40013000#32)

/-!
## Stream emission
-/

def setStream (stream : Stream) : ParseM Unit :=
  modify fun s => { s with comp := { s.comp with stream := stream } }

def getStream : ParseM Stream := do
  let s <- get
  pure s.comp.stream

def streamReset : ParseM Unit := setStream .empty

def streamPush (word : Word) : ParseM Unit := do
  let stream <- getStream
  if h : stream.words.length < maxStreamWords then
    setStream ⟨stream.words ++ [word], by rw [List.length_append]; exact h⟩
  else
    reject .streamFull

def streamPushLit (env : Env) (value : Word) : ParseM Unit := do
  streamPush (env.prims.wordOf .lit)
  streamPush value

def streamHalt (env : Env) : ParseM Unit :=
  streamPush (env.prims.wordOf .halt)

def takeProgram (yieldsValue : Bool) : ParseM StreamProgram := do
  let stream <- getStream
  pure ⟨stream, yieldsValue⟩

def pushWords : List Word -> ParseM Unit
  | [] => pure ()
  | w :: ws => do
      streamPush w
      pushWords ws

/-- Push the `n` stream words from position `i` on. -/
def copyRange : Nat -> Nat -> ParseM Unit
  | 0, _ => pure ()
  | n + 1, i => do
      let stream <- getStream
      streamPush (stream.words.getD i 0#32)
      copyRange n (i + 1)

/-- Unroll a loop body `rounds` more times. -/
def unroll (start len : Nat) : Nat -> ParseM Unit
  | 0 => pure ()
  | rounds + 1 => do
      let stream <- getStream
      if maxStreamWords < stream.words.length + len then reject .streamFull
      else do
        copyRange len start
        unroll start len rounds

def buildValueProgram (env : Env) (value : Word) : ParseM StreamProgram := do
  streamReset
  streamPushLit env value
  streamHalt env
  takeProgram true

def getFnBody (name : List Byte) : ParseM (List Word) := do
  let s <- get
  match s.comp.findFn name with
  | some i => pure (s.comp.fns i).body
  | none => reject .unknownSymbol

def buildCallProgram (env : Env) (name : List Byte) : ParseM StreamProgram := do
  let body <- getFnBody name
  streamReset
  pushWords body
  streamHalt env
  takeProgram false

def spliceCall (name : List Byte) : ParseM Unit := do
  let body <- getFnBody name
  pushWords body

/-!
## Function bodies and loops
-/

/-- `poke ADDR EXPR;` after its keyword, in a body or a top-level loop. -/
def pokeStmt (env : Env) (fuel : Nat) : ParseM Unit := do
  let addr <- scanning (parseAtomicTerm env fuel)
  let val <- scanning (fun c => evalExpr env c fuel none)
  expectSemicolon
  requireAccess env addr
  streamPushLit env addr
  streamPushLit env val
  streamPush (env.prims.wordOf .writeReg)

/-- `peek ADDR;` after its keyword, in a body or a top-level loop. -/
def peekStmt (env : Env) (fuel : Nat) : ParseM Unit := do
  let addr <- scanning (parseAtomicTerm env fuel)
  expectSemicolon
  requireAccess env addr
  streamPushLit env addr
  streamPush (env.prims.wordOf .loadReg)

/-- A loop count and its bounds check. -/
def loopCount (env : Env) (fuel : Nat) : ParseM Word := do
  let count <- scanning (parseAtomicTerm env fuel)
  if count = 0#32 ∨ maxLoopUnroll < count.toNat then reject .loopTooLarge
  else pure count

/-- The argument list of a call, and what ends the statement. -/
def callTail : ParseM Unit := do
  let _ <- nextToken
  expectToken .rParen
  expectSemicolon

mutual

/-- One statement inside a fn body. -/
def parseBodyStmt (env : Env) : Nat -> ParseM Unit
  | 0 => throw .fuel
  | fuel + 1 => do
      let tok <- nextToken
      match tok with
      | .identifier id =>
          if id = ascii "poke" then
            pokeStmt env fuel
          else if id = ascii "peek" then
            peekStmt env fuel
          else if id = ascii "loop" then do
            let count <- loopCount env fuel
            let before <- getStream
            expectToken .lBrace
            parseBlock env fuel
            let after <- getStream
            unroll before.words.length (after.words.length - before.words.length)
              (count.toNat - 1)
          else do
            let ahead <- peekToken
            if ahead = .lParen then do
              callTail
              spliceCall id
            else do
              let _ <- scanning (fun c => evalExpr env c fuel (some (.identifier id)))
              expectSemicolon
      | _ => reject .unexpectedToken

/-- Statements up to and including the closing brace. -/
def parseBlock (env : Env) : Nat -> ParseM Unit
  | 0 => throw .fuel
  | fuel + 1 => do
      let tok <- peekToken
      if tok = .rBrace then do
        let _ <- nextToken
        pure ()
      else if tok = .eof then reject .unexpectedToken
      else do
        parseBodyStmt env fuel
        parseBlock env fuel

end

/-- The block of a top-level loop: everything but `poke` and `peek` is skipped. -/
def parseTopBlock (env : Env) : Nat -> ParseM Unit
  | 0 => throw .fuel
  | fuel + 1 => do
      let tok <- peekToken
      if tok = .rBrace then do
        let _ <- nextToken
        pure ()
      else if tok = .eof then reject .unexpectedToken
      else do
        let stmt <- nextToken
        if stmt = .identifier (ascii "poke") then pokeStmt env fuel
        else if stmt = .identifier (ascii "peek") then peekStmt env fuel
        else pure ()
        parseTopBlock env fuel

/-!
## Lines
-/

def setComp (c : Compiler) : ParseM Unit :=
  modify fun s => { s with comp := c }

def parseLet (env : Env) (fuel : Nat) : ParseM Outcome := do
  let name <- expectName
  expectToken (.operator (byte '='))
  let value <- scanning (fun c => evalExpr env c fuel none)
  expectSemicolon
  let s <- get
  let c <- liftExcept (s.comp.insertSymbol name value)
  setComp c
  pure (.bound name value)

/-- Store the stream as the body of `name`. -/
def defineFn (name : NameBuf) : ParseM Unit := do
  let s <- get
  if h : s.comp.stream.words.length ≤ fnBodyWords then do
    let i <- liftExcept (s.comp.allocFnSlot name)
    setComp (s.comp.setFn i ⟨name, s.comp.stream.words, h⟩)
  else
    reject .streamFull

def parseFn (env : Env) (fuel : Nat) : ParseM Outcome := do
  let name <- expectName
  expectToken .lParen
  expectToken .rParen
  expectToken .lBrace
  streamReset
  parseBlock env fuel
  defineFn name
  pure (.fnDefined name)

/-- The commands of `parse_command` that have a keyword. -/
inductive Command where
  | peek
  | poke
  | capClaim
  | capDrop
  | regSetBit
  | regClrBit
  | help
  | banner
  | sysAudit
  | bench
  | pwm
  | pwmDuty
  | store
  | load
  | storeList
  | loop
  | flashTest
  | poolAlloc
  | poolFree
  | poolStats
  | spawn
  | spiTx
deriving DecidableEq, Repr

def commandTable : List (List Byte × Command) :=
  [(ascii "peek", .peek),
    (ascii "poke", .poke),
    (ascii "cap_claim", .capClaim),
    (ascii "cap_drop", .capDrop),
    (ascii "reg_set_bit", .regSetBit),
    (ascii "reg_clr_bit", .regClrBit),
    (ascii "help", .help),
    (ascii "banner", .banner),
    (ascii "sys_audit", .sysAudit),
    (ascii "bench", .bench),
    (ascii "pwm", .pwm),
    (ascii "pwm_duty", .pwmDuty),
    (ascii "store", .store),
    (ascii "load", .load),
    (ascii "store_list", .storeList),
    (ascii "loop", .loop),
    (ascii "flash_test", .flashTest),
    (ascii "pool_alloc", .poolAlloc),
    (ascii "pool_free", .poolFree),
    (ascii "pool_stats;", .poolStats),
    (ascii "pool_stats", .poolStats),
    (ascii "spawn", .spawn),
    (ascii "spi_tx", .spiTx)]

def commandOf (id : List Byte) : Option Command :=
  (commandTable.find? fun row => decide (row.1 = id)).map fun row => row.2

/-- A command that is only its keyword. -/
def keywordCommand (outcome : Outcome) : ParseM Outcome := do
  allowOptionalSemicolon
  pure outcome

/-- A command with one name. -/
def nameCommand (outcome : NameBuf -> Outcome) : ParseM Outcome := do
  let name <- expectName
  expectSemicolon
  pure (outcome name)

/-- `reg_set_bit` and `reg_clr_bit`. -/
def bitCommand (env : Env) (fuel : Nat) (outcome : Word -> Word -> Outcome) :
    ParseM Outcome := do
  let addr <- scanning (parseAtomicTerm env fuel)
  let bit <- scanning (parseAtomicTerm env fuel)
  expectSemicolon
  requireAccess env addr
  pure (outcome addr bit)

def peekCommand (env : Env) (fuel : Nat) : ParseM Outcome := do
  let addr <- scanning (parseAtomicTerm env fuel)
  expectSemicolon
  requireAccess env addr
  pure (.enforcedPeek addr)

def pokeCommand (env : Env) (fuel : Nat) : ParseM Outcome := do
  let addr <- scanning (parseAtomicTerm env fuel)
  let val <- scanning (fun c => evalExpr env c fuel none)
  expectSemicolon
  requireAccess env addr
  pure (.enforcedPoke addr val)

def pwmCommand (env : Env) (fuel : Nat) : ParseM Outcome := do
  let period <- scanning (parseAtomicTerm env fuel)
  let duty <- scanning (parseAtomicTerm env fuel)
  expectSemicolon
  checkTimerCap env
  pure (.pwm period duty)

def pwmDutyCommand (env : Env) (fuel : Nat) : ParseM Outcome := do
  let duty <- scanning (parseAtomicTerm env fuel)
  expectSemicolon
  checkTimerCap env
  pure (.pwmDuty duty)

def poolAllocCommand (env : Env) (fuel : Nat) : ParseM Outcome := do
  let size <- scanning (parseAtomicTerm env fuel)
  expectSemicolon
  pure (.poolAlloc size)

def spiTxCommand (env : Env) (fuel : Nat) : ParseM Outcome := do
  let b <- scanning (parseAtomicTerm env fuel)
  expectSemicolon
  checkSpiCap env
  pure (.spiTx (b.setWidth 8))

/-- `loop N { .. }` at top level. -/
def loopCommand (env : Env) (fuel : Nat) : ParseM Outcome := do
  let count <- loopCount env fuel
  expectToken .lBrace
  streamReset
  parseTopBlock env fuel
  let body <- getStream
  unroll 0 body.words.length (count.toNat - 1)
  streamHalt env
  let program <- takeProgram false
  pure (.run program)

/-- A bare expression, from its first token on: evaluate and print. -/
def valueCommand (env : Env) (fuel : Nat) (first : Token) : ParseM Outcome := do
  let value <- scanning (fun c => evalExpr env c fuel (some first))
  expectSemicolon
  let program <- buildValueProgram env value
  pure (.run program)

/-- An identifier that is no keyword: a call or an expression. -/
def callOrValue (env : Env) (fuel : Nat) (id : List Byte) : ParseM Outcome := do
  let ahead <- peekToken
  if ahead = .lParen then do
    callTail
    let program <- buildCallProgram env id
    pure (.run program)
  else
    valueCommand env fuel (.identifier id)

def runCommand (env : Env) (fuel : Nat) : Command -> ParseM Outcome
  | .peek => peekCommand env fuel
  | .poke => pokeCommand env fuel
  | .capClaim => nameCommand .claim
  | .capDrop => nameCommand .drop
  | .regSetBit => bitCommand env fuel .setBit
  | .regClrBit => bitCommand env fuel .clrBit
  | .help => keywordCommand .help
  | .banner => keywordCommand .banner
  | .sysAudit => keywordCommand .sysAudit
  | .bench => keywordCommand .bench
  | .pwm => pwmCommand env fuel
  | .pwmDuty => pwmDutyCommand env fuel
  | .store => nameCommand .store
  | .load => nameCommand .load
  | .storeList => keywordCommand .storeList
  | .loop => loopCommand env fuel
  | .flashTest => keywordCommand .flashTest
  | .poolAlloc => poolAllocCommand env fuel
  | .poolFree => keywordCommand .poolFree
  | .poolStats => pure .poolStats
  | .spawn => nameCommand .spawn
  | .spiTx => spiTxCommand env fuel

def parseCommand (env : Env) (fuel : Nat) (id : List Byte) : ParseM Outcome :=
  match commandOf id with
  | some command => runCommand env fuel command
  | none => callOrValue env fuel id

def parseLine (env : Env) (fuel : Nat) : ParseM Outcome := do
  let first <- nextToken
  match first with
  | .eof => reject .emptyLine
  | .kwLet => parseLet env fuel
  | .kwFn => parseFn env fuel
  | .identifier id => parseCommand env fuel id
  | .literal v => valueCommand env fuel (.literal v)
  | .operator op => valueCommand env fuel (.operator op)
  | .lParen => valueCommand env fuel .lParen
  | .error msg => reject (.lexError msg)
  | _ => reject .unexpectedToken

/-- Enough for every level that the bytes of the line can open. -/
def parseFuel (line : List Byte) : Nat := 3 * line.length + 8

def startState (c : Compiler) (line : List Byte) : ParseState where
  scan :=
    { cur := { lx := Lexer.new line, ahead := none }
      reads := [] }
  comp := c
  checked := []

/-- Compile one REPL line. -/
def parse (env : Env) (c : Compiler) (line : List Byte) :
    EStateM.Result Abort ParseState Outcome :=
  parseLine env (parseFuel line) (startState c line)

end Compilation
end HolyRust
