import HolyRust.Compilation.CompileTimeReads
import HolyRust.Compilation.Tokens

/-!
# Peek terms that a line reaches

Which `peek` terms of a line are reached, and with which addresses, is found by going
through its tokens: terms get their values from left to right, and nothing is reached behind
the first thing that is wrong.  Besides tokens it takes the symbols, memory, the registry,
and the lengths of the functions, since a full stream is wrong too.
-/

namespace HolyRust
namespace Compilation

open Foundation
open Capabilities

/-!
## Walks over tokens
-/

/-- The tokens that are left, and how many words the statements so far come to. -/
structure Place where
  tokens : List Token
  words : Nat

/-- The addresses of the `peek` terms that are reached and, unless something is wrong, a
result and the place behind it. -/
def Walk (α : Type) : Type := Place -> List Word × Option (α × Place)

namespace Walk

instance : Monad Walk where
  pure a := fun p => ([], some (a, p))
  bind x f := fun p =>
    match (x p).2 with
    | none => ((x p).1, none)
    | some (a, p') => ((x p).1 ++ (f a p').1, (f a p').2)

def stop : Walk α := fun _ => ([], none)

/-- The next token; the end of input comes for ever. -/
def take : Walk Token :=
  fun p => ([], some (p.tokens.headD .eof, { p with tokens := p.tokens.tail }))

def look : Walk Token := fun p => ([], some (p.tokens.headD .eof, p))

def reach (mem : Word -> Option Word) (addr : Word) : Walk Word :=
  fun p => ([addr], (mem addr).map fun v => (v, p))

def place : Walk Place := fun p => ([], some (p, p))

def restart : Walk Unit := fun p => ([], some ((), { p with words := 0 }))

/-- `n` words more, if the stream has room for them. -/
def room (n : Nat) : Walk Unit := fun p =>
  ([], if p.words + n ≤ maxStreamWords then some ((), { p with words := p.words + n }) else none)

end Walk

open Walk

/-- The left operand, the sign and the right operand. -/
def calculate (op : Byte) (acc rhs : Word) : Option Word :=
  if op = byte '+' then some (acc + rhs)
  else if op = byte '-' then some (acc - rhs)
  else if op = byte '*' then some (acc * rhs)
  else if rhs = 0#32 then none
  else if op = byte '/' then some (acc / rhs)
  else some (acc % rhs)

def walkOperator (op : Byte) (acc rhs : Word) : Walk Word :=
  match calculate op acc rhs with
  | some v => pure v
  | none => stop

section Walks

variable (env : Env) (symbols : List Byte -> Option Word)

mutual

/-- A parenthesised expression or a single term, from its first token on. -/
def walkOperand : Nat -> Token -> Walk Word
  | 0, _ => stop
  | fuel + 1, tok =>
      if tok = .lParen then do
        let v <- walkExpr fuel none
        let close <- take
        if close = .rParen then pure v else stop
      else
        walkTerm fuel tok

def walkTerm : Nat -> Token -> Walk Word
  | 0, _ => stop
  | fuel + 1, tok =>
      match tok with
      | .literal v => pure v
      | .identifier id =>
          if id = ascii "peek" then do
            let first <- take
            let addr <- walkOperand fuel first
            reach env.mem addr
          else
            match symbols id with
            | some v => pure v
            | none => stop
      | _ => stop

def walkExpr : Nat -> Option Token -> Walk Word
  | 0, _ => stop
  | fuel + 1, first => do
      let head <- match first with
        | some t => pure t
        | none => take
      let acc <- walkOperand fuel head
      walkTail fuel acc

def walkTail : Nat -> Word -> Walk Word
  | 0, _ => stop
  | fuel + 1, acc => do
      let tok <- look
      match tok with
      | .operator op =>
          if isArithmetic op then do
            let _ <- take
            let first <- take
            let rhs <- walkOperand fuel first
            let acc' <- walkOperator op acc rhs
            walkTail fuel acc'
          else
            pure acc
      | _ => pure acc

end

def walkAtomic (fuel : Nat) : Walk Word := do
  let first <- take
  walkOperand env symbols fuel first

def walkToken (t : Token) : Walk Unit := do
  let tok <- take
  if tok = t then pure () else stop

def walkSemicolon : Walk Unit := do
  let tok <- take
  if tok = .semicolon ∨ tok = .eof then pure () else stop

/-- A name that fits its buffer. -/
def walkName : Walk Unit := do
  let tok <- take
  match tok with
  | .identifier id => if id.length ≤ nameMax then pure () else stop
  | _ => stop

def walkAccess (addr : Word) : Walk Unit :=
  if Accessible env.target env.registry addr then pure () else stop

/-- A `poke` statement takes five words. -/
def walkPoke (fuel : Nat) : Walk Unit := do
  let addr <- walkAtomic env symbols fuel
  let _ <- walkExpr env symbols fuel none
  walkSemicolon
  walkAccess env addr
  room 5

def walkPeek (fuel : Nat) : Walk Unit := do
  let addr <- walkAtomic env symbols fuel
  walkSemicolon
  walkAccess env addr
  room 3

def walkCount (fuel : Nat) : Walk Word := do
  let count <- walkAtomic env symbols fuel
  if count = 0#32 ∨ maxLoopUnroll < count.toNat then stop else pure count

def walkCallTail : Walk Unit := do
  let _ <- take
  walkToken .rParen
  walkSemicolon

variable (fnLength : List Byte -> Option Nat)

/-- The body of a function, which a call copies. -/
def walkBody (id : List Byte) : Walk Unit :=
  match fnLength id with
  | some n => room n
  | none => stop

mutual

def walkStmt : Nat -> Walk Unit
  | 0 => stop
  | fuel + 1 => do
      let tok <- take
      match tok with
      | .identifier id =>
          if id = ascii "poke" then
            walkPoke env symbols fuel
          else if id = ascii "peek" then
            walkPeek env symbols fuel
          else if id = ascii "loop" then do
            let count <- walkCount env symbols fuel
            let before <- place
            walkToken .lBrace
            walkBlock fuel
            let after <- place
            room ((after.words - before.words) * (count.toNat - 1))
          else do
            let ahead <- look
            if ahead = .lParen then do
              walkCallTail
              walkBody fnLength id
            else do
              let _ <- walkExpr env symbols fuel (some (.identifier id))
              walkSemicolon
      | _ => stop

def walkBlock : Nat -> Walk Unit
  | 0 => stop
  | fuel + 1 => do
      let tok <- look
      if tok = .rBrace then do
        let _ <- take
        pure ()
      else if tok = .eof then stop
      else do
        walkStmt fuel
        walkBlock fuel

end

/-- The block of a top-level loop, of which only `poke` and `peek` statements are read. -/
def walkTopBlock : Nat -> Walk Unit
  | 0 => stop
  | fuel + 1 => do
      let tok <- look
      if tok = .rBrace then do
        let _ <- take
        pure ()
      else if tok = .eof then stop
      else do
        let tok <- take
        if tok = .identifier (ascii "poke") then walkPoke env symbols fuel
        else if tok = .identifier (ascii "peek") then walkPeek env symbols fuel
        else pure ()
        walkTopBlock fuel

/-!
## Lines

Behind its last expression a line reaches nothing more.
-/

def walkLet (fuel : Nat) : Walk Unit := do
  walkName
  walkToken (.operator (byte '='))
  let _ <- walkExpr env symbols fuel none
  pure ()

def walkFn (fuel : Nat) : Walk Unit := do
  walkName
  walkToken .lParen
  walkToken .rParen
  walkToken .lBrace
  restart
  walkBlock env symbols fnLength fuel

def walkLoop (fuel : Nat) : Walk Unit := do
  let _ <- walkCount env symbols fuel
  walkToken .lBrace
  restart
  walkTopBlock env symbols fuel

/-- The operands of a command. -/
def walkCommand (fuel : Nat) : Command -> Walk Unit
  | .peek | .pwmDuty | .poolAlloc | .spiTx => do
      let _ <- walkAtomic env symbols fuel
      pure ()
  | .poke => do
      let _ <- walkAtomic env symbols fuel
      let _ <- walkExpr env symbols fuel none
      pure ()
  | .regSetBit | .regClrBit | .pwm => do
      let _ <- walkAtomic env symbols fuel
      let _ <- walkAtomic env symbols fuel
      pure ()
  | .loop => walkLoop env symbols fuel
  | _ => pure ()

def walkValue (fuel : Nat) (first : Token) : Walk Unit := do
  let _ <- walkExpr env symbols fuel (some first)
  pure ()

/-- An identifier that is no keyword; the arguments of a call are never read. -/
def walkCallOrValue (fuel : Nat) (id : List Byte) : Walk Unit := do
  let ahead <- look
  if ahead = .lParen then pure () else walkValue env symbols fuel (.identifier id)

def walkLine (fuel : Nat) : Walk Unit := do
  let first <- take
  match first with
  | .kwLet => walkLet env symbols fuel
  | .kwFn => walkFn env symbols fnLength fuel
  | .identifier id =>
      match commandOf id with
      | some command => walkCommand env symbols fuel command
      | none => walkCallOrValue env symbols fuel id
  | .literal v => walkValue env symbols fuel (.literal v)
  | .operator op => walkValue env symbols fuel (.operator op)
  | .lParen => walkValue env symbols fuel .lParen
  | _ => stop

end Walks

/-- How many words the body of `name` has. -/
def Compiler.bodyLength (c : Compiler) (name : List Byte) : Option Nat :=
  (c.findFn name).map fun i => (c.fns i).body.length

/-- The addresses of the `peek` terms that the line reaches, in order. -/
def reachedPeeks (env : Env) (c : Compiler) (line : List Byte) : List Word :=
  (walkLine env c.lookupSymbol c.bodyLength (parseFuel line)
    ⟨tokensOf line, c.stream.words.length⟩).1

end Compilation
end HolyRust
