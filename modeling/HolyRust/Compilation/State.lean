import HolyRust.Compilation.Lexer

/-!
# Compiler state

What survives from one line to the next: the symbol table, two function slots
and the stream buffer.  Capacities are part of the types, as the fixed-size
arrays are in the source.
-/

namespace HolyRust
namespace Compilation

def maxStreamWords : Nat := 128

def symbolSlots : Nat := 32

def nameMax : Nat := 16

def maxFns : Nat := 2

def fnBodyWords : Nat := 32

def maxLoopUnroll : Nat := 64

/-- Parser failure modes. -/
inductive ParseError where
  | lexError (msg : LexMsg)
  | unexpectedToken
  | unsupportedOperator (op : Byte)
  | unknownSymbol
  | duplicateFn
  | symbolTableFull
  | fnTableFull
  | streamFull
  | nameTooLong
  | divByZero
  | missingSemicolon
  | emptyLine
  | capabilityViolation
  | loopTooLarge
deriving DecidableEq, Repr

/-- Fixed-capacity identifier storage. -/
structure NameBuf where
  bytes : List Byte
  length_le : bytes.length ≤ nameMax
deriving DecidableEq

def NameBuf.fromSlice (name : List Byte) : Except ParseError NameBuf :=
  if h : name.length ≤ nameMax then .ok ⟨name, h⟩ else .error .nameTooLong

def NameBuf.empty : NameBuf := ⟨[], Nat.zero_le _⟩

/-!
## Threaded programs
-/

/-- The micro-primitives. -/
inductive Prim where
  | lit
  | loadReg
  | writeReg
  | add
  | sub
  | mul
  | div
  | halt
deriving DecidableEq, Repr

/-- Code addresses of the primitives, as the linker assigned them. -/
structure Prims where
  wordOf : Prim -> Word
  wordOf_ne_zero : forall p, wordOf p ≠ 0#32
  wordOf_injective : forall p q, wordOf p = wordOf q -> p = q

/-- One possible link: the primitives one after another in flash. -/
def Prims.inFlash : Prims where
  wordOf
    | .lit => 0x08001001#32
    | .loadReg => 0x08001011#32
    | .writeReg => 0x08001021#32
    | .add => 0x08001031#32
    | .sub => 0x08001041#32
    | .mul => 0x08001051#32
    | .div => 0x08001061#32
    | .halt => 0x08001071#32
  wordOf_ne_zero := by
    intro p
    cases p <;> decide
  wordOf_injective := by
    intro p q h
    cases p <;> cases q <;> first | rfl | exact absurd h (by decide)

/-- The stream buffer up to `stream_len`. -/
structure Stream where
  words : List Word
  length_le : words.length ≤ maxStreamWords

def Stream.empty : Stream := ⟨[], Nat.zero_le _⟩

/-- A compiled token stream; the words past `len` are zero. -/
structure StreamProgram where
  stream : Stream
  yieldsValue : Bool

/-- What the parser decided the input line means. -/
inductive Outcome where
  | empty
  | bound (name : NameBuf) (value : Word)
  | fnDefined (name : NameBuf)
  | run (program : StreamProgram)
  | claim (name : NameBuf)
  | drop (name : NameBuf)
  | setBit (addr bit : Word)
  | clrBit (addr bit : Word)
  | help
  | banner
  | sysAudit
  | enforcedPoke (addr val : Word)
  | enforcedPeek (addr : Word)
  | bench
  | pwm (period duty : Word)
  | pwmDuty (duty : Word)
  | spiTx (byte : Byte)
  | flashTest
  | store (name : NameBuf)
  | load (name : NameBuf)
  | storeList
  | spawn (name : NameBuf)
  | poolAlloc (size : Word)
  | poolFree
  | poolStats

/-!
## Persistent state
-/

structure Symbol where
  name : NameBuf
  value : Word

/-- A function slot; it is free while its name is empty. -/
structure FnSlot where
  name : NameBuf
  body : List Word
  length_le : body.length ≤ fnBodyWords

def FnSlot.free : FnSlot := ⟨.empty, [], Nat.zero_le _⟩

structure Compiler where
  symbols : Fin symbolSlots -> Option Symbol
  fns : Fin maxFns -> FnSlot
  stream : Stream

namespace Compiler

def new : Compiler where
  symbols := fun _ => none
  fns := fun _ => .free
  stream := .empty

/-!
## Symbol table
-/

/-- FNV-1a, 32 bits. -/
def hash (name : List Byte) : Nat :=
  (name.foldl (fun h b => (h ^^^ b.setWidth 32) * 0x01000193#32) 0x811C9DC5#32).toNat %
    symbolSlots

/-- Slot `step` of the probe sequence that starts at `start`. -/
def probe (start step : Nat) : Fin symbolSlots :=
  ⟨(start + step) % symbolSlots, Nat.mod_lt _ (by decide)⟩

/-- Probe `n` slots from `step` on; an empty slot ends the chain. -/
def lookupLoop (c : Compiler) (name : List Byte) (start : Nat) : Nat -> Nat -> Option Word
  | 0, _ => none
  | n + 1, step =>
      match c.symbols (probe start step) with
      | none => none
      | some s => if s.name.bytes = name then some s.value else lookupLoop c name start n (step + 1)

def lookupSymbol (c : Compiler) (name : List Byte) : Option Word :=
  c.lookupLoop name (hash name) symbolSlots 0

def insertLoop (c : Compiler) (name : NameBuf) (value : Word) (start : Nat) :
    Nat -> Nat -> Except ParseError Compiler
  | 0, _ => .error .symbolTableFull
  | n + 1, step =>
      let here := { c with
        symbols := fun i => if i = probe start step then some ⟨name, value⟩ else c.symbols i }
      match c.symbols (probe start step) with
      | none => .ok here
      | some s =>
          if s.name.bytes = name.bytes then .ok here
          else insertLoop c name value start n (step + 1)

def insertSymbol (c : Compiler) (name : NameBuf) (value : Word) :
    Except ParseError Compiler :=
  c.insertLoop name value (hash name.bytes) symbolSlots 0

/-!
## Functions
-/

def fnAllocated (c : Compiler) (i : Fin maxFns) : Bool :=
  decide (0 < (c.fns i).name.bytes.length)

def findFn (c : Compiler) (name : List Byte) : Option (Fin maxFns) :=
  (List.finRange maxFns).find? fun i =>
    c.fnAllocated i && decide ((c.fns i).name.bytes = name)

def allocFnSlot (c : Compiler) (name : NameBuf) : Except ParseError (Fin maxFns) :=
  if (c.findFn name.bytes).isSome then
    .error .duplicateFn
  else
    match (List.finRange maxFns).find? fun i => decide ((c.fns i).name.bytes.length = 0) with
    | some i => .ok i
    | none => .error .fnTableFull

def setFn (c : Compiler) (i : Fin maxFns) (slot : FnSlot) : Compiler :=
  { c with fns := fun j => if j = i then slot else c.fns j }

/-- The body of `name`, if it fits `capacity` words. -/
def exportFn (c : Compiler) (name : List Byte) (capacity : Nat) : Option (List Word) :=
  match c.findFn name with
  | none => none
  | some i => if (c.fns i).body.length ≤ capacity then some (c.fns i).body else none

/-- Install `name` with body `words`, as if it had been defined. -/
def importFn (c : Compiler) (name : List Byte) (words : List Word) :
    Except ParseError Compiler :=
  if nameMax < name.length then
    .error .nameTooLong
  else if h : words.length ≤ fnBodyWords then
    match NameBuf.fromSlice name with
    | .error e => .error e
    | .ok nb =>
        match c.allocFnSlot nb with
        | .error e => .error e
        | .ok i => .ok (c.setFn i ⟨nb, words, h⟩)
  else
    .error .streamFull

end Compiler

end Compilation
end HolyRust
