import HolyRust.Compilation.State
import HolyRust.Foundation.Bus

/-!
# Threaded execution

The dispatch engine of `exec.rs` over the micro-primitives.  A stream is the
array of words that the instruction pointer walks over; memory is an arbitrary
bus.  The machine also keeps a record of what statements about a run speak of:
the accesses in order, the positions it dispatched, and how often a push was
dropped or an empty stack was popped.
-/

namespace HolyRust
namespace Execution

open Foundation
open Compilation

def vmStackSize : Nat := 64

/-- The operand stack up to `VM_SP`, top first. -/
structure VmStack where
  items : List Word
  length_le : items.length ≤ vmStackSize

def VmStack.empty : VmStack := ⟨[], Nat.zero_le _⟩

structure Vm (σ : Type) where
  stack : VmStack
  bus : σ
  trace : List (Access Word Word)
  dispatched : List Nat
  dropped : Nat
  underflows : Nat

namespace Vm

/-- The machine after `vm_reset`, with an empty record. -/
def start (s : σ) : Vm σ where
  stack := .empty
  bus := s
  trace := []
  dispatched := []
  dropped := 0
  underflows := 0

/-- `vm_push`: a full stack drops the value. -/
def push (vm : Vm σ) (value : Word) : Vm σ :=
  if h : vm.stack.items.length < vmStackSize then
    { vm with stack := ⟨value :: vm.stack.items, h⟩ }
  else
    { vm with dropped := vm.dropped + 1 }

/-- `vm_pop`: an empty stack answers 0. -/
def pop (vm : Vm σ) : Word × Vm σ :=
  match h : vm.stack.items with
  | [] => (0#32, { vm with underflows := vm.underflows + 1 })
  | v :: rest =>
      (v, { vm with
        stack := ⟨rest, Nat.le_of_succ_le (by have hle := vm.stack.length_le; rwa [h] at hle)⟩ })

/-- Dispatch of the word at `ip`. -/
def mark (vm : Vm σ) (ip : Nat) : Vm σ :=
  { vm with dispatched := vm.dispatched ++ [ip] }

/-- `read_volatile` through the bus. -/
def load (bus : Bus Word Word σ) (vm : Vm σ) (addr : Word) : Word × Vm σ :=
  ((bus.load vm.bus addr).1,
    { vm with bus := (bus.load vm.bus addr).2, trace := vm.trace ++ [.read addr] })

/-- `write_volatile` through the bus. -/
def store (bus : Bus Word Word σ) (vm : Vm σ) (addr value : Word) : Vm σ :=
  { vm with bus := bus.store vm.bus addr value, trace := vm.trace ++ [.write addr value] }

end Vm

/-!
## Primitives
-/

def loadRegPrim (bus : Bus Word Word σ) (vm : Vm σ) : Vm σ :=
  let addr := vm.pop
  let value := addr.2.load bus addr.1
  value.2.push value.1

def writeRegPrim (bus : Bus Word Word σ) (vm : Vm σ) : Vm σ :=
  let value := vm.pop
  let addr := value.2.pop
  addr.2.store bus addr.1 value.1

/-- Pop b, pop a, push `op a b`. -/
def binaryPrim (op : Word -> Word -> Word) (vm : Vm σ) : Vm σ :=
  let b := vm.pop
  let a := b.2.pop
  a.2.push (op a.1 b.1)

/-- `checked_div`, 0 when the divisor is 0. -/
def divOrZero (a b : Word) : Word := if b = 0#32 then 0#32 else a / b

/-- The primitives that only use the stack and the bus. -/
def operate (bus : Bus Word Word σ) : Prim -> Vm σ -> Vm σ
  | .loadReg, vm => loadRegPrim bus vm
  | .writeReg, vm => writeRegPrim bus vm
  | .add, vm => binaryPrim (· + ·) vm
  | .sub, vm => binaryPrim (· - ·) vm
  | .mul, vm => binaryPrim (· * ·) vm
  | .div, vm => binaryPrim divOrZero vm
  -- these two use the instruction pointer and belong to the dispatch loop
  | .lit, vm => vm
  | .halt, vm => vm

/-!
## Dispatch
-/

def Prim.all : List Prim := [.lit, .loadReg, .writeReg, .add, .sub, .mul, .div, .halt]

/-- The primitive whose code is at `word`. -/
def codeAt (prims : Prims) (word : Word) : Option Prim :=
  Prim.all.find? fun p => decide (prims.wordOf p = word)

/-- How a dispatch loop ends. -/
inductive Stop where
  | halted (ip : Nat)
  | zeroWord (ip : Nat)
  | wildJump (ip : Nat)
  | overrun
deriving DecidableEq, Repr

/-- The loop itself ended; behind the other stops control is anywhere. -/
def Stop.Controlled : Stop -> Prop
  | .halted _ => True
  | .zeroWord _ => True
  | .wildJump _ => False
  | .overrun => False

/-- The words from index `ip` on; a jump to a word that is no primitive and a
read past the array are where Rust promises nothing any more. -/
def runThreadedStream (prims : Prims) (bus : Bus Word Word σ) :
    Nat -> List Word -> Vm σ -> Stop × Vm σ
  | _, [], vm => (.overrun, vm)
  | ip, word :: rest, vm =>
      if word = 0#32 then (.zeroWord ip, vm)
      else
        match codeAt prims word with
        | none => (.wildJump ip, vm)
        | some p =>
            if p = .halt then (.halted ip, vm.mark ip)
            else if p = .lit then
              match rest with
              | [] => (.overrun, vm.mark ip)
              | v :: rest' => runThreadedStream prims bus (ip + 2) rest' ((vm.mark ip).push v)
            else
              runThreadedStream prims bus (ip + 1) rest (operate bus p (vm.mark ip))

/-- The whole `words` array: the stream and zeros up to `MAX_STREAM_WORDS`. -/
def StreamProgram.array (program : StreamProgram) : List Word :=
  program.stream.words ++
    List.replicate (maxStreamWords - program.stream.words.length) 0#32

/-- The threaded path of `StreamProgram::run`: what it yields, and the machine. -/
def runThreaded (prims : Prims) (bus : Bus Word Word σ) (program : StreamProgram) (s : σ) :
    Option Word × Vm σ :=
  let done :=
    if 0 < program.stream.words.length then
      (runThreadedStream prims bus 0 (StreamProgram.array program) (Vm.start s)).2
    else
      Vm.start s
  if program.yieldsValue then (some done.pop.1, done.pop.2) else (none, done)

theorem codeAt_wordOf (prims : Prims) (p : Prim) : codeAt prims (prims.wordOf p) = some p := by
  unfold codeAt
  cases hfind : Prim.all.find? fun q => decide (prims.wordOf q = prims.wordOf p) with
  | none =>
      have hall : p ∈ Prim.all := by
        cases p <;> decide
      have hnone := List.find?_eq_none.mp hfind p hall
      simp at hnone
  | some q =>
      have hq := List.find?_some hfind
      rw [decide_eq_true_eq] at hq
      rw [prims.wordOf_injective q p hq]

/-!
## One dispatch
-/

section Dispatch

variable (prims : Prims) (bus : Bus Word Word σ) (ip : Nat) (rest : List Word) (vm : Vm σ)

theorem run_zero :
    runThreadedStream prims bus ip (0#32 :: rest) vm = (.zeroWord ip, vm) := by
  unfold runThreadedStream
  rw [if_pos rfl]

theorem run_halt :
    runThreadedStream prims bus ip (prims.wordOf .halt :: rest) vm =
      (.halted ip, vm.mark ip) := by
  unfold runThreadedStream
  simp only [if_neg (prims.wordOf_ne_zero _), codeAt_wordOf, if_true]

theorem run_lit (v : Word) :
    runThreadedStream prims bus ip (prims.wordOf .lit :: v :: rest) vm =
      runThreadedStream prims bus (ip + 2) rest ((vm.mark ip).push v) := by
  rw [runThreadedStream, if_neg (prims.wordOf_ne_zero _), codeAt_wordOf]
  rfl

theorem run_operate {p : Prim} (hlit : p ≠ .lit) (hhalt : p ≠ .halt) :
    runThreadedStream prims bus ip (prims.wordOf p :: rest) vm =
      runThreadedStream prims bus (ip + 1) rest (operate bus p (vm.mark ip)) := by
  rw [runThreadedStream.eq_def]
  simp only [if_neg (prims.wordOf_ne_zero _), codeAt_wordOf, if_neg hlit, if_neg hhalt]

end Dispatch

end Execution
end HolyRust
