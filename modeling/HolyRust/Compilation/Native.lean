import HolyRust.Compilation.Emitter
import HolyRust.Compilation.State
import HolyRust.Isa.Thumb2
import HolyRust.Isa.Rv32

/-!
# Native code from threaded streams

`compile_and_run` translates a stream in one pass for a machine with an
accumulator and a scratch register, and calls the code.  A backend bundles what
the two targets choose differently.
-/

namespace HolyRust
namespace Compilation

open Foundation
open Isa

/-- Emitter, instruction set, register numbers and buffer capacity of a target. -/
structure Backend (unit instr : Type) where
  emitter : TargetEmitter unit
  isa : Leaf unit instr
  acc : RegNo
  scratch : RegNo
  capWords : Nat

def thumb2Backend : Backend Half Thumb2.Instr where
  emitter := thumb2Emitter
  isa := Thumb2.leaf
  acc := 0#8
  scratch := 1#8
  capWords := Target.arm.execBufferSize / 2

def riscv32Backend : Backend Word Rv32.Instr where
  emitter := riscv32Emitter
  isa := Rv32.leaf
  acc := 10#8
  scratch := 11#8
  capWords := Target.riscv32.execBufferSize / 4

/-!
## Compilation
-/

/-- `Err(())` is the only failure of the native compiler. -/
abbrev CompileM (unit : Type) : Type -> Type := EStateM Unit (EmitBuffer unit)

/-- `map_err(|_| ())`. -/
def orFail (x : EmitM unit Unit) : CompileM unit Unit :=
  fun b =>
    match x b with
    | .ok a b' => .ok a b'
    | .error _ b' => .error () b'

def isCompilableLoop (prims : Prims) : List Word -> Bool -> Bool
  | [], litSeen => litSeen
  | w :: rest, _ =>
      if w = 0#32 ∨ w = prims.wordOf .halt then true
      else if w = prims.wordOf .lit then
        match rest with
        | [] => true
        | _ :: rest' => isCompilableLoop prims rest' true
      else if w = prims.wordOf .add ∨ w = prims.wordOf .sub ∨ w = prims.wordOf .mul ∨
          w = prims.wordOf .div ∨ w = prims.wordOf .loadReg ∨ w = prims.wordOf .writeReg then
        isCompilableLoop prims rest true
      else false

def isCompilable (prims : Prims) (words : List Word) : Bool :=
  isCompilableLoop prims words false

/-- Code for a primitive other than `lit`, and the value of `acc_loaded` after it. -/
def operation (B : Backend unit instr) (prims : Prims) (word : Word) (accLoaded : Bool) :
    Option (EmitM unit Unit × Bool) :=
  if word = prims.wordOf .add then some (B.emitter.add B.acc B.acc B.scratch, true)
  else if word = prims.wordOf .sub then some (B.emitter.sub B.acc B.acc B.scratch, true)
  else if word = prims.wordOf .mul then some (B.emitter.mul B.acc B.acc B.scratch, true)
  else if word = prims.wordOf .div then some (B.emitter.div B.acc B.acc B.scratch, true)
  else if word = prims.wordOf .loadReg then some (B.emitter.loadU32 B.acc B.scratch, true)
  else if word = prims.wordOf .writeReg then
    some (B.emitter.storeU32 B.scratch B.acc, accLoaded)
  else none

/-- The literal before a load or store goes to the scratch register; of the
others only the very first one goes to the accumulator. -/
def literal (B : Backend unit instr) (prims : Prims) (val next : Word) (accLoaded : Bool) :
    EmitM unit Unit × Bool :=
  if next = prims.wordOf .loadReg ∨ next = prims.wordOf .writeReg then
    (B.emitter.movImm B.scratch val, accLoaded)
  else if accLoaded = false then (B.emitter.movImm B.acc val, true)
  else (B.emitter.movImm B.scratch val, accLoaded)

/-- The stream consumption loop over the words that are left. -/
def compileLoop (B : Backend unit instr) (prims : Prims) :
    List Word -> Bool -> CompileM unit Unit
  | [], _ => pure ()
  | word :: rest, accLoaded =>
      if word = 0#32 then pure ()
      else if word = prims.wordOf .halt then pure ()
      else if word = prims.wordOf .lit then
        match rest with
        | [] => throw ()
        | val :: rest' => do
            orFail (literal B prims val (rest'.headD 0#32) accLoaded).1
            compileLoop B prims rest' (literal B prims val (rest'.headD 0#32) accLoaded).2
      else
        match operation B prims word accLoaded with
        | none => throw ()
        | some (code, accLoaded') => do
            orFail code
            compileLoop B prims rest accLoaded'

/-- Everything that is written into the buffer. -/
def compile (B : Backend unit instr) (prims : Prims) (words : List Word) : CompileM unit Unit := do
  compileLoop B prims words false
  orFail B.emitter.ret

/-- The code of a primitive is one instruction on the two registers. -/
theorem operation_cases {B : Backend unit instr} {prims : Prims} {word : Word}
    {accLoaded accLoaded' : Bool} {code : EmitM unit Unit}
    (h : operation B prims word accLoaded = some (code, accLoaded')) :
    code = B.emitter.add B.acc B.acc B.scratch ∨ code = B.emitter.sub B.acc B.acc B.scratch ∨
      code = B.emitter.mul B.acc B.acc B.scratch ∨ code = B.emitter.div B.acc B.acc B.scratch ∨
      code = B.emitter.loadU32 B.acc B.scratch ∨ code = B.emitter.storeU32 B.scratch B.acc := by
  unfold operation at h
  grind

/-!
## Size of the code

With at most `k` units for an operation and twice as many for a literal, which
takes two words of the stream, the code has at most `k` units for each word.
-/

structure EmitterBounds (e : TargetEmitter unit) (k : Nat) : Prop where
  movImm : forall r v, EmitsAtMost (2 * k) (e.movImm r v)
  storeU32 : forall src addr, EmitsAtMost k (e.storeU32 src addr)
  loadU32 : forall dst addr, EmitsAtMost k (e.loadU32 dst addr)
  add : forall dst a b, EmitsAtMost k (e.add dst a b)
  sub : forall dst a b, EmitsAtMost k (e.sub dst a b)
  mul : forall dst a b, EmitsAtMost k (e.mul dst a b)
  div : forall dst a b, EmitsAtMost k (e.div dst a b)
  ret : EmitsAtMost k e.ret

theorem emitsAtMost_orFail {k : Nat} {x : EmitM unit Unit} (h : EmitsAtMost k x) :
    EmitsAtMost k (orFail x) := by
  intro b
  have hx := h b
  unfold orFail
  cases hrun : x b with
  | ok a b' =>
      rw [hrun] at hx
      exact hx
  | error e b' =>
      rw [hrun] at hx
      exact hx

/-- What is in the buffer when the compiler is done with the stream or gives up. -/
def emittedCode (B : Backend unit instr) (prims : Prims) (words : List Word) : List unit :=
  if isCompilable prims words then
    (finalState (compile B prims words { capWords := B.capWords, code := [] })).code
  else []

section Size

variable {B : Backend unit instr} {k : Nat} (hB : EmitterBounds B.emitter k) (prims : Prims)
include hB

theorem emitsAtMost_operation {word : Word} {accLoaded accLoaded' : Bool} {code : EmitM unit Unit}
    (h : operation B prims word accLoaded = some (code, accLoaded')) : EmitsAtMost k code := by
  rcases operation_cases h with rfl | rfl | rfl | rfl | rfl | rfl
  · exact hB.add _ _ _
  · exact hB.sub _ _ _
  · exact hB.mul _ _ _
  · exact hB.div _ _ _
  · exact hB.loadU32 _ _
  · exact hB.storeU32 _ _

theorem emitsAtMost_literal (val next : Word) (accLoaded : Bool) :
    EmitsAtMost (2 * k) (literal B prims val next accLoaded).1 := by
  unfold literal
  split
  · exact hB.movImm _ _
  · split
    · exact hB.movImm _ _
    · exact hB.movImm _ _

theorem emitsAtMost_compileLoop (words : List Word) (accLoaded : Bool) :
    EmitsAtMost (k * words.length) (compileLoop B prims words accLoaded) := by
  fun_induction compileLoop B prims words accLoaded with
  | case1 => exact emitsAtMost_pure
  | case2 => exact emitsAtMost_mono (Nat.zero_le _) emitsAtMost_pure
  | case3 => exact emitsAtMost_mono (Nat.zero_le _) emitsAtMost_pure
  | case4 => exact emitsAtMost_mono (Nat.zero_le _) (emitsAtMost_throw _)
  | case5 accLoaded val rest _ _ ih =>
      have hlen : k * (prims.wordOf .lit :: val :: rest).length = 2 * k + k * rest.length := by
        rw [List.length_cons, List.length_cons]
        lia
      rw [hlen]
      exact emitsAtMost_bind (emitsAtMost_orFail (emitsAtMost_literal hB prims _ _ _)) ih
  | case6 => exact emitsAtMost_mono (Nat.zero_le _) (emitsAtMost_throw _)
  | case7 word rest accLoaded _ _ _ code accLoaded' hcode ih =>
      have hlen : k * (word :: rest).length = k + k * rest.length := by
        rw [List.length_cons]
        lia
      rw [hlen]
      exact emitsAtMost_bind (emitsAtMost_orFail (emitsAtMost_operation hB prims hcode)) ih

theorem length_emittedCode_le (words : List Word) :
    (emittedCode B prims words).length ≤ k * words.length + k := by
  have hall : EmitsAtMost (k * words.length + k) (compile B prims words) :=
    emitsAtMost_bind (emitsAtMost_compileLoop hB prims words false) (emitsAtMost_orFail hB.ret)
  unfold emittedCode
  split
  · have hcode := hall { capWords := B.capWords, code := [] }
    rw [List.length_nil, Nat.zero_add] at hcode
    exact hcode
  · exact Nat.zero_le _

end Size

theorem emitsAtMost_thumbMovImm (reg : RegNo) (imm : Word) :
    EmitsAtMost 4 (Thumb2Emitter.emitMovImm reg imm) := by
  unfold Thumb2Emitter.emitMovImm
  split
  · exact emitsAtMost_mono (Nat.zero_le _) (emitsAtMost_throw _)
  · split
    · exact emitsAtMost_mono (by decide) (emitsAtMost_pushUnit _)
    · apply emitsAtMost_bind (k := 1) (n := 3) (emitsAtMost_pushUnit _)
      apply emitsAtMost_bind (k := 1) (n := 2) (emitsAtMost_pushUnit _)
      split
      · exact emitsAtMost_bind (emitsAtMost_pushUnit _) (emitsAtMost_pushUnit _)
      · exact emitsAtMost_mono (by decide) emitsAtMost_pure

theorem emitsAtMost_pushOption (u : Option unit) : EmitsAtMost 1 (pushOption u) := by
  cases u with
  | none => exact emitsAtMost_mono (by decide) (emitsAtMost_throw _)
  | some u => exact emitsAtMost_pushUnit u

theorem emitsAtMost_thumbThree (opcode : Half) (dst a b : RegNo) :
    EmitsAtMost 1 (thumbThree opcode dst a b) := by
  unfold thumbThree
  split
  · exact emitsAtMost_mono (by decide) (emitsAtMost_throw _)
  · exact emitsAtMost_pushUnit _

theorem thumb2_bounds : EmitterBounds thumb2Backend.emitter 2 where
  movImm := emitsAtMost_thumbMovImm
  storeU32 := fun _ _ => emitsAtMost_mono (by decide) (emitsAtMost_pushOption _)
  loadU32 := fun _ _ => emitsAtMost_mono (by decide) (emitsAtMost_pushOption _)
  add := fun _ _ _ => emitsAtMost_mono (by decide) (emitsAtMost_thumbThree _ _ _ _)
  sub := fun _ _ _ => emitsAtMost_mono (by decide) (emitsAtMost_thumbThree _ _ _ _)
  mul := by
    intro dst a b
    unfold thumb2Backend thumb2Emitter
    simp only
    split
    · exact emitsAtMost_mono (by decide) (emitsAtMost_throw _)
    · split
      · exact emitsAtMost_bind (emitsAtMost_pushUnit _) (emitsAtMost_pushUnit _)
      · exact emitsAtMost_mono (by decide) (emitsAtMost_pushUnit _)
  div := by
    intro dst a b
    unfold thumb2Backend thumb2Emitter
    simp only
    split
    · exact emitsAtMost_mono (by decide) (emitsAtMost_throw _)
    · exact emitsAtMost_bind (emitsAtMost_pushUnit _) (emitsAtMost_pushUnit _)
  ret := emitsAtMost_mono (by decide) (emitsAtMost_pushUnit _)

/-!
## Execution
-/

/-- What `compile_and_run` does: refuse with `Err(())`, never return, or return
`Ok(value)`. -/
inductive NativeRun (σ : Type) where
  | refused
  | lost
  | returned (value : Option Word) (core : Core σ)

/-- `stale` is what the buffer holds after the emitted code, `regs` what the
registers hold at the call. -/
def compileAndRun (B : Backend unit instr) (prims : Prims) (bus : Bus Word Word σ)
    (program : StreamProgram) (s : σ) (regs : Nat -> Word) (stale : List unit) : NativeRun σ :=
  if isCompilable prims program.stream.words = false then .refused
  else
    match compile B prims program.stream.words { capWords := B.capWords, code := [] } with
    | .error _ _ => .refused
    | .ok _ b =>
        match B.isa.run bus (b.code ++ stale).length (b.code ++ stale)
            { regs := regs, bus := s, trace := [] } with
        | none => .lost
        | some core =>
            .returned (if program.yieldsValue then some (core.regs B.acc.toNat) else none) core

end Compilation
end HolyRust
