import HolyRust.Execution.NativeAgreement
import HolyRust.Execution.SourceRuns

/-!
# What native code means

Native code keeps one address, in the accumulator: that of its first block, until a `peek`
puts what it has read there.  Every `poke` goes to the address that is kept.  With this as
the meaning of a block, native code does what was written, on both targets and for every
line that runs.
-/

namespace HolyRust
namespace Execution

open Foundation
open Compilation
open Isa

/-- The accumulator, once something is in it, and what is observed. -/
structure Accumulated (σ : Type) where
  acc : Option Word
  seen : Observed σ

/-- The meaning of a block that finds the accumulator as it was left. -/
def accumulateBlock (loaded : Word -> Word) (bus : Bus Word Word σ) :
    Block -> Accumulated σ -> Accumulated σ
  | .poke a v, o =>
      let target := o.acc.getD (loaded a)
      ⟨some target, performBlock bus (.poke target (loaded v)) o.seen⟩
  | .peek a, o =>
      ⟨some (bus.load o.seen.bus (loaded a)).1, performBlock bus (.peek (loaded a)) o.seen⟩

def Core.observed (c : Core σ) : Observed σ := ⟨c.bus, c.trace⟩

/-- What immediate loads make of a word. -/
def loadedOn : Target -> Word -> Word
  | .arm => fun v => v
  | .riscv32 => rvLoaded

/-- Whatever is in the registers and behind the code, native code is made, returns `value`,
and `seen` is observed. -/
def ReturnsFrom (B : Backend unit instr) (prims : Prims) (bus : Bus Word Word σ)
    (program : StreamProgram) (s : σ) (value : Option Word) (seen : Observed σ) : Prop :=
  forall (regs : Nat -> Word) (stale : List unit), exists core,
    compileAndRun B prims bus program s regs stale = .returned value core ∧
      Core.observed core = seen

def ReturnsOn (target : Target) (prims : Prims) (bus : Bus Word Word σ) (program : StreamProgram)
    (s : σ) (value : Option Word) (seen : Observed σ) : Prop :=
  match target with
  | .arm => ReturnsFrom thumb2Backend prims bus program s value seen
  | .riscv32 => ReturnsFrom riscv32Backend prims bus program s value seen

section Blocks

variable {B : Backend unit instr} {loaded : Word -> Word} {movUnits k : Nat} {prims : Prims}

/-- The code of blocks does what the blocks mean, whether it finds an address or not. -/
theorem nativeBlocks_accumulate (hne : B.acc.toNat ≠ B.scratch.toNat) (bus : Bus Word Word σ)
    (bs : List Block) (accLoaded : Bool) (c : Core σ) :
    Core.observed (nativeBlocks B loaded bus accLoaded bs c) =
      (performBlocks (accumulateBlock loaded bus) bs
        ⟨if accLoaded then some (c.regs B.acc.toNat) else none, Core.observed c⟩).seen := by
  induction bs generalizing accLoaded c with
  | nil => rfl
  | cons b bs ih =>
      rw [nativeBlocks, ih, if_pos rfl]
      cases b with
      | poke a v =>
          obtain ⟨htrace, hbus, hacc⟩ := nativeBlock_poke loaded bus hne accLoaded a v _ c rfl
          have htarget : (if accLoaded then some (c.regs B.acc.toNat) else none).getD (loaded a) =
              if accLoaded then c.regs B.acc.toNat else loaded a := by
            cases accLoaded <;> rfl
          unfold Core.observed
          rw [htrace, hbus, hacc, ← htarget]
          rfl
      | peek a =>
          obtain ⟨htrace, hbus, hacc⟩ := nativeBlock_peek (B := B) loaded bus accLoaded a c
          unfold Core.observed
          rw [htrace, hbus, hacc]
          rfl

theorem returnsFrom_blocks (hB : BackendLaws B loaded movUnits) (hroomy : Roomy B movUnits k)
    {bs : List Block} {program : StreamProgram}
    (hwords : program.stream.words = blockWords prims bs ++ [prims.wordOf .halt])
    (hyields : program.yieldsValue = false) (bus : Bus Word Word σ) (s : σ) :
    ReturnsFrom B prims bus program s none
      (performBlocks (accumulateBlock loaded bus) bs ⟨none, ⟨s, []⟩⟩).seen := by
  intro regs stale
  refine ⟨_, compileAndRun_blocks prims hB hroomy hwords hyields bus s regs stale, ?_⟩
  exact nativeBlocks_accumulate hB.distinct bus bs false ⟨regs, s, []⟩

theorem returnsFrom_value (hB : BackendLaws B loaded movUnits) (hroomy : Roomy B movUnits k)
    {v : Word} {program : StreamProgram}
    (hwords : program.stream.words = [prims.wordOf .lit, v, prims.wordOf .halt])
    (hyields : program.yieldsValue = true) (bus : Bus Word Word σ) (s : σ) :
    ReturnsFrom B prims bus program s (some (loaded v)) ⟨s, []⟩ :=
  fun regs stale =>
    ⟨_, compileAndRun_value prims hB hroomy hwords hyields bus s regs stale, rfl⟩

end Blocks

section Lines

variable {target : Target} {prims : Prims} {program : StreamProgram}

theorem returnsOn_blocks {bs : List Block}
    (hwords : program.stream.words = blockWords prims bs ++ [prims.wordOf .halt])
    (hyields : program.yieldsValue = false) (bus : Bus Word Word σ) (s : σ) :
    ReturnsOn target prims bus program s none
      (performBlocks (accumulateBlock (loadedOn target) bus) bs ⟨none, ⟨s, []⟩⟩).seen := by
  cases target with
  | arm => exact returnsFrom_blocks thumb2_laws thumb2_roomy hwords hyields bus s
  | riscv32 => exact returnsFrom_blocks rv32_laws rv32_roomy hwords hyields bus s

theorem returnsOn_value {v : Word}
    (hwords : program.stream.words = [prims.wordOf .lit, v, prims.wordOf .halt])
    (hyields : program.yieldsValue = true) (bus : Bus Word Word σ) (s : σ) :
    ReturnsOn target prims bus program s (some (loadedOn target v)) ⟨s, []⟩ := by
  cases target with
  | arm => exact returnsFrom_value thumb2_laws thumb2_roomy hwords hyields bus s
  | riscv32 => exact returnsFrom_value rv32_laws rv32_roomy hwords hyields bus s

/-- Native code meets the request: it yields the value and accesses nothing, or performs the
statements in the scope of `defs` with the meaning of blocks above. -/
def MetNatively (target : Target) (prims : Prims) (bus : Bus Word Word σ)
    (defs : List Definition) (program : StreamProgram) (s : σ) : Request -> Prop
  | .value v => ReturnsOn target prims bus program s (some (loadedOn target v)) ⟨s, []⟩
  | .perform body =>
      let block := accumulateBlock (loadedOn target) bus
      ReturnsOn target prims bus program s none
        (performStmts block (performCall block defs) body ⟨none, ⟨s, []⟩⟩).seen

end Lines

/-- The accesses of a native run that returns. -/
def nativeAccesses : NativeRun σ -> Option (List (Access Word Word))
  | .returned _ core => some core.trace
  | _ => none

/-- A loop around a function that pokes two addresses. -/
def twoPokes : Written :=
  (Written.mk Compiler.new [] []).typed
    "fn f() \x7b loop 2 \x7b poke 0x20000000 1; poke 0x20000004 2; \x7d \x7d"

end Execution
end HolyRust
