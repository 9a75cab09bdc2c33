import HolyRust.Foundation.Memory

/-!
# Targets and link maps

The kernel is built for two 32-bit targets.  `usize` and `u32` are both machine
words there.  The addresses below come from the linker scripts `memory.x` and
`memory-riscv.x`.
-/

namespace HolyRust

open Foundation

/-- A machine word: `u32`, and `usize` on both targets. -/
abbrev Word : Type := BitVec 32

/-- One byte of input or memory. -/
abbrev Byte : Type := BitVec 8

/-- The 32-bit physical address space. -/
abbrev Mem : Type := Memory 32

/-- Build targets selected by `target_arch`. -/
inductive Target where
  | arm
  | riscv32
deriving DecidableEq, Repr

namespace Target

/-- `ORIGIN(registry)`: where `REGISTRY_BITS` is linked. -/
def registryBase : Target -> Word
  | .arm => 0x20001000#32
  | .riscv32 => 0x80001800#32

/-- `ORIGIN(sram_code)`: where `EXEC_BUFFER` is linked. -/
def execBufferBase : Target -> Word
  | .arm => 0x20002000#32
  | .riscv32 => 0x80001000#32

/-- `EXEC_BUFFER_SIZE` in bytes. -/
def execBufferSize : Target -> Nat
  | .arm => 4096
  | .riscv32 => 768

end Target

/-- The bytes of an ASCII string, as in a Rust byte-string literal. -/
def ascii (s : String) : List Byte :=
  s.toList.map fun c => BitVec.ofNat 8 c.toNat

end HolyRust
