import HolyRust.Kernel.Memory

/-!
# ARM boot

`Reset` copies `.data` out of flash and zeroes `.bss`, brings up the console and
mirrors the flash vector table into SRAM.  The statics of the NOLOAD sections
`.sram_vectors`, `.capability_registry` and `.sram_code` are linked below the
`sram` region, so neither loop of `init_data_bss` reaches them.

Stack frames are not part of the model; the link map keeps them above `.bss`.
-/

namespace HolyRust
namespace Kernel

open Foundation

/-!
## Link map
-/

/-- The linker symbols of `memory-layout.x` over the regions of `memory.x`. -/
structure LinkMap where
  sidata : Nat
  sdata : Nat
  edata : Nat
  sbss : Nat
  ebss : Nat
  vectorStart : Nat
  vectorEnd : Nat
  sram_le_sdata : 0x20003000 ≤ sdata
  sdata_le_edata : sdata ≤ edata
  edata_le_sbss : edata ≤ sbss
  sbss_le_ebss : sbss ≤ ebss
  /-- The stack-slack assertion: 4 KiB below the heap pool. -/
  ebss_le_slack : ebss + 4096 ≤ 0x2000C800
  aligned : 4 ∣ sdata ∧ 4 ∣ edata ∧ 4 ∣ sbss ∧ 4 ∣ ebss
  data_image : 0x08000000 ≤ sidata ∧ sidata + (edata - sdata) ≤ 0x08020000
  /-- Sixteen `LONG`s; no Rust static is placed in `.isr_vector`. -/
  vector_words : vectorEnd = vectorStart + 64

/-- `RAM_VECTOR_TABLE`, at the start of the `vectors` region. -/
def ramVectorTable : Nat := 0x20000400

/-- `VECTOR_SLOTS`. -/
def vectorSlots : Nat := 256

/-- Address of `irq_handlers[i]`, behind the sixteen core entries. -/
def irqHandlerAddr (i : Nat) : Word :=
  BitVec.ofNat 32 (ramVectorTable + 64 + 4 * i)

/-- ARM Cortex-M Vector Table Offset Register. -/
def vtor : Word := 0xE000ED08#32

/-!
## Boot sequence
-/

/-- Words written by a loop that runs a pointer from `start` while it is below `stop`. -/
def wordCount (start stop : Nat) : Nat := (stop - start + 3) / 4

def initDataBss (l : LinkMap) (mem : Mem) : Mem :=
  let mem := mem.copyWords (wordCount l.sdata l.edata) l.sidata l.sdata
  mem.fillWords 0#32 (wordCount l.sbss l.ebss) l.sbss

/-- `uart::init`: set UE, TE and RE in CR1. -/
def uartInit (mem : Mem) : Mem :=
  mem.write32 (BitVec.ofNat 32 0x4001100C)
    (mem.read32 (BitVec.ofNat 32 0x4001100C) |||
      (1#32 <<< 13) ||| (1#32 <<< 3) ||| (1#32 <<< 2))

/-- `uart::write_str` on a transmitter that is ready: one DR write per byte. -/
def uartWriteStr : List Byte -> Mem -> Mem
  | [], mem => mem
  | b :: bs, mem => uartWriteStr bs (mem.write32 (BitVec.ofNat 32 0x40011004) (b.setWidth 32))

def banner : List Byte := ascii "Holy Rust REPL v0.1\r\n"

def bootRelocateVectors (l : LinkMap) (mem : Mem) : Mem :=
  let words := min ((l.vectorEnd - l.vectorStart) / 4) vectorSlots
  let mem := mem.copyWords words l.vectorStart ramVectorTable
  mem.write32 vtor (BitVec.ofNat 32 ramVectorTable)

/-- From reset to the first prompt. -/
def boot (l : LinkMap) (mem : Mem) : Mem :=
  bootRelocateVectors l (uartWriteStr banner (uartInit (initDataBss l mem)))

/-!
## Frames
-/

theorem wordCount_of_aligned {start stop : Nat} (hle : start ≤ stop)
    (hstart : 4 ∣ start) (hstop : 4 ∣ stop) :
    start + 4 * wordCount start stop = stop := by
  unfold wordCount
  lia

theorem uartWriteStr_outside (bs : List Byte) (mem : Mem) {b : Nat}
    (hb : b < 0x40011004 ∨ 0x40011010 ≤ b ∧ b < 2 ^ 32) :
    uartWriteStr bs mem (BitVec.ofNat 32 b) = mem (BitVec.ofNat 32 b) := by
  induction bs generalizing mem with
  | nil => rfl
  | cons c bs ih =>
      rw [uartWriteStr, ih, Memory.write32_ofNat_outside _ _ (by lia) (by lia) (by lia)]

theorem uartInit_outside (mem : Mem) {b : Nat}
    (hb : b < 0x40011004 ∨ 0x40011010 ≤ b ∧ b < 2 ^ 32) :
    uartInit mem (BitVec.ofNat 32 b) = mem (BitVec.ofNat 32 b) :=
  Memory.write32_ofNat_outside _ _ (by lia) (by lia) (by lia)

theorem bootRelocateVectors_outside (l : LinkMap) (mem : Mem) {b : Nat}
    (hlo : ramVectorTable + 64 ≤ b) (hhi : b < 0x40000000) :
    bootRelocateVectors l mem (BitVec.ofNat 32 b) = mem (BitVec.ofNat 32 b) := by
  have hwords : min ((l.vectorEnd - l.vectorStart) / 4) vectorSlots = 16 := by
    have hvector := l.vector_words
    unfold vectorSlots
    lia
  unfold bootRelocateVectors
  rw [hwords, show vtor = BitVec.ofNat 32 0xE000ED08 from rfl]
  unfold ramVectorTable at *
  rw [Memory.write32_ofNat_outside _ _ (by lia) (by lia) (by lia),
    Memory.copyWords_outside _ (by lia) (by lia) (by lia)]

theorem initDataBss_outside (l : LinkMap) (mem : Mem) {b : Nat}
    (hb : b < 0x20003000 ∨ 0x2000C800 ≤ b ∧ b < 2 ^ 32) :
    initDataBss l mem (BitVec.ofNat 32 b) = mem (BitVec.ofNat 32 b) := by
  have hdata := wordCount_of_aligned l.sdata_le_edata l.aligned.left l.aligned.right.left
  have hbss := wordCount_of_aligned l.sbss_le_ebss l.aligned.right.right.left
    l.aligned.right.right.right
  have h1 := l.sram_le_sdata
  have h2 := l.sdata_le_edata
  have h3 := l.edata_le_sbss
  have h4 := l.sbss_le_ebss
  have h5 := l.ebss_le_slack
  unfold initDataBss
  rw [Memory.fillWords_outside _ _ (by lia) (by lia) (by lia),
    Memory.copyWords_outside _ (by lia) (by lia) (by lia)]

theorem initDataBss_bss (l : LinkMap) (mem : Mem) {b : Nat} (hlo : l.sbss ≤ b)
    (hhi : b < l.ebss) :
    initDataBss l mem (BitVec.ofNat 32 b) = 0#8 := by
  have hbss := wordCount_of_aligned l.sbss_le_ebss l.aligned.right.right.left
    l.aligned.right.right.right
  have h5 := l.ebss_le_slack
  exact Memory.fillWords_zero_inside _ (by lia) hlo (by lia)

theorem boot_of_low (l : LinkMap) (mem : Mem) {b : Nat} (hlo : ramVectorTable + 64 ≤ b)
    (hhi : b < 0x20003000) :
    boot l mem (BitVec.ofNat 32 b) = mem (BitVec.ofNat 32 b) := by
  unfold boot
  rw [bootRelocateVectors_outside l _ hlo (by lia), uartWriteStr_outside _ _ (by lia),
    uartInit_outside _ (by lia), initDataBss_outside l mem (Or.inl hhi)]

theorem boot_bss (l : LinkMap) (mem : Mem) {b : Nat} (hlo : l.sbss ≤ b)
    (hhi : b < l.ebss) :
    boot l mem (BitVec.ofNat 32 b) = 0#8 := by
  have h1 := l.sram_le_sdata
  have h2 := l.sdata_le_edata
  have h3 := l.edata_le_sbss
  have h5 := l.ebss_le_slack
  unfold boot
  rw [bootRelocateVectors_outside l _ (by unfold ramVectorTable; lia) (by lia),
    uartWriteStr_outside _ _ (by lia), uartInit_outside _ (by lia),
    initDataBss_bss l mem hlo hhi]

theorem boot_read32_of_low (l : LinkMap) (mem : Mem) {a : Nat}
    (hlo : ramVectorTable + 64 ≤ a) (hhi : a + 4 ≤ 0x20003000) :
    (boot l mem).read32 (BitVec.ofNat 32 a) = mem.read32 (BitVec.ofNat 32 a) := by
  apply Memory.read32_congr
  intro i hi
  rw [← BitVec.ofNat_add]
  exact boot_of_low l mem (by lia) (by lia)

/-!
## Core vectors
-/

/-- The sixteen `LONG`s of `.isr_vector`. -/
def flashVectors (stackTop reset faultHang : Word) : List Word :=
  [stackTop, reset, faultHang, faultHang, faultHang, faultHang, faultHang, 0#32, 0#32, 0#32,
    0#32, faultHang, faultHang, 0#32, faultHang, faultHang]

/-- The image holds the table at the start of flash. -/
structure FlashTable (l : LinkMap) (stackTop reset faultHang : Word) (mem : Mem) : Prop where
  start : l.vectorStart = 0x08000000
  words : forall i w, (flashVectors stackTop reset faultHang)[i]? = some w ->
    mem.read32 (BitVec.ofNat 32 (l.vectorStart + 4 * i)) = w

/-- Address of word `i` of `RAM_VECTOR_TABLE`. -/
def vectorAddr (i : Nat) : Nat := ramVectorTable + 4 * i

theorem boot_read32_vector {l : LinkMap} (hstart : l.vectorStart = 0x08000000) (mem : Mem)
    {i : Nat} (hi : i < 16) :
    (boot l mem).read32 (BitVec.ofNat 32 (vectorAddr i)) =
      mem.read32 (BitVec.ofNat 32 (l.vectorStart + 4 * i)) := by
  have hwords : min ((l.vectorEnd - l.vectorStart) / 4) vectorSlots = 16 := by
    have hvector := l.vector_words
    unfold vectorSlots
    lia
  have htable : ramVectorTable = 0x20000400 := rfl
  unfold boot bootRelocateVectors
  rw [hwords, show vtor = BitVec.ofNat 32 0xE000ED08 from rfl]
  generalize hmem : uartWriteStr banner (uartInit (initDataBss l mem)) = mem'
  have hflash : mem'.read32 (BitVec.ofNat 32 (l.vectorStart + 4 * i)) =
      mem.read32 (BitVec.ofNat 32 (l.vectorStart + 4 * i)) := by
    apply Memory.read32_congr
    intro k hk
    rw [← BitVec.ofNat_add, ← hmem, uartWriteStr_outside _ _ (by lia),
      uartInit_outside _ (by lia), initDataBss_outside l mem (by lia)]
  have hcopy : (mem'.copyWords 16 l.vectorStart ramVectorTable).read32
      (BitVec.ofNat 32 (ramVectorTable + 4 * i)) =
      mem'.read32 (BitVec.ofNat 32 (l.vectorStart + 4 * i)) :=
    Memory.read32_copyWords mem' (by decide) (by lia) (by lia) (by lia) hi
  rw [← hflash, vectorAddr,
    ← hcopy]
  apply Memory.read32_congr
  intro k hk
  rw [← BitVec.ofNat_add]
  exact Memory.write32_ofNat_outside _ _ (by lia) (by lia) (by lia)

/-- Boot programs the vector base but no other system register. -/
theorem boot_of_system (l : LinkMap) (mem : Mem) {b : Nat} (hlo : 0xE0000000 ≤ b)
    (hhi : b < 0xE000ED08) : boot l mem (BitVec.ofNat 32 b) = mem (BitVec.ofNat 32 b) := by
  have hwords : min ((l.vectorEnd - l.vectorStart) / 4) vectorSlots ≤ 256 := Nat.min_le_right _ _
  have htable : ramVectorTable = 0x20000400 := rfl
  unfold boot bootRelocateVectors
  rw [show vtor = BitVec.ofNat 32 0xE000ED08 from rfl,
    Memory.write32_ofNat_outside _ _ (by lia) (by lia) (by lia),
    Memory.copyWords_outside _ (by lia) (by lia) (by lia), uartWriteStr_outside _ _ (by lia),
    uartInit_outside _ (by lia), initDataBss_outside l mem (by lia)]

/-!
## Statics outside `.data`

The core entries of `RAM_VECTOR_TABLE` are what the relocation is there to
write.  All other NOLOAD statics are declared zero.
-/

/-- `REGISTRY_BITS`, `irq_handlers` and `EXEC_BUFFER` hold their declared values. -/
structure LowStaticsZero (mem : Mem) : Prop where
  registry : forall i, i < Capabilities.registryWords ->
    mem.read32 (Machine.registryAddr .arm i) = 0#32
  irqHandlers : forall i, i < 32 -> mem.read32 (irqHandlerAddr i) = 0#32
  execBuffer : forall i, i < Target.execBufferSize .arm ->
    mem (Target.execBufferBase .arm + BitVec.ofNat 32 i) = 0#8

/-- Every NOLOAD static that boot does not fill on purpose holds its declared value. -/
structure StaticsInitialised (l : LinkMap) (mem : Mem) : Prop where
  low : LowStaticsZero mem
  bss : forall b, l.sbss ≤ b -> b < l.ebss -> mem (BitVec.ofNat 32 b) = 0#8

theorem lowStaticsZero_congr {mem mem' : Mem}
    (h : forall b, ramVectorTable + 64 ≤ b -> b < 0x20003000 ->
      mem (BitVec.ofNat 32 b) = mem' (BitVec.ofNat 32 b))
    (hzero : LowStaticsZero mem) :
    LowStaticsZero mem' := by
  have hread : forall a, ramVectorTable + 64 ≤ a -> a + 4 ≤ 0x20003000 ->
      mem.read32 (BitVec.ofNat 32 a) = mem'.read32 (BitVec.ofNat 32 a) := by
    intro a hlo hhi
    apply Memory.read32_congr
    intro i hi
    rw [← BitVec.ofNat_add]
    exact h (a + i) (by lia) (by lia)
  have haddr : forall i, Machine.registryAddr .arm i =
      BitVec.ofNat 32 (0x20001000 + 4 * i) := by
    intro i
    rw [BitVec.ofNat_add]
    rfl
  have hexec : forall i, Target.execBufferBase .arm + BitVec.ofNat 32 i =
      BitVec.ofNat 32 (0x20002000 + i) := by
    intro i
    rw [BitVec.ofNat_add]
    rfl
  unfold ramVectorTable at *
  constructor
  · intro i hi
    unfold Capabilities.registryWords at hi
    rw [haddr, ← hread _ (by lia) (by lia), ← haddr]
    exact hzero.registry i hi
  · intro i hi
    unfold irqHandlerAddr ramVectorTable
    rw [← hread _ (by lia) (by lia)]
    exact hzero.irqHandlers i hi
  · intro i hi
    unfold Target.execBufferSize at hi
    rw [hexec, ← h _ (by lia) (by lia), ← hexec]
    exact hzero.execBuffer i hi

/-- Boot leaves the statics at their declared values exactly when power-on did. -/
theorem boot_staticsInitialised_iff (l : LinkMap) (mem : Mem) :
    StaticsInitialised l (boot l mem) ↔ LowStaticsZero mem := by
  constructor
  · intro h
    exact lowStaticsZero_congr (fun b hlo hhi => boot_of_low l mem hlo hhi) h.low
  · intro h
    constructor
    · exact lowStaticsZero_congr (fun b hlo hhi => (boot_of_low l mem hlo hhi).symm) h
    · intro b hlo hhi
      exact boot_bss l mem hlo hhi

/-- A link map with one word of `.data` and one of `.bss`. -/
def smallLinkMap : LinkMap where
  sidata := 0x08001000
  sdata := 0x20003000
  edata := 0x20003004
  sbss := 0x20003004
  ebss := 0x20003008
  vectorStart := 0x08000000
  vectorEnd := 0x08000040
  sram_le_sdata := by decide
  sdata_le_edata := by decide
  edata_le_sbss := by decide
  sbss_le_ebss := by decide
  ebss_le_slack := by decide
  aligned := by decide
  data_image := by decide
  vector_words := by decide

/-- Every byte powers up as all ones. -/
def powerOnOnes : Mem := fun _ => 0xFF#8

/-- From such SRAM, SuperUser is claimed at the first prompt. -/
theorem not_staticsInitialised_ones :
    ¬ StaticsInitialised smallLinkMap (boot smallLinkMap powerOnOnes) := by
  intro h
  have hword := h.low.registry 0 (by decide)
  have hread := boot_read32_of_low smallLinkMap powerOnOnes (a := 0x20001000)
    (by decide) (by decide)
  have hones : powerOnOnes.read32 (BitVec.ofNat 32 0x20001000) = 0#32 :=
    hread.symm.trans hword
  revert hones
  decide +kernel

end Kernel
end HolyRust
