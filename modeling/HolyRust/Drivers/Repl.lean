import HolyRust.Foundation.Trail
import HolyRust.Kernel.Memory
import HolyRust.Kernel.Pool
import HolyRust.Compilation.Parser
import HolyRust.Compilation.Native
import HolyRust.Execution.Threaded
import HolyRust.Drivers.Pstore

/-!
# Interactive session

A session compiles one line at a time and executes its outcome.  Memory is kept
for the SRAM that the kernel reads back: the registry and the program store.
What device registers answer, what the cycle counter shows and which accesses a
program makes are inputs of a line, and console output is left out.

The compiler, the pool offsets and the task slots are statics in that SRAM too.
They are kept apart from memory here, so nothing is known any more once a line
stores into memory of the kernel's own: `Step.corrupted` then leads anywhere.
-/

namespace HolyRust
namespace Drivers

open Foundation
open Capabilities
open Kernel
open Compilation
open Execution

/-!
## Claiming and dropping
-/

/-- The names of `tokens::resolve_name`. -/
def resourceTable : List (List Byte × Nat) :=
  [(ascii "GPIOA", 0),
    (ascii "GPIOB", 1),
    (ascii "UART0", 2),
    (ascii "SPI0", 3),
    (ascii "I2C0", 4),
    (ascii "TIMER0", 5),
    (ascii "DMA0", 6),
    (ascii "SUPERUSER", 31)]

def resolveName (name : List Byte) : Option Nat :=
  (resourceTable.find? fun row => decide (row.1 = name)).map fun row => row.2

/-- Store word `i` of `r` at its place in memory. -/
def writeRegistryWord (t : Target) (i : Nat) (r : Registry) (m : Machine) : Machine :=
  match r.get? i with
  | some w => { m with mem := m.mem.write32 (Machine.registryAddr t i) w }
  | none => m

/-- `cap_claim`: the fetch-or happens whether or not the resource is free. -/
def doClaim (t : Target) (name : List Byte) (m : Machine) : Machine :=
  match resolveName name with
  | some id => writeRegistryWord t (id / 32) (acquire (m.registry t) id).2 m
  | none => m

def doDrop (t : Target) (name : List Byte) (m : Machine) : Machine :=
  match resolveName name with
  | some id =>
      if available (m.registry t) id then m
      else writeRegistryWord t (id / 32) (release (m.registry t) id) m
  | none => m

/-!
## Sessions
-/

/-- What the linker decided. -/
structure Build where
  target : Target
  prims : Prims
  taskBody : Nat -> Word

/-- The state that outlives a line. -/
structure Session where
  machine : Machine
  comp : Compiler
  pool : PoolOffsets
  spawned : Fin 2 -> Bool

/-- A line, and what the hardware contributes while it is evaluated. -/
structure Input where
  line : List Byte
  answers : Word -> Option Word
  cycles : Word
  accesses : List (Access Word Word)

namespace Session

def registry (b : Build) (s : Session) : Registry := s.machine.registry b.target

def perform (trace : List (Access Word Word)) (s : Session) : Session :=
  { s with machine := { s.machine with mem := s.machine.mem.perform trace } }

/-- What the parser sees. -/
def env (b : Build) (input : Input) (s : Session) : Env where
  target := b.target
  prims := b.prims
  registry := s.registry b
  mem := input.answers

end Session

/-!
## Program store commands
-/

/-- The first slot that a probe with no room for words calls `NotFound`. -/
def freeSlot (mem : Mem) : Option Nat :=
  (List.range maxPrograms).find? fun i => decide (load i 0 mem = .error .notFound)

def doStore (name : NameBuf) (s : Session) : Session :=
  match s.comp.exportFn name.bytes maxStreamWords with
  | none => s
  | some words =>
      match freeSlot s.machine.mem with
      | none => s
      | some i =>
          match save i name.bytes words s.machine.mem with
          | .ok mem => { s with machine := { s.machine with mem := mem } }
          | .error _ => s

/-- The body in the first of the `n` slots from `i` on whose name starts with `name`. -/
def findStored (mem : Mem) (name : List Byte) : Nat -> Nat -> Option (List Word)
  | 0, _ => none
  | n + 1, i =>
      match load i slotWords mem with
      | .ok (found, words) =>
          if found.take name.length = name then some words else findStored mem name n (i + 1)
      | .error .noStore => none
      | .error _ => findStored mem name n (i + 1)

def doLoad (name : NameBuf) (s : Session) : Session :=
  match findStored s.machine.mem name.bytes maxPrograms 0 with
  | none => s
  | some words =>
      match s.comp.importFn name.bytes words with
      | .ok c => { s with comp := c }
      | .error _ => s

/-!
## Spawning

The body goes into a slot of the execution buffer and a counter task gets an
exception frame.  Nothing ever installs the handlers of `multitask.rs`, so the
first tick ends in the fault handler and the task itself never runs.
-/

/-- `bases[slot_idx]`. -/
def jitSlotBase (slot : Fin 2) : Nat := 0x20002000 + 0x400 * slot.val

/-- `_task_stack_1` and `_task_stack_2`. -/
def taskStackTop (slot : Fin 2) : Nat := 0x2000EE00 - 0x200 * slot.val

def emitFnIntoSlot (slot : Fin 2) (words : List Word) : List (Access Word Word) :=
  words.zipIdx.map fun p => .write (BitVec.ofNat 32 (jitSlotBase slot + 4 * p.2)) p.1

def spawnJitTask (b : Build) (slot : Fin 2) : List (Access Word Word) :=
  .write (BitVec.ofNat 32 (taskStackTop slot - 4)) 0x01000000#32 ::
    .write (BitVec.ofNat 32 (taskStackTop slot - 8)) (b.taskBody slot.val ||| 1#32) ::
    [12, 16, 20, 24, 28, 32].map fun off =>
      .write (BitVec.ofNat 32 (taskStackTop slot - off)) 0#32

/-- `timer::arm::configure(systick_reload(168_000_000, 1))`. -/
def configureSysTick : List (Access Word Word) :=
  [.write 0xE000E014#32 168000#32, .write 0xE000E018#32 0#32, .write 0xE000E010#32 7#32]

def doSpawn (b : Build) (name : NameBuf) (s : Session) : Session :=
  match s.comp.exportFn name.bytes maxStreamWords with
  | none => s
  | some words =>
      match (List.finRange 2).find? fun slot => !s.spawned slot with
      | none => s
      | some slot =>
          { s.perform (emitFnIntoSlot slot words ++ spawnJitTask b slot ++ configureSysTick) with
            spawned := fun i => if i = slot then true else s.spawned i }

/-!
## Device commands

The registers that a driver command stores to, in any order and with any values.
-/

/-- `TIM2_BASE`. -/
def timBase : Target -> Word
  | .arm => 0x40000000#32
  | .riscv32 => 0x10015000#32

/-- The clock gate, `CR1`, `PSC`, `ARR`, `CCMR1`, `CCER` and `CCR1`. -/
def pwmRegisters : Target -> List Word
  | .arm => 0x40023840#32 ::
      [0x00#32, 0x28#32, 0x2C#32, 0x18#32, 0x20#32, 0x34#32].map (timBase .arm + ·)
  | .riscv32 =>
      [0x00#32, 0x28#32, 0x2C#32, 0x18#32, 0x20#32, 0x34#32].map (timBase .riscv32 + ·)

/-- `DR` of SPI1, `TXDATA` on RISC-V. -/
def spiDataRegister : Target -> Word
  | .arm => 0x4001300C#32
  | .riscv32 => 0x10014018#32

/-- `KEYR`, `CR` and the first word of the flash store. -/
def flashRegisters : List Word := [0x40023C04#32, 0x40023C10#32, 0x0801C000#32]

/-- `DEMCR` and `DWT_CTRL`, which the cycle counter of `bench` switches on. -/
def cycleRegisters : Target -> List Word
  | .arm => [0xE000EDFC#32, 0xE0001000#32]
  | .riscv32 => []

def driverRegisters (t : Target) : Outcome -> List Word
  | .pwm _ _ => pwmRegisters t
  | .pwmDuty _ => [timBase t + 0x34#32]
  | .spiTx _ => [spiDataRegister t]
  | .flashTest => flashRegisters
  | .bench => cycleRegisters t
  | _ => []

/-!
## Running programs
-/

/-- How programs are run: `StreamProgram::run` as it is, or its fallback alone. -/
inductive Engine where
  | native
  | threaded
deriving DecidableEq, Repr

/-- The accesses of a threaded run, whatever its reads are answered with.  Behind a jump to
a word that is no primitive, or beyond the array, any others may follow. -/
def ThreadedMakes (prims : Prims) (program : StreamProgram) (trace : List (Access Word Word)) :
    Prop :=
  exists (σ : Type) (bus : Bus Word Word σ) (s : σ) (wild : List (Access Word Word)),
    trace = (runThreaded prims bus program s).2.trace ++ wild ∧
      (wild ≠ [] ->
        ¬ (runThreadedStream prims bus 0 (StreamProgram.array program) (Vm.start s)).1.Controlled)

theorem threadedMakes_run (prims : Prims) {σ : Type} (bus : Bus Word Word σ)
    (program : StreamProgram) (s : σ) :
    ThreadedMakes prims program (runThreaded prims bus program s).2.trace :=
  ⟨_, bus, s, [], (List.append_nil _).symm, fun h => absurd rfl h⟩

/-- The accesses of native code that returns; a program it refuses is threaded. -/
def NativeMakes (B : Backend unit instr) (prims : Prims) (program : StreamProgram)
    (trace : List (Access Word Word)) : Prop :=
  exists (σ : Type) (bus : Bus Word Word σ) (s : σ) (regs : Nat -> Word) (stale : List unit),
    match compileAndRun B prims bus program s regs stale with
    | .refused => ThreadedMakes prims program trace
    | .lost => False
    | .returned _ core => trace = core.trace

def Engine.Makes (engine : Engine) (b : Build) (program : StreamProgram)
    (trace : List (Access Word Word)) : Prop :=
  match engine, b.target with
  | .threaded, _ => ThreadedMakes b.prims program trace
  | .native, .arm => NativeMakes thumb2Backend b.prims program trace
  | .native, .riscv32 => NativeMakes riscv32Backend b.prims program trace

/-- The accesses that executing an outcome can make outside the kernel's SRAM. -/
def Makes (engine : Engine) (b : Build) (outcome : Outcome) (trace : List (Access Word Word)) :
    Prop :=
  match outcome with
  | .run program => engine.Makes b program trace
  | _ => forall a, a ∈ storeAddrs trace -> a ∈ driverRegisters b.target outcome

/-!
## Evaluation
-/

/-- `enforced_poke_u32`; a refusal prints its reason and leaves the machine. -/
def pokeOutcome (b : Build) (cycles addr value : Word) (s : Session) : Session :=
  { s with machine := finalState (enforcedPokeU32 b.target cycles addr value s.machine) }

/-- `1u32 << bit` of the release build. -/
def bitMask (bit : Word) : Word := 1#32 <<< (bit.toNat % 32)

/-- Commands of the ARM build only; the other one prints that it has none. -/
def onArm (b : Build) (f : Session -> Session) (s : Session) : Session :=
  match b.target with
  | .arm => f s
  | .riscv32 => s

/-- `none` when the line never returns to the prompt. -/
def execute (b : Build) (input : Input) (outcome : Outcome) (s : Session) : Option Session :=
  match outcome with
  | .run _ => some (s.perform input.accesses)
  | .claim name => some { s with machine := doClaim b.target name.bytes s.machine }
  | .drop name => some { s with machine := doDrop b.target name.bytes s.machine }
  | .enforcedPoke addr val => some (pokeOutcome b input.cycles addr val s)
  | .enforcedPeek addr =>
      some { s with machine := finalState (enforcedPeekU32 b.target addr s.machine) }
  -- the register is read before the access is checked
  | .setBit addr bit => (input.answers addr).map fun v =>
      pokeOutcome b input.cycles addr (v ||| bitMask bit) s
  | .clrBit addr bit => (input.answers addr).map fun v =>
      pokeOutcome b input.cycles addr (v &&& ~~~bitMask bit) s
  | .pwm _ _ => some (s.perform input.accesses)
  | .pwmDuty _ => some (s.perform input.accesses)
  | .spiTx _ => some (s.perform input.accesses)
  | .flashTest => some (s.perform input.accesses)
  | .bench => some (s.perform input.accesses)
  | .store name => some (onArm b (doStore name) s)
  | .load name => some (onArm b (doLoad name) s)
  | .spawn name => some (onArm b (doSpawn b name) s)
  | .poolAlloc size => some (onArm b (fun s =>
      match s.pool.alloc 0 size with
      | .ok (_, pool) => { s with pool := pool }
      | .error _ => s) s)
  | .poolFree => some (onArm b (fun s =>
      match s.pool.reset 0 with
      | .ok pool => { s with pool := pool }
      | .error _ => s) s)
  | .empty => some s
  | .bound _ _ => some s
  | .fnDefined _ => some s
  | .help => some s
  | .banner => some s
  | .sysAudit => some s
  | .storeList => some s
  | .poolStats => some s

/-- The parse of a line; an empty line is not parsed. -/
def compileLine (b : Build) (input : Input) (s : Session) :
    Option (EStateM.Result Abort ParseState Outcome) :=
  if input.line = [] then none else some (parse (s.env b input) s.comp input.line)

/-- The outcome of a line that parses. -/
def accepted (b : Build) (input : Input) (s : Session) : Option Outcome :=
  match compileLine b input s with
  | some (.ok outcome _) => some outcome
  | _ => none

/-- Compile a line and execute its outcome; the compiler keeps what a failing
line did to it. -/
def evalLine (b : Build) (input : Input) (s : Session) : Option Session :=
  match compileLine b input s with
  | none => some s
  | some (.ok outcome ps) => execute b input outcome { s with comp := ps.comp }
  | some (.error (.error _) ps) => some { s with comp := ps.comp }
  | some (.error _ _) => none

/-!
## Memory of the kernel's own
-/

/-- Vector table, registry, execution buffer, `.data` to the stack slack, and
the task stacks with the program store; on ARM the pool between is free, on
RISC-V the scratch window. -/
def kernelMemory : Target -> List (Nat × Nat)
  | .arm =>
      [(0x20000400, 0x20001000),
        (0x20001000, 0x20001100),
        (0x20002000, 0x20003000),
        (0x20003000, 0x2000C800),
        (0x2000E800, 0x20010000)]
  | .riscv32 =>
      [(0x80000000, 0x80001000),
        (0x80001000, 0x80001300),
        (0x80001400, 0x80001800),
        (0x80001800, 0x80001900)]

/-- A claimable register, or RAM and flash that no part of the kernel uses. -/
def UserMemory (t : Target) (a : Word) : Prop :=
  Mapped t a ∧ forall region, region ∈ kernelMemory t -> Memory.Misses region.1 region.2 a

instance (t : Target) (a : Word) : Decidable (UserMemory t a) :=
  inferInstanceAs (Decidable ((_ ∨ _) ∧ _))

/-- Where a line asks for stores. -/
def storeTargets (outcome : Outcome) (trace : List (Access Word Word)) : List Word :=
  match outcome with
  | .run _ => storeAddrs trace
  | .enforcedPoke addr _ => [addr]
  | .setBit addr _ => [addr]
  | .clrBit addr _ => [addr]
  | _ => []

inductive Step (b : Build) (engine : Engine) : Session -> Input -> Session -> Prop where
  | line {s s' : Session} {input : Input} :
      (forall outcome, accepted b input s = some outcome ->
        Makes engine b outcome input.accesses) ->
      evalLine b input s = some s' -> Step b engine s input s'
  | corrupted {s s' : Session} {input : Input} {outcome : Outcome} {a : Word} :
      accepted b input s = some outcome -> Makes engine b outcome input.accesses ->
      a ∈ storeTargets outcome input.accesses -> ¬ UserMemory b.target a ->
      Step b engine s input s'

/-- A run of the session. -/
abbrev Run (b : Build) (engine : Engine) : Session -> List (Transition Session Input) ->
    Session -> Prop :=
  Trail (Step b engine)

/-- The targets of the line's outcome, if it has one. -/
def lineTargets (b : Build) (input : Input) (s : Session) : List Word :=
  match accepted b input s with
  | some outcome => storeTargets outcome input.accesses
  | none => []

/-- Every store that the line asks for goes to user memory. -/
def StoresToUser (b : Build) (tr : Transition Session Input) : Prop :=
  forall a, a ∈ lineTargets b tr.label tr.before -> UserMemory b.target a

theorem storesToUser_of_all {b : Build} {input : Input} {s s' : Session}
    (h : ((lineTargets b input s).all fun a => decide (UserMemory b.target a)) = true) :
    StoresToUser b ⟨s, input, s'⟩ :=
  fun a ha => of_decide_eq_true (List.all_eq_true.mp h a ha)

theorem lineTargets_of_accepted {b : Build} {input : Input} {s : Session} {outcome : Outcome}
    (h : accepted b input s = some outcome) :
    lineTargets b input s = storeTargets outcome input.accesses := by
  unfold lineTargets
  rw [h]

/-- Such a line does what evaluation says. -/
theorem evalLine_of_step {b : Build} {engine : Engine} {s s' : Session} {input : Input}
    (h : Step b engine s input s') (huser : StoresToUser b ⟨s, input, s'⟩) :
    evalLine b input s = some s' ∧
      forall outcome, accepted b input s = some outcome ->
        Makes engine b outcome input.accesses ∧
          forall a, a ∈ storeTargets outcome input.accesses -> UserMemory b.target a := by
  have htargets : forall outcome, accepted b input s = some outcome ->
      forall a, a ∈ storeTargets outcome input.accesses -> UserMemory b.target a := by
    intro outcome haccepted a ha
    rw [← lineTargets_of_accepted haccepted] at ha
    exact huser a ha
  cases h with
  | line hmakes heval =>
      exact ⟨heval, fun outcome haccepted =>
        ⟨hmakes outcome haccepted, htargets outcome haccepted⟩⟩
  | corrupted haccepted _ htarget hbad =>
      exact absurd (htargets _ haccepted _ htarget) hbad

/-- The three ways back to the prompt. -/
theorem evalLine_cases {b : Build} {s s' : Session} {input : Input}
    (h : evalLine b input s = some s') :
    (s' = s ∧ accepted b input s = none) ∨
      (exists outcome ps, parse (s.env b input) s.comp input.line = .ok outcome ps ∧
        accepted b input s = some outcome ∧
        execute b input outcome { s with comp := ps.comp } = some s') ∨
      (exists e ps, parse (s.env b input) s.comp input.line = .error e ps ∧
        accepted b input s = none ∧ s' = { s with comp := ps.comp }) := by
  unfold evalLine at h
  unfold accepted
  cases hcompile : compileLine b input s with
  | none =>
      rw [hcompile] at h
      exact Or.inl ⟨(Option.some.inj h).symm, rfl⟩
  | some r =>
      have hparse : parse (s.env b input) s.comp input.line = r := by
        unfold compileLine at hcompile
        split at hcompile
        · cases hcompile
        · exact Option.some.inj hcompile
      rw [hcompile] at h
      cases r with
      | ok outcome ps => exact Or.inr (Or.inl ⟨outcome, ps, hparse, rfl, h⟩)
      | error e ps =>
          refine Or.inr (Or.inr ⟨e, ps, hparse, rfl, ?_⟩)
          cases e with
          | error e => exact (Option.some.inj h).symm
          | fault a => cases h
          | fuel => cases h

theorem parse_of_accepted {b : Build} {input : Input} {s : Session} {outcome : Outcome}
    (h : accepted b input s = some outcome) :
    exists ps, parse (s.env b input) s.comp input.line = .ok outcome ps := by
  unfold accepted compileLine at h
  split at h
  · rename_i outcome' ps hcompile
    split at hcompile
    · cases hcompile
    · rw [Option.some.inj hcompile, Option.some.inj h]
      exact ⟨ps, rfl⟩
  · cases h

theorem compileLine_of_accepted {b : Build} {input : Input} {s : Session} {outcome : Outcome}
    {ps : ParseState} (hparse : parse (s.env b input) s.comp input.line = .ok outcome ps)
    (haccepted : accepted b input s = some outcome) :
    compileLine b input s = some (.ok outcome ps) := by
  unfold accepted at haccepted
  unfold compileLine at *
  split at haccepted
  · rename_i hcompile
    split at hcompile
    · cases hcompile
    · rename_i hline
      rw [if_neg hline, hparse]
  · cases haccepted

/-!
## Typing lines

A line that runs no program can be typed while all devices are silent.
-/

/-- The line, with every register reading zero. -/
def typed (text : String) : Input where
  line := ascii text
  answers := fun _ => some 0#32
  cycles := 0#32
  accesses := []

/-- The session after the line, or as it was if the line hangs. -/
def typeLine (b : Build) (s : Session) (text : String) : Session :=
  (evalLine b (typed text) s).getD s

/-- The line returns to the prompt without running a program. -/
def returnsQuietly (b : Build) (s : Session) (text : String) : Bool :=
  (evalLine b (typed text) s).isSome &&
    match accepted b (typed text) s with
    | some (.run _) => false
    | _ => true

theorem step_typed {b : Build} (engine : Engine) {s : Session} {text : String}
    (h : returnsQuietly b s text = true) :
    Step b engine s (typed text) (typeLine b s text) := by
  unfold returnsQuietly at h
  rw [Bool.and_eq_true] at h
  apply Step.line
  · intro outcome haccepted
    cases outcome with
    | run program =>
        rw [haccepted] at h
        exact absurd h.right Bool.false_ne_true
    | _ =>
        intro a ha
        cases ha
  · unfold typeLine
    obtain ⟨s', hs'⟩ := Option.isSome_iff_exists.mp h.left
    rw [hs']
    rfl

/-- The program of an accepted line that is to be run. -/
def runProgram (outcome : Option Outcome) : Option StreamProgram :=
  match outcome with
  | some (.run program) => some program
  | _ => none

theorem accepted_of_runProgram {outcome : Option Outcome} {f : StreamProgram -> α} {x : α}
    (h : (runProgram outcome).map f = some x) :
    exists program, outcome = some (.run program) ∧ f program = x := by
  unfold runProgram at h
  split at h
  · exact ⟨_, rfl, Option.some.inj h⟩
  · cases h

/-- An ARM build. -/
def Build.arm : Build where
  target := .arm
  prims := .inFlash
  taskBody := fun _ => 0x08001081#32

/-- Nothing defined, nothing claimed, all memory zero. -/
def Session.blank : Session where
  machine := .blank
  comp := .new
  pool := .zero
  spawned := fun _ => false

end Drivers
end HolyRust
