import HolyRust.Kernel.Boot
import HolyRust.Drivers.Frames
import HolyRust.Capabilities.OpenRange

/-!
# Handlers of the tick

Boot mirrors the flash vectors, in which PendSV and SysTick are `fault_hang`, and
a successful `spawn` starts the tick timer.  No line calls
`install_task_handlers`, so the handlers stay as boot left them.
-/

namespace HolyRust
namespace Drivers

open Foundation
open Capabilities
open Kernel
open Compilation
open Execution

/-- The handlers that the vector table and `multitask.rs` name. -/
structure Handlers where
  stackTop : Word
  reset : Word
  faultHang : Word
  pendSV : Word
  sysTickPend : Word
  pendSV_ne : pendSV ≠ faultHang
  sysTickPend_ne : sysTickPend ≠ faultHang

/-- `STK_CTRL`. -/
def stkCtrl : Nat := 0xE000E010

/-- `CTRL_ENABLE`. -/
def sysTickEnabled (mem : Mem) : Bool := (mem.read32 (BitVec.ofNat 32 stkCtrl)).getLsbD 0

/-- Words 14 and 15 of the table in use. -/
def pendSVVector (mem : Mem) : Word := mem.read32 (BitVec.ofNat 32 (vectorAddr 14))

def sysTickVector (mem : Mem) : Word := mem.read32 (BitVec.ofNat 32 (vectorAddr 15))

/-- The first prompt after a reset with `mem` in flash, SRAM and registers. -/
def atPrompt (l : LinkMap) (mem : Mem) : Session where
  machine := { mem := boot l mem, audit := .new }
  comp := .new
  pool := .zero
  spawned := fun _ => false

/-- A timer that runs finds the handlers of the scheduler. -/
def TickHandled (h : Handlers) (s : Session) : Prop :=
  sysTickEnabled s.machine.mem = true ->
    pendSVVector s.machine.mem = h.pendSV ∧ sysTickVector s.machine.mem = h.sysTickPend

/-- The task slot that a line claims for a function it finds. -/
def spawnSlot (b : Build) (input : Input) (s : Session) : Option (Fin 2) :=
  match compileLine b input s with
  | some (.ok (.spawn name) ps) =>
      match ps.comp.exportFn name.bytes maxStreamWords with
      | some _ => (List.finRange 2).find? fun slot => !s.spawned slot
      | none => none
  | _ => none

/-!
## What lines leave alone
-/

theorem toNat_lt_of_mapped {a : Word} (h : Mapped .arm a) : a.toNat < 0x50000000 := by
  rcases h with h | h
  · obtain ⟨cap, hcap⟩ := Option.isSome_iff_exists.mp h
    obtain ⟨lo, hi, hrow, _, hhi⟩ := mem_of_addrLookup hcap
    have hall : forall row, row ∈ armAddrMap -> row.2.1 < 0x50000000 := by decide
    exact Nat.lt_of_le_of_lt hhi (hall _ hrow)
  · unfold isRamFlash at h
    rw [Bool.or_eq_true, inRange_eq_true_iff, inRange_eq_true_iff] at h
    lia

theorem userMemory_misses_stkCtrl {a : Word} (h : UserMemory .arm a) :
    Memory.Misses stkCtrl (stkCtrl + 4) a := by
  have hlt := toNat_lt_of_mapped h.left
  unfold Memory.Misses stkCtrl
  lia

theorem driver_misses {lo hi : Nat} (hall : (allDriverRegisters .arm).all
      (fun a => decide (Memory.Misses lo hi a)) = true) {outcome : Outcome} {a : Word}
    (ha : a ∈ driverRegisters .arm outcome) : Memory.Misses lo hi a := by
  simpa using List.all_eq_true.mp hall a (mem_allDriverRegisters ha)

/-- The two vectors. -/
theorem protected_vectors : Protected .arm (vectorAddr 14) (vectorAddr 16) where
  wrap := by decide
  fits := by decide
  user := by
    intro a ha
    have hregion : ((0x20000400, 0x20001000) : Nat × Nat) ∈ kernelMemory .arm := by decide
    exact misses_of_region hregion (by decide) (by decide) ha
  driver := fun _ _ ha => driver_misses (by decide) ha
  spawn := by
    intro _ a ha
    have hhi : vectorAddr 16 = 0x20000440 := rfl
    unfold SpawnWrites at ha
    unfold Memory.Misses
    lia

theorem keeps_vectors {b : Build} {engine : Engine} {s s' : Session} {input : Input}
    (harm : b.target = .arm) (h : Step b engine s input s')
    (huser : StoresToUser b ⟨s, input, s'⟩) : Keeps (vectorAddr 14) (vectorAddr 16) s s' := by
  apply keeps_step _ _ _ h huser
  · rw [harm]
    exact protected_vectors
  · rw [harm]
    decide
  · decide

/-- Only a line that claims a task slot touches the timer. -/
theorem keeps_stkCtrl {b : Build} {engine : Engine} {s s' : Session} {input : Input}
    (harm : b.target = .arm) (h : Step b engine s input s')
    (huser : StoresToUser b ⟨s, input, s'⟩) (hspawn : spawnSlot b input s = none) :
    Keeps stkCtrl (stkCtrl + 4) s s' := by
  obtain ⟨heval, hline⟩ := evalLine_of_step h huser
  rcases evalLine_cases heval with
    ⟨rfl, _⟩ | ⟨outcome, ps, hparse, haccepted, hexec⟩ | ⟨e, ps, _, _, rfl⟩
  · exact keeps_refl _
  · obtain ⟨hmakes, htargets⟩ := hline outcome haccepted
    by_cases hname : exists name, outcome = .spawn name
    · obtain ⟨name, rfl⟩ := hname
      unfold spawnSlot at hspawn
      rw [compileLine_of_accepted hparse haccepted] at hspawn
      rw [← Option.some.inj hexec]
      apply keeps_onArm
      intro _
      unfold doSpawn
      cases hexport : ps.comp.exportFn name.bytes maxStreamWords with
      | none => exact keeps_refl s
      | some words =>
          simp only [hexport] at hspawn
          simp only [hspawn]
          exact keeps_refl s
    · rw [harm] at htargets
      have hkeep := keeps_execute_apart (by decide) (by decide) hexec hmakes
        (fun a ha => userMemory_misses_stkCtrl (htargets a ha))
        (by
          intro a ha
          rw [harm] at ha
          exact driver_misses (by decide) ha)
        (by rw [harm]; decide) (by decide) (fun name heq => hname ⟨name, heq⟩)
      exact hkeep
  · exact keeps_refl s

/-- Such a line enables the timer. -/
theorem sysTickEnabled_of_spawnSlot {b : Build} {s s' : Session} {input : Input} {slot : Fin 2}
    (harm : b.target = .arm) (hspawn : spawnSlot b input s = some slot)
    (heval : evalLine b input s = some s') : sysTickEnabled s'.machine.mem = true := by
  unfold spawnSlot at hspawn
  split at hspawn
  · rename_i name ps hcompile
    split at hspawn
    · rename_i words hexport
      unfold evalLine at heval
      rw [hcompile] at heval
      rw [← Option.some.inj heval]
      unfold onArm doSpawn
      simp only [harm, hexport, hspawn]
      unfold sysTickEnabled Session.perform Memory.perform
      rw [List.foldl_append]
      have hlast : forall mem : Mem, (configureSysTick.foldl Memory.access mem).read32
          (BitVec.ofNat 32 stkCtrl) = 7#32 :=
        fun mem => Memory.read32_write32 _ _ _ (by decide)
      rw [hlast]
      rfl
    · cases hspawn
  · cases hspawn

/-!
## Whole runs
-/

/-- The line claims a task slot and starts the timer. -/
def Spawns (b : Build) (tr : Transition Session Input) : Prop :=
  (spawnSlot b tr.label tr.before).isSome = true

/-- The vectors are those of flash, and the timer runs once a task was spawned. -/
structure TickState (h : Handlers) (b : Build) (past : List (Transition Session Input))
    (s : Session) : Prop where
  pendSV : pendSVVector s.machine.mem = h.faultHang
  sysTick : sysTickVector s.machine.mem = h.faultHang
  enabled : sysTickEnabled s.machine.mem = true ↔ exists tr, tr ∈ past ∧ Spawns b tr

theorem tickState_atPrompt {h : Handlers} (b : Build) {l : LinkMap} {mem : Mem}
    (hflash : FlashTable l h.stackTop h.reset h.faultHang mem)
    (hreset : sysTickEnabled mem = false) : TickState h b [] (atPrompt l mem) where
  pendSV := (boot_read32_vector hflash.start mem (by decide)).trans (hflash.words 14 _ rfl)
  sysTick := (boot_read32_vector hflash.start mem (by decide)).trans (hflash.words 15 _ rfl)
  enabled := by
    have hsame : sysTickEnabled (boot l mem) = sysTickEnabled mem := by
      unfold sysTickEnabled
      congr 1
      apply Memory.read32_congr
      intro i hi
      unfold stkCtrl
      rw [← BitVec.ofNat_add]
      exact boot_of_system l mem (by lia) (by lia)
    constructor
    · intro henabled
      have hnow : sysTickEnabled (boot l mem) = true := henabled
      rw [hsame, hreset] at hnow
      cases hnow
    · rintro ⟨tr, htr, _⟩
      cases htr

theorem tickState_step {h : Handlers} {b : Build} {engine : Engine} {s s' : Session}
    {input : Input} {past : List (Transition Session Input)} (harm : b.target = .arm)
    (hs : TickState h b past s) (hstep : Step b engine s input s')
    (huser : StoresToUser b ⟨s, input, s'⟩) : TickState h b (⟨s, input, s'⟩ :: past) s' := by
  have hvectors := keeps_vectors harm hstep huser
  constructor
  · exact (hvectors.read32 (by decide) (by decide)).trans hs.pendSV
  · exact (hvectors.read32 (by decide) (by decide)).trans hs.sysTick
  · cases hslot : spawnSlot b input s with
    | some slot =>
        have heval := (evalLine_of_step hstep huser).left
        have hspawns : Spawns b ⟨s, input, s'⟩ := by
          unfold Spawns
          rw [hslot]
          rfl
        exact iff_of_true (sysTickEnabled_of_spawnSlot harm hslot heval)
          ⟨_, List.mem_cons_self, hspawns⟩
    | none =>
        have hquiet : ¬Spawns b ⟨s, input, s'⟩ := by
          unfold Spawns
          rw [hslot]
          exact Bool.false_ne_true
        have hsame : sysTickEnabled s'.machine.mem = sysTickEnabled s.machine.mem := by
          unfold sysTickEnabled
          rw [(keeps_stkCtrl harm hstep huser hslot).read32 (Nat.le_refl _) (Nat.le_refl _)]
        rw [hsame, hs.enabled]
        constructor
        · rintro ⟨tr, htr, hspawns⟩
          exact ⟨tr, List.mem_cons_of_mem _ htr, hspawns⟩
        · rintro ⟨tr, htr, hspawns⟩
          rcases List.mem_cons.mp htr with rfl | hold
          · exact absurd hspawns hquiet
          · exact ⟨tr, hold, hspawns⟩

/-- After boot and lines that leave the kernel's memory alone, the tick is handled
exactly as long as no task was spawned. -/
theorem tickHandled_iff {h : Handlers} {b : Build} {engine : Engine} {l : LinkMap} {mem : Mem}
    {past : List (Transition Session Input)} {s : Session} (harm : b.target = .arm)
    (hflash : FlashTable l h.stackTop h.reset h.faultHang mem)
    (hreset : sysTickEnabled mem = false) (hrun : Run b engine (atPrompt l mem) past s)
    (huser : forall tr, tr ∈ past -> StoresToUser b tr) :
    TickHandled h s ↔ forall tr, tr ∈ past -> ¬Spawns b tr := by
  have hstate : TickState h b past s :=
    Trail.invariant (TickState h b) (StoresToUser b) (tickState_atPrompt b hflash hreset)
      (fun _ _ _ _ hs hstep hstores => tickState_step harm hs hstep hstores) hrun huser
  constructor
  · intro hhandled tr htr hspawns
    have henabled := hstate.enabled.mpr ⟨tr, htr, hspawns⟩
    have hpendSV := (hhandled henabled).left
    rw [hstate.pendSV] at hpendSV
    exact h.pendSV_ne hpendSV.symm
  · intro hnever henabled
    obtain ⟨tr, htr, hspawns⟩ := hstate.enabled.mp henabled
    exact absurd hspawns (hnever tr htr)

def sampleHandlers : Handlers where
  stackTop := 0x20010000#32
  reset := 0x08000041#32
  faultHang := 0x08000101#32
  pendSV := 0x08000201#32
  sysTickPend := 0x08000301#32
  pendSV_ne := by decide
  sysTickPend_ne := by decide

/-- Memory at reset: the vectors in flash, and nothing else. -/
def flashedMem : Mem :=
  Memory.writeWords (fun _ => 0#8) 0x08000000#32
    (flashVectors sampleHandlers.stackTop sampleHandlers.reset sampleHandlers.faultHang)

theorem flashTable_flashedMem : FlashTable smallLinkMap sampleHandlers.stackTop
    sampleHandlers.reset sampleHandlers.faultHang flashedMem where
  start := rfl
  words := by
    intro i w hw
    have hall : ((List.range 16).all fun i => decide (some (flashedMem.read32
        (BitVec.ofNat 32 (smallLinkMap.vectorStart + 4 * i))) =
          (flashVectors sampleHandlers.stackTop sampleHandlers.reset
            sampleHandlers.faultHang)[i]?)) = true := by
      decide +kernel
    have hi : i < 16 := (List.getElem?_eq_some_iff.mp hw).choose
    have hword := of_decide_eq_true (List.all_eq_true.mp hall i (List.mem_range.mpr hi))
    rw [hw] at hword
    exact Option.some.inj hword

/-- The first prompt of a machine with that image. -/
def samplePrompt : Session := atPrompt smallLinkMap flashedMem

/-- A function is defined and nothing is spawned. -/
theorem tickHandled_define :
    exists past s, Run .arm .native samplePrompt past s ∧ past.length = 1 ∧
      TickHandled sampleHandlers s := by
  have hdefine : Step .arm .native samplePrompt (typed "fn f() { poke 0x20000000 1; }")
      (typeLine .arm samplePrompt "fn f() { poke 0x20000000 1; }") :=
    step_typed .native (by decide +kernel)
  have hrun := Trail.snoc Trail.nil hdefine
  refine ⟨_, _, hrun, rfl, ?_⟩
  apply (tickHandled_iff rfl flashTable_flashedMem (by decide +kernel) hrun ?_).mpr
  · intro tr htr
    rw [List.mem_singleton.mp htr]
    unfold Spawns
    decide +kernel
  · intro tr htr
    rw [List.mem_singleton.mp htr]
    exact storesToUser_of_all (by decide +kernel)

/-- The function is spawned: the timer runs and a tick faults. -/
theorem not_tickHandled_spawn :
    ¬ forall past s, Run .arm .native samplePrompt past s -> TickHandled sampleHandlers s := by
  intro hall
  have hdefine : Step .arm .native samplePrompt (typed "fn f() { poke 0x20000000 1; }")
      (typeLine .arm samplePrompt "fn f() { poke 0x20000000 1; }") :=
    step_typed .native (by decide +kernel)
  have hspawn : Step .arm .native
      (typeLine .arm samplePrompt "fn f() { poke 0x20000000 1; }") (typed "spawn f;")
      (typeLine .arm (typeLine .arm samplePrompt "fn f() { poke 0x20000000 1; }") "spawn f;") :=
    step_typed .native (by decide +kernel)
  have hhandled := hall _ _ (Trail.snoc (Trail.snoc Trail.nil hdefine) hspawn)
  have henabled : sysTickEnabled (typeLine .arm
      (typeLine .arm samplePrompt "fn f() { poke 0x20000000 1; }") "spawn f;").machine.mem =
        true := by
    decide +kernel
  have hvector : sysTickVector (typeLine .arm
      (typeLine .arm samplePrompt "fn f() { poke 0x20000000 1; }") "spawn f;").machine.mem ≠
        sampleHandlers.sysTickPend := by
    decide +kernel
  exact hvector (hhandled henabled).right

end Drivers
end HolyRust
