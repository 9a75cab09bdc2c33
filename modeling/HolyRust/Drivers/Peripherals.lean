import HolyRust.Foundation.BusProgram
import HolyRust.Capabilities.OpenRange
import HolyRust.Compilation.Outcomes
import HolyRust.Drivers.Repl

/-!
# Peripheral drivers

The drivers behind `pwm`, `pwm_duty`, `spi_tx` and `flash_test`, access by access.
The parser probes one address of the timer or of the SPI controller before it accepts
a line; `flash_test` needs nothing.  The drivers themselves check nothing.
-/

namespace HolyRust
namespace Drivers

open Foundation
open Capabilities
open Compilation

/-- A driver of a device with state `σ`. -/
abbrev DriverM (σ : Type) : Type -> Type := BusM Word Word σ

/-!
## TIM2
-/

namespace Pwm

def cr1 (t : Target) : Word := timBase t
def psc (t : Target) : Word := timBase t + 0x28#32
def arr (t : Target) : Word := timBase t + 0x2C#32
def ccmr1 (t : Target) : Word := timBase t + 0x18#32
def ccer (t : Target) : Word := timBase t + 0x20#32
def ccr1 (t : Target) : Word := timBase t + 0x34#32

/-- `RCC.APB1ENR`. -/
def apb1enr : Word := 0x40023840#32

def enableClock (t : Target) (bus : Bus Word Word σ) : DriverM σ Unit :=
  match t with
  | .arm => do
      let apb1 <- busRead bus apb1enr
      busWrite bus apb1enr (apb1 ||| 1#32)
  | .riscv32 => pure ()

def configure (t : Target) (bus : Bus Word Word σ) (periodTicks dutyTicks : Word) :
    DriverM σ (Word × Word) := do
  enableClock t bus
  busWrite bus (cr1 t) 0#32
  busWrite bus (psc t) 0#32
  busWrite bus (arr t) periodTicks
  let ccmr <- busRead bus (ccmr1 t)
  busWrite bus (ccmr1 t) ((ccmr &&& ~~~0x7F#32) ||| (0b110#32 <<< 4))
  let ccerOld <- busRead bus (ccer t)
  busWrite bus (ccer t) (ccerOld ||| 1#32)
  busWrite bus (ccr1 t) dutyTicks
  busWrite bus (cr1 t) 1#32
  pure (periodTicks, dutyTicks)

def setDuty (t : Target) (bus : Bus Word Word σ) (dutyTicks : Word) : DriverM σ Unit :=
  busWrite bus (ccr1 t) dutyTicks

end Pwm

/-!
## SPI1
-/

namespace Spi

def srTxe : Word := 1#32 <<< 1
def srRxne : Word := 1#32 <<< 0

def transferByte (t : Target) (bus : Bus Word Word σ) (fuel : Nat) (byte : Byte) :
    DriverM σ Byte :=
  match t with
  | .riscv32 => do
      busWrite bus 0x10014018#32 (byte.setWidth 32)
      let rx <- busWait bus (fun rx => rx &&& (1#32 <<< 31) == 0#32) 0x10014020#32 fuel
      pure (rx.setWidth 8)
  | .arm => do
      let _ <- busWait bus (fun sr => sr &&& srTxe != 0#32) 0x40013008#32 fuel
      busWrite bus 0x4001300C#32 (byte.setWidth 32)
      let _ <- busWait bus (fun sr => sr &&& srRxne != 0#32) 0x40013008#32 fuel
      let rx <- busRead bus 0x4001300C#32
      pure (rx.setWidth 8)

end Spi

/-!
## Flash
-/

namespace Flash

def keyr : Word := 0x40023C04#32
def sr : Word := 0x40023C0C#32
def cr : Word := 0x40023C10#32
def storeBase : Word := 0x0801C000#32

def key1 : Word := 0x45670123#32
def key2 : Word := 0xCDEF89AB#32
def crLock : Word := 1#32 <<< 31
def crPg : Word := 1#32 <<< 0
def crSer : Word := 1#32 <<< 1
def crStrt : Word := 1#32 <<< 16
def srBsy : Word := 1#32 <<< 16

def waitNotBusy (bus : Bus Word Word σ) (fuel : Nat) : DriverM σ Unit := do
  let _ <- busWait bus (fun v => v &&& srBsy == 0#32) sr fuel
  pure ()

def unlock (bus : Bus Word Word σ) : DriverM σ Unit := do
  let v <- busRead bus cr
  if v &&& crLock ≠ 0#32 then do
    busWrite bus keyr key1
    busWrite bus keyr key2
  else pure ()

def lock (bus : Bus Word Word σ) : DriverM σ Unit := do
  let v <- busRead bus cr
  busWrite bus cr (v ||| crLock)

def eraseStoreSector (bus : Bus Word Word σ) (fuel : Nat) (sectorIndex : Byte) :
    DriverM σ Bool := do
  unlock bus
  waitNotBusy bus fuel
  let old <- busRead bus cr
  busWrite bus cr ((old &&& ~~~(0xF#32 <<< 3)) ||| crSer |||
    ((sectorIndex.setWidth 32 &&& 0xF#32) <<< 3))
  let v <- busRead bus cr
  busWrite bus cr (v ||| crStrt)
  waitNotBusy bus fuel
  let status <- busRead bus sr
  busWrite bus cr (old &&& ~~~crSer)
  pure (status &&& (1#32 <<< 4 ||| 1#32 <<< 5) == 0#32)

def programWord (bus : Bus Word Word σ) (fuel : Nat) (byteOff word : Word) : DriverM σ Unit := do
  unlock bus
  waitNotBusy bus fuel
  let v <- busRead bus cr
  busWrite bus cr (v ||| crPg)
  busWrite bus (storeBase + byteOff) word
  waitNotBusy bus fuel
  let v' <- busRead bus cr
  busWrite bus cr (v' &&& ~~~crPg)

def selfTest (bus : Bus Word Word σ) (fuel : Nat) : DriverM σ Bool := do
  unlock bus
  let _ <- eraseStoreSector bus fuel 11#8
  programWord bus fuel 0#32 0xCAFEF00D#32
  let v <- busRead bus storeBase
  lock bus
  pure (v == 0xCAFEF00D#32)

end Flash

/-- What `execute` has a driver do. -/
def drive (t : Target) (bus : Bus Word Word σ) (fuel : Nat) : Outcome -> DriverM σ Unit
  | .pwm period duty => do
      let _ <- Pwm.configure t bus period duty
      pure ()
  | .pwmDuty duty => Pwm.setDuty t bus duty
  | .spiTx byte => do
      let _ <- Spi.transferByte t bus fuel byte
      pure ()
  | .flashTest => do
      let _ <- Flash.selfTest bus fuel
      pure ()
  | _ => pure ()

/-!
## Where the drivers go
-/

/-- `SR` and `DR` of SPI1, `TXDATA` and `RXDATA` on RISC-V. -/
def spiRegisters : Target -> List Word
  | .arm => [0x40013008#32, 0x4001300C#32]
  | .riscv32 => [0x10014018#32, 0x10014020#32]

/-- The registers that a driver command reads or writes. -/
def deviceRegisters (t : Target) : Outcome -> List Word
  | .pwm _ _ => pwmRegisters t
  | .pwmDuty _ => [Pwm.ccr1 t]
  | .spiTx _ => spiRegisters t
  | .flashTest => Flash.sr :: flashRegisters
  | _ => []

/-- An access to a register of the device; a write goes to one of those listed as stored to. -/
def DeviceAccess (t : Target) (outcome : Outcome) : Access Word Word -> Prop
  | .read a => a ∈ deviceRegisters t outcome
  | .write a _ => a ∈ deviceRegisters t outcome ∧ a ∈ driverRegisters t outcome

theorem touches_enableClock (t : Target) (bus : Bus Word Word σ) (period duty : Word) :
    Touches (DeviceAccess t (.pwm period duty)) (Pwm.enableClock t bus) := by
  cases t with
  | arm =>
      have hgate : Pwm.apb1enr ∈ pwmRegisters .arm := by decide
      exact touches_bind (touches_read bus hgate) fun _ => touches_write bus ⟨hgate, hgate⟩
  | riscv32 => exact touches_pure ()

/-- `configure` behind the clock gate. -/
theorem touches_programTimer (t : Target) (bus : Bus Word Word σ) (period duty : Word) :
    Touches (DeviceAccess t (.pwm period duty)) (do
      busWrite bus (Pwm.cr1 t) 0#32
      busWrite bus (Pwm.psc t) 0#32
      busWrite bus (Pwm.arr t) period
      let ccmr <- busRead bus (Pwm.ccmr1 t)
      busWrite bus (Pwm.ccmr1 t) ((ccmr &&& ~~~0x7F#32) ||| (0b110#32 <<< 4))
      let ccerOld <- busRead bus (Pwm.ccer t)
      busWrite bus (Pwm.ccer t) (ccerOld ||| 1#32)
      busWrite bus (Pwm.ccr1 t) duty
      busWrite bus (Pwm.cr1 t) 1#32
      pure (period, duty)) := by
  have hcr1 : Pwm.cr1 t ∈ pwmRegisters t := by cases t <;> decide
  have hpsc : Pwm.psc t ∈ pwmRegisters t := by cases t <;> decide
  have harr : Pwm.arr t ∈ pwmRegisters t := by cases t <;> decide
  have hccmr1 : Pwm.ccmr1 t ∈ pwmRegisters t := by cases t <;> decide
  have hccer : Pwm.ccer t ∈ pwmRegisters t := by cases t <;> decide
  have hccr1 : Pwm.ccr1 t ∈ pwmRegisters t := by cases t <;> decide
  refine touches_bind (touches_write bus ⟨hcr1, hcr1⟩) fun _ => ?_
  refine touches_bind (touches_write bus ⟨hpsc, hpsc⟩) fun _ => ?_
  refine touches_bind (touches_write bus ⟨harr, harr⟩) fun _ => ?_
  refine touches_bind (touches_read bus hccmr1) fun _ => ?_
  refine touches_bind (touches_write bus ⟨hccmr1, hccmr1⟩) fun _ => ?_
  refine touches_bind (touches_read bus hccer) fun _ => ?_
  refine touches_bind (touches_write bus ⟨hccer, hccer⟩) fun _ => ?_
  refine touches_bind (touches_write bus ⟨hccr1, hccr1⟩) fun _ => ?_
  exact touches_bind (touches_write bus ⟨hcr1, hcr1⟩) fun _ => touches_pure _

theorem touches_configure (t : Target) (bus : Bus Word Word σ) (period duty : Word) :
    Touches (DeviceAccess t (.pwm period duty)) (Pwm.configure t bus period duty) :=
  touches_bind (touches_enableClock t bus period duty) fun _ =>
    touches_programTimer t bus period duty

theorem touches_transferByte (t : Target) (bus : Bus Word Word σ) (fuel : Nat) (byte : Byte) :
    Touches (DeviceAccess t (.spiTx byte)) (Spi.transferByte t bus fuel byte) := by
  cases t with
  | arm =>
      have hsr : 0x40013008#32 ∈ spiRegisters .arm := by decide
      have hdr : 0x4001300C#32 ∈ spiRegisters .arm := by decide
      refine touches_bind (touches_wait bus _ hsr fuel) fun _ => ?_
      refine touches_bind (touches_write bus ⟨hdr, List.mem_singleton_self _⟩) fun _ => ?_
      refine touches_bind (touches_wait bus _ hsr fuel) fun _ => ?_
      exact touches_bind (touches_read bus hdr) fun _ => touches_pure _
  | riscv32 =>
      have htx : 0x10014018#32 ∈ spiRegisters .riscv32 := by decide
      have hrx : 0x10014020#32 ∈ spiRegisters .riscv32 := by decide
      refine touches_bind (touches_write bus ⟨htx, List.mem_singleton_self _⟩) fun _ => ?_
      exact touches_bind (touches_wait bus _ hrx fuel) fun _ => touches_pure _

section Flash

variable (t : Target) (bus : Bus Word Word σ) (fuel : Nat)

theorem reads_sr : DeviceAccess t .flashTest (.read Flash.sr) := List.mem_cons_self

theorem reads_cr : DeviceAccess t .flashTest (.read Flash.cr) := by
  show Flash.cr ∈ Flash.sr :: flashRegisters
  decide

theorem writes_flash {a : Word} (v : Word) (h : a ∈ flashRegisters) :
    DeviceAccess t .flashTest (.write a v) :=
  ⟨List.mem_cons_of_mem _ h, h⟩

theorem writes_cr (v : Word) : DeviceAccess t .flashTest (.write Flash.cr v) :=
  writes_flash t v (by decide)

theorem touches_waitNotBusy : Touches (DeviceAccess t .flashTest) (Flash.waitNotBusy bus fuel) :=
  touches_bind (touches_wait bus _ (reads_sr t) fuel) fun _ => touches_pure _

theorem touches_unlockKeys (v : Word) :
    Touches (DeviceAccess t .flashTest) (if v &&& Flash.crLock ≠ 0#32 then do
        busWrite bus Flash.keyr Flash.key1
        busWrite bus Flash.keyr Flash.key2
      else pure ()) := by
  have hkeyr : Flash.keyr ∈ flashRegisters := by decide
  refine touches_ite ?_ (touches_pure _)
  exact touches_bind (touches_write bus (writes_flash t _ hkeyr)) fun _ =>
    touches_write bus (writes_flash t _ hkeyr)

theorem touches_unlock : Touches (DeviceAccess t .flashTest) (Flash.unlock bus) :=
  touches_bind (touches_read bus (reads_cr t)) fun v => touches_unlockKeys t bus v

theorem startsWith_unlock : StartsWith (.read Flash.cr) (Flash.unlock bus) :=
  startsWith_bind (startsWith_read bus Flash.cr) fun v => touches_unlockKeys .arm bus v

theorem touches_lock : Touches (DeviceAccess t .flashTest) (Flash.lock bus) :=
  touches_bind (touches_read bus (reads_cr t)) fun _ => touches_write bus (writes_cr t _)

theorem touches_eraseStoreSector (sectorIndex : Byte) :
    Touches (DeviceAccess t .flashTest) (Flash.eraseStoreSector bus fuel sectorIndex) := by
  refine touches_bind (touches_unlock t bus) fun _ => ?_
  refine touches_bind (touches_waitNotBusy t bus fuel) fun _ => ?_
  refine touches_bind (touches_read bus (reads_cr t)) fun _ => ?_
  refine touches_bind (touches_write bus (writes_cr t _)) fun _ => ?_
  refine touches_bind (touches_read bus (reads_cr t)) fun _ => ?_
  refine touches_bind (touches_write bus (writes_cr t _)) fun _ => ?_
  refine touches_bind (touches_waitNotBusy t bus fuel) fun _ => ?_
  refine touches_bind (touches_read bus (reads_sr t)) fun _ => ?_
  exact touches_bind (touches_write bus (writes_cr t _)) fun _ => touches_pure _

theorem touches_programWord (word : Word) :
    Touches (DeviceAccess t .flashTest) (Flash.programWord bus fuel 0#32 word) := by
  have hstore : Flash.storeBase + 0#32 ∈ flashRegisters := by decide
  refine touches_bind (touches_unlock t bus) fun _ => ?_
  refine touches_bind (touches_waitNotBusy t bus fuel) fun _ => ?_
  refine touches_bind (touches_read bus (reads_cr t)) fun _ => ?_
  refine touches_bind (touches_write bus (writes_cr t _)) fun _ => ?_
  refine touches_bind (touches_write bus (writes_flash t _ hstore)) fun _ => ?_
  refine touches_bind (touches_waitNotBusy t bus fuel) fun _ => ?_
  exact touches_bind (touches_read bus (reads_cr t)) fun _ => touches_write bus (writes_cr t _)

theorem touches_readBack :
    Touches (DeviceAccess t .flashTest) (do
      let _ <- Flash.eraseStoreSector bus fuel 11#8
      Flash.programWord bus fuel 0#32 0xCAFEF00D#32
      let v <- busRead bus Flash.storeBase
      Flash.lock bus
      pure (v == 0xCAFEF00D#32)) := by
  have hstore : Flash.storeBase ∈ Flash.sr :: flashRegisters := by decide
  refine touches_bind (touches_eraseStoreSector t bus fuel _) fun _ => ?_
  refine touches_bind (touches_programWord t bus fuel _) fun _ => ?_
  refine touches_bind (touches_read bus hstore) fun _ => ?_
  exact touches_bind (touches_lock t bus) fun _ => touches_pure _

theorem touches_selfTest : Touches (DeviceAccess t .flashTest) (Flash.selfTest bus fuel) :=
  touches_bind (touches_unlock t bus) fun _ => touches_readBack t bus fuel

/-- The self test reads the flash controller whatever the device is. -/
theorem startsWith_selfTest : StartsWith (.read Flash.cr) (Flash.selfTest bus fuel) :=
  startsWith_bind (startsWith_unlock bus) fun _ => touches_readBack .arm bus fuel

end Flash

/-- Every access of a driver command is to a register of its device. -/
theorem touches_drive (t : Target) (bus : Bus Word Word σ) (fuel : Nat) (outcome : Outcome) :
    Touches (DeviceAccess t outcome) (drive t bus fuel outcome) := by
  cases outcome with
  | pwm period duty =>
      exact touches_bind (touches_configure t bus period duty) fun _ => touches_pure _
  | pwmDuty duty =>
      exact touches_write bus ⟨List.mem_singleton_self _, List.mem_singleton_self _⟩
  | spiTx byte => exact touches_bind (touches_transferByte t bus fuel byte) fun _ => touches_pure _
  | flashTest => exact touches_bind (touches_selfTest t bus fuel) fun _ => touches_pure _
  | _ => exact touches_pure _

theorem address_of_deviceAccess {t : Target} {outcome : Outcome} {acc : Access Word Word}
    (h : DeviceAccess t outcome acc) : acc.address ∈ deviceRegisters t outcome := by
  cases acc with
  | read a => exact h
  | write a v => exact h.1

/-- The session lets a driver command make the accesses that its driver makes. -/
theorem makes_drive (engine : Engine) (b : Build) {outcome : Outcome}
    (hrun : forall program, outcome ≠ .run program) (bus : Bus Word Word σ) (fuel : Nat)
    (device : σ) :
    Makes engine b outcome (accessesOf (drive b.target bus fuel outcome) device) := by
  have htouches := forall_accessesOf (touches_drive b.target bus fuel outcome) device
  have hstores : forall a, a ∈ storeAddrs (accessesOf (drive b.target bus fuel outcome) device) ->
      a ∈ driverRegisters b.target outcome := by
    intro a ha
    obtain ⟨acc, hacc, hstore⟩ := List.mem_filterMap.mp ha
    cases acc with
    | read a' => cases hstore
    | write a' v =>
        cases hstore
        exact (htouches _ hacc).2
  cases outcome with
  | run program => exact absurd rfl (hrun program)
  | _ => exact hstores

/-!
## Mediation
-/

/-- Every access that the outcome has a driver make is one that `check_access` accepts. -/
def Mediated (t : Target) (r : Registry) (outcome : Outcome) : Prop :=
  forall (σ : Type) (bus : Bus Word Word σ) (fuel : Nat) (device : σ) (acc : Access Word Word),
    acc ∈ accessesOf (drive t bus fuel outcome) device -> Accessible t r acc.address

/-- One probe speaks for the addresses that the address maps send the same way. -/
def SameRegion (t : Target) (a b : Word) : Prop :=
  addrToCapId t a = addrToCapId t b ∧ isRamFlash t a = isRamFlash t b

instance (t : Target) (a b : Word) : Decidable (SameRegion t a b) :=
  inferInstanceAs (Decidable (_ ∧ _))

theorem accessible_of_sameRegion {t : Target} {r : Registry} {a b : Word}
    (h : SameRegion t a b) (hb : Accessible t r b) : Accessible t r a := by
  unfold Accessible checkAccess at *
  rw [h.1, h.2]
  exact hb

theorem timer_sameRegion (t : Target) : forall a, a ∈ pwmRegisters t ->
    a = Pwm.apb1enr ∨ SameRegion t a (timerProbe t) := by
  have hall : (pwmRegisters t).all (fun a =>
      decide (a = Pwm.apb1enr ∨ SameRegion t a (timerProbe t))) = true := by
    cases t <;> decide +kernel
  intro a ha
  exact of_decide_eq_true (List.all_eq_true.mp hall a ha)

theorem spi_sameRegion (t : Target) : forall a, a ∈ spiRegisters t ->
    SameRegion t a (spiProbe t) := by
  have hall : (spiRegisters t).all (fun a => decide (SameRegion t a (spiProbe t))) = true := by
    cases t <;> decide +kernel
  intro a ha
  exact of_decide_eq_true (List.all_eq_true.mp hall a ha)

/-- `check_access` accepts every register of the device but the clock gate. -/
def Covered (env : Env) (outcome : Outcome) : Prop :=
  forall a, a ∈ deviceRegisters env.target outcome ->
    a = Pwm.apb1enr ∨ Accessible env.target env.registry a

theorem covered_of_nil {env : Env} {outcome : Outcome}
    (h : deviceRegisters env.target outcome = []) : Covered env outcome := by
  intro a ha
  rw [h] at ha
  cases ha

/-- What the parser checks before it accepts a line covers its driver. -/
theorem covered_of_answers {env : Env} {command : Command} {outcome : Outcome}
    (h : Answers env command outcome) (hflash : outcome ≠ .flashTest) : Covered env outcome := by
  cases command with
  | pwm =>
      obtain ⟨period, duty, rfl, hprobe⟩ := h
      intro a ha
      rcases timer_sameRegion env.target a ha with hgate | hregion
      · exact Or.inl hgate
      · exact Or.inr (accessible_of_sameRegion hregion hprobe)
  | pwmDuty =>
      obtain ⟨duty, rfl, hprobe⟩ := h
      intro a ha
      have hpwm : a ∈ pwmRegisters env.target := by
        rw [List.mem_singleton.mp ha]
        cases env.target <;> decide
      rcases timer_sameRegion env.target a hpwm with hgate | hregion
      · exact Or.inl hgate
      · exact Or.inr (accessible_of_sameRegion hregion hprobe)
  | spiTx =>
      obtain ⟨b, rfl, hprobe⟩ := h
      intro a ha
      exact Or.inr (accessible_of_sameRegion (spi_sameRegion env.target a ha) hprobe)
  | flashTest => exact absurd h hflash
  | help | banner | sysAudit | bench | storeList | poolFree | poolStats =>
      cases h
      exact covered_of_nil rfl
  | capClaim | capDrop | store | load | loop | poolAlloc | spawn =>
      obtain ⟨_, rfl⟩ := h
      exact covered_of_nil rfl
  | peek =>
      obtain ⟨addr, rfl, _⟩ := h
      exact covered_of_nil rfl
  | poke | regSetBit | regClrBit =>
      obtain ⟨addr, val, rfl, _⟩ := h
      exact covered_of_nil rfl

theorem covered_of_meant {env : Env} {outcome : Outcome} (h : Meant env outcome)
    (hflash : outcome ≠ .flashTest) : Covered env outcome := by
  rcases h with ⟨name, value, rfl⟩ | ⟨name, rfl⟩ | ⟨program, rfl⟩ | ⟨command, hanswers⟩
  · exact covered_of_nil rfl
  · exact covered_of_nil rfl
  · exact covered_of_nil rfl
  · exact covered_of_answers hanswers hflash

theorem reads_flashController (t : Target) (bus : Bus Word Word σ) (fuel : Nat) (device : σ) :
    Access.read Flash.cr ∈ accessesOf (drive t bus fuel .flashTest) device :=
  mem_accessesOf (startsWith_bind (startsWith_selfTest bus fuel) fun _ =>
    touches_pure (A := DeviceAccess t .flashTest) ()) device

/-- `flash_test` needs no capability. -/
theorem accepted_flashTest (env : Env) (c : Compiler) :
    exists s, parse env c (ascii "flash_test;") = .ok .flashTest s :=
  ⟨_, rfl⟩

/-- Neither address map has these, so only SuperUser reaches them. -/
theorem superuser_of_accessible {t : Target} {r : Registry} {a : Word}
    (hregion : addrToCapId t a = none ∧ isRamFlash t a = false) (h : Accessible t r a) :
    isSuperuserActive r = true := by
  by_contra hsuper
  rw [accessible_iff a (Bool.eq_false_of_not_eq_true hsuper), hregion.1, hregion.2] at h
  rcases h with ⟨cap, hcap, _⟩ | ⟨_, hram⟩
  · cases hcap
  · cases hram

theorem superuser_of_accessible_flash {t : Target} {r : Registry}
    (h : Accessible t r Flash.cr) : isSuperuserActive r = true :=
  superuser_of_accessible (by cases t <;> decide +kernel) h

theorem superuser_of_accessible_gate {r : Registry} (h : Accessible .arm r Pwm.apb1enr) :
    isSuperuserActive r = true :=
  superuser_of_accessible (by decide +kernel) h

theorem accessible_of_superuser {t : Target} {r : Registry} (h : isSuperuserActive r = true)
    (a : Word) : Accessible t r a := by
  unfold Accessible checkAccess
  rw [if_pos h]

/-- The clock gate is the first thing that `pwm` touches on ARM. -/
theorem reads_clockGate (bus : Bus Word Word σ) (fuel : Nat) (device : σ) (period duty : Word) :
    Access.read Pwm.apb1enr ∈ accessesOf (drive .arm bus fuel (.pwm period duty)) device := by
  have hgate : Pwm.apb1enr ∈ pwmRegisters .arm := by decide
  have hconfigure : StartsWith (.read Pwm.apb1enr) (Pwm.configure .arm bus period duty) := by
    have henable : StartsWith (.read Pwm.apb1enr) (Pwm.enableClock .arm bus) :=
      startsWith_bind (startsWith_read bus Pwm.apb1enr) fun v =>
        touches_write (A := DeviceAccess .arm (.pwm period duty)) bus ⟨hgate, hgate⟩
    exact startsWith_bind henable fun _ => touches_programTimer .arm bus period duty
  exact mem_accessesOf (startsWith_bind hconfigure fun _ =>
    touches_pure (A := DeviceAccess .arm (.pwm period duty)) ()) device

/-- The registers of the other commands are all covered. -/
theorem clockGate_mem {t : Target} {outcome : Outcome}
    (h : Pwm.apb1enr ∈ deviceRegisters t outcome) (hflash : outcome ≠ .flashTest) :
    t = .arm ∧ exists period duty, outcome = .pwm period duty := by
  cases outcome with
  | pwm period duty =>
      cases t with
      | arm => exact ⟨rfl, period, duty, rfl⟩
      | riscv32 =>
          have hnone : Pwm.apb1enr ∉ pwmRegisters .riscv32 := by decide
          exact absurd h hnone
  | pwmDuty duty =>
      have hnone : Pwm.apb1enr ∉ [Pwm.ccr1 t] := by cases t <;> decide
      exact absurd h hnone
  | spiTx b =>
      have hnone : Pwm.apb1enr ∉ spiRegisters t := by cases t <;> decide
      exact absurd h hnone
  | flashTest => exact absurd rfl hflash
  | _ => cases h

theorem lineCommand_of_drives {env : Env} {c : Compiler} {line : List Byte} {outcome : Outcome}
    {s : ParseState} (h : parse env c line = .ok outcome s) :
    (outcome = .flashTest -> lineCommand line = some .flashTest) ∧
      ((exists period duty, outcome = .pwm period duty) -> lineCommand line = some .pwm) := by
  cases hcommand : lineCommand line with
  | none =>
      rcases definition_or_run_of_lineCommand h hcommand with
        ⟨name, value, rfl⟩ | ⟨name, rfl⟩ | ⟨program, rfl⟩
      all_goals
        constructor
        · intro heq
          cases heq
        · rintro ⟨period, duty, heq⟩
          cases heq
  | some command =>
      have hanswers := answers_of_lineCommand h hcommand
      constructor
      · rintro rfl
        cases command <;> simp_all [Answers]
      · rintro ⟨period, duty, rfl⟩
        cases command <;> simp_all [Answers]

/-- An accepted line has its driver keep to what `check_access` allows exactly when
SuperUser is active, or the line is neither `flash_test` nor, on ARM, `pwm`. -/
theorem mediated_iff {env : Env} {c : Compiler} {line : List Byte} {outcome : Outcome}
    {s : ParseState} (h : parse env c line = .ok outcome s) :
    Mediated env.target env.registry outcome ↔
      isSuperuserActive env.registry = true ∨
        (lineCommand line ≠ some .flashTest ∧
          (env.target = .arm -> lineCommand line ≠ some .pwm)) := by
  constructor
  · intro hmediated
    by_cases hsuper : isSuperuserActive env.registry = true
    · exact Or.inl hsuper
    refine Or.inr ⟨fun hcommand => hsuper ?_, fun harm hcommand => hsuper ?_⟩
    · have houtcome : outcome = .flashTest := answers_of_lineCommand h hcommand
      rw [houtcome] at hmediated
      exact superuser_of_accessible_flash (hmediated Unit (Bus.constant 0#32) 1 () _
        (reads_flashController env.target (Bus.constant 0#32) 1 ()))
    · obtain ⟨period, duty, houtcome, _⟩ := answers_of_lineCommand h hcommand
      rw [houtcome, harm] at hmediated
      exact superuser_of_accessible_gate (hmediated Unit (Bus.constant 0#32) 1 () _
        (reads_clockGate (Bus.constant 0#32) 1 () period duty))
  · rintro (hsuper | ⟨hflash, hpwm⟩) σ bus fuel device acc hacc
    · exact accessible_of_superuser hsuper _
    · obtain ⟨hline, hline'⟩ := lineCommand_of_drives h
      have hother : outcome ≠ .flashTest := mt hline hflash
      have hmem := address_of_deviceAccess
        (forall_accessesOf (touches_drive env.target bus fuel outcome) device acc hacc)
      rcases covered_of_meant (parse_meant h) hother _ hmem with hgate | hcovered
      · rw [hgate] at hmem
        obtain ⟨harm, hconfigures⟩ := clockGate_mem hmem hother
        exact absurd (hline' hconfigures) (hpwm harm)
      · exact hcovered

/-- `TIMER0` is claimed. -/
def envWithTimer : Env :=
  { Env.idle with registry := Registry.put (fun _ => 0#32) 0 0x20#32 }

def pwmOf : EStateM.Result Abort ParseState Outcome -> Option (Word × Word)
  | .ok (.pwm period duty) _ => some (period, duty)
  | _ => none

theorem ok_of_pwmOf {x : EStateM.Result Abort ParseState Outcome} {period duty : Word}
    (h : pwmOf x = some (period, duty)) : exists s, x = .ok (.pwm period duty) s := by
  cases x with
  | error e s => cases h
  | ok outcome s =>
      cases outcome with
      | pwm p d =>
          cases h
          exact ⟨s, rfl⟩
      | _ => cases h

/-- With the timer claimed, `pwm` is accepted and goes to the clock gate besides. -/
theorem mediated_iff_pwm :
    (exists s, parse envWithTimer Compiler.new (ascii "pwm 1000 500;") =
        .ok (.pwm 1000#32 500#32) s) ∧
      ¬ Mediated .arm envWithTimer.registry (.pwm 1000#32 500#32) := by
  have hpwm : pwmOf (parse envWithTimer Compiler.new (ascii "pwm 1000 500;")) =
      some (1000#32, 500#32) := by
    decide +kernel
  obtain ⟨s, hparse⟩ := ok_of_pwmOf hpwm
  refine ⟨⟨s, hparse⟩, fun hmediated => ?_⟩
  rcases (mediated_iff hparse).mp hmediated with hsuper | ⟨_, harm⟩
  · have hidle : isSuperuserActive envWithTimer.registry = false := by decide +kernel
    rw [hidle] at hsuper
    cases hsuper
  · exact harm rfl (by decide +kernel)

/-- With nothing claimed, `flash_test;` drives the flash controller. -/
theorem not_mediated_flashTest :
    isSuperuserActive Env.idle.registry = false ∧
      (exists s, parse Env.idle Compiler.new (ascii "flash_test;") = .ok .flashTest s) ∧
      ¬ Mediated Env.idle.target Env.idle.registry .flashTest := by
  have hidle : isSuperuserActive Env.idle.registry = false := by decide +kernel
  refine ⟨hidle, accepted_flashTest Env.idle Compiler.new, ?_⟩
  intro hmediated
  have haccess := hmediated Unit (Bus.constant 0#32) 1 () _
    (reads_flashController Env.idle.target (Bus.constant 0#32) 1 ())
  rw [superuser_of_accessible_flash haccess] at hidle
  cases hidle

end Drivers
end HolyRust
