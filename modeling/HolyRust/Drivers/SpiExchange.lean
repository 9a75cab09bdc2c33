import HolyRust.Foundation.RegisterBits
import HolyRust.Drivers.Peripherals

/-!
# Transfers over SPI

SPI1 on ARM against a controller with a data register, a shift register and a receive
buffer, and a slave that answers each byte as it likes.  A transfer waits until the
answer to its own byte is there, and so the answers stay in step with the bytes.
-/

namespace HolyRust
namespace Drivers
namespace Spi

open Foundation

def cr1 : Word := 0x40013000#32
def sr : Word := 0x40013008#32
def dr : Word := 0x4001300C#32

/-- `RCC.APB2ENR`. -/
def apb2enr : Word := 0x40023844#32
def spi1en : Word := 1#32 <<< 12

def enableClock (t : Target) (bus : Bus Word Word σ) : DriverM σ Unit :=
  match t with
  | .arm => do
      let apb2 <- busRead bus apb2enr
      busWrite bus apb2enr (apb2 ||| spi1en)
  | .riscv32 => pure ()

/-- Master, with the divider for the baud rate. -/
def masterControl (brDivLog2 : Byte) : Word :=
  (1#32 <<< 2) ||| ((brDivLog2.setWidth 32 &&& 0x7#32) <<< 3)

def configure (t : Target) (bus : Bus Word Word σ) (brDivLog2 : Byte) : DriverM σ Unit := do
  enableClock t bus
  match t with
  | .arm => do
      busWrite bus cr1 (masterControl brDivLog2)
      busWrite bus cr1 (masterControl brDivLog2 ||| (1#32 <<< 6))
  | .riscv32 => busWrite bus 0x10014000#32 ((brDivLog2.setWidth 32 &&& 0x7#32) <<< 16)

def transferAll (t : Target) (bus : Bus Word Word σ) (fuel : Nat) :
    List Byte -> DriverM σ (List Byte)
  | [] => pure []
  | byte :: bytes => do
      let answer <- transferByte t bus fuel byte
      let answers <- transferAll t bus fuel bytes
      pure (answer :: answers)

/-!
## The slave
-/

/-- What the slave shifts out while it takes a byte in. -/
structure Slave (τ : Type) where
  exchange : τ -> Byte -> Byte × τ

namespace Slave

variable {τ : Type} (slave : Slave τ)

def answers : τ -> List Byte -> List Byte
  | _, [] => []
  | state, byte :: bytes =>
      (slave.exchange state byte).1 :: answers (slave.exchange state byte).2 bytes

/-- The slave after the bytes. -/
def after (state : τ) (bytes : List Byte) : τ :=
  bytes.foldl (fun state byte => (slave.exchange state byte).2) state

end Slave

/-!
## The controller
-/

/-- The byte to be sent, the frame under way with the polls until it ends, and the byte
that was received and not read yet. -/
structure Controller (τ : Type) where
  clock : Word
  control : Word
  slave : τ
  holding : Option Byte
  shifting : Option (Byte × Nat)
  received : Option Byte
  overrun : Bool
  frames : Nat

namespace Controller

section Device

variable {τ : Type} (slave : Slave τ) (polls : Nat -> Nat)

def clocked (c : Controller τ) : Bool :=
  c.clock.getLsbD 12

/-- The clock is on and SPE is set. -/
def on (c : Controller τ) : Bool :=
  c.clocked && c.control.getLsbD 6

def status (c : Controller τ) : Word :=
  (if c.received = none then 0#32 else srRxne) ||| (if c.holding = none then srTxe else 0#32)

/-- The byte is in the shift register for another `left` polls. -/
def sending (c : Controller τ) (byte : Byte) (left : Nat) : Controller τ :=
  { c with holding := none, shifting := some (byte, left) }

/-- A frame ends: a byte that has not been read keeps its place. -/
def endFrame (c : Controller τ) (byte : Byte) : Controller τ :=
  { c with
    slave := (slave.exchange c.slave byte).2
    shifting := none
    received := c.received <|> some (slave.exchange c.slave byte).1
    overrun := c.overrun || c.received.isSome
    frames := c.frames + 1 }

/-- What happens during a poll. -/
def pass (c : Controller τ) : Controller τ :=
  if c.on then
    match c.shifting, c.holding with
    | some (byte, 0), _ => c.endFrame slave byte
    | some (byte, left + 1), _ => { c with shifting := some (byte, left) }
    | none, some byte => c.sending byte (polls c.frames)
    | none, none => c
  else c

/-- Without its clock the controller reads as zero and takes nothing. -/
def bus : Bus Word Word (Controller τ) where
  load c a :=
    if a = apb2enr then (c.clock, c)
    else if c.clocked then
      if a = sr then (c.status, c.pass slave polls)
      else if a = dr then ((c.received.getD 0#8).setWidth 32, { c with received := none })
      else if a = cr1 then (c.control, c)
      else (0#32, c)
    else (0#32, c)
  store c a v :=
    if a = apb2enr then { c with clock := v }
    else if c.clocked then
      if a = dr then { c with holding := some (v.setWidth 8) }
      else if a = cr1 then { c with control := v }
      else c
    else c

theorem ready_txe (c : Controller τ) : (c.status &&& srTxe != 0#32) = c.holding.isNone := by
  unfold status
  cases c.holding <;> cases c.received <;> simp <;> decide

theorem ready_rxne (c : Controller τ) : (c.status &&& srRxne != 0#32) = c.received.isSome := by
  unfold status
  cases c.holding <;> cases c.received <;> simp <;> decide

/-- No byte is anywhere on its way. -/
structure Idle (c : Controller τ) : Prop where
  holding : c.holding = none
  shifting : c.shifting = none
  received : c.received = none

variable {c : Controller τ}

theorem clocked_of_on (hon : c.on = true) : c.clocked = true :=
  (Bool.and_eq_true_iff.mp hon).left

theorem load_sr (hclock : c.clocked = true) :
    (bus slave polls).load c sr = (c.status, c.pass slave polls) := by
  show (if c.clocked then _ else _) = _
  rw [if_pos hclock]
  rfl

theorem load_dr (hclock : c.clocked = true) :
    (bus slave polls).load c dr =
      ((c.received.getD 0#8).setWidth 32, { c with received := none }) := by
  show (if c.clocked then _ else _) = _
  rw [if_pos hclock]
  rfl

theorem store_dr (hclock : c.clocked = true) (v : Word) :
    (bus slave polls).store c dr v = { c with holding := some (v.setWidth 8) } := by
  show (if c.clocked then _ else _) = _
  rw [if_pos hclock]
  rfl

/-- The wait for the answer, up to the value that it reads. -/
def Answered (fuel : Nat) (c c' : Controller τ) : Prop :=
  exists v, Yields (busWait (bus slave polls) (fun v => v &&& srRxne != 0#32) sr fuel) c v c'

theorem answered_of_pass {c' : Controller τ} {fuel : Nat} (hon : c.on = true)
    (hnone : c.received = none) (hrest : Answered slave polls fuel (c.pass slave polls) c') :
    Answered slave polls (fuel + 1) c c' := by
  obtain ⟨v, hrest⟩ := hrest
  have hbusy : (((bus slave polls).load c sr).1 &&& srRxne != 0#32) = false := by
    rw [load_sr slave polls (clocked_of_on hon), ready_rxne, hnone]
    rfl
  refine ⟨v, yields_wait_again hbusy ?_⟩
  rw [load_sr slave polls (clocked_of_on hon)]
  exact hrest

theorem answered_of_received {fuel : Nat} (hon : c.on = true) (hholding : c.holding = none)
    (hshifting : c.shifting = none) (hsome : c.received.isSome = true) :
    Answered slave polls (fuel + 1) c c := by
  have hready : (((bus slave polls).load c sr).1 &&& srRxne != 0#32) = true := by
    rw [load_sr slave polls (clocked_of_on hon), ready_rxne, hsome]
  have hpass : c.pass slave polls = c := by
    unfold pass
    rw [if_pos hon, hshifting, hholding]
  have hwait : Yields (busWait (bus slave polls) (fun v => v &&& srRxne != 0#32) sr (fuel + 1)) c
      _ _ := yields_wait_ready fuel hready
  rw [load_sr slave polls (clocked_of_on hon), hpass] at hwait
  exact ⟨_, hwait⟩

/-- The frame under way ends and its answer is there. -/
theorem answered_of_shifting {byte : Byte} {left fuel : Nat} (hfuel : left + 1 < fuel)
    (hon : c.on = true) (hholding : c.holding = none) (hnone : c.received = none)
    (hshifting : c.shifting = some (byte, left)) :
    Answered slave polls fuel c (c.endFrame slave byte) := by
  induction left generalizing c fuel with
  | zero =>
      obtain ⟨fuel, rfl⟩ := Nat.exists_eq_add_of_lt hfuel
      rw [Nat.zero_add, Nat.add_comm 1 fuel]
      have hpass : c.pass slave polls = c.endFrame slave byte := by
        unfold pass
        rw [if_pos hon, hshifting]
      refine answered_of_pass slave polls hon hnone ?_
      rw [hpass]
      refine answered_of_received slave polls (c := c.endFrame slave byte) hon hholding rfl ?_
      unfold endFrame
      rw [hnone]
      rfl
  | succ left ih =>
      obtain ⟨fuel, rfl⟩ := Nat.exists_eq_add_one_of_ne_zero (n := fuel) (by lia)
      have hpass : c.pass slave polls = { c with shifting := some (byte, left) } := by
        unfold pass
        rw [if_pos hon, hshifting]
      refine answered_of_pass slave polls hon hnone ?_
      rw [hpass]
      exact ih (c := { c with shifting := some (byte, left) }) (by lia) hon hholding hnone rfl

/-- The controller after a byte has been exchanged. -/
def exchanged (c : Controller τ) (byte : Byte) : Controller τ :=
  { c with slave := (slave.exchange c.slave byte).2, frames := c.frames + 1 }

theorem idle_exchanged (h : Idle c) (byte : Byte) : Idle (c.exchanged slave byte) where
  holding := h.holding
  shifting := h.shifting
  received := h.received

/-- A transfer returns the answer to its own byte, and leaves nothing behind. -/
theorem yields_transferByte (hon : c.on = true) (h : Idle c) {fuel : Nat}
    (hfuel : polls c.frames + 2 < fuel) (byte : Byte) :
    Yields (transferByte .arm (bus slave polls) fuel byte) c (slave.exchange c.slave byte).1
      (c.exchanged slave byte) := by
  obtain ⟨fuel, rfl⟩ := Nat.exists_eq_add_one_of_ne_zero (n := fuel) (by lia)
  have hroom : Yields (busWait (bus slave polls) (fun v => v &&& srTxe != 0#32) sr (fuel + 1)) c
      c.status c := by
    have hready : (((bus slave polls).load c sr).1 &&& srTxe != 0#32) = true := by
      rw [load_sr slave polls (clocked_of_on hon), ready_txe, h.holding]
      rfl
    have hpass : c.pass slave polls = c := by
      unfold pass
      rw [if_pos hon, h.shifting, h.holding]
    have hwait : Yields (busWait (bus slave polls) (fun v => v &&& srTxe != 0#32) sr (fuel + 1)) c
        _ _ := yields_wait_ready fuel hready
    rw [load_sr slave polls (clocked_of_on hon), hpass] at hwait
    exact hwait
  have hgive := yields_write (bus slave polls) dr (byte.setWidth 32) c
  rw [store_dr slave polls (clocked_of_on hon), byte_of_word] at hgive
  -- The first poll moves the byte into the shift register.
  have hpass : ({ c with holding := some byte } : Controller τ).pass slave polls =
      c.sending byte (polls c.frames) := by
    unfold pass
    rw [if_pos (show ({ c with holding := some byte } : Controller τ).on = true from hon)]
    simp only [h.shifting]
    rfl
  have hanswered : Answered slave polls (fuel + 1) { c with holding := some byte }
      ((c.sending byte (polls c.frames)).endFrame slave byte) := by
    refine answered_of_pass slave polls hon h.received ?_
    rw [hpass]
    exact answered_of_shifting slave polls (by lia) hon rfl h.received rfl
  obtain ⟨v, hanswered⟩ := hanswered
  have hread : (bus slave polls).load ((c.sending byte (polls c.frames)).endFrame slave byte) dr =
      ((slave.exchange c.slave byte).1.setWidth 32, c.exchanged slave byte) := by
    have hclock := clocked_of_on hon
    rw [load_dr slave polls (c := (c.sending byte (polls c.frames)).endFrame slave byte) hclock]
    unfold endFrame exchanged sending
    simp [h.holding, h.shifting, h.received]
  refine yields_bind hroom (yields_bind hgive (yields_bind hanswered ?_))
  refine yields_bind (yields_read _ dr _) ?_
  rw [hread, byte_of_word]
  exact yields_pure _ _

/-- The answers are those of the slave to these bytes, one for each and in order. -/
theorem yields_transferAll (hon : c.on = true) (h : Idle c) {fuel : Nat}
    (hfuel : forall n, polls n + 2 < fuel) (bytes : List Byte) :
    exists c', Yields (transferAll .arm (bus slave polls) fuel bytes) c
        (slave.answers c.slave bytes) c' ∧
      c'.slave = slave.after c.slave bytes ∧ c'.overrun = c.overrun ∧ Idle c' := by
  induction bytes generalizing c with
  | nil => exact ⟨c, yields_pure _ _, rfl, rfl, h⟩
  | cons byte bytes ih =>
      have hfirst := yields_transferByte slave polls hon h (hfuel c.frames) byte
      obtain ⟨c', hrest, hslave, hoverrun, hidle⟩ :=
        ih (c := c.exchanged slave byte) hon (idle_exchanged slave h byte)
      exact ⟨c', yields_bind hfirst (yields_bind hrest (yields_pure _ _)), hslave, hoverrun, hidle⟩

theorem yields_enableClock (c : Controller τ) :
    Yields (enableClock .arm (bus slave polls)) c () { c with clock := c.clock ||| spi1en } :=
  yields_bind (yields_read _ apb2enr c) (yields_write _ apb2enr _ c)

theorem yields_control (hclock : c.clocked = true) (v : Word) :
    Yields (busWrite (bus slave polls) cr1 v) c () { c with control := v } := by
  have hstore : (bus slave polls).store c cr1 v = { c with control := v } := by
    show (if c.clocked then _ else _) = _
    rw [if_pos hclock]
    rfl
  rw [← hstore]
  exact yields_write _ cr1 v c

/-- `spi::configure` switches the controller on, whatever it was before. -/
theorem yields_configure (h : Idle c) (brDivLog2 : Byte) :
    exists c', Yields (configure .arm (bus slave polls) brDivLog2) c () c' ∧
      c'.on = true ∧ Idle c' ∧ c'.slave = c.slave ∧ c'.overrun = c.overrun := by
  have hclock : (c.clock ||| spi1en).getLsbD 12 = true := by
    rw [spi1en, getLsbD_or_bit _ _ (by decide)]
    simp
  have hmaster := yields_control slave polls (c := { c with clock := c.clock ||| spi1en }) hclock
    (masterControl brDivLog2)
  have hswitch := yields_control slave polls
    (c := { c with clock := c.clock ||| spi1en, control := masterControl brDivLog2 }) hclock
    (masterControl brDivLog2 ||| (1#32 <<< 6))
  refine ⟨_, yields_bind (yields_enableClock slave polls c) (yields_bind hmaster hswitch), ?_⟩
  refine ⟨?_, ⟨h.holding, h.shifting, h.received⟩, rfl, rfl⟩
  have hspe : (masterControl brDivLog2 ||| (1#32 <<< 6)).getLsbD 6 = true := by
    rw [getLsbD_or_bit _ _ (by decide)]
    simp
  exact Bool.and_eq_true_iff.mpr ⟨hclock, hspe⟩

theorem pass_of_off (hoff : c.on = false) : c.pass slave polls = c := by
  unfold pass
  rw [if_neg (by rw [hoff]; decide)]

/-- Without its clock the controller never has room; without SPE no answer ever comes. -/
theorem stuck_transferByte (hoff : c.on = false) (h : Idle c) (fuel : Nat) (byte : Byte) :
    Stuck (transferByte .arm (bus slave polls) fuel byte) c := by
  by_cases hclock : c.clocked = true
  · cases fuel with
    | zero => exact stuck_bind fun _ => ⟨_, rfl⟩
    | succ fuel =>
        have hready : (((bus slave polls).load c sr).1 &&& srTxe != 0#32) = true := by
          rw [load_sr slave polls hclock, ready_txe, h.holding]
          rfl
        have hroom : Yields
            (busWait (bus slave polls) (fun v => v &&& srTxe != 0#32) sr (fuel + 1)) c
            _ _ := yields_wait_ready fuel hready
        rw [load_sr slave polls hclock, pass_of_off slave polls hoff] at hroom
        have hgive := yields_write (bus slave polls) dr (byte.setWidth 32) c
        rw [store_dr slave polls hclock, byte_of_word] at hgive
        have hload := load_sr slave polls (c := { c with holding := some byte }) hclock
        rw [pass_of_off slave polls (c := { c with holding := some byte }) hoff] at hload
        have hsilent : Stuck (busWait (bus slave polls) (fun v => v &&& srRxne != 0#32) sr
            (fuel + 1)) { c with holding := some byte } := by
          refine stuck_wait ?_ ?_ (fuel + 1)
          · rw [hload, ready_rxne, h.received]
            rfl
          · rw [hload]
        exact stuck_after hroom (stuck_after hgive (stuck_bind hsilent))
  · have hzero : (bus slave polls).load c sr = (0#32, c) := by
      show (if c.clocked then _ else _) = _
      rw [if_neg hclock]
    have hsilent : Stuck (busWait (bus slave polls) (fun v => v &&& srTxe != 0#32) sr fuel) c := by
      refine stuck_wait ?_ ?_ fuel
      · rw [hzero]
        show (0#32 &&& srTxe != 0#32) = false
        decide
      · rw [hzero]
    exact stuck_bind hsilent

/-- `spi::configure` and any transfers after it. -/
def session (bus : Bus Word Word σ) (fuel : Nat) (brDivLog2 : Byte) (bytes : List Byte) :
    DriverM σ (List Byte) := do
  configure .arm bus brDivLog2
  transferAll .arm bus fuel bytes

end Device

/-- A slave that gives back the byte before. -/
def echo : Slave Byte where
  exchange before byte := (before, byte)

/-- The controller as after reset, with its clock off. -/
def reset : Controller Byte where
  clock := 0#32
  control := 0#32
  slave := 0xFF#8
  holding := none
  shifting := none
  received := none
  overrun := false
  frames := 0

end Controller
end Spi
end Drivers
end HolyRust
