import Mathlib.Data.Nat.Count
import HolyRust.Foundation.RegisterBits
import HolyRust.Drivers.Peripherals

/-!
# The PWM waveform

`pwm::configure` and `pwm::set_duty` against TIM2: a counter behind a prescaler, a reload
value and a compare value, some of them buffered until the counter overflows.  The
driver never resets the counter and never forces an update, so what was left behind by
an earlier use goes on until the first overflow.  A reload value of zero blocks the
counter.
-/

namespace HolyRust
namespace Drivers
namespace Pwm

open Foundation

/-- The registers, and the values in force: `prescaler`, `reload` and `compare` take over
from `psc`, `arr` and `ccr1` at an overflow.  The slave mode is off, as after reset. -/
structure Timer where
  clock : Word
  cr1 : Word
  ccmr1 : Word
  ccer : Word
  psc : BitVec 16
  arr : Word
  ccr1 : Word
  prescaler : BitVec 16
  divider : BitVec 16
  counter : Word
  reload : Word
  compare : Word

/-- How the timer counts and what it puts out in modes that the driver does not use. -/
structure OtherModes where
  tick : Timer -> Timer
  reference : Timer -> Bool

namespace Timer

def clocked (t : Timer) : Bool :=
  t.clock.getLsbD 0

/-- The counter starts again, and what was buffered comes into force. -/
def overflow (t : Timer) : Timer :=
  { t with counter := 0#32, prescaler := t.psc, reload := t.arr, compare := t.ccr1 }

def count (t : Timer) : Timer :=
  if t.reload = 0#32 then t
  else if t.counter = t.reload then t.overflow
  else { t with counter := t.counter + 1#32 }

section Behaviour

variable (other : OtherModes)

/-- One tick of the clock of the timer. -/
def tick (t : Timer) : Timer :=
  if t.clocked = false ∨ t.cr1.getLsbD 0 = false then t
  else if t.cr1 = 1#32 then
    if t.divider = t.prescaler then ({ t with divider := 0#16 } : Timer).count
    else { t with divider := t.divider + 1#16 }
  else other.tick t

def ticks (n : Nat) (t : Timer) : Timer :=
  (tick other)^[n] t

/-- PWM mode 1, without preload. -/
def reference (t : Timer) : Bool :=
  if t.ccmr1.extractLsb' 0 8 = 0x60#8 then decide (t.counter.toNat < t.compare.toNat)
  else other.reference t

def inverted (t : Timer) : Bool :=
  t.ccer.getLsbD 1

/-- The level of the pin of channel 1. -/
def output (t : Timer) : Bool :=
  t.ccer.getLsbD 0 && (t.reference other ^^ t.inverted)

end Behaviour

def readRegister (t : Timer) (a : Word) : Word :=
  if a = Pwm.cr1 .arm then t.cr1
  else if a = Pwm.psc .arm then t.psc.setWidth 32
  else if a = Pwm.arr .arm then t.arr
  else if a = Pwm.ccmr1 .arm then t.ccmr1
  else if a = Pwm.ccer .arm then t.ccer
  else if a = Pwm.ccr1 .arm then t.ccr1
  else 0#32

/-- The prescaler is always buffered, the others only if a bit says so. -/
def writeRegister (t : Timer) (a v : Word) : Timer :=
  if a = Pwm.cr1 .arm then { t with cr1 := v }
  else if a = Pwm.psc .arm then { t with psc := v.setWidth 16 }
  else if a = Pwm.arr .arm then
    { t with arr := v, reload := if t.cr1.getLsbD 7 then t.reload else v }
  else if a = Pwm.ccmr1 .arm then { t with ccmr1 := v }
  else if a = Pwm.ccer .arm then { t with ccer := v }
  else if a = Pwm.ccr1 .arm then
    { t with ccr1 := v, compare := if t.ccmr1.getLsbD 3 then t.compare else v }
  else t

/-- Without its clock the timer reads as zero and takes nothing. -/
def bus : Bus Word Word Timer where
  load t a :=
    if a = apb1enr then (t.clock, t)
    else if t.clocked then (t.readRegister a, t)
    else (0#32, t)
  store t a v :=
    if a = apb1enr then { t with clock := v }
    else if t.clocked then t.writeRegister a v
    else t

/-!
## What the driver leaves behind
-/

/-- The value with which `configure` selects PWM mode 1. -/
def pwmMode (ccmr : Word) : Word :=
  (ccmr &&& ~~~0x7F#32) ||| (0b110#32 <<< 4)

/-- `configure` on the registers. -/
def configured (t : Timer) (periodTicks dutyTicks : Word) : Timer :=
  { t with
    clock := t.clock ||| 1#32
    cr1 := 1#32
    ccmr1 := pwmMode t.ccmr1
    ccer := t.ccer ||| 1#32
    psc := 0#16
    arr := periodTicks
    ccr1 := dutyTicks
    reload := periodTicks
    compare := dutyTicks }

theorem getLsbD_pwmMode (ccmr : Word) {i : Nat} (hi : i < 32) :
    (pwmMode ccmr).getLsbD i = if i < 7 then decide (i = 5 ∨ i = 6) else ccmr.getLsbD i := by
  have hlow : (0x7F#32).getLsbD i = decide (i < 7) := by
    show (BitVec.ofNat 32 (2 ^ 7 - 1)).getLsbD i = _
    rw [BitVec.getLsbD_ofNat, Nat.testBit_two_pow_sub_one]
    grind
  have hmode : (0b110#32 <<< 4).getLsbD i = decide (i = 5 ∨ i = 6) := by
    revert i
    decide
  unfold pwmMode
  rw [BitVec.getLsbD_or, BitVec.getLsbD_and, BitVec.getLsbD_not, hlow, hmode]
  grind

theorem yields_readRegister {t : Timer} (hclock : t.clocked = true) {a : Word} (ha : a ≠ apb1enr) :
    Yields (busRead bus a) t (t.readRegister a) t := by
  have hread := yields_read bus a t
  rw [show bus.load t a = (t.readRegister a, t) from (if_neg ha).trans (if_pos hclock)] at hread
  exact hread

theorem yields_writeRegister {t : Timer} (hclock : t.clocked = true) {a : Word} (ha : a ≠ apb1enr)
    (v : Word) : Yields (busWrite bus a v) t () (t.writeRegister a v) := by
  have hwrite := yields_write bus a v t
  rw [show bus.store t a v = t.writeRegister a v from (if_neg ha).trans (if_pos hclock)] at hwrite
  exact hwrite

/-- A register is written, and the program goes on. -/
theorem yields_written {t t' : Timer} {a v : Word} {f : Unit -> DriverM Timer α} {b : α}
    (hclock : t.clocked = true) (ha : a ≠ apb1enr) (hf : Yields (f ()) (t.writeRegister a v) b t') :
    Yields (busWrite bus a v >>= f) t b t' :=
  yields_bind (yields_writeRegister hclock ha v) hf

theorem write_cr1 (t : Timer) (v : Word) :
    t.writeRegister (Pwm.cr1 .arm) v = { t with cr1 := v } := rfl

theorem write_psc (t : Timer) (v : Word) :
    t.writeRegister (Pwm.psc .arm) v = { t with psc := v.setWidth 16 } := rfl

/-- Without ARPE a new period is in force at once. -/
theorem write_arr (t : Timer) (h : t.cr1.getLsbD 7 = false) (v : Word) :
    t.writeRegister (Pwm.arr .arm) v = { t with arr := v, reload := v } := by
  show ({ t with arr := v, reload := if t.cr1.getLsbD 7 then t.reload else v } : Timer) = _
  rw [h]
  rfl

theorem write_ccmr1 (t : Timer) (v : Word) :
    t.writeRegister (Pwm.ccmr1 .arm) v = { t with ccmr1 := v } := rfl

theorem write_ccer (t : Timer) (v : Word) :
    t.writeRegister (Pwm.ccer .arm) v = { t with ccer := v } := rfl

/-- Without OC1PE so is a new compare value. -/
theorem write_ccr1 (t : Timer) (h : t.ccmr1.getLsbD 3 = false) (v : Word) :
    t.writeRegister (Pwm.ccr1 .arm) v = { t with ccr1 := v, compare := v } := by
  show ({ t with ccr1 := v, compare := if t.ccmr1.getLsbD 3 then t.compare else v } : Timer) = _
  rw [h]
  rfl

theorem yields_enableClock (t : Timer) :
    Yields (enableClock .arm bus) t () { t with clock := t.clock ||| 1#32 } :=
  yields_bind (yields_read bus apb1enr t) (yields_write bus apb1enr _ t)

theorem yields_configure (t : Timer) (periodTicks dutyTicks : Word) :
    Yields (configure .arm bus periodTicks dutyTicks) t (periodTicks, dutyTicks)
      (t.configured periodTicks dutyTicks) := by
  have hclock : (t.clock ||| 1#32).getLsbD 0 = true := by simp
  have hpreload : (pwmMode t.ccmr1).getLsbD 3 = false :=
    getLsbD_pwmMode t.ccmr1 (by decide)
  have hprescaler : (0#32).setWidth 16 = 0#16 := by decide
  have hunbuffered : (0#32).getLsbD 7 = false := by decide
  refine yields_bind (yields_enableClock t) ?_
  refine yields_written (by exact hclock) (by decide) ?_
  rw [write_cr1]
  refine yields_written (by exact hclock) (by decide) ?_
  rw [write_psc, hprescaler]
  refine yields_written (by exact hclock) (by decide) ?_
  rw [write_arr]
  case h => exact hunbuffered
  refine yields_bind (yields_readRegister (by exact hclock) (by decide)) ?_
  refine yields_written (by exact hclock) (by decide) ?_
  rw [write_ccmr1]
  refine yields_bind (yields_readRegister (by exact hclock) (by decide)) ?_
  refine yields_written (by exact hclock) (by decide) ?_
  rw [write_ccer]
  refine yields_written (by exact hclock) (by decide) ?_
  rw [write_ccr1]
  case h => exact hpreload
  refine yields_written (by exact hclock) (by decide) ?_
  rw [write_cr1]
  exact yields_pure _ _

/-- A timer that counts up to `periodTicks` and compares with `dutyTicks`, once what was in
force before is gone. -/
structure Driving (periodTicks dutyTicks : Word) (inverted : Bool) (t : Timer) : Prop where
  clock : t.clocked = true
  cr1 : t.cr1 = 1#32
  mode : t.ccmr1.extractLsb' 0 8 = 0x60#8
  enabled : t.ccer.getLsbD 0 = true
  polarity : t.inverted = inverted
  psc : t.psc = 0#16
  arr : t.arr = periodTicks
  reload : t.reload = periodTicks
  ccr1 : t.ccr1 = dutyTicks
  compare : t.compare = dutyTicks

theorem driving_configured (t : Timer) (hclear : t.ccmr1.getLsbD 7 = false)
    (periodTicks dutyTicks : Word) :
    Driving periodTicks dutyTicks t.inverted (t.configured periodTicks dutyTicks) where
  clock := by
    show (t.clock ||| 1#32).getLsbD 0 = true
    simp
  cr1 := rfl
  mode := by
    apply BitVec.eq_of_getLsbD_eq
    intro i hi
    have hmode : (0x60#8).getLsbD i = decide (i = 5 ∨ i = 6) := by
      revert i
      decide
    show ((pwmMode t.ccmr1).extractLsb' 0 8).getLsbD i = _
    rw [BitVec.getLsbD_extractLsb', Nat.zero_add, getLsbD_pwmMode _ (by lia), hmode]
    grind
  enabled := by
    show (t.ccer ||| 1#32).getLsbD 0 = true
    simp
  polarity := by
    show (t.ccer ||| 1#32).getLsbD 1 = t.ccer.getLsbD 1
    simp
  psc := rfl
  arr := rfl
  reload := rfl
  ccr1 := rfl
  compare := rfl

section Counting

variable (other : OtherModes) {periodTicks dutyTicks : Word} {inv : Bool} {t : Timer}

theorem tick_driving (h : Driving periodTicks dutyTicks inv t) :
    t.tick other =
      if t.divider = t.prescaler then ({ t with divider := 0#16 } : Timer).count
      else { t with divider := t.divider + 1#16 } := by
  have hcounts : t.cr1.getLsbD 0 = true := by
    rw [h.cr1]
    decide
  have hruns : ¬ (t.clocked = false ∨ t.cr1.getLsbD 0 = false) := by
    rw [h.clock, hcounts]
    decide
  unfold tick
  rw [if_neg hruns, if_pos h.cr1]

theorem driving_count (h : Driving periodTicks dutyTicks inv t) :
    Driving periodTicks dutyTicks inv t.count := by
  unfold count overflow
  split
  · exact h
  · split
    · exact ⟨h.clock, h.cr1, h.mode, h.enabled, h.polarity, h.psc, h.arr, h.arr, h.ccr1, h.ccr1⟩
    · exact ⟨h.clock, h.cr1, h.mode, h.enabled, h.polarity, h.psc, h.arr, h.reload, h.ccr1,
        h.compare⟩

theorem driving_divider (h : Driving periodTicks dutyTicks inv t) (divider : BitVec 16) :
    Driving periodTicks dutyTicks inv { t with divider } :=
  ⟨h.clock, h.cr1, h.mode, h.enabled, h.polarity, h.psc, h.arr, h.reload, h.ccr1, h.compare⟩

theorem driving_tick (h : Driving periodTicks dutyTicks inv t) :
    Driving periodTicks dutyTicks inv (t.tick other) := by
  rw [tick_driving other h]
  split
  · exact driving_count (driving_divider h 0#16)
  · exact driving_divider h _

theorem ticks_add (n m : Nat) (t : Timer) :
    t.ticks other (n + m) = (t.ticks other n).ticks other m := by
  unfold ticks
  rw [Nat.add_comm, Function.iterate_add_apply]

theorem driving_ticks (h : Driving periodTicks dutyTicks inv t) (n : Nat) :
    Driving periodTicks dutyTicks inv (t.ticks other n) := by
  induction n generalizing t with
  | zero => exact h
  | succ n ih => exact ih (driving_tick other h)

/-!
## The first overflow
-/

/-- The counter is at its end, and the next tick counts. -/
structure AtEnd (t : Timer) : Prop where
  divider : t.divider = t.prescaler
  counter : t.counter = t.reload

/-- Nothing of an earlier use is in force any more. -/
structure Settled (t : Timer) : Prop where
  prescaler : t.prescaler = 0#16
  divider : t.divider = 0#16
  counter : t.counter.toNat ≤ t.reload.toNat

theorem settled_of_atEnd (hperiod : periodTicks ≠ 0#32) (h : Driving periodTicks dutyTicks inv t)
    (hend : t.AtEnd) : Settled (t.tick other) := by
  have hreload : t.reload ≠ 0#32 := h.reload ▸ hperiod
  rw [tick_driving other h, if_pos hend.divider, count, if_neg hreload, if_pos hend.counter]
  exact ⟨h.psc, rfl, Nat.zero_le _⟩

/-- From whatever was left behind, the counter overflows at last. -/
theorem exists_atEnd (hperiod : periodTicks ≠ 0#32) (h : Driving periodTicks dutyTicks inv t) :
    exists n, (t.ticks other n).AtEnd := by
  -- Each tick brings the prescaler closer to its end, or else the counter.
  induction hdistance : (t.reload - t.counter).toNat * 2 ^ 16 + (t.prescaler - t.divider).toNat
    using Nat.strong_induction_on generalizing t with
  | h distance ih =>
      have hreload : t.reload ≠ 0#32 := h.reload ▸ hperiod
      by_cases hround : t.divider = t.prescaler
      · by_cases hend : t.counter = t.reload
        · exact ⟨0, hround, hend⟩
        · have hstep : t.tick other = { t with divider := 0#16, counter := t.counter + 1#32 } := by
            rw [tick_driving other h, if_pos hround, count, if_neg hreload, if_neg hend]
          have hnext := driving_tick other h
          rw [hstep] at hnext
          have hcloser : (t.reload - (t.counter + 1#32)).toNat * 2 ^ 16 +
              (t.prescaler - 0#16).toNat < distance := by
            have hleft : (t.reload - (t.counter + 1#32)).toNat + 1 =
                (t.reload - t.counter).toNat := by bv_omega
            have hround : (t.prescaler - 0#16).toNat < 2 ^ 16 := BitVec.isLt _
            lia
          obtain ⟨n, hn⟩ := ih _ hcloser hnext rfl
          refine ⟨n + 1, ?_⟩
          show AtEnd ((t.tick other).ticks other n)
          rw [hstep]
          exact hn
      · have hstep : t.tick other = { t with divider := t.divider + 1#16 } := by
          rw [tick_driving other h, if_neg hround]
        have hnext := driving_tick other h
        rw [hstep] at hnext
        have hcloser : (t.reload - t.counter).toNat * 2 ^ 16 +
            (t.prescaler - (t.divider + 1#16)).toNat < distance := by
          have hleft : (t.prescaler - (t.divider + 1#16)).toNat + 1 =
              (t.prescaler - t.divider).toNat := by bv_omega
          lia
        obtain ⟨n, hn⟩ := ih _ hcloser hnext rfl
        refine ⟨n + 1, ?_⟩
        show AtEnd ((t.tick other).ticks other n)
        rw [hstep]
        exact hn

/-- A counter whose period is zero stands still. -/
theorem counter_tick_blocked (h : Driving 0#32 dutyTicks inv t) :
    (t.tick other).counter = t.counter := by
  have hblocked : ({ t with divider := 0#16 } : Timer).count = { t with divider := 0#16 } :=
    if_pos h.reload
  rw [tick_driving other h, hblocked]
  split <;> rfl

theorem counter_ticks_blocked (h : Driving 0#32 dutyTicks inv t) (n : Nat) :
    (t.ticks other n).counter = t.counter := by
  induction n generalizing t with
  | zero => rfl
  | succ n ih => exact (ih (driving_tick other h)).trans (counter_tick_blocked other h)

/-!
## The waveform
-/

theorem tick_settled (h : Driving periodTicks dutyTicks inv t) (hsettled : Settled t) :
    t.tick other =
      { t with counter := if t.counter = t.reload then 0#32 else t.counter + 1#32 } := by
  have hround : t.divider = t.prescaler := hsettled.divider.trans hsettled.prescaler.symm
  rw [tick_driving other h, if_pos hround, ← hsettled.divider]
  unfold count overflow
  by_cases hblocked : t.reload = 0#32
  · -- the counter stands at zero and stays there
    have hle := hsettled.counter
    rw [hblocked] at hle
    have hzero : t.counter = 0#32 := BitVec.eq_of_toNat_eq (Nat.le_zero.mp hle)
    rw [if_pos hblocked, if_pos (hzero.trans hblocked.symm), ← hzero]
  · rw [if_neg hblocked]
    by_cases hend : t.counter = t.reload
    · rw [if_pos hend, if_pos hend]
      rw [h.psc, h.arr, h.ccr1, ← hsettled.prescaler, ← h.reload, ← h.compare]
    · rw [if_neg hend, if_neg hend]

/-- The counter goes round in periods. -/
theorem counter_tick (h : Driving periodTicks dutyTicks inv t) (hsettled : Settled t) :
    (t.tick other).counter.toNat = (t.counter.toNat + 1) % (periodTicks.toNat + 1) ∧
      Settled (t.tick other) := by
  have hle := hsettled.counter
  rw [h.reload] at hle
  rw [tick_settled other h hsettled]
  by_cases hend : t.counter = t.reload
  · rw [if_pos hend]
    refine ⟨?_, hsettled.prescaler, hsettled.divider, Nat.zero_le _⟩
    rw [hend, h.reload, Nat.mod_self]
    rfl
  · rw [if_neg hend]
    rw [h.reload] at hend
    have hlt : t.counter.toNat < periodTicks.toNat :=
      Nat.lt_of_le_of_ne hle fun heq => hend (BitVec.eq_of_toNat_eq heq)
    have hsucc : (t.counter + 1#32).toNat = t.counter.toNat + 1 := by
      have hperiod := periodTicks.isLt
      rw [BitVec.toNat_add, Nat.mod_eq_of_lt]
      · rfl
      · show t.counter.toNat + 1 < 2 ^ 32
        lia
    refine ⟨?_, hsettled.prescaler, hsettled.divider, ?_⟩
    · show (t.counter + 1#32).toNat = _
      rw [hsucc, Nat.mod_eq_of_lt (by lia)]
    · show (t.counter + 1#32).toNat ≤ t.reload.toNat
      rw [hsucc, h.reload]
      exact hlt

theorem counter_ticks (h : Driving periodTicks dutyTicks inv t) (hsettled : Settled t) (n : Nat) :
    (t.ticks other n).counter.toNat = (t.counter.toNat + n) % (periodTicks.toNat + 1) := by
  induction n generalizing t with
  | zero =>
      have hle := hsettled.counter
      rw [h.reload] at hle
      rw [Nat.add_zero, Nat.mod_eq_of_lt (Nat.lt_succ_of_le hle)]
      rfl
  | succ n ih =>
      obtain ⟨hcounter, hsettled'⟩ := counter_tick other h hsettled
      have hrest := ih (driving_tick other h) hsettled'
      show ((t.tick other).ticks other n).counter.toNat = _
      rw [hrest, hcounter, Nat.mod_add_mod, Nat.add_assoc, Nat.add_comm 1 n]

theorem output_driving (h : Driving periodTicks dutyTicks inv t) :
    t.output other = (decide (t.counter.toNat < dutyTicks.toNat) ^^ inv) := by
  unfold output reference
  rw [h.enabled, h.polarity, if_pos h.mode, h.compare, Bool.true_and]

/-- How long a period is high: `min dutyTicks (periodTicks + 1)` ticks, or the rest of it
where the polarity of the channel is inverted. -/
def highTicks (periodTicks dutyTicks : Word) (inverted : Bool) : Nat :=
  if inverted then periodTicks.toNat + 1 - dutyTicks.toNat
  else min dutyTicks.toNat (periodTicks.toNat + 1)

theorem count_lt (bound n : Nat) : Nat.count (· < bound) n = min bound n := by
  induction n with
  | zero => rw [Nat.count_zero, Nat.min_zero]
  | succ n ih =>
      rw [Nat.count_succ, ih]
      split <;> lia

/-- One period is like any other. -/
theorem count_window {p : Nat -> Prop} [DecidablePred p] {period : Nat}
    (hp : forall k, p (period + k) ↔ p k) (n : Nat) :
    Nat.count (fun k => p (n + k)) period = Nat.count p period := by
  have hfirst := Nat.count_add p n period
  have hsecond := Nat.count_add p period n
  have hsame : Nat.count (fun k => p (period + k)) n = Nat.count p n := by
    congr 1
    funext k
    exact propext (hp k)
  rw [Nat.add_comm n period, hsecond, hsame, Nat.add_comm] at hfirst
  exact (Nat.add_left_cancel hfirst).symm

theorem count_not (p : Nat -> Prop) [DecidablePred p] (n : Nat) :
    Nat.count (fun i => ¬ p i) n = n - Nat.count p n := by
  induction n with
  | zero => rfl
  | succ n ih =>
      have hle : Nat.count p n ≤ n := Nat.count_le p
      rw [Nat.count_succ, Nat.count_succ, ih]
      by_cases hp : p n
      · rw [if_pos hp, if_neg (not_not.mpr hp)]
        lia
      · rw [if_neg hp, if_pos hp]
        lia

theorem count_highTicks (periodTicks dutyTicks : Word) (inv : Bool) :
    Nat.count (fun i => (decide (i % (periodTicks.toNat + 1) < dutyTicks.toNat) ^^ inv) = true)
      (periodTicks.toNat + 1) = highTicks periodTicks dutyTicks inv := by
  have hlow : Nat.count (fun i => i % (periodTicks.toNat + 1) < dutyTicks.toNat)
      (periodTicks.toNat + 1) = min dutyTicks.toNat (periodTicks.toNat + 1) := by
    rw [← count_lt, Nat.count_eq_card_filter_range, Nat.count_eq_card_filter_range]
    congr 1
    refine Finset.filter_congr fun i hi => ?_
    rw [Nat.mod_eq_of_lt (Finset.mem_range.mp hi)]
  unfold highTicks
  cases inv with
  | false =>
      simp only [Bool.xor_false, decide_eq_true_eq]
      exact hlow
  | true =>
      simp only [Bool.xor_true, Bool.not_eq_true', decide_eq_false_iff_not]
      rw [count_not, hlow, if_pos trivial]
      lia

theorem count_output (h : Driving periodTicks dutyTicks inv t) (hsettled : Settled t) (m : Nat) :
    Nat.count (fun i => (t.ticks other (m + i)).output other = true) (periodTicks.toNat + 1) =
      highTicks periodTicks dutyTicks inv := by
  have hlevel : forall i, ((t.ticks other (m + i)).output other = true) =
      ((decide ((t.counter.toNat + m + i) % (periodTicks.toNat + 1) < dutyTicks.toNat) ^^ inv) =
        true) := by
    intro i
    rw [output_driving other (driving_ticks other h (m + i)),
      counter_ticks other h hsettled (m + i), Nat.add_assoc]
  simp only [hlevel]
  rw [← count_highTicks]
  refine count_window (p := fun i =>
    (decide (i % (periodTicks.toNat + 1) < dutyTicks.toNat) ^^ inv) = true) (fun k => ?_) _
  rw [Nat.add_mod_left]

end Counting

/-!
## Runs
-/

/-- Time passes, or the program changes the duty. -/
inductive Event where
  | tick
  | setDuty (dutyTicks : Word)
deriving DecidableEq, Repr

/-- The duty that was asked for last. -/
def lastDuty (dutyTicks : Word) : List Event -> Word
  | [] => dutyTicks
  | .tick :: events => lastDuty dutyTicks events
  | .setDuty duty :: events => lastDuty duty events

section Runs

variable (other : OtherModes) {periodTicks dutyTicks : Word} {inv : Bool} {t : Timer}

def Event.apply : Event -> Timer -> Timer
  | .tick, t => t.tick other
  | .setDuty duty, t => (finalState (Pwm.setDuty .arm bus duty { device := t, trace := [] })).device

def run (events : List Event) (t : Timer) : Timer :=
  events.foldl (fun t event => event.apply other t) t

theorem driving_setDuty (h : Driving periodTicks dutyTicks inv t) (duty : Word) :
    Driving periodTicks duty inv (Event.apply other (.setDuty duty) t) := by
  have hpreload : t.ccmr1.getLsbD 3 = false := by
    have hbit := congrArg (BitVec.getLsbD · 3) h.mode
    simpa using hbit
  obtain ⟨trace, hrun⟩ := yields_writeRegister h.clock
    (show Pwm.ccr1 .arm ≠ apb1enr by decide) duty []
  rw [write_ccr1 t hpreload] at hrun
  have happly : Event.apply other (.setDuty duty) t = { t with ccr1 := duty, compare := duty } :=
    congrArg (fun result => (finalState result).device) hrun
  rw [happly]
  exact ⟨h.clock, h.cr1, h.mode, h.enabled, h.polarity, h.psc, h.arr, h.reload, rfl, rfl⟩

theorem driving_run (h : Driving periodTicks dutyTicks inv t) (events : List Event) :
    Driving periodTicks (lastDuty dutyTicks events) inv (t.run other events) := by
  induction events generalizing t dutyTicks with
  | nil => exact h
  | cons event events ih =>
      cases event with
      | tick => exact ih (driving_tick other h)
      | setDuty duty => exact ih (driving_setDuty other h duty)

/-- `configure`, then any ticks and changes of the duty: the counter overflows, and from any
overflow on every period of `periodTicks + 1` ticks is high for as long as the last duty
says, wherever it begins and whatever the timer did before.  A period of zero blocks the
counter.  Where no other prescaler is in force and the counter is within the period, there
is nothing to wait for. -/
theorem pwm_duty_cycle (t : Timer) (hclear : t.ccmr1.getLsbD 7 = false)
    (periodTicks dutyTicks : Word) :
    exists t', Yields (configure .arm bus periodTicks dutyTicks) t (periodTicks, dutyTicks) t' ∧
      (periodTicks ≠ 0#32 -> forall events,
        (exists n, ((t'.run other events).ticks other n).AtEnd) ∧
        forall n, ((t'.run other events).ticks other n).AtEnd -> forall m, n < m ->
          Nat.count (fun i => ((t'.run other events).ticks other (m + i)).output other = true)
              (periodTicks.toNat + 1) =
            highTicks periodTicks (lastDuty dutyTicks events) t.inverted) ∧
      (periodTicks = 0#32 -> forall events m,
        ((t'.run other events).ticks other m).output other = (t'.run other events).output other) ∧
      (t.prescaler = 0#16 -> t.divider = 0#16 -> t.counter.toNat ≤ periodTicks.toNat ->
        forall m, Nat.count (fun i => (t'.ticks other (m + i)).output other = true)
            (periodTicks.toNat + 1) = highTicks periodTicks dutyTicks t.inverted) := by
  have hdriving := driving_configured t hclear periodTicks dutyTicks
  refine ⟨_, yields_configure t periodTicks dutyTicks, ?_, ?_, ?_⟩
  · intro hperiod events
    have hrun := driving_run other hdriving events
    refine ⟨exists_atEnd other hperiod hrun, fun n hend m hm => ?_⟩
    have hsettled := settled_of_atEnd other hperiod (driving_ticks other hrun n) hend
    obtain ⟨later, rfl⟩ := Nat.exists_eq_add_of_lt hm
    have hsplit : forall i, ((t.configured periodTicks dutyTicks).run other events).ticks other
        (n + later + 1 + i) = (((((t.configured periodTicks dutyTicks).run other events).ticks
          other n).tick other).ticks other (later + i)) := by
      intro i
      rw [show n + later + 1 + i = n + (later + i + 1) by lia, ticks_add]
      rfl
    simp only [hsplit]
    exact count_output other (driving_tick other (driving_ticks other hrun n)) hsettled later
  · rintro rfl events m
    have hrun := driving_run other hdriving events
    rw [output_driving other (driving_ticks other hrun m), output_driving other hrun,
      counter_ticks_blocked other hrun m]
  · intro hprescaler hdivider hcounter
    exact count_output other hdriving ⟨hprescaler, hdivider, hcounter⟩

end Runs

def reset : Timer where
  clock := 0#32
  cr1 := 0#32
  ccmr1 := 0#32
  ccer := 0#32
  psc := 0#16
  arr := 0xFFFFFFFF#32
  ccr1 := 0#32
  prescaler := 0#16
  divider := 0#16
  counter := 0#32
  reload := 0xFFFFFFFF#32
  compare := 0#32

/-- A timer that stands still in the other modes. -/
def still : OtherModes where
  tick t := t
  reference _ := false

/-- Three ticks out of ten. -/
theorem pwm_duty_cycle_three :
    exists t', Yields (configure .arm bus 9#32 3#32) reset (9#32, 3#32) t' ∧
      forall m, Nat.count (fun i => (t'.ticks still (m + i)).output still = true) 10 = 3 := by
  obtain ⟨t', hrun, _, _, hnow⟩ := pwm_duty_cycle still reset rfl 9#32 3#32
  exact ⟨t', hrun, hnow rfl rfl (by decide)⟩

end Timer
end Pwm
end Drivers
end HolyRust
