import HolyRust.Foundation.RegisterBits
import HolyRust.Drivers.Peripherals

/-!
# The program store behind the flash controller

The flash driver against the controller that it programs: the lock and its two keys,
the control register with its start and enable bits, and a status register that is busy
for as many polls as an operation takes.  Whatever the driver is asked to do, the
store is an array of words of which sectors can be erased and bits cleared.
-/

namespace HolyRust
namespace Drivers
namespace Flash

open Foundation

/-!
## The store
-/

/-- The words of the flash, by address, and the error flags that operations have raised. -/
structure Nor where
  content : Word -> Word
  errors : Word

/-- A flash controller: the sector of an address, the sectors that are write protected,
the configurations under which it programs a whole word, and for how many polls each
operation keeps it busy. -/
structure Controller where
  sectorOf : Word -> BitVec 4
  writeProtected : BitVec 4 -> Bool
  takesWords : Word -> Bool
  polls : Nat -> Nat

def wrpErr : Word := 1#32 <<< 4
def pgaErr : Word := 1#32 <<< 5
def pgpErr : Word := 1#32 <<< 6

def Nor.raise (f : Nor) (flag : Word) : Nor :=
  { f with errors := f.errors ||| flag }

namespace Controller

variable (c : Controller)

/-- All bits of the sector are set. -/
def erase (n : BitVec 4) (f : Nor) : Nor :=
  if c.writeProtected n then f.raise wrpErr
  else { f with content := fun a => if c.sectorOf a = n then 0xFFFFFFFF#32 else f.content a }

/-- Bits of the word are cleared; none is ever set. -/
def program (wide : Bool) (a v : Word) (f : Nor) : Nor :=
  if a &&& 3#32 ≠ 0#32 then f.raise pgaErr
  else if c.writeProtected (c.sectorOf a) then f.raise wrpErr
  else if wide = false then f.raise pgpErr
  else { f with content := Function.update f.content a (f.content a &&& v) }

end Controller

/-!
## The controller
-/

/-- What the keys written so far have come to. -/
inductive KeyState where
  | waiting
  | halfway
  | refused
deriving DecidableEq, Repr

structure Device where
  keys : KeyState
  control : Word
  nor : Nor
  operations : Nat
  pollsLeft : Nat

namespace Device

/-- The two keys clear the lock.  Anything else shuts the controller until it is reset. -/
def giveKey (d : Device) (v : Word) : Device :=
  match d.keys with
  | .waiting =>
      if v = key1 ∧ d.control.getLsbD 31 = true then { d with keys := .halfway }
      else { d with keys := .refused }
  | .halfway =>
      if v = key2 then { d with keys := .waiting, control := d.control &&& ~~~crLock }
      else { d with keys := .refused }
  | .refused => d

def status (d : Device) : Word :=
  (if d.pollsLeft = 0 then 0#32 else srBsy) ||| d.nor.errors

end Device

def Device.configured (d : Device) (v : Word) : Device :=
  { d with control := v }

/-- The device after an operation that the driver has seen to its end. -/
def Device.after (d : Device) (v : Word) (operation : Nor -> Nor) : Device :=
  { d with
    control := v
    nor := operation d.nor
    operations := d.operations + 1
    pollsLeft := 0 }

namespace Controller

variable (c : Controller)

def start (d : Device) (operation : Nor -> Nor) : Device :=
  { d with
    nor := operation d.nor
    operations := d.operations + 1
    pollsLeft := c.polls d.operations }

/-- The control register takes no value while it is locked or the controller is busy. -/
def writeControl (d : Device) (v : Word) : Device :=
  if d.control.getLsbD 31 = true ∨ d.pollsLeft ≠ 0 then d
  else if v.getLsbD 16 = true ∧ v.getLsbD 1 = true then
    c.start (d.configured (v &&& ~~~crStrt)) (c.erase (v.extractLsb' 3 4))
  else d.configured (v &&& ~~~crStrt)

/-- A write to the flash itself counts only while programming is enabled. -/
def writeWord (d : Device) (a v : Word) : Device :=
  if d.control.getLsbD 31 = true ∨ d.pollsLeft ≠ 0 ∨ d.control.getLsbD 0 = false then d
  else c.start d (c.program (c.takesWords d.control) a v)

def bus : Bus Word Word Device where
  load d a :=
    if a = cr then (d.control, d)
    else if a = sr then (d.status, { d with pollsLeft := d.pollsLeft - 1 })
    else (d.nor.content a, d)
  store d a v :=
    if a = keyr then d.giveKey v
    else if a = cr then c.writeControl d v
    else if a = sr then d
    else c.writeWord d a v

end Controller

/-!
## Bits of a register
-/

theorem getLsbD_nibble (i : Nat) : (0xF#32).getLsbD i = decide (i < 4) := by
  show (BitVec.ofNat 32 (2 ^ 4 - 1)).getLsbD i = _
  rw [BitVec.getLsbD_ofNat, Nat.testBit_two_pow_sub_one]
  grind

/-- None of the bits that the driver works with is set. -/
structure Plain (settings : Word) : Prop where
  pg : settings.getLsbD 0 = false
  ser : settings.getLsbD 1 = false
  strt : settings.getLsbD 16 = false
  lock : settings.getLsbD 31 = false

/-- The value with which `erase_store_sector` selects a sector. -/
def selecting (settings : Word) (sectorIndex : Byte) : Word :=
  (settings &&& ~~~(0xF#32 <<< 3)) ||| crSer ||| ((sectorIndex.setWidth 32 &&& 0xF#32) <<< 3)

theorem getLsbD_selecting (settings : Word) (sectorIndex : Byte) {i : Nat} (hi : i < 32)
    (hfield : i < 3 ∨ 7 ≤ i) :
    (selecting settings sectorIndex).getLsbD i = (settings.getLsbD i || decide (i = 1)) := by
  simp only [selecting, crSer, BitVec.getLsbD_or, BitVec.getLsbD_and, BitVec.getLsbD_not,
    getLsbD_bit hi, BitVec.getLsbD_shiftLeft, getLsbD_nibble]
  grind

theorem extract_selecting (settings : Word) (sectorIndex : Byte) :
    (selecting settings sectorIndex ||| crStrt).extractLsb' 3 4 = sectorIndex.setWidth 4 := by
  apply BitVec.eq_of_getLsbD_eq
  intro i hi
  have hbit : 3 + i < 32 := by lia
  simp only [selecting, crSer, crStrt, BitVec.getLsbD_extractLsb', BitVec.getLsbD_or,
    BitVec.getLsbD_and, BitVec.getLsbD_not, getLsbD_bit hbit, BitVec.getLsbD_shiftLeft,
    getLsbD_nibble, BitVec.getLsbD_setWidth]
  grind

/-!
## What each function of the driver does
-/

theorem status_raise {k : Nat} (hk : k ≠ 16) (f : Nor) :
    (f.raise (1#32 <<< k)).errors.getLsbD 16 = f.errors.getLsbD 16 := by
  unfold Nor.raise
  rw [getLsbD_or_bit _ _ (by decide), decide_eq_false (Ne.symm hk), Bool.or_false]

theorem status_erase (c : Controller) (n : BitVec 4) (f : Nor) :
    (c.erase n f).errors.getLsbD 16 = f.errors.getLsbD 16 := by
  unfold Controller.erase
  split
  · exact status_raise (by decide) f
  · rfl

theorem status_program (c : Controller) (wide : Bool) (a v : Word) (f : Nor) :
    (c.program wide a v f).errors.getLsbD 16 = f.errors.getLsbD 16 := by
  unfold Controller.program
  split
  · exact status_raise (by decide) f
  · split
    · exact status_raise (by decide) f
    · split
      · exact status_raise (by decide) f
      · rfl

/-- No operation is under way and no bit of the driver is set, but for the lock. -/
structure Ready (settings : Word) (d : Device) : Prop where
  keys : d.keys = .waiting
  control : d.control = settings ∨ d.control = settings ||| crLock
  quiet : d.pollsLeft = 0
  status : d.nor.errors.getLsbD 16 = false

section Driver

variable (c : Controller) {settings : Word} {d : Device}

theorem load_cr (d : Device) : c.bus.load d cr = (d.control, d) := rfl

theorem load_sr (d : Device) :
    c.bus.load d sr = (d.status, { d with pollsLeft := d.pollsLeft - 1 }) := rfl

theorem store_keyr (d : Device) (v : Word) : c.bus.store d keyr v = d.giveKey v := rfl

theorem store_cr (d : Device) (v : Word) : c.bus.store d cr v = c.writeControl d v := rfl

theorem writable_of (d : Device) (hlock : d.control.getLsbD 31 = false) (hquiet : d.pollsLeft = 0) :
    ¬ (d.control.getLsbD 31 = true ∨ d.pollsLeft ≠ 0) := by
  rw [hlock, hquiet]
  decide

/-- A control value that starts nothing. -/
theorem writeControl_plain (d : Device) (hlock : d.control.getLsbD 31 = false)
    (hquiet : d.pollsLeft = 0) {v : Word} (hstrt : v.getLsbD 16 = false) :
    c.writeControl d v = d.configured v := by
  have hidle : ¬ (v.getLsbD 16 = true ∧ v.getLsbD 1 = true) := by
    rw [hstrt]
    exact fun hboth => Bool.false_ne_true hboth.left
  unfold Controller.writeControl crStrt
  rw [if_neg (writable_of d hlock hquiet), if_neg hidle, clear_bit_of_clear hstrt]

theorem yields_waitNotBusy {fuel : Nat} (hfuel : d.pollsLeft < fuel)
    (hstatus : d.nor.errors.getLsbD 16 = false) :
    Yields (waitNotBusy c.bus fuel) d () { d with pollsLeft := 0 } := by
  have hwait : exists v, Yields (busWait c.bus (fun v => v &&& srBsy == 0#32) sr fuel) d v
      { d with pollsLeft := 0 } := by
    -- Each poll that finds the controller busy brings it one poll closer to the end.
    induction fuel generalizing d with
    | zero => exact absurd hfuel (Nat.not_lt_zero _)
    | succ fuel ih =>
        by_cases hquiet : d.pollsLeft = 0
        · have hready : (d.status &&& srBsy == 0#32) = true := by
            rw [beq_iff_eq, srBsy, and_bit_eq_zero_iff _ (by decide), Device.status,
              if_pos hquiet, BitVec.zero_or]
            exact hstatus
          have hdone : Yields (busWait c.bus (fun v => v &&& srBsy == 0#32) sr (fuel + 1)) d
              (c.bus.load d sr).1 (c.bus.load d sr).2 := yields_wait_ready fuel hready
          rw [load_sr, hquiet] at hdone
          exact ⟨_, hdone⟩
        · have hbusy : (d.status &&& srBsy == 0#32) = false := by
            rw [beq_eq_false_iff_ne, ne_eq, srBsy, and_bit_eq_zero_iff _ (by decide),
              Device.status, if_neg hquiet, BitVec.or_comm, srBsy, getLsbD_or_bit _ _ (by decide)]
            simp
          obtain ⟨v, hrest⟩ := @ih { d with pollsLeft := d.pollsLeft - 1 }
            (show d.pollsLeft - 1 < fuel by lia) hstatus
          exact ⟨v, yields_wait_again hbusy hrest⟩
  obtain ⟨v, hv⟩ := hwait
  exact yields_bind hv (yields_pure () _)

variable (hplain : Plain settings) (h : Ready settings d)

include hplain h

theorem yields_unlock : Yields (unlock c.bus) d () (d.configured settings) := by
  refine yields_bind (yields_read c.bus cr d) ?_
  rw [load_cr]
  cases h.control with
  | inl hopen =>
      have hzero : d.control &&& crLock = 0#32 := by
        rw [hopen, crLock, and_bit_eq_zero_iff _ (by decide)]
        exact hplain.lock
      rw [if_neg (not_not.mpr hzero), ← hopen]
      exact yields_pure () d
  | inr hlocked =>
      have hbit : d.control.getLsbD 31 = true := by
        rw [hlocked, crLock, getLsbD_or_bit _ _ (by decide)]
        simp
      have hset : d.control &&& crLock ≠ 0#32 := by
        rw [ne_eq, crLock, and_bit_eq_zero_iff _ (by decide), hbit]
        decide
      have hone : c.bus.store d keyr key1 = { d with keys := .halfway } := by
        rw [store_keyr]
        unfold Device.giveKey
        rw [h.keys, if_pos ⟨rfl, hbit⟩]
      have htwo : c.bus.store { d with keys := .halfway } keyr key2 = d.configured settings := by
        rw [store_keyr]
        unfold Device.giveKey Device.configured
        rw [if_pos rfl, hlocked, crLock, clear_bit_set hplain.lock, ← h.keys]
      rw [if_pos hset]
      refine yields_bind (yields_write c.bus keyr key1 d) ?_
      rw [hone, ← htwo]
      exact yields_write c.bus keyr key2 _

theorem yields_lock : Yields (lock c.bus) d () (d.configured (settings ||| crLock)) := by
  refine yields_bind (yields_read c.bus cr d) ?_
  rw [load_cr]
  have hwrite : c.bus.store d cr (d.control ||| crLock) =
      d.configured (settings ||| crLock) := by
    rw [store_cr]
    cases h.control with
    | inl hopen =>
        rw [writeControl_plain c d (hopen ▸ hplain.lock) h.quiet, hopen]
        rw [hopen, crLock, getLsbD_or_bit _ _ (by decide), hplain.strt]
        decide
    | inr hlocked =>
        have hbit : d.control.getLsbD 31 = true := by
          rw [hlocked, crLock, getLsbD_or_bit _ _ (by decide)]
          simp
        unfold Controller.writeControl Device.configured
        rw [if_pos (Or.inl hbit), ← hlocked]
  rw [← hwrite]
  exact yields_write c.bus cr _ d

omit hplain in
/-- The wait before an operation has nothing to wait for. -/
theorem yields_waitReady {fuel : Nat} (hfuel : 0 < fuel) (v : Word) :
    Yields (waitNotBusy c.bus fuel) (d.configured v) () (d.configured v) := by
  have hpolls : (d.configured v).pollsLeft < fuel := by
    show d.pollsLeft < fuel
    rw [h.quiet]
    exact hfuel
  have hwait := yields_waitNotBusy c hpolls h.status
  rw [← h.quiet] at hwait
  exact hwait

omit hplain in
/-- The wait after it sees it to its end. -/
theorem yields_waitEnd {fuel : Nat} (hpolls : forall n, c.polls n < fuel) (v : Word)
    {operation : Nor -> Nor}
    (hstatus : (operation d.nor).errors.getLsbD 16 = d.nor.errors.getLsbD 16) :
    Yields (waitNotBusy c.bus fuel) (c.start (d.configured v) operation) ()
      (d.after v operation) :=
  yields_waitNotBusy c (hpolls d.operations) (hstatus.trans h.status)

omit hplain h in
theorem load_sr_after (v : Word) (operation : Nor -> Nor) :
    c.bus.load (d.after v operation) sr = ((operation d.nor).errors, d.after v operation) := by
  rw [load_sr]
  show (0#32 ||| (operation d.nor).errors, d.after v operation) = _
  rw [BitVec.zero_or]

omit h in
/-- The write that ends an operation. -/
theorem store_settings (v : Word) (hlock : v.getLsbD 31 = false) (operation : Nor -> Nor) :
    c.bus.store (d.after v operation) cr settings = d.after settings operation := by
  rw [store_cr, writeControl_plain c (d.after v operation) hlock rfl hplain.strt]
  rfl

/-!
### Erasing
-/

theorem store_selecting (sectorIndex : Byte) :
    c.bus.store (d.configured settings) cr (selecting settings sectorIndex) =
      d.configured (selecting settings sectorIndex) := by
  have hstrt : (selecting settings sectorIndex).getLsbD 16 = false := by
    rw [getLsbD_selecting _ _ (by decide) (by decide), hplain.strt]
    decide
  rw [store_cr, writeControl_plain c (d.configured settings) hplain.lock h.quiet hstrt]
  rfl

theorem store_starting (sectorIndex : Byte) :
    c.bus.store (d.configured (selecting settings sectorIndex)) cr
        (selecting settings sectorIndex ||| crStrt) =
      c.start (d.configured (selecting settings sectorIndex))
        (c.erase (sectorIndex.setWidth 4)) := by
  have hbit : forall i, i < 32 -> i < 3 ∨ 7 ≤ i -> (selecting settings sectorIndex).getLsbD i =
      (settings.getLsbD i || decide (i = 1)) :=
    fun i hi hfield => getLsbD_selecting settings sectorIndex hi hfield
  have hstrt : (selecting settings sectorIndex).getLsbD 16 = false := by
    rw [hbit 16 (by decide) (by decide), hplain.strt]
    decide
  have hlock : (selecting settings sectorIndex).getLsbD 31 = false := by
    rw [hbit 31 (by decide) (by decide), hplain.lock]
    decide
  have hgo : (selecting settings sectorIndex ||| crStrt).getLsbD 16 = true ∧
      (selecting settings sectorIndex ||| crStrt).getLsbD 1 = true := by
    rw [crStrt, getLsbD_or_bit _ _ (by decide), getLsbD_or_bit _ _ (by decide),
      hbit 1 (by decide) (by decide)]
    simp
  have hopen := writable_of (d.configured (selecting settings sectorIndex)) hlock h.quiet
  rw [store_cr]
  unfold Controller.writeControl
  rw [if_neg hopen, if_pos hgo, extract_selecting, crStrt, clear_bit_set hstrt]
  rfl

theorem yields_eraseStoreSector {fuel : Nat} (hpolls : forall n, c.polls n < fuel)
    (sectorIndex : Byte) :
    Yields (eraseStoreSector c.bus fuel sectorIndex) d
      ((c.erase (sectorIndex.setWidth 4) d.nor).errors &&& (1#32 <<< 4 ||| 1#32 <<< 5) == 0#32)
      (d.after settings (c.erase (sectorIndex.setWidth 4))) := by
  have hfuel : 0 < fuel := Nat.lt_of_le_of_lt (Nat.zero_le _) (hpolls 0)
  have hlock : (selecting settings sectorIndex).getLsbD 31 = false := by
    rw [getLsbD_selecting _ _ (by decide) (by decide), hplain.lock]
    decide
  have hstatus := status_erase c (sectorIndex.setWidth 4) d.nor
  refine yields_bind (yields_unlock c hplain h) ?_
  refine yields_bind (yields_waitReady c h hfuel settings) ?_
  refine yields_bind (yields_read c.bus cr _) ?_
  refine yields_bind (yields_write c.bus cr (selecting settings sectorIndex) _) ?_
  rw [load_cr, store_selecting c hplain h]
  refine yields_bind (yields_read c.bus cr _) ?_
  refine yields_bind (yields_write c.bus cr (selecting settings sectorIndex ||| crStrt) _) ?_
  rw [load_cr, store_starting c hplain h]
  refine yields_bind (yields_waitEnd c h hpolls _ hstatus) ?_
  refine yields_bind (yields_read c.bus sr _) ?_
  rw [load_sr_after]
  refine yields_bind (yields_write c.bus cr (settings &&& ~~~crSer) _) ?_
  rw [crSer, clear_bit_of_clear hplain.ser, store_settings c hplain _ hlock]
  exact yields_pure _ _

/-!
### Programming
-/

omit hplain h in
theorem store_word {byteOff : Word} (hoff : byteOff < 0x4000#32) (d : Device) (v : Word) :
    c.bus.store d (storeBase + byteOff) v = c.writeWord d (storeBase + byteOff) v := by
  have hkeyr : storeBase + byteOff ≠ keyr := by
    unfold storeBase keyr
    bv_omega
  have hcr : storeBase + byteOff ≠ cr := by
    unfold storeBase cr
    bv_omega
  have hsr : storeBase + byteOff ≠ sr := by
    unfold storeBase sr
    bv_omega
  show (if storeBase + byteOff = keyr then _ else if storeBase + byteOff = cr then _
    else if storeBase + byteOff = sr then _ else _) = _
  rw [if_neg hkeyr, if_neg hcr, if_neg hsr]

theorem yields_programWord {fuel : Nat} (hpolls : forall n, c.polls n < fuel) {byteOff : Word}
    (hoff : byteOff < 0x4000#32) (word : Word) :
    Yields (programWord c.bus fuel byteOff word) d ()
      (d.after settings
        (c.program (c.takesWords (settings ||| crPg)) (storeBase + byteOff) word)) := by
  have hfuel : 0 < fuel := Nat.lt_of_le_of_lt (Nat.zero_le _) (hpolls 0)
  have hlock : (settings ||| crPg).getLsbD 31 = false := by
    rw [crPg, getLsbD_or_bit _ _ (by decide), hplain.lock]
    decide
  have hstrt : (settings ||| crPg).getLsbD 16 = false := by
    rw [crPg, getLsbD_or_bit _ _ (by decide), hplain.strt]
    decide
  have hpg : (settings ||| crPg).getLsbD 0 = true := by
    rw [crPg, getLsbD_or_bit _ _ (by decide)]
    simp
  have henable : c.bus.store (d.configured settings) cr (settings ||| crPg) =
      d.configured (settings ||| crPg) := by
    rw [store_cr, writeControl_plain c (d.configured settings) hplain.lock h.quiet hstrt]
    rfl
  have hword : c.bus.store (d.configured (settings ||| crPg)) (storeBase + byteOff) word =
      c.start (d.configured (settings ||| crPg))
        (c.program (c.takesWords (settings ||| crPg)) (storeBase + byteOff) word) := by
    have hopen : ¬ ((d.configured (settings ||| crPg)).control.getLsbD 31 = true ∨
        (d.configured (settings ||| crPg)).pollsLeft ≠ 0 ∨
        (d.configured (settings ||| crPg)).control.getLsbD 0 = false) := by
      show ¬ ((settings ||| crPg).getLsbD 31 = true ∨ d.pollsLeft ≠ 0 ∨
        (settings ||| crPg).getLsbD 0 = false)
      rw [hlock, hpg, h.quiet]
      decide
    rw [store_word c hoff]
    unfold Controller.writeWord
    rw [if_neg hopen]
    rfl
  have hend : c.bus.store (d.after (settings ||| crPg)
      (c.program (c.takesWords (settings ||| crPg)) (storeBase + byteOff) word)) cr
        ((settings ||| crPg) &&& ~~~crPg) =
      d.after settings
        (c.program (c.takesWords (settings ||| crPg)) (storeBase + byteOff) word) := by
    have hclear : (settings ||| crPg) &&& ~~~crPg = settings := clear_bit_set hplain.pg
    rw [hclear]
    exact store_settings c hplain _ hlock _
  have hstatus := status_program c (c.takesWords (settings ||| crPg)) (storeBase + byteOff) word
    d.nor
  refine yields_bind (yields_unlock c hplain h) ?_
  refine yields_bind (yields_waitReady c h hfuel settings) ?_
  refine yields_bind (yields_read c.bus cr _) ?_
  refine yields_bind (yields_write c.bus cr (settings ||| crPg) _) ?_
  rw [load_cr, henable]
  refine yields_bind (yields_write c.bus (storeBase + byteOff) word _) ?_
  rw [hword]
  refine yields_bind (yields_waitEnd c h hpolls _ hstatus) ?_
  refine yields_bind (yields_read c.bus cr _) ?_
  rw [load_cr, ← hend]
  exact yields_write c.bus cr _ _

omit hplain in
/-- An operation leaves the device ready for the next one. -/
theorem ready_after {operation : Nor -> Nor}
    (hstatus : (operation d.nor).errors.getLsbD 16 = d.nor.errors.getLsbD 16) :
    Ready settings (d.after settings operation) where
  keys := h.keys
  control := Or.inl rfl
  quiet := rfl
  status := hstatus.trans h.status

omit hplain in
theorem ready_configured {v : Word} (hv : v = settings ∨ v = settings ||| crLock) :
    Ready settings (d.configured v) where
  keys := h.keys
  control := hv
  quiet := h.quiet
  status := h.status

end Driver

/-!
## Runs
-/

/-- A call of the driver. -/
inductive Call where
  | unlock
  | lock
  | eraseStoreSector (sectorIndex : Byte)
  | programWord (byteOff word : Word)
  | selfTest
deriving DecidableEq, Repr

/-- A word of the store, which is all that the driver is meant for. -/
def Call.InStore : Call -> Prop
  | .programWord byteOff _ => byteOff < 0x4000#32
  | _ => True

/-- The call and what it returns. -/
def Call.run (bus : Bus Word Word σ) (fuel : Nat) : Call -> DriverM σ (Option Bool)
  | .unlock => do
      Flash.unlock bus
      pure none
  | .lock => do
      Flash.lock bus
      pure none
  | .eraseStoreSector sectorIndex => do
      let ok <- Flash.eraseStoreSector bus fuel sectorIndex
      pure (some ok)
  | .programWord byteOff word => do
      Flash.programWord bus fuel byteOff word
      pure none
  | .selfTest => do
      let ok <- Flash.selfTest bus fuel
      pure (some ok)

def runCalls (bus : Bus Word Word σ) (fuel : Nat) : List Call -> DriverM σ (List (Option Bool))
  | [] => pure []
  | call :: calls => do
      let reply <- call.run bus fuel
      let replies <- runCalls bus fuel calls
      pure (reply :: replies)

namespace Controller

variable (c : Controller) (wide : Bool)

/-- `self_test` on the words: sector 11 and the first word of the store. -/
def tested (f : Nor) : Nor :=
  c.program wide storeBase 0xCAFEF00D#32 (c.erase 11#4 f)

/-- What a call means for the store, and what it tells the caller. -/
def meaning : Call -> Nor -> Option Bool × Nor
  | .unlock, f => (none, f)
  | .lock, f => (none, f)
  | .eraseStoreSector sectorIndex, f =>
      let f' := c.erase (sectorIndex.setWidth 4) f
      (some (f'.errors &&& (wrpErr ||| pgaErr) == 0#32), f')
  | .programWord byteOff word, f => (none, c.program wide (storeBase + byteOff) word f)
  | .selfTest, f => (some ((c.tested wide f).content storeBase == 0xCAFEF00D#32), c.tested wide f)

def meanings : List Call -> Nor -> List (Option Bool) × Nor
  | [], f => ([], f)
  | call :: calls, f =>
      let first := c.meaning wide call f
      let rest := meanings calls first.2
      (first.1 :: rest.1, rest.2)

end Controller

section Refinement

variable (c : Controller) {settings : Word} {d : Device} {fuel : Nat}

/-- `self_test` takes the lock off, erases, programs, reads back and locks. -/
theorem yields_selfTest (hplain : Plain settings) (h : Ready settings d)
    (hpolls : forall n, c.polls n < fuel) :
    Yields (selfTest c.bus fuel) d
      ((c.tested (c.takesWords (settings ||| crPg)) d.nor).content storeBase == 0xCAFEF00D#32)
      ((((d.configured settings).after settings (c.erase 11#4)).after settings
        (c.program (c.takesWords (settings ||| crPg)) storeBase 0xCAFEF00D#32)).configured
          (settings ||| crLock)) := by
  have hopen : Ready settings (d.configured settings) := ready_configured h (Or.inl rfl)
  have herase := yields_eraseStoreSector c hplain hopen hpolls 11#8
  have herased := ready_after hopen (status_erase c 11#4 d.nor)
  have hfirst : 0#32 < 0x4000#32 := by decide
  have hprogram := yields_programWord c hplain herased hpolls hfirst 0xCAFEF00D#32
  have hprogrammed := ready_after herased (status_program c (c.takesWords (settings ||| crPg))
    storeBase 0xCAFEF00D#32 _)
  have hlock := yields_lock c hplain hprogrammed
  refine yields_bind (yields_unlock c hplain h) ?_
  refine yields_bind herase ?_
  refine yields_bind hprogram ?_
  refine yields_bind (yields_read c.bus storeBase _) ?_
  refine yields_bind hlock ?_
  exact yields_pure _ _

theorem yields_call (hplain : Plain settings) (h : Ready settings d)
    (hpolls : forall n, c.polls n < fuel) {call : Call} (hcall : call.InStore) :
    exists d', Yields (call.run c.bus fuel) d
        (c.meaning (c.takesWords (settings ||| crPg)) call d.nor).1 d' ∧
      d'.nor = (c.meaning (c.takesWords (settings ||| crPg)) call d.nor).2 ∧
      Ready settings d' := by
  cases call with
  | unlock =>
      exact ⟨_, yields_bind (yields_unlock c hplain h) (yields_pure _ _), rfl,
        ready_configured h (Or.inl rfl)⟩
  | lock =>
      exact ⟨_, yields_bind (yields_lock c hplain h) (yields_pure _ _), rfl,
        ready_configured h (Or.inr rfl)⟩
  | eraseStoreSector sectorIndex =>
      exact ⟨_, yields_bind (yields_eraseStoreSector c hplain h hpolls sectorIndex)
        (yields_pure _ _), rfl, ready_after h (status_erase c _ _)⟩
  | programWord byteOff word =>
      exact ⟨_, yields_bind (yields_programWord c hplain h hpolls hcall word)
        (yields_pure _ _), rfl, ready_after h (status_program c _ _ _ _)⟩
  | selfTest =>
      refine ⟨_, yields_bind (yields_selfTest c hplain h hpolls) (yields_pure _ _), rfl, ?_⟩
      have hopen : Ready settings (d.configured settings) := ready_configured h (Or.inl rfl)
      have herased := ready_after hopen (status_erase c 11#4 d.nor)
      exact ready_configured (ready_after herased (status_program c _ _ _ _)) (Or.inr rfl)

/-- Whatever the driver is asked to do, and however long the controller takes, each call
returns; it does to the store what the call means, and tells the caller what that says. -/
theorem calls_refine_store (hplain : Plain settings) (h : Ready settings d)
    (hpolls : forall n, c.polls n < fuel) (calls : List Call)
    (hcalls : forall call, call ∈ calls -> call.InStore) :
    exists d', Yields (runCalls c.bus fuel calls) d
        (c.meanings (c.takesWords (settings ||| crPg)) calls d.nor).1 d' ∧
      d'.nor = (c.meanings (c.takesWords (settings ||| crPg)) calls d.nor).2 ∧
      Ready settings d' := by
  induction calls generalizing d with
  | nil => exact ⟨d, yields_pure _ _, rfl, h⟩
  | cons call calls ih =>
      obtain ⟨d', hfirst, hnor, hready⟩ :=
        yields_call c hplain h hpolls (hcalls call List.mem_cons_self)
      obtain ⟨d'', hrest, hnor', hready'⟩ :=
        ih hready fun call' hmem => hcalls call' (List.mem_cons_of_mem _ hmem)
      rw [hnor] at hrest hnor'
      exact ⟨d'', yields_bind hfirst (yields_bind hrest (yields_pure _ _)), hnor', hready'⟩

end Refinement

/-- The sectors of the source: four of 16 KiB, one of 64 KiB, seven of 128 KiB. -/
def sectorAt (a : Word) : BitVec 4 :=
  let offset := a - 0x08000000#32
  if offset < 0x10000#32 then (offset >>> 14).setWidth 4
  else if offset < 0x20000#32 then 4#4
  else ((offset >>> 17) + 4#32).setWidth 4

/-- A controller with these sectors that takes words as they come. -/
def plainController : Controller where
  sectorOf := sectorAt
  writeProtected _ := false
  takesWords _ := true
  polls n := n % 3

/-- As after reset, with the lock on and a store full of zeros. -/
def resetDevice : Device where
  keys := .waiting
  control := crLock
  nor := { content := fun _ => 0#32, errors := 0#32 }
  operations := 0
  pollsLeft := 0

theorem ready_resetDevice : Ready 0#32 resetDevice where
  keys := rfl
  control := Or.inr rfl
  quiet := rfl
  status := by decide

/-- A sector is erased and a word of it programmed. -/
theorem calls_refine_store_programmed :
    exists d', Yields (runCalls plainController.bus 3
        [.eraseStoreSector 4#8, .programWord 8#32 0xABCD#32]) resetDevice [some true, none] d' ∧
      d'.nor.content (storeBase + 8#32) = 0xABCD#32 ∧ d'.nor.content storeBase = 0xFFFFFFFF#32 := by
  have hplain : Plain 0#32 := by
    constructor <;> decide
  obtain ⟨d', hrun, hnor, _⟩ := calls_refine_store plainController hplain ready_resetDevice
    (fun n => Nat.mod_lt n (by decide)) [.eraseStoreSector 4#8, .programWord 8#32 0xABCD#32]
    (by simp [Call.InStore])
  refine ⟨d', hrun, ?_, ?_⟩
  · rw [hnor]
    decide
  · rw [hnor]
    decide

/-!
## The verdict of `self_test`
-/

namespace Controller

variable (c : Controller) (wide : Bool)

/-- The first word of the store can be programmed. -/
def honoursProgramming : Bool :=
  wide && !c.writeProtected (c.sectorOf storeBase)

/-- What `self_test` finds out about a store whose first word is `w`, if it erases another
sector. -/
def verdict (w : Word) : Bool :=
  if c.honoursProgramming wide then w &&& 0xCAFEF00D#32 == 0xCAFEF00D#32 else w == 0xCAFEF00D#32

/-- Sector 11 is not that of the word, which thus keeps what it had. -/
theorem content_tested (hsector : c.sectorOf storeBase ≠ 11#4) (f : Nor) :
    (c.tested wide f).content storeBase =
      if c.honoursProgramming wide then f.content storeBase &&& 0xCAFEF00D#32
      else f.content storeBase := by
  have herase : (c.erase 11#4 f).content storeBase = f.content storeBase := by
    unfold erase
    split
    · rfl
    · exact if_neg hsector
  have haligned : ¬ storeBase &&& 3#32 ≠ 0#32 := by decide
  unfold tested program honoursProgramming
  rw [if_neg haligned]
  cases hprotected : c.writeProtected (c.sectorOf storeBase) with
  | true =>
      rw [if_pos rfl, Bool.not_true, Bool.and_false, if_neg Bool.false_ne_true]
      exact herase
  | false =>
      rw [if_neg Bool.false_ne_true, Bool.not_false, Bool.and_true]
      cases wide with
      | true =>
          rw [if_neg (by decide), if_pos rfl]
          simp only [Function.update_self, herase]
      | false =>
          rw [if_pos rfl, if_neg Bool.false_ne_true]
          exact herase

theorem verdict_tested (hsector : c.sectorOf storeBase ≠ 11#4) (f : Nor) :
    ((c.tested wide f).content storeBase == 0xCAFEF00D#32) =
        c.verdict wide (f.content storeBase) ∧
      c.verdict wide ((c.tested wide f).content storeBase) =
        c.verdict wide (f.content storeBase) := by
  rw [content_tested c wide hsector]
  unfold verdict
  by_cases hprograms : c.honoursProgramming wide = true
  · simp [if_pos hprograms, BitVec.and_assoc]
  · simp [if_neg hprograms]

end Controller

/-- With the sectors of the source, `flash_test` says the same however often it is asked,
and says it about what the store held before: a controller that programs is said to ignore
writes unless all bits of the marker were set. -/
theorem selfTest_judges_content (c : Controller) {settings : Word} {d : Device} {fuel : Nat}
    (hsectors : c.sectorOf = sectorAt) (hplain : Plain settings) (h : Ready settings d)
    (hpolls : forall n, c.polls n < fuel) (times : Nat) :
    exists d', Yields (runCalls c.bus fuel (List.replicate times .selfTest)) d
        (List.replicate times
          (some (c.verdict (c.takesWords (settings ||| crPg)) (d.nor.content storeBase)))) d' := by
  have hsector : c.sectorOf storeBase ≠ 11#4 := by
    rw [hsectors]
    decide
  induction times generalizing d with
  | zero => exact ⟨d, yields_pure _ _⟩
  | succ times ih =>
      have hcall : Call.selfTest.InStore := trivial
      obtain ⟨d', hfirst, hnor, hready⟩ := yields_call c hplain h hpolls hcall
      obtain ⟨d'', hrest⟩ := ih hready
      obtain ⟨hreply, hsame⟩ :=
        c.verdict_tested (c.takesWords (settings ||| crPg)) hsector d.nor
      rw [Controller.meaning, hreply] at hfirst
      rw [hnor, Controller.meaning, hsame] at hrest
      exact ⟨d'', yields_bind hfirst (yields_bind hrest (yields_pure _ _))⟩

theorem selfTest_judges_content_zeros :
    exists d', Yields (runCalls plainController.bus 3 [.selfTest, .selfTest]) resetDevice
        [some false, some false] d' := by
  have hplain : Plain 0#32 := by
    constructor <;> decide
  exact selfTest_judges_content plainController rfl hplain ready_resetDevice
    (fun n => Nat.mod_lt n (by decide)) 2

end Flash
end Drivers
end HolyRust
