import HolyRust.Foundation.Interruptions
import HolyRust.Foundation.RegisterBits
import HolyRust.Drivers.Peripherals

/-!
# GPIO pins

A `PinGuard` drives one pin of a port of the virtual HAL.  A level is set or cleared by
one write, whatever the other pins are; the direction is read, changed and written
back.  The ports are an array of pins that do not get in each other's way, also when
interrupt handlers drive other pins between any two accesses.
-/

namespace HolyRust
namespace Drivers
namespace Gpio

open Foundation

inductive Port where
  | gpioA
  | gpioB
deriving DecidableEq, Repr

def Port.base : Port -> Word
  | .gpioA => 0x40020000#32
  | .gpioB => 0x40020400#32

inductive Reg where
  | dataSet
  | dataClr
  | dataOut
  | dir
deriving DecidableEq, Repr

def Reg.offset : Reg -> Word
  | .dataSet => 0x00#32
  | .dataClr => 0x04#32
  | .dataOut => 0x08#32
  | .dir => 0x10#32

def address (p : Port) (r : Reg) : Word :=
  p.base + r.offset

/-!
## The guard
-/

/-- The lease of one pin.  The number is a constant of the type, and the mask of a pin
from 32 on does not compile. -/
structure PinGuard where
  port : Port
  pin : Fin 32
deriving DecidableEq, Repr

namespace PinGuard

def mask (g : PinGuard) : Word := 1#32 <<< g.pin.val

section Methods

variable (bus : Bus Word Word σ) (g : PinGuard)

/-- `memory::reg_set_bit` on the direction register. -/
def enableOutput : DriverM σ Unit := do
  let v <- busRead bus (address g.port .dir)
  busWrite bus (address g.port .dir) (v ||| g.mask)

def setHighLinear : DriverM σ Unit := do
  g.enableOutput bus
  busWrite bus (address g.port .dataSet) g.mask

def setLowLinear : DriverM σ Unit := do
  g.enableOutput bus
  busWrite bus (address g.port .dataClr) g.mask

def setHigh : DriverM σ Unit := busWrite bus (address g.port .dataSet) g.mask

def setLow : DriverM σ Unit := busWrite bus (address g.port .dataClr) g.mask

def level : DriverM σ Bool := do
  let v <- busRead bus (address g.port .dataOut)
  pure (v &&& g.mask != 0#32)

end Methods

end PinGuard

inductive Method where
  | setHighLinear
  | setLowLinear
  | setHigh
  | setLow
  | level
deriving DecidableEq, Repr

structure Call where
  guard : PinGuard
  method : Method
deriving DecidableEq, Repr

/-- The call and what it returns. -/
def Call.run (bus : Bus Word Word σ) (c : Call) : DriverM σ (Option Bool) :=
  match c.method with
  | .setHighLinear => do
      c.guard.setHighLinear bus
      pure none
  | .setLowLinear => do
      c.guard.setLowLinear bus
      pure none
  | .setHigh => do
      c.guard.setHigh bus
      pure none
  | .setLow => do
      c.guard.setLow bus
      pure none
  | .level => do
      let b <- c.guard.level bus
      pure (some b)

def runCalls (bus : Bus Word Word σ) : List Call -> DriverM σ (List (Option Bool))
  | [] => pure []
  | c :: calls => do
      let reply <- c.run bus
      let replies <- runCalls bus calls
      pure (reply :: replies)

/-!
## The pins
-/

structure Pin where
  level : Bool
  output : Bool
deriving DecidableEq, Repr

abbrev Pins : Type := PinGuard -> Pin

/-- The level that a method gives its pin. -/
def Method.sets : Method -> Option Bool
  | .setHighLinear => some true
  | .setLowLinear => some false
  | .setHigh => some true
  | .setLow => some false
  | .level => none

/-- The consume-and-return methods also make the pin an output. -/
def Method.linear : Method -> Bool
  | .setHighLinear => true
  | .setLowLinear => true
  | _ => false

namespace Call

/-- What a call means for its pin, and for no other one. -/
def meaning (c : Call) (pins : Pins) : Pins :=
  Function.update pins c.guard
    { level := c.method.sets.getD (pins c.guard).level
      output := c.method.linear || (pins c.guard).output }

def reply (c : Call) (pins : Pins) : Option Bool :=
  match c.method with
  | .level => some (pins c.guard).level
  | _ => none

end Call

def meanings (calls : List Call) (pins : Pins) : Pins :=
  calls.foldl (fun pins c => c.meaning pins) pins

def replies : List Call -> Pins -> List (Option Bool)
  | [], _ => []
  | c :: calls, pins => c.reply pins :: replies calls (c.meaning pins)

/-!
## The ports
-/

/-- The output latches and the direction masks. -/
structure Ports where
  latch : Port -> Word
  direction : Port -> Word

def registers : List (Port × Reg) :=
  [(.gpioA, .dataSet), (.gpioA, .dataClr), (.gpioA, .dataOut), (.gpioA, .dir),
    (.gpioB, .dataSet), (.gpioB, .dataClr), (.gpioB, .dataOut), (.gpioB, .dir)]

def decode (a : Word) : Option (Port × Reg) :=
  registers.find? fun register => address register.1 register.2 == a

theorem decode_address (p : Port) (r : Reg) : decode (address p r) = some (p, r) := by
  cases p <;> cases r <;> decide

namespace Ports

def read (d : Ports) (p : Port) : Reg -> Word
  | .dataOut => d.latch p
  | .dir => d.direction p
  | _ => 0#32

def write (d : Ports) (p : Port) (r : Reg) (v : Word) : Ports :=
  match r with
  | .dataSet => { d with latch := Function.update d.latch p (d.latch p ||| v) }
  | .dataClr => { d with latch := Function.update d.latch p (d.latch p &&& ~~~v) }
  | .dir => { d with direction := Function.update d.direction p v }
  | .dataOut => d

def bus : Bus Word Word Ports where
  load d a :=
    match decode a with
    | some (p, r) => (d.read p r, d)
    | none => (0#32, d)
  store d a v :=
    match decode a with
    | some (p, r) => d.write p r v
    | none => d

theorem load_address (d : Ports) (p : Port) (r : Reg) :
    bus.load d (address p r) = (d.read p r, d) := by
  show (match decode (address p r) with | some (p, r) => (d.read p r, d) | none => (0#32, d)) = _
  rw [decode_address]

theorem store_address (d : Ports) (p : Port) (r : Reg) (v : Word) :
    bus.store d (address p r) v = d.write p r v := by
  show (match decode (address p r) with | some (p, r) => d.write p r v | none => d) = _
  rw [decode_address]

/-- The ports as pins. -/
def pins (d : Ports) : Pins := fun g =>
  { level := (d.latch g.port).getLsbD g.pin, output := (d.direction g.port).getLsbD g.pin }

/-- The read-change-write of `enable_output`. -/
def setOutput (d : Ports) (g : PinGuard) : Ports :=
  d.write g.port .dir (d.direction g.port ||| g.mask)

def setLevel (d : Ports) (g : PinGuard) (level : Bool) : Ports :=
  d.write g.port (if level then .dataSet else .dataClr) g.mask

theorem guard_eq_iff (h g : PinGuard) : h = g ↔ h.port = g.port ∧ h.pin = g.pin := by
  cases h
  cases g
  exact PinGuard.mk.injEq _ _ _ _ ▸ Iff.rfl

/-- One bit of one register changes. -/
theorem getLsbD_update (register : Port -> Word) (g h : PinGuard) {v : Word} {b : Bool}
    (hv : forall i, i < 32 -> v.getLsbD i = if i = g.pin then b else (register g.port).getLsbD i) :
    (Function.update register g.port v h.port).getLsbD h.pin =
      if h = g then b else (register h.port).getLsbD h.pin := by
  by_cases hport : h.port = g.port
  · rw [hport, Function.update_self, hv _ h.pin.isLt]
    refine if_congr ?_ rfl rfl
    rw [guard_eq_iff, and_iff_right hport, Fin.val_inj]
  · have hother : h ≠ g := fun hsame => hport ((guard_eq_iff h g).mp hsame).left
    rw [Function.update_of_ne hport, if_neg hother]

theorem pins_setOutput (d : Ports) (g : PinGuard) :
    (d.setOutput g).pins = Function.update d.pins g { d.pins g with output := true } := by
  funext h
  have hbit := getLsbD_update d.direction g h fun _ hi =>
    getLsbD_assign_bit (d.direction g.port) true g.pin hi
  show Pin.mk ((d.latch h.port).getLsbD h.pin) _ = _
  rw [Function.update_apply]
  refine (congrArg (Pin.mk _) hbit).trans ?_
  split
  · next hsame =>
      rw [hsame]
      rfl
  · rfl

theorem setLevel_eq (d : Ports) (g : PinGuard) (level : Bool) :
    d.setLevel g level =
      { d with
        latch := Function.update d.latch g.port
          (if level then d.latch g.port ||| g.mask else d.latch g.port &&& ~~~g.mask) } := by
  cases level <;> rfl

theorem pins_setLevel (d : Ports) (g : PinGuard) (level : Bool) :
    (d.setLevel g level).pins = Function.update d.pins g { d.pins g with level } := by
  funext h
  have hbit := getLsbD_update d.latch g h fun _ hi =>
    getLsbD_assign_bit (d.latch g.port) level g.pin hi
  rw [setLevel_eq, Function.update_apply]
  refine (congrArg (fun b => Pin.mk b ((d.direction h.port).getLsbD h.pin)) hbit).trans ?_
  split
  · next hsame =>
      rw [hsame]
      rfl
  · rfl

end Ports

namespace Call

/-- What a call does to the ports. -/
def effect (c : Call) (d : Ports) : Ports :=
  let d := if c.method.linear then d.setOutput c.guard else d
  match c.method.sets with
  | some level => d.setLevel c.guard level
  | none => d

theorem pins_effect (c : Call) (d : Ports) : (c.effect d).pins = c.meaning d.pins := by
  unfold effect meaning
  cases c.method with
  | setHighLinear =>
      refine (Ports.pins_setLevel (d.setOutput c.guard) c.guard true).trans ?_
      rw [Ports.pins_setOutput, Function.update_self, Function.update_idem]
      rfl
  | setLowLinear =>
      refine (Ports.pins_setLevel (d.setOutput c.guard) c.guard false).trans ?_
      rw [Ports.pins_setOutput, Function.update_self, Function.update_idem]
      rfl
  | setHigh => exact Ports.pins_setLevel d c.guard true
  | setLow => exact Ports.pins_setLevel d c.guard false
  | level => exact (Function.update_eq_self c.guard d.pins).symm

theorem yields_enableOutput (g : PinGuard) (d : Ports) :
    Yields (g.enableOutput Ports.bus) d () (d.setOutput g) := by
  have hread := yields_read Ports.bus (address g.port .dir) d
  rw [Ports.load_address] at hread
  have hwrite := yields_write Ports.bus (address g.port .dir) (d.direction g.port ||| g.mask) d
  rw [Ports.store_address] at hwrite
  exact yields_bind hread hwrite

theorem yields_setLevel (g : PinGuard) (d : Ports) (level : Bool) :
    Yields (busWrite Ports.bus (address g.port (if level then .dataSet else .dataClr)) g.mask) d ()
      (d.setLevel g level) := by
  have hwrite := yields_write Ports.bus (address g.port (if level then .dataSet else .dataClr))
    g.mask d
  rw [Ports.store_address] at hwrite
  exact hwrite

theorem level_eq (d : Ports) (g : PinGuard) :
    (d.latch g.port &&& g.mask != 0#32) = (d.pins g).level := by
  have hbit := and_bit_ne_zero_iff (d.latch g.port) g.pin.isLt
  rw [Bool.eq_iff_iff, bne_iff_ne]
  exact hbit

theorem yields_run (c : Call) (d : Ports) :
    Yields (c.run Ports.bus) d (c.reply d.pins) (c.effect d) := by
  unfold run reply effect
  cases c.method with
  | setHighLinear =>
      exact yields_bind (yields_bind (yields_enableOutput c.guard d)
        (yields_setLevel c.guard _ true)) (yields_pure none _)
  | setLowLinear =>
      exact yields_bind (yields_bind (yields_enableOutput c.guard d)
        (yields_setLevel c.guard _ false)) (yields_pure none _)
  | setHigh => exact yields_bind (yields_setLevel c.guard d true) (yields_pure none _)
  | setLow => exact yields_bind (yields_setLevel c.guard d false) (yields_pure none _)
  | level =>
      have hread := yields_read Ports.bus (address c.guard.port .dataOut) d
      rw [Ports.load_address] at hread
      refine yields_bind (yields_bind hread (yields_pure _ d)) ?_
      show Yields (pure (some (d.latch c.guard.port &&& c.guard.mask != 0#32))) d _ d
      rw [level_eq]
      exact yields_pure _ d

/-- A handler runs to its end. -/
def handle (c : Call) (d : Ports) : Ports :=
  (finalState (c.run Ports.bus { device := d, trace := [] })).device

theorem handle_eq (c : Call) (d : Ports) : c.handle d = c.effect d := by
  obtain ⟨trace, hrun⟩ := yields_run c d []
  unfold handle
  rw [hrun]
  rfl

end Call

/-!
## Interrupt handlers
-/

/-- The handler drives another pin than the call, and the direction of another port if
both make their pin an output. -/
structure Apart (c i : Call) : Prop where
  guard : i.guard ≠ c.guard
  direction : c.method.linear = true -> i.method.linear = true -> i.guard.port ≠ c.guard.port

namespace Ports

theorem pins_injective : Function.Injective pins := by
  intro d d' h
  have hlatch : d.latch = d'.latch := by
    funext p
    apply BitVec.eq_of_getLsbD_eq
    intro i hi
    exact congrArg Pin.level (congrFun h ⟨p, ⟨i, hi⟩⟩)
  have hdirection : d.direction = d'.direction := by
    funext p
    apply BitVec.eq_of_getLsbD_eq
    intro i hi
    exact congrArg Pin.output (congrFun h ⟨p, ⟨i, hi⟩⟩)
  cases d
  cases d'
  rw [mk.injEq]
  exact ⟨hlatch, hdirection⟩

theorem pins_writeDir (d : Ports) (p : Port) (v : Word) (h : PinGuard) :
    (d.write p .dir v).pins h =
      if h.port = p then { d.pins h with output := v.getLsbD h.pin } else d.pins h := by
  by_cases hport : h.port = p
  · rw [if_pos hport, ← hport]
    simp only [pins, write, Function.update_self]
  · rw [if_neg hport]
    simp only [pins, write, Function.update_of_ne hport]

end Ports

namespace Call

theorem meaning_self (i : Call) (pins : Pins) :
    i.meaning pins i.guard =
      { level := i.method.sets.getD (pins i.guard).level
        output := i.method.linear || (pins i.guard).output } :=
  Function.update_self _ _ _

theorem meaning_other (i : Call) (pins : Pins) {g : PinGuard} (h : g ≠ i.guard) :
    i.meaning pins g = pins g :=
  Function.update_of_ne h _ _

theorem handle_setLevel (i : Call) {g : PinGuard} (h : i.guard ≠ g) (level : Bool) (d : Ports) :
    i.handle (d.setLevel g level) = (i.handle d).setLevel g level := by
  rw [handle_eq, handle_eq]
  apply Ports.pins_injective
  rw [pins_effect, Ports.pins_setLevel, Ports.pins_setLevel, pins_effect, meaning_other _ _ h.symm]
  unfold meaning
  rw [Function.update_of_ne h, Function.update_comm h]

theorem handle_writeDir (i : Call) {p : Port} (h : i.method.linear = true -> i.guard.port ≠ p)
    (v : Word) (d : Ports) : i.handle (d.write p .dir v) = (i.handle d).write p .dir v := by
  rw [handle_eq, handle_eq]
  apply Ports.pins_injective
  funext g
  rw [pins_effect, Ports.pins_writeDir, pins_effect]
  by_cases hown : g = i.guard
  · rw [hown, meaning_self, meaning_self, Ports.pins_writeDir]
    by_cases hport : i.guard.port = p
    · have hlinear : i.method.linear = false := by
        rw [← Bool.not_eq_true]
        exact fun hlinear => h hlinear hport
      rw [if_pos hport, if_pos hport, hlinear, Bool.false_or]
    · rw [if_neg hport, if_neg hport]
  · rw [meaning_other _ _ hown, meaning_other _ _ hown, Ports.pins_writeDir]

theorem handle_direction (i : Call) {p : Port} (h : i.method.linear = true -> i.guard.port ≠ p)
    (d : Ports) : (i.handle d).direction p = d.direction p := by
  apply BitVec.eq_of_getLsbD_eq
  intro k hk
  have hpin : (i.handle d).pins ⟨p, ⟨k, hk⟩⟩ = i.meaning d.pins ⟨p, ⟨k, hk⟩⟩ := by
    rw [handle_eq, pins_effect]
  refine (congrArg Pin.output hpin).trans ?_
  by_cases hown : PinGuard.mk p ⟨k, hk⟩ = i.guard
  · have hlinear : i.method.linear = false := by
      rw [← Bool.not_eq_true]
      exact fun hlinear => h hlinear (congrArg PinGuard.port hown).symm
    rw [hown, meaning_self, hlinear, Bool.false_or, ← hown]
    rfl
  · rw [meaning_other _ _ hown]
    rfl

theorem handle_pin (i : Call) {g : PinGuard} (h : i.guard ≠ g) (d : Ports) :
    (i.handle d).pins g = d.pins g := by
  rw [handle_eq, pins_effect, meaning_other _ _ h.symm]

/-!
## Interrupted calls
-/

/-- The ports between whose accesses handlers run. -/
def port : Bus Word Word (Interrupted Ports Call) := Ports.bus.interrupted handle

theorem undisturbed_enableOutput (c : Call) (hlinear : c.method.linear = true) (d : Ports) :
    Undisturbed handle (Apart c) (c.guard.enableOutput port) d () (d.setOutput c.guard) := by
  have hdirection : forall i, Apart c i -> i.method.linear = true -> i.guard.port ≠ c.guard.port :=
    fun i hi => hi.direction hlinear
  refine undisturbed_read Ports.bus (fun d => ?_) (fun i hi d => ?_) ?_
  · rw [Ports.load_address]
  · rw [Ports.load_address, Ports.load_address]
    show busWrite _ _ ((i.handle d).direction _ ||| _) = busWrite _ _ (d.direction _ ||| _)
    rw [handle_direction i (hdirection i hi)]
  · have hwrite : Undisturbed handle (Apart c) (busWrite port (address c.guard.port .dir)
        (d.direction c.guard.port ||| c.guard.mask)) d ()
        (Ports.bus.store d (address c.guard.port .dir)
          (d.direction c.guard.port ||| c.guard.mask)) := by
      refine undisturbed_write Ports.bus d fun i hi d => ?_
      rw [Ports.store_address, Ports.store_address]
      exact handle_writeDir i (hdirection i hi) _ d
    rw [Ports.store_address] at hwrite
    rw [Ports.load_address]
    exact hwrite

theorem undisturbed_setLevel (c : Call) (level : Bool) (d : Ports) :
    Undisturbed handle (Apart c)
      (busWrite port (address c.guard.port (if level then .dataSet else .dataClr)) c.guard.mask) d
      ()
      (d.setLevel c.guard level) := by
  have hwrite : Undisturbed handle (Apart c)
      (busWrite port (address c.guard.port (if level then .dataSet else .dataClr)) c.guard.mask) d
      ()
      (Ports.bus.store d (address c.guard.port (if level then .dataSet else .dataClr))
        c.guard.mask) := by
    refine undisturbed_write Ports.bus d fun i hi d => ?_
    rw [Ports.store_address, Ports.store_address]
    exact handle_setLevel i hi.guard level d
  rw [Ports.store_address] at hwrite
  exact hwrite

theorem undisturbed_level (c : Call) (d : Ports) :
    Undisturbed handle (Apart c) (c.guard.level port) d (d.pins c.guard).level d := by
  refine undisturbed_read Ports.bus (fun d => ?_) (fun i hi d => ?_) ?_
  · rw [Ports.load_address]
  · rw [Ports.load_address, Ports.load_address]
    show pure ((i.handle d).latch _ &&& _ != 0#32) = pure (d.latch _ &&& _ != 0#32)
    rw [level_eq, level_eq, handle_pin i hi.guard]
  · rw [Ports.load_address]
    show Undisturbed _ _ (pure (d.latch c.guard.port &&& c.guard.mask != 0#32)) _ _ _
    rw [level_eq]
    exact undisturbed_pure _ d

theorem undisturbed_run (c : Call) (d : Ports) :
    Undisturbed handle (Apart c) (c.run port) d (c.reply d.pins) (c.effect d) := by
  have hnone : forall d, Undisturbed handle (Apart c)
      (pure none : BusM Word Word (Interrupted Ports Call) (Option Bool)) d none d :=
    fun d => undisturbed_pure none d
  unfold run reply effect
  cases hmethod : c.method with
  | setHighLinear =>
      have hlinear : c.method.linear = true := by rw [hmethod]; rfl
      exact undisturbed_bind (undisturbed_bind (undisturbed_enableOutput c hlinear d)
        (undisturbed_setLevel c true _)) (hnone _)
  | setLowLinear =>
      have hlinear : c.method.linear = true := by rw [hmethod]; rfl
      exact undisturbed_bind (undisturbed_bind (undisturbed_enableOutput c hlinear d)
        (undisturbed_setLevel c false _)) (hnone _)
  | setHigh => exact undisturbed_bind (undisturbed_setLevel c true d) (hnone _)
  | setLow => exact undisturbed_bind (undisturbed_setLevel c false d) (hnone _)
  | level => exact undisturbed_bind (undisturbed_level c d) (undisturbed_pure _ d)

theorem pins_handleAll (handlers : List Call) (d : Ports) :
    (handleAll handle handlers d).pins = meanings handlers d.pins := by
  induction handlers generalizing d with
  | nil => rfl
  | cons i handlers ih =>
      have hfirst : (i.handle d).pins = i.meaning d.pins := by
        rw [handle_eq, pins_effect]
      exact (ih (i.handle d)).trans (congrArg (meanings handlers) hfirst)

theorem undisturbed_runCalls (calls : List Call) (d : Ports) :
    exists d', Undisturbed handle (fun i => forall c, c ∈ calls -> Apart c i)
      (runCalls port calls) d
        (replies calls d.pins) d' ∧ d'.pins = meanings calls d.pins := by
  induction calls generalizing d with
  | nil => exact ⟨d, undisturbed_pure [] d, rfl⟩
  | cons c calls ih =>
      obtain ⟨d', hrest, hpins⟩ := ih (c.effect d)
      rw [pins_effect] at hrest hpins
      refine ⟨d', ?_, hpins⟩
      refine undisturbed_bind (undisturbed_mono (fun i hi => hi c List.mem_cons_self)
        (undisturbed_run c d)) ?_
      refine undisturbed_bind (undisturbed_mono (fun i hi c hc => hi c (List.mem_cons_of_mem _ hc))
        hrest) ?_
      exact undisturbed_pure _ d'

/-- Whatever is called on any pins, and whatever handlers run between any two accesses, as
long as they drive other pins and do not make pins of the same port outputs: each `level`
returns what the caller itself gave the pin last, and the pins end up as if the calls had
been made first and the handlers had come after. -/
theorem calls_refine_pins (d : Ports) (due : List (List Call)) {calls : List Call}
    (h : forall i, i ∈ due.flatten -> forall c, c ∈ calls -> Apart c i) :
    exists served s, due.flatten = served ++ s.due.flatten ∧
      Yields (runCalls port calls) { device := d, due } (replies calls d.pins) s ∧
      s.device.pins = meanings served (meanings calls d.pins) := by
  obtain ⟨d', hrun, hpins⟩ := undisturbed_runCalls calls d
  obtain ⟨served, rest, hsplit, hyields⟩ := hrun [] due h
  refine ⟨served, _, hsplit, hyields, ?_⟩
  rw [List.nil_append, pins_handleAll, hpins]

/-- Every pin an input, and low. -/
def reset : Ports where
  latch _ := 0#32
  direction _ := 0#32

def setHighA (pin : Fin 32) : Call := ⟨⟨.gpioA, pin⟩, .setHighLinear⟩

/-- A handler sets pin 4 of the same port while pin 3 is made an output. -/
theorem calls_refine_pins_sharedPort :
    exists served s, [[], [⟨⟨.gpioA, 4⟩, .setHigh⟩]].flatten = served ++ s.due.flatten ∧
      Yields (runCalls port [setHighA 3, ⟨⟨.gpioA, 3⟩, .level⟩])
        { device := reset, due := [[], [⟨⟨.gpioA, 4⟩, .setHigh⟩]] } [none, some true] s ∧
      s.device.pins = meanings served
        (meanings [setHighA 3, ⟨⟨.gpioA, 3⟩, .level⟩] reset.pins) := by
  refine calls_refine_pins reset [[], [⟨⟨.gpioA, 4⟩, .setHigh⟩]] ?_
  intro i hi c hc
  have hhandler : i = ⟨⟨.gpioA, 4⟩, .setHigh⟩ := List.mem_singleton.mp hi
  subst hhandler
  have hpin : c.guard = ⟨.gpioA, 3⟩ := by
    rcases List.mem_cons.mp hc with hc | hc
    · rw [hc]
      rfl
    · rw [List.mem_singleton.mp hc]
  refine ⟨?_, fun _ hlinear => ?_⟩
  · rw [hpin]
    decide
  · cases hlinear

/-- A handler that makes another pin of the port an output just then is lost. -/
example :
    ((finalState (Call.run port (setHighA 3)
      { device := { device := reset, due := [[], [setHighA 4]] }, trace := [] })).device.device.pins
        ⟨.gpioA, 4⟩).output = false := by
  decide

end Call

end Gpio
end Drivers
end HolyRust
