import HolyRust.Foundation.RegisterBits
import HolyRust.Drivers.Peripherals

/-!
# Serial output

Everything that the kernel prints goes through `put_byte`.  On ARM it polls the status
register until the transmitter has room for a byte; on RISC-V it writes without a look
at the full flag.
-/

namespace HolyRust
namespace Drivers
namespace Serial

open Foundation

def sr : Word := 0x40011000#32
def dr : Word := 0x40011004#32
def cr1 : Word := 0x4001100C#32
def txdata : Word := 0x10013000#32

def srTxe : Word := 1#32 <<< 7
def cr1Ue : Word := 1#32 <<< 13
def cr1Te : Word := 1#32 <<< 3
def cr1Re : Word := 1#32 <<< 2

def init (t : Target) (bus : Bus Word Word σ) : DriverM σ Unit :=
  match t with
  | .arm => do
      let v <- busRead bus cr1
      busWrite bus cr1 (v ||| cr1Ue ||| cr1Te ||| cr1Re)
  | .riscv32 => pure ()

def putByte (t : Target) (bus : Bus Word Word σ) (fuel : Nat) (byte : Byte) : DriverM σ Unit :=
  match t with
  | .arm => do
      let _ <- busWait bus (fun v => v &&& srTxe != 0#32) sr fuel
      busWrite bus dr (byte.setWidth 32)
  -- real silicon would poll the full flag
  | .riscv32 => busWrite bus txdata (byte.setWidth 32)

def writeStr (t : Target) (bus : Bus Word Word σ) (fuel : Nat) : List Byte -> DriverM σ Unit
  | [] => pure ()
  | byte :: bytes => do
      putByte t bus fuel byte
      writeStr t bus fuel bytes

/-!
## ARM: USART1
-/

/-- The transmit side of the USART: the byte in its data register, for how many more polls
it stays there, and the line.  `flags` are the other bits of the status register. -/
structure Usart where
  control : Word
  holding : Option Byte
  pollsLeft : Nat
  line : List Byte
  writes : Nat
  flags : Word

namespace Usart

/-- A transmitter that is switched off ignores what it is given. -/
def transmits (u : Usart) : Bool :=
  u.control.getLsbD 13 && u.control.getLsbD 3

/-- The bytes that have left or are about to. -/
def output (u : Usart) : List Byte :=
  u.line ++ u.holding.toList

def status (u : Usart) : Word :=
  (u.flags &&& ~~~srTxe) ||| (if u.holding = none then srTxe else 0#32)

/-- A poll takes time. -/
def pass (u : Usart) : Usart :=
  match u.holding, u.pollsLeft with
  | none, _ => u
  | some byte, 0 => { u with holding := none, line := u.line ++ [byte] }
  | some _, polls + 1 => { u with pollsLeft := polls }

/-- A byte written before the last one has gone takes its place. -/
def give (polls : Nat -> Nat) (u : Usart) (byte : Byte) : Usart :=
  if u.transmits then
    { u with holding := some byte, pollsLeft := polls u.writes, writes := u.writes + 1 }
  else u

/-- `polls` says how long each byte stays. -/
def bus (polls : Nat -> Nat) : Bus Word Word Usart where
  load u a :=
    if a = sr then (u.status, u.pass)
    else if a = cr1 then (u.control, u)
    else (0#32, u)
  store u a v :=
    if a = dr then u.give polls (v.setWidth 8)
    else if a = cr1 then { u with control := v }
    else u

variable (polls : Nat -> Nat)

theorem load_sr (u : Usart) : (bus polls).load u sr = (u.status, u.pass) := rfl

theorem load_cr1 (u : Usart) : (bus polls).load u cr1 = (u.control, u) := rfl

theorem store_dr (u : Usart) (v : Word) :
    (bus polls).store u dr v = u.give polls (v.setWidth 8) := rfl

theorem store_cr1 (u : Usart) (v : Word) :
    (bus polls).store u cr1 v = { u with control := v } := rfl

theorem ready_status (u : Usart) : (u.status &&& srTxe != 0#32) = u.holding.isNone := by
  have hbit : u.status.getLsbD 7 = u.holding.isNone := by
    unfold status srTxe
    rw [BitVec.getLsbD_or, BitVec.getLsbD_and, BitVec.getLsbD_not, getLsbD_bit (by decide)]
    cases u.holding with
    | none => simp
    | some byte => simp
  by_cases hnone : u.holding.isNone = true
  · rw [hnone, bne_iff_ne, srTxe, and_bit_ne_zero_iff _ (by decide), hbit, hnone]
  · rw [Bool.not_eq_true] at hnone
    rw [hnone, bne_eq_false_iff_eq, srTxe, and_bit_eq_zero_iff _ (by decide), hbit, hnone]

/-- The wait for room, up to the value that it reads. -/
def Room (fuel : Nat) (u u' : Usart) : Prop :=
  exists v, Yields (busWait (bus polls) (fun v => v &&& srTxe != 0#32) sr fuel) u v u'

theorem room_of_empty {u : Usart} {fuel : Nat} (hfuel : 0 < fuel) (hempty : u.holding = none) :
    Room polls fuel u u := by
  obtain ⟨fuel, rfl⟩ := Nat.exists_eq_add_one_of_ne_zero (Nat.ne_of_gt hfuel)
  have hready : (((bus polls).load u sr).1 &&& srTxe != 0#32) = true := by
    rw [load_sr, ready_status, hempty]
    rfl
  have hpass : u.pass = u := by
    unfold pass
    rw [hempty]
  have hwait : Yields (busWait (bus polls) (fun v => v &&& srTxe != 0#32) sr (fuel + 1)) u _ _ :=
    yields_wait_ready fuel hready
  rw [load_sr, hpass] at hwait
  exact ⟨_, hwait⟩

/-- A poll that finds no room. -/
theorem room_of_pass {u u' : Usart} {fuel : Nat} (hfull : u.holding.isNone = false)
    (hrest : Room polls fuel u.pass u') : Room polls (fuel + 1) u u' := by
  obtain ⟨v, hrest⟩ := hrest
  have hbusy : (((bus polls).load u sr).1 &&& srTxe != 0#32) = false := by
    rw [load_sr, ready_status, hfull]
  exact ⟨v, yields_wait_again hbusy hrest⟩

/-- The wait sees the byte off that is in the way. -/
theorem room_of_holding {u : Usart} {byte : Byte} {fuel : Nat} (hfuel : u.pollsLeft + 1 < fuel)
    (hholding : u.holding = some byte) :
    Room polls fuel u { u with holding := none, pollsLeft := 0, line := u.line ++ [byte] } := by
  have hfull : u.holding.isNone = false := by
    rw [hholding]
    rfl
  obtain ⟨fuel, rfl⟩ := Nat.exists_eq_add_one_of_ne_zero (Nat.ne_of_gt (Nat.zero_lt_of_lt hfuel))
  refine room_of_pass polls hfull ?_
  induction hleft : u.pollsLeft generalizing u fuel with
  | zero =>
      have hpass :
          u.pass = { u with holding := none, pollsLeft := 0, line := u.line ++ [byte] } := by
        unfold pass
        rw [hholding, hleft]
      rw [hpass]
      exact room_of_empty polls (by lia) rfl
  | succ left ih =>
      obtain ⟨fuel, rfl⟩ := Nat.exists_eq_add_one_of_ne_zero (n := fuel) (by lia)
      have hpass : u.pass = { u with pollsLeft := left } := by
        unfold pass
        rw [hholding, hleft]
      rw [hpass]
      have hlater : left + 1 < fuel + 1 := by lia
      exact room_of_pass polls hfull
        (ih (u := { u with pollsLeft := left }) hholding hfull fuel hlater rfl)

theorem yields_room {u : Usart} {fuel : Nat} (hfuel : u.pollsLeft + 1 < fuel) :
    exists u', Room polls fuel u u' ∧ u'.holding = none ∧ u'.line = u.output ∧
      u'.control = u.control ∧ u'.pollsLeft + 1 < fuel := by
  cases hholding : u.holding with
  | none =>
      refine ⟨u, room_of_empty polls (by lia) hholding, hholding, ?_, rfl, hfuel⟩
      rw [output, hholding, Option.toList_none, List.append_nil]
  | some byte =>
      refine ⟨_, room_of_holding polls hfuel hholding, rfl, ?_, rfl, by lia⟩
      rw [output, hholding, Option.toList_some]

/-- What of a text gets through. -/
def accepted (u : Usart) (text : List Byte) : List Byte :=
  if u.transmits then text else []

theorem output_give (u : Usart) (hempty : u.holding = none) (byte : Byte) :
    (u.give polls byte).output = u.line ++ u.accepted [byte] := by
  unfold give accepted output
  by_cases hon : u.transmits = true
  · rw [if_pos hon, if_pos hon]
    rfl
  · rw [if_neg hon, if_neg hon, hempty]
    rfl

theorem transmits_give (u : Usart) (byte : Byte) :
    (u.give polls byte).transmits = u.transmits := by
  unfold give
  split <;> rfl

theorem pollsLeft_give {fuel : Nat} (hpolls : forall n, polls n + 1 < fuel) {u : Usart}
    (hleft : u.pollsLeft + 1 < fuel) (byte : Byte) : (u.give polls byte).pollsLeft + 1 < fuel := by
  unfold give
  split
  · exact hpolls u.writes
  · exact hleft

/-- A byte goes out after all the bytes before it. -/
theorem yields_putByte {u : Usart} {fuel : Nat} (hpolls : forall n, polls n + 1 < fuel)
    (hleft : u.pollsLeft + 1 < fuel) (byte : Byte) :
    exists u', Yields (putByte .arm (bus polls) fuel byte) u () u' ∧
      u'.output = u.output ++ u.accepted [byte] ∧ u'.transmits = u.transmits ∧
      u'.pollsLeft + 1 < fuel := by
  obtain ⟨u', ⟨v, hroom⟩, hempty, hline, hcontrol, hleft'⟩ := yields_room polls hleft
  have hsame : u'.transmits = u.transmits := by
    unfold transmits
    rw [hcontrol]
  refine ⟨_, yields_bind hroom (yields_write _ dr _ _), ?_⟩
  rw [store_dr, byte_of_word]
  refine ⟨?_, (transmits_give polls u' byte).trans hsame, pollsLeft_give polls hpolls hleft' byte⟩
  rw [output_give polls u' hempty, hline]
  unfold accepted
  rw [hsame]

theorem accepted_append (u : Usart) (text text' : List Byte) :
    u.accepted text ++ u.accepted text' = u.accepted (text ++ text') := by
  unfold accepted
  split <;> rfl

theorem yields_writeStr {u : Usart} {fuel : Nat} (hpolls : forall n, polls n + 1 < fuel)
    (hleft : u.pollsLeft + 1 < fuel) (text : List Byte) :
    exists u', Yields (writeStr .arm (bus polls) fuel text) u () u' ∧
      u'.output = u.output ++ u.accepted text ∧ u'.transmits = u.transmits ∧
      u'.pollsLeft + 1 < fuel := by
  induction text generalizing u with
  | nil =>
      refine ⟨u, yields_pure () u, ?_, rfl, hleft⟩
      unfold accepted
      rw [ite_self, List.append_nil]
  | cons byte text ih =>
      obtain ⟨u', hfirst, houtput, hsame, hleft'⟩ := yields_putByte polls hpolls hleft byte
      obtain ⟨u'', hrest, houtput', hsame', hleft''⟩ := ih hleft'
      refine ⟨u'', yields_bind hfirst hrest, ?_, hsame'.trans hsame, hleft''⟩
      have haccepted : u'.accepted text = u.accepted text := by
        unfold accepted
        rw [hsame]
      rw [houtput', houtput, haccepted, List.append_assoc, accepted_append, List.singleton_append]

theorem yields_init (u : Usart) :
    exists u', Yields (init .arm (bus polls)) u () u' ∧
      u'.output = u.output ∧ u'.transmits = true ∧ u'.pollsLeft = u.pollsLeft := by
  refine ⟨_, yields_bind (yields_read _ cr1 u) (yields_write _ cr1 _ _), ?_⟩
  rw [load_cr1, store_cr1]
  refine ⟨rfl, ?_, rfl⟩
  unfold transmits cr1Ue cr1Te cr1Re
  simp

/-- The console as `kmain` uses it. -/
def console (t : Target) (bus : Bus Word Word σ) (fuel : Nat) (text : List Byte) :
    DriverM σ Unit := do
  init t bus
  writeStr t bus fuel text

/-- Once `uart::init` has run, everything that is printed arrives, in order and after what
was on its way, however long each byte takes; without it nothing arrives at all. -/
theorem printed_arrives {u : Usart} {fuel : Nat} (hpolls : forall n, polls n + 1 < fuel)
    (hleft : u.pollsLeft + 1 < fuel) (text : List Byte) :
    (exists u', Yields (console .arm (bus polls) fuel text) u () u' ∧
      u'.output = u.output ++ text) ∧
    (u.transmits = false -> exists u', Yields (writeStr .arm (bus polls) fuel text) u () u' ∧
      u'.output = u.output) := by
  constructor
  · obtain ⟨u', hinit, houtput, hon, hleft'⟩ := yields_init polls u
    obtain ⟨u'', hwrite, houtput', _⟩ := yields_writeStr polls hpolls (hleft' ▸ hleft) text
    refine ⟨u'', yields_bind hinit hwrite, ?_⟩
    rw [houtput', houtput, accepted, if_pos hon]
  · intro hoff
    obtain ⟨u', hwrite, houtput, _⟩ := yields_writeStr polls hpolls hleft text
    refine ⟨u', hwrite, ?_⟩
    rw [houtput, accepted, if_neg (by rw [hoff]; decide), List.append_nil]

/-- A USART as after reset: off, with nothing to send. -/
def reset : Usart where
  control := 0#32
  holding := none
  pollsLeft := 0
  line := []
  writes := 0
  flags := 0x40#32

theorem printed_arrives_ok :
    exists u', Yields (console .arm (bus (· % 3)) 4 (ascii "ok")) reset () u' ∧
      u'.output = ascii "ok" := by
  have hpolls : forall n, n % 3 + 1 < 4 := by
    intro n
    lia
  have hleft : reset.pollsLeft + 1 < 4 := by decide
  exact (printed_arrives (· % 3) hpolls hleft (ascii "ok")).left

end Usart

/-!
## RISC-V: the transmit FIFO
-/

/-- The bytes in the FIFO and those that have left it. -/
structure TxFifo where
  waiting : List Byte
  line : List Byte
  writes : Nat
deriving DecidableEq

namespace TxFifo

def output (f : TxFifo) : List Byte :=
  f.line ++ f.waiting

/-- `n` bytes leave. -/
def drain (n : Nat) (f : TxFifo) : TxFifo :=
  { f with waiting := f.waiting.drop n, line := f.line ++ f.waiting.take n }

/-- A byte that finds the FIFO full is lost. -/
def push (depth : Nat) (f : TxFifo) (byte : Byte) : TxFifo :=
  if f.waiting.length < depth then
    { f with waiting := f.waiting ++ [byte], writes := f.writes + 1 }
  else { f with writes := f.writes + 1 }

section Writes

variable (depth : Nat) (drained : Nat -> Nat)

/-- Before write number `n` the line has time for `drained n` bytes. -/
def bus : Bus Word Word TxFifo where
  load f _ := (0#32, f)
  store f a v := if a = txdata then (f.drain (drained f.writes)).push depth (v.setWidth 8) else f

theorem store_txdata (f : TxFifo) (v : Word) :
    (bus depth drained).store f txdata v =
      (f.drain (drained f.writes)).push depth (v.setWidth 8) := rfl

theorem output_drain (n : Nat) (f : TxFifo) : (f.drain n).output = f.output := by
  unfold output drain
  rw [List.append_assoc, List.take_append_drop]

/-- None of `n` writes finds the FIFO full that holds `level` bytes before write number `k`. -/
def RoomFor : Nat -> Nat -> Nat -> Prop
  | _, _, 0 => True
  | level, k, n + 1 => level - drained k < depth ∧ RoomFor (level - drained k + 1) (k + 1) n

theorem yields_putByte (f : TxFifo) (fuel : Nat) (byte : Byte) :
    Yields (putByte .riscv32 (bus depth drained) fuel byte) f ()
      ((f.drain (drained f.writes)).push depth byte) := by
  have hwrite := yields_write (bus depth drained) txdata (byte.setWidth 32) f
  rw [store_txdata, byte_of_word] at hwrite
  exact hwrite

theorem length_drain (n : Nat) (f : TxFifo) :
    (f.drain n).waiting.length = f.waiting.length - n :=
  List.length_drop

/-- On RISC-V what arrives of a text is in order, and all of it arrives exactly when no
write finds the FIFO full. -/
theorem printed_arrives_iff_roomFor (f : TxFifo) (fuel : Nat) (text : List Byte) :
    exists f' kept, Yields (writeStr .riscv32 (bus depth drained) fuel text) f () f' ∧
      f'.output = f.output ++ kept ∧ kept.Sublist text ∧
      (kept = text ↔ RoomFor depth drained f.waiting.length f.writes text.length) := by
  induction text generalizing f with
  | nil =>
      refine ⟨f, [], yields_pure () f, (List.append_nil _).symm, List.Sublist.refl _, ?_⟩
      exact iff_of_true rfl trivial
  | cons byte text ih =>
      obtain ⟨f', kept, hrest, houtput, hkept, hiff⟩ :=
        ih ((f.drain (drained f.writes)).push depth byte)
      have hrun : Yields (writeStr .riscv32 (bus depth drained) fuel (byte :: text)) f () f' :=
        yields_bind (yields_putByte depth drained f fuel byte) hrest
      by_cases hroom : (f.drain (drained f.writes)).waiting.length < depth
      · refine ⟨f', byte :: kept, hrun, ?_, hkept.cons_cons byte, ?_⟩
        · rw [houtput, push, if_pos hroom]
          show (f.drain (drained f.writes)).line ++ (_ ++ [byte]) ++ kept = _
          rw [← List.append_assoc, List.append_assoc, List.singleton_append]
          exact congrArg (· ++ byte :: kept) (output_drain _ f)
        · rw [push, if_pos hroom, List.length_append, length_drain] at hiff
          rw [length_drain] at hroom
          show byte :: kept = byte :: text ↔ _ ∧ RoomFor _ _ _ _ _
          rw [List.cons_inj_right, hiff]
          exact (and_iff_right hroom).symm
      · refine ⟨f', kept, hrun, ?_, hkept.cons byte, ?_⟩
        · rw [houtput, push, if_neg hroom]
          exact congrArg (· ++ kept) (output_drain _ f)
        · -- One byte is missing already.
          rw [length_drain] at hroom
          refine iff_of_false ?_ (fun hfits => hroom hfits.left)
          intro hall
          have hlength := hkept.length_le
          rw [hall, List.length_cons] at hlength
          exact Nat.not_succ_le_self _ hlength

/-- Nine bytes at once are one too many for a FIFO of eight. -/
example : ¬ RoomFor 8 (fun _ => 0) 0 0 9 := by
  simp [RoomFor]

end Writes

end TxFifo
end Serial
end Drivers
end HolyRust
