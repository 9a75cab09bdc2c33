import HolyRust.Platform

/-!
# Capability registry

One bit per hardware resource, eight words in all.  The address maps of the two
targets name the resource behind a peripheral address; `checkAccess` is the
parse-time access rule built on them.
-/

namespace HolyRust
namespace Capabilities

/-- `WORDS = MAX_RESOURCES / 32`. -/
def registryWords : Nat := 8

/-- Contents of `REGISTRY_BITS`.  Bit set = resource claimed. -/
abbrev Registry : Type := Fin registryWords -> Word

/-- Hardware resource identifiers. -/
inductive CapId where
  | gpioA
  | gpioB
  | uart0
  | spi0
  | i2c0
  | timer0
  | dma0
  | superUser
deriving DecidableEq, Repr

/-- The bit position of a resource (`cap_id as usize`). -/
def CapId.index : CapId -> Nat
  | .gpioA => 0
  | .gpioB => 1
  | .uart0 => 2
  | .spi0 => 3
  | .i2c0 => 4
  | .timer0 => 5
  | .dma0 => 6
  | .superUser => 31

/-!
## Bitfield operations
-/

/-- `REGISTRY_BITS.0.get(i)`. -/
def Registry.get? (r : Registry) (i : Nat) : Option Word :=
  if h : i < registryWords then some (r ⟨i, h⟩) else none

/-- Replace word `i`; out of range nothing is written. -/
def Registry.put (r : Registry) (i : Nat) (w : Word) : Registry :=
  fun j => if j.val = i then w else r j

/-- True when no owner holds `resourceId`. -/
@[irreducible] def available (r : Registry) (resourceId : Nat) : Bool :=
  match r.get? (resourceId / 32) with
  | some w => w &&& (1#32 <<< (resourceId % 32)) == 0#32
  | none => false

/-- True when `resourceId` is claimed. -/
def isClaimed (r : Registry) (resourceId : Nat) : Bool :=
  !available r resourceId

/-- Test-and-set of the bit of `resourceId`; false if it was set already. -/
def acquire (r : Registry) (resourceId : Nat) : Bool × Registry :=
  match r.get? (resourceId / 32) with
  | some w =>
      let mask := 1#32 <<< (resourceId % 32)
      (w &&& mask == 0#32, r.put (resourceId / 32) (w ||| mask))
  | none => (false, r)

/-- Clear the bit of `resourceId`. -/
def release (r : Registry) (resourceId : Nat) : Registry :=
  match r.get? (resourceId / 32) with
  | some w => r.put (resourceId / 32) (w &&& ~~~(1#32 <<< (resourceId % 32)))
  | none => r

/-- Returns true when the SuperUser capability is currently claimed. -/
def isSuperuserActive (r : Registry) : Bool :=
  !available r CapId.superUser.index

/-!
## The registry bit by bit
-/

/-- `MAX_RESOURCES`. -/
def maxResources : Nat := 256

/-- The bit of `resourceId`. -/
def Registry.bit (r : Registry) (resourceId : Nat) : Bool :=
  match r.get? (resourceId / 32) with
  | some w => w.getLsbD (resourceId % 32)
  | none => false

theorem getLsbD_one_shiftLeft {w s b : Nat} (hb : b < w) :
    (1#w <<< s).getLsbD b = decide (b = s) := by
  rw [BitVec.getLsbD_shiftLeft, BitVec.getLsbD_one]
  by_cases hlt : b < s
  · simp [hlt, show ¬ b = s by lia]
  · by_cases heq : b = s
    · simp [heq, show s < w by lia, show 0 < w by lia]
    · simp [hlt, heq, show ¬ b - s = 0 by lia]

theorem wordIndex_lt {id : Nat} (h : id < maxResources) : id / 32 < registryWords := by
  unfold maxResources at h
  unfold registryWords
  lia

theorem get?_of_lt {r : Registry} {id : Nat} (h : id < maxResources) :
    r.get? (id / 32) = some (r ⟨id / 32, wordIndex_lt h⟩) := by
  unfold Registry.get?
  rw [dif_pos]

/-- A bit of the word that `id` is in. -/
theorem bit_of_word {r : Registry} {id k : Nat} (hid : id < maxResources)
    (h : k / 32 = id / 32) :
    r.bit k = (r ⟨id / 32, wordIndex_lt hid⟩).getLsbD (k % 32) := by
  unfold Registry.bit
  rw [h, get?_of_lt hid]

theorem and_one_shiftLeft_eq_zero {w : Word} {k : Nat} (hk : k < 32) :
    (w &&& (1#32 <<< k) == 0#32) = !w.getLsbD k := by
  rw [Bool.eq_iff_iff, beq_iff_eq, Bool.not_eq_true', Bool.eq_false_iff]
  constructor
  · intro h hbit
    have hk' := congrArg (BitVec.getLsbD · k) h
    simp [getLsbD_one_shiftLeft hk, hbit] at hk'
  · intro hbit
    apply BitVec.eq_of_getLsbD_eq
    intro i hi
    rw [BitVec.getLsbD_and, getLsbD_one_shiftLeft hi, BitVec.getLsbD_zero]
    by_cases hik : i = k
    · subst hik
      simpa using hbit
    · simp [hik]

theorem available_eq_bit {r : Registry} {id : Nat} (h : id < maxResources) :
    available r id = !r.bit id := by
  unfold available Registry.bit
  rw [get?_of_lt h]
  exact and_one_shiftLeft_eq_zero (Nat.mod_lt _ (by decide))

/-- Replacing a word changes its bits only. -/
theorem bit_put {r : Registry} {i k : Nat} {w : Word} (hk : k < maxResources) :
    (r.put i w).bit k = if k / 32 = i then w.getLsbD (k % 32) else r.bit k := by
  unfold Registry.bit
  rw [get?_of_lt hk, get?_of_lt hk]
  unfold Registry.put
  by_cases h : k / 32 = i
  · simp [h]
  · simp [h]

theorem bit_acquire {r : Registry} {id k : Nat} (hid : id < maxResources)
    (hk : k < maxResources) : (acquire r id).2.bit k = (r.bit k || decide (k = id)) := by
  unfold acquire
  rw [get?_of_lt hid]
  simp only [bit_put hk]
  by_cases hword : k / 32 = id / 32
  · rw [if_pos hword, BitVec.getLsbD_or, getLsbD_one_shiftLeft (Nat.mod_lt _ (by decide)),
      bit_of_word hid hword]
    congr 2
    rw [eq_iff_iff]
    lia
  · have hne : k ≠ id := fun heq => hword (by rw [heq])
    rw [if_neg hword, decide_eq_false hne, Bool.or_false]

theorem bit_release {r : Registry} {id k : Nat} (hid : id < maxResources)
    (hk : k < maxResources) : (release r id).bit k = (r.bit k && decide (k ≠ id)) := by
  unfold release
  rw [get?_of_lt hid]
  simp only [bit_put hk]
  by_cases hword : k / 32 = id / 32
  · have hmod : k % 32 < 32 := Nat.mod_lt _ (by decide)
    rw [if_pos hword, BitVec.getLsbD_and, BitVec.getLsbD_not, getLsbD_one_shiftLeft hmod,
      bit_of_word hid hword, decide_eq_true hmod, Bool.true_and, ← decide_not]
    congr 2
    rw [eq_iff_iff]
    lia
  · have hne : k ≠ id := fun heq => hword (by rw [heq])
    rw [if_neg hword, decide_eq_true hne, Bool.and_true]

/-!
## Address maps
-/

/-- `lo..=hi` as a range pattern on an address. -/
@[irreducible] def inRange (lo hi : Nat) (addr : Word) : Bool :=
  decide (lo ≤ addr.toNat) && decide (addr.toNat ≤ hi)

/-- The first row of an address map whose range holds `addr`. -/
def addrLookup (map : List (Nat × Nat × CapId)) (addr : Word) : Option CapId :=
  (map.find? fun row => inRange row.1 row.2.1 addr).map fun row => row.2.2

/-- STM32F405 peripheral ranges. -/
def armAddrMap : List (Nat × Nat × CapId) :=
  [(0x40020000, 0x400203FF, .gpioA),
    (0x40020400, 0x400207FF, .gpioB),
    (0x40011000, 0x400113FF, .uart0),
    (0x40013000, 0x400133FF, .spi0),
    (0x40015400, 0x400157FF, .i2c0),
    (0x40000000, 0x400003FF, .timer0),
    (0x40002000, 0x400023FF, .dma0)]

/-- SiFive FE310 peripheral ranges. -/
def riscvAddrMap : List (Nat × Nat × CapId) :=
  [(0x10012000, 0x10012FFF, .gpioA),
    (0x10013000, 0x10013FFF, .uart0),
    (0x10014000, 0x10014FFF, .spi0),
    (0x10020000, 0x10020FFF, .i2c0),
    (0x10015000, 0x10015FFF, .timer0),
    (0x10000000, 0x10000FFF, .dma0)]

/-- Physical address to resource; `none` outside every peripheral region. -/
def addrToCapId : Target -> Word -> Option CapId
  | .arm, addr => addrLookup armAddrMap addr
  | .riscv32, addr => addrLookup riscvAddrMap addr

/-- The RAM and flash windows that need no capability. -/
def isRamFlash : Target -> Word -> Bool
  | .arm, addr =>
      inRange 0x08000000 0x080FFFFF addr || inRange 0x20000000 0x2001C000 addr
  | .riscv32, addr =>
      inRange 0x20000000 0x2000FFFF addr || inRange 0x80000000 0x8000FFFF addr

/-- Parse-time access rule: `Ok`, or the resource that is missing. -/
def checkAccess (t : Target) (r : Registry) (addr : Word) : Except CapId Unit :=
  if isSuperuserActive r then
    .ok ()
  else
    match addrToCapId t addr with
    | some capId =>
        if !isClaimed r capId.index then .error capId else .ok ()
    | none =>
        if isRamFlash t addr then .ok () else .error .superUser

/-- `checkAccess` answers `Ok`. -/
def Accessible (t : Target) (r : Registry) (addr : Word) : Prop :=
  checkAccess t r addr = .ok ()

instance (t : Target) (r : Registry) (addr : Word) :
    Decidable (Accessible t r addr) :=
  inferInstanceAs (Decidable (checkAccess t r addr = .ok ()))

end Capabilities
end HolyRust
