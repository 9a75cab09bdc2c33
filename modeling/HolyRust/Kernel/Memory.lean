import HolyRust.Foundation.Program
import HolyRust.Capabilities.Registry
import HolyRust.Capabilities.Audit

/-!
# Volatile memory access

The kernel's state is one flat memory and the audit log.  The capability
registry has no storage of its own: it is the eight words of that memory at the
link address of `REGISTRY_BITS`.
-/

namespace HolyRust
namespace Kernel

open Foundation
open Capabilities

structure Machine where
  mem : Mem
  audit : AuditLog

namespace Machine

/-- Address of word `i` of `REGISTRY_BITS`. -/
def registryAddr (t : Target) (i : Nat) : Word :=
  t.registryBase + BitVec.ofNat 32 (4 * i)

/-- The registry as the atomics read it from memory. -/
def registry (t : Target) (m : Machine) : Registry :=
  fun i => m.mem.read32 (registryAddr t i.val)

/-- All memory and the audit log zero. -/
def blank : Machine where
  mem := fun _ => 0#8
  audit := AuditLog.new

end Machine

/-- Failure of an enforced access. -/
inductive MemError where
  | capabilityViolation
  | permissionDenied
deriving DecidableEq, Repr

/-!
## Raw and enforced access
-/

def peekU32 (m : Machine) (addr : Word) : Word :=
  m.mem.read32 addr

def pokeU32 (m : Machine) (addr value : Word) : Machine :=
  { m with mem := m.mem.write32 addr value }

def enforcedPokeU32 (t : Target) (cycles addr value : Word) :
    EStateM MemError Machine Unit := do
  let m <- get
  if isSuperuserActive (m.registry t) then
    set { m with audit := m.audit.recordEvent cycles addr value }
  else
    match addrToCapId t addr with
    | some capId =>
        if !isClaimed (m.registry t) capId.index then
          throw .capabilityViolation
    | none => pure ()
  modify fun m => pokeU32 m addr value

def enforcedPeekU32 (t : Target) (addr : Word) :
    EStateM MemError Machine Word := do
  let m <- get
  if isSuperuserActive (m.registry t) then
    pure ()
  else
    match addrToCapId t addr with
    | some capId =>
        if !isClaimed (m.registry t) capId.index then
          throw .capabilityViolation
    | none => pure ()
  pure (peekU32 m addr)

/-!
## What an enforced access does

The guard of both functions is the same: `passes` is the condition under which
it lets the access through.  A refused access leaves the machine as it was.
-/

def passes (t : Target) (r : Registry) (addr : Word) : Bool :=
  isSuperuserActive r ||
    match addrToCapId t addr with
    | some capId => isClaimed r capId.index
    | none => true

/-- The audit record a poke leaves behind, if any. -/
def logged (t : Target) (cycles addr value : Word) (m : Machine) : Machine :=
  if isSuperuserActive (m.registry t) then
    { m with audit := m.audit.recordEvent cycles addr value }
  else
    m

theorem passes_of_superuser {t : Target} {r : Registry}
    (h : isSuperuserActive r = true) (addr : Word) :
    passes t r addr = true := by
  unfold passes
  rw [h, Bool.true_or]

theorem passes_of_addrToCapId_none {t : Target} {addr : Word}
    (h : addrToCapId t addr = none) (r : Registry) :
    passes t r addr = true := by
  unfold passes
  rw [h, Bool.or_true]

theorem passes_of_addrToCapId_some {t : Target} {r : Registry} {addr : Word}
    {capId : CapId} (hsuper : isSuperuserActive r = false)
    (h : addrToCapId t addr = some capId) :
    passes t r addr = isClaimed r capId.index := by
  unfold passes
  rw [hsuper, h, Bool.false_or]

theorem enforcedPokeU32_eq (t : Target) (cycles addr value : Word) (m : Machine) :
    enforcedPokeU32 t cycles addr value m =
      if passes t (m.registry t) addr then
        .ok () (pokeU32 (logged t cycles addr value m) addr value)
      else
        .error .capabilityViolation m := by
  simp only [enforcedPokeU32, logged, bind_apply, get_apply]
  cases hsuper : isSuperuserActive (m.registry t) with
  | true =>
      rw [passes_of_superuser hsuper]
      simp [set_apply]
  | false =>
      cases hcap : addrToCapId t addr with
      | none =>
          rw [passes_of_addrToCapId_none hcap]
          simp [modify_apply]
      | some capId =>
          rw [passes_of_addrToCapId_some hsuper hcap]
          cases hclaimed : isClaimed (m.registry t) capId.index <;>
            simp [hclaimed, bind_apply, throw_apply, modify_apply]

theorem enforcedPeekU32_eq (t : Target) (addr : Word) (m : Machine) :
    enforcedPeekU32 t addr m =
      if passes t (m.registry t) addr then
        .ok (peekU32 m addr) m
      else
        .error .capabilityViolation m := by
  simp only [enforcedPeekU32, bind_apply, get_apply]
  cases hsuper : isSuperuserActive (m.registry t) with
  | true =>
      rw [passes_of_superuser hsuper]
      simp [pure_apply]
  | false =>
      cases hcap : addrToCapId t addr with
      | none =>
          rw [passes_of_addrToCapId_none hcap]
          simp [pure_apply]
      | some capId =>
          rw [passes_of_addrToCapId_some hsuper hcap]
          cases hclaimed : isClaimed (m.registry t) capId.index <;>
            simp [-bind_pure_comp, hclaimed, bind_apply, throw_apply, pure_apply]

/-!
## The two enforcement layers

`LayersAgree` is what the two-layer design asks for: the parse-time rule and the
run-time guards accept the same accesses, and a refusal names its reason and
changes nothing.  The run-time guards have no rule for unmapped addresses, so
the layers agree on an unmapped address only under SuperUser.
-/

/-- The error a refusal at `addr` has to carry. -/
def refusal (t : Target) (addr : Word) : MemError :=
  match addrToCapId t addr with
  | some _ => .capabilityViolation
  | none => .permissionDenied

structure LayersAgree (t : Target) (cycles addr value : Word) (m : Machine) :
    Prop where
  poke_iff : Accessible t (m.registry t) addr ↔
    exists m', enforcedPokeU32 t cycles addr value m = .ok () m'
  peek_iff : Accessible t (m.registry t) addr ↔
    exists v m', enforcedPeekU32 t addr m = .ok v m'
  poke_refused : forall e m', enforcedPokeU32 t cycles addr value m = .error e m' ->
    e = refusal t addr ∧ m'.mem = m.mem
  peek_refused : forall e m', enforcedPeekU32 t addr m = .error e m' ->
    e = refusal t addr ∧ m'.mem = m.mem

/-- The address is in the target's peripheral map or in its RAM and flash windows. -/
def Mapped (t : Target) (addr : Word) : Prop :=
  (addrToCapId t addr).isSome = true ∨ isRamFlash t addr = true

theorem accessible_iff_passes_of_mapped {t : Target} {r : Registry} {addr : Word}
    (h : isSuperuserActive r = true ∨ Mapped t addr) :
    Accessible t r addr ↔ passes t r addr = true := by
  unfold Accessible checkAccess
  cases hsuper : isSuperuserActive r with
  | true =>
      simp [passes_of_superuser hsuper]
  | false =>
      have hmapped : Mapped t addr := by
        rcases h with h | h
        · rw [hsuper] at h
          cases h
        · exact h
      cases hcap : addrToCapId t addr with
      | some capId =>
          rw [passes_of_addrToCapId_some hsuper hcap]
          cases hclaimed : isClaimed r capId.index <;> simp [hclaimed]
      | none =>
          have hram : isRamFlash t addr = true := by
            rcases hmapped with h | h
            · rw [hcap] at h
              cases h
            · exact h
          rw [passes_of_addrToCapId_none hcap]
          simp [hram]

theorem not_accessible_of_not_mapped {t : Target} {r : Registry} {addr : Word}
    (hsuper : isSuperuserActive r = false) (h : ¬ Mapped t addr) :
    ¬ Accessible t r addr := by
  have hcap : addrToCapId t addr = none := by
    cases hc : addrToCapId t addr with
    | none => rfl
    | some capId => exact absurd (Or.inl (by rw [hc]; rfl)) h
  have hram : isRamFlash t addr = false := by
    cases hr : isRamFlash t addr with
    | false => rfl
    | true => exact absurd (Or.inr hr) h
  unfold Accessible checkAccess
  simp [hsuper, hcap, hram]

theorem refusal_of_not_passes {t : Target} {r : Registry} {addr : Word}
    (h : passes t r addr = false) : refusal t addr = .capabilityViolation := by
  unfold refusal
  cases hcap : addrToCapId t addr with
  | some capId => rfl
  | none =>
      rw [passes_of_addrToCapId_none hcap] at h
      cases h

/-- A guard that fails has refused, and the state is as it was. -/
theorem refused_of_guard {p : Bool} {v : α} {m m' s : Machine} {e : MemError}
    (h : (if p then .ok v s else .error .capabilityViolation m :
      EStateM.Result MemError Machine α) = .error e m') :
    p = false ∧ e = .capabilityViolation ∧ m' = m := by
  cases p with
  | true => cases h
  | false =>
      cases h
      exact ⟨rfl, rfl, rfl⟩

/-- The layers agree exactly under SuperUser and on mapped addresses. -/
theorem layersAgree_iff (t : Target) (cycles addr value : Word) (m : Machine) :
    LayersAgree t cycles addr value m ↔
      isSuperuserActive (m.registry t) = true ∨ Mapped t addr := by
  constructor
  · intro hagree
    apply Classical.byContradiction
    intro hnot
    rw [not_or] at hnot
    rcases hnot with ⟨hsuper, hmapped⟩
    have hcap : addrToCapId t addr = none := by
      cases hc : addrToCapId t addr with
      | none => rfl
      | some capId => exact absurd (Or.inl (by rw [hc]; rfl)) hmapped
    have hpoke := enforcedPokeU32_eq t cycles addr value m
    rw [passes_of_addrToCapId_none hcap, if_pos rfl] at hpoke
    exact not_accessible_of_not_mapped (by simpa using hsuper) hmapped
      (hagree.poke_iff.mpr ⟨_, hpoke⟩)
  · intro h
    have hiff := accessible_iff_passes_of_mapped h
    constructor
    · rw [hiff, enforcedPokeU32_eq]
      cases hpasses : passes t (m.registry t) addr <;> simp
    · rw [hiff, enforcedPeekU32_eq]
      cases hpasses : passes t (m.registry t) addr <;> simp
    · intro e m' heq
      rw [enforcedPokeU32_eq] at heq
      obtain ⟨hpasses, rfl, rfl⟩ := refused_of_guard heq
      exact ⟨(refusal_of_not_passes hpasses).symm, rfl⟩
    · intro e m' heq
      rw [enforcedPeekU32_eq] at heq
      obtain ⟨hpasses, rfl, rfl⟩ := refused_of_guard heq
      exact ⟨(refusal_of_not_passes hpasses).symm, rfl⟩

/-- With nothing claimed, `0x5000_0000` is refused at parse time and written at run time. -/
theorem not_layersAgree_unmapped :
    ¬ LayersAgree .arm 0#32 0x50000000#32 1#32 Machine.blank := by
  intro hagree
  have hok : exists m',
      enforcedPokeU32 .arm 0#32 0x50000000#32 1#32 Machine.blank = .ok () m' := by
    rw [enforcedPokeU32_eq,
      if_pos (by decide +kernel :
        passes .arm (Machine.blank.registry .arm) 0x50000000#32 = true)]
    exact ⟨_, rfl⟩
  have hrefused : ¬ Accessible .arm (Machine.blank.registry .arm) 0x50000000#32 := by
    decide +kernel
  exact hrefused (hagree.poke_iff.mpr hok)

end Kernel
end HolyRust
