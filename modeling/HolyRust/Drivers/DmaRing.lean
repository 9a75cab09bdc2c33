import HolyRust.Foundation.Ring
import HolyRust.Foundation.Trail
import HolyRust.Platform

/-!
# Autonomous DMA ring

`AutonomousDmaRing` with `submit_transfer` cut into its accesses: the tail load, the
head load, one store for each field of the descriptor, in any order, and the tail
store.  The device takes the descriptor at the head whenever the indices differ.
`submitted` and `consumed` record what was handed over and what was taken: these two
are ghosts.
-/

namespace HolyRust
namespace Drivers

open Foundation

structure DmaDescriptor where
  srcAddr : BitVec 64
  destAddr : BitVec 64
  length : Word
  flags : Word
deriving DecidableEq

/-- The fields of a descriptor. -/
inductive DmaField where
  | srcAddr
  | destAddr
  | length
  | flags
deriving DecidableEq, Repr

namespace DmaDescriptor

def zero : DmaDescriptor := ⟨0#64, 0#64, 0#32, 0#32⟩

/-- The descriptor that `submit_transfer` writes. -/
def transfer (src dest : BitVec 64) (len : Word) : DmaDescriptor := ⟨src, dest, len, 0x01#32⟩

/-- `old` with one field taken from `d`. -/
def store (d : DmaDescriptor) (old : DmaDescriptor) : DmaField -> DmaDescriptor
  | .srcAddr => { old with srcAddr := d.srcAddr }
  | .destAddr => { old with destAddr := d.destAddr }
  | .length => { old with length := d.length }
  | .flags => { old with flags := d.flags }

/-- The fields in `done` are those of `d`. -/
def Agrees (d old : DmaDescriptor) (done : DmaField -> Bool) : Prop :=
  (done .srcAddr = true -> old.srcAddr = d.srcAddr) ∧
    (done .destAddr = true -> old.destAddr = d.destAddr) ∧
    (done .length = true -> old.length = d.length) ∧
    (done .flags = true -> old.flags = d.flags)

theorem agrees_store {d old : DmaDescriptor} {done : DmaField -> Bool} (h : d.Agrees old done)
    (f : DmaField) : d.Agrees (d.store old f) (Function.update done f true) := by
  obtain ⟨hsrc, hdest, hlength, hflags⟩ := h
  cases f with
  | srcAddr => exact ⟨fun _ => rfl, hdest, hlength, hflags⟩
  | destAddr => exact ⟨hsrc, fun _ => rfl, hlength, hflags⟩
  | length => exact ⟨hsrc, hdest, fun _ => rfl, hflags⟩
  | flags => exact ⟨hsrc, hdest, hlength, fun _ => rfl⟩

theorem eq_of_agrees {d old : DmaDescriptor} {done : DmaField -> Bool} (h : d.Agrees old done)
    (hdone : forall f, done f = true) : old = d := by
  obtain ⟨hsrc, hdest, hlength, hflags⟩ := h
  cases old
  cases d
  rw [DmaDescriptor.mk.injEq]
  exact ⟨hsrc (hdone _), hdest (hdone _), hlength (hdone _), hflags (hdone _)⟩

end DmaDescriptor

/-- Number of descriptors. -/
def dmaSlots : Nat := 128

structure AutonomousDmaRing where
  descriptors : Nat -> DmaDescriptor
  head : Nat
  tail : Nat

namespace AutonomousDmaRing

def new : AutonomousDmaRing where
  descriptors := fun _ => .zero
  head := 0
  tail := 0

def capacity (ring : AutonomousDmaRing) : Nat := (ring.head + 128 - ring.tail - 1) % 128

end AutonomousDmaRing

/-- How far a call of `submit_transfer` has got. -/
inductive SubmitState where
  | idle
  | tailLoaded (d : DmaDescriptor) (curTail : Nat)
  | writing (d : DmaDescriptor) (curTail : Nat) (done : DmaField -> Bool)

/-- The ring and its driver. -/
structure DmaSystem where
  ring : AutonomousDmaRing
  driver : SubmitState
  submitted : List DmaDescriptor
  consumed : List DmaDescriptor

def DmaSystem.new : DmaSystem where
  ring := .new
  driver := .idle
  submitted := []
  consumed := []

inductive DmaAction where
  | loadTail (src dest : BitVec 64) (len : Word)
  | loadHead
  | storeField (f : DmaField)
  | storeTail
  /-- The device takes one descriptor. -/
  | advance
deriving DecidableEq

/-- `(i + 1) % 128`. -/
def nextSlot (i : Nat) : Nat := (i + 1) % dmaSlots

namespace DmaSystem

/-- `none` where driver or device is not at that access. -/
def step (s : DmaSystem) : DmaAction -> Option DmaSystem
  | .loadTail src dest len =>
      match s.driver with
      | .idle => some { s with driver := .tailLoaded (.transfer src dest len) s.ring.tail }
      | _ => none
  | .loadHead =>
      match s.driver with
      | .tailLoaded d curTail =>
          -- a full ring: `Err(())`
          if nextSlot curTail = s.ring.head then some { s with driver := .idle }
          else some { s with driver := .writing d curTail fun _ => false }
      | _ => none
  | .storeField f =>
      match s.driver with
      | .writing d curTail done =>
          some { s with
            ring := { s.ring with
              descriptors := Function.update s.ring.descriptors curTail
                (d.store (s.ring.descriptors curTail) f) }
            driver := .writing d curTail (Function.update done f true) }
      | _ => none
  | .storeTail =>
      match s.driver with
      | .writing d curTail done =>
          if done .srcAddr && done .destAddr && done .length && done .flags then
            some { s with
              ring := { s.ring with tail := nextSlot curTail }
              driver := .idle
              submitted := s.submitted ++ [d] }
          else none
      | _ => none
  | .advance =>
      if s.ring.head = s.ring.tail then none
      else
        some { s with
          ring := { s.ring with head := nextSlot s.ring.head }
          consumed := s.consumed ++ [s.ring.descriptors s.ring.head] }

/-- Any interleaving of the driver's accesses with the device. -/
abbrev Interleaving : List (Transition DmaSystem DmaAction) -> DmaSystem -> Prop :=
  Trail (fun s a s' => s.step a = some s') .new

/-!
## The invariant
-/

/-- What the submission in flight knows. -/
def DriverOk (s : DmaSystem) : SubmitState -> Prop
  | .idle => True
  | .tailLoaded _ curTail => curTail = s.submitted.length % dmaSlots
  | .writing d curTail done =>
      curTail = s.submitted.length % dmaSlots ∧
        s.submitted.length + 1 < s.consumed.length + dmaSlots ∧
        d.Agrees (s.ring.descriptors curTail) done

structure Inv (s : DmaSystem) : Prop where
  le : s.consumed.length ≤ s.submitted.length
  room : s.submitted.length < s.consumed.length + dmaSlots
  head_eq : s.ring.head = s.consumed.length % dmaSlots
  tail_eq : s.ring.tail = s.submitted.length % dmaSlots
  inOrder : s.consumed <+: s.submitted
  held : RingHolds dmaSlots s.ring.descriptors s.submitted s.consumed.length
  driver : DriverOk s s.driver

theorem inv_new : Inv .new where
  le := Nat.le_refl 0
  room := by decide
  head_eq := rfl
  tail_eq := rfl
  inOrder := List.prefix_rfl
  held := ringHolds_nil _ _ _
  driver := trivial

theorem nextSlot_mod (k : Nat) : nextSlot (k % dmaSlots) = (k + 1) % dmaSlots := by
  unfold nextSlot
  rw [Nat.mod_add_mod]

/-- The full test at the head load. -/
theorem full_iff {s : DmaSystem} (h : Inv s) :
    nextSlot s.ring.tail = s.ring.head ↔ s.submitted.length + 1 = s.consumed.length + dmaSlots := by
  rw [h.tail_eq, h.head_eq, nextSlot_mod]
  exact ring_next_eq_iff h.le h.room

theorem inv_loadHead {s : DmaSystem} {d : DmaDescriptor} {curTail : Nat} (h : Inv s)
    (hdriver : s.driver = .tailLoaded d curTail) (hroom : nextSlot curTail ≠ s.ring.head) :
    Inv { s with driver := .writing d curTail fun _ => false } := by
  have hok := h.driver
  rw [hdriver] at hok
  have htail : s.ring.tail = curTail := by
    rw [h.tail_eq]
    exact hok.symm
  have hfull := full_iff h
  rw [htail] at hfull
  have hnot := fun heq => hroom (hfull.mpr heq)
  have hless := h.room
  refine ⟨h.le, h.room, h.head_eq, h.tail_eq, h.inOrder, h.held, hok, by lia, ?_⟩
  refine ⟨?_, ?_, ?_, ?_⟩ <;> exact nofun

theorem inv_storeField {s : DmaSystem} {d : DmaDescriptor} {curTail : Nat}
    {done : DmaField -> Bool} (h : Inv s) (hdriver : s.driver = .writing d curTail done)
    (f : DmaField) :
    Inv { s with
      ring := { s.ring with
        descriptors := Function.update s.ring.descriptors curTail
          (d.store (s.ring.descriptors curTail) f) }
      driver := .writing d curTail (Function.update done f true) } := by
  have hok := h.driver
  rw [hdriver] at hok
  obtain ⟨htail, hroom, hagrees⟩ := hok
  have hheld := ringHolds_write h.held h.room (d.store (s.ring.descriptors curTail) f)
  rw [← htail] at hheld
  refine ⟨h.le, h.room, h.head_eq, h.tail_eq, h.inOrder, hheld, htail, hroom, ?_⟩
  show d.Agrees (Function.update s.ring.descriptors curTail _ curTail) _
  rw [Function.update_self]
  exact DmaDescriptor.agrees_store hagrees f

theorem inv_storeTail {s : DmaSystem} {d : DmaDescriptor} {curTail : Nat}
    {done : DmaField -> Bool} (h : Inv s) (hdriver : s.driver = .writing d curTail done)
    (hdone : (done .srcAddr && done .destAddr && done .length && done .flags) = true) :
    Inv { s with
      ring := { s.ring with tail := nextSlot curTail }
      driver := .idle
      submitted := s.submitted ++ [d] } := by
  have hok := h.driver
  rw [hdriver] at hok
  obtain ⟨htail, hroom, hagrees⟩ := hok
  have hle := h.le
  have hall : forall f, done f = true := by
    simp only [Bool.and_eq_true] at hdone
    intro f
    cases f with
    | srcAddr => exact hdone.left.left.left
    | destAddr => exact hdone.left.left.right
    | length => exact hdone.left.right
    | flags => exact hdone.right
  have hslot := DmaDescriptor.eq_of_agrees hagrees hall
  rw [htail] at hslot
  have hlen : (s.submitted ++ [d]).length = s.submitted.length + 1 := by
    rw [List.length_append, List.length_singleton]
  constructor
  · show s.consumed.length ≤ (s.submitted ++ [d]).length
    lia
  · show (s.submitted ++ [d]).length < s.consumed.length + dmaSlots
    lia
  · exact h.head_eq
  · show nextSlot curTail = (s.submitted ++ [d]).length % dmaSlots
    rw [hlen, htail, nextSlot_mod]
  · exact h.inOrder.trans (List.prefix_append _ _)
  · exact ringHolds_put h.held hslot
  · trivial

/-- The device gives the submission in flight more room. -/
theorem driverOk_advance {s s' : DmaSystem} {driver : SubmitState} (h : DriverOk s driver)
    (hlen : s'.consumed.length = s.consumed.length + 1)
    (hsubmitted : s'.submitted = s.submitted)
    (hslots : s'.ring.descriptors = s.ring.descriptors) : DriverOk s' driver := by
  cases driver with
  | idle => trivial
  | tailLoaded d curTail =>
      unfold DriverOk at h ⊢
      rw [hsubmitted]
      exact h
  | writing d curTail done =>
      unfold DriverOk at h ⊢
      obtain ⟨htail, hroom, hagrees⟩ := h
      rw [hsubmitted, hslots, hlen]
      exact ⟨htail, by lia, hagrees⟩

theorem inv_advance {s : DmaSystem} (h : Inv s) (hne : s.ring.head ≠ s.ring.tail) :
    Inv { s with
      ring := { s.ring with head := nextSlot s.ring.head }
      consumed := s.consumed ++ [s.ring.descriptors s.ring.head] } := by
  have hle := h.le
  have hroom := h.room
  have hless : s.consumed.length < s.submitted.length := by
    apply Nat.lt_of_le_of_ne hle
    intro heq
    apply hne
    rw [h.head_eq, h.tail_eq, heq]
  have hlen : (s.consumed ++ [s.ring.descriptors s.ring.head]).length = s.consumed.length + 1 := by
    rw [List.length_append, List.length_singleton]
  constructor
  · show (s.consumed ++ [_]).length ≤ s.submitted.length
    lia
  · show s.submitted.length < (s.consumed ++ [_]).length + dmaSlots
    lia
  · show nextSlot s.ring.head = (s.consumed ++ [_]).length % dmaSlots
    rw [hlen, h.head_eq, nextSlot_mod]
  · exact h.tail_eq
  · show s.consumed ++ [s.ring.descriptors s.ring.head] <+: s.submitted
    rw [h.head_eq]
    exact ringHolds_head h.held h.inOrder hless
  · show RingHolds dmaSlots s.ring.descriptors s.submitted (s.consumed ++ [_]).length
    rw [hlen]
    exact ringHolds_take h.held
  · exact driverOk_advance h.driver hlen rfl rfl

theorem inv_step {s s' : DmaSystem} {a : DmaAction} (h : Inv s) (hstep : s.step a = some s') :
    Inv s' := by
  cases a with
  | loadTail src dest len =>
      simp only [step] at hstep
      split at hstep
      · cases hstep
        exact ⟨h.le, h.room, h.head_eq, h.tail_eq, h.inOrder, h.held, h.tail_eq⟩
      · cases hstep
  | loadHead =>
      simp only [step] at hstep
      split at hstep
      · rename_i d curTail hdriver
        split at hstep
        · cases hstep
          exact ⟨h.le, h.room, h.head_eq, h.tail_eq, h.inOrder, h.held, trivial⟩
        · rename_i hroom
          cases hstep
          exact inv_loadHead h hdriver hroom
      · cases hstep
  | storeField f =>
      simp only [step] at hstep
      split at hstep
      · rename_i d curTail done hdriver
        cases hstep
        exact inv_storeField h hdriver f
      · cases hstep
  | storeTail =>
      simp only [step] at hstep
      split at hstep
      · rename_i d curTail done hdriver
        split at hstep
        · rename_i hdone
          cases hstep
          exact inv_storeTail h hdriver hdone
        · cases hstep
      · cases hstep
  | advance =>
      simp only [step] at hstep
      split at hstep
      · cases hstep
      · rename_i hne
        cases hstep
        exact inv_advance h hne

theorem inv_of_interleaving {past : List (Transition DmaSystem DmaAction)} {s : DmaSystem}
    (hrun : Interleaving past s) : Inv s :=
  Trail.invariant (fun _ s => Inv s) (fun _ => True) inv_new
    (fun _ _ _ _ h hstep _ => inv_step h hstep) hrun (fun _ _ => trivial)

/-!
## Whole runs
-/

/-- What driver and device can rely on in every state. -/
structure TransfersInOrder (s : DmaSystem) : Prop where
  inOrder : s.consumed <+: s.submitted
  drained : s.ring.head = s.ring.tail -> s.consumed = s.submitted
  /-- What the device takes is the next descriptor, with all its fields. -/
  whole : s.ring.head ≠ s.ring.tail ->
    s.submitted[s.consumed.length]? = some (s.ring.descriptors s.ring.head)
  /-- A descriptor stays in its slot until it was taken. -/
  kept : RingHolds dmaSlots s.ring.descriptors s.submitted s.consumed.length
  /-- `Err(())` at the head load. -/
  refused : forall d curTail, s.driver = .tailLoaded d curTail ->
    (s.step .loadHead = some { s with driver := .idle } ↔ s.ring.capacity = 0)
  capacity : s.ring.capacity + (s.submitted.length - s.consumed.length) = 127

theorem capacity_eq {s : DmaSystem} (h : Inv s) :
    s.ring.capacity = s.consumed.length + dmaSlots - s.submitted.length - 1 := by
  unfold AutonomousDmaRing.capacity
  rw [h.head_eq, h.tail_eq]
  exact ring_room h.le h.room

theorem head_eq_tail_iff {s : DmaSystem} (h : Inv s) :
    s.ring.head = s.ring.tail ↔ s.consumed.length = s.submitted.length := by
  rw [h.head_eq, h.tail_eq, eq_comm, ring_mod_eq_iff h.le h.room]
  exact eq_comm

theorem loadHead_idle_iff {s : DmaSystem} {d : DmaDescriptor} {curTail : Nat}
    (hdriver : s.driver = .tailLoaded d curTail) :
    s.step .loadHead = some { s with driver := .idle } ↔ nextSlot curTail = s.ring.head := by
  unfold step
  simp only [hdriver]
  by_cases hfull : nextSlot curTail = s.ring.head
  · rw [if_pos hfull]
    exact iff_of_true rfl hfull
  · rw [if_neg hfull]
    refine iff_of_false (fun heq => ?_) hfull
    have hstate := congrArg DmaSystem.driver (Option.some.inj heq)
    cases hstate

/-- In every interleaving of `submit_transfer` calls with the device. -/
theorem transfersInOrder_of_interleaving {past : List (Transition DmaSystem DmaAction)}
    {s : DmaSystem} (hrun : Interleaving past s) : TransfersInOrder s := by
  have h := inv_of_interleaving hrun
  have hle := h.le
  have hroom := h.room
  have hcapacity := capacity_eq h
  constructor
  · exact h.inOrder
  · intro hempty
    exact h.inOrder.eq_of_length ((head_eq_tail_iff h).mp hempty)
  · intro hne
    have hless : s.consumed.length < s.submitted.length :=
      Nat.lt_of_le_of_ne hle fun heq => hne ((head_eq_tail_iff h).mpr heq)
    rw [h.head_eq]
    exact h.held _ (Nat.le_refl _) hless
  · exact h.held
  · intro d curTail hdriver
    have hok := h.driver
    rw [hdriver] at hok
    have htail : s.ring.tail = curTail := by
      rw [h.tail_eq]
      exact hok.symm
    rw [loadHead_idle_iff hdriver, ← htail, full_iff h, hcapacity]
    lia
  · rw [hcapacity]
    unfold dmaSlots at hroom ⊢
    lia

/-- One transfer, its fields stored out of order, and the device that takes it. -/
theorem transfersInOrder_one : exists past s, Interleaving past s ∧
    s.consumed = [DmaDescriptor.transfer 0x1000#64 0x2000#64 64#32] ∧ TransfersInOrder s := by
  have hplay : exists past s, play step [] .new
      [.loadTail 0x1000#64 0x2000#64 64#32, .loadHead, .storeField .flags, .storeField .length,
        .storeField .destAddr, .storeField .srcAddr, .storeTail, .advance] = some (past, s) ∧
      s.consumed = [DmaDescriptor.transfer 0x1000#64 0x2000#64 64#32] := ⟨_, _, rfl, rfl⟩
  obtain ⟨past, s, hplay, hconsumed⟩ := hplay
  have hrun := trail_play Trail.nil hplay
  exact ⟨past, s, hrun, hconsumed, transfersInOrder_of_interleaving hrun⟩

end DmaSystem

end Drivers
end HolyRust
