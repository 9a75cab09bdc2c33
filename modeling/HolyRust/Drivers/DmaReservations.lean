import HolyRust.Drivers.DmaRing

/-!
# Counting on the capacity of the DMA ring

`capacity` and `has_completed` load the head and then the tail, and the device may take
descriptors in between and afterwards.  The driver may count on what `capacity` answers:
that many submissions go through, however slow or fast the device is.
-/

namespace HolyRust
namespace Drivers

open Foundation

namespace DmaSystem

/-- `capacity` on the indices it loads. -/
def capacityOf (head tail : Nat) : Nat := (head + 128 - tail - 1) % 128

/-- `has_completed` on the indices it loads. -/
def hasCompleted (head tail : Nat) : Bool := decide (head ≠ tail)

/-- Accesses that follow each other. -/
abbrev Accesses (s : DmaSystem) : List (Transition DmaSystem DmaAction) -> DmaSystem -> Prop :=
  Trail (fun s a s' => s.step a = some s') s

/-- How many submissions are completed. -/
def submissions (more : List (Transition DmaSystem DmaAction)) : Nat :=
  more.countP fun tr => decide (tr.label = .storeTail)

/-- The driver is inside a call that only loads. -/
def OnlyDevice (more : List (Transition DmaSystem DmaAction)) : Prop :=
  forall tr, tr ∈ more -> tr.label = .advance

section Counts

variable {s t u : DmaSystem} {past more rest : List (Transition DmaSystem DmaAction)}

/-- A completed submission is counted, and nothing that was consumed comes back. -/
theorem counts_of_step {a : DmaAction} (h : s.step a = some t) :
    t.submitted.length = s.submitted.length + (if a = .storeTail then 1 else 0) ∧
      s.consumed.length ≤ t.consumed.length := by
  cases a with
  | loadTail src dest len =>
      simp only [step] at h
      split at h
      · cases h
        exact ⟨rfl, Nat.le_refl _⟩
      · cases h
  | loadHead =>
      simp only [step] at h
      split at h
      · split at h
        · cases h
          exact ⟨rfl, Nat.le_refl _⟩
        · cases h
          exact ⟨rfl, Nat.le_refl _⟩
      · cases h
  | storeField f =>
      simp only [step] at h
      split at h
      · cases h
        exact ⟨rfl, Nat.le_refl _⟩
      · cases h
  | storeTail =>
      simp only [step] at h
      split at h
      · split at h
        · cases h
          exact ⟨List.length_append, Nat.le_refl _⟩
        · cases h
      · cases h
  | advance =>
      simp only [step] at h
      split at h
      · cases h
      · cases h
        refine ⟨rfl, ?_⟩
        show s.consumed.length ≤ (s.consumed ++ [_]).length
        rw [List.length_append]
        exact Nat.le_add_right _ _

theorem counts_of_accesses (h : Accesses s more t) :
    t.submitted.length = s.submitted.length + submissions more ∧
      s.consumed.length ≤ t.consumed.length := by
  induction h with
  | nil => exact ⟨rfl, Nat.le_refl _⟩
  | snoc _ hlast ih =>
      obtain ⟨hsubmitted, hconsumed⟩ := counts_of_step hlast
      refine ⟨?_, Nat.le_trans ih.right hconsumed⟩
      rw [hsubmitted, ih.left]
      unfold submissions
      rw [List.countP_cons]
      simp only [decide_eq_true_eq]
      exact Nat.add_assoc _ _ _

theorem submissions_onlyDevice (h : OnlyDevice more) : submissions more = 0 := by
  unfold submissions
  rw [List.countP_eq_zero]
  intro tr htr
  rw [h tr htr]
  decide

theorem submitted_onlyDevice (hmore : Accesses s more t) (honly : OnlyDevice more) :
    t.submitted.length = s.submitted.length := by
  rw [(counts_of_accesses hmore).left, submissions_onlyDevice honly]
  rfl

/-- What the driver is told: the room at its head load. -/
theorem capacityOf_eq (hrun : Interleaving past s) (hmore : Accesses s more t)
    (honly : OnlyDevice more) :
    capacityOf s.ring.head t.ring.tail + s.submitted.length + 1 =
      s.consumed.length + dmaSlots := by
  have h := inv_of_interleaving hrun
  have hlater := inv_of_interleaving (hrun.append hmore)
  have hcapacity : capacityOf s.ring.head t.ring.tail = s.ring.capacity := by
    unfold capacityOf AutonomousDmaRing.capacity
    rw [hlater.tail_eq, submitted_onlyDevice hmore honly, ← h.tail_eq]
  have hroom := h.room
  have hle := h.le
  rw [hcapacity, capacity_eq h]
  lia

/-- The driver calls `capacity` or `has_completed` with its head load in `s` and its tail
load in `t`.  As long as it completes fewer submissions than it was told, each head load of
`submit_transfer` goes on to the descriptor; and it is told of completed entries exactly
when not all that it submitted had been taken. -/
theorem capacity_reserves (hrun : Interleaving past s) (hmore : Accesses s more t)
    (honly : OnlyDevice more) :
    (forall rest u, Accesses t rest u -> submissions rest < capacityOf s.ring.head t.ring.tail ->
      forall d curTail, u.driver = .tailLoaded d curTail ->
        u.step .loadHead = some { u with driver := .writing d curTail fun _ => false }) ∧
    (hasCompleted s.ring.head t.ring.tail = true ↔ s.consumed.length < s.submitted.length) := by
  have h := inv_of_interleaving hrun
  have hreach : Interleaving (more ++ past) t := hrun.append hmore
  have hlater := inv_of_interleaving hreach
  have hsubmitted := submitted_onlyDevice hmore honly
  constructor
  · intro rest u hrest hfew d curTail hdriver
    suffices hroom : nextSlot curTail ≠ u.ring.head by
      simp only [step, hdriver, if_neg hroom]
    intro hfull
    have hnow := inv_of_interleaving (hreach.append hrest)
    have hcapacity := capacityOf_eq hrun hmore honly
    obtain ⟨_, hconsumed⟩ := counts_of_accesses hmore
    obtain ⟨hcount, hconsumed'⟩ := counts_of_accesses hrest
    have hok := hnow.driver
    rw [hdriver] at hok
    have htail : curTail = u.ring.tail := by
      rw [hnow.tail_eq]
      exact hok
    rw [htail, hnow.tail_eq, hnow.head_eq, nextSlot_mod,
      ring_next_eq_iff hnow.le hnow.room] at hfull
    lia
  · have hle := h.le
    have hequal : s.ring.head = t.ring.tail ↔ s.consumed.length = s.submitted.length := by
      rw [hlater.tail_eq, hsubmitted, ← h.tail_eq]
      exact head_eq_tail_iff h
    unfold hasCompleted
    rw [decide_eq_true_iff, ne_eq, hequal]
    lia

end Counts

/-- The device takes the only descriptor between the two loads; the next submission is
certain. -/
theorem capacity_reserves_one : exists past more rest s t u,
    Interleaving past s ∧ Accesses s more t ∧ Accesses t rest u ∧
      capacityOf s.ring.head t.ring.tail = 126 ∧
      (exists d curTail, u.driver = .tailLoaded d curTail ∧
        u.step .loadHead = some { u with driver := .writing d curTail fun _ => false }) := by
  have hplay : exists past more rest s t u,
      play step [] .new [.loadTail 0x1000#64 0x2000#64 64#32, .loadHead, .storeField .srcAddr,
        .storeField .destAddr, .storeField .length, .storeField .flags, .storeTail] =
          some (past, s) ∧
      play step [] s [.advance] = some (more, t) ∧
      play step [] t [.loadTail 0x3000#64 0x4000#64 64#32] = some (rest, u) ∧
      OnlyDevice more ∧ submissions rest < capacityOf s.ring.head t.ring.tail ∧
      capacityOf s.ring.head t.ring.tail = 126 ∧
      exists d curTail, u.driver = .tailLoaded d curTail := by
    refine ⟨_, _, _, _, _, _, rfl, rfl, rfl, ?_, by decide, rfl, _, _, rfl⟩
    intro tr htr
    rw [List.mem_singleton.mp htr]
  obtain ⟨past, more, rest, s, t, u, hrun, hmore, hrest, honly, hfew, hcapacity, d, curTail,
    hdriver⟩ := hplay
  have hpast : Interleaving past s := trail_play Trail.nil hrun
  have hnext : Accesses s more t := trail_play Trail.nil hmore
  have hlast : Accesses t rest u := trail_play Trail.nil hrest
  exact ⟨past, more, rest, s, t, u, hpast, hnext, hlast, hcapacity, d, curTail, hdriver,
    (capacity_reserves hpast hnext honly).left rest u hlast hfew d curTail hdriver⟩

end DmaSystem

end Drivers
end HolyRust
