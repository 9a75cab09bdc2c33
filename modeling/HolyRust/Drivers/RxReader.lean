import HolyRust.Foundation.Ring
import HolyRust.Drivers.Console

/-!
# The receive ring and its reader

`ring_pop` loads the head, reads the byte at the tail and stores the tail; `irq_handler` may
run between any two of these accesses.  Together they are a queue of at most 255 bytes: a
byte that finds it full is dropped, and every other byte comes out once and in order.
-/

namespace HolyRust
namespace Drivers

open Foundation

namespace RxRing

/-- `ring_pop`, undisturbed. -/
def pop (ring : RxRing) : Option Arrival × RxRing :=
  if ring.tail = ring.head then
    (none, ring)
  else
    (some (ring.buf ring.tail), { ring with tail := (ring.tail + 1) % ringSize })

/-- The bytes between the tail and the head. -/
def waiting (ring : RxRing) : List Arrival :=
  (List.range ring.unread).map fun k => ring.buf ((ring.tail + k) % ringSize)

theorem buf_push (ring : RxRing) (a : Arrival) :
    (ring.push a).buf = Function.update ring.buf ring.head a := by
  funext i
  rw [Function.update_apply]
  rfl

end RxRing

/-!
## Accesses
-/

/-- How far a call of `ring_pop` has got.  The tail is its own: no one else stores it. -/
inductive PopState where
  | idle
  | bytesWait
  | byteRead (a : Arrival)

/-- The ring, the call that reads it, and as ghosts the bytes that the handler stored or
dropped and those that finished calls returned. -/
structure RingReader where
  ring : RxRing
  popper : PopState
  accepted : List Arrival
  dropped : List Arrival
  returned : List Arrival

inductive RingAction where
  | interrupt (found : Option Arrival)
  | loadHead
  | readByte
  | storeTail

namespace RingReader

/-- `RX_RING` as it is linked. -/
def start (slot : Arrival) : RingReader where
  ring := { buf := fun _ => slot, head := 0, tail := 0 }
  popper := .idle
  accepted := []
  dropped := []
  returned := []

/-- `none` where the call is not at that access. -/
def step (s : RingReader) : RingAction -> Option RingReader
  | .interrupt none => some s
  | .interrupt (some a) =>
      if (s.ring.head + 1) % ringSize ≠ s.ring.tail then
        some { s with ring := s.ring.push a, accepted := s.accepted ++ [a] }
      else
        some { s with dropped := s.dropped ++ [a] }
  | .loadHead =>
      match s.popper with
      | .idle =>
          if s.ring.tail = s.ring.head then some s else some { s with popper := .bytesWait }
      | _ => none
  | .readByte =>
      match s.popper with
      | .bytesWait => some { s with popper := .byteRead (s.ring.buf s.ring.tail) }
      | _ => none
  | .storeTail =>
      match s.popper with
      | .byteRead a =>
          some { s with
            ring := { s.ring with tail := (s.ring.tail + 1) % ringSize }
            popper := .idle
            returned := s.returned ++ [a] }
      | _ => none

/-- Any interleaving of interrupts with calls of `ring_pop`. -/
abbrev Interleaving (slot : Arrival) :
    List (Transition RingReader RingAction) -> RingReader -> Prop :=
  Trail (fun s a s' => s.step a = some s') (start slot)

/-- A call that nothing interrupts finds no byte, or does what `pop` says in three
accesses. -/
theorem steps_pop {s : RingReader} (hidle : s.popper = .idle) :
    match s.ring.pop with
    | (none, _) => s.step .loadHead = some s
    | (some a, ring) => exists t u, s.step .loadHead = some t ∧ t.step .readByte = some u ∧
        u.step .storeTail = some { s with ring := ring, returned := s.returned ++ [a] } := by
  unfold RxRing.pop
  by_cases hempty : s.ring.tail = s.ring.head
  · simp only [hempty, if_true, step, hidle]
  · simp only [hempty, if_false]
    refine ⟨{ s with popper := .bytesWait },
      { s with popper := .byteRead (s.ring.buf s.ring.tail) }, ?_, rfl, ?_⟩
    · simp only [step, hidle, hempty, if_false]
    · simp only [step, ← hidle]

/-- The interrupt does to the ring what the handler of the console does. -/
theorem ring_interrupt {s : RingReader} {c : Console} (hring : s.ring = c.ring) :
    (s.step (.interrupt c.uart.pollGetByte.1)).map ring = some c.irqHandler.ring := by
  unfold Console.irqHandler
  rcases c.uart.pollGetByte with ⟨found, uart⟩
  cases found with
  | none => exact congrArg some hring
  | some a =>
      simp only [step, hring]
      split
      · rfl
      · rfl

/-!
## The invariant
-/

/-- The indices are the numbers of bytes stored and returned, and the bytes in between are
in their slots. -/
structure Inv (s : RingReader) : Prop where
  head_eq : s.ring.head = s.accepted.length % ringSize
  tail_eq : s.ring.tail = s.returned.length % ringSize
  holds : RingHolds ringSize s.ring.buf s.accepted s.returned.length
  room : s.accepted.length < s.returned.length + ringSize
  in_order : s.returned <+: s.accepted
  popper_ok : match s.popper with
    | .idle => True
    | .bytesWait => s.returned.length < s.accepted.length
    | .byteRead a => s.accepted[s.returned.length]? = some a

section Steps

variable {s t : RingReader}

theorem Inv.unread_eq (h : s.Inv) : s.ring.unread = s.accepted.length - s.returned.length := by
  have hle := h.in_order.length_le
  have hroom := h.room
  unfold RxRing.unread
  rw [h.head_eq, h.tail_eq]
  unfold ringSize at *
  lia

theorem Inv.waiting_eq (h : s.Inv) : s.ring.waiting = s.accepted.drop s.returned.length := by
  apply List.ext_getElem?
  intro k
  rw [RxRing.waiting, List.getElem?_map, List.getElem?_drop, h.unread_eq]
  by_cases hk : k < s.accepted.length - s.returned.length
  · rw [List.getElem?_range hk, Option.map_some, h.tail_eq, Nat.mod_add_mod,
      h.holds (s.returned.length + k) (Nat.le_add_right _ _) (by lia)]
  · rw [List.getElem?_eq_none (by rw [List.length_range]; lia),
      List.getElem?_eq_none (by lia), Option.map_none]

theorem Inv.accepted_eq (h : s.Inv) : s.accepted = s.returned ++ s.ring.waiting := by
  rw [h.waiting_eq]
  exact List.prefix_iff_eq_append.mp h.in_order |>.symm

theorem Inv.length_waiting (h : s.Inv) :
    s.returned.length + s.ring.waiting.length = s.accepted.length := by
  rw [← List.length_append, ← h.accepted_eq]

/-- The handler finds room unless 255 bytes wait. -/
theorem Inv.full_iff (h : s.Inv) :
    (s.ring.head + 1) % ringSize = s.ring.tail ↔ s.ring.waiting.length = 255 := by
  have hlength := h.length_waiting
  have hroom := h.room
  rw [h.head_eq, h.tail_eq, Nat.mod_add_mod, ring_next_eq_iff h.in_order.length_le h.room]
  unfold ringSize at *
  lia

theorem Inv.empty_iff (h : s.Inv) : s.ring.tail = s.ring.head ↔ s.ring.waiting = [] := by
  have hlength := h.length_waiting
  rw [eq_comm, h.head_eq, h.tail_eq, ring_mod_eq_iff h.in_order.length_le h.room,
    ← List.length_eq_zero_iff]
  lia

theorem inv_start (slot : Arrival) : (start slot).Inv where
  head_eq := rfl
  tail_eq := rfl
  holds := ringHolds_nil _ _ _
  room := (by decide : 0 < ringSize)
  in_order := List.nil_prefix
  popper_ok := trivial

/-- What a call has learnt stays true when a byte joins the others. -/
theorem Inv.accept (h : s.Inv) (hroom : (s.ring.head + 1) % ringSize ≠ s.ring.tail)
    (a : Arrival) : Inv { s with ring := s.ring.push a, accepted := s.accepted ++ [a] } := by
  have hnext := h.room
  rw [h.head_eq, h.tail_eq, Nat.mod_add_mod, ne_eq,
    ring_next_eq_iff h.in_order.length_le h.room] at hroom
  have hlt : s.accepted.length + 1 < s.returned.length + ringSize := by lia
  refine ⟨?_, h.tail_eq, ?_, ?_, h.in_order.trans (List.prefix_append _ _), ?_⟩
  · show (s.ring.head + 1) % ringSize = (s.accepted ++ [a]).length % ringSize
    rw [h.head_eq, Nat.mod_add_mod, List.length_append]
    rfl
  · show RingHolds ringSize (s.ring.push a).buf (s.accepted ++ [a]) s.returned.length
    rw [RxRing.buf_push, h.head_eq]
    exact ringHolds_put (ringHolds_write h.holds h.room a) (Function.update_self _ _ _)
  · show (s.accepted ++ [a]).length < s.returned.length + ringSize
    rw [List.length_append]
    exact hlt
  · have hok := h.popper_ok
    show match s.popper with
      | .idle => True
      | .bytesWait => s.returned.length < (s.accepted ++ [a]).length
      | .byteRead b => (s.accepted ++ [a])[s.returned.length]? = some b
    cases hpopper : s.popper with
    | idle => trivial
    | bytesWait =>
        rw [hpopper] at hok
        rw [List.length_append]
        exact Nat.lt_add_right 1 hok
    | byteRead b =>
        rw [hpopper] at hok
        exact (List.getElem?_append_left (List.getElem?_eq_some_iff.mp hok).1).trans hok

theorem Inv.found (h : s.Inv) (hwait : s.ring.tail ≠ s.ring.head) :
    Inv { s with popper := .bytesWait } := by
  have hpos := List.length_pos_iff.mpr (mt h.empty_iff.mpr hwait)
  have hlength := h.length_waiting
  refine ⟨h.head_eq, h.tail_eq, h.holds, h.room, h.in_order, ?_⟩
  show s.returned.length < s.accepted.length
  lia

theorem Inv.read (h : s.Inv) (hwait : s.popper = .bytesWait) :
    Inv { s with popper := .byteRead (s.ring.buf s.ring.tail) } := by
  have hlt := h.popper_ok
  rw [hwait] at hlt
  refine ⟨h.head_eq, h.tail_eq, h.holds, h.room, h.in_order, ?_⟩
  show s.accepted[s.returned.length]? = some (s.ring.buf s.ring.tail)
  rw [h.tail_eq]
  exact h.holds _ (Nat.le_refl _) hlt

theorem Inv.finish (h : s.Inv) {a : Arrival} (hpopper : s.popper = .byteRead a) :
    Inv { s with
      ring := { s.ring with tail := (s.ring.tail + 1) % ringSize }
      popper := .idle
      returned := s.returned ++ [a] } := by
  have hread := h.popper_ok
  rw [hpopper] at hread
  have hlength : (s.returned ++ [a]).length = s.returned.length + 1 := List.length_append
  refine ⟨h.head_eq, ?_, ?_, ?_, prefix_concat_of_getElem h.in_order hread, trivial⟩
  · show (s.ring.tail + 1) % ringSize = (s.returned ++ [a]).length % ringSize
    rw [h.tail_eq, Nat.mod_add_mod, hlength]
  · show RingHolds ringSize s.ring.buf s.accepted (s.returned ++ [a]).length
    rw [hlength]
    exact ringHolds_take h.holds
  · show s.accepted.length < (s.returned ++ [a]).length + ringSize
    have hroom := h.room
    lia

/-!
## A queue
-/

/-- One access as an operation of a queue of at most 255 bytes. -/
def Serves (tr : Transition RingReader RingAction) : Prop :=
  match tr.label with
  | .interrupt none => tr.after = tr.before
  | .interrupt (some a) =>
      if tr.before.ring.waiting.length = 255 then
        tr.after.ring = tr.before.ring ∧ tr.after.dropped = tr.before.dropped ++ [a]
      else
        tr.after.ring.waiting = tr.before.ring.waiting ++ [a] ∧
          tr.after.dropped = tr.before.dropped
  -- the call ends here exactly when it returns `None`
  | .loadHead => tr.after.ring = tr.before.ring ∧
      (tr.after.popper = .idle ↔ tr.before.ring.waiting = [])
  | .readByte => tr.after.ring = tr.before.ring
  | .storeTail => exists a, tr.before.ring.waiting = a :: tr.after.ring.waiting ∧
      tr.after.returned = tr.before.returned ++ [a]

theorem Inv.waiting_of_append (h : s.Inv) {rest : List Arrival}
    (heq : s.accepted = s.returned ++ rest) : s.ring.waiting = rest :=
  List.append_cancel_left (h.accepted_eq.symm.trans heq)

theorem serves_of_step (h : s.Inv) {a : RingAction} (hstep : s.step a = some t) :
    Serves ⟨s, a, t⟩ ∧ t.Inv := by
  cases a with
  | interrupt found =>
      cases found with
      | none =>
          cases hstep
          exact ⟨rfl, h⟩
      | some a =>
          simp only [step] at hstep
          split at hstep
          · rename_i hroom
            cases hstep
            have hnext := h.accept hroom a
            have heq : s.accepted ++ [a] = s.returned ++ (s.ring.waiting ++ [a]) := by
              rw [← List.append_assoc, ← h.accepted_eq]
            have hwaiting : (s.ring.push a).waiting = s.ring.waiting ++ [a] :=
              hnext.waiting_of_append heq
            refine ⟨?_, hnext⟩
            show ite _ _ _
            rw [if_neg (mt h.full_iff.mpr hroom)]
            exact ⟨hwaiting, rfl⟩
          · rename_i hfull
            cases hstep
            refine ⟨?_, h.head_eq, h.tail_eq, h.holds, h.room, h.in_order, h.popper_ok⟩
            show ite _ _ _
            rw [if_pos (h.full_iff.mp (not_not.mp hfull))]
            exact ⟨rfl, rfl⟩
  | loadHead =>
      simp only [step] at hstep
      split at hstep
      · rename_i hidle
        split at hstep
        · rename_i hempty
          cases hstep
          exact ⟨⟨rfl, iff_of_true hidle (h.empty_iff.mp hempty)⟩, h⟩
        · rename_i hwait
          cases hstep
          exact ⟨⟨rfl, iff_of_false nofun (mt h.empty_iff.mpr hwait)⟩, h.found hwait⟩
      · cases hstep
  | readByte =>
      simp only [step] at hstep
      split at hstep
      · rename_i hwait
        cases hstep
        exact ⟨rfl, h.read hwait⟩
      · cases hstep
  | storeTail =>
      simp only [step] at hstep
      split at hstep
      · rename_i a hread
        cases hstep
        have hnext := h.finish hread
        refine ⟨⟨a, ?_, rfl⟩, hnext⟩
        apply h.waiting_of_append
        have heq := hnext.accepted_eq
        rwa [List.append_assoc] at heq
      · cases hstep

/-- However the interrupts and the reads interleave, the ring is a queue: what was stored is
what was returned, in order, followed by what waits. -/
theorem ring_is_queue {slot : Arrival} {past : List (Transition RingReader RingAction)}
    (hrun : Interleaving slot past s) :
    (forall tr, tr ∈ past -> Serves tr) ∧
      s.accepted = s.returned ++ s.ring.waiting ∧ s.ring.waiting.length ≤ 255 := by
  obtain ⟨hserves, hinv⟩ := Trail.forall_mem Inv Serves (fun _ => True) (inv_start slot)
    (fun _ _ _ h hstep _ => serves_of_step h hstep) hrun (fun _ _ => trivial)
  have hlength := hinv.length_waiting
  have hroom := hinv.room
  unfold ringSize at hroom
  exact ⟨hserves, hinv.accepted_eq, by lia⟩

end Steps

/-- A byte that arrives in the middle of a call waits for the next one. -/
theorem ring_is_queue_two : exists past s, Interleaving ⟨0, 0#8⟩ past s ∧
    s.returned = [⟨0, 65#8⟩] ∧ s.ring.waiting = [⟨1, 66#8⟩] ∧
    (forall tr, tr ∈ past -> Serves tr) ∧
    s.accepted = s.returned ++ s.ring.waiting ∧ s.ring.waiting.length ≤ 255 := by
  have hplay : exists past s, play step [] (start ⟨0, 0#8⟩)
      [.interrupt (some ⟨0, 65#8⟩), .loadHead, .interrupt (some ⟨1, 66#8⟩), .readByte,
        .storeTail] = some (past, s) ∧
      s.returned = [⟨0, 65#8⟩] ∧ s.ring.waiting = [⟨1, 66#8⟩] := ⟨_, _, rfl, rfl, rfl⟩
  obtain ⟨past, s, hplay, hreturned, hwaiting⟩ := hplay
  have hrun := trail_play Trail.nil hplay
  exact ⟨past, s, hrun, hreturned, hwaiting, ring_is_queue hrun⟩

end RingReader

end Drivers
end HolyRust
