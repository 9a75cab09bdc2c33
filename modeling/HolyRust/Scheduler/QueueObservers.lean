import HolyRust.Scheduler.TaskQueue

/-!
# Observers of the task queue

`len`, `is_empty` and `is_full` load the two indices one after the other, and the queue may
move in between.  What they answer is exact for the side that calls them: the consumer knows
that nothing is taken away, the producer that nothing is added.  For any other core the
answer is a distance between two moments, modulo the number of slots.
-/

namespace HolyRust
namespace Scheduler

open Foundation

/-!
## The calls

Each takes the indices in the order in which the source loads them.
-/

def len (head tail : Nat) : Nat :=
  if head ≤ tail then tail - head else slots - head + tail

def isEmpty (head tail : Nat) : Bool := decide (head = tail)

def isFull (tail head : Nat) : Bool := decide (nextIndex tail = head)

section OneProducer

variable {τ : Type} {null : τ} {s t u : System Unit τ}
  {past more rest : List (Transition (System Unit τ) (Action Unit τ))}

/-- Accesses that follow each other. -/
abbrev Accesses (s : System Unit τ) : List (Transition (System Unit τ) (Action Unit τ)) ->
    System Unit τ -> Prop :=
  Trail (fun s a s' => step s a = some s') s

/-- No push is completed. -/
def NoPush (more : List (Transition (System Unit τ) (Action Unit τ))) : Prop :=
  forall tr, tr ∈ more -> tr.label ≠ .pushStoreTail ()

/-- No pop is completed. -/
def NoPop (more : List (Transition (System Unit τ) (Action Unit τ))) : Prop :=
  forall tr, tr ∈ more -> tr.label ≠ .popStoreHead

/-- One access completes a push, a pop, or neither. -/
theorem counts_of_step {a : Action Unit τ} (h : step s a = some t) :
    s.accepted.length ≤ t.accepted.length ∧ s.returned.length ≤ t.returned.length ∧
      (a ≠ .pushStoreTail () -> t.accepted = s.accepted) ∧
      (a ≠ .popStoreHead -> t.returned = s.returned) := by
  cases moves_of_step h with
  | storeTail _ =>
      refine ⟨?_, Nat.le_refl _, fun hne => absurd rfl hne, fun _ => rfl⟩
      show s.accepted.length ≤ (s.accepted ++ [_]).length
      rw [List.length_append]
      exact Nat.le_add_right _ _
  | storeHead _ =>
      refine ⟨Nat.le_refl _, ?_, fun _ => rfl, fun hne => absurd rfl hne⟩
      show s.returned.length ≤ (s.returned ++ [_]).length
      rw [List.length_append]
      exact Nat.le_add_right _ _
  | _ => exact ⟨Nat.le_refl _, Nat.le_refl _, fun _ => rfl, fun _ => rfl⟩

theorem counts_of_accesses (h : Accesses s more t) :
    s.accepted.length ≤ t.accepted.length ∧ s.returned.length ≤ t.returned.length ∧
      (NoPush more -> t.accepted = s.accepted) ∧ (NoPop more -> t.returned = s.returned) := by
  induction h with
  | nil => exact ⟨Nat.le_refl _, Nat.le_refl _, fun _ => rfl, fun _ => rfl⟩
  | snoc _ hlast ih =>
      obtain ⟨haccepted, hreturned, hpush, hpop⟩ := counts_of_step hlast
      refine ⟨Nat.le_trans ih.left haccepted, Nat.le_trans ih.right.left hreturned, ?_, ?_⟩
      · intro hno
        rw [hpush (hno _ List.mem_cons_self),
          ih.right.right.left fun tr htr => hno tr (List.mem_cons_of_mem _ htr)]
      · intro hno
        rw [hpop (hno _ List.mem_cons_self),
          ih.right.right.right fun tr htr => hno tr (List.mem_cons_of_mem _ htr)]

theorem fifo_accesses (hrun : Interleaving null past s) (h : Accesses s more t) :
    Fifo t ∧ Current t :=
  fifo_oneProducer (hrun.append h)

theorem len_eq (a b : Nat) (h : b ≤ a) : len (b % slots) (a % slots) = (a - b) % slots := by
  unfold len slots
  split <;> lia

/-- The head is loaded in `s`, the tail in `t`. -/
theorem len_observes (hrun : Interleaving null past s) (hmore : Accesses s more t) :
    len s.queue.head t.queue.tail = (t.accepted.length - s.returned.length) % slots ∧
      (NoPop more -> len s.queue.head t.queue.tail = t.accepted.length - t.returned.length) ∧
      (NoPush more -> len s.queue.head t.queue.tail = s.accepted.length - s.returned.length) := by
  obtain ⟨hfifo, _⟩ := fifo_oneProducer hrun
  obtain ⟨hlater, _⟩ := fifo_accesses hrun hmore
  obtain ⟨haccepted, _, hpush, hpop⟩ := counts_of_accesses hmore
  have hle := hfifo.le_accepted
  have hroom := hfifo.le_room
  have hroom' := hlater.le_room
  have hdistance : len s.queue.head t.queue.tail =
      (t.accepted.length - s.returned.length) % slots := by
    rw [hfifo.head_eq, hlater.tail_eq]
    exact len_eq _ _ (by lia)
  refine ⟨hdistance, fun hno => ?_, fun hno => ?_⟩
  · rw [hdistance, ← hpop hno]
    exact Nat.mod_eq_of_lt (by unfold slots; lia)
  · rw [hdistance, hpush hno]
    exact Nat.mod_eq_of_lt (by unfold slots; lia)

theorem isFull_iff (hrun : Interleaving null past s) (hmore : Accesses s more t)
    (hno : NoPush more) :
    isFull s.queue.tail t.queue.head = true ↔ t.accepted.length = t.returned.length + 255 := by
  obtain ⟨hfifo, _⟩ := fifo_oneProducer hrun
  obtain ⟨hlater, _⟩ := fifo_accesses hrun hmore
  have hsame := (counts_of_accesses hmore).right.right.left hno
  have hle := hlater.le_accepted
  have hroom := hlater.le_room
  unfold isFull
  rw [decide_eq_true_iff, hfifo.tail_eq, ← hsame, hlater.head_eq]
  unfold nextIndex slots
  lia

theorem isEmpty_iff (hrun : Interleaving null past s) (hmore : Accesses s more t)
    (hno : NoPop more) :
    isEmpty s.queue.head t.queue.tail = true ↔ t.accepted.length = t.returned.length := by
  obtain ⟨hfifo, _⟩ := fifo_oneProducer hrun
  obtain ⟨hlater, _⟩ := fifo_accesses hrun hmore
  have hsame := (counts_of_accesses hmore).right.right.right hno
  have hle := hlater.le_accepted
  have hroom := hlater.le_room
  unfold isEmpty
  rw [decide_eq_true_iff, hfifo.head_eq, ← hsame, hlater.tail_eq]
  unfold slots
  lia

/-- Room that was there stays there until the next push is through. -/
theorem push_finds_room (hrun : Interleaving null past t)
    (hroom : t.accepted.length ≠ t.returned.length + 255) (hrest : Accesses t rest u)
    (hno : NoPush rest) {tcb : τ} {tail seen : Nat}
    (hpush : u.pushers () = .tailLoaded tcb tail seen) : nextIndex tail ≠ u.queue.head := by
  obtain ⟨hfifo, _⟩ := fifo_oneProducer hrun
  obtain ⟨hlater, hcurrent⟩ := fifo_accesses hrun hrest
  obtain ⟨_, hreturned, hsame, _⟩ := counts_of_accesses hrest
  have hloaded := hlater.pushers ()
  unfold Current at hcurrent
  rw [hpush] at hloaded hcurrent
  have htail := hloaded.right hcurrent
  have hold := hfifo.le_room
  have hle := hlater.le_accepted
  rw [htail, hlater.head_eq, hsame hno]
  rw [hsame hno] at hle
  unfold nextIndex slots
  lia

/-- A task that was there stays there until the next pop is through. -/
theorem pop_finds_task (hrun : Interleaving null past t)
    (htask : t.accepted.length ≠ t.returned.length) (hrest : Accesses t rest u)
    (hno : NoPop rest) {head : Nat} (hpop : u.popper = .headLoaded head) :
    head ≠ u.queue.tail := by
  obtain ⟨hfifo, _⟩ := fifo_oneProducer hrun
  obtain ⟨hlater, _⟩ := fifo_accesses hrun hrest
  obtain ⟨haccepted, _, _, hsame⟩ := counts_of_accesses hrest
  have hloaded := hlater.popper
  rw [hpop] at hloaded
  have hhead : head = u.returned.length % slots := hloaded
  have hold := hfifo.le_accepted
  have hroom := hlater.le_room
  rw [hhead, hlater.tail_eq, hsame hno]
  rw [hsame hno] at hroom
  unfold slots
  lia

/-- What the producer learns from `is_full` and the consumer from `is_empty`, the two loads
of the call in `s` and `t`: the answer is right at the second load, and after a negative one
the caller's next `push_task` or `pop_task` goes on at its test, whatever the other side
does. -/
theorem observers_guard (hrun : Interleaving null past s) (hmore : Accesses s more t) :
    (NoPush more ->
      (isFull s.queue.tail t.queue.head = true ↔ t.accepted.length = t.returned.length + 255) ∧
      (isFull s.queue.tail t.queue.head = false -> forall rest u, Accesses t rest u ->
        NoPush rest -> forall tcb tail seen, u.pushers () = .tailLoaded tcb tail seen ->
          step u (.pushLoadHead ()) = some (u.setPusher () (.roomSeen tcb tail seen)))) ∧
    (NoPop more ->
      (isEmpty s.queue.head t.queue.tail = true ↔ t.accepted.length = t.returned.length) ∧
      (isEmpty s.queue.head t.queue.tail = false -> forall rest u, Accesses t rest u ->
        NoPop rest -> forall head, u.popper = .headLoaded head ->
          step u .popLoadTail = some { u with popper := .taskSeen head })) := by
  have hreach : Interleaving null (more ++ past) t := hrun.append hmore
  constructor
  · intro hno
    refine ⟨isFull_iff hrun hmore hno, fun hfalse rest u hrest hquiet tcb tail seen hpush => ?_⟩
    rw [step_pushLoadHead hpush, if_neg]
    refine push_finds_room hreach (fun hfull => ?_) hrest hquiet hpush
    rw [(isFull_iff hrun hmore hno).mpr hfull] at hfalse
    cases hfalse
  · intro hno
    refine ⟨isEmpty_iff hrun hmore hno, fun hfalse rest u hrest hquiet head hpop => ?_⟩
    rw [step_popLoadTail hpop, if_neg]
    refine pop_finds_task hreach (fun hempty => ?_) hrest hquiet hpop
    rw [(isEmpty_iff hrun hmore hno).mpr hempty] at hfalse
    cases hfalse

/-- A queue with one task, of which the consumer then loads the head, and a push after that. -/
theorem exists_observed : exists past more rest, exists s t u : System Unit Nat,
    Interleaving 0 past s ∧ Accesses s more t ∧ Accesses t rest u ∧ NoPush more ∧
      NoPush rest ∧ s.accepted = [7] ∧ s.returned = [] ∧
      isFull s.queue.tail t.queue.head = false ∧
      exists seen, u.pushers () = .tailLoaded 8 1 seen := by
  have hplay : exists past more rest s t u,
      play step [] (System.new Unit 0) [.pushLoadTail () 7, .pushLoadHead (), .pushWriteSlot (),
        .pushStoreTail ()] = some (past, s) ∧
      play step [] s [.popLoadHead] = some (more, t) ∧
      play step [] t [.pushLoadTail () 8] = some (rest, u) ∧ NoPush more ∧ NoPush rest ∧
      s.accepted = [7] ∧ s.returned = [] ∧ isFull s.queue.tail t.queue.head = false ∧
      exists seen, u.pushers () = .tailLoaded 8 1 seen := by
    refine ⟨_, _, _, _, _, _, rfl, rfl, rfl, ?_, ?_, rfl, rfl, rfl, _, rfl⟩
    · intro tr htr
      rw [List.mem_singleton.mp htr]
      intro heq
      cases heq
    · intro tr htr
      rw [List.mem_singleton.mp htr]
      intro heq
      cases heq
  obtain ⟨past, more, rest, s, t, u, hrun, hmore, hrest, hfacts⟩ := hplay
  exact ⟨past, more, rest, s, t, u, trail_play Trail.nil hrun, trail_play Trail.nil hmore,
    trail_play Trail.nil hrest, hfacts⟩

theorem len_observes_one : exists past more, exists s t : System Unit Nat,
    Interleaving 0 past s ∧ Accesses s more t ∧ NoPush more ∧
      len s.queue.head t.queue.tail = s.accepted.length - s.returned.length ∧
      s.accepted.length - s.returned.length = 1 := by
  obtain ⟨past, more, _, s, t, _, hrun, hmore, _, hno, _, haccepted, hreturned, _⟩ :=
    exists_observed
  refine ⟨past, more, s, t, hrun, hmore, hno, (len_observes hrun hmore).right.right hno, ?_⟩
  rw [haccepted, hreturned]
  rfl

theorem observers_guard_push : exists past more rest, exists s t u : System Unit Nat,
    Interleaving 0 past s ∧ Accesses s more t ∧ Accesses t rest u ∧
      isFull s.queue.tail t.queue.head = false ∧
      exists seen, u.pushers () = .tailLoaded 8 1 seen ∧
        step u (.pushLoadHead ()) = some (u.setPusher () (.roomSeen 8 1 seen)) := by
  obtain ⟨past, more, rest, s, t, u, hrun, hmore, hrest, hno, hquiet, _, _, hfull, seen, hpush⟩ :=
    exists_observed
  exact ⟨past, more, rest, s, t, u, hrun, hmore, hrest, hfull, seen, hpush,
    ((observers_guard hrun hmore).left hno).right hfull rest u hrest hquiet 8 1 seen hpush⟩

end OneProducer

end Scheduler
end HolyRust
