import HolyRust.Foundation.Ring
import HolyRust.Foundation.Trail

/-!
# Inter-core task queue

`LockFreeTaskQueue` with its operations cut into their atomic steps.  Any number
of cores may push and one core pops; a core that pushes is somewhere between its
tail load and its tail store.  `accepted` and `returned` record the results of
finished calls, and a push remembers how many pushes had been accepted when it
loaded the tail: these three are ghosts.
-/

namespace HolyRust
namespace Scheduler

open Foundation

/-- Number of slots; the indices are taken modulo it. -/
def slots : Nat := 256

def nextIndex (i : Nat) : Nat := (i + 1) % slots

structure LockFreeTaskQueue (τ : Type) where
  head : Nat
  tail : Nat
  tasks : Nat -> τ

/-- How far a call of `push_task` has got. -/
inductive PushState (τ : Type) where
  | idle
  | tailLoaded (tcb : τ) (tail seen : Nat)
  | roomSeen (tcb : τ) (tail seen : Nat)
  | slotWritten (tcb : τ) (tail seen : Nat)

/-- How far a call of `pop_task` has got. -/
inductive PopState (τ : Type) where
  | idle
  | headLoaded (head : Nat)
  | taskSeen (head : Nat)
  | slotRead (head : Nat) (tcb : τ)

/-- The queue, the pushing cores and the popping one. -/
structure System (ι τ : Type) where
  queue : LockFreeTaskQueue τ
  pushers : ι -> PushState τ
  popper : PopState τ
  accepted : List τ
  returned : List τ

/-- `LockFreeTaskQueue::new()` and idle cores. -/
def System.new (ι : Type) {τ : Type} (null : τ) : System ι τ where
  queue := { head := 0, tail := 0, tasks := fun _ => null }
  pushers := fun _ => .idle
  popper := .idle
  accepted := []
  returned := []

/-- One atomic access of one core. -/
inductive Action (ι τ : Type) where
  | pushLoadTail (core : ι) (tcb : τ)
  | pushLoadHead (core : ι)
  | pushWriteSlot (core : ι)
  | pushStoreTail (core : ι)
  | popLoadHead
  | popLoadTail
  | popReadSlot
  | popStoreHead

section Steps

variable {ι τ : Type} [DecidableEq ι]

def System.setPusher (s : System ι τ) (core : ι) (p : PushState τ) : System ι τ :=
  { s with pushers := Function.update s.pushers core p }

/-- `none` where the core is not at that access. -/
def step (s : System ι τ) : Action ι τ -> Option (System ι τ)
  | .pushLoadTail core tcb =>
      match s.pushers core with
      | .idle => some (s.setPusher core (.tailLoaded tcb s.queue.tail s.accepted.length))
      | _ => none
  | .pushLoadHead core =>
      match s.pushers core with
      | .tailLoaded tcb tail seen =>
          -- a full queue: `Err(())`
          if nextIndex tail = s.queue.head then some (s.setPusher core .idle)
          else some (s.setPusher core (.roomSeen tcb tail seen))
      | _ => none
  | .pushWriteSlot core =>
      match s.pushers core with
      | .roomSeen tcb tail seen =>
          some { s.setPusher core (.slotWritten tcb tail seen) with
            queue := { s.queue with tasks := Function.update s.queue.tasks tail tcb } }
      | _ => none
  | .pushStoreTail core =>
      match s.pushers core with
      | .slotWritten tcb tail _ =>
          some { s.setPusher core .idle with
            queue := { s.queue with tail := nextIndex tail }
            accepted := s.accepted ++ [tcb] }
      | _ => none
  | .popLoadHead =>
      match s.popper with
      | .idle => some { s with popper := .headLoaded s.queue.head }
      | _ => none
  | .popLoadTail =>
      match s.popper with
      | .headLoaded head =>
          -- an empty queue: `None`
          if head = s.queue.tail then some { s with popper := .idle }
          else some { s with popper := .taskSeen head }
      | _ => none
  | .popReadSlot =>
      match s.popper with
      | .taskSeen head => some { s with popper := .slotRead head (s.queue.tasks head) }
      | _ => none
  | .popStoreHead =>
      match s.popper with
      | .slotRead head tcb =>
          some { s with
            queue := { s.queue with head := nextIndex head }
            popper := .idle
            returned := s.returned ++ [tcb] }
      | _ => none

/-- The accesses by what they find and do. -/
inductive Moves (s : System ι τ) : Action ι τ -> System ι τ -> Prop where
  | loadTail {core : ι} {tcb : τ} (hcore : s.pushers core = .idle) :
      Moves s (.pushLoadTail core tcb)
        (s.setPusher core (.tailLoaded tcb s.queue.tail s.accepted.length))
  | full {core : ι} {tcb : τ} {tail seen : Nat} (hcore : s.pushers core = .tailLoaded tcb tail seen)
      (hfull : nextIndex tail = s.queue.head) :
      Moves s (.pushLoadHead core) (s.setPusher core .idle)
  | loadHead {core : ι} {tcb : τ} {tail seen : Nat}
      (hcore : s.pushers core = .tailLoaded tcb tail seen)
      (hroom : nextIndex tail ≠ s.queue.head) :
      Moves s (.pushLoadHead core) (s.setPusher core (.roomSeen tcb tail seen))
  | writeSlot {core : ι} {tcb : τ} {tail seen : Nat}
      (hcore : s.pushers core = .roomSeen tcb tail seen) :
      Moves s (.pushWriteSlot core)
        { s.setPusher core (.slotWritten tcb tail seen) with
          queue := { s.queue with tasks := Function.update s.queue.tasks tail tcb } }
  | storeTail {core : ι} {tcb : τ} {tail seen : Nat}
      (hcore : s.pushers core = .slotWritten tcb tail seen) :
      Moves s (.pushStoreTail core)
        { s.setPusher core .idle with
          queue := { s.queue with tail := nextIndex tail }
          accepted := s.accepted ++ [tcb] }
  | popHead (hpop : s.popper = .idle) :
      Moves s .popLoadHead { s with popper := .headLoaded s.queue.head }
  | empty {head : Nat} (hpop : s.popper = .headLoaded head) (hempty : head = s.queue.tail) :
      Moves s .popLoadTail { s with popper := .idle }
  | popTail {head : Nat} (hpop : s.popper = .headLoaded head) (htask : head ≠ s.queue.tail) :
      Moves s .popLoadTail { s with popper := .taskSeen head }
  | readSlot {head : Nat} (hpop : s.popper = .taskSeen head) :
      Moves s .popReadSlot { s with popper := .slotRead head (s.queue.tasks head) }
  | storeHead {head : Nat} {tcb : τ} (hpop : s.popper = .slotRead head tcb) :
      Moves s .popStoreHead
        { s with
          queue := { s.queue with head := nextIndex head }
          popper := .idle
          returned := s.returned ++ [tcb] }

theorem moves_of_step {s s' : System ι τ} {a : Action ι τ} (h : step s a = some s') :
    Moves s a s' := by
  unfold step at h
  split at h
  · split at h
    · rename_i hcore
      cases h
      exact .loadTail hcore
    · cases h
  · split at h
    · rename_i hcore
      split at h
      · rename_i hfull
        cases h
        exact .full hcore hfull
      · rename_i hroom
        cases h
        exact .loadHead hcore hroom
    · cases h
  · split at h
    · rename_i hcore
      cases h
      exact .writeSlot hcore
    · cases h
  · split at h
    · rename_i hcore
      cases h
      exact .storeTail hcore
    · cases h
  · split at h
    · rename_i hpop
      cases h
      exact .popHead hpop
    · cases h
  · split at h
    · rename_i hpop
      split at h
      · rename_i hempty
        cases h
        exact .empty hpop hempty
      · rename_i htask
        cases h
        exact .popTail hpop htask
    · cases h
  · split at h
    · rename_i hpop
      cases h
      exact .readSlot hpop
    · cases h
  · split at h
    · rename_i hpop
      cases h
      exact .storeHead hpop
    · cases h

/-- Any interleaving of atomic accesses, from an empty queue. -/
abbrev Interleaving (null : τ) : List (Transition (System ι τ) (Action ι τ)) ->
    System ι τ -> Prop :=
  Trail (fun s a s' => step s a = some s') (System.new ι null)

end Steps

section Invariant

variable {ι τ : Type}

/-!
## The invariant
-/

def PushState.isWritten : PushState τ -> Bool
  | .slotWritten _ _ _ => true
  | _ => false

/-- What a push in flight knows.  Unless another push was accepted since its tail
load, its tail is the current one and the room it saw is still there. -/
def PusherOk (s : System ι τ) : PushState τ -> Prop
  | .idle => True
  | .tailLoaded _ tail seen =>
      seen ≤ s.accepted.length ∧
        (seen = s.accepted.length -> tail = s.accepted.length % slots)
  | .roomSeen _ tail seen =>
      seen ≤ s.accepted.length ∧
        (seen = s.accepted.length ->
          tail = s.accepted.length % slots ∧ s.accepted.length ≤ s.returned.length + 254)
  | .slotWritten tcb tail _ =>
      tail = s.accepted.length % slots ∧ s.accepted.length ≤ s.returned.length + 254 ∧
        s.queue.tasks tail = tcb

def PopperOk (s : System ι τ) : PopState τ -> Prop
  | .idle => True
  | .headLoaded head => head = s.returned.length % slots
  | .taskSeen head => head = s.returned.length % slots ∧ s.returned.length < s.accepted.length
  | .slotRead head tcb =>
      head = s.returned.length % slots ∧ s.accepted[s.returned.length]? = some tcb

structure Fifo (s : System ι τ) : Prop where
  le_accepted : s.returned.length ≤ s.accepted.length
  le_room : s.accepted.length ≤ s.returned.length + 255
  head_eq : s.queue.head = s.returned.length % slots
  tail_eq : s.queue.tail = s.accepted.length % slots
  inOrder : s.returned <+: s.accepted
  held : forall k, s.returned.length ≤ k -> k < s.accepted.length ->
    s.accepted[k]? = some (s.queue.tasks (k % slots))
  pushers : forall core, PusherOk s (s.pushers core)
  popper : PopperOk s s.popper
  alone : forall core core', (s.pushers core).isWritten = true ->
    (s.pushers core').isWritten = true -> core = core'

theorem fifo_new (ι : Type) (null : τ) : Fifo (System.new ι null) where
  le_accepted := Nat.le_refl 0
  le_room := Nat.zero_le _
  head_eq := rfl
  tail_eq := rfl
  inOrder := List.prefix_rfl
  held := by
    intro k _ hk
    cases hk
  pushers := fun _ => trivial
  popper := trivial
  alone := by
    intro core core' h
    cases h

/-!
## Steps that leave the pushing cores alone
-/

theorem fifo_setPopper {s : System ι τ} (h : Fifo s) {p : PopState τ} (hp : PopperOk s p) :
    Fifo { s with popper := p } :=
  { h with popper := hp }

theorem fifo_popStoreHead {s : System ι τ} (h : Fifo s) {head : Nat} {tcb : τ}
    (hpop : s.popper = .slotRead head tcb) :
    Fifo { s with
      queue := { s.queue with head := nextIndex head }
      popper := .idle
      returned := s.returned ++ [tcb] } := by
  have hread := h.popper
  rw [hpop] at hread
  obtain ⟨hhead, htask⟩ := hread
  obtain ⟨hless, hget⟩ := List.getElem?_eq_some_iff.mp htask
  have hlen : (s.returned ++ [tcb]).length = s.returned.length + 1 := by
    rw [List.length_append, List.length_singleton]
  have hroom := h.le_room
  constructor
  · show (s.returned ++ [tcb]).length ≤ s.accepted.length
    lia
  · show s.accepted.length ≤ (s.returned ++ [tcb]).length + 255
    lia
  · show nextIndex head = (s.returned ++ [tcb]).length % slots
    rw [hlen, hhead]
    unfold nextIndex slots
    lia
  · exact h.tail_eq
  · exact prefix_concat_of_getElem h.inOrder htask
  · show RingHolds slots s.queue.tasks s.accepted (s.returned ++ [tcb]).length
    rw [hlen]
    exact ringHolds_take h.held
  · intro other
    have hother := h.pushers other
    show PusherOk _ (s.pushers other)
    cases hstate : s.pushers other with
    | idle => trivial
    | tailLoaded tcb' tail' seen' =>
        rw [hstate] at hother
        exact hother
    | roomSeen tcb' tail' seen' =>
        rw [hstate] at hother
        refine ⟨hother.left, fun hseen => ?_⟩
        obtain ⟨htail, hspare⟩ := hother.right hseen
        refine ⟨htail, ?_⟩
        show s.accepted.length ≤ (s.returned ++ [tcb]).length + 254
        lia
    | slotWritten tcb' tail' seen' =>
        rw [hstate] at hother
        obtain ⟨htail, hspare, hslot⟩ := hother
        refine ⟨htail, ?_, hslot⟩
        show s.accepted.length ≤ (s.returned ++ [tcb]).length + 254
        lia
  · trivial
  · exact h.alone

theorem fifo_pushLoadHead {s : System ι τ} (h : Fifo s) {core : ι} {tcb : τ} {tail seen : Nat}
    (hcore : s.pushers core = .tailLoaded tcb tail seen) (hroom : nextIndex tail ≠ s.queue.head) :
    PusherOk s (.roomSeen tcb tail seen) := by
  have hload := h.pushers core
  rw [hcore] at hload
  refine ⟨hload.left, fun hseen => ⟨hload.right hseen, ?_⟩⟩
  have htail := hload.right hseen
  have hle := h.le_room
  have hback := h.le_accepted
  rw [htail, h.head_eq] at hroom
  unfold nextIndex slots at hroom
  lia

/-- No other push was accepted since this one's tail load, and none is between
its slot write and its tail store. -/
def WritesAlone (s : System ι τ) (core : ι) : Prop :=
  (forall tcb tail seen, s.pushers core = .roomSeen tcb tail seen ->
    seen = s.accepted.length) ∧
    forall other, (s.pushers other).isWritten = false

/-- What a push that has not written its slot knows survives another's acceptance:
it is no longer the first since its tail load. -/
theorem pusherOk_accept {s s' : System ι τ} (hlonger : s.accepted.length < s'.accepted.length)
    {p : PushState τ} (hnot : p.isWritten = false) (h : PusherOk s p) : PusherOk s' p := by
  cases p with
  | idle => trivial
  | tailLoaded tcb tail seen =>
      have hseen := h.left
      exact ⟨by lia, fun hnow => by lia⟩
  | roomSeen tcb tail seen =>
      have hseen := h.left
      exact ⟨by lia, fun hnow => by lia⟩
  | slotWritten tcb tail seen => cases hnot

/-- What a pop knows survives an acceptance. -/
theorem popperOk_accept {s s' : System ι τ} (hextends : s.accepted <+: s'.accepted)
    (hreturned : s'.returned = s.returned) {p : PopState τ} (h : PopperOk s p) :
    PopperOk s' p := by
  have hlen := hextends.length_le
  cases p with
  | idle => trivial
  | headLoaded head =>
      unfold PopperOk at h ⊢
      rw [hreturned]
      exact h
  | taskSeen head =>
      unfold PopperOk at h ⊢
      rw [hreturned]
      exact ⟨h.left, Nat.lt_of_lt_of_le h.right hlen⟩
  | slotRead head tcb =>
      unfold PopperOk at h ⊢
      rw [hreturned]
      obtain ⟨hless, htask⟩ := List.getElem?_eq_some_iff.mp h.right
      refine ⟨h.left, ?_⟩
      rw [List.prefix_iff_getElem?.mp hextends _ hless, htask]

end Invariant

/-!
## Steps of the pushing cores
-/

section Pushes

variable {ι τ : Type} [DecidableEq ι]

theorem fifo_setPusher {s : System ι τ} (h : Fifo s) {core : ι} {p : PushState τ}
    (hp : PusherOk s p) (hnew : p.isWritten = false) : Fifo (s.setPusher core p) where
  le_accepted := h.le_accepted
  le_room := h.le_room
  head_eq := h.head_eq
  tail_eq := h.tail_eq
  inOrder := h.inOrder
  held := h.held
  pushers := by
    intro other
    show PusherOk s (Function.update s.pushers core p other)
    by_cases heq : other = core
    · rw [heq, Function.update_self]
      exact hp
    · rw [Function.update_of_ne heq]
      exact h.pushers other
  popper := h.popper
  alone := by
    have hold : forall other, (Function.update s.pushers core p other).isWritten = true ->
        (s.pushers other).isWritten = true := by
      intro other hother
      by_cases heq : other = core
      · rw [heq, Function.update_self, hnew] at hother
        cases hother
      · rw [Function.update_of_ne heq] at hother
        exact hother
    intro core1 core2 h1 h2
    exact h.alone core1 core2 (hold core1 h1) (hold core2 h2)

theorem fifo_pushWriteSlot {s : System ι τ} (h : Fifo s) {core : ι} {tcb : τ} {tail seen : Nat}
    (hcore : s.pushers core = .roomSeen tcb tail seen) (halone : WritesAlone s core) :
    Fifo { s.setPusher core (.slotWritten tcb tail seen) with
      queue := { s.queue with tasks := Function.update s.queue.tasks tail tcb } } := by
  have hseen := halone.left tcb tail seen hcore
  have hpush := h.pushers core
  rw [hcore] at hpush
  obtain ⟨htail, hroom⟩ := hpush.right hseen
  have hfree : s.accepted.length < s.returned.length + slots := by
    unfold slots
    lia
  constructor
  · exact h.le_accepted
  · exact h.le_room
  · exact h.head_eq
  · exact h.tail_eq
  · exact h.inOrder
  · show RingHolds slots (Function.update s.queue.tasks tail tcb) s.accepted s.returned.length
    rw [htail]
    exact ringHolds_write h.held hfree tcb
  · intro other
    show PusherOk _ (Function.update s.pushers core (.slotWritten tcb tail seen) other)
    by_cases heq : other = core
    · rw [heq, Function.update_self]
      exact ⟨htail, hroom, Function.update_self _ _ _⟩
    · rw [Function.update_of_ne heq]
      have hother := h.pushers other
      have hnot := halone.right other
      cases hstate : s.pushers other with
      | slotWritten tcb' tail' seen' =>
          rw [hstate] at hnot
          cases hnot
      | idle => trivial
      | tailLoaded tcb' tail' seen' =>
          rw [hstate] at hother
          exact hother
      | roomSeen tcb' tail' seen' =>
          rw [hstate] at hother
          exact hother
  · have hpopper := h.popper
    show PopperOk _ s.popper
    cases hstate : s.popper with
    | _ =>
        rw [hstate] at hpopper
        exact hpopper
  · have hcoreOnly : forall other,
        (Function.update s.pushers core (.slotWritten tcb tail seen) other).isWritten = true ->
        other = core := by
      intro other hother
      by_cases heq : other = core
      · exact heq
      · rw [Function.update_of_ne heq, halone.right other] at hother
        cases hother
    intro core1 core2 h1 h2
    rw [hcoreOnly core1 h1, hcoreOnly core2 h2]

theorem fifo_pushStoreTail {s : System ι τ} (h : Fifo s) {core : ι} {tcb : τ} {tail seen : Nat}
    (hcore : s.pushers core = .slotWritten tcb tail seen) :
    Fifo { s.setPusher core .idle with
      queue := { s.queue with tail := nextIndex tail }
      accepted := s.accepted ++ [tcb] } := by
  have hpush := h.pushers core
  rw [hcore] at hpush
  obtain ⟨htail, hroom, hslot⟩ := hpush
  have hlen : (s.accepted ++ [tcb]).length = s.accepted.length + 1 := by
    rw [List.length_append, List.length_singleton]
  have hlonger : s.accepted.length < (s.accepted ++ [tcb]).length := by
    lia
  have hle := h.le_accepted
  constructor
  · show s.returned.length ≤ (s.accepted ++ [tcb]).length
    lia
  · show (s.accepted ++ [tcb]).length ≤ s.returned.length + 255
    lia
  · exact h.head_eq
  · show nextIndex tail = (s.accepted ++ [tcb]).length % slots
    rw [hlen, htail]
    unfold nextIndex slots
    lia
  · exact h.inOrder.trans (List.prefix_append _ _)
  · rw [htail] at hslot
    exact ringHolds_put h.held hslot
  · intro other
    show PusherOk _ (Function.update s.pushers core .idle other)
    by_cases heq : other = core
    · rw [heq, Function.update_self]
      trivial
    · rw [Function.update_of_ne heq]
      have hnot : (s.pushers other).isWritten = false := by
        cases hother : (s.pushers other).isWritten with
        | false => rfl
        | true => exact absurd (h.alone other core hother (by rw [hcore]; rfl)) heq
      exact pusherOk_accept hlonger hnot (h.pushers other)
  · show PopperOk _ s.popper
    refine popperOk_accept (s := s) ?_ ?_ h.popper
    · exact List.prefix_append _ _
    · rfl
  · have hold : forall other,
        (Function.update s.pushers core .idle other).isWritten = true ->
        (s.pushers other).isWritten = true := by
      intro other hother
      by_cases heq : other = core
      · rw [heq, Function.update_self] at hother
        cases hother
      · rw [Function.update_of_ne heq] at hother
        exact hother
    intro core1 core2 h1 h2
    exact h.alone core1 core2 (hold core1 h1) (hold core2 h2)

theorem fifo_step {s s' : System ι τ} {a : Action ι τ} (h : Fifo s) (hstep : step s a = some s')
    (halone : forall core, a = .pushWriteSlot core -> WritesAlone s core) : Fifo s' := by
  cases moves_of_step hstep with
  | loadTail _ => exact fifo_setPusher h ⟨Nat.le_refl _, fun _ => h.tail_eq⟩ rfl
  | full _ _ => exact fifo_setPusher h trivial rfl
  | loadHead hcore hroom => exact fifo_setPusher h (fifo_pushLoadHead h hcore hroom) rfl
  | writeSlot hcore => exact fifo_pushWriteSlot h hcore (halone _ rfl)
  | storeTail hcore => exact fifo_pushStoreTail h hcore
  | popHead _ => exact fifo_setPopper h h.head_eq
  | empty _ _ => exact fifo_setPopper h trivial
  | popTail hpop hne =>
      have hload := h.popper
      rw [hpop] at hload
      refine fifo_setPopper h ⟨hload, ?_⟩
      apply Nat.lt_of_le_of_ne h.le_accepted
      intro heq
      apply hne
      rw [h.tail_eq, ← heq]
      exact hload
  | readSlot hpop =>
      have hseen := h.popper
      rw [hpop] at hseen
      refine fifo_setPopper h ⟨hseen.left, ?_⟩
      rw [hseen.left]
      exact h.held _ (Nat.le_refl _) hseen.right
  | storeHead hpop => exact fifo_popStoreHead h hpop

/-- A slot write of this transition happens alone. -/
def StepsAlone (tr : Transition (System ι τ) (Action ι τ)) : Prop :=
  forall core, tr.label = .pushWriteSlot core -> WritesAlone tr.before core

theorem fifo_interleaving {null : τ} {past : List (Transition (System ι τ) (Action ι τ))}
    {s : System ι τ} (hrun : Interleaving null past s)
    (halone : forall tr, tr ∈ past -> StepsAlone tr) : Fifo s :=
  Trail.invariant (fun _ s => Fifo s) StepsAlone (fifo_new ι null)
    (fun _ _ _ _ h hstep hwrite => fifo_step h hstep hwrite) hrun halone

end Pushes

/-!
## One pushing core
-/

section OneProducer

variable {τ : Type}

/-- No push was accepted since the tail load of the push in flight. -/
def Current (s : System Unit τ) : Prop :=
  match s.pushers () with
  | .idle => True
  | .tailLoaded _ _ seen => seen = s.accepted.length
  | .roomSeen _ _ seen => seen = s.accepted.length
  | .slotWritten _ _ seen => seen = s.accepted.length

theorem current_of_pushers {s s' : System Unit τ} (h : Current s)
    (hpushers : s'.pushers () = s.pushers ()) (haccepted : s'.accepted = s.accepted) :
    Current s' := by
  unfold Current at *
  rw [hpushers, haccepted]
  exact h

theorem current_step {s s' : System Unit τ} {a : Action Unit τ} (h : Current s)
    (hstep : step s a = some s') : Current s' := by
  have hset : forall p : PushState τ, (s.setPusher () p).pushers () = p := by
    intro p
    show Function.update s.pushers () p () = p
    rw [Function.update_self]
  cases moves_of_step hstep with
  | loadTail _ =>
      unfold Current
      rw [hset]
      rfl
  | full _ _ =>
      unfold Current
      rw [hset]
      trivial
  | loadHead hcore _ =>
      unfold Current at h ⊢
      rw [hcore] at h
      rw [hset]
      exact h
  | writeSlot hcore =>
      unfold Current at h ⊢
      rw [hcore] at h
      simp only [hset]
      exact h
  | storeTail _ =>
      unfold Current
      simp only [hset]
  | popHead _ => exact current_of_pushers h rfl rfl
  | empty _ _ => exact current_of_pushers h rfl rfl
  | popTail _ _ => exact current_of_pushers h rfl rfl
  | readSlot _ => exact current_of_pushers h rfl rfl
  | storeHead _ => exact current_of_pushers h rfl rfl

/-- A single pushing core always writes alone. -/
theorem writesAlone_of_current {s s' : System Unit τ} (h : Current s)
    (hstep : step s (.pushWriteSlot ()) = some s') : WritesAlone s () := by
  cases moves_of_step hstep with
  | writeSlot hcore =>
      constructor
      · intro tcb' tail' seen' hstate
        unfold Current at h
        rw [hstate] at h
        exact h
      · intro other
        rw [hcore]
        rfl

theorem fifo_oneProducer {null : τ} {past : List (Transition (System Unit τ) (Action Unit τ))}
    {s : System Unit τ} (hrun : Interleaving null past s) : Fifo s ∧ Current s := by
  refine Trail.invariant (fun _ s => Fifo s ∧ Current s) (fun _ => True)
    ⟨fifo_new Unit null, trivial⟩ ?_ hrun (fun _ _ => trivial)
  rintro _ s a s' ⟨hfifo, hcurrent⟩ hstep _
  refine ⟨fifo_step hfifo hstep ?_, current_step hcurrent hstep⟩
  rintro ⟨⟩ rfl
  exact writesAlone_of_current hcurrent hstep

/-- What one producer and one consumer can rely on in every state. -/
structure DeliversInOrder (s : System Unit τ) : Prop where
  inOrder : s.returned <+: s.accepted
  head_lt : s.queue.head < slots
  tail_lt : s.queue.tail < slots
  held_le : s.accepted.length ≤ s.returned.length + 255
  /-- `Err(())` at the head load. -/
  push_refused : forall tcb tail seen, s.pushers () = .tailLoaded tcb tail seen ->
    (step s (.pushLoadHead ()) = some (s.setPusher () .idle) ↔
      s.accepted.length = s.returned.length + 255)
  /-- A step that ends a call of `push_task` without its task is such a head load. -/
  push_fails : forall a s', step s a = some s' -> s.pushers () ≠ .idle ->
    s'.pushers () = .idle -> s'.accepted = s.accepted ->
      a = .pushLoadHead () ∧ s.accepted.length = s.returned.length + 255
  /-- `None` at the tail load. -/
  pop_refused : forall head, s.popper = .headLoaded head ->
    (step s .popLoadTail = some { s with popper := .idle } ↔ s.accepted = s.returned)
  /-- A step that ends a call of `pop_task` without a task is such a tail load. -/
  pop_none : forall a s', step s a = some s' -> s.popper ≠ .idle -> s'.popper = .idle ->
    s'.returned = s.returned -> a = .popLoadTail ∧ s.accepted = s.returned
  /-- The slot that is read holds the next accepted task. -/
  reads_next : forall head, s.popper = .taskSeen head ->
    s.accepted[s.returned.length]? = some (s.queue.tasks head)

theorem accepted_eq_of_length {ι : Type} {s : System ι τ} (h : Fifo s)
    (hlen : s.accepted.length % slots = s.returned.length % slots) :
    s.accepted = s.returned := by
  have hle := h.le_accepted
  have hroom := h.le_room
  have hsame : s.returned.length = s.accepted.length := by
    unfold slots at hlen
    lia
  exact (h.inOrder.eq_of_length hsame).symm

theorem pushers_setPusher (s : System Unit τ) (p : PushState τ) :
    (s.setPusher () p).pushers () = p := by
  show Function.update s.pushers () p () = p
  rw [Function.update_self]

/-- What the head load of `push_task` finds and does. -/
theorem step_pushLoadHead {s : System Unit τ} {tcb : τ} {tail seen : Nat}
    (hstate : s.pushers () = .tailLoaded tcb tail seen) :
    step s (.pushLoadHead ()) =
      if nextIndex tail = s.queue.head then some (s.setPusher () .idle)
      else some (s.setPusher () (.roomSeen tcb tail seen)) := by
  simp only [step, hstate]

theorem pushLoadHead_idle_iff {s : System Unit τ} {tcb : τ} {tail seen : Nat}
    (hstate : s.pushers () = .tailLoaded tcb tail seen) :
    step s (.pushLoadHead ()) = some (s.setPusher () .idle) ↔ nextIndex tail = s.queue.head := by
  rw [step_pushLoadHead hstate]
  by_cases hfull : nextIndex tail = s.queue.head
  · rw [if_pos hfull]
    exact iff_of_true rfl hfull
  · rw [if_neg hfull]
    refine iff_of_false (fun heq => ?_) hfull
    have hpusher := congrArg (fun s : System Unit τ => s.pushers ()) (Option.some.inj heq)
    simp only [pushers_setPusher] at hpusher
    cases hpusher

/-- What the tail load of `pop_task` finds and does. -/
theorem step_popLoadTail {s : System Unit τ} {head : Nat} (hstate : s.popper = .headLoaded head) :
    step s .popLoadTail =
      if head = s.queue.tail then some { s with popper := .idle }
      else some { s with popper := .taskSeen head } := by
  simp only [step, hstate]

theorem popLoadTail_idle_iff {s : System Unit τ} {head : Nat}
    (hstate : s.popper = .headLoaded head) :
    step s .popLoadTail = some { s with popper := .idle } ↔ head = s.queue.tail := by
  rw [step_popLoadTail hstate]
  by_cases hempty : head = s.queue.tail
  · rw [if_pos hempty]
    exact iff_of_true rfl hempty
  · rw [if_neg hempty]
    refine iff_of_false (fun heq => ?_) hempty
    have hpopper := congrArg System.popper (Option.some.inj heq)
    cases hpopper

/-- The index test of the head load. -/
theorem full_iff {s : System Unit τ} (hfifo : Fifo s) (hcurrent : Current s) {tcb : τ}
    {tail seen : Nat} (hstate : s.pushers () = .tailLoaded tcb tail seen) :
    nextIndex tail = s.queue.head ↔ s.accepted.length = s.returned.length + 255 := by
  have hpush := hfifo.pushers ()
  unfold Current at hcurrent
  rw [hstate] at hpush hcurrent
  have htail := hpush.right hcurrent
  have hle := hfifo.le_accepted
  have hroom := hfifo.le_room
  rw [hfifo.head_eq, htail]
  unfold nextIndex slots
  lia

/-- The index test of the tail load. -/
theorem empty_iff {s : System Unit τ} (hfifo : Fifo s) {head : Nat}
    (hstate : s.popper = .headLoaded head) :
    head = s.queue.tail ↔ s.accepted = s.returned := by
  have hpop := hfifo.popper
  rw [hstate] at hpop
  have hhead : head = s.returned.length % slots := hpop
  rw [hhead, hfifo.tail_eq]
  constructor
  · exact fun hempty => accepted_eq_of_length hfifo hempty.symm
  · intro heq
    rw [heq]

/-- In every interleaving of one pushing and one popping core. -/
theorem deliversInOrder_of_interleaving {null : τ}
    {past : List (Transition (System Unit τ) (Action Unit τ))} {s : System Unit τ}
    (hrun : Interleaving null past s) : DeliversInOrder s := by
  obtain ⟨hfifo, hcurrent⟩ := fifo_oneProducer hrun
  constructor
  · exact hfifo.inOrder
  · rw [hfifo.head_eq]
    exact Nat.mod_lt _ (by decide)
  · rw [hfifo.tail_eq]
    exact Nat.mod_lt _ (by decide)
  · exact hfifo.le_room
  · intro tcb tail seen hstate
    rw [pushLoadHead_idle_iff hstate, full_iff hfifo hcurrent hstate]
  · intro a s' hstep hbusy hidle hsame
    cases moves_of_step hstep with
    | loadTail hcore => exact absurd hcore hbusy
    | full hcore hfull => exact ⟨rfl, (full_iff hfifo hcurrent hcore).mp hfull⟩
    | loadHead hcore _ =>
        rw [pushers_setPusher] at hidle
        cases hidle
    | writeSlot _ =>
        have hwritten := (pushers_setPusher s _).symm.trans hidle
        cases hwritten
    | storeTail _ => exact absurd (List.append_right_eq_self.mp hsame) (List.cons_ne_nil _ _)
    | _ => exact absurd hidle hbusy
  · intro head hstate
    rw [popLoadTail_idle_iff hstate, empty_iff hfifo hstate]
  · intro a s' hstep hbusy hidle hsame
    cases moves_of_step hstep with
    | popHead hpop => exact absurd hpop hbusy
    | empty hpop hempty => exact ⟨rfl, (empty_iff hfifo hpop).mp hempty⟩
    | popTail _ _ => cases hidle
    | readSlot _ => cases hidle
    | storeHead _ => exact absurd (List.append_right_eq_self.mp hsame) (List.cons_ne_nil _ _)
    | _ => exact absurd hidle hbusy
  · intro head hstate
    have hpop := hfifo.popper
    rw [hstate] at hpop
    rw [hpop.left]
    exact hfifo.held _ (Nat.le_refl _) hpop.right

/-- A push and the pop that returns its task. -/
theorem deliversInOrder_one : exists past : List (Transition (System Unit Nat) (Action Unit Nat)),
    exists s : System Unit Nat, Interleaving 0 past s ∧ s.returned = [7] ∧ DeliversInOrder s := by
  have hplay : exists past s, play step [] (System.new Unit 0)
      [.pushLoadTail () 7, .pushLoadHead (), .pushWriteSlot (), .pushStoreTail (), .popLoadHead,
        .popLoadTail, .popReadSlot, .popStoreHead] = some (past, s) ∧ s.returned = [7] :=
    ⟨_, _, rfl, rfl⟩
  obtain ⟨past, s, hplay, hreturned⟩ := hplay
  have hrun := trail_play Trail.nil hplay
  exact ⟨past, s, hrun, hreturned, deliversInOrder_of_interleaving hrun⟩

end OneProducer

/-!
## Several pushing cores

`push_task` takes its slot with a load and a store of the tail, not with a
compare and swap.
-/

section ManyProducers

variable {ι τ : Type}

/-- Every call has returned and the queue is empty. -/
structure Drained (s : System ι τ) : Prop where
  pushers : forall core, s.pushers core = .idle
  popper : s.popper = .idle
  empty : s.queue.head = s.queue.tail

/-- A drained queue has returned each accepted task exactly once. -/
def DispatchExact (ι : Type) [DecidableEq ι] (null : τ) : Prop :=
  forall past (s : System ι τ), Interleaving null past s -> Drained s ->
    s.returned.Perm s.accepted

theorem dispatchExact_of_stepsAlone [DecidableEq ι] {null : τ}
    {past : List (Transition (System ι τ) (Action ι τ))} {s : System ι τ}
    (hrun : Interleaving null past s) (halone : forall tr, tr ∈ past -> StepsAlone tr)
    (hdrained : Drained s) : s.returned.Perm s.accepted := by
  have hfifo := fifo_interleaving hrun halone
  have hlen : s.accepted.length % slots = s.returned.length % slots := by
    rw [← hfifo.tail_eq, ← hfifo.head_eq, hdrained.empty]
  rw [accepted_eq_of_length hfifo hlen]

/-- The second core pushes after the first one's tail store. -/
theorem dispatchExact_inTurn : exists past, exists s : System Bool Nat,
    Interleaving 0 past s ∧ s.accepted = [7, 8] ∧ s.returned.Perm s.accepted := by
  have hplay : exists past s, play step [] (System.new Bool 0) [.pushLoadTail false 7,
      .pushLoadHead false, .pushWriteSlot false, .pushStoreTail false, .pushLoadTail true 8,
      .pushLoadHead true, .pushWriteSlot true, .pushStoreTail true, .popLoadHead, .popLoadTail,
      .popReadSlot, .popStoreHead, .popLoadHead, .popLoadTail, .popReadSlot, .popStoreHead] =
        some (past, s) ∧ s.accepted = [7, 8] ∧ Drained s ∧
          forall tr, tr ∈ past -> StepsAlone tr := by
    refine ⟨_, _, rfl, rfl, ⟨?_, rfl, rfl⟩, ?_⟩
    · rintro (_ | _) <;> rfl
    · intro tr htr core hlabel
      simp only [List.mem_cons, List.not_mem_nil, or_false] at htr
      rcases htr with rfl | rfl | rfl | rfl | rfl | rfl | rfl | rfl | rfl | rfl | rfl | rfl | rfl |
        rfl | rfl | rfl <;> cases hlabel
      · refine ⟨?_, by rintro (_ | _) <;> rfl⟩
        rintro tcb tail seen ⟨⟩
        rfl
      · refine ⟨?_, by rintro (_ | _) <;> rfl⟩
        rintro tcb tail seen ⟨⟩
        rfl
  obtain ⟨past, s, hplay, haccepted, hdrained, halone⟩ := hplay
  have hrun := trail_play Trail.nil hplay
  exact ⟨past, s, hrun, haccepted, dispatchExact_of_stepsAlone hrun halone hdrained⟩

/-- Both cores load the tail before either stores it. -/
theorem not_dispatchExact_race : ¬DispatchExact Bool (0 : Nat) := by
  intro hexact
  have hplay : exists past s, play step [] (System.new Bool 0) [.pushLoadTail false 7,
      .pushLoadTail true 8, .pushLoadHead false, .pushLoadHead true, .pushWriteSlot false,
      .pushWriteSlot true, .pushStoreTail false, .pushStoreTail true, .popLoadHead, .popLoadTail,
      .popReadSlot, .popStoreHead] =
        some (past, s) ∧ s.accepted = [7, 8] ∧ s.returned = [8] ∧ Drained s := by
    refine ⟨_, _, rfl, rfl, rfl, ⟨?_, rfl, rfl⟩⟩
    rintro (_ | _) <;> rfl
  obtain ⟨past, s, hplay, haccepted, hreturned, hdrained⟩ := hplay
  have hperm := hexact past s (trail_play Trail.nil hplay) hdrained
  rw [haccepted, hreturned] at hperm
  have hlen := hperm.length_eq
  cases hlen

end ManyProducers

end Scheduler
end HolyRust
