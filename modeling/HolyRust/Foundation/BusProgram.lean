import HolyRust.Foundation.Bus
import HolyRust.Foundation.Program

/-!
# Programs that talk to a bus

A driver reads and writes words and keeps no state of its own.  The accesses it makes
are recorded in order; a wait that is still going on when its fuel is spent ends with
an error.
-/

namespace HolyRust
namespace Foundation

/-- The device behind the bus and the accesses so far. -/
structure BusState (address data device : Type) where
  device : device
  trace : List (Access address data)

abbrev BusM (address data device : Type) : Type -> Type :=
  EStateM Unit (BusState address data device)

section Programs

variable {address data device α β : Type}

def busRead (bus : Bus address data device) (a : address) : BusM address data device data :=
  fun s =>
    .ok (bus.load s.device a).1
      { device := (bus.load s.device a).2, trace := s.trace ++ [.read a] }

def busWrite (bus : Bus address data device) (a : address) (v : data) :
    BusM address data device Unit :=
  fun s =>
    .ok () { device := bus.store s.device a v, trace := s.trace ++ [.write a v] }

/-- Read `a` until the value is `ready`. -/
def busWait (bus : Bus address data device) (ready : data -> Bool) (a : address) :
    Nat -> BusM address data device data
  | 0 => throw ()
  | fuel + 1 => do
      let v <- busRead bus a
      if ready v then pure v else busWait bus ready a fuel

/-- The accesses of a program. -/
def accessesOf (x : BusM address data device α) (d : device) : List (Access address data) :=
  (finalState (x { device := d, trace := [] })).trace

/-!
## Where a program goes
-/

/-- The program adds accesses in `A` to the trace, and no others. -/
def Touches (A : Access address data -> Prop) (x : BusM address data device α) : Prop :=
  forall s, exists new, (finalState (x s)).trace = s.trace ++ new ∧ forall acc, acc ∈ new -> A acc

variable {A : Access address data -> Prop}

theorem touches_pure (a : α) : Touches A (pure a : BusM address data device α) :=
  fun _ => ⟨[], (List.append_nil _).symm, fun _ h => by cases h⟩

theorem touches_throw : Touches A (throw () : BusM address data device α) :=
  fun _ => ⟨[], (List.append_nil _).symm, fun _ h => by cases h⟩

theorem touches_read (bus : Bus address data device) {a : address} (h : A (.read a)) :
    Touches A (busRead bus a) := by
  intro s
  refine ⟨[.read a], rfl, ?_⟩
  intro acc hacc
  rw [List.mem_singleton.mp hacc]
  exact h

theorem touches_write (bus : Bus address data device) {a : address} {v : data}
    (h : A (.write a v)) : Touches A (busWrite bus a v) := by
  intro s
  refine ⟨[.write a v], rfl, ?_⟩
  intro acc hacc
  rw [List.mem_singleton.mp hacc]
  exact h

theorem touches_bind {x : BusM address data device α} {f : α -> BusM address data device β}
    (hx : Touches A x) (hf : forall a, Touches A (f a)) : Touches A (x >>= f) := by
  intro s
  obtain ⟨new, htrace, hnew⟩ := hx s
  rw [bind_apply]
  cases hxs : x s with
  | error e s' =>
      rw [hxs] at htrace
      exact ⟨new, htrace, hnew⟩
  | ok a s' =>
      rw [hxs] at htrace
      obtain ⟨more, htrace', hmore⟩ := hf a s'
      refine ⟨new ++ more, ?_, ?_⟩
      · rw [htrace', ← List.append_assoc]
        exact congrArg (· ++ more) htrace
      · intro acc hacc
        rcases List.mem_append.mp hacc with h | h
        · exact hnew acc h
        · exact hmore acc h

theorem touches_ite {p : Prop} [Decidable p] {x y : BusM address data device α}
    (hx : Touches A x) (hy : Touches A y) : Touches A (if p then x else y) := by
  by_cases hp : p
  · rw [if_pos hp]
    exact hx
  · rw [if_neg hp]
    exact hy

theorem touches_wait (bus : Bus address data device) (ready : data -> Bool) {a : address}
    (h : A (.read a)) (fuel : Nat) : Touches A (busWait bus ready a fuel) := by
  induction fuel with
  | zero => exact touches_throw
  | succ fuel ih => exact touches_bind (touches_read bus h) fun _ => touches_ite (touches_pure _) ih

theorem forall_accessesOf {x : BusM address data device α} (h : Touches A x) (d : device) :
    forall acc, acc ∈ accessesOf x d -> A acc := by
  obtain ⟨new, htrace, hnew⟩ := h { device := d, trace := [] }
  intro acc hacc
  unfold accessesOf at hacc
  rw [htrace] at hacc
  exact hnew acc hacc

/-- The first access of the program, whatever the device answers. -/
def StartsWith (acc : Access address data) (x : BusM address data device α) : Prop :=
  forall s, exists new, (finalState (x s)).trace = s.trace ++ acc :: new

theorem startsWith_read (bus : Bus address data device) (a : address) :
    StartsWith (.read a) (busRead bus a) :=
  fun _ => ⟨[], rfl⟩

theorem startsWith_bind {acc : Access address data} {x : BusM address data device α}
    {f : α -> BusM address data device β} (hx : StartsWith acc x)
    (hf : forall a, Touches A (f a)) : StartsWith acc (x >>= f) := by
  intro s
  obtain ⟨new, htrace⟩ := hx s
  rw [bind_apply]
  cases hxs : x s with
  | error e s' =>
      rw [hxs] at htrace
      exact ⟨new, htrace⟩
  | ok a s' =>
      rw [hxs] at htrace
      obtain ⟨more, htrace', _⟩ := hf a s'
      refine ⟨new ++ more, ?_⟩
      rw [htrace']
      show s'.trace ++ more = s.trace ++ acc :: (new ++ more)
      rw [show s'.trace = s.trace ++ acc :: new from htrace, List.append_assoc, List.cons_append]

theorem mem_accessesOf {acc : Access address data} {x : BusM address data device α}
    (h : StartsWith acc x) (d : device) : acc ∈ accessesOf x d := by
  obtain ⟨new, htrace⟩ := h { device := d, trace := [] }
  unfold accessesOf
  rw [htrace]
  exact List.mem_cons_self

/-!
## What a program does to the device
-/

/-- From the device `d` the program returns `a` and leaves the device `d'`. -/
def Yields (x : BusM address data device α) (d : device) (a : α) (d' : device) : Prop :=
  forall trace, exists trace', x { device := d, trace } = .ok a { device := d', trace := trace' }

theorem yields_pure (a : α) (d : device) : Yields (pure a : BusM address data device α) d a d :=
  fun trace => ⟨trace, rfl⟩

theorem yields_read (bus : Bus address data device) (a : address) (d : device) :
    Yields (busRead bus a) d (bus.load d a).1 (bus.load d a).2 :=
  fun _ => ⟨_, rfl⟩

theorem yields_write (bus : Bus address data device) (a : address) (v : data) (d : device) :
    Yields (busWrite bus a v) d () (bus.store d a v) :=
  fun _ => ⟨_, rfl⟩

theorem yields_bind {x : BusM address data device α} {f : α -> BusM address data device β}
    {d d' d'' : device} {a : α} {b : β} (hx : Yields x d a d') (hf : Yields (f a) d' b d'') :
    Yields (x >>= f) d b d'' := by
  intro trace
  obtain ⟨trace', hfirst⟩ := hx trace
  obtain ⟨trace'', hsecond⟩ := hf trace'
  exact ⟨trace'', by rw [bind_apply, hfirst]; exact hsecond⟩

/-- A read that is ready ends a wait. -/
theorem yields_wait_ready {bus : Bus address data device} {ready : data -> Bool} {a : address}
    {d : device} (fuel : Nat) (hready : ready (bus.load d a).1 = true) :
    Yields (busWait bus ready a (fuel + 1)) d (bus.load d a).1 (bus.load d a).2 := by
  refine yields_bind (yields_read bus a d) ?_
  rw [if_pos hready]
  exact yields_pure _ _

theorem yields_wait_again {bus : Bus address data device} {ready : data -> Bool} {a : address}
    {d d' : device} {v : data} {fuel : Nat} (hbusy : ready (bus.load d a).1 = false)
    (hrest : Yields (busWait bus ready a fuel) (bus.load d a).2 v d') :
    Yields (busWait bus ready a (fuel + 1)) d v d' := by
  refine yields_bind (yields_read bus a d) ?_
  rw [if_neg (by rw [hbusy]; decide)]
  exact hrest

/-- From the device `d` the program does not come to its end. -/
def Stuck (x : BusM address data device α) (d : device) : Prop :=
  forall trace, exists s, x { device := d, trace } = .error () s

theorem stuck_bind {x : BusM address data device α} {f : α -> BusM address data device β}
    {d : device} (hx : Stuck x d) : Stuck (x >>= f) d := by
  intro trace
  obtain ⟨s, hs⟩ := hx trace
  exact ⟨s, by rw [bind_apply, hs]⟩

theorem stuck_after {x : BusM address data device α} {f : α -> BusM address data device β}
    {d d' : device} {a : α} (hx : Yields x d a d') (hf : Stuck (f a) d') : Stuck (x >>= f) d := by
  intro trace
  obtain ⟨trace', hfirst⟩ := hx trace
  obtain ⟨s, hs⟩ := hf trace'
  exact ⟨s, by rw [bind_apply, hfirst]; exact hs⟩

/-- A device that is never ready keeps a wait going. -/
theorem stuck_wait {bus : Bus address data device} {ready : data -> Bool} {a : address}
    {d : device} (hbusy : ready (bus.load d a).1 = false) (hsame : (bus.load d a).2 = d)
    (fuel : Nat) : Stuck (busWait bus ready a fuel) d := by
  induction fuel with
  | zero => exact fun _ => ⟨_, rfl⟩
  | succ fuel ih =>
      have hread := yields_read bus a d
      rw [hsame] at hread
      refine stuck_after hread ?_
      rw [if_neg (by rw [hbusy]; decide)]
      exact ih

end Programs

end Foundation
end HolyRust
