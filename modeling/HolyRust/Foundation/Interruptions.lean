import HolyRust.Foundation.BusProgram

/-!
# Programs that are interrupted

Handlers run between any two accesses of a program, each of them to its end.  They are
put in front of the bus: before an access it serves the handlers that are due.  A
program that cannot tell whether a handler has run yet gets on as if it were alone, and
the handlers find the device as if they came after it.
-/

namespace HolyRust
namespace Foundation

/-- The device, and the handlers due before each of the next accesses. -/
structure Interrupted (device handler : Type) where
  device : device
  due : List (List handler)

section Interruptions

variable {address data device handler α β : Type}
variable (bus : Bus address data device) (handle : handler -> device -> device)

def handleAll (handlers : List handler) (d : device) : device :=
  handlers.foldl (fun d h => handle h d) d

theorem handleAll_append (first second : List handler) (d : device) :
    handleAll handle (first ++ second) d = handleAll handle second (handleAll handle first d) :=
  List.foldl_append

def Interrupted.serve (s : Interrupted device handler) : Interrupted device handler :=
  match s.due with
  | [] => s
  | handlers :: rest => { device := handleAll handle handlers s.device, due := rest }

def Bus.interrupted : Bus address data (Interrupted device handler) where
  load s a :=
    ((bus.load (s.serve handle).device a).1,
      { device := (bus.load (s.serve handle).device a).2, due := (s.serve handle).due })
  store s a v :=
    { device := bus.store (s.serve handle).device a v, due := (s.serve handle).due }

theorem interrupted_load (s : Interrupted device handler) (a : address) :
    (bus.interrupted handle).load s a =
      ((bus.load (s.serve handle).device a).1,
        { device := (bus.load (s.serve handle).device a).2, due := (s.serve handle).due }) := rfl

theorem interrupted_store (s : Interrupted device handler) (a : address) (v : data) :
    (bus.interrupted handle).store s a v =
      { device := bus.store (s.serve handle).device a v, due := (s.serve handle).due } := rfl

/-!
## Getting on undisturbed
-/

variable (Allowed : handler -> Prop)

/-- From `d` the program returns `a` and leaves `d'`, up to the handlers that have run
before and meanwhile. -/
def Undisturbed (x : BusM address data (Interrupted device handler) α) (d : device) (a : α)
    (d' : device) : Prop :=
  forall done due, (forall h, h ∈ done ++ due.flatten -> Allowed h) ->
    exists served rest, due.flatten = served ++ rest.flatten ∧
      Yields x { device := handleAll handle done d, due } a
        { device := handleAll handle (done ++ served) d', due := rest }

variable {handle Allowed}

theorem undisturbed_pure (a : α) (d : device) :
    Undisturbed handle Allowed (pure a : BusM address data (Interrupted device handler) α) d a
      d := by
  intro done due _
  refine ⟨[], due, rfl, ?_⟩
  rw [List.append_nil]
  exact yields_pure a _

theorem undisturbed_mono {Allowed' : handler -> Prop}
    {x : BusM address data (Interrupted device handler) α} {d d' : device} {a : α}
    (himp : forall h, Allowed' h -> Allowed h) (hx : Undisturbed handle Allowed x d a d') :
    Undisturbed handle Allowed' x d a d' :=
  fun done due hallowed => hx done due fun h hmem => himp h (hallowed h hmem)

theorem undisturbed_bind {x : BusM address data (Interrupted device handler) α}
    {f : α -> BusM address data (Interrupted device handler) β} {d d' d'' : device} {a : α} {b : β}
    (hx : Undisturbed handle Allowed x d a d') (hf : Undisturbed handle Allowed (f a) d' b d'') :
    Undisturbed handle Allowed (x >>= f) d b d'' := by
  intro done due hallowed
  obtain ⟨served, rest, hsplit, hfirst⟩ := hx done due hallowed
  rw [hsplit, ← List.append_assoc] at hallowed
  obtain ⟨served', rest', hsplit', hsecond⟩ := hf (done ++ served) rest hallowed
  refine ⟨served ++ served', rest', ?_, ?_⟩
  · rw [hsplit, hsplit', List.append_assoc]
  · rw [List.append_assoc] at hsecond
    exact yields_bind hfirst hsecond

/-- A fact about a device that no allowed handler changes. -/
theorem handleAll_same {γ : Type} (view : device -> γ)
    (h : forall i, Allowed i -> forall d, view (handle i d) = view d) {handlers : List handler}
    (hallowed : forall i, i ∈ handlers -> Allowed i) (d : device) :
    view (handleAll handle handlers d) = view d := by
  induction handlers generalizing d with
  | nil => rfl
  | cons i handlers ih =>
      have hrest := ih (fun j hj => hallowed j (List.mem_cons_of_mem i hj)) (handle i d)
      exact hrest.trans (h i (hallowed i List.mem_cons_self) d)

/-- A change of the device that every allowed handler commutes with. -/
theorem handleAll_commutes (change : device -> device)
    (h : forall i, Allowed i -> forall d, handle i (change d) = change (handle i d))
    {handlers : List handler} (hallowed : forall i, i ∈ handlers -> Allowed i) (d : device) :
    handleAll handle handlers (change d) = change (handleAll handle handlers d) := by
  induction handlers generalizing d with
  | nil => rfl
  | cons i handlers ih =>
      have hrest := ih (fun j hj => hallowed j (List.mem_cons_of_mem i hj)) (handle i d)
      show handleAll handle handlers (handle i (change d)) = _
      rw [h i (hallowed i List.mem_cons_self) d]
      exact hrest

/-- The handlers that an access serves. -/
theorem serve_eq {done : List handler} {due : List (List handler)}
    (hallowed : forall i, i ∈ done ++ due.flatten -> Allowed i) (d : device) :
    exists served rest, due.flatten = served ++ rest.flatten ∧
      (forall i, i ∈ done ++ served -> Allowed i) ∧
      ({ device := handleAll handle done d, due } : Interrupted device handler).serve handle =
        { device := handleAll handle (done ++ served) d, due := rest } := by
  cases due with
  | nil =>
      refine ⟨[], [], rfl, hallowed, ?_⟩
      rw [List.append_nil]
      rfl
  | cons handlers rest =>
      refine ⟨handlers, rest, rfl, ?_, ?_⟩
      · intro i hi
        refine hallowed i ?_
        rw [List.flatten_cons, ← List.append_assoc]
        exact List.mem_append_left _ hi
      · rw [handleAll_append]
        rfl

/-- A write that the handlers commute with. -/
theorem undisturbed_write {a : address} {v : data} (d : device)
    (h : forall i, Allowed i -> forall d, handle i (bus.store d a v) = bus.store (handle i d) a v) :
    Undisturbed handle Allowed (busWrite (bus.interrupted handle) a v) d () (bus.store d a v) := by
  intro done due hallowed
  obtain ⟨served, rest, hsplit, hserved, hserve⟩ := serve_eq hallowed d
  refine ⟨served, rest, hsplit, ?_⟩
  have hwrite := yields_write (bus.interrupted handle) a v
    { device := handleAll handle done d, due := due }
  have hstore : (bus.interrupted handle).store { device := handleAll handle done d, due } a v =
      { device := handleAll handle (done ++ served) (bus.store d a v), due := rest } := by
    rw [interrupted_store, hserve]
    rw [← handleAll_commutes (fun d => bus.store d a v) h hserved d]
  rw [hstore] at hwrite
  exact hwrite

/-- A read, of whose value only something matters that no handler changes. -/
theorem undisturbed_read {a : address} {d d' : device} {b : β}
    {f : data -> BusM address data (Interrupted device handler) β}
    (hpure : forall d, (bus.load d a).2 = d)
    (hsame : forall i, Allowed i -> forall d, f (bus.load (handle i d) a).1 = f (bus.load d a).1)
    (hf : Undisturbed handle Allowed (f (bus.load d a).1) d b d') :
    Undisturbed handle Allowed (busRead (bus.interrupted handle) a >>= f) d b d' := by
  intro done due hallowed
  obtain ⟨served, rest, hsplit, hserved, hserve⟩ := serve_eq hallowed d
  have hread := yields_read (bus.interrupted handle) a { device := handleAll handle done d, due }
  have hload : (bus.interrupted handle).load { device := handleAll handle done d, due } a =
      ((bus.load (handleAll handle (done ++ served) d) a).1,
        { device := handleAll handle (done ++ served) d, due := rest }) := by
    rw [interrupted_load, hserve, hpure]
  have hvalue : f (bus.load (handleAll handle (done ++ served) d) a).1 = f (bus.load d a).1 :=
    handleAll_same (fun d => f (bus.load d a).1) hsame hserved d
  rw [hload] at hread
  rw [hsplit, ← List.append_assoc] at hallowed
  obtain ⟨served', rest', hsplit', hrest⟩ := hf (done ++ served) rest hallowed
  rw [← hvalue, List.append_assoc] at hrest
  refine ⟨served ++ served', rest', ?_, yields_bind hread hrest⟩
  rw [hsplit, hsplit', List.append_assoc]

end Interruptions

end Foundation
end HolyRust
