/-!
# Stateful programs with failure

A program is an `EStateM` computation: it reads and replaces a state and ends
either with a value or with an error.  A failing program keeps the state it had
reached, so a rule about a program speaks about both ends.

`Sat x s Q E` is the weakest precondition at the single start state `s`.  The
rules below push it through the program constructors; the clients state one
`Sat` lemma for each of their operations and compose them with `sat_bind` and
`sat_mono`.
-/

namespace HolyRust
namespace Foundation

/-!
## Running the program constructors
-/

theorem bind_apply (x : EStateM ε σ α) (f : α -> EStateM ε σ β) (s : σ) :
    (x >>= f) s =
      match x s with
      | .ok a s' => f a s'
      | .error e s' => .error e s' := by
  show EStateM.bind x f s = _
  unfold EStateM.bind
  cases x s <;> rfl

theorem bind_of_ok {x : EStateM ε σ α} {f : α -> EStateM ε σ β} {a : α} {s s' : σ}
    (h : x s = .ok a s') : (x >>= f) s = f a s' := by
  rw [bind_apply, h]

theorem pure_apply (a : α) (s : σ) :
    (pure a : EStateM ε σ α) s = .ok a s := rfl

theorem throw_apply (e : ε) (s : σ) :
    (throw e : EStateM ε σ α) s = .error e s := rfl

theorem get_apply (s : σ) : (get : EStateM ε σ σ) s = .ok s s := rfl

theorem set_apply (t s : σ) :
    (set t : EStateM ε σ PUnit) s = .ok ⟨⟩ t := rfl

theorem modify_apply (f : σ -> σ) (s : σ) :
    (modify f : EStateM ε σ PUnit) s = .ok ⟨⟩ (f s) := rfl

/-!
## Weakest preconditions
-/

/-- From `s`, a normal end of `x` satisfies `Q` and a failure satisfies `E`. -/
def Sat (x : EStateM ε σ α) (s : σ)
    (Q : α -> σ -> Prop) (E : ε -> σ -> Prop) : Prop :=
  match x s with
  | .ok a s' => Q a s'
  | .error e s' => E e s'

theorem sat_of_ok {x : EStateM ε σ α} {s s' : σ} {a : α}
    {Q : α -> σ -> Prop} {E : ε -> σ -> Prop}
    (h : Sat x s Q E) (hx : x s = .ok a s') : Q a s' := by
  unfold Sat at h
  rw [hx] at h
  exact h

theorem sat_of_error {x : EStateM ε σ α} {s s' : σ} {e : ε}
    {Q : α -> σ -> Prop} {E : ε -> σ -> Prop}
    (h : Sat x s Q E) (hx : x s = .error e s') : E e s' := by
  unfold Sat at h
  rw [hx] at h
  exact h

theorem sat_mono {x : EStateM ε σ α} {s : σ}
    {Q Q' : α -> σ -> Prop} {E E' : ε -> σ -> Prop}
    (h : Sat x s Q E)
    (hQ : forall a s', Q a s' -> Q' a s')
    (hE : forall e s', E e s' -> E' e s') :
    Sat x s Q' E' := by
  unfold Sat at *
  cases hx : x s with
  | ok a s' =>
      rw [hx] at h
      exact hQ a s' h
  | error e s' =>
      rw [hx] at h
      exact hE e s' h

/-!
## Rules for the program constructors
-/

@[simp] theorem sat_pure (a : α) (s : σ)
    (Q : α -> σ -> Prop) (E : ε -> σ -> Prop) :
    Sat (pure a : EStateM ε σ α) s Q E ↔ Q a s := Iff.rfl

@[simp] theorem sat_throw (e : ε) (s : σ)
    (Q : α -> σ -> Prop) (E : ε -> σ -> Prop) :
    Sat (throw e : EStateM ε σ α) s Q E ↔ E e s := Iff.rfl

@[simp] theorem sat_get (s : σ) (Q : σ -> σ -> Prop) (E : ε -> σ -> Prop) :
    Sat (get : EStateM ε σ σ) s Q E ↔ Q s s := Iff.rfl

@[simp] theorem sat_set (t s : σ)
    (Q : PUnit -> σ -> Prop) (E : ε -> σ -> Prop) :
    Sat (set t : EStateM ε σ PUnit) s Q E ↔ Q ⟨⟩ t := Iff.rfl

@[simp] theorem sat_modify (f : σ -> σ) (s : σ)
    (Q : PUnit -> σ -> Prop) (E : ε -> σ -> Prop) :
    Sat (modify f : EStateM ε σ PUnit) s Q E ↔ Q ⟨⟩ (f s) := Iff.rfl

@[simp] theorem sat_modifyGet (f : σ -> α × σ) (s : σ)
    (Q : α -> σ -> Prop) (E : ε -> σ -> Prop) :
    Sat (modifyGet f : EStateM ε σ α) s Q E ↔ Q (f s).1 (f s).2 := Iff.rfl

@[simp] theorem sat_bind (x : EStateM ε σ α) (f : α -> EStateM ε σ β) (s : σ)
    (Q : β -> σ -> Prop) (E : ε -> σ -> Prop) :
    Sat (x >>= f) s Q E ↔ Sat x s (fun a s' => Sat (f a) s' Q E) E := by
  unfold Sat
  rw [bind_apply]
  cases x s <;> rfl

/-- Sequencing through what is known about the first part. -/
theorem sat_seq {x : EStateM ε σ α} {f : α -> EStateM ε σ β} {s : σ}
    {R : α -> σ -> Prop} {Q : β -> σ -> Prop} {E : ε -> σ -> Prop}
    (hx : Sat x s R E) (hf : forall a s', R a s' -> Sat (f a) s' Q E) :
    Sat (x >>= f) s Q E := by
  rw [sat_bind]
  exact sat_mono hx hf (fun _ _ h => h)

theorem sat_ite {p : Prop} [Decidable p] {x y : EStateM ε σ α} {s : σ}
    {Q : α -> σ -> Prop} {E : ε -> σ -> Prop}
    (hpos : p -> Sat x s Q E) (hneg : ¬ p -> Sat y s Q E) :
    Sat (if p then x else y) s Q E := by
  by_cases hp : p
  · rw [if_pos hp]
    exact hpos hp
  · rw [if_neg hp]
    exact hneg hp

theorem sat_and {x : EStateM ε σ α} {s : σ} {Q Q' : α -> σ -> Prop} {E E' : ε -> σ -> Prop}
    (h : Sat x s Q E) (h' : Sat x s Q' E') :
    Sat x s (fun a s' => Q a s' ∧ Q' a s') (fun e s' => E e s' ∧ E' e s') := by
  unfold Sat at *
  cases hx : x s with
  | ok a s' =>
      rw [hx] at h h'
      exact ⟨h, h'⟩
  | error e s' =>
      rw [hx] at h h'
      exact ⟨h, h'⟩

/-- A program that cannot fail ends with a value. -/
theorem exists_of_sat {x : EStateM ε σ α} {s : σ} {Q : α -> σ -> Prop}
    (h : Sat x s Q (fun _ _ => False)) : exists a s', x s = .ok a s' ∧ Q a s' := by
  unfold Sat at h
  cases hx : x s with
  | ok a s' =>
      rw [hx] at h
      exact ⟨a, s', rfl, h⟩
  | error e s' =>
      rw [hx] at h
      exact h.elim

/-- A program that returns more than another one, and does the same otherwise. -/
theorem exists_of_fst_ok {x : EStateM ε σ (α × β)} {y : EStateM ε σ α}
    (hxy : (x >>= fun r => pure r.1) = y) {a : α} {s s' : σ} (h : y s = .ok a s') :
    exists b, x s = .ok (a, b) s' := by
  rw [← hxy, bind_apply] at h
  cases hx : x s with
  | ok r s1 =>
      rw [hx] at h
      cases h
      exact ⟨r.2, rfl⟩
  | error e s1 =>
      rw [hx] at h
      cases h

/-!
## What a program returns
-/

/-- Every value that the program ends with satisfies `P`. -/
def Returns (P : α -> Prop) (x : EStateM ε σ α) : Prop :=
  forall s, Sat x s (fun a _ => P a) (fun _ _ => True)

theorem returns_of_ok {P : α -> Prop} {x : EStateM ε σ α} (h : Returns P x) {s s' : σ} {a : α}
    (hx : x s = .ok a s') : P a :=
  sat_of_ok (h s) hx

theorem returns_pure {P : α -> Prop} {a : α} (h : P a) : Returns P (pure a : EStateM ε σ α) :=
  fun _ => h

theorem returns_throw (P : α -> Prop) (e : ε) : Returns P (throw e : EStateM ε σ α) :=
  fun _ => trivial

theorem returns_mono {P Q : α -> Prop} {x : EStateM ε σ α} (h : Returns P x)
    (hPQ : forall a, P a -> Q a) : Returns Q x :=
  fun s => sat_mono (h s) (fun a _ => hPQ a) (fun _ _ _ => trivial)

/-- Sequencing through what the first part returns. -/
theorem returns_seq {R : α -> Prop} {P : β -> Prop} {x : EStateM ε σ α}
    {f : α -> EStateM ε σ β} (hx : Returns R x) (hf : forall a, R a -> Returns P (f a)) :
    Returns P (x >>= f) :=
  fun s => sat_seq (hx s) fun a s' ha => hf a ha s'

theorem returns_any (x : EStateM ε σ α) : Returns (fun _ => True) x := by
  intro s
  unfold Sat
  cases x s <;> trivial

/-- Only the last part counts. -/
theorem returns_bind {P : β -> Prop} {x : EStateM ε σ α} {f : α -> EStateM ε σ β}
    (hf : forall a, Returns P (f a)) : Returns P (x >>= f) :=
  returns_seq (returns_any x) fun a _ => hf a

theorem returns_ite {P : α -> Prop} {p : Prop} [Decidable p] {x y : EStateM ε σ α}
    (hx : Returns P x) (hy : Returns P y) : Returns P (if p then x else y) :=
  fun s => sat_ite (fun _ => hx s) (fun _ => hy s)

/-!
## Programs that agree until a bad state

`AgreeUntil Good stopped x y` compares a program with a guarded variant of
itself.  As long as the state stays good the two do the same; the guarded one
stops, with an error that `stopped` recognises, exactly where the other one
leaves the good states for ever.
-/

/-- The state in which a program ends, normally or not. -/
def finalState : EStateM.Result ε σ α -> σ
  | .ok _ s => s
  | .error _ s => s

@[simp] theorem finalState_ok (a : α) (s : σ) :
    finalState (.ok a s : EStateM.Result ε σ α) = s := rfl

@[simp] theorem finalState_error (e : ε) (s : σ) :
    finalState (.error e s : EStateM.Result ε σ α) = s := rfl

/-- The program ended with an error recognised by `stopped`. -/
def StopsWith (stopped : ε -> Prop) (r : EStateM.Result ε σ α) : Prop :=
  exists e s, r = .error e s ∧ stopped e

/-- The relation of the section header. -/
structure AgreeUntil (Good : σ -> Prop) (stopped : ε -> Prop)
    (x y : EStateM ε σ α) : Prop where
  bad : forall s, ¬ Good s -> ¬ Good (finalState (x s))
  good : forall s, Good s ->
    (x s = y s ∧ Good (finalState (x s)) ∧ ¬ StopsWith stopped (x s)) ∨
      (¬ Good (finalState (x s)) ∧ StopsWith stopped (y s))

/-- A program that leaves the goodness of the state alone agrees with itself. -/
theorem agreeUntil_refl {Good : σ -> Prop} {stopped : ε -> Prop}
    {x : EStateM ε σ α}
    (h : forall s, Good (finalState (x s)) ↔ Good s)
    (hstop : forall s, ¬ StopsWith stopped (x s)) :
    AgreeUntil Good stopped x x where
  bad := by
    intro s hs hfinal
    exact hs ((h s).mp hfinal)
  good := by
    intro s hs
    exact Or.inl ⟨rfl, (h s).mpr hs, hstop s⟩

theorem not_stopsWith_ok (stopped : ε -> Prop) (a : α) (s : σ) :
    ¬ StopsWith stopped (.ok a s : EStateM.Result ε σ α) := by
  rintro ⟨e, s', h, _⟩
  cases h

theorem stopsWith_error (stopped : ε -> Prop) (e : ε) (s : σ) :
    StopsWith stopped (.error e s : EStateM.Result ε σ α) ↔ stopped e := by
  constructor
  · rintro ⟨e', s', h, he⟩
    cases h
    exact he
  · intro he
    exact ⟨e, s, rfl, he⟩

theorem agreeUntil_bind {Good : σ -> Prop} {stopped : ε -> Prop}
    {x y : EStateM ε σ α} {f g : α -> EStateM ε σ β}
    (hxy : AgreeUntil Good stopped x y)
    (hfg : forall a, AgreeUntil Good stopped (f a) (g a)) :
    AgreeUntil Good stopped (x >>= f) (y >>= g) where
  bad := by
    intro s hs
    have hx := hxy.bad s hs
    rw [bind_apply]
    cases hxs : x s with
    | ok a s' =>
        rw [hxs] at hx
        exact (hfg a).bad s' hx
    | error e s' =>
        rw [hxs] at hx
        exact hx
  good := by
    intro s hs
    rw [bind_apply, bind_apply]
    rcases hxy.good s hs with ⟨heq, hgood, hrun⟩ | ⟨hbad, e, s', hy, he⟩
    · rw [← heq]
      cases hxs : x s with
      | ok a s' =>
          rw [hxs] at hgood
          exact (hfg a).good s' hgood
      | error e s' =>
          rw [hxs] at hgood hrun
          rw [stopsWith_error] at hrun
          exact Or.inl ⟨rfl, hgood, by rw [stopsWith_error]; exact hrun⟩
    · refine Or.inr ⟨?_, e, s', by rw [hy], he⟩
      cases hxs : x s with
      | ok a s' =>
          rw [hxs] at hbad
          exact (hfg a).bad s' hbad
      | error e s' =>
          rw [hxs] at hbad
          exact hbad

theorem agreeUntil_ite {Good : σ -> Prop} {stopped : ε -> Prop} {p : Prop} [Decidable p]
    {x x' y y' : EStateM ε σ α} (hx : AgreeUntil Good stopped x x')
    (hy : AgreeUntil Good stopped y y') :
    AgreeUntil Good stopped (if p then x else y) (if p then x' else y') := by
  by_cases hp : p
  · rw [if_pos hp, if_pos hp]
    exact hx
  · rw [if_neg hp, if_neg hp]
    exact hy

end Foundation
end HolyRust
