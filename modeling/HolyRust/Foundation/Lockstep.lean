import HolyRust.Foundation.Program

/-!
# Programs in lockstep

Two programs run from related states and end alike: with the same value in related
states, or with the same error.  Either of them may give up instead, with an error that
`spent` recognises, and then nothing is said about the other.
-/

namespace HolyRust
namespace Foundation

section Lockstep

variable {ε σ α β : Type} {spent : ε -> Prop} {R : σ -> σ -> Prop}

/-- The same value in related states, the same error, or no fuel. -/
def EndAlike (spent : ε -> Prop) (R : σ -> σ -> Prop) :
    EStateM.Result ε σ α -> EStateM.Result ε σ α -> Prop
  | .ok a s, .ok b t => a = b ∧ R s t
  | .error e _, .error e' _ => e = e' ∨ spent e ∨ spent e'
  | .ok _ _, .error e _ => spent e
  | .error e _, .ok _ _ => spent e

/-- Related states lead to the same end. -/
def Lockstep (spent : ε -> Prop) (R : σ -> σ -> Prop) (x y : EStateM ε σ α) : Prop :=
  forall s t, R s t -> EndAlike spent R (x s) (y t)

theorem lockstep_pure (a : α) : Lockstep spent R (pure a) (pure a) :=
  fun _ _ h => ⟨rfl, h⟩

theorem lockstep_throw (e : ε) : Lockstep spent R (throw e : EStateM ε σ α) (throw e) :=
  fun _ _ _ => Or.inl rfl

theorem endAlike_spent_left {e : ε} (he : spent e) (s : σ) (r : EStateM.Result ε σ α) :
    EndAlike spent R (.error e s) r := by
  cases r with
  | ok a t => exact he
  | error e' t => exact Or.inr (Or.inl he)

theorem endAlike_spent_right {e : ε} (he : spent e) (t : σ) (r : EStateM.Result ε σ α) :
    EndAlike spent R r (.error e t) := by
  cases r with
  | ok a s => exact he
  | error e' s => exact Or.inr (Or.inr he)

theorem lockstep_spent_left {e : ε} (he : spent e) (y : EStateM ε σ α) :
    Lockstep spent R (throw e) y :=
  fun s t _ => endAlike_spent_left he s (y t)

theorem lockstep_spent_right {e : ε} (he : spent e) (x : EStateM ε σ α) :
    Lockstep spent R x (throw e) :=
  fun s t _ => endAlike_spent_right he t (x s)

/-- Sequencing at one pair of states. -/
theorem endAlike_bind {R' : σ -> σ -> Prop} {x y : EStateM ε σ α} {f g : α -> EStateM ε σ β}
    {s t : σ} (hxy : EndAlike spent R (x s) (y t))
    (hfg : forall a s' t', x s = .ok a s' -> y t = .ok a t' -> R s' t' ->
      EndAlike spent R' (f a s') (g a t')) :
    EndAlike spent R' ((x >>= f) s) ((y >>= g) t) := by
  rw [bind_apply, bind_apply]
  cases hx : x s with
  | ok a s' =>
      cases hy : y t with
      | ok b t' =>
          rw [hx, hy] at hxy
          obtain ⟨rfl, hR⟩ := hxy
          exact hfg a s' t' hx hy hR
      | error e t' =>
          rw [hx, hy] at hxy
          have he : spent e := hxy
          exact endAlike_spent_right he t' (f a s')
  | error e s' =>
      cases hy : y t with
      | ok b t' =>
          rw [hx, hy] at hxy
          have he : spent e := hxy
          exact endAlike_spent_left he s' (g b t')
      | error e' t' =>
          rw [hx, hy] at hxy
          exact hxy

/-- What is known about both ends may be added to the relation. -/
theorem endAlike_mono {R' : σ -> σ -> Prop} {x y : EStateM ε σ α} {s t : σ}
    (hxy : EndAlike spent R (x s) (y t))
    (hR : forall a s' t', x s = .ok a s' -> y t = .ok a t' -> R s' t' -> R' s' t') :
    EndAlike spent R' (x s) (y t) := by
  have hpure : EndAlike spent R' ((x >>= pure) s) ((y >>= pure) t) :=
    endAlike_bind hxy fun a s' t' hx hy h => ⟨rfl, hR a s' t' hx hy h⟩
  rw [bind_pure, bind_pure] at hpure
  exact hpure

theorem lockstep_bind {x y : EStateM ε σ α} {f g : α -> EStateM ε σ β}
    (hxy : Lockstep spent R x y) (hfg : forall a, Lockstep spent R (f a) (g a)) :
    Lockstep spent R (x >>= f) (y >>= g) :=
  fun s t h => endAlike_bind (hxy s t h) fun a s' t' _ _ hR => hfg a s' t' hR

theorem lockstep_ite {p : Prop} [Decidable p] {x x' y y' : EStateM ε σ α}
    (hx : Lockstep spent R x x') (hy : Lockstep spent R y y') :
    Lockstep spent R (if p then x else y) (if p then x' else y') := by
  by_cases hp : p
  · rw [if_pos hp, if_pos hp]
    exact hx
  · rw [if_neg hp, if_neg hp]
    exact hy

/-!
## Programs that fail
-/

/-- The program fails with `e`, unless it gives up first. -/
def FailsWith (spent : ε -> Prop) (e : ε) (x : EStateM ε σ α) : Prop :=
  forall s, exists e' s', x s = .error e' s' ∧ (e' = e ∨ spent e')

theorem failsWith_throw (e : ε) : FailsWith spent e (throw e : EStateM ε σ α) :=
  fun s => ⟨e, s, rfl, Or.inl rfl⟩

theorem failsWith_spent {e e' : ε} (he : spent e') : FailsWith spent e (throw e' : EStateM ε σ α) :=
  fun s => ⟨e', s, rfl, Or.inr he⟩

theorem failsWith_bind {e : ε} {x : EStateM ε σ α} (hx : FailsWith spent e x)
    (f : α -> EStateM ε σ β) : FailsWith spent e (x >>= f) := by
  intro s
  obtain ⟨e', s', hxs, he'⟩ := hx s
  refine ⟨e', s', ?_, he'⟩
  rw [bind_apply, hxs]

theorem endAlike_of_fails {e : ε} {x y : EStateM ε σ α} (hx : FailsWith spent e x)
    (hy : FailsWith spent e y) (s t : σ) : EndAlike spent R (x s) (y t) := by
  obtain ⟨e1, s', hxs, he1⟩ := hx s
  obtain ⟨e2, t', hyt, he2⟩ := hy t
  rw [hxs, hyt]
  rcases he1 with rfl | he1
  · rcases he2 with rfl | he2
    · exact Or.inl rfl
    · exact Or.inr (Or.inr he2)
  · exact Or.inr (Or.inl he1)

end Lockstep

end Foundation
end HolyRust
