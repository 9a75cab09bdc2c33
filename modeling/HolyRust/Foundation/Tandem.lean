import HolyRust.Foundation.Program

/-!
# Programs in tandem

Two programs with states, values and errors of their own run side by side, and end
alike: both return, or both fail.  The rules follow the program constructors as those of
`Sat` do; where only one of the programs moves there is a rule for either side.
-/

namespace HolyRust
namespace Foundation

section Tandem

variable {ε δ σ τ α β γ η : Type}

/-- From `s` and `t`, both programs return and satisfy `Q`, or both fail and satisfy `E`. -/
def Tandem (x : EStateM ε σ α) (s : σ) (y : EStateM δ τ β) (t : τ)
    (Q : α -> β -> σ -> τ -> Prop) (E : ε -> δ -> σ -> τ -> Prop) : Prop :=
  match x s, y t with
  | .ok a s', .ok b t' => Q a b s' t'
  | .error e s', .error d t' => E e d s' t'
  | .ok _ _, .error _ _ => False
  | .error _ _, .ok _ _ => False

variable {Q : α -> β -> σ -> τ -> Prop} {E : ε -> δ -> σ -> τ -> Prop}

theorem tandem_of_ok {x : EStateM ε σ α} {s s' : σ} {a : α} {y : EStateM δ τ β} {t t' : τ}
    {b : β} (hx : x s = .ok a s') (hy : y t = .ok b t') (h : Q a b s' t') :
    Tandem x s y t Q E := by
  unfold Tandem
  rw [hx, hy]
  exact h

theorem tandem_of_error {x : EStateM ε σ α} {s s' : σ} {e : ε} {y : EStateM δ τ β} {t t' : τ}
    {d : δ} (hx : x s = .error e s') (hy : y t = .error d t') (h : E e d s' t') :
    Tandem x s y t Q E := by
  unfold Tandem
  rw [hx, hy]
  exact h

/-- The two ways in which programs in tandem end. -/
theorem tandem_cases {x : EStateM ε σ α} {s : σ} {y : EStateM δ τ β} {t : τ}
    (h : Tandem x s y t Q E) :
    (exists a s' b t', x s = .ok a s' ∧ y t = .ok b t' ∧ Q a b s' t') ∨
      exists e s' d t', x s = .error e s' ∧ y t = .error d t' ∧ E e d s' t' := by
  unfold Tandem at h
  cases hx : x s with
  | ok a s' =>
      cases hy : y t with
      | ok b t' =>
          rw [hx, hy] at h
          exact Or.inl ⟨a, s', b, t', rfl, rfl, h⟩
      | error d t' =>
          rw [hx, hy] at h
          exact h.elim
  | error e s' =>
      cases hy : y t with
      | ok b t' =>
          rw [hx, hy] at h
          exact h.elim
      | error d t' =>
          rw [hx, hy] at h
          exact Or.inr ⟨e, s', d, t', rfl, rfl, h⟩

theorem tandem_mono {x : EStateM ε σ α} {s : σ} {y : EStateM δ τ β} {t : τ}
    {Q' : α -> β -> σ -> τ -> Prop} {E' : ε -> δ -> σ -> τ -> Prop} (h : Tandem x s y t Q E)
    (hQ : forall a b s' t', Q a b s' t' -> Q' a b s' t')
    (hE : forall e d s' t', E e d s' t' -> E' e d s' t') : Tandem x s y t Q' E' := by
  rcases tandem_cases h with ⟨a, s', b, t', hx, hy, hend⟩ | ⟨e, s', d, t', hx, hy, hend⟩
  · exact tandem_of_ok hx hy (hQ a b s' t' hend)
  · exact tandem_of_error hx hy (hE e d s' t' hend)

theorem tandem_imp {x : EStateM ε σ α} {s : σ} {y : EStateM δ τ β} {t : τ}
    {Q' : α -> β -> σ -> τ -> Prop} (h : Tandem x s y t Q E)
    (hQ : forall a b s' t', Q a b s' t' -> Q' a b s' t') : Tandem x s y t Q' E :=
  tandem_mono h hQ (fun _ _ _ _ hE => hE)

/-- Sequencing through what is known about the first parts. -/
theorem tandem_seq {x : EStateM ε σ α} {f : α -> EStateM ε σ γ} {s : σ} {y : EStateM δ τ β}
    {g : β -> EStateM δ τ η} {t : τ} {Q' : γ -> η -> σ -> τ -> Prop} (hxy : Tandem x s y t Q E)
    (hfg : forall a b s' t', Q a b s' t' -> Tandem (f a) s' (g b) t' Q' E) :
    Tandem (x >>= f) s (y >>= g) t Q' E := by
  rcases tandem_cases hxy with ⟨a, s', b, t', hx, hy, hend⟩ | ⟨e, s', d, t', hx, hy, hend⟩
  · have hrest := hfg a b s' t' hend
    unfold Tandem at hrest ⊢
    rw [bind_of_ok hx, bind_of_ok hy]
    exact hrest
  · refine tandem_of_error ?_ ?_ hend
    · rw [bind_apply, hx]
    · rw [bind_apply, hy]

/-- Only the first program moves. -/
theorem tandem_left {x : EStateM ε σ γ} {f : γ -> EStateM ε σ α} {s s' : σ} {a : γ}
    {y : EStateM δ τ β} {t : τ} (hx : x s = .ok a s') (h : Tandem (f a) s' y t Q E) :
    Tandem (x >>= f) s y t Q E := by
  unfold Tandem at *
  rw [bind_of_ok hx]
  exact h

/-- Only the second program moves. -/
theorem tandem_right {x : EStateM ε σ α} {s : σ} {y : EStateM δ τ η} {g : η -> EStateM δ τ β}
    {t t' : τ} {b : η} (hy : y t = .ok b t') (h : Tandem x s (g b) t' Q E) :
    Tandem x s (y >>= g) t Q E := by
  unfold Tandem at *
  rw [bind_of_ok hy]
  exact h

/-- What is known about the second program alone. -/
theorem tandem_sat {x : EStateM ε σ α} {s : σ} {y : EStateM δ τ β} {t : τ}
    {P : β -> τ -> Prop} {F : δ -> τ -> Prop} (h : Tandem x s y t Q E) (hy : Sat y t P F) :
    Tandem x s y t (fun a b s' t' => Q a b s' t' ∧ P b t')
      (fun e d s' t' => E e d s' t' ∧ F d t') := by
  rcases tandem_cases h with ⟨a, s', b, t', hx, hy', hend⟩ | ⟨e, s', d, t', hx, hy', hend⟩
  · exact tandem_of_ok hx hy' ⟨hend, sat_of_ok hy hy'⟩
  · exact tandem_of_error hx hy' ⟨hend, sat_of_error hy hy'⟩

end Tandem

end Foundation
end HolyRust
