import Mathlib.Dynamics.FixedPoints.Basic
import Mathlib.Order.Bounds.Basic
import Mathlib.Order.Iterate

/-!
# Iterations that settle

Iterating a monotone function upwards from a point below its image, for a limited
number of rounds and up to a bound.  What the search finds is the least fixed point
above the start; what it misses is described by climbs, which need not follow the
iteration but may not move faster than the function allows.
-/

namespace HolyRust
namespace Foundation

section Settling

variable {α : Type} [LinearOrder α]

/-- Applies `f` until nothing changes; gives up above `bound` or after `rounds`. -/
def settle (f : α -> α) (bound : α) : Nat -> α -> Option α
  | 0, _ => none
  | rounds + 1, x =>
      if bound < f x then none
      else if f x = x then some x
      else settle f bound rounds (f x)

/-- `n` moves, each to a point no higher than the image of the one before. -/
inductive Climb (f : α -> α) : Nat -> α -> α -> Prop where
  | refl (x : α) : Climb f 0 x x
  | move {n : Nat} {x y z : α} : y ≤ f x -> Climb f n y z -> Climb f (n + 1) x z

variable {f : α -> α} {bound x y : α}

theorem iterate_le_fixed (hf : Monotone f) (hxy : x ≤ y) (hfix : f y = y) (n : Nat) :
    f^[n] x ≤ y := by
  have hle := hf.iterate n hxy
  rwa [Function.IsFixedPt.iterate hfix n] at hle

/-- A climb may stay where it is, if it could go on. -/
theorem climb_of_le (h : x ≤ f x) (n : Nat) : Climb f n x x := by
  induction n with
  | zero => exact .refl x
  | succ n ih => exact .move h ih

theorem le_iterate_of_climb (hf : Monotone f) {n : Nat} (h : Climb f n x y) :
    y ≤ f^[n] x := by
  induction h with
  | refl x => exact le_refl x
  | move hmove _ ih =>
      rw [Function.iterate_succ_apply]
      exact le_trans ih (hf.iterate _ hmove)

theorem climb_iterate (f : α -> α) (n : Nat) (x : α) : Climb f n x (f^[n] x) := by
  induction n generalizing x with
  | zero => exact Climb.refl x
  | succ n ih => exact Climb.move (le_refl _) (ih (f x))

/-- A fixed point that can be climbed to is where the iteration stands by then. -/
theorem iterate_eq_of_climb (hf : Monotone f) (hxy : x ≤ y) (hfix : f y = y) {n : Nat}
    (h : Climb f n x y) : f^[n] x = y :=
  le_antisymm (iterate_le_fixed hf hxy hfix n) (le_iterate_of_climb hf h)

theorem settle_eq_some_iff (hf : Monotone f) (hx : x ≤ f x) {rounds : Nat} :
    settle f bound rounds x = some y ↔
      exists k, k < rounds ∧ f^[k] x = y ∧ f y = y ∧ y ≤ bound := by
  induction rounds generalizing x with
  | zero => simp [settle]
  | succ rounds ih =>
      unfold settle
      by_cases hover : bound < f x
      · rw [if_pos hover]
        constructor
        · intro h
          cases h
        · rintro ⟨k, _, rfl, hfix, hle⟩
          have hclimb : x ≤ f^[k] x := hf.monotone_iterate_of_le_map hx (Nat.zero_le k)
          have hlate : f x ≤ f^[k] x := by
            rw [← hfix]
            exact hf hclimb
          exact absurd (lt_of_lt_of_le hover hlate) (not_lt_of_ge hle)
      · rw [if_neg hover]
        by_cases hfixed : f x = x
        · rw [if_pos hfixed]
          constructor
          · intro h
            cases h
            exact ⟨0, Nat.succ_pos _, rfl, hfixed, hfixed ▸ le_of_not_gt hover⟩
          · rintro ⟨k, _, rfl, _, _⟩
            rw [Function.iterate_fixed hfixed]
        · rw [if_neg hfixed, ih (hf hx)]
          constructor
          · rintro ⟨k, hk, hrest⟩
            exact ⟨k + 1, by lia, hrest⟩
          · rintro ⟨k, hk, hreach, hrest⟩
            cases k with
            | zero =>
                cases hreach
                exact absurd hrest.left hfixed
            | succ k => exact ⟨k, by lia, hreach, hrest⟩

/-- What is found is the least fixed point above the start. -/
theorem isLeast_of_settle (hf : Monotone f) (hx : x ≤ f x) {rounds : Nat}
    (h : settle f bound rounds x = some y) :
    IsLeast {z | x ≤ z ∧ f z = z} y ∧ y ≤ bound := by
  rcases (settle_eq_some_iff hf hx).mp h with ⟨k, _, rfl, hfix, hle⟩
  constructor
  · constructor
    · exact ⟨hf.monotone_iterate_of_le_map hx (Nat.zero_le k), hfix⟩
    · intro z hz
      exact iterate_le_fixed hf hz.left hz.right k
  · exact hle

/-- Something is found in `rounds + 1` rounds if and only if a fixed point up to the
bound can be climbed to in `rounds` moves. -/
theorem exists_settle_iff_climb (hf : Monotone f) (hx : x ≤ f x) {rounds : Nat} :
    (exists y, settle f bound (rounds + 1) x = some y) ↔
      exists y, x ≤ y ∧ f y = y ∧ y ≤ bound ∧ Climb f rounds x y := by
  constructor
  · rintro ⟨y, hy⟩
    rcases (settle_eq_some_iff hf hx).mp hy with ⟨k, hk, hreach, hfix, hle⟩
    have hlast : f^[rounds] x = y := by
      rw [← Nat.sub_add_cancel (Nat.le_of_lt_succ hk), Function.iterate_add_apply, hreach,
        Function.iterate_fixed hfix]
    have hclimb := climb_iterate f rounds x
    rw [hlast] at hclimb
    exact ⟨y, (isLeast_of_settle hf hx hy).left.left.left, hfix, hle, hclimb⟩
  · rintro ⟨y, hxy, hfix, hle, hclimb⟩
    exact ⟨y, (settle_eq_some_iff hf hx).mpr
      ⟨rounds, Nat.lt_succ_self _, iterate_eq_of_climb hf hxy hfix hclimb, hfix, hle⟩⟩

/-- Where `f` changes only as a rank goes up, an iteration that has not gained one rank a
round has settled. -/
theorem iterate_fixed_of_rank {rank : α -> Nat} (hf : Monotone f) (hx : x ≤ f x)
    (hrank : Monotone rank) (hlevel : forall a b, a ≤ b -> rank a = rank b -> f a = f b)
    {n : Nat} (hfew : rank (f^[n] x) < rank x + n) : f (f^[n] x) = f^[n] x := by
  induction n with
  | zero => exact absurd hfew (Nat.lt_irrefl _)
  | succ n ih =>
      rw [Function.iterate_succ_apply'] at hfew ⊢
      by_cases hbefore : rank (f^[n] x) < rank x + n
      · rw [ih hbefore, ih hbefore]
      · have hgrows : f^[n] x ≤ f (f^[n] x) := by
          rw [← Function.iterate_succ_apply' f]
          exact hf.monotone_iterate_of_le_map hx (Nat.le_succ n)
        have hsame : rank (f^[n] x) = rank (f (f^[n] x)) := by
          have hle := hrank hgrows
          lia
        exact (hlevel _ _ hgrows hsame).symm

end Settling

end Foundation
end HolyRust
