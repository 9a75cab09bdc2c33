import Mathlib.NumberTheory.Multiplicity
import Mathlib.Data.Nat.Count
import Mathlib.Data.Int.ModEq
import Mathlib.RingTheory.Int.Basic
import Mathlib.Tactic.LinearCombination

/-!
# Linear congruential generators

`x ↦ a * x + c` modulo a power of two.  With `a` one more than a multiple of four and `c`
odd the generator comes back to where it was after `2 ^ k` steps and not before, and so
runs through every value.
-/

namespace HolyRust
namespace Foundation

open Finset

section Generator

variable {a c : Int}

theorem iterate_sub_self (a c x : Int) (n : Nat) :
    (fun x => a * x + c)^[n] x - x = (∑ i ∈ range n, a ^ i) * ((a - 1) * x + c) := by
  induction n with
  | zero =>
      rw [Function.iterate_zero_apply, range_zero, sum_empty, sub_self, zero_mul]
  | succ n ih =>
      rw [Function.iterate_succ_apply', geom_sum_succ]
      linear_combination a * ih

/-- A power of two divides the sum exactly when it divides the number of its terms. -/
theorem two_pow_dvd_geom_sum_iff (ha : 4 ∣ a - 1) (k n : Nat) :
    (2 : Int) ^ k ∣ ∑ i ∈ range n, a ^ i ↔ (2 : Int) ^ k ∣ n := by
  by_cases hone : a = 1
  · rw [hone]
    simp
  · have hodd : ¬ (2 : Int) ∣ a := by lia
    have hlift := Int.two_pow_sub_pow' n ha hodd
    rw [one_pow, ← mul_geom_sum, emultiplicity_mul Int.prime_two] at hlift
    have hfinite : FiniteMultiplicity (2 : Int) (a - 1) :=
      Int.finiteMultiplicity_iff.mpr ⟨by decide, sub_ne_zero.mpr hone⟩
    have hsame := ENat.add_right_injective_of_ne_top
      (finiteMultiplicity_iff_emultiplicity_ne_top.mp hfinite) hlift
    rw [pow_dvd_iff_le_emultiplicity, pow_dvd_iff_le_emultiplicity, hsame]

theorem iterate_modEq_iff (ha : 4 ∣ a - 1) (hc : ¬ 2 ∣ c) (x : Int) (k n : Nat) :
    (fun x => a * x + c)^[n] x ≡ x [ZMOD 2 ^ k] ↔ 2 ^ k ∣ n := by
  have hodd : ¬ (2 : Int) ∣ (a - 1) * x + c := by
    obtain ⟨b, hb⟩ := ha
    intro hdvd
    refine hc ((Int.dvd_add_right ?_).mp hdvd)
    rw [hb]
    exact ⟨2 * b * x, by ring⟩
  have hcoprime : IsCoprime ((2 : Int) ^ k) ((a - 1) * x + c) := by
    refine IsCoprime.pow_left (Int.isCoprime_two_left.mpr ?_)
    rw [← Int.not_even_iff_odd, even_iff_two_dvd]
    exact hodd
  rw [Int.modEq_comm, Int.modEq_iff_dvd, iterate_sub_self]
  constructor
  · intro hdvd
    have hsum := (two_pow_dvd_geom_sum_iff ha k n).mp (hcoprime.dvd_of_dvd_mul_right hdvd)
    exact_mod_cast hsum
  · intro hdvd
    have hsum := (two_pow_dvd_geom_sum_iff ha k n).mpr (by exact_mod_cast hdvd)
    exact hsum.mul_right _

end Generator

/-- One step on the residues. -/
def congruential (a c m x : Nat) : Nat :=
  (a * x + c) % m

section Residues

variable {a c k x : Nat}

theorem iterate_congruential_modEq (a c m x n : Nat) :
    (((congruential a c m)^[n] x : Nat) : Int) ≡ (fun y : Int => a * y + c)^[n] x [ZMOD m] := by
  induction n with
  | zero => exact Int.ModEq.refl _
  | succ n ih =>
      rw [Function.iterate_succ_apply', Function.iterate_succ_apply', congruential]
      push_cast
      exact (Int.mod_modEq _ _).trans ((ih.mul_left a).add_right c)

theorem iterate_congruential_lt (hx : x < 2 ^ k) (n : Nat) :
    (congruential a c (2 ^ k))^[n] x < 2 ^ k := by
  cases n with
  | zero => exact hx
  | succ n =>
      rw [Function.iterate_succ_apply']
      exact Nat.mod_lt _ (Nat.two_pow_pos k)

theorem iterate_congruential_eq_iff (ha : a % 4 = 1) (hc : c % 2 = 1) (hx : x < 2 ^ k) (n : Nat) :
    (congruential a c (2 ^ k))^[n] x = x ↔ 2 ^ k ∣ n := by
  have ha' : (4 : Int) ∣ (a : Int) - 1 := by lia
  have hc' : ¬ (2 : Int) ∣ (c : Int) := by lia
  have hmod := iterate_congruential_modEq a c (2 ^ k) x n
  rw [Nat.cast_pow, Nat.cast_ofNat] at hmod
  rw [← iterate_modEq_iff ha' hc' (x : Int) k n]
  constructor
  · intro hsame
    rw [hsame] at hmod
    exact hmod.symm
  · intro hback
    have hcast := hmod.trans hback
    have hnat : (congruential a c (2 ^ k))^[n] x ≡ x [MOD 2 ^ k] := by
      refine Int.natCast_modEq_iff.mp ?_
      rw [Nat.cast_pow, Nat.cast_ofNat]
      exact hcast
    exact Nat.ModEq.eq_of_lt_of_lt hnat (iterate_congruential_lt hx n) hx

theorem iterate_congruential_eq_iff_modEq (ha : a % 4 = 1) (hc : c % 2 = 1) (hx : x < 2 ^ k)
    (n m : Nat) :
    (congruential a c (2 ^ k))^[n] x = (congruential a c (2 ^ k))^[m] x ↔ n ≡ m [MOD 2 ^ k] := by
  have hlater : forall {n m}, n ≤ m -> ((congruential a c (2 ^ k))^[n] x =
      (congruential a c (2 ^ k))^[m] x ↔ n ≡ m [MOD 2 ^ k]) := by
    intro n m hle
    obtain ⟨d, rfl⟩ := Nat.exists_eq_add_of_le hle
    have hlt : (congruential a c (2 ^ k))^[n] x < 2 ^ k := iterate_congruential_lt hx n
    have hback := iterate_congruential_eq_iff ha hc hlt d
    rw [Nat.modEq_iff_dvd' hle, Nat.add_sub_cancel_left, Nat.add_comm n d,
      Function.iterate_add_apply, ← hback, eq_comm]
  rcases Nat.le_total n m with hle | hle
  · exact hlater hle
  · rw [eq_comm, hlater hle]
    exact Nat.ModEq.comm

/-- Within `2 ^ k` steps no value comes twice. -/
theorem injOn_iterate_congruential (ha : a % 4 = 1) (hc : c % 2 = 1) (hx : x < 2 ^ k) :
    Set.InjOn (fun n => (congruential a c (2 ^ k))^[n] x) (range (2 ^ k)) := by
  intro i hi j hj hsame
  rw [mem_coe, mem_range] at hi hj
  exact ((iterate_congruential_eq_iff_modEq ha hc hx i j).mp hsame).eq_of_lt_of_lt hi hj

end Residues

/-!
## Counting
-/

/-- A sequence that runs through all the numbers below `n` has each property as often as
they have. -/
theorem count_of_injOn {n : Nat} {f : Nat -> Nat} (hlt : Set.MapsTo f (range n) (range n))
    (hinj : Set.InjOn f (range n)) (p : Nat -> Prop) [DecidablePred p] :
    Nat.count (fun i => p (f i)) n = Nat.count p n := by
  have hsurj := surjOn_of_injOn_of_card_le f hlt hinj (Nat.le_refl _)
  rw [Nat.count_eq_card_filter_range, Nat.count_eq_card_filter_range]
  refine card_nbij f ?_ ?_ ?_
  · intro i hi
    rw [mem_coe, mem_filter] at hi ⊢
    exact ⟨mem_coe.mp (hlt hi.left), hi.right⟩
  · exact hinj.mono fun i hi => mem_coe.mpr (mem_filter.mp hi).left
  · intro y hy
    rw [mem_coe, mem_filter] at hy
    obtain ⟨i, hi, rfl⟩ := hsurj (mem_coe.mpr hy.left)
    exact ⟨i, mem_coe.mpr (mem_filter.mpr ⟨mem_coe.mp hi, hy.right⟩), rfl⟩

/-- Of `d * m` numbers, those with quotient `b` by `d` are `d`. -/
theorem count_div_eq {d m b : Nat} (hd : 0 < d) (hb : b < m) :
    Nat.count (fun x => x / d = b) (d * m) = d := by
  rw [Nat.count_eq_card_filter_range]
  have hblock : (range (d * m)).filter (fun x => x / d = b) = Ico (d * b) (d * b + d) := by
    ext x
    rw [mem_filter, mem_range, mem_Ico, Nat.div_eq_iff hd]
    have hle : d * b + d ≤ d * m := by
      rw [← Nat.mul_succ]
      exact Nat.mul_le_mul_left d hb
    constructor
    · rintro ⟨_, hlow, hhigh⟩
      lia
    · rintro ⟨hlow, hhigh⟩
      lia
  rw [hblock, Nat.card_Ico, Nat.add_sub_cancel_left]

end Foundation
end HolyRust
