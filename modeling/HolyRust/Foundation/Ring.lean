import Mathlib.Data.List.Basic
import Mathlib.Data.List.Rotate
import Mathlib.Data.Nat.ModEq
import Mathlib.Logic.Function.Basic

/-!
# Rings of slots

A ring of `n` slots is described by the list of all items ever put into it and the
number of items taken out again.  Item `k` belongs into slot `k % n`, so the two
indices of a ring are these two counts modulo `n`.
-/

namespace HolyRust
namespace Foundation

/-- The items that were not taken yet are in their slots. -/
def RingHolds (n : Nat) (slots : Nat -> α) (items : List α) (taken : Nat) : Prop :=
  forall k, taken ≤ k -> k < items.length -> items[k]? = some (slots (k % n))

/-- Two counts less than a round apart have the same index only if they are equal. -/
theorem ring_mod_eq_iff {n a b : Nat} (hle : b ≤ a) (hlt : a < b + n) :
    a % n = b % n ↔ a = b := by
  constructor
  · intro h
    have hdvd : n ∣ a - b := (Nat.modEq_iff_dvd' hle).mp h.symm
    have hzero : a - b = 0 := Nat.eq_zero_of_dvd_of_lt hdvd (by lia)
    lia
  · rintro rfl
    rfl

/-- The index test of a full ring that keeps one slot empty. -/
theorem ring_next_eq_iff {n a b : Nat} (hle : b ≤ a) (hlt : a < b + n) :
    (a + 1) % n = b % n ↔ a + 1 = b + n := by
  by_cases hround : a + 1 = b + n
  · rw [hround, Nat.add_mod_right]
    exact iff_of_true rfl rfl
  · rw [ring_mod_eq_iff (by lia) (by lia)]
    lia

/-- The room that two indices tell of: `(taken - put - 1) mod n`. -/
theorem ring_room {n a b : Nat} (hle : b ≤ a) (hlt : a < b + n) :
    (b % n + n - a % n - 1) % n = b + n - a - 1 := by
  have hpos : 0 < n := by lia
  have ha := Nat.mod_lt a hpos
  have hmod : (b % n + n - a % n - 1) % n = (b + n - a - 1) % n := by
    show b % n + n - a % n - 1 ≡ b + n - a - 1 [MOD n]
    have hsum : b % n + n - a % n - 1 + (a % n + 1) ≡ b + n - a - 1 + (a + 1) [MOD n] := by
      rw [show b % n + n - a % n - 1 + (a % n + 1) = b % n + n by lia,
        show b + n - a - 1 + (a + 1) = b + n by lia]
      exact Nat.ModEq.add_right n (Nat.mod_modEq b n)
    exact Nat.ModEq.add_right_cancel (Nat.ModEq.add_right 1 (Nat.mod_modEq a n)) hsum
  rw [hmod, Nat.mod_eq_of_lt (by lia)]

theorem ringHolds_nil (n : Nat) (slots : Nat -> α) (taken : Nat) :
    RingHolds n slots [] taken := by
  intro k _ hk
  cases hk

/-- Writing behind the last item of a ring with a free slot disturbs no item. -/
theorem ringHolds_write {n taken : Nat} {slots : Nat -> α} {items : List α}
    (h : RingHolds n slots items taken) (hroom : items.length < taken + n) (x : α) :
    RingHolds n (Function.update slots (items.length % n) x) items taken := by
  intro k hlo hhi
  have hne : k % n ≠ items.length % n := by
    intro heq
    have hsame := (ring_mod_eq_iff (Nat.le_of_lt hhi) (by lia)).mp heq.symm
    lia
  rw [Function.update_of_ne hne]
  exact h k hlo hhi

/-- The item that was written there joins the others. -/
theorem ringHolds_put {n taken : Nat} {slots : Nat -> α} {items : List α} {x : α}
    (h : RingHolds n slots items taken) (hslot : slots (items.length % n) = x) :
    RingHolds n slots (items ++ [x]) taken := by
  intro k hlo hhi
  rw [List.length_append, List.length_singleton] at hhi
  rcases Nat.lt_succ_iff_lt_or_eq.mp hhi with hold | rfl
  · rw [List.getElem?_append_left hold]
    exact h k hlo hold
  · rw [List.getElem?_concat_length, hslot]

theorem ringHolds_take {n taken : Nat} {slots : Nat -> α} {items : List α}
    (h : RingHolds n slots items taken) : RingHolds n slots items (taken + 1) := by
  intro k hlo hhi
  exact h k (by lia) hhi

/-- The next item extends what was taken so far. -/
theorem prefix_concat_of_getElem {items taken : List α} {x : α} (hbefore : taken <+: items)
    (hnext : items[taken.length]? = some x) : taken ++ [x] <+: items := by
  obtain ⟨rest, rfl⟩ := hbefore
  rw [List.getElem?_append_right (Nat.le_refl _), Nat.sub_self] at hnext
  cases rest with
  | nil => cases hnext
  | cons y rest =>
      rw [List.getElem?_cons_zero, Option.some.injEq] at hnext
      exact ⟨rest, by rw [← hnext, List.append_assoc]; rfl⟩

/-- That item is the one at the head. -/
theorem ringHolds_head {n : Nat} {slots : Nat -> α} {items taken : List α}
    (h : RingHolds n slots items taken.length) (hbefore : taken <+: items)
    (hlt : taken.length < items.length) :
    taken ++ [slots (taken.length % n)] <+: items :=
  prefix_concat_of_getElem hbefore (h taken.length (Nat.le_refl _) hlt)

/-!
## Rings that overwrite

A ring without a reader only has the index of the slot to be written next.  Read from
there on, its slots are in the order in which they were written.
-/

/-- Overwriting the oldest item makes it the newest. -/
theorem rotate_set_succ {xs : List α} {head : Nat} (h : head < xs.length) (a : α) :
    (xs.set head a).rotate (head + 1) = (xs.rotate head).tail ++ [a] := by
  have hset : head + 1 ≤ (xs.set head a).length := by
    rw [List.length_set]
    exact h
  rw [List.rotate_eq_drop_append_take hset, List.rotate_eq_drop_append_take (Nat.le_of_lt h),
    List.drop_eq_getElem_cons h, List.drop_set_of_lt (Nat.lt_succ_self head),
    List.take_succ_eq_append_getElem hset, List.getElem_set_self,
    List.take_set_of_le (Nat.le_refl head), List.cons_append, List.tail_cons,
    List.append_assoc]

theorem ofFn_set {n : Nat} (slots : Fin n -> α) (k : Fin n) (a : α) :
    List.ofFn (fun i => if i = k then a else slots i) = (List.ofFn slots).set k.val a := by
  apply List.ext_getElem
  · rw [List.length_set, List.length_ofFn, List.length_ofFn]
  · intro i hi hi'
    rw [List.getElem_set, List.getElem_ofFn, List.getElem_ofFn]
    simp only [Fin.ext_iff, eq_comm]

end Foundation
end HolyRust
