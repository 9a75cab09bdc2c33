import HolyRust.Foundation.Checked
import HolyRust.Foundation.Congruential
import HolyRust.Platform

/-!
# The fuzz harness

`fuzz_uart` draws lengths, bytes and addresses from a generator of its own.  No draw takes
it beyond its buffer, and the generator runs through all of its states.
-/

namespace HolyRust
namespace Kernel

open Foundation

structure Lcg where
  state : Word
deriving DecidableEq, Repr

namespace Lcg

def new (seed : Word) : Lcg := { state := seed }

/-- `wrapping_mul` and `wrapping_add`. -/
def step (x : Word) : Word := x * 1664525#32 + 1013904223#32

def next (g : Lcg) : Word × Lcg :=
  (step g.state, { state := step g.state })

def nextByte (g : Lcg) : Byte × Lcg :=
  ((g.next.1 >>> 24).setWidth 8, g.next.2)

/-- The generator after `n` draws. -/
def after (n : Nat) (g : Lcg) : Lcg :=
  (fun g => g.next.2)^[n] g

end Lcg

/-- `_buf[i] = rng.next_byte()` for `count` indices from `i` on. -/
def fuzzFill : Nat -> Nat -> List Byte -> Lcg -> Except Panic (List Byte × Lcg)
  | 0, _, buf, g => pure (buf, g)
  | count + 1, i, buf, g => do
      let buf <- Checked.put buf i g.nextByte.1
      fuzzFill count (i + 1) buf g.nextByte.2

/-- One mutation: a length from 1 to 32, the bytes, and a random address. -/
def fuzzRound (g : Lcg) : Except Panic Lcg := do
  let (_, g) <-
    fuzzFill (g.nextByte.1.toNat % 32 + 1) 0 (List.replicate 32 0#8) g.nextByte.2
  pure g.next.2

def fuzzRounds : Nat -> Lcg -> Nat -> Except Panic Nat
  | 0, _, checks => pure checks
  | n + 1, g, checks => do
      let g <- fuzzRound g
      fuzzRounds n g (checks + 1)

/-- The mutations and the checks. -/
def fuzzUart (n : Nat) (seed : Word) : Except Panic (Nat × Nat) := do
  let checks <- fuzzRounds n (Lcg.new seed) 0
  pure (n, checks)

/-!
## No panic
-/

theorem fuzzFill_returns (count i : Nat) (buf : List Byte) (g : Lcg)
    (h : i + count ≤ buf.length) : exists result, fuzzFill count i buf g = .ok result := by
  induction count generalizing i buf g with
  | zero => exact ⟨_, rfl⟩
  | succ count ih =>
      have hput : Checked.put buf i g.nextByte.1 = .ok (buf.set i g.nextByte.1) :=
        if_pos (by lia)
      obtain ⟨result, hrest⟩ := ih (i + 1) (buf.set i g.nextByte.1) g.nextByte.2
        (by rw [List.length_set]; lia)
      refine ⟨result, ?_⟩
      unfold fuzzFill
      rw [hput]
      exact hrest

theorem fuzzRound_returns (g : Lcg) : exists g', fuzzRound g = .ok g' := by
  have hlen : 0 + (g.nextByte.1.toNat % 32 + 1) ≤ (List.replicate 32 0#8).length := by
    rw [List.length_replicate]
    lia
  obtain ⟨result, hfill⟩ := fuzzFill_returns _ 0 _ g.nextByte.2 hlen
  refine ⟨result.2.next.2, ?_⟩
  unfold fuzzRound
  rw [hfill]
  rfl

theorem fuzzRounds_eq (n : Nat) (g : Lcg) (checks : Nat) :
    fuzzRounds n g checks = .ok (checks + n) := by
  induction n generalizing g checks with
  | zero => rfl
  | succ n ih =>
      obtain ⟨g', hround⟩ := fuzzRound_returns g
      unfold fuzzRounds
      rw [hround]
      show fuzzRounds n g' (checks + 1) = _
      rw [ih, Nat.add_assoc, Nat.add_comm 1 n]

theorem fuzzUart_eq (n : Nat) (seed : Word) : fuzzUart n seed = .ok (n, n) := by
  unfold fuzzUart
  rw [fuzzRounds_eq, Nat.zero_add]
  rfl

/-!
## The generator
-/

namespace Lcg

theorem eq_iff_state (g h : Lcg) : g = h ↔ g.state = h.state := by
  cases g
  cases h
  rw [mk.injEq]

theorem next_state (g : Lcg) : g.next.2.state = step g.state := rfl

theorem state_after (n : Nat) (g : Lcg) : (g.after n).state = step^[n] g.state := by
  induction n generalizing g with
  | zero => rfl
  | succ n ih =>
      have hnext : g.after (n + 1) = g.next.2.after n := Function.iterate_succ_apply _ n g
      rw [hnext, ih, Function.iterate_succ_apply, next_state]

theorem step_toNat (x : Word) :
    (step x).toNat = congruential 1664525 1013904223 (2 ^ 32) x.toNat := by
  unfold step congruential
  rw [BitVec.toNat_add, BitVec.toNat_mul, Nat.mod_add_mod, Nat.mul_comm]
  simp only [BitVec.toNat_ofNat, Nat.reducePow, Nat.reduceMod]

theorem iterate_step_toNat (n : Nat) (x : Word) :
    (step^[n] x).toNat = (congruential 1664525 1013904223 (2 ^ 32))^[n] x.toNat := by
  induction n with
  | zero => rw [Function.iterate_zero_apply, Function.iterate_zero_apply]
  | succ n ih => rw [Function.iterate_succ_apply', Function.iterate_succ_apply', step_toNat, ih]

theorem byte_eq_iff (x : Word) (b : Byte) :
    (x >>> 24).setWidth 8 = b ↔ x.toNat / 2 ^ 24 = b.toNat := by
  have hx := x.isLt
  rw [← BitVec.toNat_inj, BitVec.toNat_setWidth, BitVec.toNat_ushiftRight,
    Nat.shiftRight_eq_div_pow, Nat.mod_eq_of_lt]
  lia

/-- The byte of draw number `i`. -/
theorem nextByte_after (g : Lcg) (i : Nat) (b : Byte) :
    (g.after i).nextByte.1 = b ↔
      (congruential 1664525 1013904223 (2 ^ 32))^[i] (step g.state).toNat / 2 ^ 24 = b.toNat := by
  have hstate : (g.after i).next.1 = step^[i] (step g.state) := by
    show step (g.after i).state = _
    rw [state_after, ← Function.iterate_succ_apply' step, Function.iterate_succ_apply]
  rw [nextByte, hstate, byte_eq_iff, iterate_step_toNat]

/-- From any seed on, any `2 ^ 32` draws in a row go through every state once and then
begin again: two draws leave the same state exactly when their numbers agree modulo
`2 ^ 32`, and each byte is drawn equally often.  The harness that draws from it never panics
and makes every check. -/
theorem draws_balanced (g : Lcg) :
    (forall n m, g.after n = g.after m ↔ n ≡ m [MOD 2 ^ 32]) ∧
      (forall b : Byte, Nat.count (fun i => (g.after i).nextByte.1 = b) (2 ^ 32) = 2 ^ 24) ∧
      forall n, fuzzUart n g.state = .ok (n, n) := by
  have ha : 1664525 % 4 = 1 := by decide
  have hc : 1013904223 % 2 = 1 := by decide
  refine ⟨?_, ?_, fun n => fuzzUart_eq n g.state⟩
  · intro n m
    have hperiod := iterate_congruential_eq_iff_modEq ha hc g.state.isLt n m
    rw [← iterate_step_toNat, ← iterate_step_toNat, BitVec.toNat_inj, ← state_after,
      ← state_after] at hperiod
    exact (eq_iff_state _ _).trans hperiod
  · intro b
    have hlt : (step g.state).toNat < 2 ^ 32 := (step g.state).isLt
    have hsplit : 2 ^ 24 * 2 ^ 8 = 2 ^ 32 := by rw [← Nat.pow_add]
    simp only [nextByte_after]
    rw [count_of_injOn (p := fun y => y / 2 ^ 24 = b.toNat) _
      (injOn_iterate_congruential ha hc hlt), ← hsplit]
    · exact count_div_eq (Nat.two_pow_pos 24) b.isLt
    · intro i _
      exact Finset.mem_coe.mpr (Finset.mem_range.mpr (iterate_congruential_lt hlt i))

end Lcg

end Kernel
end HolyRust
