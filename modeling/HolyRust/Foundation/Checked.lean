import Mathlib.Data.BitVec

/-!
# Operations that may panic

Indexing, slicing and subtraction of the source language stop the program when they
leave their range.  Here they end in a `Panic`.  Arithmetic on fixed-width numbers does
so in a build with overflow checks and is reduced modulo `2 ^ w` in one without.
-/

namespace HolyRust
namespace Foundation

inductive Panic where
  | index
  | slice
  | overflow
  | divideByZero
  | assertion
deriving DecidableEq, Repr

/-- The `overflow-checks` setting of a build profile. -/
inductive OverflowChecks where
  | on
  | off
deriving DecidableEq, Repr

namespace Checked

/-!
## Arrays
-/

/-- `xs[i]`. -/
def get (xs : List α) (i : Nat) : Except Panic α :=
  match xs[i]? with
  | some a => .ok a
  | none => .error .index

/-- `xs[i] = a`. -/
def put (xs : List α) (i : Nat) (a : α) : Except Panic (List α) :=
  if i < xs.length then .ok (xs.set i a) else .error .index

/-- `xs[lo..hi]`. -/
def slice (xs : List α) (lo hi : Nat) : Except Panic (List α) :=
  if lo ≤ hi ∧ hi ≤ xs.length then .ok ((xs.take hi).drop lo) else .error .slice

/-- `dst[..n].copy_from_slice(src)`. -/
def copy (dst : List α) (n : Nat) (src : List α) : Except Panic (List α) :=
  if n ≤ dst.length ∧ src.length = n then .ok (src ++ dst.drop n) else .error .slice

theorem get_of_getElem? {xs : List α} {i : Nat} {a : α} (h : xs[i]? = some a) :
    get xs i = .ok a := by
  unfold get
  rw [h]

theorem put_of_lt {xs : List α} {i : Nat} (h : i < xs.length) (a : α) :
    put xs i a = .ok (xs.set i a) :=
  if_pos h

theorem slice_of_le {xs : List α} {lo hi : Nat} (hlo : lo ≤ hi) (hhi : hi ≤ xs.length) :
    slice xs lo hi = .ok ((xs.take hi).drop lo) :=
  if_pos ⟨hlo, hhi⟩

theorem copy_of_le {dst src : List α} (h : src.length ≤ dst.length) :
    copy dst src.length src = .ok (src ++ dst.drop src.length) :=
  if_pos ⟨h, rfl⟩

/-!
## Numbers
-/

/-- What a result that does not fit becomes. -/
def overflowing (checks : OverflowChecks) (wrapped : α) : Except Panic α :=
  match checks with
  | .on => .error .overflow
  | .off => .ok wrapped

def add (checks : OverflowChecks) (a b : BitVec w) : Except Panic (BitVec w) :=
  if a.toNat + b.toNat < 2 ^ w then .ok (a + b) else overflowing checks (a + b)

def mul (checks : OverflowChecks) (a b : BitVec w) : Except Panic (BitVec w) :=
  if a.toNat * b.toNat < 2 ^ w then .ok (a * b) else overflowing checks (a * b)

/-- `a - b` on fixed-width numbers. -/
def subFixed (checks : OverflowChecks) (a b : BitVec w) : Except Panic (BitVec w) :=
  if b.toNat ≤ a.toNat then .ok (a - b) else overflowing checks (a - b)

/-- `a << n`; only the low bits of a shift amount are used when it is not checked. -/
def shl (checks : OverflowChecks) (a : BitVec w) (n : Nat) : Except Panic (BitVec w) :=
  if n < w then .ok (a <<< n) else overflowing checks (a <<< (n % w))

/-- `a - b` on sizes; a result below zero is never meant. -/
def sub (a b : Nat) : Except Panic Nat :=
  if b ≤ a then .ok (a - b) else .error .overflow

def div (a b : BitVec w) : Except Panic (BitVec w) :=
  if b = 0#w then .error .divideByZero else .ok (a / b)

def rem (a b : BitVec w) : Except Panic (BitVec w) :=
  if b = 0#w then .error .divideByZero else .ok (a % b)

/-- `debug_assert!(p)`. -/
def assert (p : Prop) [Decidable p] : Except Panic Unit :=
  if p then .ok () else .error .assertion

theorem add_of_lt {a b : BitVec w} (h : a.toNat + b.toNat < 2 ^ w) (checks : OverflowChecks) :
    add checks a b = .ok (a + b) :=
  if_pos h

theorem mul_of_lt {a b : BitVec w} (h : a.toNat * b.toNat < 2 ^ w) (checks : OverflowChecks) :
    mul checks a b = .ok (a * b) :=
  if_pos h

theorem subFixed_of_le {a b : BitVec w} (h : b.toNat ≤ a.toNat) (checks : OverflowChecks) :
    subFixed checks a b = .ok (a - b) :=
  if_pos h

theorem shl_of_lt {n : Nat} (h : n < w) (checks : OverflowChecks) (a : BitVec w) :
    shl checks a n = .ok (a <<< n) :=
  if_pos h

theorem sub_of_le {a b : Nat} (h : b ≤ a) : sub a b = .ok (a - b) :=
  if_pos h

theorem div_of_ne_zero {a b : BitVec w} (h : b ≠ 0#w) : div a b = .ok (a / b) :=
  if_neg h

theorem assert_of {p : Prop} [Decidable p] (h : p) : assert p = .ok () :=
  if_pos h

theorem rem_of_ne_zero {a b : BitVec w} (h : b ≠ 0#w) : rem a b = .ok (a % b) :=
  if_neg h

end Checked

end Foundation
end HolyRust
