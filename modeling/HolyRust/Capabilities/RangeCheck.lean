import HolyRust.Capabilities.Registry

/-!
# Contiguous range checks

`verify_range_contiguous` decides whether `len` blocks of 4 KiB from `addr` on
may be used.  The fast path builds a 256-bit mask and compares it with the
capability words at an unchecked offset from `REGISTRY_BITS`; the fallback
samples `check_access` once per block.

`caps i` is the word `i` places after the start of `REGISTRY_BITS`.  Only the
first eight belong to the array, the others are whatever memory follows it.
Lookups through `get` cannot leave the array, so the list of word indices that
a check returns records the unchecked reads only.
-/

namespace HolyRust
namespace Capabilities

/-- The array proper, out of the words at its link address. -/
def registryOf (caps : Nat -> Word) : Registry :=
  fun i => caps i.val

/-- Four 64-bit words of a request mask. -/
abbrev Mask256 : Type := Fin 4 -> BitVec 64

namespace Mask256

def zero : Mask256 := fun _ => 0#64

/-- `mask[offset >> 6] |= 1 << (offset & 63)`. -/
def setBit (offset : Nat) (mask : Mask256) : Mask256 :=
  fun w =>
    if w.val = offset / 64 then
      mask w ||| (1#64 <<< (offset % 64))
    else
      mask w

end Mask256

/-- Block number of an address. -/
def blockOf (addr : Word) : Nat := addr.toNat / 4096

/-- `k & !255`. -/
def windowBase (k : Nat) : Nat := k / 256 * 256

/-- Set the bits of the `n` blocks from `k` on, relative to the window at `base`. -/
def markBlocks (base : Nat) : Nat -> Nat -> Mask256 -> Mask256
  | 0, _, mask => mask
  | n + 1, k, mask => markBlocks base n (k + 1) (mask.setBit (k - base))

def buildMask (addr : Word) (len : Nat) : Option Mask256 :=
  if len = 0 ∨ 256 < len then
    none
  else
    let kStart := blockOf addr
    let kEnd := kStart + len - 1
    let base := windowBase kStart
    if base + 256 ≤ kEnd then
      none
    else
      some (markBlocks base len kStart Mask256.zero)

/-- The 64-bit little-endian view of two neighbouring capability words. -/
def capU64 (caps : Nat -> Word) (base i : Nat) : BitVec 64 :=
  caps (base + 2 * i + 1) ++ caps (base + 2 * i)

/-- The four comparisons, left to right, with the words they read. -/
def verifyWords (caps : Nat -> Word) (mask : Mask256) (base : Nat) :
    List (Fin 4) -> Bool × List Nat
  | [] => (true, [])
  | i :: rest =>
      let read := [base + 2 * i.val, base + 2 * i.val + 1]
      if capU64 caps base i.val &&& mask i = mask i then
        let tail := verifyWords caps mask base rest
        (tail.1, read ++ tail.2)
      else
        (false, read)

def verifyVector (caps : Nat -> Word) (mask : Mask256) (base : Nat) :
    Bool × List Nat :=
  verifyWords caps mask base [0, 1, 2, 3]

/-- `addr + offset * 4096` in `u32`. -/
def blockAddr (addr : Word) (offset : Nat) : Word :=
  addr + BitVec.ofNat 32 offset * 4096#32

/-- The error report of a failed mask comparison, over `n` blocks from `offset` on. -/
def firstMissing (t : Target) (r : Registry) (addr : Word) : Nat -> Nat -> CapId
  | 0, _ => .superUser
  | n + 1, offset =>
      let a := blockAddr addr offset
      match addrToCapId t a with
      | some cap =>
          if !isClaimed r cap.index then cap
          else firstMissing t r addr n (offset + 1)
      | none =>
          if !(inRange 0x08000000 0x080FFFFF a || inRange 0x20000000 0x2001C000 a ||
              inRange 0x80000000 0x8000FFFF a) &&
              !isClaimed r CapId.superUser.index then
            .superUser
          else
            firstMissing t r addr n (offset + 1)

/-- The scalar fallback over `n` blocks from `offset` on. -/
def checkBlocks (t : Target) (r : Registry) (addr : Word) :
    Nat -> Nat -> Except CapId Unit
  | 0, _ => .ok ()
  | n + 1, offset =>
      match checkAccess t r (blockAddr addr offset) with
      | .error cap => .error cap
      | .ok _ => checkBlocks t r addr n (offset + 1)

def verifyRangeContiguous (t : Target) (caps : Nat -> Word) (addr : Word) (len : Nat) :
    Except CapId Unit × List Nat :=
  if len = 0 then
    (.ok (), [])
  else if isSuperuserActive (registryOf caps) then
    (.ok (), [])
  else
    match buildMask addr len with
    | some mask =>
        let answer := verifyVector caps mask (windowBase (blockOf addr) / 32)
        if answer.1 then
          (.ok (), answer.2)
        else
          (.error (firstMissing t (registryOf caps) addr len 0), answer.2)
    | none => (checkBlocks t (registryOf caps) addr len 0, [])

/-!
## Mask bits
-/

/-- The capability bit of block `k`, wherever its word lies. -/
def blockBit (caps : Nat -> Word) (k : Nat) : Bool :=
  (caps (k / 32)).getLsbD (k % 32)

/-- The bit of every block from `k` on, `n` of them, is set. -/
def BlocksMarked (caps : Nat -> Word) (k n : Nat) : Prop :=
  forall j, k ≤ j -> j < k + n -> blockBit caps j = true

theorem setBit_getLsbD (offset : Nat) (mask : Mask256) (w : Fin 4) {b : Nat}
    (hb : b < 64) :
    (mask.setBit offset w).getLsbD b =
      ((mask w).getLsbD b || decide (offset = 64 * w.val + b)) := by
  unfold Mask256.setBit
  by_cases hw : w.val = offset / 64
  · rw [if_pos hw, BitVec.getLsbD_or, getLsbD_one_shiftLeft hb]
    congr 1
    apply decide_eq_decide.mpr
    lia
  · rw [if_neg hw, decide_eq_false (by lia), Bool.or_false]

theorem markBlocks_getLsbD (base n k : Nat) (mask : Mask256) (w : Fin 4) {b : Nat}
    (hb : b < 64) (hk : base ≤ k) :
    (markBlocks base n k mask w).getLsbD b = true ↔
      (mask w).getLsbD b = true ∨
        (k ≤ base + (64 * w.val + b) ∧ base + (64 * w.val + b) < k + n) := by
  induction n generalizing k mask with
  | zero =>
      simp only [markBlocks]
      constructor
      · exact Or.inl
      · intro h
        rcases h with h | h
        · exact h
        · lia
  | succ n ih =>
      simp only [markBlocks]
      rw [ih (k + 1) (mask.setBit (k - base)) (by lia), setBit_getLsbD _ _ _ hb,
        Bool.or_eq_true, decide_eq_true_eq]
      constructor
      · intro h
        rcases h with (h | h) | h
        · exact Or.inl h
        · exact Or.inr (by lia)
        · exact Or.inr (by lia)
      · intro h
        rcases h with h | h
        · exact Or.inl (Or.inl h)
        · by_cases heq : k - base = 64 * w.val + b
          · exact Or.inl (Or.inr heq)
          · exact Or.inr (by lia)

/-!
## The mask comparison
-/

theorem and_eq_right_iff (x m : BitVec w) :
    x &&& m = m ↔ forall b, b < w -> m.getLsbD b = true -> x.getLsbD b = true := by
  constructor
  · intro h b _ hm
    rw [← h, BitVec.getLsbD_and, Bool.and_eq_true] at hm
    exact hm.left
  · intro h
    apply BitVec.eq_of_getLsbD_eq
    intro b hb
    rw [BitVec.getLsbD_and]
    cases hm : m.getLsbD b with
    | false => exact Bool.and_false _
    | true => rw [h b hb hm, Bool.and_true]

theorem capU64_getLsbD (caps : Nat -> Word) {base i b : Nat}
    (hb : b < 64) (hbase : 8 ∣ base) :
    (capU64 caps base i).getLsbD b = blockBit caps (32 * base + 64 * i + b) := by
  unfold capU64 blockBit
  rw [BitVec.getLsbD_append]
  rcases hbase with ⟨c, rfl⟩
  by_cases h : b < 32
  · rw [if_pos h, show (32 * (8 * c) + 64 * i + b) / 32 = 8 * c + 2 * i by lia,
      show (32 * (8 * c) + 64 * i + b) % 32 = b by lia]
  · rw [if_neg h, show (32 * (8 * c) + 64 * i + b) / 32 = 8 * c + 2 * i + 1 by lia,
      show (32 * (8 * c) + 64 * i + b) % 32 = b - 32 by lia]

theorem verifyWords_fst (caps : Nat -> Word) (mask : Mask256) (base : Nat)
    (is : List (Fin 4)) :
    (verifyWords caps mask base is).1 = true ↔
      forall i, i ∈ is -> capU64 caps base i.val &&& mask i = mask i := by
  induction is with
  | nil => simp [verifyWords]
  | cons i rest ih =>
      simp only [verifyWords]
      by_cases h : capU64 caps base i.val &&& mask i = mask i
      · rw [if_pos h]
        simp [ih, h]
      · rw [if_neg h]
        simp [h]

theorem mem_verifyWords_snd {caps : Nat -> Word} {mask : Mask256} {base j : Nat}
    {is : List (Fin 4)} (h : j ∈ (verifyWords caps mask base is).2) :
    base ≤ j ∧ j < base + 8 := by
  induction is with
  | nil => simp [verifyWords] at h
  | cons i rest ih =>
      simp only [verifyWords] at h
      have hi := i.isLt
      by_cases heq : capU64 caps base i.val &&& mask i = mask i
      · rw [if_pos heq] at h
        simp only [List.mem_append, List.mem_cons, List.not_mem_nil, or_false] at h
        rcases h with (h | h) | h
        · lia
        · lia
        · exact ih h
      · rw [if_neg heq] at h
        simp only [List.mem_cons, List.not_mem_nil, or_false] at h
        lia

/-- The comparison starts at the first word of the window, whatever follows. -/
theorem base_mem_verifyVector (caps : Nat -> Word) (mask : Mask256) (base : Nat) :
    base ∈ (verifyVector caps mask base).2 := by
  unfold verifyVector
  simp only [verifyWords]
  split <;> simp

theorem windowBase_le (k : Nat) : windowBase k ≤ k := by
  unfold windowBase
  lia

theorem windowBase_eq_zero {k : Nat} (h : k < 256) : windowBase k = 0 := by
  unfold windowBase
  lia

theorem verifyVector_markBlocks (caps : Nat -> Word) {k n : Nat}
    (hfits : k + n ≤ windowBase k + 256) :
    (verifyVector caps (markBlocks (windowBase k) n k Mask256.zero)
        (windowBase k / 32)).1 = true ↔
      BlocksMarked caps k n := by
  have hle := windowBase_le k
  have hdvd : 8 ∣ windowBase k / 32 := ⟨k / 256, by unfold windowBase; lia⟩
  have hbase : 32 * (windowBase k / 32) = windowBase k := by
    unfold windowBase
    lia
  have hmark : forall (w : Fin 4) (b : Nat), b < 64 ->
      ((markBlocks (windowBase k) n k Mask256.zero w).getLsbD b = true ↔
        (k ≤ windowBase k + (64 * w.val + b) ∧
          windowBase k + (64 * w.val + b) < k + n)) := by
    intro w b hb
    rw [markBlocks_getLsbD _ _ _ _ _ hb hle]
    simp [Mask256.zero]
  unfold verifyVector
  rw [verifyWords_fst]
  constructor
  · intro h j hkj hjn
    have hoff : (j - windowBase k) / 64 < 4 := by lia
    have hword := (and_eq_right_iff _ _).mp
      (h ⟨(j - windowBase k) / 64, hoff⟩ (by
        generalize (⟨(j - windowBase k) / 64, hoff⟩ : Fin 4) = i
        revert i
        decide)) ((j - windowBase k) % 64) (by lia)
      ((hmark _ _ (by lia)).mpr (by
        show k ≤ windowBase k + (64 * ((j - windowBase k) / 64) + _) ∧
          windowBase k + (64 * ((j - windowBase k) / 64) + _) < k + n
        lia))
    rw [capU64_getLsbD caps (by lia) hdvd, hbase] at hword
    rw [← hword]
    congr 1
    show j = windowBase k + 64 * ((j - windowBase k) / 64) + _
    lia
  · intro h i _
    apply (and_eq_right_iff _ _).mpr
    intro b hb hbit
    have hin := (hmark i b hb).mp hbit
    rw [capU64_getLsbD caps hb hdvd, hbase, Nat.add_assoc]
    exact h _ hin.left hin.right

end Capabilities
end HolyRust
