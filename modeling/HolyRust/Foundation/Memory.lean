import Mathlib.Data.BitVec

/-!
# Byte-addressed memory

A memory maps `w`-bit addresses to bytes.  Words are 32 bits, little-endian and
may be unaligned; addresses wrap at the end of the address space.  Two word
accesses do not disturb each other when they are `Apart`, that is when neither
address lies among the four bytes of the other.
-/

namespace HolyRust
namespace Foundation

/-- Memory contents over a `w`-bit address space. -/
def Memory (w : Nat) : Type := BitVec w -> BitVec 8

namespace Memory

/-- The little-endian word whose lowest byte is at `a`. -/
@[irreducible] def read32 (m : Memory w) (a : BitVec w) : BitVec 32 :=
  m (a + 3#w) ++ m (a + 2#w) ++ m (a + 1#w) ++ m a

/-- Replace the four bytes from `a` on by those of `v`. -/
@[irreducible] def write32 (m : Memory w) (a : BitVec w) (v : BitVec 32) : Memory w :=
  fun b =>
    if (b - a).toNat < 4 then
      v.extractLsb' (8 * (b - a).toNat) 8
    else
      m b

/-- Replace the two bytes from `a` on by those of `v`. -/
@[irreducible] def write16 (m : Memory w) (a : BitVec w) (v : BitVec 16) : Memory w :=
  fun b =>
    if (b - a).toNat < 2 then
      v.extractLsb' (8 * (b - a).toNat) 8
    else
      m b

/-- Neither word access touches a byte of the other one. -/
def Apart (a b : BitVec w) : Prop :=
  4 ≤ (b - a).toNat ∧ 4 ≤ (a - b).toNat

instance (a b : BitVec w) : Decidable (Apart a b) :=
  inferInstanceAs (Decidable (_ ∧ _))

theorem Apart.symm {a b : BitVec w} (h : Apart a b) : Apart b a :=
  ⟨h.right, h.left⟩

/-!
## Frame rules
-/

theorem write32_apply_of_le (m : Memory w) (a b : BitVec w) (v : BitVec 32)
    (h : 4 ≤ (b - a).toNat) :
    m.write32 a v b = m b := by
  unfold write32
  rw [if_neg (Nat.not_lt.mpr h)]

/-- A byte of the word at `b` is four or more bytes past `a`. -/
theorem Apart.add_ofNat {a b : BitVec w} (h : Apart a b) {i : Nat} (hi : i < 4) :
    4 ≤ (b + BitVec.ofNat w i - a).toNat := by
  rcases h with ⟨hba, hab⟩
  have hpow : (b - a).toNat + (a - b).toNat = 2 ^ w := by
    simp only [BitVec.toNat_sub] at *
    have ha := a.isLt
    have hb := b.isLt
    rcases Nat.lt_or_ge a.toNat b.toNat with hlt | hge
    · rw [show 2 ^ w - a.toNat + b.toNat =
        (b.toNat - a.toNat) + 2 ^ w by omega] at *
      rw [Nat.add_mod_right, Nat.mod_eq_of_lt (by omega)] at *
      rw [Nat.mod_eq_of_lt (by omega)] at *
      omega
    · rcases Nat.eq_or_lt_of_le hge with heq | hgt
      · rw [heq, Nat.sub_add_cancel (by omega), Nat.mod_self] at hba
        omega
      · rw [show 2 ^ w - b.toNat + a.toNat =
          (a.toNat - b.toNat) + 2 ^ w by omega] at *
        rw [Nat.add_mod_right, Nat.mod_eq_of_lt (a := a.toNat - b.toNat)
          (by omega)] at *
        rw [Nat.mod_eq_of_lt (by omega)] at *
        omega
  have hshift : b + BitVec.ofNat w i - a = (b - a) + BitVec.ofNat w i := by
    rw [BitVec.sub_eq_add_neg, BitVec.sub_eq_add_neg, BitVec.add_assoc,
      BitVec.add_comm (BitVec.ofNat w i), ← BitVec.add_assoc]
  rw [hshift, BitVec.toNat_add, BitVec.toNat_ofNat]
  have hiw : i < 2 ^ w := by omega
  rw [Nat.mod_eq_of_lt hiw, Nat.mod_eq_of_lt (by omega)]
  omega

theorem read32_write32_of_apart (m : Memory w) {a b : BitVec w}
    (v : BitVec 32) (h : Apart a b) :
    (m.write32 a v).read32 b = m.read32 b := by
  have h0 : 4 ≤ (b - a).toNat := h.left
  have h1 := h.add_ofNat (i := 1) (by omega)
  have h2 := h.add_ofNat (i := 2) (by omega)
  have h3 := h.add_ofNat (i := 3) (by omega)
  unfold read32
  rw [write32_apply_of_le m a _ v h0, write32_apply_of_le m a _ v h1,
    write32_apply_of_le m a _ v h2, write32_apply_of_le m a _ v h3]

/-!
## Reading back a written word
-/

theorem bytes_append (v : BitVec 32) :
    v.extractLsb' 24 8 ++ v.extractLsb' 16 8 ++ v.extractLsb' 8 8 ++
      v.extractLsb' 0 8 = v := by
  apply BitVec.eq_of_getLsbD_eq
  intro i hi
  simp only [BitVec.getLsbD_append, BitVec.getLsbD_extractLsb']
  by_cases h8 : i < 8
  · simp [h8]
  · by_cases h16 : i < 16
    · simp [h8, show i - 8 < 8 by omega, show 8 + (i - 8) = i by omega]
    · by_cases h24 : i < 24
      · simp [h8, show ¬ i - 8 < 8 by omega, show i - 8 - 8 < 8 by omega,
          show 16 + (i - 8 - 8) = i by omega]
      · simp [h8, show ¬ i - 8 < 8 by omega, show ¬ i - 8 - 8 < 8 by omega,
          show i - 8 - 8 - 8 < 8 by omega,
          show 24 + (i - 8 - 8 - 8) = i by omega]

theorem read32_write32 (m : Memory w) (a : BitVec w) (v : BitVec 32)
    (hw : 2 ≤ w) :
    (m.write32 a v).read32 a = v := by
  have hpow : 4 ≤ 2 ^ w := Nat.pow_le_pow_right (n := 2) (by omega) hw
  have hoff : forall i, i < 4 -> (a + BitVec.ofNat w i - a).toNat = i := by
    intro i hi
    rw [BitVec.add_comm, BitVec.add_sub_cancel, BitVec.toNat_ofNat,
      Nat.mod_eq_of_lt (by omega)]
  have h1 := hoff 1 (by omega)
  have h2 := hoff 2 (by omega)
  have h3 := hoff 3 (by omega)
  unfold read32 write32
  simp only [h1, h2, h3, BitVec.sub_self, BitVec.toNat_ofNat, Nat.zero_mod]
  exact bytes_append v

theorem read32_setWidth (m : Memory w) (a : BitVec w) : (m.read32 a).setWidth 8 = m a := by
  unfold read32
  rw [BitVec.setWidth_append]
  simp

/-- The bytes of a word that was read. -/
theorem extractLsb'_read32 (m : Memory w) (a : BitVec w) {k : Nat} (hk : k < 4) :
    (m.read32 a).extractLsb' (8 * k) 8 = m (a + BitVec.ofNat w k) := by
  unfold read32
  apply BitVec.eq_of_getLsbD_eq
  intro i hi
  simp only [BitVec.getLsbD_append, BitVec.getLsbD_extractLsb', hi]
  match k, hk with
  | 0, _ => simp [hi]
  | 1, _ => simp [show ¬ 8 + i < 8 by lia, show 8 + i - 8 = i by lia, hi]
  | 2, _ =>
      simp [show ¬ 16 + i < 8 by lia, show ¬ 16 + i - 8 < 8 by lia,
        show 16 + i - 8 - 8 = i by lia, hi]
  | 3, _ =>
      simp [show ¬ 24 + i < 8 by lia, show ¬ 24 + i - 8 < 8 by lia,
        show ¬ 24 + i - 8 - 8 < 8 by lia, show 24 + i - 8 - 8 - 8 = i by lia]

theorem write32_self (m : Memory w) (a : BitVec w) (v : BitVec 32) :
    m.write32 a v a = v.setWidth 8 := by
  unfold write32
  simp [BitVec.setWidth_eq_extractLsb']

/-!
## Word loops

`copyWords` and `fillWords` run upwards from numeric addresses, one word at a
time.  A byte outside the destination keeps its value.
-/

def copyWords : Nat -> Nat -> Nat -> Memory w -> Memory w
  | 0, _, _, m => m
  | n + 1, src, dst, m =>
      copyWords n (src + 4) (dst + 4)
        (m.write32 (BitVec.ofNat w dst) (m.read32 (BitVec.ofNat w src)))

def fillWords (v : BitVec 32) : Nat -> Nat -> Memory w -> Memory w
  | 0, _, m => m
  | n + 1, dst, m => fillWords v n (dst + 4) (m.write32 (BitVec.ofNat w dst) v)

theorem read32_congr {m m' : Memory w} {a : BitVec w}
    (h : forall i, i < 4 -> m (a + BitVec.ofNat w i) = m' (a + BitVec.ofNat w i)) :
    m.read32 a = m'.read32 a := by
  have h0 := h 0 (by lia)
  rw [BitVec.add_zero] at h0
  unfold read32
  rw [h0, h 1 (by lia), h 2 (by lia), h 3 (by lia)]

/-- The distance between two numeric addresses, around the end if need be. -/
theorem toNat_ofNat_sub_ofNat {a b : Nat} (ha : a < 2 ^ w) (hb : b < 2 ^ w) :
    (BitVec.ofNat w b - BitVec.ofNat w a).toNat =
      if a ≤ b then b - a else 2 ^ w + b - a := by
  rw [BitVec.toNat_sub, BitVec.toNat_ofNat, BitVec.toNat_ofNat,
    Nat.mod_eq_of_lt ha, Nat.mod_eq_of_lt hb]
  generalize 2 ^ w = size at *
  by_cases h : a ≤ b
  · rw [if_pos h, show size - a + b = b - a + size by lia, Nat.add_mod_right,
      Nat.mod_eq_of_lt (by lia)]
  · rw [if_neg h, Nat.mod_eq_of_lt (by lia)]
    lia

theorem write32_ofNat_outside (m : Memory w) (v : BitVec 32) {a b : Nat}
    (ha : a + 4 ≤ 2 ^ w) (hb : b < 2 ^ w) (h : b < a ∨ a + 4 ≤ b) :
    m.write32 (BitVec.ofNat w a) v (BitVec.ofNat w b) = m (BitVec.ofNat w b) := by
  apply write32_apply_of_le
  rw [toNat_ofNat_sub_ofNat (by lia) hb]
  generalize 2 ^ w = size at *
  lia

theorem write32_ofNat_inside (m : Memory w) (v : BitVec 32) {a b : Nat}
    (hb : b < 2 ^ w) (hlo : a ≤ b) (hhi : b < a + 4) :
    m.write32 (BitVec.ofNat w a) v (BitVec.ofNat w b) = v.extractLsb' (8 * (b - a)) 8 := by
  unfold write32
  rw [toNat_ofNat_sub_ofNat (by lia) hb, if_pos hlo, if_pos (by lia)]

theorem write16_ofNat_outside (m : Memory w) (v : BitVec 16) {a b : Nat}
    (ha : a + 2 ≤ 2 ^ w) (hb : b < 2 ^ w) (h : b < a ∨ a + 2 ≤ b) :
    m.write16 (BitVec.ofNat w a) v (BitVec.ofNat w b) = m (BitVec.ofNat w b) := by
  have hfar : ¬ (BitVec.ofNat w b - BitVec.ofNat w a).toNat < 2 := by
    rw [toNat_ofNat_sub_ofNat (by lia) hb]
    generalize 2 ^ w = size at *
    split <;> lia
  unfold write16
  rw [if_neg hfar]

theorem write32_ofNat_zero (m : Memory w) {a b : Nat}
    (hb : b < 2 ^ w) (hlo : a ≤ b) (hhi : b < a + 4) :
    m.write32 (BitVec.ofNat w a) 0#32 (BitVec.ofNat w b) = 0#8 := by
  rw [write32_ofNat_inside m 0#32 hb hlo hhi]
  simp

theorem copyWords_outside {n src dst b : Nat} (m : Memory w)
    (hfits : dst + 4 * n ≤ 2 ^ w) (hb : b < 2 ^ w) (h : b < dst ∨ dst + 4 * n ≤ b) :
    copyWords n src dst m (BitVec.ofNat w b) = m (BitVec.ofNat w b) := by
  induction n generalizing src dst m with
  | zero => rfl
  | succ n ih =>
      rw [copyWords, ih _ (by lia) (by lia), write32_ofNat_outside _ _ (by lia) hb (by lia)]

/-- A copy between two windows of words that do not meet. -/
theorem read32_copyWords {n src dst i : Nat} (m : Memory w) (hw : 2 ≤ w)
    (hsrc : src + 4 * n ≤ 2 ^ w) (hdst : dst + 4 * n ≤ 2 ^ w)
    (hapart : src + 4 * n ≤ dst ∨ dst + 4 * n ≤ src) (hi : i < n) :
    (copyWords n src dst m).read32 (BitVec.ofNat w (dst + 4 * i)) =
      m.read32 (BitVec.ofNat w (src + 4 * i)) := by
  induction n generalizing src dst m i with
  | zero => lia
  | succ n ih =>
      rw [copyWords]
      cases i with
      | zero =>
          have hkeep : (copyWords n (src + 4) (dst + 4) (m.write32 (BitVec.ofNat w dst)
              (m.read32 (BitVec.ofNat w src)))).read32 (BitVec.ofNat w dst) =
              (m.write32 (BitVec.ofNat w dst) (m.read32 (BitVec.ofNat w src))).read32
                (BitVec.ofNat w dst) := by
            apply read32_congr
            intro k hk
            rw [← BitVec.ofNat_add]
            exact copyWords_outside _ (by lia) (by lia) (by lia)
          exact hkeep.trans (read32_write32 _ _ _ hw)
      | succ i =>
          rw [show dst + 4 * (i + 1) = dst + 4 + 4 * i by lia,
            ih _ (by lia) (by lia) (by lia) (by lia),
            show src + 4 * (i + 1) = src + 4 + 4 * i by lia]
          apply read32_congr
          intro k hk
          rw [← BitVec.ofNat_add]
          exact write32_ofNat_outside _ _ (by lia) (by lia) (by lia)

theorem fillWords_outside {n dst b : Nat} (m : Memory w) (v : BitVec 32)
    (hfits : dst + 4 * n ≤ 2 ^ w) (hb : b < 2 ^ w) (h : b < dst ∨ dst + 4 * n ≤ b) :
    fillWords v n dst m (BitVec.ofNat w b) = m (BitVec.ofNat w b) := by
  induction n generalizing dst m with
  | zero => rfl
  | succ n ih =>
      rw [fillWords, ih _ (by lia) (by lia), write32_ofNat_outside _ _ (by lia) hb (by lia)]

theorem fillWords_zero_inside {n dst b : Nat} (m : Memory w)
    (hfits : dst + 4 * n ≤ 2 ^ w) (hlo : dst ≤ b) (hhi : b < dst + 4 * n) :
    fillWords 0#32 n dst m (BitVec.ofNat w b) = 0#8 := by
  induction n generalizing dst m with
  | zero => lia
  | succ n ih =>
      rw [fillWords]
      by_cases hword : b < dst + 4
      · rw [fillWords_outside _ _ (by lia) (by lia) (Or.inl hword),
          write32_ofNat_zero _ (by lia) hlo hword]
      · exact ih _ (by lia) (by lia) (by lia)

/-!
## Word lists

Consecutive words from one address on, as multiple-register transfers access
them.  The frame rules are for lists that do not run past the end of memory.
-/

def readWords (m : Memory w) : BitVec w -> Nat -> List (BitVec 32)
  | _, 0 => []
  | a, n + 1 => m.read32 a :: readWords m (a + 4#w) n

def writeWords (m : Memory w) : BitVec w -> List (BitVec 32) -> Memory w
  | _, [] => m
  | a, v :: vs => writeWords (m.write32 a v) (a + 4#w) vs

/-- Halfwords one after another from a numeric address on. -/
def writeHalves : List (BitVec 16) -> Nat -> Memory w -> Memory w
  | [], _, m => m
  | v :: vs, a, m => writeHalves vs (a + 2) (m.write16 (BitVec.ofNat w a) v)

theorem writeHalves_outside {vs : List (BitVec 16)} {a b : Nat} (m : Memory w)
    (ha : a + 2 * vs.length ≤ 2 ^ w) (hb : b < 2 ^ w) (h : b < a ∨ a + 2 * vs.length ≤ b) :
    writeHalves vs a m (BitVec.ofNat w b) = m (BitVec.ofNat w b) := by
  induction vs generalizing a m with
  | nil => rfl
  | cons v vs ih =>
      rw [List.length_cons] at ha h
      rw [writeHalves, ih _ (by lia) (by lia), write16_ofNat_outside _ _ (by lia) hb (by lia)]

theorem apart_of_toNat {a b : BitVec w} (ha : a.toNat + 4 ≤ 2 ^ w)
    (hb : b.toNat + 4 ≤ 2 ^ w) (h : a.toNat + 4 ≤ b.toNat ∨ b.toNat + 4 ≤ a.toNat) :
    Apart a b := by
  have hdist : forall x y : BitVec w,
      (x - y).toNat = if y.toNat ≤ x.toNat then x.toNat - y.toNat
        else 2 ^ w + x.toNat - y.toNat := by
    intro x y
    have hsub := toNat_ofNat_sub_ofNat y.isLt x.isLt
    rwa [BitVec.ofNat_toNat, BitVec.ofNat_toNat, BitVec.setWidth_eq,
      BitVec.setWidth_eq] at hsub
  unfold Apart
  rw [hdist, hdist]
  generalize 2 ^ w = size at *
  lia

theorem toNat_add_four (hw : 3 ≤ w) {a : BitVec w} (h : a.toNat + 4 < 2 ^ w) :
    (a + 4#w).toNat = a.toNat + 4 := by
  have hpow : 2 ^ 3 ≤ 2 ^ w := Nat.pow_le_pow_right (n := 2) (by lia) hw
  rw [BitVec.toNat_add, BitVec.toNat_ofNat, Nat.mod_eq_of_lt (a := 4) (by lia),
    Nat.mod_eq_of_lt h]

theorem read32_writeWords_outside (hw : 3 ≤ w) {vs : List (BitVec 32)} {a b : BitVec w}
    (m : Memory w) (ha : a.toNat + 4 * vs.length ≤ 2 ^ w) (hb : b.toNat + 4 ≤ 2 ^ w)
    (h : b.toNat + 4 ≤ a.toNat ∨ a.toNat + 4 * vs.length ≤ b.toNat) :
    (m.writeWords a vs).read32 b = m.read32 b := by
  induction vs generalizing a m with
  | nil => rfl
  | cons v vs ih =>
      simp only [List.length_cons] at ha h
      rw [writeWords]
      cases vs with
      | nil =>
          rw [writeWords, read32_write32_of_apart _ _
            (apart_of_toNat (by lia) hb (by lia))]
      | cons v' vs =>
          simp only [List.length_cons] at ha h ih
          have hnext := toNat_add_four hw (a := a) (by lia)
          rw [ih _ (by lia) (by lia), read32_write32_of_apart _ _
            (apart_of_toNat (by lia) hb (by lia))]

theorem writeWords_outside {vs : List (BitVec 32)} {a b : Nat} (m : Memory w)
    (ha : a + 4 * vs.length ≤ 2 ^ w) (hb : b < 2 ^ w) (h : b < a ∨ a + 4 * vs.length ≤ b) :
    m.writeWords (BitVec.ofNat w a) vs (BitVec.ofNat w b) = m (BitVec.ofNat w b) := by
  induction vs generalizing a m with
  | nil => rfl
  | cons v vs ih =>
      simp only [List.length_cons] at ha h
      rw [writeWords, ← BitVec.ofNat_add, ih _ (by lia) (by lia),
        write32_ofNat_outside _ _ (by lia) hb (by lia)]

theorem readWords_congr {m m' : Memory w} (hw : 3 ≤ w) {a : BitVec w} {n : Nat}
    (ha : a.toNat + 4 * n ≤ 2 ^ w)
    (h : forall b : BitVec w, a.toNat ≤ b.toNat -> b.toNat + 4 ≤ a.toNat + 4 * n ->
      m.read32 b = m'.read32 b) :
    m.readWords a n = m'.readWords a n := by
  induction n generalizing a with
  | zero => rfl
  | succ n ih =>
      rw [readWords, readWords, h a (by lia) (by lia)]
      congr 1
      cases n with
      | zero => rfl
      | succ n =>
          have hnext := toNat_add_four hw (a := a) (by lia)
          exact ih (by lia) (fun b hlo hhi => h b (by lia) (by lia))

theorem readWords_writeWords (hw : 3 ≤ w) {vs : List (BitVec 32)} {a : BitVec w}
    (m : Memory w) (ha : a.toNat + 4 * vs.length ≤ 2 ^ w) :
    (m.writeWords a vs).readWords a vs.length = vs := by
  induction vs generalizing a m with
  | nil => rfl
  | cons v vs ih =>
      simp only [List.length_cons] at ha
      rw [List.length_cons, readWords, writeWords]
      cases vs with
      | nil =>
          rw [writeWords, read32_write32 _ _ _ (by lia)]
          rfl
      | cons v' vs =>
          simp only [List.length_cons] at ha ih
          have hnext := toNat_add_four hw (a := a) (by lia)
          rw [read32_writeWords_outside hw _ (by rw [List.length_cons]; lia) (by lia)
            (by lia), read32_write32 _ _ _ (by lia)]
          congr 1
          exact ih _ (by lia)

theorem readWords_append (m : Memory w) (a k n : Nat) :
    m.readWords (BitVec.ofNat w a) (k + n) =
      m.readWords (BitVec.ofNat w a) k ++ m.readWords (BitVec.ofNat w (a + 4 * k)) n := by
  induction k generalizing a with
  | zero =>
      rw [Nat.zero_add]
      rfl
  | succ k ih =>
      have hnext : BitVec.ofNat w a + 4#w = BitVec.ofNat w (a + 4) := (BitVec.ofNat_add a 4).symm
      rw [show k + 1 + n = k + n + 1 by lia, readWords, readWords, hnext, ih (a + 4),
        show a + 4 + 4 * k = a + 4 * (k + 1) by lia]
      rfl

theorem length_readWords (m : Memory w) (a : BitVec w) (n : Nat) :
    (m.readWords a n).length = n := by
  induction n generalizing a with
  | zero => rfl
  | succ n ih => rw [readWords, List.length_cons, ih]

/-!
## Windows

`Misses lo hi a` says that the word at `a` has no byte in the window from `lo` to
below `hi`.  The window must not start in the bytes that a word at the end of
memory wraps around to.
-/

def Misses (lo hi : Nat) (a : BitVec w) : Prop :=
  a.toNat + 4 ≤ lo ∨ hi ≤ a.toNat

instance (lo hi : Nat) (a : BitVec w) : Decidable (Misses lo hi a) :=
  inferInstanceAs (Decidable (_ ∨ _))

theorem write32_misses (m : Memory w) (v : BitVec 32) {lo hi b : Nat} {a : BitVec w}
    (h : Misses lo hi a) (hwrap : 4 ≤ lo) (hfits : hi ≤ 2 ^ w) (hlo : lo ≤ b) (hhi : b < hi) :
    m.write32 a v (BitVec.ofNat w b) = m (BitVec.ofNat w b) := by
  apply write32_apply_of_le
  have hdist := toNat_ofNat_sub_ofNat a.isLt (Nat.lt_of_lt_of_le hhi hfits)
  rw [BitVec.ofNat_toNat, BitVec.setWidth_eq] at hdist
  rw [hdist]
  have ha := a.isLt
  unfold Misses at h
  generalize 2 ^ w = size at *
  lia

/-- The bytes of the window are the same in both memories. -/
def SameWindow (lo hi : Nat) (m m' : Memory w) : Prop :=
  forall b, lo ≤ b -> b < hi -> m (BitVec.ofNat w b) = m' (BitVec.ofNat w b)

theorem SameWindow.refl (lo hi : Nat) (m : Memory w) : SameWindow lo hi m m :=
  fun _ _ _ => rfl

theorem SameWindow.trans {lo hi : Nat} {m m' m'' : Memory w}
    (h : SameWindow lo hi m m') (h' : SameWindow lo hi m' m'') : SameWindow lo hi m m'' :=
  fun b hlo hhi => (h b hlo hhi).trans (h' b hlo hhi)

theorem SameWindow.mono {lo hi lo' hi' : Nat} {m m' : Memory w}
    (h : SameWindow lo hi m m') (hlo : lo ≤ lo') (hhi : hi' ≤ hi) : SameWindow lo' hi' m m' :=
  fun b hb hb' => h b (hlo.trans hb) (Nat.lt_of_lt_of_le hb' hhi)

theorem SameWindow.read32 {lo hi a : Nat} {m m' : Memory w} (h : SameWindow lo hi m m')
    (hlo : lo ≤ a) (hhi : a + 4 ≤ hi) :
    m.read32 (BitVec.ofNat w a) = m'.read32 (BitVec.ofNat w a) := by
  apply read32_congr
  intro i hi
  rw [← BitVec.ofNat_add]
  exact h (a + i) (by lia) (by lia)

theorem SameWindow.readWords {lo hi a n : Nat} {m m' : Memory w} (h : SameWindow lo hi m m')
    (hlo : lo ≤ a) (hhi : a + 4 * n ≤ hi) :
    m.readWords (BitVec.ofNat w a) n = m'.readWords (BitVec.ofNat w a) n := by
  induction n generalizing a with
  | zero => rfl
  | succ n ih =>
      rw [Memory.readWords, Memory.readWords, h.read32 hlo (by lia), ← BitVec.ofNat_add,
        ih (by lia) (by lia)]

end Memory

end Foundation
end HolyRust
