import HolyRust.Capabilities.WindowCheck
import HolyRust.Execution.Encodings

/-!
# Capability guards read back

A vector guard asks for the blocks from the address in a register on, a custom guard
compares an address with a capability word in another register, and each is one unit of
code.  Whoever meets the unit has nothing else to go by: the request can be recovered
only if no other one has the same unit.  On ARM both kinds share the traps of one space; on
RV32 the kinds are apart, but a word does not keep all of its request.
-/

namespace HolyRust
namespace Execution

open Foundation
open Capabilities
open Compilation

/-- A request for a guard of one unit. -/
inductive CapGuard (w : Nat) where
  | vector (addrReg : RegNo) (len : BitVec w)
  | custom (addrReg capReg : RegNo)
deriving DecidableEq, Repr

/-- The call that the request stands for. -/
def CapGuard.emit (g : GuardEmitter unit w) : CapGuard w -> Except Panic (EmitM unit Unit)
  | vector addrReg len => g.capGuardVector addrReg len
  | custom addrReg capReg => pure (g.capGuardCustom addrReg capReg)

/-- A vector guard over no block at all. -/
def CapGuard.Empty : CapGuard w -> Prop
  | vector _ len => len = 0#w
  | custom _ _ => False

/-- From some buffer the request is accepted and appends `code`. -/
def Accepts (g : GuardEmitter unit w) (r : CapGuard w) (code : List unit) : Prop :=
  exists emission, r.emit g = .ok emission ∧
    exists b : EmitBuffer unit, emission b = .ok () { b with code := b.code ++ code }

/-- The request is refused with nothing emitted, or it asks for something and no other
request that is accepted gives its code.  Where arithmetic underflows, a build with
overflow checks panics. -/
structure Recovers (g : OverflowChecks -> GuardEmitter unit w) (checks : OverflowChecks)
    (b : EmitBuffer unit) (r : CapGuard w) : Prop where
  checked : exists emission, r.emit (g .on) = .ok emission
  ends : exists emission, r.emit (g checks) = .ok emission ∧
    ((exists e, emission b = .error e b) ∨
      exists code, emission b = .ok () { b with code := b.code ++ code } ∧ ¬ r.Empty ∧
        forall r', Accepts (g checks) r' code -> r' = r)

/-- No unit fits any more. -/
def Full (b : EmitBuffer unit) : Prop := b.capWords ≤ b.code.length

/-!
## Guards of one unit
-/

section Units

variable {g : OverflowChecks -> GuardEmitter unit w} {checks : OverflowChecks}
  {b : EmitBuffer unit} {r : CapGuard w} {u : unit}

theorem pushUnit_of_full (h : Full b) (u : unit) : pushUnit u b = .error .overflow b := by
  unfold pushUnit
  rw [bind_apply, get_apply]
  exact congrFun (if_pos h) b

theorem pushUnit_of_room (h : ¬ Full b) (u : unit) :
    pushUnit u b = .ok () { b with code := b.code ++ [u] } := by
  refine appends_pushUnit u b ?_
  show b.code.length + 1 ≤ b.capWords
  exact Nat.lt_of_not_le h

theorem accepts_of_pushes (h : r.emit (g checks) = .ok (pushUnit u)) :
    Accepts (g checks) r [u] := by
  have hroom : ¬ Full ({ capWords := 1, code := [] } : EmitBuffer unit) := Nat.not_succ_le_zero 0
  exact ⟨_, h, _, pushUnit_of_room hroom u⟩

/-- A request that is accepted gives the one unit it pushes. -/
theorem eq_of_accepts (h : r.emit (g checks) = .ok (pushUnit u)) {code : List unit}
    (haccepts : Accepts (g checks) r code) : code = [u] := by
  obtain ⟨emission, hemit, b, hrun⟩ := haccepts
  rw [h, Except.ok.injEq] at hemit
  subst hemit
  by_cases hfull : Full b
  · rw [pushUnit_of_full hfull] at hrun
    cases hrun
  · rw [pushUnit_of_room hfull] at hrun
    injection hrun with _ hstate
    exact (List.append_cancel_left (congrArg EmitBuffer.code hstate)).symm

theorem not_accepts_of_throws {e : EmitError} (h : r.emit (g checks) = .ok (throw e))
    (code : List unit) : ¬ Accepts (g checks) r code := by
  rintro ⟨emission, hemit, b, hrun⟩
  rw [h, Except.ok.injEq] at hemit
  subst hemit
  cases hrun

theorem not_accepts_of_panics {p : Panic} (h : r.emit (g checks) = .error p)
    (code : List unit) : ¬ Accepts (g checks) r code := by
  rintro ⟨emission, hemit, _⟩
  rw [h] at hemit
  cases hemit

theorem recovers_of_throws {x : EmitM unit Unit} {e : EmitError}
    (hon : r.emit (g .on) = .ok x) (h : r.emit (g checks) = .ok (throw e)) :
    Recovers g checks b r where
  checked := ⟨x, hon⟩
  ends := ⟨_, h, Or.inl ⟨e, rfl⟩⟩

/-- A request that pushes `u` is recovered where it does not fit or `u` is its own. -/
theorem recovers_iff_of_pushes {x : EmitM unit Unit} (hon : r.emit (g .on) = .ok x)
    (h : r.emit (g checks) = .ok (pushUnit u)) :
    Recovers g checks b r ↔
      Full b ∨ ¬ r.Empty ∧ forall r', Accepts (g checks) r' [u] -> r' = r := by
  constructor
  · intro hrecovers
    by_cases hfull : Full b
    · exact Or.inl hfull
    obtain ⟨emission, hemit, hends⟩ := hrecovers.ends
    rw [h, Except.ok.injEq] at hemit
    subst hemit
    rw [pushUnit_of_room hfull] at hends
    rcases hends with ⟨e, hrun⟩ | ⟨code, hrun, hempty, hown⟩
    · cases hrun
    · injection hrun with _ hstate
      rw [← List.append_cancel_left (congrArg EmitBuffer.code hstate)] at hown
      exact Or.inr ⟨hempty, hown⟩
  · intro hcond
    refine ⟨⟨x, hon⟩, pushUnit u, h, ?_⟩
    by_cases hfull : Full b
    · exact Or.inl ⟨.overflow, pushUnit_of_full hfull u⟩
    · have hroom := hcond.resolve_left hfull
      exact Or.inr ⟨[u], pushUnit_of_room hfull u, hroom.left, hroom.right⟩

/-- A unit that two requests push recovers neither. -/
theorem recovers_iff_full_of_shared {x : EmitM unit Unit} {r' : CapGuard w}
    (hon : r.emit (g .on) = .ok x) (h : r.emit (g checks) = .ok (pushUnit u))
    (h' : r'.emit (g checks) = .ok (pushUnit u)) (hne : r' ≠ r) :
    Recovers g checks b r ↔ Full b := by
  rw [recovers_iff_of_pushes hon h]
  constructor
  · rintro (hfull | ⟨_, hown⟩)
    · exact hfull
    · exact absurd (hown r' (accepts_of_pushes h')) hne
  · exact Or.inl

end Units

theorem toNat_small {n : Nat} (hw : 32 ≤ w) (hn : n < 2 ^ 32) : (BitVec.ofNat w n).toNat = n := by
  rw [BitVec.toNat_ofNat]
  exact Nat.mod_eq_of_lt (hn.trans_le (Nat.pow_le_pow_right (by decide) hw))

/-!
## Traps on ARM
-/

section Thumb2

/-- The traps of the `UDF` space by their two fields. -/
def trap (x y : BitVec 4) : Half := 0xDE#8 ++ x ++ y

theorem trap_inj {x x' y y' : BitVec 4} (h : trap x y = trap x' y') : x = x' ∧ y = y' := by
  have hlow := congrArg (fun hw : Half => hw.extractLsb' 0 4) h
  have hhigh := congrArg (fun hw : Half => (hw.extractLsb' 4 12).extractLsb' 0 4) h
  simp only [trap, BitVec.extractLsb'_append_eq_left, BitVec.extractLsb'_append_eq_right]
    at hlow hhigh
  exact ⟨hhigh, hlow⟩

theorem trap_or (x y : BitVec 4) :
    0xDE00#16 ||| (x.setWidth 16 <<< 4) ||| y.setWidth 16 = trap x y := by
  unfold trap
  apply BitVec.eq_of_getLsbD_eq
  intro i hi
  simp only [BitVec.getLsbD_or, BitVec.getLsbD_append, BitVec.getLsbD_shiftLeft,
    BitVec.getLsbD_setWidth]
  interval_cases i <;> simp

/-- The mask of a field keeps its four bits. -/
theorem nibble_setWidth (hw : 4 ≤ w) (x : BitVec w) :
    (x &&& 0x0F#w).setWidth 16 = (x.setWidth 4).setWidth 16 := by
  have hmask : 15 % 2 ^ w = 2 ^ 4 - 1 :=
    Nat.mod_eq_of_lt (Nat.lt_of_lt_of_le (by decide) (Nat.pow_le_pow_right (by decide) hw))
  apply BitVec.eq_of_toNat_eq
  simp only [BitVec.toNat_setWidth, BitVec.toNat_and, BitVec.toNat_ofNat]
  rw [hmask, Nat.and_two_pow_sub_one_eq_mod]

theorem nibble_toNat {a : RegNo} (h : ¬ 7#8 < a) : (a.setWidth 4).toNat = a.toNat := by
  have hle : a.toNat ≤ 7 := BitVec.not_lt.mp h
  rw [BitVec.toNat_setWidth]
  lia

variable {checks : OverflowChecks} {a c : RegNo} {len : BitVec w}

theorem emit_vector_refused (h : 7#8 < a ∨ 16#w < len) :
    (CapGuard.vector a len).emit (thumb2Guards checks) = .ok (throw .badRegister) :=
  if_pos h

/-- The trap of a vector guard, if its length less one can be computed. -/
theorem emit_vector_of_index (hw : 32 ≤ w) (h : ¬ (7#8 < a ∨ 16#w < len)) {index : BitVec w}
    (hindex : Checked.subFixed checks len 1#w = .ok index) :
    (CapGuard.vector a len).emit (thumb2Guards checks) =
      .ok (pushUnit (trap (a.setWidth 4) (index.setWidth 4))) := by
  show Thumb2Emitter.emitCapGuardVector checks a len = _
  unfold Thumb2Emitter.emitCapGuardVector
  rw [if_neg h, hindex, ← trap_or, ← nibble_setWidth (by decide), ← nibble_setWidth (by lia)]
  rfl

theorem emit_vector_accepted (hw : 32 ≤ w) (h : ¬ (7#8 < a ∨ 16#w < len))
    (hlen : 1 ≤ len.toNat) :
    (CapGuard.vector a len).emit (thumb2Guards checks) =
      .ok (pushUnit (trap (a.setWidth 4) ((len - 1#w).setWidth 4))) := by
  refine emit_vector_of_index hw h (Checked.subFixed_of_le ?_ checks)
  rw [toNat_small hw (by decide)]
  exact hlen

theorem not_one_le_zero (hw : 32 ≤ w) : ¬ (1#w).toNat ≤ (0#w).toNat := by
  rw [toNat_small hw (by decide), toNat_small hw (by decide)]
  decide

/-- The length less one underflows. -/
theorem emit_vector_zero_on (hw : 32 ≤ w) (h : ¬ (7#8 < a ∨ 16#w < 0#w)) :
    (CapGuard.vector a 0#w).emit (thumb2Guards .on) = .error .overflow := by
  have hindex : Checked.subFixed .on 0#w 1#w = .error .overflow :=
    if_neg (not_one_le_zero hw)
  show Thumb2Emitter.emitCapGuardVector .on a 0#w = _
  unfold Thumb2Emitter.emitCapGuardVector
  rw [if_neg h, hindex]
  rfl

/-- Without overflow checks it wraps to the index of sixteen blocks. -/
theorem emit_vector_zero_off (hw : 32 ≤ w) (h : ¬ (7#8 < a ∨ 16#w < 0#w)) :
    (CapGuard.vector a 0#w).emit (thumb2Guards .off) =
      .ok (pushUnit (trap (a.setWidth 4) 15#4)) := by
  have hindex : Checked.subFixed .off 0#w 1#w = .ok (0#w - 1#w) :=
    if_neg (not_one_le_zero hw)
  have hnibble : (0#w - 1#w).setWidth 4 = 15#4 := by
    show _ = BitVec.allOnes 4
    rw [BitVec.zero_sub, BitVec.neg_one_eq_allOnes]
    ext i hi
    rw [BitVec.getElem_setWidth, BitVec.getLsbD_allOnes, BitVec.getElem_allOnes,
      decide_eq_true (show i < w by lia)]
  rw [emit_vector_of_index hw h hindex, hnibble]

theorem emit_custom_refused (h : 7#8 < a ∨ 7#8 < c) :
    (CapGuard.custom a c : CapGuard w).emit (thumb2Guards checks) = .ok (throw .badRegister) :=
  congrArg Except.ok (if_pos h)

theorem emit_custom_accepted (h : ¬ (7#8 < a ∨ 7#8 < c)) :
    (CapGuard.custom a c : CapGuard w).emit (thumb2Guards checks) =
      .ok (pushUnit (trap (c.setWidth 4) (a.setWidth 4))) := by
  show Except.ok (Thumb2Emitter.emitCapGuardCustom a c) = _
  unfold Thumb2Emitter.emitCapGuardCustom
  rw [if_neg h, ← trap_or, ← nibble_setWidth (by decide), ← nibble_setWidth (by decide)]

/-- The index of a length from 1 to 16. -/
theorem index_toNat (hw : 32 ≤ w) (hlo : 1 ≤ len.toNat) (hhi : ¬ 16#w < len) :
    ((len - 1#w).setWidth 4).toNat = len.toNat - 1 := by
  have hle : len.toNat ≤ 16 := (toNat_small (n := 16) hw (by decide)) ▸ BitVec.not_lt.mp hhi
  have hone : (1#w).toNat = 1 := toNat_small hw (by decide)
  have hsub : (len - 1#w).toNat = len.toNat - 1 := by
    rw [BitVec.toNat_sub_of_le (BitVec.le_def.mpr (hone.trans_le hlo)), hone]
  rw [BitVec.toNat_setWidth, hsub]
  lia

/-- The requests that are accepted and give the trap with the fields `x` and `y`. -/
theorem accepts_trap_cases (hw : 32 ≤ w) {r : CapGuard w} {x y : BitVec 4}
    (h : Accepts (thumb2Guards checks) r [trap x y]) :
    (exists a len, r = .vector a len ∧ a.toNat = x.toNat ∧ 1 ≤ len.toNat ∧
      len.toNat - 1 = y.toNat) ∨
    (exists a, r = .vector a 0#w ∧ checks = .off ∧ y.toNat = 15) ∨
    exists a c, r = .custom a c ∧ a.toNat = y.toNat ∧ a.toNat ≤ 7 := by
  cases r with
  | vector a len =>
      by_cases hrefused : 7#8 < a ∨ 16#w < len
      · exact absurd h (not_accepts_of_throws (emit_vector_refused hrefused) _)
      obtain ⟨hreg, hlong⟩ := not_or.mp hrefused
      by_cases hlen : 1 ≤ len.toNat
      · have hcode := eq_of_accepts (emit_vector_accepted hw hrefused hlen) h
        obtain ⟨rfl, rfl⟩ := trap_inj (List.cons.inj hcode).left
        exact Or.inl ⟨a, len, rfl, (nibble_toNat hreg).symm, hlen,
          (index_toNat hw hlen hlong).symm⟩
      · -- only a build without overflow checks gets past the index of an empty guard
        obtain rfl : len = 0#w := BitVec.eq_of_toNat_eq (by rw [BitVec.toNat_zero]; lia)
        cases checks with
        | on => exact absurd h (not_accepts_of_panics (emit_vector_zero_on hw hrefused) _)
        | off =>
            have hcode := eq_of_accepts (emit_vector_zero_off hw hrefused) h
            obtain ⟨_, rfl⟩ := trap_inj (List.cons.inj hcode).left
            exact Or.inr (Or.inl ⟨a, rfl, rfl, rfl⟩)
  | custom a c =>
      by_cases hrefused : 7#8 < a ∨ 7#8 < c
      · exact absurd h (not_accepts_of_throws (emit_custom_refused hrefused) _)
      obtain ⟨hreg, _⟩ := not_or.mp hrefused
      have hcode := eq_of_accepts (emit_custom_accepted hrefused) h
      obtain ⟨_, rfl⟩ := trap_inj (List.cons.inj hcode).left
      exact Or.inr (Or.inr ⟨a, c, rfl, (nibble_toNat hreg).symm, BitVec.not_lt.mp hreg⟩)

/-- A length above 8 has an index that no register of a custom guard has. -/
theorem own_trap (hw : 32 ≤ w) (hreg : ¬ 7#8 < a) (hlong : ¬ 16#w < len) (hlen : 8 < len.toNat)
    (hwrap : len.toNat = 16 -> checks = .on) (r : CapGuard w)
    (h : Accepts (thumb2Guards checks) r [trap (a.setWidth 4) ((len - 1#w).setWidth 4)]) :
    r = .vector a len := by
  have hreg' := nibble_toNat hreg
  have hindex := index_toNat hw (by lia) hlong
  rcases accepts_trap_cases hw h with ⟨a', len', rfl, ha, hpos, hl⟩ | ⟨a', rfl, hoff, hy⟩ |
      ⟨a', c', rfl, ha, hsmall⟩
  · rw [hreg'] at ha
    rw [hindex] at hl
    have hlen' : len'.toNat = len.toNat := by lia
    rw [BitVec.eq_of_toNat_eq ha, BitVec.eq_of_toNat_eq hlen']
  · rw [hindex] at hy
    rw [hwrap (by lia)] at hoff
    cases hoff
  · rw [hindex] at ha
    lia

/-- Up to length 8 the index is also the register of a custom guard. -/
theorem emit_custom_of_index (checks : OverflowChecks) (hw : 32 ≤ w) (hreg : ¬ 7#8 < a)
    (hlong : ¬ 16#w < len) (hlo : 1 ≤ len.toNat) (hhi : len.toNat ≤ 8) :
    (CapGuard.custom (BitVec.ofNat 8 (len.toNat - 1)) a : CapGuard w).emit (thumb2Guards checks) =
      .ok (pushUnit (trap (a.setWidth 4) ((len - 1#w).setWidth 4))) := by
  have hnat : (BitVec.ofNat 8 (len.toNat - 1)).toNat = len.toNat - 1 := by
    rw [BitVec.toNat_ofNat]
    lia
  have hlow : ¬ 7#8 < BitVec.ofNat 8 (len.toNat - 1) := by
    rw [BitVec.not_lt, BitVec.le_def, hnat]
    show len.toNat - 1 ≤ 7
    lia
  have hnibble : (BitVec.ofNat 8 (len.toNat - 1)).setWidth 4 = (len - 1#w).setWidth 4 := by
    apply BitVec.eq_of_toNat_eq
    rw [nibble_toNat hlow, hnat, index_toNat hw hlo hlong]
  rw [emit_custom_accepted (not_or.mpr ⟨hlow, hreg⟩), hnibble]

/-- Without overflow checks an empty vector guard has the trap of sixteen blocks. -/
theorem emit_zero_of_sixteen (hw : 32 ≤ w) (hreg : ¬ 7#8 < a) (hlong : ¬ 16#w < len)
    (hlen : len.toNat = 16) :
    (CapGuard.vector a 0#w).emit (thumb2Guards .off) =
      .ok (pushUnit (trap (a.setWidth 4) ((len - 1#w).setWidth 4))) := by
  have hzero : ¬ 16#w < 0#w := BitVec.not_lt_zero
  have hindex : (len - 1#w).setWidth 4 = 15#4 := by
    apply BitVec.eq_of_toNat_eq
    rw [index_toNat hw (by lia) hlong, hlen]
    rfl
  rw [emit_vector_zero_off hw (not_or.mpr ⟨hreg, hzero⟩), hindex]

theorem own_trap_iff (hw : 32 ≤ w) (hreg : ¬ 7#8 < a) (hlong : ¬ 16#w < len)
    (hlen : 1 ≤ len.toNat) :
    (forall r : CapGuard w,
      Accepts (thumb2Guards checks) r [trap (a.setWidth 4) ((len - 1#w).setWidth 4)] ->
        r = .vector a len) ↔
      8 < len.toNat ∧ (len.toNat = 16 -> checks = .on) := by
  constructor
  · intro hown
    constructor
    · by_contra hshort
      have hcustom := emit_custom_of_index checks hw hreg hlong hlen (Nat.le_of_not_lt hshort)
      cases hown _ (accepts_of_pushes hcustom)
    · intro hsixteen
      cases checks with
      | on => rfl
      | off =>
          have hzero := emit_zero_of_sixteen hw hreg hlong hsixteen
          injection hown _ (accepts_of_pushes hzero) with _ hlen0
          rw [← hlen0, BitVec.toNat_zero] at hsixteen
          cases hsixteen
  · intro h
    exact own_trap hw hreg hlong h.left h.right

/-- The requests that are refused, or whose trap is their own. -/
def Thumb2Recoverable (checks : OverflowChecks) (b : EmitBuffer Half) : CapGuard w -> Prop
  | .vector addrReg len =>
      7#8 < addrReg ∨ 16 < len.toNat ∨ (0 < len.toNat ∧ Full b) ∨
        (8 < len.toNat ∧ (len.toNat = 16 -> checks = .on))
  | .custom addrReg capReg => 7#8 < addrReg ∨ 7#8 < capReg ∨ Full b

theorem thumb2_recovers_vector (hw : 32 ≤ w) (b : EmitBuffer Half) :
    Recovers thumb2Guards checks b (.vector a len) ↔
      Thumb2Recoverable checks b (.vector a len) := by
  have hlt : 16#w < len ↔ 16 < len.toNat := by
    rw [BitVec.lt_def, toNat_small hw (by decide)]
  simp only [Thumb2Recoverable]
  rw [← or_assoc, ← hlt]
  by_cases hrefused : 7#8 < a ∨ 16#w < len
  · refine iff_of_true ?_ (Or.inl hrefused)
    exact recovers_of_throws (emit_vector_refused hrefused) (emit_vector_refused hrefused)
  obtain ⟨hreg, hlong⟩ := not_or.mp hrefused
  rw [or_iff_right hrefused]
  by_cases hlen : 1 ≤ len.toNat
  · have hempty : ¬ (CapGuard.vector a len).Empty := by
      rintro rfl
      rw [BitVec.toNat_zero] at hlen
      cases hlen
    rw [recovers_iff_of_pushes (emit_vector_accepted hw hrefused hlen)
      (emit_vector_accepted hw hrefused hlen), own_trap_iff hw hreg hlong hlen,
      and_iff_right hempty, and_iff_right (show 0 < len.toNat from hlen)]
  · obtain rfl : len = 0#w := BitVec.eq_of_toNat_eq (by rw [BitVec.toNat_zero]; lia)
    refine iff_of_false ?_ ?_
    · intro h
      obtain ⟨emission, hemit⟩ := h.checked
      rw [emit_vector_zero_on hw hrefused] at hemit
      cases hemit
    · rw [BitVec.toNat_zero]
      lia

/-- The trap of a custom guard is that of a vector guard for the capability register. -/
theorem thumb2_recovers_custom (hw : 32 ≤ w) (b : EmitBuffer Half) :
    Recovers thumb2Guards checks b (.custom a c : CapGuard w) ↔
      Thumb2Recoverable checks b (.custom a c : CapGuard w) := by
  simp only [Thumb2Recoverable]
  rw [← or_assoc]
  by_cases hrefused : 7#8 < a ∨ 7#8 < c
  · refine iff_of_true ?_ (Or.inl hrefused)
    exact recovers_of_throws (emit_custom_refused hrefused) (emit_custom_refused hrefused)
  obtain ⟨hreg, hcap⟩ := not_or.mp hrefused
  rw [or_iff_right hrefused]
  -- the other request is for `a + 1` blocks
  have hle : a.toNat ≤ 7 := BitVec.not_lt.mp hreg
  have hlen : (BitVec.ofNat w (a.toNat + 1)).toNat = a.toNat + 1 := toNat_small hw (by lia)
  have hlong : ¬ 16#w < BitVec.ofNat w (a.toNat + 1) := by
    rw [BitVec.lt_def, hlen, toNat_small hw (by decide)]
    lia
  have hindex : (BitVec.ofNat w (a.toNat + 1) - 1#w).setWidth 4 = a.setWidth 4 := by
    apply BitVec.eq_of_toNat_eq
    rw [index_toNat hw (by lia) hlong, hlen, nibble_toNat hreg]
    rfl
  have hvector : (CapGuard.vector c (BitVec.ofNat w (a.toNat + 1))).emit (thumb2Guards checks) =
      .ok (pushUnit (trap (c.setWidth 4) (a.setWidth 4))) := by
    rw [emit_vector_accepted hw (not_or.mpr ⟨hcap, hlong⟩) (by lia), hindex]
  exact recovers_iff_full_of_shared (emit_custom_accepted hrefused)
    (emit_custom_accepted hrefused) hvector (fun h => by cases h)

end Thumb2

/-!
## Words on RV32
-/

section Riscv32

/-- What the word of a guard keeps of the request. -/
def CapGuard.kept : CapGuard w -> BitVec 8 ⊕ BitVec 5 × BitVec 5
  | vector _ len => .inl (len.setWidth 8)
  | custom addrReg capReg => .inr (addrReg.setWidth 5, capReg.setWidth 5)

/-- The word by what it keeps. -/
def guardWord : BitVec 8 ⊕ BitVec 5 × BitVec 5 -> Word
  | .inl len => 0xF3AF80#24 ++ len
  | .inr (addrReg, capReg) => rvWord 0b0000001#7 capReg addrReg 0b000#3 0#5 0b0001011#7

/-- The word gives back the kind and all that was kept. -/
theorem guardWord_inj {x y : BitVec 8 ⊕ BitVec 5 × BitVec 5} (h : guardWord x = guardWord y) :
    x = y := by
  have hkind : forall len addrReg capReg,
      guardWord (.inl len) ≠ guardWord (.inr (addrReg, capReg)) := by
    intro len addrReg capReg heq
    -- where `hros.capchk` has its `funct7`
    have htop := congrArg (fun word : Word => word.extractLsb' 25 7) heq
    simp only [guardWord, rvWord_f7] at htop
    rw [BitVec.extractLsb'_append_eq_of_le (by decide)] at htop
    exact absurd htop (by decide)
  rcases x with len | ⟨addrReg, capReg⟩ <;> rcases y with len' | ⟨addrReg', capReg'⟩
  · exact congrArg Sum.inl ((BitVec.append_right_inj _).mp h)
  · exact absurd h (hkind len addrReg' capReg')
  · exact absurd h.symm (hkind len' addrReg capReg)
  · have haddr := congrArg (fun word : Word => word.extractLsb' 15 5) h
    have hcap := congrArg (fun word : Word => word.extractLsb' 20 5) h
    simp only [guardWord, rvWord_s1, rvWord_s2] at haddr hcap
    rw [haddr, hcap]

theorem guardWord_vector (x : Word) :
    0xF3AF8000#32 ||| (x &&& 0xFF#32) = guardWord (.inl (x.setWidth 8)) := by
  unfold guardWord
  apply BitVec.eq_of_getLsbD_eq
  intro i hi
  simp only [BitVec.getLsbD_or, BitVec.getLsbD_and, BitVec.getLsbD_append,
    BitVec.getLsbD_setWidth]
  interval_cases i <;> simp

theorem guardWord_custom (a c : RegNo) :
    (0b0000001#32 <<< 25) ||| rvReg c 20 ||| rvReg a 15 ||| (0b000#32 <<< 12) ||| 0b0001011#32 =
      guardWord (.inr (a.setWidth 5, c.setWidth 5)) := by
  unfold guardWord rvWord rvReg
  apply BitVec.eq_of_getLsbD_eq
  intro i hi
  simp only [BitVec.getLsbD_or, BitVec.getLsbD_and, BitVec.getLsbD_append,
    BitVec.getLsbD_shiftLeft, BitVec.getLsbD_setWidth]
  interval_cases i <;> simp

variable {checks : OverflowChecks} {a c : RegNo} {len : BitVec w}

theorem riscv32_vector_refused (h : 256#w < len) :
    (CapGuard.vector a len).emit (riscv32Guards checks) = .ok (throw .overflow) :=
  congrArg Except.ok (if_pos h)

theorem riscv32_vector_accepted (h : ¬ 256#w < len) :
    (CapGuard.vector a len).emit (riscv32Guards checks) =
      .ok (pushUnit (guardWord (CapGuard.vector a len).kept)) := by
  have hkept : (len.setWidth 32).setWidth 8 = len.setWidth 8 :=
    BitVec.setWidth_setWidth_of_le len (by decide)
  show Except.ok (Riscv32Emitter.emitCapGuardVector a len) = _
  unfold Riscv32Emitter.emitCapGuardVector
  rw [if_neg h, guardWord_vector, hkept]
  rfl

theorem riscv32_custom_accepted :
    (CapGuard.custom a c : CapGuard w).emit (riscv32Guards checks) =
      .ok (pushUnit (guardWord (CapGuard.custom a c : CapGuard w).kept)) := by
  show Except.ok (Riscv32Emitter.emitCapGuardCustom a c) = _
  exact congrArg (fun word => Except.ok (pushUnit word)) (guardWord_custom a c)

theorem riscv32_code_of_accepts {r : CapGuard w} {code : List Word}
    (h : Accepts (riscv32Guards checks) r code) : code = [guardWord r.kept] := by
  cases r with
  | vector a len =>
      by_cases hlong : 256#w < len
      · exact absurd h (not_accepts_of_throws (riscv32_vector_refused hlong) code)
      · exact eq_of_accepts (riscv32_vector_accepted hlong) h
  | custom a c => exact eq_of_accepts riscv32_custom_accepted h

/-- Requests that are accepted have the same code exactly if the same is kept of them. -/
theorem riscv32_same_code_iff {r r' : CapGuard w} {code code' : List Word}
    (h : Accepts (riscv32Guards checks) r code) (h' : Accepts (riscv32Guards checks) r' code') :
    code = code' ↔ r.kept = r'.kept := by
  rw [riscv32_code_of_accepts h, riscv32_code_of_accepts h']
  constructor
  · intro hcode
    exact guardWord_inj (List.cons.inj hcode).left
  · intro hkept
    rw [hkept]

/-- The requests that are refused; a word is never that of one request alone. -/
def Riscv32Recoverable (b : EmitBuffer Word) : CapGuard w -> Prop
  | .vector _ len => 256 < len.toNat ∨ Full b
  | .custom _ _ => Full b

/-- Another address register gives the same word. -/
theorem riscv32_recovers_vector (hw : 32 ≤ w) (b : EmitBuffer Word) :
    Recovers riscv32Guards checks b (.vector a len) ↔ Riscv32Recoverable b (.vector a len) := by
  have hlt : 256#w < len ↔ 256 < len.toNat := by
    rw [BitVec.lt_def, toNat_small hw (by decide)]
  simp only [Riscv32Recoverable]
  rw [← hlt]
  by_cases hlong : 256#w < len
  · refine iff_of_true ?_ (Or.inl hlong)
    exact recovers_of_throws (riscv32_vector_refused hlong) (riscv32_vector_refused hlong)
  have hother : CapGuard.vector (a + 1#8) len ≠ .vector a len := by
    intro h
    injection h with hreg _
    exact absurd (BitVec.add_right_eq_self.mp hreg) (by decide)
  rw [or_iff_right hlong]
  have hsame : (CapGuard.vector (a + 1#8) len).emit (riscv32Guards checks) =
      .ok (pushUnit (guardWord (CapGuard.vector a len).kept)) :=
    riscv32_vector_accepted hlong
  exact recovers_iff_full_of_shared (riscv32_vector_accepted hlong)
    (riscv32_vector_accepted hlong) hsame hother

/-- A register number 32 higher gives the same word. -/
theorem riscv32_recovers_custom (b : EmitBuffer Word) :
    Recovers riscv32Guards checks b (.custom a c : CapGuard w) ↔
      Riscv32Recoverable b (.custom a c : CapGuard w) := by
  have hother : (CapGuard.custom (a + 32#8) c : CapGuard w) ≠ .custom a c := by
    intro h
    injection h with hreg _
    exact absurd (BitVec.add_right_eq_self.mp hreg) (by decide)
  have hkept : (CapGuard.custom (a + 32#8) c : CapGuard w).kept =
      (CapGuard.custom a c : CapGuard w).kept := by
    have hfield : (a + 32#8).setWidth 5 = a.setWidth 5 := by
      apply BitVec.eq_of_toNat_eq
      simp only [BitVec.toNat_setWidth, BitVec.toNat_add, BitVec.toNat_ofNat]
      lia
    simp only [CapGuard.kept, hfield]
  have hsame : (CapGuard.custom (a + 32#8) c : CapGuard w).emit (riscv32Guards checks) =
      .ok (pushUnit (guardWord (CapGuard.custom a c : CapGuard w).kept)) := by
    rw [riscv32_custom_accepted, hkept]
  exact recovers_iff_full_of_shared riscv32_custom_accepted riscv32_custom_accepted hsame hother

end Riscv32

/-!
## Both backends
-/

theorem le_bits (p : PointerWidth) : 32 ≤ p.bits := by
  cases p <;> decide

/-- Which guards can be read back, for every request and from every buffer. -/
theorem recovers_iff (checks : OverflowChecks) (p : PointerWidth) :
    (forall (b : EmitBuffer Half) (r : CapGuard p.bits),
      Recovers thumb2Guards checks b r ↔ Thumb2Recoverable checks b r) ∧
    forall (b : EmitBuffer Word) (r : CapGuard p.bits),
      Recovers riscv32Guards checks b r ↔ Riscv32Recoverable b r := by
  have hw := le_bits p
  constructor
  · intro b r
    cases r with
    | vector a len => exact thumb2_recovers_vector hw b
    | custom a c => exact thumb2_recovers_custom hw b
  · intro b r
    cases r with
    | vector a len => exact riscv32_recovers_vector hw b
    | custom a c => exact riscv32_recovers_custom b

/-- An empty vector guard on ARM, the two kinds in one trap space, and a word of RV32
without its address register, each from the empty buffer. -/
theorem not_recovers_zero_len :
    ¬ Recovers thumb2Guards .on { capWords := 2048, code := [] } (.vector 0#8 0#32) ∧
      ¬ Recovers thumb2Guards .on { capWords := 2048, code := [] }
        (.custom 2#8 1#8 : CapGuard 32) ∧
      ¬ Recovers riscv32Guards .on { capWords := 192, code := [] } (.vector 10#8 4#32) := by
  rw [thumb2_recovers_vector (by decide), thumb2_recovers_custom (by decide),
    riscv32_recovers_vector (by decide)]
  simp only [Thumb2Recoverable, Riscv32Recoverable, Full]
  decide

end Execution
end HolyRust
