import HolyRust.Scheduler.ResponseTime
import Mathlib.Algebra.BigOperators.Intervals
import Mathlib.Algebra.Order.BigOperators.Group.Finset
import Mathlib.Algebra.Order.BigOperators.Group.List
import Mathlib.Data.List.GetD

/-!
# The cost ledger

`total_wcet` adds up what one activation of a task may cost: the bytes it compiles, the
accesses it guards, the blocks it runs and one context switch.  Each entry is a bound on
the cycles of one such event.
-/

namespace HolyRust
namespace Scheduler

open Capabilities Finset

/-!
## The ledger
-/

section Ledger

variable {α : Type} (A : Arithmetic α) (lit : Nat -> α)

def tJit (sBytes : α) : Except Panic α := A.mul sBytes (lit 25)

def tCap (nAccesses : α) (vector : Bool) : Except Panic α :=
  A.mul nAccesses (if vector then lit 1 else lit 3)

def tCtx : α := lit 43

/-- `map` and `sum`, one pair after the other. -/
def sumCosts : List (α × α) -> α -> Except Panic α
  | [], sum => .ok sum
  | (c, b) :: rest, sum => do
      let cost <- A.mul c b
      let sum <- A.add sum cost
      sumCosts rest sum

def tExec (bbCosts bounds : List α) : Except Panic α :=
  sumCosts A (bbCosts.zip bounds) (lit 0)

def totalWcet (sBytes nCap : α) (vector : Bool) (bbCosts bounds : List α) :
    Except Panic α := do
  let jit <- tJit A lit sBytes
  let cap <- tCap A lit nCap vector
  let sum <- A.add jit cap
  let exec <- tExec A lit bbCosts bounds
  let sum <- A.add sum exec
  A.add sum (tCtx lit)

end Ledger

/-!
## What an activation costs
-/

/-- One activation of a task: the cycles of each byte that it compiles and of each guard,
the basic blocks on its path with their cycles, and the cycles of its context switch. -/
structure Activation where
  compiled : List Nat
  guarded : List Nat
  path : List (Nat × Nat)
  switched : Nat

def Activation.cycles (a : Activation) : Nat :=
  a.compiled.sum + a.guarded.sum + (a.path.map Prod.snd).sum + a.switched

/-- Bounds on an activation, as the arguments of `total_wcet` give them. -/
structure Budget where
  sBytes : Nat
  nCap : Nat
  vector : Bool
  bbCosts : List Nat
  bounds : List Nat

namespace Budget

def guardCycles (b : Budget) : Nat := if b.vector then 1 else 3

/-- Nothing in the activation costs more, or happens more often, than the budget says.  A
block without a bound is not on the path, and one without a cost takes no cycles: `zip`
leaves both out. -/
structure Keeps (b : Budget) (a : Activation) : Prop where
  compiled_length : a.compiled.length ≤ b.sBytes
  compiled_le : forall c, c ∈ a.compiled -> c ≤ 25
  guarded_length : a.guarded.length ≤ b.nCap
  guarded_le : forall c, c ∈ a.guarded -> c ≤ b.guardCycles
  path_le : forall p, p ∈ a.path -> p.2 ≤ b.bbCosts.getD p.1 0
  path_count : forall i, (a.path.map Prod.fst).count i ≤ b.bounds.getD i 0
  switched_le : a.switched ≤ 43

/-- The blocks, each as often and as slow as it may be. -/
def execCycles (b : Budget) : Nat := ((b.bbCosts.zip b.bounds).map fun p => p.1 * p.2).sum

def total (b : Budget) : Nat :=
  b.sBytes * 25 + b.nCap * b.guardCycles + b.execCycles + 43

/-- The cycles that activations within the budget take. -/
def Costs (b : Budget) : Set Nat := {n | exists a, b.Keeps a ∧ a.cycles = n}

end Budget

/-!
## No activation costs more
-/

theorem sum_zip_mul (costs bounds : List Nat) :
    ((costs.zip bounds).map fun p => p.1 * p.2).sum =
      ∑ i ∈ range costs.length, bounds.getD i 0 * costs.getD i 0 := by
  induction costs generalizing bounds with
  | nil => rfl
  | cons c costs ih =>
      cases bounds with
      | nil => simp
      | cons b bounds =>
          rw [List.zip_cons_cons, List.map_cons, List.sum_cons, ih, List.length_cons,
            sum_range_succ', Nat.add_comm]
          simp only [List.getD_cons_succ, List.getD_cons_zero, Nat.mul_comm c b]

/-- Every block pays for its own turns. -/
theorem sum_path_le {costs bounds : List Nat} {path : List (Nat × Nat)}
    (hcost : forall p, p ∈ path -> p.2 ≤ costs.getD p.1 0)
    (hcount : forall i, (path.map Prod.fst).count i ≤ bounds.getD i 0) :
    (path.map Prod.snd).sum ≤ ((costs.zip bounds).map fun p => p.1 * p.2).sum := by
  rw [sum_zip_mul]
  calc (path.map Prod.snd).sum
      ≤ ((path.map Prod.fst).map fun i => costs.getD i 0).sum := by
        rw [List.map_map]
        exact List.sum_le_sum hcost
    _ = ∑ i ∈ (path.map Prod.fst).toFinset,
          (path.map Prod.fst).count i * costs.getD i 0 := by
        rw [sum_list_map_count]
        rfl
    _ ≤ ∑ i ∈ (path.map Prod.fst).toFinset, bounds.getD i 0 * costs.getD i 0 :=
        sum_le_sum fun i _ => Nat.mul_le_mul_right _ (hcount i)
    _ ≤ ∑ i ∈ range costs.length, bounds.getD i 0 * costs.getD i 0 := by
        apply sum_le_sum_of_ne_zero
        intro i _ hne
        rw [mem_range]
        by_contra hbeyond
        rw [List.getD_eq_default _ _ (Nat.le_of_not_lt hbeyond), Nat.mul_zero] at hne
        exact hne rfl

theorem sum_le_length_mul {costs : List Nat} {n bound : Nat} (hlength : costs.length ≤ n)
    (hle : forall c, c ∈ costs -> c ≤ bound) : costs.sum ≤ n * bound :=
  le_trans (List.sum_le_card_nsmul costs bound hle) (Nat.mul_le_mul_right bound hlength)

theorem Budget.Keeps.cycles_le {b : Budget} {a : Activation} (h : b.Keeps a) :
    a.cycles ≤ b.total := by
  have hcompiled := sum_le_length_mul h.compiled_length h.compiled_le
  have hguarded := sum_le_length_mul h.guarded_length h.guarded_le
  have hpath : _ ≤ b.execCycles := sum_path_le h.path_le h.path_count
  have hswitched := h.switched_le
  unfold Activation.cycles Budget.total
  lia

/-!
## One activation costs that much
-/

/-- Every block as often as it may be run. -/
def fullPath (costs bounds : List Nat) : List (Nat × Nat) :=
  (List.range costs.length).flatMap fun i =>
    List.replicate (bounds.getD i 0) (i, costs.getD i 0)

theorem sum_fullPath (costs bounds : List Nat) :
    ((fullPath costs bounds).map Prod.snd).sum =
      ((costs.zip bounds).map fun p => p.1 * p.2).sum := by
  rw [sum_zip_mul, fullPath, List.map_flatMap]
  simp only [List.map_replicate, List.flatMap_def, List.sum_flatten, List.map_map,
    Function.comp_def, List.sum_replicate, smul_eq_mul]
  rfl

theorem count_fullPath_le (costs bounds : List Nat) (i : Nat) :
    ((fullPath costs bounds).map Prod.fst).count i ≤ bounds.getD i 0 := by
  have hcount : ((fullPath costs bounds).map Prod.fst).count i =
      ∑ j ∈ range costs.length, if j = i then bounds.getD j 0 else 0 := by
    rw [fullPath, List.map_flatMap, List.count_flatMap]
    simp only [List.map_replicate, Function.comp_def, List.count_replicate, beq_iff_eq]
    rfl
  rw [hcount, sum_ite_eq']
  split
  · exact Nat.le_refl _
  · exact Nat.zero_le _

def Budget.slowest (b : Budget) : Activation where
  compiled := List.replicate b.sBytes 25
  guarded := List.replicate b.nCap b.guardCycles
  path := fullPath b.bbCosts b.bounds
  switched := 43

theorem Budget.keeps_slowest (b : Budget) : b.Keeps b.slowest where
  compiled_length := Nat.le_of_eq List.length_replicate
  compiled_le c hc := Nat.le_of_eq (List.eq_of_mem_replicate hc)
  guarded_length := Nat.le_of_eq List.length_replicate
  guarded_le c hc := Nat.le_of_eq (List.eq_of_mem_replicate hc)
  path_le p hp := by
    obtain ⟨i, _, hmem⟩ := List.mem_flatMap.mp hp
    rw [List.eq_of_mem_replicate hmem]
  path_count := count_fullPath_le b.bbCosts b.bounds
  switched_le := Nat.le_refl 43

theorem Budget.cycles_slowest (b : Budget) : b.slowest.cycles = b.total := by
  unfold Activation.cycles Budget.slowest Budget.total Budget.execCycles
  rw [sum_fullPath, List.sum_replicate, List.sum_replicate, smul_eq_mul, smul_eq_mul]

theorem Budget.isGreatest_total (b : Budget) : IsGreatest b.Costs b.total := by
  constructor
  · exact ⟨b.slowest, b.keeps_slowest, b.cycles_slowest⟩
  · rintro n ⟨a, hkeeps, rfl⟩
    exact hkeeps.cycles_le

/-!
## What the two builds compute
-/

section Builds

variable {w : PointerWidth}

/-- The arguments of a call. -/
def budgetOf (sBytes nCap : BitVec w.bits) (vector : Bool) (bbCosts bounds : List (BitVec w.bits)) :
    Budget where
  sBytes := sBytes.toNat
  nCap := nCap.toNat
  vector := vector
  bbCosts := bbCosts.map BitVec.toNat
  bounds := bounds.map BitVec.toNat

/-- The fold stops at the first sum that does not fit; if the last one fits, all do. -/
theorem sumCosts_checked_eq_ok {pairs : List (BitVec w.bits × BitVec w.bits)}
    {sum v : BitVec w.bits} :
    sumCosts (Arithmetic.checked w) pairs sum = .ok v ↔
      v.toNat = sum.toNat + ((naturals pairs).map fun p => p.1 * p.2).sum := by
  induction pairs generalizing sum with
  | nil => simp [sumCosts, naturals, ← BitVec.toNat_inj, eq_comm]
  | cons p pairs ih =>
      rw [show naturals (p :: pairs) = (p.1.toNat, p.2.toNat) :: naturals pairs from rfl,
        List.map_cons, List.sum_cons]
      constructor
      · intro h
        obtain ⟨cost, hmul, h⟩ := bind_eq_ok.mp h
        obtain ⟨next, hadd, h⟩ := bind_eq_ok.mp h
        rw [ih.mp h, (checked_add_eq_ok.mp hadd).right, (checked_mul_eq_ok.mp hmul).right]
        exact Nat.add_assoc _ _ _
      · intro h
        have hv := v.isLt
        obtain ⟨cost, hcost⟩ := exists_toNat_eq
          (show p.1.toNat * p.2.toNat < 2 ^ w.bits by lia)
        obtain ⟨next, hnext⟩ := exists_toNat_eq
          (show sum.toNat + cost.toNat < 2 ^ w.bits by lia)
        unfold sumCosts
        refine bind_eq_ok.mpr ⟨cost, checked_mul_eq_ok.mpr ⟨by lia, hcost⟩, ?_⟩
        refine bind_eq_ok.mpr ⟨next, checked_add_eq_ok.mpr ⟨by lia, hnext⟩, ?_⟩
        exact ih.mpr (by lia)

/-- Without overflow checks the sum is the exact one modulo `2 ^ bits`. -/
theorem sumCosts_wrapping (pairs : List (BitVec w.bits × BitVec w.bits)) (sum : BitVec w.bits) :
    sumCosts (Arithmetic.wrapping w) pairs sum =
      .ok (sum + BitVec.ofNat w.bits ((naturals pairs).map fun p => p.1 * p.2).sum) := by
  induction pairs generalizing sum with
  | nil => exact congrArg Except.ok (BitVec.add_zero sum).symm
  | cons p pairs ih =>
      rw [show naturals (p :: pairs) = (p.1.toNat, p.2.toNat) :: naturals pairs from rfl,
        List.map_cons, List.sum_cons, BitVec.ofNat_add, BitVec.ofNat_mul,
        BitVec.ofNat_toNat, BitVec.ofNat_toNat, BitVec.setWidth_eq, BitVec.setWidth_eq,
        ← BitVec.add_assoc]
      exact ih (sum + p.1 * p.2)

theorem naturals_zip (costs bounds : List (BitVec w.bits)) :
    naturals (costs.zip bounds) = (costs.map BitVec.toNat).zip (bounds.map BitVec.toNat) :=
  List.zip_map.symm

theorem toNat_lit {n : Nat} (h : n < 2 ^ 32) : (BitVec.ofNat w.bits n).toNat = n := by
  have hbits : 2 ^ 32 ≤ 2 ^ w.bits := Nat.pow_le_pow_right (by decide) (by cases w <;> decide)
  rw [BitVec.toNat_ofNat, Nat.mod_eq_of_lt (lt_of_lt_of_le h hbits)]

theorem toNat_guardLit (vector : Bool) :
    (if vector then BitVec.ofNat w.bits 1 else BitVec.ofNat w.bits 3).toNat =
      if vector then 1 else 3 := by
  cases vector with
  | true => exact toNat_lit (by decide)
  | false => exact toNat_lit (by decide)

variable {sBytes nCap v : BitVec w.bits} {vector : Bool} {bbCosts bounds : List (BitVec w.bits)}

theorem tExec_checked_eq_ok (sBytes nCap : BitVec w.bits) (vector : Bool) :
    tExec (Arithmetic.checked w) (BitVec.ofNat w.bits) bbCosts bounds = .ok v ↔
      v.toNat = (budgetOf sBytes nCap vector bbCosts bounds).execCycles := by
  unfold tExec
  rw [sumCosts_checked_eq_ok, naturals_zip, toNat_lit (by decide), Nat.zero_add]
  rfl

/-- The build with overflow checks returns the exact total, when there is room for it. -/
theorem totalWcet_checked_eq_ok :
    totalWcet (Arithmetic.checked w) (BitVec.ofNat w.bits) sBytes nCap vector bbCosts bounds =
        .ok v ↔
      v.toNat = (budgetOf sBytes nCap vector bbCosts bounds).total := by
  have hjit : (BitVec.ofNat w.bits 25).toNat = 25 := toNat_lit (by decide)
  have hguard := toNat_guardLit (w := w) vector
  have hctx : (BitVec.ofNat w.bits 43).toNat = 43 := toNat_lit (by decide)
  have htotal : (budgetOf sBytes nCap vector bbCosts bounds).total =
      sBytes.toNat * 25 + nCap.toNat * (if vector then 1 else 3) +
        (budgetOf sBytes nCap vector bbCosts bounds).execCycles + 43 := rfl
  constructor
  · intro h
    obtain ⟨jit, htJit, h⟩ := bind_eq_ok.mp h
    obtain ⟨cap, htCap, h⟩ := bind_eq_ok.mp h
    obtain ⟨both, hboth, h⟩ := bind_eq_ok.mp h
    obtain ⟨exec, htExec, h⟩ := bind_eq_ok.mp h
    obtain ⟨sum, hsum, h⟩ := bind_eq_ok.mp h
    have hexec := (tExec_checked_eq_ok sBytes nCap vector).mp htExec
    have hjitEq := (checked_mul_eq_ok.mp htJit).right
    have hcapEq := (checked_mul_eq_ok.mp htCap).right
    rw [(checked_add_eq_ok.mp h).right, (checked_add_eq_ok.mp hsum).right,
      (checked_add_eq_ok.mp hboth).right, hjitEq, hcapEq, hexec, hjit, hguard, htotal]
    exact congrArg _ hctx
  · intro h
    have hv := v.isLt
    rw [htotal] at h
    obtain ⟨jit, hjitEq⟩ := exists_toNat_eq (show sBytes.toNat * 25 < 2 ^ w.bits by lia)
    obtain ⟨cap, hcapEq⟩ := exists_toNat_eq
      (show nCap.toNat * (if vector then 1 else 3) < 2 ^ w.bits by lia)
    obtain ⟨both, hboth⟩ := exists_toNat_eq (show jit.toNat + cap.toNat < 2 ^ w.bits by lia)
    obtain ⟨exec, hexec⟩ := exists_toNat_eq
      (show (budgetOf sBytes nCap vector bbCosts bounds).execCycles < 2 ^ w.bits by lia)
    obtain ⟨sum, hsum⟩ := exists_toNat_eq (show both.toNat + exec.toNat < 2 ^ w.bits by lia)
    refine bind_eq_ok.mpr ⟨jit, checked_mul_eq_ok.mpr ?_, ?_⟩
    · rw [hjit]
      exact ⟨by lia, hjitEq⟩
    refine bind_eq_ok.mpr ⟨cap, checked_mul_eq_ok.mpr ?_, ?_⟩
    · rw [hguard]
      exact ⟨by lia, hcapEq⟩
    refine bind_eq_ok.mpr ⟨both, checked_add_eq_ok.mpr ⟨by lia, hboth⟩, ?_⟩
    refine bind_eq_ok.mpr ⟨exec, (tExec_checked_eq_ok sBytes nCap vector).mpr hexec, ?_⟩
    refine bind_eq_ok.mpr ⟨sum, checked_add_eq_ok.mpr ⟨by lia, hsum⟩, ?_⟩
    refine checked_add_eq_ok.mpr ?_
    unfold tCtx
    rw [hctx]
    lia

theorem totalWcet_wrapping :
    totalWcet (Arithmetic.wrapping w) (BitVec.ofNat w.bits) sBytes nCap vector bbCosts bounds =
      .ok (BitVec.ofNat w.bits (budgetOf sBytes nCap vector bbCosts bounds).total) := by
  have hguard : BitVec.ofNat w.bits (budgetOf sBytes nCap vector bbCosts bounds).guardCycles =
      if vector then BitVec.ofNat w.bits 1 else BitVec.ofNat w.bits 3 := by
    cases vector with
    | true => rfl
    | false => rfl
  have hexec : tExec (Arithmetic.wrapping w) (BitVec.ofNat w.bits) bbCosts bounds =
      .ok (BitVec.ofNat w.bits (budgetOf sBytes nCap vector bbCosts bounds).execCycles) := by
    unfold tExec
    rw [sumCosts_wrapping, naturals_zip, BitVec.zero_add]
    rfl
  unfold totalWcet
  rw [hexec]
  refine congrArg Except.ok ?_
  unfold Budget.total tCtx
  rw [BitVec.ofNat_add, BitVec.ofNat_add, BitVec.ofNat_add, BitVec.ofNat_mul, BitVec.ofNat_mul,
    hguard]
  simp only [budgetOf, BitVec.ofNat_toNat, BitVec.setWidth_eq]

/-- The build with overflow checks returns a figure exactly when it is the worst case of all
activations within the budget.  The release build always returns one, and it covers them all
exactly when the worst case fits `usize`. -/
theorem totalWcet_isWorstCase :
    (totalWcet (Arithmetic.checked w) (BitVec.ofNat w.bits) sBytes nCap vector bbCosts bounds =
        .ok v ↔
      IsGreatest (budgetOf sBytes nCap vector bbCosts bounds).Costs v.toNat) ∧
    ((exists u, totalWcet (Arithmetic.wrapping w) (BitVec.ofNat w.bits) sBytes nCap vector bbCosts
          bounds = .ok u ∧
        u.toNat ∈ upperBounds (budgetOf sBytes nCap vector bbCosts bounds).Costs) ↔
      exists n, n < 2 ^ w.bits ∧
        IsGreatest (budgetOf sBytes nCap vector bbCosts bounds).Costs n) := by
  have hgreatest := (budgetOf sBytes nCap vector bbCosts bounds).isGreatest_total
  constructor
  · rw [totalWcet_checked_eq_ok]
    constructor
    · intro h
      rw [h]
      exact hgreatest
    · exact fun h => h.unique hgreatest
  · constructor
    · rintro ⟨u, _, hcovers⟩
      exact ⟨_, lt_of_le_of_lt (hcovers hgreatest.left) u.isLt, hgreatest⟩
    · rintro ⟨n, hfits, hn⟩
      refine ⟨_, totalWcet_wrapping, ?_⟩
      rw [hn.unique hgreatest] at hfits
      rw [BitVec.toNat_ofNat, Nat.mod_eq_of_lt hfits]
      exact hgreatest.right

end Builds

end Scheduler
end HolyRust
