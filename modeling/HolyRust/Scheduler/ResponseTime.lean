import HolyRust.Capabilities.WindowCheck
import HolyRust.Foundation.Settling
import Mathlib.Algebra.Order.Floor.Div
import Mathlib.GroupTheory.GroupAction.Ring
import Mathlib.Tactic.GCongr

/-!
# Response-time analysis

`rta_response_time` iterates the response-time equation of a task from its own
execution time.  The loop is written once, over the arithmetic of a build: exact
natural numbers, `usize` that wraps (the release profile), and `usize` with overflow
checks (the development profile).
-/

namespace HolyRust
namespace Scheduler

open Foundation Capabilities

/-!
## The loop
-/

inductive Panic where
  | divideByZero
  | overflow
deriving DecidableEq, Repr

/-- The operators of the loop, as one build of the program carries them out. -/
structure Arithmetic (α : Type) where
  one : α
  add : α -> α -> Except Panic α
  sub : α -> α -> Except Panic α
  mul : α -> α -> Except Panic α
  div : α -> α -> Except Panic α

section Loop

variable {α : Type} [LT α] [DecidableLT α] [DecidableEq α] (A : Arithmetic α)

/-- `((r + p_j - 1) / p_j) * w_tj`. -/
def jobCost (r wTj pJ : α) : Except Panic α := do
  let sum <- A.add r pJ
  let last <- A.sub sum A.one
  let jobs <- A.div last pJ
  A.mul jobs wTj

/-- The inner loop, over the pairs `(w_tj, p_j)`. -/
def addInterference (r : α) : List (α × α) -> α -> Except Panic α
  | [], next => .ok next
  | (wTj, pJ) :: higher, next => do
      let cost <- jobCost A r wTj pJ
      let next <- A.add next cost
      addInterference r higher next

def rtaRounds (wTi : α) (higher : List (α × α)) (deadline : α) :
    Nat -> α -> Except Panic (Option α)
  | 0, _ => .ok none
  | rounds + 1, r => do
      let next <- addInterference A r higher wTi
      if deadline < next then
        .ok none
      else if next = r then
        .ok (some r)
      else
        rtaRounds wTi higher deadline rounds next

/-- `for _ in 0..100`. -/
def rtaRoundLimit : Nat := 100

def rtaResponseTime (wTi : α) (higher : List (α × α)) (deadline : α) :
    Except Panic (Option α) :=
  rtaRounds A wTi higher deadline rtaRoundLimit wTi

end Loop

namespace Arithmetic

/-- Natural numbers; there is none below zero. -/
def exact : Arithmetic Nat where
  one := 1
  add a b := .ok (a + b)
  sub a b := if a < b then .error .overflow else .ok (a - b)
  mul a b := .ok (a * b)
  div a b := if b = 0 then .error .divideByZero else .ok (a / b)

/-- `usize` without overflow checks. -/
def wrapping (w : PointerWidth) : Arithmetic (BitVec w.bits) where
  one := 1#w.bits
  add a b := .ok (a + b)
  sub a b := .ok (a - b)
  mul a b := .ok (a * b)
  div a b := if b = 0#w.bits then .error .divideByZero else .ok (a / b)

/-- `usize` where an operation that would wrap panics instead. -/
def checked (w : PointerWidth) : Arithmetic (BitVec w.bits) where
  one := 1#w.bits
  add a b := if a.toNat + b.toNat < 2 ^ w.bits then .ok (a + b) else .error .overflow
  sub a b := if a < b then .error .overflow else .ok (a - b)
  mul a b := if a.toNat * b.toNat < 2 ^ w.bits then .ok (a * b) else .error .overflow
  div a b := if b = 0#w.bits then .error .divideByZero else .ok (a / b)

end Arithmetic

theorem ok_bind (a : α) (f : α -> Except ε β) : (Except.ok a >>= f) = f a := rfl

theorem bind_eq_ok {x : Except ε α} {f : α -> Except ε β} {b : β} :
    (x >>= f) = .ok b ↔ exists a, x = .ok a ∧ f a = .ok b := by
  cases x with
  | error e => simp [bind, Except.bind]
  | ok a => simp [bind, Except.bind]

/-!
## The response-time equation
-/

/-- `Σ ceil(r / P_j) * W_Tj`. -/
def interference (higher : List (Nat × Nat)) (r : Nat) : Nat :=
  (higher.map fun job => (r ⌈/⌉ job.2) * job.1).sum

def demand (wTi : Nat) (higher : List (Nat × Nat)) (r : Nat) : Nat :=
  wTi + interference higher r

/-- `r` is at least `w_ti` and solves `r = w_ti + Σ ceil(r / p_j) * w_tj`. -/
def IsResponseTime (wTi : Nat) (higher : List (Nat × Nat)) (r : Nat) : Prop :=
  wTi ≤ r ∧ r = wTi + (higher.map fun job => (r ⌈/⌉ job.2) * job.1).sum

def PositivePeriods (higher : List (Nat × Nat)) : Prop :=
  forall job, job ∈ higher -> 0 < job.2

@[simp]
theorem interference_nil (r : Nat) : interference [] r = 0 := rfl

@[simp]
theorem interference_cons (job : Nat × Nat) (higher : List (Nat × Nat)) (r : Nat) :
    interference (job :: higher) r = (r ⌈/⌉ job.2) * job.1 + interference higher r :=
  List.sum_cons

theorem isResponseTime_iff {wTi r : Nat} {higher : List (Nat × Nat)} :
    IsResponseTime wTi higher r ↔ wTi ≤ r ∧ demand wTi higher r = r := by
  unfold IsResponseTime
  exact and_congr_right fun _ => eq_comm

theorem positivePeriods_cons {job : Nat × Nat} {higher : List (Nat × Nat)} :
    PositivePeriods (job :: higher) ↔ 0 < job.2 ∧ PositivePeriods higher :=
  List.forall_mem_cons

theorem ceilDiv_mono {r s : Nat} (hrs : r ≤ s) (p : Nat) : r ⌈/⌉ p ≤ s ⌈/⌉ p := by
  rw [Nat.ceilDiv_eq_add_pred_div, Nat.ceilDiv_eq_add_pred_div]
  exact Nat.div_le_div_right (by lia)

theorem interference_mono (higher : List (Nat × Nat)) : Monotone (interference higher) := by
  induction higher with
  | nil =>
      intro r s _
      exact le_refl _
  | cons job higher ih =>
      intro r s hrs
      have hjobs := ceilDiv_mono hrs job.2
      have hrest := ih hrs
      rw [interference_cons, interference_cons]
      gcongr

theorem demand_mono (wTi : Nat) (higher : List (Nat × Nat)) :
    Monotone (demand wTi higher) := by
  intro r s hrs
  exact Nat.add_le_add_left (interference_mono higher hrs) wTi

theorem le_demand (wTi : Nat) (higher : List (Nat × Nat)) (r : Nat) :
    wTi ≤ demand wTi higher r :=
  Nat.le_add_right _ _

/-!
## Exact arithmetic

One pass of the inner loop computes the demand, and the outer loop is the search of
`settle` for a fixed point of it.
-/

theorem jobCost_exact {r wTj pJ : Nat} (hpos : 0 < pJ) :
    jobCost Arithmetic.exact r wTj pJ = .ok ((r ⌈/⌉ pJ) * wTj) := by
  have hsub : Arithmetic.exact.sub (r + pJ) 1 = .ok (r + pJ - 1) := if_neg (by lia)
  have hdiv : Arithmetic.exact.div (r + pJ - 1) pJ = .ok (r ⌈/⌉ pJ) := if_neg (by lia)
  unfold jobCost
  refine bind_eq_ok.mpr ⟨r + pJ, rfl, ?_⟩
  refine bind_eq_ok.mpr ⟨r + pJ - 1, hsub, ?_⟩
  exact bind_eq_ok.mpr ⟨r ⌈/⌉ pJ, hdiv, rfl⟩

theorem addInterference_exact {higher : List (Nat × Nat)}
    (hperiods : PositivePeriods higher) (r next : Nat) :
    addInterference Arithmetic.exact r higher next = .ok (next + interference higher r) := by
  induction higher generalizing next with
  | nil => rfl
  | cons job higher ih =>
      have hpos := positivePeriods_cons.mp hperiods
      unfold addInterference
      refine bind_eq_ok.mpr ⟨_, jobCost_exact hpos.left, ?_⟩
      refine bind_eq_ok.mpr ⟨next + (r ⌈/⌉ job.2) * job.1, rfl, ?_⟩
      rw [ih hpos.right, interference_cons, Nat.add_assoc]

theorem rtaRounds_exact {higher : List (Nat × Nat)} (hperiods : PositivePeriods higher)
    (wTi deadline rounds r : Nat) :
    rtaRounds Arithmetic.exact wTi higher deadline rounds r =
      .ok (settle (demand wTi higher) deadline rounds r) := by
  induction rounds generalizing r with
  | zero => rfl
  | succ rounds ih =>
      unfold rtaRounds settle
      rw [addInterference_exact hperiods, ok_bind]
      change (if deadline < demand wTi higher r then _ else _) = _
      by_cases hover : deadline < demand wTi higher r
      · rw [if_pos hover, if_pos hover]
      · rw [if_neg hover, if_neg hover]
        by_cases hfixed : demand wTi higher r = r
        · rw [if_pos hfixed, if_pos]
          exact hfixed
        · rw [if_neg hfixed, if_neg]
          · exact ih _
          · exact hfixed

/-- A response time that is returned is the least solution of the equation, and meets
the deadline. -/
theorem rtaResponseTime_sound {wTi deadline r : Nat} {higher : List (Nat × Nat)}
    (hperiods : PositivePeriods higher)
    (h : rtaResponseTime Arithmetic.exact wTi higher deadline = .ok (some r)) :
    IsLeast {s | IsResponseTime wTi higher s} r ∧ r ≤ deadline := by
  unfold rtaResponseTime at h
  rw [rtaRounds_exact hperiods] at h
  have hset : {s | IsResponseTime wTi higher s} = {s | wTi ≤ s ∧ demand wTi higher s = s} :=
    Set.ext fun s => isResponseTime_iff
  rw [hset]
  exact isLeast_of_settle (demand_mono wTi higher) (le_demand wTi higher wTi)
    (Except.ok.inj h)

/-- The third task of the ledger's own example. -/
theorem rtaResponseTime_sound_third :
    rtaResponseTime Arithmetic.exact 30 [(10, 50), (20, 100)] 200 = .ok (some 70) ∧
      IsLeast {s | IsResponseTime 30 [(10, 50), (20, 100)] s} 70 ∧ 70 ≤ 200 :=
  ⟨by decide, rtaResponseTime_sound (by unfold PositivePeriods; decide) (by decide)⟩

/-- The equation has a solution up to the deadline. -/
def MeetsDeadline (wTi : Nat) (higher : List (Nat × Nat)) (deadline : Nat) : Prop :=
  exists r, IsResponseTime wTi higher r ∧ r ≤ deadline

/-- A solution up to the deadline can be climbed to from `w_ti` in one move less than
the loop has rounds: each move goes to an instant that the demand at the one before
still covers. -/
def WithinReach (wTi : Nat) (higher : List (Nat × Nat)) (deadline : Nat) : Prop :=
  exists r, IsResponseTime wTi higher r ∧ r ≤ deadline ∧
    Climb (demand wTi higher) (rtaRoundLimit - 1) wTi r

theorem exists_rtaResponseTime_iff {wTi deadline : Nat} {higher : List (Nat × Nat)}
    (hperiods : PositivePeriods higher) :
    (exists r, rtaResponseTime Arithmetic.exact wTi higher deadline = .ok (some r)) ↔
      WithinReach wTi higher deadline := by
  unfold rtaResponseTime WithinReach
  simp only [rtaRounds_exact hperiods, Except.ok.injEq, isResponseTime_iff, and_assoc]
  exact exists_settle_iff_climb (demand_mono wTi higher) (le_demand wTi higher wTi)

/-- The loop finds every response time within the deadline, but for those that lie out
of its reach. -/
theorem rtaResponseTime_complete_iff {wTi deadline : Nat} {higher : List (Nat × Nat)}
    (hperiods : PositivePeriods higher) :
    (MeetsDeadline wTi higher deadline ->
        exists r, rtaResponseTime Arithmetic.exact wTi higher deadline = .ok (some r)) ↔
      (MeetsDeadline wTi higher deadline -> WithinReach wTi higher deadline) :=
  imp_congr_right fun _ => exists_rtaResponseTime_iff hperiods

/-- From 30 by way of 60 to 70, where the climb stays. -/
theorem rtaResponseTime_complete_third :
    PositivePeriods [(10, 50), (20, 100)] ∧ WithinReach 30 [(10, 50), (20, 100)] 200 ∧
      exists r, rtaResponseTime Arithmetic.exact 30 [(10, 50), (20, 100)] 200 =
        .ok (some r) := by
  have hperiods : PositivePeriods [(10, 50), (20, 100)] := by
    unfold PositivePeriods
    decide
  have hsolution : IsResponseTime 30 [(10, 50), (20, 100)] 70 := by
    unfold IsResponseTime
    decide
  have hstays : Climb (demand 30 [(10, 50), (20, 100)]) 97 70 70 :=
    climb_of_le (by decide) 97
  have hclimb : Climb (demand 30 [(10, 50), (20, 100)]) 99 30 70 :=
    .move (y := 60) (by decide) (.move (by decide) hstays)
  have hreach : WithinReach 30 [(10, 50), (20, 100)] 200 := ⟨70, hsolution, by decide, hclimb⟩
  exact ⟨hperiods, hreach,
    (rtaResponseTime_complete_iff hperiods).mpr (fun _ => hreach) ⟨70, hsolution, by decide⟩⟩

/-- With a utilisation of 100/101 the iteration gains one job a round: the solution is
its 100th iterate, and the loop stops one round short. -/
theorem rtaResponseTime_misses :
    PositivePeriods [(100, 101)] ∧ MeetsDeadline 100 [(100, 101)] 10100 ∧
      rtaResponseTime Arithmetic.exact 100 [(100, 101)] 10100 = .ok none := by
  constructor
  · unfold PositivePeriods
    decide
  · constructor
    · exact ⟨10100, by unfold IsResponseTime; decide, by decide⟩
    · decide +kernel

/-- How many jobs of the other tasks are released before `r`. -/
def releases (higher : List (Nat × Nat)) (r : Nat) : Nat :=
  (higher.map fun job => r ⌈/⌉ job.2).sum

/-- The jobs determine the interference, and there are no fewer of them later. -/
theorem releases_le (higher : List (Nat × Nat)) {r s : Nat} (hrs : r ≤ s) :
    releases higher r ≤ releases higher s ∧
      (releases higher r = releases higher s -> interference higher r = interference higher s) := by
  induction higher with
  | nil => exact ⟨le_refl _, fun _ => rfl⟩
  | cons job higher ih =>
      have hjobs := ceilDiv_mono hrs job.2
      obtain ⟨hle, hsame⟩ := ih
      have hcons : forall t, releases (job :: higher) t = t ⌈/⌉ job.2 + releases higher t :=
        fun t => List.sum_cons
      rw [hcons, hcons, interference_cons, interference_cons]
      constructor
      · lia
      · intro heq
        rw [hsame (by lia), show r ⌈/⌉ job.2 = s ⌈/⌉ job.2 by lia]

/-- Each round but the last finds at least one more job, so a response time before which
fewer than 99 jobs are released on top of those at `w_ti` is found. -/
theorem rtaResponseTime_of_few_releases {wTi deadline r : Nat} {higher : List (Nat × Nat)}
    (hperiods : PositivePeriods higher) (hr : IsResponseTime wTi higher r) (hle : r ≤ deadline)
    (hfew : releases higher r < releases higher wTi + (rtaRoundLimit - 1)) :
    exists s, rtaResponseTime Arithmetic.exact wTi higher deadline = .ok (some s) := by
  obtain ⟨hstart, hfix⟩ := isResponseTime_iff.mp hr
  have hmono := demand_mono wTi higher
  have hbelow := iterate_le_fixed hmono hstart hfix (rtaRoundLimit - 1)
  have hsettled := iterate_fixed_of_rank hmono (le_demand wTi higher wTi)
    (fun _ _ h => (releases_le higher h).left)
    (fun _ _ h heq => congrArg (wTi + ·) ((releases_le higher h).right heq))
    (lt_of_le_of_lt (releases_le higher hbelow).left hfew)
  refine (exists_rtaResponseTime_iff hperiods).mpr ⟨_, isResponseTime_iff.mpr ⟨?_, hsettled⟩,
    le_trans hbelow hle, climb_iterate _ _ _⟩
  exact hmono.monotone_iterate_of_le_map (le_demand wTi higher wTi) (Nat.zero_le _)

/-!
## Machine arithmetic

A run of one build is a run of another if each operation of the first that succeeds is
the same operation of the second.  The build with overflow checks is related in this
way to both others.
-/

/-- What `A` computes, `B` computes too, on the values that `view` gives. -/
structure Simulates {α β : Type} [LT α] [LT β] (A : Arithmetic α) (B : Arithmetic β)
    (view : α -> β) : Prop where
  one : view A.one = B.one
  add : forall a b c, A.add a b = .ok c -> B.add (view a) (view b) = .ok (view c)
  sub : forall a b c, A.sub a b = .ok c -> B.sub (view a) (view b) = .ok (view c)
  mul : forall a b c, A.mul a b = .ok c -> B.mul (view a) (view b) = .ok (view c)
  div : forall a b c, A.div a b = .ok c -> B.div (view a) (view b) = .ok (view c)
  lt_iff : forall a b, view a < view b ↔ a < b
  eq_iff : forall a b, view a = view b ↔ a = b

section Simulation

variable {α β : Type} [LT α] [LT β] {A : Arithmetic α} {B : Arithmetic β} {view : α -> β}

theorem jobCost_simulates (hsim : Simulates A B view) {r wTj pJ v : α}
    (h : jobCost A r wTj pJ = .ok v) :
    jobCost B (view r) (view wTj) (view pJ) = .ok (view v) := by
  unfold jobCost at h ⊢
  rcases bind_eq_ok.mp h with ⟨sum, hadd, h⟩
  rcases bind_eq_ok.mp h with ⟨last, hsub, h⟩
  rcases bind_eq_ok.mp h with ⟨jobs, hdiv, hmul⟩
  refine bind_eq_ok.mpr ⟨_, hsim.add _ _ _ hadd, ?_⟩
  rw [← hsim.one]
  refine bind_eq_ok.mpr ⟨_, hsim.sub _ _ _ hsub, ?_⟩
  exact bind_eq_ok.mpr ⟨_, hsim.div _ _ _ hdiv, hsim.mul _ _ _ hmul⟩

theorem addInterference_simulates (hsim : Simulates A B view) {higher : List (α × α)}
    {r next v : α} (h : addInterference A r higher next = .ok v) :
    addInterference B (view r) (higher.map (Prod.map view view)) (view next) =
      .ok (view v) := by
  induction higher generalizing next with
  | nil =>
      cases h
      rfl
  | cons job higher ih =>
      unfold addInterference at h
      rcases bind_eq_ok.mp h with ⟨cost, hcost, h⟩
      rcases bind_eq_ok.mp h with ⟨next', hadd, h⟩
      rw [List.map_cons]
      unfold addInterference
      refine bind_eq_ok.mpr ⟨_, jobCost_simulates hsim hcost, ?_⟩
      exact bind_eq_ok.mpr ⟨_, hsim.add _ _ _ hadd, ih h⟩

variable [DecidableLT α] [DecidableEq α] [DecidableLT β] [DecidableEq β]

theorem rtaRounds_simulates (hsim : Simulates A B view) {wTi deadline r : α}
    {higher : List (α × α)} {rounds : Nat} {answer : Option α}
    (h : rtaRounds A wTi higher deadline rounds r = .ok answer) :
    rtaRounds B (view wTi) (higher.map (Prod.map view view)) (view deadline) rounds
      (view r) = .ok (answer.map view) := by
  induction rounds generalizing r with
  | zero =>
      cases h
      rfl
  | succ rounds ih =>
      unfold rtaRounds at h ⊢
      rcases bind_eq_ok.mp h with ⟨next, hnext, h⟩
      refine bind_eq_ok.mpr ⟨_, addInterference_simulates hsim hnext, ?_⟩
      simp only [hsim.lt_iff, hsim.eq_iff]
      by_cases hover : deadline < next
      · rw [if_pos hover] at h ⊢
        cases h
        rfl
      · rw [if_neg hover] at h ⊢
        by_cases hfixed : next = r
        · rw [if_pos hfixed] at h ⊢
          cases h
          rfl
        · rw [if_neg hfixed] at h ⊢
          exact ih h

end Simulation

theorem checked_simulates_wrapping (w : PointerWidth) :
    Simulates (Arithmetic.checked w) (Arithmetic.wrapping w) id where
  one := rfl
  add a b c h := by
    simp only [Arithmetic.checked] at h
    split at h
    · exact h
    · cases h
  sub a b c h := by
    simp only [Arithmetic.checked] at h
    split at h
    · cases h
    · exact h
  mul a b c h := by
    simp only [Arithmetic.checked] at h
    split at h
    · exact h
    · cases h
  div a b c h := h
  lt_iff a b := Iff.rfl
  eq_iff a b := Iff.rfl

theorem checked_add_eq_ok {w : PointerWidth} {a b c : BitVec w.bits} :
    (Arithmetic.checked w).add a b = .ok c ↔
      a.toNat + b.toNat < 2 ^ w.bits ∧ c.toNat = a.toNat + b.toNat := by
  simp only [Arithmetic.checked]
  by_cases hfits : a.toNat + b.toNat < 2 ^ w.bits
  · simp [hfits, ← BitVec.toNat_inj, BitVec.toNat_add, Nat.mod_eq_of_lt hfits, eq_comm]
  · simp [hfits]

theorem checked_sub_eq_ok {w : PointerWidth} {a b c : BitVec w.bits} :
    (Arithmetic.checked w).sub a b = .ok c ↔
      b.toNat ≤ a.toNat ∧ c.toNat = a.toNat - b.toNat := by
  simp only [Arithmetic.checked, BitVec.lt_def]
  by_cases hless : a.toNat < b.toNat
  · simp [hless]
  · have hle : b ≤ a := BitVec.le_def.mpr (Nat.le_of_not_lt hless)
    simp [hless, ← BitVec.toNat_inj, BitVec.toNat_sub_of_le hle, Nat.le_of_not_lt hless,
      eq_comm]

theorem checked_mul_eq_ok {w : PointerWidth} {a b c : BitVec w.bits} :
    (Arithmetic.checked w).mul a b = .ok c ↔
      a.toNat * b.toNat < 2 ^ w.bits ∧ c.toNat = a.toNat * b.toNat := by
  simp only [Arithmetic.checked]
  by_cases hfits : a.toNat * b.toNat < 2 ^ w.bits
  · simp [hfits, ← BitVec.toNat_inj, BitVec.toNat_mul, Nat.mod_eq_of_lt hfits, eq_comm]
  · simp [hfits]

theorem checked_div_eq_ok {w : PointerWidth} {a b c : BitVec w.bits} :
    (Arithmetic.checked w).div a b = .ok c ↔
      0 < b.toNat ∧ c.toNat = a.toNat / b.toNat := by
  simp only [Arithmetic.checked, ← BitVec.toNat_inj (y := 0#w.bits), BitVec.toNat_ofNat,
    Nat.zero_mod]
  by_cases hzero : b.toNat = 0
  · simp [hzero]
  · simp [hzero, ← BitVec.toNat_inj, Nat.pos_of_ne_zero hzero, eq_comm]

theorem toNat_one (w : PointerWidth) : (1#w.bits).toNat = 1 := by
  cases w <;> rfl

theorem checked_simulates_exact (w : PointerWidth) :
    Simulates (Arithmetic.checked w) Arithmetic.exact BitVec.toNat where
  one := toNat_one w
  add a b c h := congrArg Except.ok (checked_add_eq_ok.mp h).right.symm
  sub a b c h := by
    rcases checked_sub_eq_ok.mp h with ⟨hle, hc⟩
    rw [hc]
    exact if_neg (Nat.not_lt.mpr hle)
  mul a b c h := congrArg Except.ok (checked_mul_eq_ok.mp h).right.symm
  div a b c h := by
    rcases checked_div_eq_ok.mp h with ⟨hpos, hc⟩
    rw [hc]
    exact if_neg (Nat.ne_of_gt hpos)
  lt_iff a b := Iff.rfl
  eq_iff a b := BitVec.toNat_inj

/-!
## Where `usize` is wide enough
-/

def naturals {n : Nat} (higher : List (BitVec n × BitVec n)) : List (Nat × Nat) :=
  higher.map (Prod.map BitVec.toNat BitVec.toNat)

/-- The sums and products of the round at `r` are below `2 ^ bits`. -/
def RoundFits (w : PointerWidth) (wTi : Nat) (higher : List (Nat × Nat)) (r : Nat) : Prop :=
  (forall job, job ∈ higher -> r + job.2 < 2 ^ w.bits) ∧ demand wTi higher r < 2 ^ w.bits

/-- No period is zero, and every term of the recurrence
`R(k+1) = w_ti + Σ ceil(R(k) / p_j) * w_tj` that the deadline lets the loop come to is
small enough. -/
def FitsUsize (w : PointerWidth) (wTi : Nat) (higher : List (Nat × Nat)) (deadline : Nat) :
    Prop :=
  PositivePeriods higher ∧
    forall k, k < rtaRoundLimit ->
      (forall i, i < k -> (demand wTi higher)^[i + 1] wTi ≤ deadline) ->
        RoundFits w wTi higher ((demand wTi higher)^[k] wTi)

theorem exists_toNat_eq {n a : Nat} (h : a < 2 ^ n) : exists x : BitVec n, x.toNat = a :=
  ⟨BitVec.ofNat n a, by rw [BitVec.toNat_ofNat, Nat.mod_eq_of_lt h]⟩

theorem jobCost_checked_eq_ok {w : PointerWidth} {r wTj pJ v : BitVec w.bits} :
    jobCost (Arithmetic.checked w) r wTj pJ = .ok v ↔
      0 < pJ.toNat ∧ r.toNat + pJ.toNat < 2 ^ w.bits ∧
        (r.toNat ⌈/⌉ pJ.toNat) * wTj.toNat < 2 ^ w.bits ∧
        v.toNat = (r.toNat ⌈/⌉ pJ.toNat) * wTj.toNat := by
  have hone : (Arithmetic.checked w).one.toNat = 1 := toNat_one w
  rw [Nat.ceilDiv_eq_add_pred_div]
  constructor
  · intro h
    unfold jobCost at h
    rcases bind_eq_ok.mp h with ⟨sum, hadd, h⟩
    rcases bind_eq_ok.mp h with ⟨last, hsub, h⟩
    rcases bind_eq_ok.mp h with ⟨jobs, hdiv, hmul⟩
    rcases checked_add_eq_ok.mp hadd with ⟨hfits, hsum⟩
    rcases checked_sub_eq_ok.mp hsub with ⟨_, hlast⟩
    rcases checked_div_eq_ok.mp hdiv with ⟨hpos, hjobs⟩
    rw [hone, hsum] at hlast
    rw [hlast] at hjobs
    rw [checked_mul_eq_ok, hjobs] at hmul
    exact ⟨hpos, hfits, hmul⟩
  · rintro ⟨hpos, hfits, hmul⟩
    have hsmall : (r.toNat + pJ.toNat - 1) / pJ.toNat < 2 ^ w.bits :=
      lt_of_le_of_lt (Nat.div_le_self _ _) (by lia)
    rcases exists_toNat_eq hfits with ⟨sum, hsum⟩
    rcases exists_toNat_eq (show r.toNat + pJ.toNat - 1 < 2 ^ w.bits by lia) with ⟨last, hlast⟩
    rcases exists_toNat_eq hsmall with ⟨jobs, hjobs⟩
    unfold jobCost
    refine bind_eq_ok.mpr ⟨sum, checked_add_eq_ok.mpr ⟨hfits, hsum⟩, ?_⟩
    refine bind_eq_ok.mpr ⟨last, checked_sub_eq_ok.mpr (by rw [hone, hsum]; lia), ?_⟩
    refine bind_eq_ok.mpr ⟨jobs, checked_div_eq_ok.mpr ⟨hpos, by rw [hlast, hjobs]⟩, ?_⟩
    rw [checked_mul_eq_ok, hjobs]
    exact hmul

theorem addInterference_checked_eq_ok {w : PointerWidth} {r next v : BitVec w.bits}
    {higher : List (BitVec w.bits × BitVec w.bits)} :
    addInterference (Arithmetic.checked w) r higher next = .ok v ↔
      PositivePeriods (naturals higher) ∧
        (forall job, job ∈ naturals higher -> r.toNat + job.2 < 2 ^ w.bits) ∧
        next.toNat + interference (naturals higher) r.toNat < 2 ^ w.bits ∧
        v.toNat = next.toNat + interference (naturals higher) r.toNat := by
  induction higher generalizing next with
  | nil =>
      have hlt := next.isLt
      simp [addInterference, naturals, PositivePeriods, ← BitVec.toNat_inj, hlt, eq_comm]
  | cons job higher ih =>
      have hcons : naturals (job :: higher) =
          (job.1.toNat, job.2.toNat) :: naturals higher := rfl
      unfold addInterference
      rw [bind_eq_ok, hcons, positivePeriods_cons, List.forall_mem_cons, interference_cons]
      constructor
      · rintro ⟨cost, hcost, h⟩
        rcases bind_eq_ok.mp h with ⟨sum, hadd, h⟩
        rcases jobCost_checked_eq_ok.mp hcost with ⟨hpos, hfits, _, hvalue⟩
        rcases checked_add_eq_ok.mp hadd with ⟨_, hsum⟩
        rcases ih.mp h with ⟨hperiods, hrest, htotal, hv⟩
        rw [hsum, hvalue] at htotal hv
        rw [← Nat.add_assoc]
        exact ⟨⟨hpos, hperiods⟩, ⟨hfits, hrest⟩, htotal, hv⟩
      · rintro ⟨⟨hpos, hperiods⟩, ⟨hfits, hrest⟩, htotal, hv⟩
        dsimp only at hpos hfits htotal hv
        rcases exists_toNat_eq (n := w.bits)
          (a := (r.toNat ⌈/⌉ job.2.toNat) * job.1.toNat) (by lia) with ⟨cost, hcost⟩
        rcases exists_toNat_eq (n := w.bits) (a := next.toNat + cost.toNat) (by lia)
          with ⟨sum, hsum⟩
        refine ⟨cost, jobCost_checked_eq_ok.mpr ⟨hpos, hfits, by lia, hcost⟩, ?_⟩
        refine bind_eq_ok.mpr ⟨sum, checked_add_eq_ok.mpr ⟨by lia, hsum⟩, ?_⟩
        refine ih.mpr ⟨hperiods, hrest, ?_, ?_⟩
        · lia
        · lia

theorem exists_addInterference_checked_iff {w : PointerWidth} {r wTi : BitVec w.bits}
    {higher : List (BitVec w.bits × BitVec w.bits)} :
    (exists v, addInterference (Arithmetic.checked w) r higher wTi = .ok v) ↔
      PositivePeriods (naturals higher) ∧
        RoundFits w wTi.toNat (naturals higher) r.toNat := by
  simp only [addInterference_checked_eq_ok, RoundFits, demand]
  constructor
  · rintro ⟨v, hperiods, hsums, htotal, _⟩
    exact ⟨hperiods, hsums, htotal⟩
  · rintro ⟨hperiods, hsums, htotal⟩
    rcases exists_toNat_eq htotal with ⟨v, hv⟩
    exact ⟨v, hperiods, hsums, htotal, hv⟩

/-- Round 0 is always entered; the later ones are those of the loop that is left. -/
theorem forall_entered_succ {P Q : Nat -> Prop} {rounds : Nat} :
    (forall k, k < rounds + 1 -> (forall i, i < k -> P i) -> Q k) ↔
      Q 0 ∧ (P 0 -> forall k, k < rounds -> (forall i, i < k -> P (i + 1)) -> Q (k + 1)) := by
  constructor
  · intro h
    refine ⟨h 0 (Nat.succ_pos _) fun i hi => absurd hi (Nat.not_lt_zero i), ?_⟩
    intro hzero k hk hentered
    refine h (k + 1) (Nat.succ_lt_succ hk) fun i hi => ?_
    cases i with
    | zero => exact hzero
    | succ i => exact hentered i (Nat.lt_of_succ_lt_succ hi)
  · rintro ⟨hfirst, hlater⟩ k hk hentered
    cases k with
    | zero => exact hfirst
    | succ k =>
        exact hlater (hentered 0 (Nat.succ_pos k)) k (Nat.lt_of_succ_lt_succ hk) fun i hi =>
          hentered (i + 1) (Nat.succ_lt_succ hi)

/-- The checked loop comes to its end if and only if every round that it enters fits. -/
theorem exists_rtaRounds_checked_iff {w : PointerWidth} {wTi deadline r : BitVec w.bits}
    {higher : List (BitVec w.bits × BitVec w.bits)} {rounds : Nat} :
    (exists answer,
        rtaRounds (Arithmetic.checked w) wTi higher deadline rounds r = .ok answer) ↔
      forall k, k < rounds ->
        (forall i, i < k ->
          (demand wTi.toNat (naturals higher))^[i + 1] r.toNat ≤ deadline.toNat) ->
        PositivePeriods (naturals higher) ∧
          RoundFits w wTi.toNat (naturals higher)
            ((demand wTi.toNat (naturals higher))^[k] r.toNat) := by
  induction rounds generalizing r with
  | zero => simp [rtaRounds]
  | succ rounds ih =>
      rw [forall_entered_succ, Function.iterate_zero_apply, Function.iterate_one]
      unfold rtaRounds
      cases hnext : addInterference (Arithmetic.checked w) r higher wTi with
      | error e =>
          refine iff_of_false (fun ⟨answer, h⟩ => by cases h) fun h => ?_
          rcases exists_addInterference_checked_iff.mpr h.left with ⟨v, hv⟩
          rw [hnext] at hv
          cases hv
      | ok next =>
          have hround := exists_addInterference_checked_iff.mp ⟨next, hnext⟩
          have hvalue : next.toNat = demand wTi.toNat (naturals higher) r.toNat :=
            (addInterference_checked_eq_ok.mp hnext).right.right.right
          rw [← hvalue, and_iff_right hround]
          simp only [ok_bind]
          by_cases hover : deadline < next
          · -- The loop stops, and no later round is entered.
            rw [if_pos hover]
            exact iff_of_true ⟨none, rfl⟩ fun hle => absurd hover (Nat.not_lt.mpr hle)
          · rw [if_neg hover]
            have hle : next.toNat ≤ deadline.toNat := Nat.le_of_not_lt hover
            by_cases hfixed : next = r
            · -- Later rounds would repeat this one.
              rw [if_pos hfixed]
              rw [hfixed] at hvalue
              refine iff_of_true ⟨some r, rfl⟩ fun _ k _ _ => ?_
              rw [Function.iterate_fixed hvalue.symm]
              exact hround
            · rw [if_neg hfixed, ih, imp_iff_right hle]
              simp only [hvalue, ← Function.iterate_succ_apply]

/-- The release build neither panics nor wraps (the build with overflow checks comes to
the same answer), and its answer is that of the loop over natural numbers. -/
def MachineExact (w : PointerWidth) (wTi : BitVec w.bits)
    (higher : List (BitVec w.bits × BitVec w.bits)) (deadline : BitVec w.bits) : Prop :=
  exists answer,
    rtaResponseTime (Arithmetic.wrapping w) wTi higher deadline = .ok answer ∧
      rtaResponseTime (Arithmetic.checked w) wTi higher deadline = .ok answer ∧
      rtaResponseTime Arithmetic.exact wTi.toNat (naturals higher) deadline.toNat =
        .ok (answer.map BitVec.toNat)

/-- The loop computes in `usize` what it computes in natural numbers exactly when no
period is zero and the terms of the recurrence fit. -/
theorem machineExact_iff_fitsUsize (w : PointerWidth) (wTi deadline : BitVec w.bits)
    (higher : List (BitVec w.bits × BitVec w.bits)) :
    MachineExact w wTi higher deadline ↔
      FitsUsize w wTi.toNat (naturals higher) deadline.toNat := by
  have hchecked : MachineExact w wTi higher deadline ↔
      exists answer,
        rtaRounds (Arithmetic.checked w) wTi higher deadline rtaRoundLimit wTi =
          .ok answer := by
    constructor
    · rintro ⟨answer, _, h, _⟩
      exact ⟨answer, h⟩
    · rintro ⟨answer, h⟩
      have hwrapping := rtaRounds_simulates (checked_simulates_wrapping w) h
      have hexact := rtaRounds_simulates (checked_simulates_exact w) h
      simp only [Prod.map_id, List.map_id, Option.map_id, id_eq] at hwrapping
      exact ⟨answer, hwrapping, h, hexact⟩
  rw [hchecked, exists_rtaRounds_checked_iff]
  constructor
  · intro h
    constructor
    · exact (h 0 (by decide) fun i hi => absurd hi (Nat.not_lt_zero i)).left
    · exact fun k hk hentered => (h k hk hentered).right
  · intro h k hk hentered
    exact ⟨h.left, h.right k hk hentered⟩

/-- A zero period panics; and two products of `2 ^ 31` add up to nothing, so that a task
which cannot meet any deadline is given the response time 1. -/
theorem not_machineExact :
    ¬ MachineExact .w32 1#32 [(1#32, 0#32)] 10#32 ∧
      ¬ MachineExact .w32 1#32 [(0x80000000#32, 1#32), (0x80000000#32, 1#32)] 1#32 := by
  constructor
  · rintro ⟨answer, h, _⟩
    have hpanic : rtaResponseTime (Arithmetic.wrapping .w32) 1#32 [(1#32, 0#32)] 10#32 =
        .error .divideByZero := by
      decide
    rw [hpanic] at h
    cases h
  · rintro ⟨answer, h, _, hexact⟩
    have hwraps : rtaResponseTime (Arithmetic.wrapping .w32) 1#32
        [(0x80000000#32, 1#32), (0x80000000#32, 1#32)] 1#32 = .ok (some 1#32) := by
      decide
    rw [hwraps] at h
    cases h
    exact absurd hexact (by decide)

end Scheduler
end HolyRust
