import HolyRust.Foundation.Preemption
import HolyRust.Scheduler.ResponseTime

/-!
# Schedulability

What the response-time analysis is for: the tasks run on one processor under
preemptive fixed priorities.  A response time that is returned is the worst case over all
ways in which the tasks can release their jobs.  Every job of the task is done by
then, and some job needs all of that time.
-/

namespace HolyRust
namespace Scheduler

open Foundation Capabilities Finset

/-- The tasks of higher priority release jobs as the pairs `(w_tj, p_j)` say. -/
def ReleasedAs (tasks : List (Nat -> Nat)) (higher : List (Nat × Nat)) : Prop :=
  List.Forall₂ (fun task job => Sporadic job.1 job.2 task) tasks higher

/-- However the jobs are released, one of the first `d` ticks from the release of a job
of the task on leaves nothing of it.  The tasks of lower priority are arbitrary. -/
def RespondsWithin (wTi : Nat) (higher : List (Nat × Nat)) (deadline d : Nat) : Prop :=
  forall tasks task lower, ReleasedAs tasks higher -> Sporadic wTi deadline task ->
    forall t, 0 < task t -> exists n, n < d ∧
      (pendingAfter (tasks ++ task :: lower) (t + n + 1))[tasks.length]? = some 0

/-!
## Every job is done in time
-/

section Bound

variable {wTi deadline r : Nat} {higher : List (Nat × Nat)}

theorem requestBound_of_releasedAs {tasks : List (Nat -> Nat)} (hperiods : PositivePeriods higher)
    (h : ReleasedAs tasks higher) : RequestBound tasks (interference higher) := by
  intro t n
  induction h with
  | nil => simp [released]
  | @cons task job tasks higher hjob hrest ih =>
      have hpos := positivePeriods_cons.mp hperiods
      have hsplit : forall i, released (task :: tasks) i = task i + released tasks i := fun i => by
        unfold released
        rw [List.map_cons, List.sum_cons]
      simp only [hsplit, sum_add_distrib, interference_cons]
      exact Nat.add_le_add (hjob.sum_le hpos.left t n) (ih hpos.right)

theorem respondsWithin_of_isResponseTime (hperiods : PositivePeriods higher)
    (hr : IsResponseTime wTi higher r) (hdeadline : r ≤ deadline) :
    RespondsWithin wTi higher deadline r := by
  intro tasks task lower htasks htask t hrelease
  obtain ⟨hstart, hfix⟩ := isResponseTime_iff.mp hr
  have hle := htask.le t
  have hdone := ownPending_after_release (requestBound_of_releasedAs hperiods htasks)
    (Nat.le_of_eq hfix) htask hdeadline hrelease
  obtain ⟨n, rfl⟩ := Nat.exists_eq_succ_of_ne_zero (n := r) (by lia)
  refine ⟨n, Nat.lt_succ_self n, ?_⟩
  rw [pendingAfter_getElem?, ← hdone]
  rfl

end Bound

/-!
## Some job needs all the time
-/

/-- A task that releases a job at the start and then one in each period. -/
def synchronous (job : Nat × Nat) (t : Nat) : Nat :=
  if job.2 ∣ t then job.1 else 0

/-- A task that releases one job, at the start. -/
def once (work t : Nat) : Nat :=
  if t = 0 then work else 0

theorem sporadic_once (work period : Nat) : Sporadic work period (once work) where
  le t := by
    unfold once
    split <;> lia
  apart s t hst _ ht := by
    unfold once at ht
    split at ht <;> lia

theorem sporadic_synchronous (job : Nat × Nat) : Sporadic job.1 job.2 (synchronous job) where
  le t := by
    unfold synchronous
    split <;> lia
  apart s t hst hs ht := by
    unfold synchronous at hs ht
    split at hs
    · split at ht
      · rename_i hdvd hdvd'
        have hle := Nat.le_of_dvd (by lia) (Nat.dvd_sub hdvd' hdvd)
        lia
      · lia
    · lia

theorem sum_synchronous {job : Nat × Nat} (hpos : 0 < job.2) (n : Nat) :
    ∑ i ∈ range n, synchronous job i = (n ⌈/⌉ job.2) * job.1 := by
  induction n with
  | zero => simp
  | succ n ih =>
      rw [sum_range_succ, ih]
      unfold synchronous
      rw [Nat.ceilDiv_eq_add_pred_div, Nat.ceilDiv_eq_add_pred_div,
        show n + 1 + job.2 - 1 = n + job.2 - 1 + 1 by lia, Nat.succ_div]
      have hdvd : job.2 ∣ n + job.2 - 1 + 1 ↔ job.2 ∣ n := by
        rw [show n + job.2 - 1 + 1 = n + job.2 by lia]
        exact Nat.dvd_add_self_right
      by_cases h : job.2 ∣ n
      · rw [if_pos h, if_pos (hdvd.mpr h), Nat.add_mul, Nat.one_mul]
      · rw [if_neg h, if_neg (mt hdvd.mp h), Nat.add_zero, Nat.add_zero]

theorem releasedAs_synchronous (higher : List (Nat × Nat)) :
    ReleasedAs (higher.map synchronous) higher := by
  induction higher with
  | nil => exact List.Forall₂.nil
  | cons job higher ih => exact List.Forall₂.cons (sporadic_synchronous job) ih

theorem sum_released_synchronous {higher : List (Nat × Nat)} (hperiods : PositivePeriods higher)
    (n : Nat) : ∑ i ∈ range n, released (higher.map synchronous) i = interference higher n := by
  induction higher with
  | nil => simp [released]
  | cons job higher ih =>
      have hpos := positivePeriods_cons.mp hperiods
      have hsplit : forall i, released ((job :: higher).map synchronous) i =
          synchronous job i + released (higher.map synchronous) i := fun i => by
        unfold released
        rw [List.map_cons, List.map_cons, List.sum_cons]
      simp only [hsplit, sum_add_distrib, interference_cons]
      rw [sum_synchronous hpos.left, ih hpos.right]

theorem le_of_respondsWithin {wTi deadline r d : Nat} {higher : List (Nat × Nat)}
    (hperiods : PositivePeriods higher)
    (hr : IsLeast {s | IsResponseTime wTi higher s} r) (h : RespondsWithin wTi higher deadline d) :
    r ≤ d := by
  by_cases hwork : wTi = 0
  · have hzero : IsResponseTime wTi higher 0 := by
      refine isResponseTime_iff.mpr ⟨Nat.le_of_eq hwork, ?_⟩
      have hnone := sum_released_synchronous hperiods 0
      rw [demand, hwork, ← hnone]
      rfl
    exact Nat.le_trans (hr.right hzero) (Nat.zero_le d)
  · obtain ⟨n, hlt, hdone⟩ := h _ (once wTi) [] (releasedAs_synchronous higher)
      (sporadic_once wTi deadline) 0 (Nat.pos_of_ne_zero hwork)
    rw [Nat.zero_add, pendingAfter_getElem?] at hdone
    obtain ⟨m, hle, hm⟩ := exists_instant_of_done (fun _ => rfl) (Option.some.inj hdone)
      (Nat.pos_of_ne_zero hwork)
    rw [sum_released_synchronous hperiods] at hm
    have hleast := hr.right (show IsResponseTime wTi higher m from
      isResponseTime_iff.mpr ⟨by rw [hm]; exact Nat.le_add_right _ _, hm.symm⟩)
    lia

/-!
## The answer of the loop
-/

/-- The loop comes to no answer if a period is zero. -/
theorem positivePeriods_of_addInterference {r next v : Nat} {higher : List (Nat × Nat)}
    (h : addInterference Arithmetic.exact r higher next = .ok v) : PositivePeriods higher := by
  induction higher generalizing next with
  | nil => exact fun job hjob => absurd hjob List.not_mem_nil
  | cons job higher ih =>
      unfold addInterference at h
      obtain ⟨cost, hcost, h⟩ := bind_eq_ok.mp h
      obtain ⟨next', _, h⟩ := bind_eq_ok.mp h
      refine positivePeriods_cons.mpr ⟨Nat.pos_of_ne_zero fun hzero => ?_, ih h⟩
      unfold jobCost at hcost
      obtain ⟨_, _, hcost⟩ := bind_eq_ok.mp hcost
      obtain ⟨last, _, hcost⟩ := bind_eq_ok.mp hcost
      obtain ⟨jobs, hdiv, _⟩ := bind_eq_ok.mp hcost
      rw [Arithmetic.exact, hzero] at hdiv
      cases hdiv

/-- A response time that the build with overflow checks returns is the worst case over all
releases of jobs, and is within the deadline. -/
theorem rtaResponseTime_isWorstCase {w : PointerWidth} {wTi deadline r : BitVec w.bits}
    {higher : List (BitVec w.bits × BitVec w.bits)}
    (h : rtaResponseTime (Arithmetic.checked w) wTi higher deadline = .ok (some r)) :
    IsLeast {d | RespondsWithin wTi.toNat (naturals higher) deadline.toNat d} r.toNat ∧
      r.toNat ≤ deadline.toNat := by
  have hexact := rtaRounds_simulates (checked_simulates_exact w) h
  have hperiods : PositivePeriods (naturals higher) := by
    unfold rtaRoundLimit rtaRounds at hexact
    obtain ⟨_, hround, _⟩ := bind_eq_ok.mp hexact
    exact positivePeriods_of_addInterference hround
  change rtaRounds _ _ (naturals higher) _ _ _ = _ at hexact
  rw [rtaRounds_exact hperiods] at hexact
  have hset : {s | IsResponseTime wTi.toNat (naturals higher) s} =
      {s | wTi.toNat ≤ s ∧ demand wTi.toNat (naturals higher) s = s} :=
    Set.ext fun s => isResponseTime_iff
  have hleast : IsLeast {s | IsResponseTime wTi.toNat (naturals higher) s} r.toNat ∧
      r.toNat ≤ deadline.toNat := by
    rw [hset]
    exact isLeast_of_settle (demand_mono _ _) (le_demand _ _ _) (Except.ok.inj hexact)
  refine ⟨⟨?_, fun d hd => le_of_respondsWithin hperiods hleast.left hd⟩, hleast.right⟩
  exact respondsWithin_of_isResponseTime hperiods hleast.left.left hleast.right

/-- The third task of the ledger's own example needs its 70 ticks at worst. -/
theorem rtaResponseTime_isWorstCase_third :
    rtaResponseTime (Arithmetic.checked .w32) 30#32 [(10#32, 50#32), (20#32, 100#32)] 200#32 =
        .ok (some 70#32) ∧
      IsLeast {d | RespondsWithin 30 [(10, 50), (20, 100)] 200 d} 70 ∧ 70 ≤ 200 := by
  have h : rtaResponseTime (Arithmetic.checked .w32) 30#32
      [(10#32, 50#32), (20#32, 100#32)] 200#32 = .ok (some 70#32) := by
    decide
  exact ⟨h, rtaResponseTime_isWorstCase h⟩

end Scheduler
end HolyRust
