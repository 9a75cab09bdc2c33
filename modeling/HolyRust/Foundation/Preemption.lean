import Mathlib.Algebra.BigOperators.Group.Finset.Basic
import Mathlib.Algebra.Order.BigOperators.Group.Finset
import Mathlib.Algebra.Order.Floor.Div
import Mathlib.GroupTheory.GroupAction.Ring

/-!
# Preemptive service by priority

A processor gives one unit of work in each tick to the first task that has any.
What a task is left with depends on the tasks before it only, and on these only
through the ticks in which they have nothing to do.  A bound on the work that
they can release in a window then bounds the time that a job has to wait.
-/

namespace HolyRust
namespace Foundation

/-!
## Ticks
-/

/-- One unit for the first task that has work. -/
def serve : List Nat -> List Nat
  | [] => []
  | 0 :: pending => 0 :: serve pending
  | (work + 1) :: pending => work :: pending

/-- Work pending after `t` ticks.  The tasks stand in the order of their priority;
each gives the work that it releases at the start of a tick. -/
def pendingAfter (tasks : List (Nat -> Nat)) : Nat -> List Nat
  | 0 => tasks.map fun _ => 0
  | t + 1 => serve (List.zipWith (fun work task => work + task t) (pendingAfter tasks t) tasks)

/-- All that the tasks release at the start of tick `t`. -/
def released (tasks : List (Nat -> Nat)) (t : Nat) : Nat :=
  (tasks.map fun task => task t).sum

/-- One for a tick in which the tasks have no work, else zero. -/
def idle (tasks : List (Nat -> Nat)) (t : Nat) : Nat :=
  if (pendingAfter tasks t).sum + released tasks t = 0 then 1 else 0

/-- Work pending after `t` ticks of a task that comes after `higher`. -/
def ownPending (higher : List (Nat -> Nat)) (task : Nat -> Nat) : Nat -> Nat
  | 0 => 0
  | t + 1 => ownPending higher task t + task t - idle higher t

theorem sum_serve (pending : List Nat) : (serve pending).sum = pending.sum - 1 := by
  induction pending with
  | nil => rfl
  | cons work pending ih =>
      cases work with
      | zero =>
          rw [serve, List.sum_cons, List.sum_cons, ih, Nat.zero_add, Nat.zero_add]
      | succ work =>
          rw [serve, List.sum_cons, List.sum_cons]
          lia

theorem serve_append (xs ys : List Nat) :
    serve (xs ++ ys) = if xs.sum = 0 then xs ++ serve ys else serve xs ++ ys := by
  induction xs with
  | nil => rfl
  | cons work xs ih =>
      cases work with
      | zero =>
          rw [List.cons_append, serve, serve, ih, List.sum_cons, Nat.zero_add]
          by_cases hzero : xs.sum = 0
          · rw [if_pos hzero, if_pos hzero, List.cons_append]
          · rw [if_neg hzero, if_neg hzero, List.cons_append]
      | succ work =>
          rw [List.cons_append, serve, serve, List.sum_cons, if_neg (by lia), List.cons_append]

@[simp]
theorem length_serve (pending : List Nat) : (serve pending).length = pending.length := by
  induction pending with
  | nil => rfl
  | cons work pending ih =>
      cases work with
      | zero => rw [serve, List.length_cons, List.length_cons, ih]
      | succ work => rfl

@[simp]
theorem length_pendingAfter (tasks : List (Nat -> Nat)) (t : Nat) :
    (pendingAfter tasks t).length = tasks.length := by
  induction t with
  | zero => exact List.length_map _
  | succ t ih => rw [pendingAfter, length_serve, List.length_zipWith, ih, Nat.min_self]

theorem sum_zipWith_release {pending : List Nat} {tasks : List (Nat -> Nat)} (t : Nat)
    (hlength : pending.length = tasks.length) :
    (List.zipWith (fun work task => work + task t) pending tasks).sum =
      pending.sum + released tasks t := by
  unfold released
  induction tasks generalizing pending with
  | nil =>
      rw [List.eq_nil_of_length_eq_zero hlength]
      rfl
  | cons task tasks ih =>
      cases pending with
      | nil => cases hlength
      | cons work pending =>
          rw [List.zipWith_cons_cons, List.sum_cons, ih (Nat.succ.inj hlength), List.sum_cons,
            List.map_cons, List.sum_cons]
          lia

theorem sum_pendingAfter_succ (tasks : List (Nat -> Nat)) (t : Nat) :
    (pendingAfter tasks (t + 1)).sum = (pendingAfter tasks t).sum + released tasks t - 1 := by
  rw [pendingAfter, sum_serve, sum_zipWith_release t (length_pendingAfter tasks t)]

/-- The tasks after a task do not matter to it, and those before it only by their idle
ticks. -/
theorem exists_pendingAfter_append (higher lower : List (Nat -> Nat)) (task : Nat -> Nat)
    (t : Nat) : exists rest, rest.length = lower.length ∧
      pendingAfter (higher ++ task :: lower) t =
        pendingAfter higher t ++ ownPending higher task t :: rest := by
  induction t with
  | zero =>
      refine ⟨lower.map fun _ => 0, List.length_map _, ?_⟩
      rw [pendingAfter, pendingAfter, ownPending, List.map_append, List.map_cons]
  | succ t ih =>
      obtain ⟨rest, hlength, hpending⟩ := ih
      have hoffered : List.zipWith (fun work task => work + task t)
          (pendingAfter (higher ++ task :: lower) t) (higher ++ task :: lower) =
            List.zipWith (fun work task => work + task t) (pendingAfter higher t) higher ++
              (ownPending higher task t + task t) ::
                List.zipWith (fun work task => work + task t) rest lower := by
        rw [hpending, List.zipWith_append (length_pendingAfter higher t), List.zipWith_cons_cons]
      rw [pendingAfter, hoffered, serve_append,
        sum_zipWith_release t (length_pendingAfter higher t)]
      -- The task is served in the ticks that are idle for the tasks before it.
      by_cases hidle : (pendingAfter higher t).sum + released higher t = 0
      · have hsame : pendingAfter higher (t + 1) =
            List.zipWith (fun work task => work + task t) (pendingAfter higher t) higher := by
          rw [pendingAfter]
          have hkeep := serve_append
            (List.zipWith (fun work task => work + task t) (pendingAfter higher t) higher) []
          rw [sum_zipWith_release t (length_pendingAfter higher t), if_pos hidle,
            List.append_nil] at hkeep
          exact hkeep.trans (List.append_nil _)
        rw [if_pos hidle, hsame, ownPending, idle, if_pos hidle]
        cases hown : ownPending higher task t + task t with
        | zero =>
            refine ⟨serve (List.zipWith (fun work task => work + task t) rest lower), ?_, rfl⟩
            rw [length_serve, List.length_zipWith, hlength, Nat.min_self]
        | succ work =>
            refine ⟨List.zipWith (fun work task => work + task t) rest lower, ?_, rfl⟩
            rw [List.length_zipWith, hlength, Nat.min_self]
      · rw [if_neg hidle, ownPending, idle, if_neg hidle, Nat.sub_zero]
        refine ⟨List.zipWith (fun work task => work + task t) rest lower, ?_, rfl⟩
        rw [List.length_zipWith, hlength, Nat.min_self]

theorem pendingAfter_getElem? (higher lower : List (Nat -> Nat)) (task : Nat -> Nat) (t : Nat) :
    (pendingAfter (higher ++ task :: lower) t)[higher.length]? =
      some (ownPending higher task t) := by
  obtain ⟨rest, _, hpending⟩ := exists_pendingAfter_append higher lower task t
  rw [hpending, List.getElem?_append_right (by simp), length_pendingAfter, Nat.sub_self,
    List.getElem?_cons_zero]

/-!
## Windows
-/

section Window

open Finset

variable {tasks higher : List (Nat -> Nat)} {task : Nat -> Nat}

theorem pendingAfter_tick (tasks : List (Nat -> Nat)) (t : Nat) :
    (pendingAfter tasks (t + 1)).sum + 1 =
      (pendingAfter tasks t).sum + released tasks t + idle tasks t := by
  rw [sum_pendingAfter_succ]
  unfold idle
  split <;> lia

/-- What was pending and what was released in a window is pending after it, or was
served in one of its ticks. -/
theorem pendingAfter_window (tasks : List (Nat -> Nat)) (t n : Nat) :
    (pendingAfter tasks (t + n)).sum + n =
      (pendingAfter tasks t).sum + ∑ i ∈ range n, released tasks (t + i) +
        ∑ i ∈ range n, idle tasks (t + i) := by
  induction n with
  | zero => simp
  | succ n ih =>
      have hstep := pendingAfter_tick tasks (t + n)
      rw [sum_range_succ, sum_range_succ, ← Nat.add_assoc, ← Nat.add_assoc]
      lia

theorem sum_pendingAfter_zero (tasks : List (Nat -> Nat)) : (pendingAfter tasks 0).sum = 0 := by
  rw [pendingAfter]
  refine List.sum_eq_zero fun work hwork => ?_
  obtain ⟨_, _, hzero⟩ := List.mem_map.mp hwork
  exact hzero.symm

theorem idle_le_one (tasks : List (Nat -> Nat)) (t : Nat) : idle tasks t ≤ 1 := by
  unfold idle
  split <;> decide

/-- A tick that is idle leaves nothing behind. -/
theorem pendingAfter_of_idle {t : Nat} (h : idle tasks t ≠ 0) :
    (pendingAfter tasks (t + 1)).sum = 0 := by
  have hstep := sum_pendingAfter_succ tasks t
  unfold idle at h
  split at h
  · lia
  · exact absurd rfl h

/-- The last instant up to `t` at which nothing is pending; no tick from there to `t` is
idle. -/
theorem exists_busy_start (tasks : List (Nat -> Nat)) (t : Nat) :
    exists s n, s + n = t ∧ (pendingAfter tasks s).sum = 0 ∧
      ∑ i ∈ range n, idle tasks (s + i) = 0 := by
  induction t with
  | zero => exact ⟨0, 0, rfl, sum_pendingAfter_zero tasks, rfl⟩
  | succ t ih =>
      by_cases hclear : (pendingAfter tasks (t + 1)).sum = 0
      · exact ⟨t + 1, 0, rfl, hclear, rfl⟩
      · obtain ⟨s, n, rfl, hstart, hbusy⟩ := ih
        refine ⟨s, n + 1, rfl, hstart, ?_⟩
        rw [sum_range_succ, hbusy, Nat.zero_add]
        exact not_not.mp fun hidle => hclear (pendingAfter_of_idle hidle)

/-- In no window of `n` ticks do the tasks release more than `bound n`. -/
def RequestBound (tasks : List (Nat -> Nat)) (bound : Nat -> Nat) : Prop :=
  forall t n, ∑ i ∈ range n, released tasks (t + i) ≤ bound n

/-- From any instant on, `r` ticks leave `work` of them idle if they suffice for that work
and all that can be released meanwhile. -/
theorem le_idle_window {bound : Nat -> Nat} {work r : Nat} (hbound : RequestBound tasks bound)
    (hroom : work + bound r ≤ r) (t : Nat) : work ≤ ∑ i ∈ range r, idle tasks (t + i) := by
  obtain ⟨s, n, rfl, hstart, hbusy⟩ := exists_busy_start tasks t
  have hwindow := pendingAfter_window tasks s r
  have hreleased := hbound s r
  have hearly : work ≤ ∑ i ∈ range r, idle tasks (s + i) := by lia
  -- The ticks before `s + n` are busy, so the idle ones of the earlier window are in the
  -- later one.
  calc work ≤ ∑ i ∈ range r, idle tasks (s + i) := hearly
    _ ≤ ∑ i ∈ range (n + r), idle tasks (s + i) :=
        sum_le_sum_of_subset (range_mono (Nat.le_add_left r n))
    _ = ∑ i ∈ range r, idle tasks (s + n + i) := by
        rw [sum_range_add, hbusy, Nat.zero_add]
        simp only [Nat.add_assoc]

/-!
## Response times
-/

/-- Each release is of at most `work`, and any two are at least `period` apart. -/
structure Sporadic (work period : Nat) (task : Nat -> Nat) : Prop where
  le : forall t, task t ≤ work
  apart : forall s t, s < t -> 0 < task s -> 0 < task t -> s + period ≤ t

/-- A window no longer than the period has at most one release. -/
theorem Sporadic.sum_le_work {work period : Nat} (h : Sporadic work period task) (t : Nat)
    {n : Nat} (hn : n ≤ period) : ∑ i ∈ range n, task (t + i) ≤ work := by
  induction n with
  | zero => exact Nat.zero_le _
  | succ n ih =>
      rw [sum_range_succ]
      by_cases hlast : task (t + n) = 0
      · rw [hlast, Nat.add_zero]
        exact ih (by lia)
      · have hquiet : ∑ i ∈ range n, task (t + i) = 0 := by
          refine sum_eq_zero fun i hi => not_not.mp fun hrelease => ?_
          have hlt := mem_range.mp hi
          have hapart := h.apart (t + i) (t + n) (by lia) (Nat.pos_of_ne_zero hrelease)
            (Nat.pos_of_ne_zero hlast)
          lia
        rw [hquiet, Nat.zero_add]
        exact h.le _

theorem ceilDiv_add_self {period : Nat} (hperiod : 0 < period) (n : Nat) :
    (period + n) ⌈/⌉ period = n ⌈/⌉ period + 1 := by
  rw [Nat.ceilDiv_eq_add_pred_div, Nat.ceilDiv_eq_add_pred_div, ← Nat.add_div_left _ hperiod]
  congr 1
  lia

theorem ceilDiv_of_le {n period : Nat} (hpos : 0 < n) (hle : n ≤ period) : n ⌈/⌉ period = 1 := by
  rw [Nat.ceilDiv_eq_add_pred_div]
  exact Nat.div_eq_of_lt_le (by lia) (by lia)

/-- A window has at most as many releases as it has periods, begun ones included. -/
theorem Sporadic.sum_le {work period : Nat} (h : Sporadic work period task)
    (hperiod : 0 < period) (t n : Nat) :
    ∑ i ∈ range n, task (t + i) ≤ (n ⌈/⌉ period) * work := by
  induction n using Nat.strong_induction_on generalizing t with
  | _ n ih =>
      by_cases hzero : n = 0
      · rw [hzero]
        exact Nat.zero_le _
      · by_cases hshort : n ≤ period
        · rw [ceilDiv_of_le (Nat.pos_of_ne_zero hzero) hshort, Nat.one_mul]
          exact h.sum_le_work t hshort
        · obtain ⟨m, rfl⟩ := Nat.exists_eq_add_of_lt (Nat.lt_of_not_le hshort)
          have hfirst := h.sum_le_work t (Nat.le_refl period)
          have hrest := ih (m + 1) (by lia) (t + period)
          rw [show period + m + 1 = period + (m + 1) from rfl, sum_range_add,
            ceilDiv_add_self hperiod, Nat.add_mul, Nat.one_mul]
          simp only [← Nat.add_assoc] at hrest ⊢
          lia

/-- The pending work of a task, from a release on until the next one. -/
theorem ownPending_window {s : Nat} (hstart : ownPending higher task s = 0) (n : Nat)
    (hquiet : forall i, i < n -> task (s + i + 1) = 0) :
    ownPending higher task (s + n + 1) = task s - ∑ i ∈ range (n + 1), idle higher (s + i) := by
  induction n with
  | zero => simp [ownPending, hstart]
  | succ n ih =>
      have hbefore := ih fun i hi => hquiet i (Nat.lt_succ_of_lt hi)
      rw [sum_range_succ, show s + (n + 1) + 1 = s + n + 1 + 1 from rfl, ownPending, hbefore,
        hquiet n (Nat.lt_succ_self n), ← Nat.add_assoc]
      lia

theorem ownPending_of_quiet {t : Nat} (hquiet : forall s, s < t -> task s = 0) :
    ownPending higher task t = 0 := by
  induction t with
  | zero => rfl
  | succ t ih =>
      rw [ownPending, ih fun s hs => hquiet s (Nat.lt_succ_of_lt hs), hquiet t (Nat.lt_succ_self t)]
      exact Nat.zero_sub _

/-- The last release before `t`, if there is one. -/
theorem exists_last_release (task : Nat -> Nat) (t : Nat) :
    (forall s, s < t -> task s = 0) ∨
      exists s n, s + n + 1 = t ∧ 0 < task s ∧ forall i, i < n -> task (s + i + 1) = 0 := by
  induction t with
  | zero => exact Or.inl fun s hs => absurd hs (Nat.not_lt_zero s)
  | succ t ih =>
      by_cases hnow : task t = 0
      · cases ih with
        | inl hquiet =>
            refine Or.inl fun s hs => ?_
            by_cases heq : s = t
            · rw [heq]
              exact hnow
            · exact hquiet s (by lia)
        | inr hlast =>
            obtain ⟨s, n, rfl, hpos, hquiet⟩ := hlast
            refine Or.inr ⟨s, n + 1, rfl, hpos, fun i hi => ?_⟩
            by_cases heq : i = n
            · rw [heq]
              exact hnow
            · exact hquiet i (by lia)
      · exact Or.inr ⟨t, 0, rfl, Nat.pos_of_ne_zero hnow, fun i hi => absurd hi (Nat.not_lt_zero i)⟩

variable {bound : Nat -> Nat} {work period r : Nat}

/-- Nothing is pending once `r` ticks have passed since every release. -/
theorem ownPending_eq_zero (hbound : RequestBound higher bound) (hroom : work + bound r ≤ r)
    (hown : Sporadic work period task) (hperiod : r ≤ period) (t : Nat)
    (hpast : forall s, s < t -> 0 < task s -> s + r ≤ t) : ownPending higher task t = 0 := by
  induction t using Nat.strong_induction_on with
  | _ t ih =>
      cases exists_last_release task t with
      | inl hquiet => exact ownPending_of_quiet hquiet
      | inr hlast =>
          obtain ⟨s, n, rfl, hpos, hquiet⟩ := hlast
          have hclear : ownPending higher task s = 0 := by
            refine ih s (by lia) fun s' hs' hpos' => ?_
            have hapart := hown.apart s' s hs' hpos' hpos
            lia
          have hlate := hpast s (by lia) hpos
          rw [ownPending_window hclear n hquiet]
          apply Nat.sub_eq_zero_of_le
          calc task s ≤ work := hown.le s
            _ ≤ ∑ i ∈ range r, idle higher (s + i) := le_idle_window hbound hroom s
            _ ≤ ∑ i ∈ range (n + 1), idle higher (s + i) :=
                sum_le_sum_of_subset (range_mono (by lia))

/-- A job is done `r` ticks after its release. -/
theorem ownPending_after_release (hbound : RequestBound higher bound)
    (hroom : work + bound r ≤ r) (hown : Sporadic work period task) (hperiod : r ≤ period)
    {t : Nat} (hrelease : 0 < task t) : ownPending higher task (t + r) = 0 := by
  refine ownPending_eq_zero hbound hroom hown hperiod (t + r) fun s hs hpos => ?_
  by_cases hlater : t < s
  · have hapart := hown.apart t s hlater hrelease hpos
    lia
  · lia

/-- If the first `n` ticks have left `work` of them idle, there was an instant that this
work and all that was released before then account for. -/
theorem exists_instant_of_idle (tasks : List (Nat -> Nat)) (hwork : 0 < work) (n : Nat)
    (hidle : work ≤ ∑ i ∈ range n, idle tasks i) :
    exists m, m ≤ n ∧ m = work + ∑ i ∈ range m, released tasks i := by
  induction n with
  | zero => exact absurd hidle (Nat.not_le_of_lt hwork)
  | succ n ih =>
      by_cases hbefore : work ≤ ∑ i ∈ range n, idle tasks i
      · obtain ⟨m, hle, hm⟩ := ih hbefore
        exact ⟨m, Nat.le_succ_of_le hle, hm⟩
      · have hone := idle_le_one tasks n
        rw [sum_range_succ] at hidle
        have hnow : idle tasks n ≠ 0 := by lia
        have hclear := pendingAfter_of_idle hnow
        have hwindow := pendingAfter_window tasks 0 (n + 1)
        simp only [Nat.zero_add, sum_pendingAfter_zero] at hwindow
        rw [hclear, sum_range_succ _ n, sum_range_succ _ n] at hwindow
        refine ⟨n + 1, Nat.le_refl _, ?_⟩
        rw [sum_range_succ]
        lia

/-- The same for a job that is released at the start and alone. -/
theorem exists_instant_of_done {n : Nat} (honly : forall i, task (i + 1) = 0)
    (hdone : ownPending higher task (n + 1) = 0) (hwork : 0 < task 0) :
    exists m, m ≤ n + 1 ∧ m = task 0 + ∑ i ∈ range m, released higher i := by
  have hown : ownPending higher task (0 + n + 1) = _ :=
    ownPending_window rfl n fun i _ => honly (0 + i)
  simp only [Nat.zero_add, hdone] at hown
  exact exists_instant_of_idle higher hwork (n + 1) (by lia)

end Window

end Foundation
end HolyRust
