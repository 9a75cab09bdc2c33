/-!
# Trails of a transition relation

A trail lists the transitions made so far, the latest first.  The first rule below
is the only induction over trails that clients need: an invariant may mention the
past, and each transition may be known to satisfy a side condition.  The second is
its form for a property of every transition.
-/

namespace HolyRust
namespace Foundation

/-- One step with the states around it. -/
structure Transition (σ ι : Type) where
  before : σ
  label : ι
  after : σ

inductive Trail (step : σ -> ι -> σ -> Prop) (start : σ) :
    List (Transition σ ι) -> σ -> Prop where
  | nil : Trail step start [] start
  | snoc {past : List (Transition σ ι)} {s s' : σ} {i : ι} :
      Trail step start past s -> step s i s' -> Trail step start (⟨s, i, s'⟩ :: past) s'

theorem Trail.invariant {step : σ -> ι -> σ -> Prop} {start : σ}
    (Inv : List (Transition σ ι) -> σ -> Prop) (Allowed : Transition σ ι -> Prop)
    (hstart : Inv [] start)
    (hstep : forall past s i s', Inv past s -> step s i s' -> Allowed ⟨s, i, s'⟩ ->
      Inv (⟨s, i, s'⟩ :: past) s')
    {past : List (Transition σ ι)} {s : σ} (htrail : Trail step start past s)
    (hallowed : forall tr, tr ∈ past -> Allowed tr) : Inv past s := by
  induction htrail with
  | nil => exact hstart
  | snoc _ hlast ih =>
      have hpast := ih fun tr htr => hallowed tr (List.mem_cons_of_mem _ htr)
      exact hstep _ _ _ _ hpast hlast (hallowed _ List.mem_cons_self)

theorem Trail.forall_mem {step : σ -> ι -> σ -> Prop} {start : σ} (Inv : σ -> Prop)
    (Good Allowed : Transition σ ι -> Prop) (hstart : Inv start)
    (hstep : forall s i s', Inv s -> step s i s' -> Allowed ⟨s, i, s'⟩ ->
      Good ⟨s, i, s'⟩ ∧ Inv s')
    {past : List (Transition σ ι)} {s : σ} (htrail : Trail step start past s)
    (hallowed : forall tr, tr ∈ past -> Allowed tr) :
    (forall tr, tr ∈ past -> Good tr) ∧ Inv s := by
  refine Trail.invariant (fun past s => (forall tr, tr ∈ past -> Good tr) ∧ Inv s) Allowed
    ⟨fun tr htr => (by cases htr), hstart⟩ ?_ htrail hallowed
  rintro past s i s' ⟨hpast, hs⟩ hlast hlastAllowed
  obtain ⟨hgood, hs'⟩ := hstep s i s' hs hlast hlastAllowed
  refine ⟨fun tr htr => ?_, hs'⟩
  rcases List.mem_cons.mp htr with rfl | hold
  · exact hgood
  · exact hpast tr hold

/-- A trail that goes on where another one ended. -/
theorem Trail.append {step : σ -> ι -> σ -> Prop} {start s s' : σ}
    {past more : List (Transition σ ι)} (h : Trail step start past s)
    (h' : Trail step s more s') : Trail step start (more ++ past) s' := by
  induction h' with
  | nil => exact h
  | snoc _ hlast ih => exact ih.snoc hlast

/-- Labels carried out in order by a step function, with the transitions they make. -/
def play (step : σ -> ι -> Option σ) (past : List (Transition σ ι)) (s : σ) :
    List ι -> Option (List (Transition σ ι) × σ)
  | [] => some (past, s)
  | i :: rest =>
      match step s i with
      | some s' => play step (⟨s, i, s'⟩ :: past) s' rest
      | none => none

theorem trail_play {step : σ -> ι -> Option σ} {start s s' : σ}
    {past past' : List (Transition σ ι)} {labels : List ι}
    (htrail : Trail (fun s i s' => step s i = some s') start past s)
    (hplay : play step past s labels = some (past', s')) :
    Trail (fun s i s' => step s i = some s') start past' s' := by
  induction labels generalizing past s with
  | nil =>
      cases hplay
      exact htrail
  | cons i rest ih =>
      unfold play at hplay
      cases hstep : step s i with
      | none =>
          rw [hstep] at hplay
          cases hplay
      | some next =>
          rw [hstep] at hplay
          exact ih (Trail.snoc htrail hstep) hplay

end Foundation
end HolyRust
