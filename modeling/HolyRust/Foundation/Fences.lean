/-!
# Write, fence, call

A buffer of code is written unit by unit, fenced and called.  What was written is not
safe to call before a fence has come after it.  The rules below follow one flag, whether a
write is unfenced, through a trace and through its parts.
-/

namespace HolyRust
namespace Foundation

/-- One event of a code buffer; a call says which way it was made. -/
inductive CodeEvent (unit way : Type) where
  | write (u : unit)
  | fence
  | call (w : way)
deriving DecidableEq, Repr

section Fences

variable {unit way : Type}

/-- A write has no fence after it. -/
def Unfenced (past : List (CodeEvent unit way)) : Prop :=
  exists before u since, past = before ++ .write u :: since ∧ .fence ∉ since

/-- No call is made while a write is unfenced. -/
def Disciplined (trace : List (CodeEvent unit way)) : Prop :=
  forall past w rest, trace = past ++ .call w :: rest -> ¬ Unfenced past

/-- The flag after the events. -/
def dirtyAfter : Bool -> List (CodeEvent unit way) -> Bool
  | dirty, [] => dirty
  | _, .write _ :: es => dirtyAfter true es
  | _, .fence :: es => dirtyAfter false es
  | dirty, .call _ :: es => dirtyAfter dirty es

/-- Every call meets `ok` with the flag at its time. -/
def CallsMeet (ok : Bool -> way -> Prop) : Bool -> List (CodeEvent unit way) -> Prop
  | _, [] => True
  | _, .write _ :: es => CallsMeet ok true es
  | _, .fence :: es => CallsMeet ok false es
  | dirty, .call w :: es => ok dirty w ∧ CallsMeet ok dirty es

theorem unfenced_cons {e : CodeEvent unit way} {es : List (CodeEvent unit way)} :
    Unfenced (e :: es) ↔ Unfenced es ∨ ((exists u, e = .write u) ∧ .fence ∉ es) := by
  constructor
  · rintro ⟨before, u, since, heq, hsince⟩
    cases before with
    | nil =>
        injection heq with he hes
        rw [hes]
        exact Or.inr ⟨⟨u, he⟩, hsince⟩
    | cons b before =>
        injection heq with _ hes
        exact Or.inl ⟨before, u, since, hes, hsince⟩
  · rintro (⟨before, u, since, heq, hsince⟩ | ⟨⟨u, rfl⟩, hes⟩)
    · exact ⟨e :: before, u, since, by rw [heq, List.cons_append], hsince⟩
    · exact ⟨[], u, es, rfl, hes⟩

theorem dirtyAfter_iff (dirty : Bool) (es : List (CodeEvent unit way)) :
    dirtyAfter dirty es = true ↔ Unfenced es ∨ (dirty = true ∧ .fence ∉ es) := by
  induction es generalizing dirty with
  | nil =>
      have hnil : ¬ Unfenced ([] : List (CodeEvent unit way)) := by
        rintro ⟨before, u, since, heq, _⟩
        cases before <;> cases heq
      simp [dirtyAfter, hnil]
  | cons e es ih =>
      cases e with
      | write u =>
          rw [dirtyAfter, ih, unfenced_cons]
          simp only [List.mem_cons, reduceCtorEq, false_or, CodeEvent.write.injEq, exists_eq',
            true_and]
          exact ⟨Or.inl, fun h => h.elim id fun h => Or.inr h.2⟩
      | fence => simp [dirtyAfter, ih, unfenced_cons]
      | call w => simp [dirtyAfter, ih, unfenced_cons]

theorem unfenced_iff (es : List (CodeEvent unit way)) :
    Unfenced es ↔ dirtyAfter false es = true := by
  rw [dirtyAfter_iff]
  simp

theorem callsMeet_append (ok : Bool -> way -> Prop) (dirty : Bool)
    (xs ys : List (CodeEvent unit way)) :
    CallsMeet ok dirty (xs ++ ys) ↔
      CallsMeet ok dirty xs ∧ CallsMeet ok (dirtyAfter dirty xs) ys := by
  induction xs generalizing dirty with
  | nil => simp [CallsMeet, dirtyAfter]
  | cons e xs ih =>
      cases e with
      | write u => exact ih true
      | fence => exact ih false
      | call w =>
          simp only [List.cons_append, CallsMeet, dirtyAfter]
          rw [ih dirty, and_assoc]

theorem callsMeet_writes (ok : Bool -> way -> Prop) (dirty : Bool) (us : List unit) :
    CallsMeet ok dirty (us.map .write) := by
  induction us generalizing dirty with
  | nil => trivial
  | cons u us ih => exact ih true

theorem dirtyAfter_writes (dirty : Bool) {us : List unit} (h : us ≠ []) :
    dirtyAfter dirty (us.map .write : List (CodeEvent unit way)) = true := by
  cases us with
  | nil => exact absurd rfl h
  | cons u us =>
      rw [List.map_cons, dirtyAfter, dirtyAfter_iff]
      refine Or.inr ⟨rfl, ?_⟩
      simp

theorem callsMeet_iff (ok : Bool -> way -> Prop) (dirty : Bool)
    (es : List (CodeEvent unit way)) :
    CallsMeet ok dirty es ↔
      forall past w rest, es = past ++ .call w :: rest -> ok (dirtyAfter dirty past) w := by
  constructor
  · rintro h past w rest rfl
    rw [callsMeet_append] at h
    exact h.2.1
  · intro h
    induction es generalizing dirty with
    | nil => trivial
    | cons e es ih =>
        have htail : CallsMeet ok (dirtyAfter dirty [e]) es := by
          refine ih _ fun past w rest heq => ?_
          have hcall := h (e :: past) w rest (by rw [heq, List.cons_append])
          cases e <;> exact hcall
        cases e with
        | write u => exact htail
        | fence => exact htail
        | call w => exact ⟨h [] w es rfl, htail⟩

/-- If the calls made one way are those that find a write unfenced, only they break the
discipline. -/
theorem disciplined_iff_not_mem {bad : way} {trace : List (CodeEvent unit way)}
    (h : CallsMeet (fun dirty w => dirty = true ↔ w = bad) false trace) :
    Disciplined trace ↔ .call bad ∉ trace := by
  rw [callsMeet_iff] at h
  constructor
  · intro hdisciplined hmem
    obtain ⟨past, rest, heq⟩ := List.append_of_mem hmem
    have hdirty := (h past bad rest heq).mpr rfl
    exact hdisciplined past bad rest heq ((unfenced_iff past).mpr hdirty)
  · intro hnot past w rest heq hunfenced
    have hbad := (h past w rest heq).mp ((unfenced_iff past).mp hunfenced)
    refine hnot ?_
    rw [heq, hbad]
    exact List.mem_append_right past List.mem_cons_self

end Fences

end Foundation
end HolyRust
