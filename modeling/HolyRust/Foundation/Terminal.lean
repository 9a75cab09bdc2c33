import Mathlib.Data.List.Induction
import Mathlib.Logic.Function.Basic

/-!
# Terminals

A terminal shows a row of cells and a cursor.  Rows have no right end, and nothing moves the
cursor up again, so the row of the cursor is all that is kept.
-/

namespace HolyRust
namespace Foundation

/-- What a character does to a terminal. -/
inductive Stroke (α : Type) where
  | cell (a : α)
  | back
  | home
  | down
  | ignored
deriving DecidableEq, Repr

structure Terminal (α : Type) where
  cells : Nat -> α
  column : Nat

namespace Terminal

variable {α : Type} {blank : α} {t : Terminal α} {start : Nat} {text : List α}

def put (blank : α) (t : Terminal α) : Stroke α -> Terminal α
  | .cell a => ⟨Function.update t.cells t.column a, t.column + 1⟩
  | .back => { t with column := t.column - 1 }
  | .home => { t with column := 0 }
  | .down => { t with cells := fun _ => blank }
  | .ignored => t

def putAll (blank : α) (t : Terminal α) (strokes : List (Stroke α)) : Terminal α :=
  strokes.foldl (put blank) t

theorem putAll_append (t : Terminal α) (ss ss' : List (Stroke α)) :
    t.putAll blank (ss ++ ss') = (t.putAll blank ss).putAll blank ss' :=
  List.foldl_append

/-- The row reads `text` from column `start` on, with the cursor behind it and nothing after. -/
structure Shows (blank : α) (t : Terminal α) (start : Nat) (text : List α) : Prop where
  column : t.column = start + text.length
  cells : forall i, (h : i < text.length) -> t.cells (start + i) = text[i]
  after : forall i, t.column ≤ i -> t.cells i = blank

/-- A new row is empty wherever the cursor is. -/
theorem shows_down (t : Terminal α) : (t.put blank .down).Shows blank t.column [] where
  column := rfl
  cells _ h := by cases h
  after _ _ := rfl

theorem Shows.cell (h : t.Shows blank start text) (a : α) :
    (t.put blank (.cell a)).Shows blank start (text ++ [a]) where
  column := by
    show t.column + 1 = _
    rw [h.column, List.length_append, List.length_singleton, Nat.add_assoc]
  cells i hi := by
    show Function.update t.cells t.column a (start + i) = _
    by_cases hlast : i < text.length
    · rw [Function.update_of_ne (by rw [h.column]; lia), h.cells i hlast,
        List.getElem_append_left hlast]
    · have heq : i = text.length := by
        rw [List.length_append, List.length_singleton] at hi
        lia
      subst heq
      rw [← h.column, Function.update_self, List.getElem_concat_length rfl]
  after i hi := by
    have hbehind : t.column + 1 ≤ i := hi
    show Function.update t.cells t.column a i = blank
    rw [Function.update_of_ne (by lia)]
    exact h.after i (by lia)

theorem Shows.cells_append (h : t.Shows blank start text) (more : List α) :
    (t.putAll blank (more.map .cell)).Shows blank start (text ++ more) := by
  induction more generalizing t text with
  | nil =>
      rw [List.append_nil]
      exact h
  | cons a more ih =>
      have htyped := ih (h.cell a)
      rw [List.append_assoc] at htyped
      exact htyped

/-- Back, a blank over the last character, and back again. -/
theorem Shows.erase {a : α} (h : t.Shows blank start (text ++ [a])) :
    (t.putAll blank [.back, .cell blank, .back]).Shows blank start text := by
  have hcolumn : t.column = start + text.length + 1 := by
    rw [h.column, List.length_append, List.length_singleton, Nat.add_assoc]
  have hlast : t.column - 1 = start + text.length := by lia
  constructor
  · show t.column - 1 + 1 - 1 = _
    lia
  · intro i hi
    show Function.update t.cells (t.column - 1) blank (start + i) = _
    rw [hlast, Function.update_of_ne (by lia),
      h.cells i (by rw [List.length_append]; lia), List.getElem_append_left hi]
  · intro i hi
    have hfrom : t.column - 1 + 1 - 1 ≤ i := hi
    show Function.update t.cells (t.column - 1) blank i = blank
    by_cases hcell : i = t.column - 1
    · rw [hcell, Function.update_self]
    · rw [Function.update_of_ne hcell]
      exact h.after i (by lia)

/-- As often as there are characters to erase. -/
theorem Shows.eraseAll {more : List α} (h : t.Shows blank start (text ++ more)) :
    (t.putAll blank (List.replicate more.length [.back, .cell blank, .back]).flatten).Shows blank
      start text := by
  induction more using List.reverseRecOn generalizing t with
  | nil =>
      rw [List.append_nil] at h
      exact h
  | append_singleton more a ih =>
      rw [← List.append_assoc] at h
      rw [List.length_append, List.length_singleton, List.replicate_succ, List.flatten_cons,
        putAll_append]
      exact ih h.erase

end Terminal

end Foundation
end HolyRust
