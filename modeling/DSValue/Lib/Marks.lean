import Mathlib.Data.List.Basic

/-!
# Marked values

Some of the values of a list are marked.  One more mark adds one value to the
marked ones, and taking the mark away restores them.
-/

namespace DSValue.Lib.Marks

variable {α : Type*}

/-- The values whose marks are set. -/
def marked : List Bool → List α → List α
  | true :: marks, value :: values => value :: marked marks values
  | false :: marks, _ :: values => marked marks values
  | _, _ => []

theorem marked_sublist (marks : List Bool) (values : List α) :
    (marked marks values).Sublist values := by
  induction values generalizing marks with
  | nil =>
      rcases marks with _ | ⟨_ | _, marks⟩
      · exact List.Sublist.refl []
      · exact List.Sublist.refl []
      · exact List.Sublist.refl []
  | cons value values inductionHypothesis =>
      rcases marks with _ | ⟨_ | _, marks⟩
      · exact List.nil_sublist _
      · exact (inductionHypothesis marks).cons value
      · exact (inductionHypothesis marks).cons_cons value

theorem marked_replicate_true (values : List α) :
    marked (List.replicate values.length true) values = values := by
  induction values with
  | nil => rfl
  | cons value values inductionHypothesis =>
      rw [List.length_cons, List.replicate_succ, marked, inductionHypothesis]

theorem marked_replicate_false (values : List α) :
    marked (List.replicate values.length false) values = [] := by
  induction values with
  | nil => rfl
  | cons value values inductionHypothesis =>
      rw [List.length_cons, List.replicate_succ, marked, inductionHypothesis]

/-- One more mark. -/
theorem marked_set_perm
    {marks : List Bool} {values : List α} {index : Nat} {value : α}
    (unmarked : marks[index]? = some false)
    (found : values[index]? = some value) :
    (marked (marks.set index true) values).Perm
      (value :: marked marks values) := by
  induction values generalizing marks index with
  | nil => cases found
  | cons first values inductionHypothesis =>
      cases marks with
      | nil => cases unmarked
      | cons mark marks =>
          cases index with
          | zero =>
              cases unmarked
              cases found
              exact List.Perm.refl _
          | succ index =>
              rw [List.getElem?_cons_succ] at unmarked found
              have rest := inductionHypothesis unmarked found
              rw [List.set_cons_succ]
              cases mark with
              | false => exact rest
              | true => exact (rest.cons first).trans (List.Perm.swap _ _ _)

theorem set_set_of_unmarked
    {marks : List Bool} {index : Nat}
    (unmarked : marks[index]? = some false) :
    (marks.set index true).set index false = marks := by
  rcases List.getElem?_eq_some_iff.mp unmarked with ⟨inside, isFalse⟩
  rw [List.set_set, ← isFalse, List.set_getElem_self]

end DSValue.Lib.Marks
