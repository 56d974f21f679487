import Mathlib.Data.List.Forall2

/-!
# Greedy matching in order

Each element of one list needs a partner in another, and the partners have to
stand in the same order.  Taking the first partner that fits is as good as any
other choice: the greedy loop succeeds whenever some choice does.
-/

namespace DSValue.Lib.Matching

variable {α β : Type*} {ok : α → β → Bool} {a : α} {as : List α} {b : β}
  {bs : List β}

/-- The partners of a list, in order, some elements left out. -/
def Matches (ok : α → β → Bool) (as : List α) (bs : List β) : Prop :=
  ∃ chosen, chosen.Sublist bs ∧ List.Forall₂ (fun a b => ok a b = true) as chosen

/-- Every element gets the first partner that fits. -/
def greedy (ok : α → β → Bool) : List α → List β → Bool
  | [], _ => true
  | _ :: _, [] => false
  | a :: as, b :: bs =>
      if ok a b then greedy ok as bs else greedy ok (a :: as) bs

theorem matches_nil : Matches ok [] bs :=
  ⟨[], List.nil_sublist bs, List.Forall₂.nil⟩

theorem not_matches_nil : ¬ Matches ok (a :: as) [] := by
  rintro ⟨chosen, sublist, partners⟩
  rw [List.sublist_nil.mp sublist] at partners
  cases partners

/-- There are as many partners as elements. -/
theorem Matches.length_le (given : Matches ok as bs) : as.length ≤ bs.length := by
  rcases given with ⟨chosen, sublist, partners⟩
  rw [partners.length_eq]
  exact sublist.length_le

/-- The partner in front can always be given to the first element it fits. -/
theorem matches_cons_of_fits (fits : ok a b = true) :
    Matches ok (a :: as) (b :: bs) ↔ Matches ok as bs := by
  constructor
  · rintro ⟨chosen, sublist, partners⟩
    cases partners with
    | @cons _ first _ others _ rest =>
        refine ⟨others, ?_, rest⟩
        cases sublist with
        | cons _ within => exact (List.sublist_cons_self first others).trans within
        | cons_cons _ within => exact within
  · rintro ⟨chosen, sublist, partners⟩
    exact ⟨b :: chosen, sublist.cons_cons b, List.Forall₂.cons fits partners⟩

theorem matches_cons_of_not_fits (misfit : ok a b ≠ true) :
    Matches ok (a :: as) (b :: bs) ↔ Matches ok (a :: as) bs := by
  constructor
  · rintro ⟨chosen, sublist, partners⟩
    cases sublist with
    | cons _ within => exact ⟨chosen, within, partners⟩
    | cons_cons _ within =>
        cases partners with
        | cons fits _ => exact absurd fits misfit
  · rintro ⟨chosen, sublist, partners⟩
    exact ⟨chosen, sublist.cons b, partners⟩

/-- The greedy loop finds partners whenever there are any. -/
theorem greedy_eq_true : greedy ok as bs = true ↔ Matches ok as bs := by
  induction bs generalizing as with
  | nil =>
      cases as with
      | nil => exact iff_of_true rfl matches_nil
      | cons a as => exact iff_of_false Bool.false_ne_true not_matches_nil
  | cons b bs inductionHypothesis =>
      cases as with
      | nil => exact iff_of_true rfl matches_nil
      | cons a as =>
          rw [greedy]
          split_ifs with fits
          · rw [inductionHypothesis, matches_cons_of_fits fits]
          · rw [inductionHypothesis, matches_cons_of_not_fits fits]

/-- The order may be read backwards on both sides. -/
theorem matches_reverse :
    Matches ok as.reverse bs.reverse ↔ Matches ok as bs := by
  constructor
  · rintro ⟨chosen, sublist, partners⟩
    refine ⟨chosen.reverse, List.reverse_sublist.mp ?_,
      List.forall₂_reverse_iff.mp ?_⟩
    · rwa [List.reverse_reverse]
    · rwa [List.reverse_reverse]
  · rintro ⟨chosen, sublist, partners⟩
    exact ⟨chosen.reverse, sublist.reverse, List.forall₂_reverse_iff.mpr partners⟩

end DSValue.Lib.Matching
