import Mathlib.Order.Lattice

/-!
# The greatest element of a list

The last element of an ordered set whose order is given by a comparison
function.  `ranks` says that the comparison is that of a rank in a linear
order.
-/

namespace DSValue.Lib.Ranking

variable {α ρ : Type*}

/-- The greatest element, in the order of a comparison function. -/
def greatest? (less : α → α → Bool) : List α → Option α
  | [] => none
  | first :: rest =>
      match greatest? less rest with
      | none => some first
      | some best => if less best first then some first else some best

theorem greatest?_eq_none
    {less : α → α → Bool} {values : List α} :
    greatest? less values = none ↔ values = [] := by
  cases values with
  | nil => simp [greatest?]
  | cons first rest =>
      rw [greatest?]
      cases greatest? less rest with
      | none => simp
      | some best =>
          dsimp only
          split_ifs <;> simp

theorem greatest?_mem
    {less : α → α → Bool} {values : List α} {best : α}
    (found : greatest? less values = some best) : best ∈ values := by
  induction values generalizing best with
  | nil => cases found
  | cons first rest inductionHypothesis =>
      rw [greatest?] at found
      cases later : greatest? less rest with
      | none =>
          rw [later] at found
          cases found
          exact List.mem_cons_self
      | some top =>
          rw [later] at found
          have inRest := inductionHypothesis later
          cases smaller : less top first <;> simp only [smaller] at found <;>
            cases found
          · exact List.mem_cons_of_mem _ inRest
          · exact List.mem_cons_self

section Rank

variable [LinearOrder ρ] {less : α → α → Bool} {rank : α → ρ}
  {values : List α} {best : α}

/-- The greatest element has the greatest rank. -/
theorem rank_le_greatest?
    (increasing : ∀ first second, less first second = true →
      rank first ≤ rank second)
    (complete : ∀ first second, less first second = false →
      rank second ≤ rank first)
    (found : greatest? less values = some best) :
    ∀ value ∈ values, rank value ≤ rank best := by
  induction values generalizing best with
  | nil => cases found
  | cons first rest inductionHypothesis =>
      rw [greatest?] at found
      intro value member
      cases later : greatest? less rest with
      | none =>
          rw [later] at found
          cases found
          rw [greatest?_eq_none.mp later] at member
          rw [List.mem_singleton.mp member]
      | some top =>
          rw [later] at found
          have bound := inductionHypothesis later
          cases smaller : less top first <;> simp only [smaller] at found <;>
            cases found
          · rcases List.mem_cons.mp member with rfl | inRest
            · exact complete _ _ smaller
            · exact bound value inRest
          · rcases List.mem_cons.mp member with rfl | inRest
            · exact le_rfl
            · exact (bound value inRest).trans (increasing _ _ smaller)

end Rank

end DSValue.Lib.Ranking
