import Mathlib.Data.List.Basic
import Mathlib.Order.Nat

/-!
# Allocation by a mark

Space of several regions is given out from a mark that only grows.  As long as
every range starts at or behind the mark of its region, and the mark is moved
to its end or further, no two ranges of a region overlap.
-/

namespace DSValue.Lib.Allocation

variable {κ : Type*} {mark next : κ → Nat}

/-- The positions from `first` up to, and not including, `stop`. -/
structure Range (κ : Type*) where
  region : κ
  first : Nat
  stop : Nat
deriving DecidableEq

/-- Two ranges do not overlap. -/
def Range.Apart (left right : Range κ) : Prop :=
  left.region = right.region →
    left.stop ≤ right.first ∨ right.stop ≤ left.first

instance [DecidableEq κ] (left right : Range κ) :
    Decidable (left.Apart right) :=
  inferInstanceAs (Decidable (_ → _))

/-- Ranges that do not overlap, all of them below the marks. -/
structure Below (mark : κ → Nat) (ranges : List (Range κ)) : Prop where
  bounded : ∀ range ∈ ranges, range.stop ≤ mark range.region
  apart : ranges.Pairwise Range.Apart

variable {ranges : List (Range κ)} {range : Range κ}

theorem Below.nil (mark : κ → Nat) : Below mark [] :=
  ⟨nofun, List.Pairwise.nil⟩

/-- Marks may grow. -/
theorem Below.mono
    (below : Below mark ranges) (grows : ∀ region, mark region ≤ next region) :
    Below next ranges :=
  ⟨fun range member => (below.bounded range member).trans (grows range.region),
    below.apart⟩

/-- A range from the mark on is apart from all ranges below it. -/
theorem Below.cons
    (below : Below mark ranges) (grows : ∀ region, mark region ≤ next region)
    (behind : mark range.region ≤ range.first)
    (covers : range.stop ≤ next range.region) : Below next (range :: ranges) := by
  refine ⟨?_, List.pairwise_cons.mpr ⟨?_, below.apart⟩⟩
  · intro other member
    rcases List.mem_cons.mp member with rfl | earlier
    · exact covers
    · exact (below.mono grows).bounded other earlier
  · intro other earlier same
    right
    have bound := below.bounded other earlier
    rw [← same] at bound
    exact bound.trans behind

end DSValue.Lib.Allocation
