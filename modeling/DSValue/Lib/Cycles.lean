import Mathlib.Data.Finset.Card
import Mathlib.Data.Fintype.Card
import Mathlib.Logic.Relation
import Mathlib.Order.WellFounded

/-!
# Relations without cycles

On a finite type a relation without cycles is well founded, and along each of
its steps fewer nodes of a given finite set lie ahead.  Walks that only meet
nodes of the set are therefore no longer than the set is large.
-/

namespace DSValue.Lib.Cycles

open Relation

variable {α : Type*} {r : α → α → Prop} {first second : α}

/-- No node is ahead of itself. -/
def Acyclic (r : α → α → Prop) : Prop := ∀ node, ¬ TransGen r node node

theorem Acyclic.swap (acyclic : Acyclic r) : Acyclic (Function.swap r) := by
  intro node cycle
  exact acyclic node (transGen_swap.mp cycle)

theorem Acyclic.wellFounded [Finite α] (acyclic : Acyclic r) :
    WellFounded r := by
  have trans : IsTrans α (TransGen r) := ⟨fun _ _ _ => TransGen.trans⟩
  have irrefl : Std.Irrefl (TransGen r) := ⟨acyclic⟩
  have transClosure := Finite.wellFounded_of_trans_of_irrefl (TransGen r)
  exact Subrelation.wf TransGen.single transClosure

/-! ## What lies ahead -/

open Classical in
/-- How many nodes of a set are ahead of a node. -/
noncomputable def ahead (r : α → α → Prop) (nodes : Finset α) (node : α) : Nat :=
  (nodes.filter fun other => TransGen r node other).card

open Classical in
theorem ahead_le_card (r : α → α → Prop) (nodes : Finset α) (node : α) :
    ahead r nodes node ≤ nodes.card :=
  Finset.card_filter_le _ _

open Classical in
/-- A step leaves the node that it goes to behind. -/
theorem ahead_lt
    (acyclic : Acyclic r) {nodes : Finset α} (step : r first second)
    (member : second ∈ nodes) : ahead r nodes second < ahead r nodes first := by
  rw [ahead, ahead]
  apply Finset.card_lt_card
  rw [Finset.ssubset_iff_of_subset]
  · refine ⟨second, ?_, ?_⟩
    · exact Finset.mem_filter.mpr ⟨member, TransGen.single step⟩
    · exact fun again => acyclic second (Finset.mem_filter.mp again).2
  · intro other further
    rw [Finset.mem_filter] at further ⊢
    exact ⟨further.1, TransGen.head step further.2⟩

end DSValue.Lib.Cycles
