import Mathlib.Data.Finset.Powerset
import Mathlib.Data.Finset.Prod
import Mathlib.Data.Nat.Choose.Basic

/-!
# Choices with a number of hits

The choices of a fixed size from a finite set that have a given number of
elements in common with another set.  Such a choice is one of the hits and one
of the misses, so the choices are counted by a product of binomials.
-/

namespace DSValue.Lib.Choices

variable {α β : Type*} [DecidableEq α] [DecidableEq β]

/-- The choices of a size with a number of elements of `lucky`. -/
def withHits (selected lucky : Finset α) (size hits : Nat) :
    Finset (Finset α) :=
  (selected.powersetCard size).filter fun choice =>
    (choice ∩ lucky).card = hits

theorem mem_withHits
    {selected lucky choice : Finset α} {size hits : Nat} :
    choice ∈ withHits selected lucky size hits ↔
      choice ⊆ selected ∧ choice.card = size ∧
        (choice ∩ lucky).card = hits := by
  rw [withHits, Finset.mem_filter, Finset.mem_powersetCard, and_assoc]

/-- The hits and the misses of a union of both. -/
theorem parts_of_union
    {lucky inner outer : Finset α}
    (inside : inner ⊆ lucky) (away : Disjoint outer lucky) :
    (inner ∪ outer) ∩ lucky = inner ∧ (inner ∪ outer) \ lucky = outer := by
  constructor
  · rw [Finset.union_inter_distrib_right, Finset.inter_eq_left.mpr inside,
      Finset.disjoint_iff_inter_eq_empty.mp away, Finset.union_empty]
  · rw [Finset.union_sdiff_distrib,
      Finset.sdiff_eq_empty_iff_subset.mpr inside, Finset.empty_union,
      Finset.sdiff_eq_self_of_disjoint away]

/-- A choice is a choice of hits and a choice of misses. -/
theorem card_withHits
    (selected lucky : Finset α) {size hits : Nat} (fits : hits ≤ size) :
    (withHits selected lucky size hits).card =
      (selected ∩ lucky).card.choose hits *
        (selected \ lucky).card.choose (size - hits) := by
  rw [← Finset.card_powersetCard, ← Finset.card_powersetCard,
    ← Finset.card_product]
  apply Finset.card_nbij' (fun choice => (choice ∩ lucky, choice \ lucky))
    (fun parts => parts.1 ∪ parts.2)
  · intro choice member
    rcases mem_withHits.mp (Finset.mem_coe.mp member) with
      ⟨inside, isSize, isHits⟩
    rw [Finset.mem_coe, Finset.mem_product, Finset.mem_powersetCard,
      Finset.mem_powersetCard]
    refine ⟨⟨Finset.inter_subset_inter_right inside, isHits⟩,
      Finset.sdiff_subset_sdiff inside le_rfl, ?_⟩
    rw [Finset.card_sdiff, Finset.inter_comm, isSize, isHits]
  · rintro ⟨inner, outer⟩ member
    simp only [Finset.mem_coe, Finset.mem_product, Finset.mem_powersetCard]
      at member
    rcases member with ⟨⟨innerInside, innerSize⟩, outerInside, outerSize⟩
    have innerLucky := innerInside.trans Finset.inter_subset_right
    have outerAway : Disjoint outer lucky :=
      Finset.disjoint_of_subset_left outerInside Finset.sdiff_disjoint
    rw [Finset.mem_coe, mem_withHits, (parts_of_union innerLucky outerAway).1,
      Finset.card_union_of_disjoint
        (Finset.disjoint_of_subset_left innerLucky outerAway.symm)]
    refine ⟨Finset.union_subset (innerInside.trans Finset.inter_subset_left)
      (outerInside.trans Finset.sdiff_subset), ?_, innerSize⟩
    omega
  · intro choice _
    exact sup_inf_sdiff choice lucky
  · rintro ⟨inner, outer⟩ member
    simp only [Finset.mem_coe, Finset.mem_product, Finset.mem_powersetCard]
      at member
    rcases member with ⟨⟨innerInside, -⟩, outerInside, -⟩
    have parts :=
      parts_of_union (innerInside.trans Finset.inter_subset_right)
        (Finset.disjoint_of_subset_left outerInside Finset.sdiff_disjoint)
    exact Prod.ext parts.1 parts.2

/-- Pairs of choices whose hits are in a list. -/
def pairsWithHits
    (first luckyFirst : Finset α) (second luckySecond : Finset β)
    (sizeFirst sizeSecond : Nat) (hits : List (Nat × Nat)) :
    Finset (Finset α × Finset β) :=
  (first.powersetCard sizeFirst ×ˢ second.powersetCard sizeSecond).filter
    fun pair =>
      ((pair.1 ∩ luckyFirst).card, (pair.2 ∩ luckySecond).card) ∈ hits

/-- Elements with a value in a list, value by value. -/
theorem card_filter_mem_cons
    (elements : Finset α) (value : α → Nat × Nat) {first : Nat × Nat}
    {rest : List (Nat × Nat)} (absent : first ∉ rest) :
    (elements.filter fun element => value element ∈ first :: rest).card =
      (elements.filter fun element => value element = first).card +
        (elements.filter fun element => value element ∈ rest).card := by
  rw [← Finset.card_union_of_disjoint]
  · congr 1
    ext element
    simp only [Finset.mem_filter, Finset.mem_union, List.mem_cons]
    tauto
  · rw [Finset.disjoint_filter]
    intro element _ isFirst
    rwa [isFirst]

theorem card_pairsWithHits_cons
    (first luckyFirst : Finset α) (second luckySecond : Finset β)
    (sizeFirst sizeSecond : Nat) {hits : Nat × Nat}
    {rest : List (Nat × Nat)} (absent : hits ∉ rest) :
    (pairsWithHits first luckyFirst second luckySecond sizeFirst sizeSecond
        (hits :: rest)).card =
      (withHits first luckyFirst sizeFirst hits.1).card *
          (withHits second luckySecond sizeSecond hits.2).card +
        (pairsWithHits first luckyFirst second luckySecond sizeFirst
          sizeSecond rest).card := by
  have split :=
    card_filter_mem_cons
      (first.powersetCard sizeFirst ×ˢ second.powersetCard sizeSecond)
      (fun pair =>
        ((pair.1 ∩ luckyFirst).card, (pair.2 ∩ luckySecond).card)) absent
  rw [pairsWithHits, split, pairsWithHits, ← Finset.card_product]
  congr 2
  ext pair
  simp only [withHits, Finset.mem_filter, Finset.mem_product, Prod.ext_iff]
  tauto

end DSValue.Lib.Choices
