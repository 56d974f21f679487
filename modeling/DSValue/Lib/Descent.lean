import DSValue.Lib.Lineage
import Mathlib.Data.List.Basic

/-!
# Walking back along labels

A pointer goes back over the nodes that carry a label, and does so for one
label after the other.  When the labels descend, it gets past exactly those
nodes to which labels can be given that do not decrease along the path.
-/

namespace DSValue.Lib.Descent

variable {α κ : Type*} {carries : Lineage α → κ → Bool} {label : κ}
  {labels : List κ} {node stop : Lineage α} {inside : Lineage α → Prop}

/-- The first node on the way back that does not carry a label. -/
def skip (carries : Lineage α → κ → Bool) (label : κ) :
    Lineage α → Option (Lineage α)
  | .root item =>
      if carries (.root item) label then none else some (.root item)
  | .child pprev item =>
      if carries (.child pprev item) label then skip carries label pprev
      else some (.child pprev item)

/-- The node where the walk along some labels ends. -/
def descend (carries : Lineage α → κ → Bool) (labels : List κ)
    (node : Lineage α) : Option (Lineage α) :=
  labels.foldlM (fun current label => skip carries label current) node

/-- What lies behind the stop of one label carries the label. -/
structure Stops
    (carries : Lineage α → κ → Bool) (label : κ) (node stop : Lineage α) :
    Prop where
  below : stop ≤ node
  free : carries stop label = false
  skipped : ∀ pindex ≤ node, ¬ pindex ≤ stop → carries pindex label = true

theorem skip_eq_some (found : skip carries label node = some stop) :
    Stops carries label node stop := by
  induction node with
  | root item =>
      rw [skip] at found
      split_ifs at found with carried
      cases found
      exact ⟨le_rfl, by simpa using carried, fun _ below above =>
        absurd below above⟩
  | child pprev item inductionHypothesis =>
      rw [skip] at found
      split_ifs at found with carried
      · rcases inductionHypothesis found with ⟨below, free, skipped⟩
        refine ⟨below.trans (Lineage.le_child pprev item), free, ?_⟩
        intro pindex under above
        rcases Lineage.le_child_iff.mp under with rfl | lower
        · exact carried
        · exact skipped pindex lower above
      · cases found
        exact ⟨le_rfl, by simpa using carried, fun _ below above =>
          absurd below above⟩

theorem skip_eq_none (found : skip carries label node = none) :
    ∀ pindex ≤ node, carries pindex label = true := by
  induction node with
  | root item =>
      intro pindex below
      rw [skip] at found
      split_ifs at found with carried
      rw [Lineage.le_root_iff.mp below]
      exact carried
  | child pprev item inductionHypothesis =>
      intro pindex below
      rw [skip] at found
      split_ifs at found with carried
      rcases Lineage.le_child_iff.mp below with rfl | lower
      · exact carried
      · exact inductionHypothesis found pindex lower

theorem descend_le (found : descend carries labels node = some stop) :
    stop ≤ node := by
  induction labels generalizing node with
  | nil =>
      cases found
      exact le_rfl
  | cons label rest inductionHypothesis =>
      rw [descend, List.foldlM_cons] at found
      rcases Option.bind_eq_some_iff.mp found with ⟨middle, first, later⟩
      exact (inductionHypothesis later).trans (skip_eq_some first).below

/-- Labels can be given to the nodes inside that do not decrease. -/
def Labelled [Preorder κ]
    (carries : Lineage α → κ → Bool) (labels : List κ) (node : Lineage α)
    (inside : Lineage α → Prop) : Prop :=
  ∃ labelOf : Lineage α → κ,
    (∀ pindex ≤ node, inside pindex →
      labelOf pindex ∈ labels ∧ carries pindex (labelOf pindex) = true) ∧
    ∀ earlier later, inside earlier → earlier ≤ later → later ≤ node →
      labelOf earlier ≤ labelOf later

variable [Preorder κ]
  (upward :
    ∀ earlier later, inside earlier → earlier ≤ later → inside later)

include upward

/-- A walk along descending labels gets past every node with a label. -/
theorem Labelled.not_inside
    (labelled : Labelled carries labels node inside)
    (descending : labels.Pairwise (· > ·))
    (found : descend carries labels node = some stop) : ¬ inside stop := by
  intro reached
  rcases labelled with ⟨labelOf, labels_of, increasing⟩
  induction labels generalizing node with
  | nil =>
      cases found
      cases (labels_of stop le_rfl reached).1
  | cons label rest inductionHypothesis =>
      rw [descend, List.foldlM_cons] at found
      rcases Option.bind_eq_some_iff.mp found with ⟨middle, first, later⟩
      rcases List.pairwise_cons.mp descending with ⟨lower, descends⟩
      have stops := skip_eq_some first
      have inMiddle := upward stop middle reached (descend_le later)
      have middleLabel := labels_of middle stops.below inMiddle
      have inRest : labelOf middle ∈ rest := by
        rcases List.mem_cons.mp middleLabel.1 with same | member
        · rw [same, stops.free] at middleLabel
          cases middleLabel.2
        · exact member
      refine inductionHypothesis descends later ?_ ?_
      · intro pindex below isInside
        have carried := labels_of pindex (below.trans stops.below) isInside
        refine ⟨?_, carried.2⟩
        rcases List.mem_cons.mp carried.1 with same | member
        · have bound := increasing pindex middle isInside below stops.below
          rw [same] at bound
          exact absurd (lower _ inRest) (not_lt_of_ge bound)
        · exact member
      · intro earlier final isInside order below
        exact increasing earlier final isInside order (below.trans stops.below)

open scoped Classical in
/-- What a walk gets past can be labelled. -/
theorem labelled_of_descend [Inhabited κ]
    (descending : labels.Pairwise (· > ·))
    (outside :
      ∀ stop, descend carries labels node = some stop → ¬ inside stop) :
    Labelled carries labels node inside := by
  induction labels generalizing node with
  | nil =>
      refine ⟨fun _ => default, ?_, fun _ _ _ _ _ => le_rfl⟩
      intro pindex below isInside
      exact absurd (upward pindex node isInside below) (outside node rfl)
  | cons label rest inductionHypothesis =>
      rcases List.pairwise_cons.mp descending with ⟨lower, descends⟩
      cases first : skip carries label node with
      | none =>
          refine ⟨fun _ => label, ?_, fun _ _ _ _ _ => le_rfl⟩
          intro pindex below _
          exact ⟨List.mem_cons_self, skip_eq_none first pindex below⟩
      | some middle =>
          have stops := skip_eq_some first
          have later :
              ∀ stop, descend carries rest middle = some stop →
                ¬ inside stop := by
            intro stop found
            apply outside stop
            rw [descend, List.foldlM_cons, first]
            exact found
          rcases inductionHypothesis descends later with
            ⟨labelOf, labels_of, increasing⟩
          refine ⟨fun pindex =>
            if pindex ≤ middle then labelOf pindex else label, ?_, ?_⟩
          · intro pindex below isInside
            dsimp only
            split_ifs with under
            · rcases labels_of pindex under isInside with ⟨member, carried⟩
              exact ⟨List.mem_cons_of_mem _ member, carried⟩
            · exact ⟨List.mem_cons_self, stops.skipped pindex below under⟩
          · intro earlier final isInside order below
            dsimp only
            split_ifs with under above above
            · exact increasing earlier final isInside order above
            · exact (lower _ (labels_of earlier under isInside).1).le
            · exact absurd (order.trans above) under
            · exact le_rfl

/-- A walk along descending labels gets past what can be labelled. -/
theorem labelled_iff [Inhabited κ]
    (descending : labels.Pairwise (· > ·)) :
    Labelled carries labels node inside ↔
      ∀ stop, descend carries labels node = some stop → ¬ inside stop :=
  ⟨fun labelled _ found => labelled.not_inside upward descending found,
    labelled_of_descend upward descending⟩

end DSValue.Lib.Descent
