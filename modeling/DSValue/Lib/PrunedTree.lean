import DSValue.Lib.Merkle

/-!
# Hash trees with marked leaves

A pruned tree keeps the leaves that are marked and, instead of every other
subtree, its hash alone.  Its nodes are written in depth-first order: a bit for
each node, which says whether a marked leaf is below it, and a value for each
leaf and each subtree that is cut off.
-/

namespace DSValue.Lib.PrunedTree

open DSValue.Lib.Merkle

variable {α : Type*}

inductive Pruned (α : Type*) where
  | leaf (value : α) (marked : Bool)
  | cut (value : α)
  | single (child : Pruned α)
  | node (left right : Pruned α)

namespace Pruned

/-- The hash of a pruned tree. -/
def root (hash : α → α → α) : Pruned α → α
  | leaf value _ => value
  | cut value => value
  | single child => hash (child.root hash) (child.root hash)
  | node left right => hash (left.root hash) (right.root hash)

def bits : Pruned α → List Bool
  | leaf _ marked => [marked]
  | cut _ => [false]
  | single child => true :: child.bits
  | node left right => true :: (left.bits ++ right.bits)

def values : Pruned α → List α
  | leaf value _ => [value]
  | cut value => [value]
  | single child => child.values
  | node left right => left.values ++ right.values

/-- The marked leaves. -/
def marked : Pruned α → List α
  | leaf value isMarked => if isMarked then [value] else []
  | cut _ => []
  | single child => child.marked
  | node left right => left.marked ++ right.marked

theorem length_values_le (tree : Pruned α) :
    tree.values.length ≤ tree.bits.length := by
  induction tree with
  | leaf value marked => exact Nat.le_refl 1
  | cut value => exact Nat.le_refl 1
  | single child inductionHypothesis => exact Nat.le_succ_of_le inductionHypothesis
  | node left right leftHypothesis rightHypothesis =>
      rw [values, bits, List.length_append, List.length_cons, List.length_append]
      omega

end Pruned

/-! ## Pruning the tree of a list -/

/-- The pruned tree below the node of a height at an index. -/
inductive Prunes (hash : α → α → α) (values : List α) (marks : List Bool) :
    Nat → Nat → Pruned α → Prop where
  | leaf {index : Nat} {value : α} {marked : Bool}
      (isValue : values[index]? = some value)
      (isMark : marks[index]? = some marked) :
      Prunes hash values marks 0 index (.leaf value marked)
  | cut {height index : Nat} {value : α}
      (isValue : (row hash values (height + 1))[index]? = some value)
      (unmarked : true ∉ leavesBelow marks (height + 1) index) :
      Prunes hash values marks (height + 1) index (.cut value)
  | single {height index : Nat} {child : Pruned α}
      (isMarked : true ∈ leavesBelow marks (height + 1) index)
      (last : ¬ 2 * index + 1 < width values.length height)
      (isChild : Prunes hash values marks height (2 * index) child) :
      Prunes hash values marks (height + 1) index (.single child)
  | node {height index : Nat} {left right : Pruned α}
      (isMarked : true ∈ leavesBelow marks (height + 1) index)
      (inside : 2 * index + 1 < width values.length height)
      (isLeft : Prunes hash values marks height (2 * index) left)
      (isRight : Prunes hash values marks height (2 * index + 1) right) :
      Prunes hash values marks (height + 1) index (.node left right)

variable {hash : α → α → α} {values : List α} {marks : List Bool}
  {height index : Nat} {tree : Pruned α}

theorem exists_prunes
    (lengths : marks.length = values.length)
    (inside : index < width values.length height) :
    ∃ tree, Prunes hash values marks height index tree := by
  induction height generalizing index with
  | zero =>
      rw [width_zero] at inside
      exact ⟨_, .leaf (List.getElem?_eq_getElem inside)
        (List.getElem?_eq_getElem (lengths ▸ inside))⟩
  | succ height inductionHypothesis =>
      have isLeft : 2 * index < width values.length height := by
        rw [width_succ] at inside
        omega
      by_cases isMarked : true ∈ leavesBelow marks (height + 1) index
      · rcases inductionHypothesis isLeft with ⟨left, pruned⟩
        by_cases isRight : 2 * index + 1 < width values.length height
        · rcases inductionHypothesis isRight with ⟨right, rightPruned⟩
          exact ⟨_, .node isMarked isRight pruned rightPruned⟩
        · exact ⟨_, .single isMarked isRight pruned⟩
      · rw [← length_row hash] at inside
        exact ⟨_, .cut (List.getElem?_eq_getElem inside) isMarked⟩

/-- Pruning does not change the hashes. -/
theorem Prunes.root_eq (prunes : Prunes hash values marks height index tree) :
    (row hash values height)[index]? = some (tree.root hash) := by
  induction prunes with
  | leaf isValue isMark => exact isValue
  | cut isValue unmarked => exact isValue
  | @single height index child isMarked last isChild inductionHypothesis =>
      have inside := (List.getElem?_eq_some_iff.mp inductionHypothesis).1
      rw [row]
      refine getElem?_parents inductionHypothesis ?_
      rw [← length_row hash] at last
      rw [show min (2 * index + 1) ((row hash values height).length - 1) =
        2 * index by omega]
      exact inductionHypothesis
  | @node height index left right isMarked inside isLeft isRight leftHypothesis
      rightHypothesis =>
      rw [row]
      refine getElem?_parents leftHypothesis ?_
      rw [← length_row hash] at inside
      rw [show min (2 * index + 1) ((row hash values height).length - 1) =
        2 * index + 1 by omega]
      exact rightHypothesis

/-- The values that have a mark. -/
def markedValues (marks : List (α × Bool)) : List α :=
  (marks.filter Prod.snd).map Prod.fst

theorem markedValues_append (first second : List (α × Bool)) :
    markedValues (first ++ second) =
      markedValues first ++ markedValues second := by
  rw [markedValues, List.filter_append, List.map_append]
  rfl

theorem map_snd_leavesBelow
    (lengths : marks.length = values.length) (height index : Nat) :
    (leavesBelow (values.zip marks) height index).map Prod.snd =
      leavesBelow marks height index := by
  rw [leavesBelow, List.map_take, List.map_drop,
    List.map_snd_zip lengths.le, leavesBelow]

theorem length_marks
    (lengths : marks.length = values.length) :
    (values.zip marks).length = values.length := by
  rw [List.length_zip, lengths, Nat.min_self]

/-- The marked leaves are the marked values below the node, in their order. -/
theorem Prunes.marked_eq
    (prunes : Prunes hash values marks height index tree)
    (lengths : marks.length = values.length) :
    tree.marked = markedValues (leavesBelow (values.zip marks) height index) := by
  induction prunes with
  | @leaf index value marked isValue isMark =>
      have both : (values.zip marks)[index]? = some (value, marked) := by
        rw [List.getElem?_zip_eq_some]
        exact ⟨isValue, isMark⟩
      rw [leavesBelow_zero both]
      cases marked <;> rfl
  | @cut height index value isValue unmarked =>
      rw [← map_snd_leavesBelow lengths] at unmarked
      rw [Pruned.marked, markedValues, List.filter_eq_nil_iff.mpr, List.map_nil]
      intro pair member isMarked
      rw [← isMarked] at unmarked
      exact unmarked (List.mem_map_of_mem member)
  | @single height index child isMarked last isChild inductionHypothesis =>
      rw [← length_marks lengths] at last
      rw [Pruned.marked, inductionHypothesis, leavesBelow_succ, leavesBelow_eq_nil last,
        List.append_nil]
  | node isMarked inside isLeft isRight leftHypothesis rightHypothesis =>
      rw [Pruned.marked, leftHypothesis, rightHypothesis, leavesBelow_succ,
        markedValues_append]

/-- A pruned tree has no more values than the node has leaves. -/
theorem Prunes.length_values_le
    (prunes : Prunes hash values marks height index tree) :
    tree.values.length ≤ (leavesBelow values height index).length := by
  induction prunes with
  | leaf isValue isMark =>
      rw [leavesBelow_zero isValue]
      rfl
  | @cut height index value isValue unmarked =>
      have inside := (List.getElem?_eq_some_iff.mp isValue).1
      rw [length_row, lt_width_iff] at inside
      have positive := Nat.two_pow_pos (height + 1)
      rw [Pruned.values, leavesBelow, List.length_take, List.length_drop,
        List.length_singleton]
      omega
  | single isMarked last isChild inductionHypothesis =>
      rw [leavesBelow_succ, List.length_append]
      exact Nat.le_add_right_of_le inductionHypothesis
  | node isMarked inside isLeft isRight leftHypothesis rightHypothesis =>
      rw [leavesBelow_succ, List.length_append, Pruned.values, List.length_append]
      omega

theorem Prunes.length_bits_lt
    (prunes : Prunes hash values marks height index tree) :
    tree.bits.length < 2 ^ (height + 1) := by
  induction prunes with
  | leaf isValue isMark => exact Nat.one_lt_two
  | @cut height index value isValue unmarked =>
      exact Nat.one_lt_two_pow (by omega)
  | @single height index child isMarked last isChild inductionHypothesis =>
      rw [Pruned.bits, List.length_cons, Nat.pow_succ]
      omega
  | @node height index left right isMarked inside isLeft isRight leftHypothesis
      rightHypothesis =>
      rw [Pruned.bits, List.length_cons, List.length_append, Nat.pow_succ]
      omega

end DSValue.Lib.PrunedTree
