import Mathlib.Logic.Equiv.List
import Mathlib.Order.Basic

/-!
# Lineages

A node of a tree together with the path that leads to it from the root.  A
pointer into a block tree whose nodes never change is a lineage: following
the parent pointer takes the path without its last item, and two pointers are
equal when their paths are.
-/

namespace DSValue.Lib

/-- A node of a tree, as the path from the root. -/
inductive Lineage (α : Type*) where
  | root (item : α)
  | child (pprev : Lineage α) (item : α)
deriving DecidableEq

namespace Lineage

variable {α : Type*}

def item : Lineage α → α
  | root item => item
  | child _ item => item

def pprev? : Lineage α → Option (Lineage α)
  | root _ => none
  | child pprev _ => some pprev

def height : Lineage α → Nat
  | root _ => 0
  | child pprev _ => pprev.height + 1

/-- The ancestor some steps back. -/
def walk : Nat → Lineage α → Option (Lineage α)
  | 0, node => some node
  | _ + 1, root _ => none
  | steps + 1, child pprev _ => walk steps pprev

/-- The ancestor of a given height. -/
def at? : Lineage α → Nat → Option (Lineage α)
  | root item, height => if height = 0 then some (root item) else none
  | child pprev item, height =>
      if height = pprev.height + 1 then some (child pprev item)
      else pprev.at? height

@[simp]
theorem height_root (item : α) : (root item).height = 0 := rfl

@[simp]
theorem height_child (pprev : Lineage α) (item : α) :
    (child pprev item).height = pprev.height + 1 := rfl

theorem walk_isSome
    {steps : Nat} {node : Lineage α} (enough : steps ≤ node.height) :
    ∃ ancestor, node.walk steps = some ancestor := by
  induction steps generalizing node with
  | zero => exact ⟨node, rfl⟩
  | succ steps inductionHypothesis =>
      cases node with
      | root item => simp at enough
      | child pprev item =>
          rw [height_child] at enough
          exact inductionHypothesis (by omega)

theorem at?_height
    {node ancestor : Lineage α} {height : Nat}
    (found : node.at? height = some ancestor) :
    ancestor.height = height ∧ height ≤ node.height := by
  induction node with
  | root item =>
      rw [at?] at found
      split_ifs at found with isRoot
      cases found
      exact ⟨isRoot.symm, by simp [isRoot]⟩
  | child pprev item inductionHypothesis =>
      rw [at?] at found
      split_ifs at found with isTop
      · cases found
        exact ⟨isTop.symm, by simp [isTop]⟩
      · have below := inductionHypothesis found
        rw [height_child]
        omega

theorem at?_self (node : Lineage α) : node.at? node.height = some node := by
  cases node with
  | root item => simp [at?]
  | child pprev item => simp [at?]

theorem at?_child_of_le
    {pprev : Lineage α} {item : α} {height : Nat}
    (below : height ≤ pprev.height) :
    (child pprev item).at? height = pprev.at? height := by
  rw [at?, if_neg (by omega)]

theorem at?_isSome
    {node : Lineage α} {height : Nat} (inside : height ≤ node.height) :
    ∃ ancestor, node.at? height = some ancestor := by
  induction node with
  | root item =>
      rw [height_root, Nat.le_zero] at inside
      exact ⟨root item, by rw [at?, if_pos inside]⟩
  | child pprev item inductionHypothesis =>
      by_cases isTop : height = pprev.height + 1
      · exact ⟨child pprev item, by rw [at?, if_pos isTop]⟩
      · rw [height_child] at inside
        rw [at?, if_neg isTop]
        exact inductionHypothesis (by omega)

/-- The ancestors of an ancestor are ancestors. -/
theorem at?_of_at?
    {node ancestor : Lineage α} {height below : Nat}
    (found : node.at? height = some ancestor) (lower : below ≤ height) :
    ancestor.at? below = node.at? below := by
  induction node with
  | root item =>
      rw [at?] at found
      split_ifs at found
      cases found
      rfl
  | child pprev item inductionHypothesis =>
      rw [at?] at found
      split_ifs at found with isTop
      · cases found
        rfl
      · have inside := (at?_height found).2
        rw [inductionHypothesis found, at?_child_of_le (by omega)]

/-- The parent of the ancestor of a height is the ancestor below it. -/
theorem pprev?_of_at?
    {node ancestor : Lineage α} {height : Nat}
    (found : node.at? (height + 1) = some ancestor) :
    ancestor.pprev? = node.at? height := by
  induction node with
  | root item => simp [at?] at found
  | child pprev item inductionHypothesis =>
      rw [at?] at found
      split_ifs at found with isTop
      · cases found
        rw [pprev?, at?_child_of_le (by omega), Nat.succ_inj.mp isTop,
          at?_self]
      · have below := (at?_height found).2
        rw [inductionHypothesis found, at?_child_of_le (by omega)]

theorem eq_child_of_pprev?
    {node pprev : Lineage α} (found : node.pprev? = some pprev) :
    ∃ item, node = child pprev item := by
  cases node with
  | root item => cases found
  | child parent item =>
      cases found
      exact ⟨item, rfl⟩

/-- Walking back and looking up by height agree. -/
theorem walk_eq_at?
    {steps : Nat} {node : Lineage α} (enough : steps ≤ node.height) :
    node.walk steps = node.at? (node.height - steps) := by
  induction steps generalizing node with
  | zero => rw [walk, Nat.sub_zero, at?_self]
  | succ steps inductionHypothesis =>
      cases node with
      | root item => simp at enough
      | child pprev item =>
          rw [height_child] at enough
          rw [walk, inductionHypothesis (by omega), height_child,
            at?_child_of_le (by omega)]
          congr 1
          omega

/-! ## The order of ancestors -/

/-- A node lies on the path that leads to another one. -/
instance : LE (Lineage α) where
  le ancestor node := node.at? ancestor.height = some ancestor

instance [DecidableEq α] : DecidableLE (Lineage α) := fun ancestor node =>
  inferInstanceAs (Decidable (node.at? ancestor.height = some ancestor))

theorem le_iff_at? {ancestor node : Lineage α} :
    ancestor ≤ node ↔ node.at? ancestor.height = some ancestor :=
  Iff.rfl

theorem height_le_of_le {ancestor node : Lineage α} (below : ancestor ≤ node) :
    ancestor.height ≤ node.height :=
  (at?_height below).2

@[simp]
theorem le_root_iff {ancestor : Lineage α} {item : α} :
    ancestor ≤ root item ↔ ancestor = root item := by
  rw [le_iff_at?, at?]
  constructor
  · intro found
    split_ifs at found
    exact (Option.some.inj found).symm
  · rintro rfl
    simp

theorem le_child_iff {ancestor pprev : Lineage α} {item : α} :
    ancestor ≤ child pprev item ↔
      ancestor = child pprev item ∨ ancestor ≤ pprev := by
  rw [le_iff_at?, at?]
  constructor
  · intro found
    split_ifs at found
    · exact Or.inl (Option.some.inj found).symm
    · exact Or.inr found
  · rintro (rfl | below)
    · simp
    · have lower := height_le_of_le below
      rw [if_neg (by omega)]
      exact below

instance : PartialOrder (Lineage α) where
  le_refl node := at?_self node
  le_trans first second third lower upper := by
    have height := height_le_of_le lower
    rw [le_iff_at?, ← at?_of_at? upper height]
    exact lower
  le_antisymm first second lower upper := by
    have equal :=
      Nat.le_antisymm (height_le_of_le lower) (height_le_of_le upper)
    rw [le_iff_at?, equal, at?_self] at lower
    exact (Option.some.inj lower).symm

instance [DecidableEq α] : DecidableLT (Lineage α) := fun ancestor node =>
  decidable_of_iff (ancestor ≤ node ∧ ancestor ≠ node) lt_iff_le_and_ne.symm

theorem le_child (pprev : Lineage α) (item : α) : pprev ≤ child pprev item :=
  le_child_iff.mpr (Or.inr le_rfl)

theorem not_child_le (pprev : Lineage α) (item : α) :
    ¬ child pprev item ≤ pprev := by
  intro above
  have height := height_le_of_le above
  rw [height_child] at height
  omega

/-- The nodes on one path are comparable. -/
theorem le_total_of_le
    {first second node : Lineage α}
    (firstBelow : first ≤ node) (secondBelow : second ≤ node) :
    first ≤ second ∨ second ≤ first := by
  induction node with
  | root item =>
      rw [le_root_iff.mp firstBelow, le_root_iff.mp secondBelow]
      exact Or.inl le_rfl
  | child pprev item inductionHypothesis =>
      rcases le_child_iff.mp firstBelow with rfl | firstLower
      · exact Or.inr secondBelow
      · rcases le_child_iff.mp secondBelow with rfl | secondLower
        · exact Or.inl firstBelow
        · exact inductionHypothesis firstLower secondLower

/-- What lies strictly below a child lies below its parent. -/
theorem lt_child_iff {ancestor pprev : Lineage α} {item : α} :
    ancestor < child pprev item ↔ ancestor ≤ pprev := by
  constructor
  · intro below
    rcases le_child_iff.mp below.le with equal | lower
    · exact absurd equal below.ne
    · exact lower
  · intro lower
    refine lt_of_le_of_ne (lower.trans (le_child pprev item)) ?_
    rintro rfl
    exact not_child_le pprev item lower

theorem eq_of_le_of_height_le
    {ancestor node : Lineage α} (below : ancestor ≤ node)
    (high : node.height ≤ ancestor.height) : ancestor = node := by
  have found := le_iff_at?.mp below
  rw [Nat.le_antisymm (height_le_of_le below) high, at?_self] at found
  exact (Option.some.inj found).symm

theorem height_lt_of_lt {ancestor node : Lineage α} (below : ancestor < node) :
    ancestor.height < node.height := by
  by_contra short
  exact below.ne (eq_of_le_of_height_le below.le (not_lt.mp short))

theorem le_of_at?
    {ancestor node : Lineage α} {height : Nat}
    (found : node.at? height = some ancestor) : ancestor ≤ node := by
  rw [le_iff_at?, (at?_height found).1]
  exact found

/-- The node on a path above one that is not its end. -/
theorem at?_succ_of_lt {ancestor node : Lineage α} (below : ancestor < node) :
    ∃ item, node.at? (ancestor.height + 1) = some (child ancestor item) ∧
      child ancestor item ≤ node := by
  have higher : ancestor.height + 1 ≤ node.height := height_lt_of_lt below
  rcases at?_isSome higher with ⟨next, found⟩
  have parent : next.pprev? = some ancestor := by
    rw [pprev?_of_at? found]
    exact below.le
  rcases eq_child_of_pprev? parent with ⟨item, rfl⟩
  exact ⟨item, found, le_of_at? found⟩

/-! ## The items of a lineage -/

/-- The items of the path, from the node to the root. -/
def items : Lineage α → List α
  | root item => [item]
  | child pprev item => item :: pprev.items

theorem items_ne_nil (node : Lineage α) : node.items ≠ [] := by
  cases node <;> simp [items]

/-- The item of an ancestor stands in the list at its distance. -/
theorem getElem?_items_of_at?
    {node ancestor : Lineage α} {height : Nat}
    (found : node.at? height = some ancestor) :
    node.items[node.height - height]? = some ancestor.item := by
  induction node with
  | root item =>
      rw [at?] at found
      split_ifs at found
      cases found
      simp [items, Lineage.item]
  | child pprev item inductionHypothesis =>
      rw [at?] at found
      split_ifs at found with isTop
      · cases found
        simp [items, Lineage.item, isTop]
      · have inside := (at?_height found).2
        rw [height_child, Nat.succ_sub inside, items,
          List.getElem?_cons_succ]
        exact inductionHypothesis found

/-- Ancestors of different heights have different items when all differ. -/
theorem height_inj_of_nodup
    {node first second : Lineage α} {lower upper : Nat}
    (distinct : node.items.Nodup)
    (foundFirst : node.at? lower = some first)
    (foundSecond : node.at? upper = some second)
    (same : first.item = second.item) : lower = upper := by
  have inFirst := (at?_height foundFirst).2
  have inSecond := (at?_height foundSecond).2
  rcases List.getElem?_eq_some_iff.mp (getElem?_items_of_at? foundFirst) with
    ⟨firstInside, isFirst⟩
  rcases List.getElem?_eq_some_iff.mp (getElem?_items_of_at? foundSecond) with
    ⟨secondInside, isSecond⟩
  have index :=
    distinct.getElem_inj_iff.mp (isFirst.trans (same.trans isSecond.symm))
  omega

theorem items_injective : Function.Injective (items : Lineage α → List α) := by
  intro first
  induction first with
  | root item =>
      intro second same
      cases second with
      | root other =>
          cases same
          rfl
      | child pprev other =>
          rw [items, items, List.cons.injEq] at same
          exact absurd same.2.symm pprev.items_ne_nil
  | child pprev item inductionHypothesis =>
      intro second same
      cases second with
      | root other =>
          rw [items, items, List.cons.injEq] at same
          exact absurd same.2 pprev.items_ne_nil
      | child otherPprev other =>
          rw [items, items, List.cons.injEq] at same
          rw [same.1, inductionHypothesis same.2]

instance countable [Countable α] : Countable (Lineage α) :=
  items_injective.countable

end Lineage

end DSValue.Lib
