import DSValue.Chain.Locator

/-!
# The vector of an active chain

`CChain` keeps the indexes of the active chain in a vector by height, and
`SetTip` rewrites it from the new tip down to the first entry that is already
right.  The entries below are right because every earlier call has left the
whole path to its tip, so the vector is a function of the last tip alone, also
for a chain whose first block has a positive height.
-/

namespace DSValue.Chain.VectorChain

open DSValue.Lib
open DSValue.Chain.Locator

variable {α : Type}

/-! ## The vector -/

/-- `CChain`. -/
structure CChain (α : Type) where
  vChain : List (Option (Lineage α))
deriving DecidableEq

/-- `std::vector::resize`, with null pointers for new entries. -/
def resize (vChain : List (Option (Lineage α))) (size : Nat) :
    List (Option (Lineage α)) :=
  vChain.take size ++ List.replicate (size - vChain.length) none

/-- `CChain::Genesis`. -/
def CChain.genesis (chain : CChain α) : Option (Lineage α) :=
  chain.vChain.head?.join

/-- `CChain::Tip`. -/
def CChain.tip (chain : CChain α) : Option (Lineage α) :=
  chain.vChain.getLast?.join

/-- `CChain::operator[]`. -/
def CChain.atHeight (chain : CChain α) (nHeight : Int) : Option (Lineage α) :=
  if nHeight < 0 ∨ chain.vChain.length ≤ nHeight then none
  else chain.vChain[nHeight.toNat]?.join

/-- `CChain::Height`. -/
def CChain.height (chain : CChain α) : Int :=
  chain.vChain.length - 1

variable [DecidableEq α]

/-- `CChain::Contains`, above a first block of some height. -/
def CChain.contains (chain : CChain α) (base : Nat) (pindex : Lineage α) :
    Bool :=
  chain.atHeight (nHeight base pindex) = some pindex

/-- `CChain::Next`. -/
def CChain.next (chain : CChain α) (base : Nat) (pindex : Lineage α) :
    Option (Lineage α) :=
  if chain.contains base pindex then
    chain.atHeight (nHeight base pindex + 1 : Nat)
  else none

/-- The loop of `SetTip`, with the vector and the pointer that it ends with. -/
def writeDown (base : Nat) :
    Lineage α → List (Option (Lineage α)) →
      List (Option (Lineage α)) × Option (Lineage α)
  | .root item, vChain =>
      if vChain[nHeight base (.root item)]? = some (some (.root item)) then
        (vChain, some (.root item))
      else
        (vChain.set (nHeight base (.root item)) (some (.root item)), none)
  | .child pprev item, vChain =>
      if vChain[nHeight base (.child pprev item)]? =
          some (some (.child pprev item)) then
        (vChain, some (.child pprev item))
      else
        writeDown base pprev
          (vChain.set (nHeight base (.child pprev item))
            (some (.child pprev item)))

/-- `CChain::SetTip`. -/
def CChain.setTip (chain : CChain α) (base : Nat) :
    Option (Lineage α) → CChain α × Option (Lineage α)
  | none => (⟨[]⟩, none)
  | some pindex =>
      let written :=
        writeDown base pindex (resize chain.vChain (nHeight base pindex + 1))
      (⟨written.1⟩, written.2)

/-- The states that calls of `SetTip` lead to. -/
inductive Reachable (base : Nat) : CChain α → Prop
  | empty : Reachable base ⟨[]⟩
  | setTip {chain : CChain α} (pindex : Option (Lineage α)) :
      Reachable base chain → Reachable base (chain.setTip base pindex).1

/-! ## The path to an index -/

omit [DecidableEq α] in
theorem nHeight_child (base : Nat) (pprev : Lineage α) (item : α) :
    nHeight base (.child pprev item) = nHeight base pprev + 1 := by
  rw [nHeight, nHeight, Lineage.height_child, Nat.add_assoc]

/-- The vector that holds exactly the path to an index. -/
def pathTo (base : Nat) : Lineage α → List (Option (Lineage α))
  | .root item => List.replicate base none ++ [some (.root item)]
  | .child pprev item => pathTo base pprev ++ [some (.child pprev item)]

variable {base : Nat} {node index : Lineage α} {chain : CChain α}
  {vChain : List (Option (Lineage α))}

section Path

omit [DecidableEq α]

@[simp]
theorem length_pathTo (base : Nat) (node : Lineage α) :
    (pathTo base node).length = nHeight base node + 1 := by
  induction node with
  | root item => simp [pathTo, nHeight]
  | child pprev item inductionHypothesis =>
      rw [pathTo, List.length_append, inductionHypothesis, nHeight_child,
        List.length_singleton]

/-- The entry of a height is the ancestor of that height. -/
theorem getElem?_pathTo (base : Nat) (node : Lineage α) {height : Nat}
    (inside : height ≤ nHeight base node) :
    (pathTo base node)[height]? =
      some (if height < base then none else node.at? (height - base)) := by
  induction node with
  | root item =>
      rw [nHeight, Lineage.height_root, Nat.add_zero] at inside
      rw [pathTo]
      rcases Nat.lt_or_eq_of_le inside with below | rfl
      · rw [List.getElem?_append_left (by simpa using below),
          List.getElem?_replicate_of_lt below, if_pos below]
      · simp [Lineage.at?]
  | child pprev item inductionHypothesis =>
      rw [nHeight_child] at inside
      rw [pathTo]
      rcases Nat.lt_or_eq_of_le inside with below | rfl
      · rw [List.getElem?_append_left (by rw [length_pathTo]; exact below),
          inductionHypothesis (Nat.le_of_lt_succ below)]
        split_ifs with low
        · rfl
        · rw [Lineage.at?_child_of_le]
          rw [nHeight] at below
          omega
      · rw [List.getElem?_append_right (by rw [length_pathTo]),
          length_pathTo, Nat.sub_self, if_neg (by rw [nHeight]; omega),
          show nHeight base pprev + 1 - base = pprev.height + 1 by
            rw [nHeight]; omega,
          Lineage.at?, if_pos rfl]
        rfl

theorem getElem?_pathTo_eq_some_iff :
    (pathTo base node)[nHeight base index]? = some (some index) ↔
      index ≤ node := by
  constructor
  · intro found
    have inside := (List.getElem?_eq_some_iff.mp found).1
    rw [length_pathTo] at inside
    rw [getElem?_pathTo base node (Nat.le_of_lt_succ inside), nHeight,
      if_neg (by omega), Nat.add_sub_cancel_left] at found
    exact Option.some.inj found
  · intro below
    have lower := Lineage.height_le_of_le below
    rw [getElem?_pathTo base node (by rw [nHeight, nHeight]; omega), nHeight,
      if_neg (by omega), Nat.add_sub_cancel_left]
    exact congrArg some below

/-- The path to an ancestor is an initial piece of the path. -/
theorem take_pathTo (below : index ≤ node) :
    (pathTo base node).take (nHeight base index + 1) = pathTo base index := by
  induction node with
  | root item =>
      rw [Lineage.le_root_iff.mp below, ← length_pathTo, List.take_length]
  | child pprev item inductionHypothesis =>
      rcases Lineage.le_child_iff.mp below with rfl | lower
      · rw [← length_pathTo, List.take_length]
      · have shorter := Lineage.height_le_of_le lower
        rw [pathTo, List.take_append_of_le_length, inductionHypothesis lower]
        rw [length_pathTo, nHeight, nHeight]
        omega

theorem take_base_pathTo (base : Nat) (node : Lineage α) :
    (pathTo base node).take base = List.replicate base none := by
  induction node with
  | root item =>
      rw [pathTo, List.take_append_of_le_length (by simp), List.take_of_length_le
        (by simp)]
  | child pprev item inductionHypothesis =>
      rw [pathTo, List.take_append_of_le_length, inductionHypothesis]
      rw [length_pathTo, nHeight]
      omega

/-! ## Vectors that are right below their entries -/

/-- An entry that is an index of its height stands on the path to it. -/
structure Grounded (base top : Nat) (vChain : List (Option (Lineage α))) :
    Prop where
  start : vChain.take base = List.replicate base none
  path :
    ∀ index, nHeight base index ≤ top →
      vChain[nHeight base index]? = some (some index) →
        vChain.take (nHeight base index + 1) = pathTo base index

theorem grounded_pathTo (base top : Nat) (node : Lineage α) :
    Grounded base top (pathTo base node) where
  start := take_base_pathTo base node
  path _ _ found := take_pathTo (getElem?_pathTo_eq_some_iff.mp found)

theorem length_resize (vChain : List (Option (Lineage α))) (size : Nat) :
    (resize vChain size).length = size := by
  rw [resize, List.length_append, List.length_take, List.length_replicate]
  omega

theorem getElem?_resize_eq_some
    {size height : Nat}
    (found : (resize vChain size)[height]? = some (some index)) :
    height < vChain.length ∧ height < size ∧
      vChain[height]? = some (some index) := by
  rw [resize] at found
  by_cases inside : height < (vChain.take size).length
  · rw [List.getElem?_append_left inside] at found
    rw [List.length_take] at inside
    rw [List.getElem?_take_of_lt (by omega)] at found
    exact ⟨by omega, by omega, found⟩
  · rw [List.getElem?_append_right (not_lt.mp inside)] at found
    have isNull :=
      List.eq_of_mem_replicate (List.mem_of_getElem? found)
    cases isNull

theorem take_resize
    {size kept : Nat} (shorter : kept ≤ size) (inside : kept ≤ vChain.length) :
    (resize vChain size).take kept = vChain.take kept := by
  rw [resize, List.take_append_of_le_length, List.take_take,
    Nat.min_eq_left shorter]
  rw [List.length_take]
  omega

/-- Shortening and filling up with null pointers keeps the entries right. -/
theorem Grounded.resize
    {top size : Nat} (grounded : Grounded base top vChain)
    (long : base ≤ vChain.length) (enough : base ≤ size) :
    Grounded base top (resize vChain size) where
  start := by rw [take_resize enough long, grounded.start]
  path index inside found := by
    have kept := getElem?_resize_eq_some found
    rw [take_resize kept.2.1 kept.1]
    exact grounded.path index inside kept.2.2

theorem grounded_resize_nil (base top size : Nat) (enough : base ≤ size) :
    Grounded base top (resize ([] : List (Option (Lineage α))) size) where
  start := by
    rw [VectorChain.resize, List.take_nil, List.nil_append, List.length_nil,
      Nat.sub_zero, List.take_replicate, Nat.min_eq_left enough]
  path index _ found := by
    have inside := (getElem?_resize_eq_some found).1
    simp at inside

/-- Writing the highest entry leaves the lower ones. -/
theorem Grounded.set
    {top : Nat} (grounded : Grounded base (top + 1) vChain)
    (above : base ≤ top) (entry : Option (Lineage α)) :
    Grounded base top (vChain.set (top + 1) entry) where
  start := by
    rw [List.take_set_of_le (by omega)]
    exact grounded.start
  path index inside found := by
    rw [List.getElem?_set_ne (by omega)] at found
    rw [List.take_set_of_le (by omega)]
    exact grounded.path index (by omega) found

end Path

/-! ## The loop -/

/-- The loop leaves the path to its index and nothing else changed. -/
theorem writeDown_eq
    (grounded : Grounded base (nHeight base node) vChain)
    (inside : nHeight base node < vChain.length) :
    (writeDown base node vChain).1 =
      pathTo base node ++ vChain.drop (nHeight base node + 1) := by
  induction node generalizing vChain with
  | root item =>
      rw [writeDown]
      split_ifs with right
      · rw [← grounded.path _ le_rfl right, List.take_append_drop]
      · rw [List.set_eq_take_append_cons_drop, if_pos inside, pathTo,
          show nHeight base (.root item) = base from rfl, grounded.start,
          List.append_assoc]
        rfl
  | child pprev item inductionHypothesis =>
      rw [writeDown]
      split_ifs with right
      · rw [← grounded.path _ le_rfl right, List.take_append_drop]
      · rw [nHeight_child] at *
        rw [inductionHypothesis
          (grounded.set (by rw [nHeight]; omega) _)
          (by rw [List.length_set]; omega),
          List.set_eq_take_append_cons_drop, if_pos inside,
          List.drop_append_of_le_length (by rw [List.length_take]; omega),
          List.drop_take, Nat.sub_self, List.take_zero, List.nil_append,
          pathTo, List.append_assoc]
        rfl

/-- The pointer at the end is the highest ancestor that the vector held. -/
theorem le_writeDown_iff
    (grounded : Grounded base (nHeight base node) vChain)
    (inside : nHeight base node < vChain.length) :
    (∃ fork, (writeDown base node vChain).2 = some fork ∧ index ≤ fork) ↔
      index ≤ node ∧ vChain[nHeight base index]? = some (some index) := by
  induction node generalizing vChain with
  | root item =>
      rw [writeDown, Lineage.le_root_iff]
      split_ifs with right
      · constructor
        · rintro ⟨fork, isFork, below⟩
          cases isFork
          rw [Lineage.le_root_iff.mp below]
          exact ⟨rfl, right⟩
        · rintro ⟨rfl, _⟩
          exact ⟨_, rfl, le_rfl⟩
      · constructor
        · rintro ⟨fork, isFork, _⟩
          cases isFork
        · rintro ⟨rfl, found⟩
          exact absurd found right
  | child pprev item inductionHypothesis =>
      rw [writeDown]
      split_ifs with right
      · constructor
        · rintro ⟨fork, isFork, below⟩
          cases isFork
          refine ⟨below, ?_⟩
          have held :=
            (@getElem?_pathTo_eq_some_iff _ base _ _).mpr below
          rw [← grounded.path _ le_rfl right,
            List.getElem?_take_of_lt (by
              have lower := Lineage.height_le_of_le below
              rw [nHeight, nHeight]
              omega)] at held
          exact held
        · rintro ⟨below, _⟩
          exact ⟨_, rfl, below⟩
      · rw [nHeight_child] at *
        rw [inductionHypothesis
          (grounded.set (by rw [nHeight]; omega) _)
          (by rw [List.length_set]; omega), Lineage.le_child_iff]
        constructor
        · rintro ⟨below, found⟩
          refine ⟨Or.inr below, ?_⟩
          have lower := Lineage.height_le_of_le below
          rw [List.getElem?_set_ne (by rw [nHeight, nHeight]; omega)] at found
          exact found
        · rintro ⟨rfl | below, found⟩
          · rw [nHeight_child] at found
            exact absurd found right
          · refine ⟨below, ?_⟩
            have lower := Lineage.height_le_of_le below
            rw [List.getElem?_set_ne (by rw [nHeight, nHeight]; omega)]
            exact found

/-! ## Calls of `SetTip` -/

/-- The vector of a chain with a tip. -/
def pathOf (base : Nat) : Option (Lineage α) → List (Option (Lineage α))
  | none => []
  | some tip => pathTo base tip

/-- The state holds exactly the path to one index. -/
def Represents (base : Nat) (chain : CChain α) (tip : Option (Lineage α)) :
    Prop :=
  chain.vChain = pathOf base tip

variable {tip : Option (Lineage α)}

omit [DecidableEq α] in
theorem Represents.grounded
    (represents : Represents base chain tip) (top : Nat) (node : Lineage α) :
    Grounded base top (resize chain.vChain (nHeight base node + 1)) := by
  rw [represents]
  cases tip with
  | none =>
      exact grounded_resize_nil base top _ (by rw [nHeight]; omega)
  | some index =>
      exact (grounded_pathTo base top index).resize
        (by rw [length_pathTo, nHeight]; omega) (by rw [nHeight]; omega)

/-- A call leaves the path to the new tip, whatever the old tip was. -/
theorem Represents.setTip
    (represents : Represents base chain tip) (pindex : Option (Lineage α)) :
    Represents base (chain.setTip base pindex).1 pindex := by
  cases pindex with
  | none => rfl
  | some node =>
      have long := length_resize chain.vChain (nHeight base node + 1)
      show (writeDown base node _).1 = _
      rw [writeDown_eq (represents.grounded _ node) (by omega),
        List.drop_of_length_le (by omega), List.append_nil]
      rfl

theorem Reachable.represents (reachable : Reachable base chain) :
    ∃ tip, Represents base chain tip := by
  induction reachable with
  | empty => exact ⟨none, rfl⟩
  | setTip pindex _ inductionHypothesis =>
      rcases inductionHypothesis with ⟨tip, represents⟩
      exact ⟨pindex, represents.setTip pindex⟩

/-! ## What a state says -/

section Reads

omit [DecidableEq α]

theorem Represents.tip_eq (represents : Represents base chain tip) :
    chain.tip = tip := by
  rw [CChain.tip, represents]
  cases tip with
  | none => rfl
  | some index => cases index <;> simp [pathOf, pathTo]

theorem Represents.getElem?
    (represents : Represents base chain tip) {height : Nat} :
    chain.vChain[height]?.join =
      if height < base then none else tip.bind fun tip =>
        tip.at? (height - base) := by
  rw [represents]
  cases tip with
  | none => simp [pathOf]
  | some node =>
      rw [pathOf, Option.bind_some]
      by_cases inside : height ≤ nHeight base node
      · rw [getElem?_pathTo base node inside]
        rfl
      · rw [List.getElem?_eq_none (by rw [length_pathTo]; omega),
          Option.join_none, if_neg (by rw [nHeight] at inside; omega)]
        cases isSome : node.at? (height - base) with
        | none => rfl
        | some index =>
            have bound := (Lineage.at?_height isSome).2
            rw [nHeight] at inside
            omega

theorem atHeight_natCast (chain : CChain α) (height : Nat) :
    chain.atHeight height = chain.vChain[height]?.join := by
  rw [CChain.atHeight]
  split_ifs with outside
  · rw [List.getElem?_eq_none (by omega), Option.join_none]
  · rw [Int.toNat_natCast]

/-- The entries are those that a chain with this tip has by height. -/
theorem Represents.atHeight
    (represents : Represents base chain tip) (height : Nat) :
    chain.atHeight height =
      if height < base then none else tip.bind fun tip =>
        tip.at? (height - base) := by
  rw [atHeight_natCast, represents.getElem?]

/-- Below the first block there is nothing. -/
theorem Represents.atHeight_pred_base
    (represents : Represents base chain tip) :
    chain.atHeight (base - 1 : Int) = none := by
  cases base with
  | zero => exact if_pos (Or.inl (by decide))
  | succ lower =>
      rw [show ((lower + 1 : Nat) : Int) - 1 = (lower : Nat) by omega,
        represents.atHeight, if_pos (Nat.lt_succ_self lower)]

/-- The chain that locators are made of reads the same entries. -/
theorem Represents.atHeight_eq
    {hash : α → Core.Serialize.Uint256} {genesis : Core.Serialize.Uint256}
    {active : Locator.CChain hash genesis}
    (represents : Represents base chain active.tip) (height : Nat) :
    chain.atHeight height = active.atHeight base height :=
  represents.atHeight height

end Reads

theorem Represents.contains_iff (represents : Represents base chain tip) :
    chain.contains base index = true ↔ ∃ top, tip = some top ∧ index ≤ top := by
  rw [CChain.contains, decide_eq_true_eq, represents.atHeight, nHeight,
    if_neg (by omega), Nat.add_sub_cancel_left, Option.bind_eq_some_iff]
  rfl

theorem Represents.next_iff
    (represents : Represents base chain tip) {child : Lineage α} :
    chain.next base index = some child ↔
      ∃ top, tip = some top ∧ child ≤ top ∧ child.pprev? = some index := by
  rw [CChain.next]
  constructor
  · intro isNext
    split_ifs at isNext with inside
    rcases represents.contains_iff.mp inside with ⟨top, isTip, below⟩
    rw [represents.atHeight, isTip, Option.bind_some, nHeight,
      if_neg (by omega),
      show base + index.height + 1 - base = index.height + 1 by omega] at isNext
    refine ⟨top, isTip, Lineage.le_of_at? isNext, ?_⟩
    rw [Lineage.pprev?_of_at? isNext]
    exact below
  · rintro ⟨top, isTip, below, parent⟩
    rcases Lineage.eq_child_of_pprev? parent with ⟨item, rfl⟩
    have inside : chain.contains base index = true :=
      represents.contains_iff.mpr
        ⟨top, isTip, (Lineage.le_child index item).trans below⟩
    rw [if_pos inside, represents.atHeight, isTip, Option.bind_some, nHeight,
      if_neg (by omega),
      show base + index.height + 1 - base = index.height + 1 by omega]
    exact below

omit [DecidableEq α] in
/-- Every entry from the first block on is the index of its height. -/
theorem Represents.entry
    (represents : Represents base chain tip) {height : Nat}
    (above : base ≤ height) (inside : height < chain.vChain.length) :
    ∃ index, chain.atHeight height = some index ∧
      nHeight base index = height ∧
      index.pprev? = chain.atHeight (height - 1 : Int) := by
  cases tip with
  | none =>
      rw [represents] at inside
      exact absurd inside (Nat.not_lt_zero _)
  | some top =>
      rw [represents, pathOf, length_pathTo, nHeight] at inside
      rcases Lineage.at?_isSome (show height - base ≤ top.height by omega) with
        ⟨index, found⟩
      have level := (Lineage.at?_height found).1
      have isEntry : chain.atHeight height = some index := by
        rw [represents.atHeight, if_neg (by omega)]
        exact found
      refine ⟨index, isEntry, by rw [nHeight]; omega, ?_⟩
      rcases Nat.lt_or_eq_of_le above with higher | rfl
      · rw [show (height : Int) - 1 = (height - 1 : Nat) by omega,
          represents.atHeight, if_neg (by omega), Option.bind_some,
          show height - 1 - base = height - base - 1 by omega]
        rw [show height - base = height - base - 1 + 1 by omega] at found
        exact Lineage.pprev?_of_at? found
      · rw [represents.atHeight_pred_base]
        rw [Nat.sub_self] at level
        cases index with
        | root item => rfl
        | child pprev item => cases level

/-- The pointer of a call is the fork: what lies below it, both tips share. -/
theorem Represents.le_setTip_iff
    (represents : Represents base chain tip) :
    (∃ fork, (chain.setTip base (some node)).2 = some fork ∧ index ≤ fork) ↔
      index ≤ node ∧ chain.contains base index = true := by
  have long := length_resize chain.vChain (nHeight base node + 1)
  rw [CChain.setTip]
  show (∃ fork, (writeDown base node _).2 = some fork ∧ _) ↔ _
  rw [le_writeDown_iff (represents.grounded _ node) (by omega),
    CChain.contains, decide_eq_true_eq, atHeight_natCast,
    Option.join_eq_some_iff]
  refine and_congr_right fun below => ⟨?_, ?_⟩
  · exact fun found => (getElem?_resize_eq_some found).2.2
  · intro found
    have lower := Lineage.height_le_of_le below
    have inside := (List.getElem?_eq_some_iff.mp found).1
    rw [resize, List.getElem?_append_left, List.getElem?_take_of_lt]
    · exact found
    · rw [nHeight, nHeight]
      omega
    · rw [List.length_take, nHeight, nHeight] at *
      omega

/--
After any calls of `SetTip`, every entry from the first block on has the
height of its place and the entry before it as parent, `Contains` holds of the
ancestors of the tip, `Next` is the child on the path to the tip, and a call
leaves what it would have left had it written every entry.
-/
theorem reachable_path (reachable : Reachable base chain) :
    (∀ height, base ≤ height → height < chain.vChain.length →
      ∃ index, chain.atHeight height = some index ∧
        nHeight base index = height ∧
        index.pprev? = chain.atHeight (height - 1 : Int)) ∧
    (∀ index, chain.contains base index = true ↔
      ∃ tip, chain.tip = some tip ∧ index ≤ tip) ∧
    (∀ index child, chain.next base index = some child ↔
      ∃ tip, chain.tip = some tip ∧ child ≤ tip ∧
        child.pprev? = some index) ∧
    (∀ tip index, chain.tip = some tip → index < tip →
      ∃ child, chain.next base index = some child) ∧
    (∀ pindex, (chain.setTip base pindex).1.tip = pindex ∧
      (chain.setTip base pindex).1 = (CChain.setTip ⟨[]⟩ base pindex).1) := by
  rcases reachable.represents with ⟨tip, represents⟩
  rw [represents.tip_eq]
  refine ⟨fun _ above inside => represents.entry above inside,
    fun _ => represents.contains_iff, fun _ _ => represents.next_iff, ?_, ?_⟩
  · intro top index isTip below
    rcases Lineage.at?_succ_of_lt below with ⟨item, -, above⟩
    exact ⟨_, represents.next_iff.mpr ⟨top, isTip, above, rfl⟩⟩
  · intro pindex
    have after := represents.setTip pindex
    have start : Represents base (⟨[]⟩ : CChain α) none := rfl
    refine ⟨after.tip_eq, ?_⟩
    have fresh := start.setTip pindex
    rw [Represents] at after fresh
    exact congrArg CChain.mk (after.trans fresh.symm)

/-- A chain that starts at height five, after a switch between two forks. -/
def switched : CChain Nat :=
  (((⟨[]⟩ : CChain Nat).setTip 5 (some (.child (.root 0) 1))).1.setTip 5
    (some (.child (.root 0) 2))).1

theorem reachable_path_switched :
    (switched.contains 5 (.root 0) = true ↔
      ∃ tip, switched.tip = some tip ∧ Lineage.root 0 ≤ tip) ∧
    switched.next 5 (.root 0) = some (.child (.root 0) 2) := by
  have reachable : Reachable 5 switched := .setTip _ (.setTip _ .empty)
  have path := reachable_path reachable
  exact ⟨path.2.1 _,
    (path.2.2.1 _ _).mpr ⟨.child (.root 0) 2, rfl, le_rfl, rfl⟩⟩

end DSValue.Chain.VectorChain
