import DSValue.Merkle.PartialCodec
import DSValue.Merkle.RootBinding

/-!
# Matches of partial merkle trees

Extracting what the constructor has built gives the merkle root and the matched
transaction hashes.  Any other partial tree is read within its bounds, and
when its root is that of a block, the matches belong to the block.
-/

namespace DSValue.Merkle.Extraction

open DSValue.Lib
open DSValue.Lib.PrunedTree
open DSValue.Core.Serialize
open DSValue.Core.Transaction
open DSValue.Consensus.CheckBlock hiding buildMerkleTree
open DSValue.Merkle.BlockTree
open DSValue.Merkle.PartialTree
open DSValue.Merkle.PartialCodec
open DSValue.Merkle.RootBinding

/-! ## The steps of a traversal -/

section Steps

variable {hashPair : Uint256 → Uint256 → Uint256} {tree : CPartialMerkleTree}
  {pos : Nat} {state : Traversal}

/-- The state behind `vBits[nBitsUsed++]`. -/
def nextBit (state : Traversal) : Traversal :=
  { state with nBitsUsed := state.nBitsUsed + 1 }

theorem traverse_exhausted
    (height : Nat) (exhausted : tree.vBits.length ≤ state.nBitsUsed) :
    traverseAndExtract hashPair tree height pos state =
      .ok (0, { state with fBad := true }) := by
  cases height with
  | zero => rw [traverseAndExtract, if_pos exhausted]; rfl
  | succ below => rw [traverseAndExtract, if_pos exhausted]; rfl

theorem traverse_leaf
    {isMatch : Bool} (bit : tree.vBits[state.nBitsUsed]? = some isMatch) :
    traverseAndExtract hashPair tree 0 pos state =
      useHash tree isMatch (nextBit state) := by
  have inside := (List.getElem?_eq_some_iff.mp bit).1
  rw [traverseAndExtract, if_neg (not_le.mpr inside), bit]
  rfl

theorem traverse_cut
    {below : Nat} (bit : tree.vBits[state.nBitsUsed]? = some false) :
    traverseAndExtract hashPair tree (below + 1) pos state =
      useHash tree false (nextBit state) := by
  have inside := (List.getElem?_eq_some_iff.mp bit).1
  rw [traverseAndExtract, if_neg (not_le.mpr inside), bit]
  rfl

theorem traverse_parent
    {below : Nat} (bit : tree.vBits[state.nBitsUsed]? = some true) :
    traverseAndExtract hashPair tree (below + 1) pos state =
      (do
        let (left, later) ←
          traverseAndExtract hashPair tree below (leftOf pos) (nextBit state)
        if rightOf pos < calcTreeWidth tree.nTransactions below then
          let (right, last) ←
            traverseAndExtract hashPair tree below (rightOf pos) later
          pure (hashPair left right, last)
        else pure (hashPair left left, later)) := by
  have inside := (List.getElem?_eq_some_iff.mp bit).1
  rw [traverseAndExtract, if_neg (not_le.mpr inside), bit]
  rfl

theorem useHash_ok (tree : CPartialMerkleTree) (isMatch : Bool)
    (state : Traversal) : ∃ result, useHash tree isMatch state = .ok result := by
  rw [useHash]
  by_cases exhausted : tree.vHash.length ≤ state.nHashUsed
  · rw [if_pos exhausted]
    exact ⟨_, rfl⟩
  · rw [if_neg exhausted, List.getElem?_eq_getElem (not_le.mp exhausted)]
    exact ⟨_, rfl⟩

/-- No partial tree is read outside its bits and hashes. -/
theorem traverseAndExtract_ok
    (tree : CPartialMerkleTree) (height pos : Nat) (state : Traversal) :
    ∃ result, traverseAndExtract hashPair tree height pos state = .ok result := by
  rcases Nat.lt_or_ge state.nBitsUsed tree.vBits.length with inside | exhausted
  swap
  · exact ⟨_, traverse_exhausted height exhausted⟩
  induction height generalizing pos state with
  | zero =>
      rw [traverse_leaf (List.getElem?_eq_getElem inside)]
      exact useHash_ok tree _ _
  | succ below inductionHypothesis =>
      have lower : ∀ (pos : Nat) (state : Traversal), ∃ result,
          traverseAndExtract hashPair tree below pos state = .ok result := by
        intro pos state
        rcases Nat.lt_or_ge state.nBitsUsed tree.vBits.length with
          more | exhausted
        · exact inductionHypothesis pos state more
        · exact ⟨_, traverse_exhausted below exhausted⟩
      have bit := List.getElem?_eq_getElem inside
      cases value : tree.vBits[state.nBitsUsed] with
      | false =>
          rw [value] at bit
          rw [traverse_cut bit]
          exact useHash_ok tree _ _
      | true =>
          rw [value] at bit
          rcases lower (leftOf pos) (nextBit state) with
            ⟨⟨left, later⟩, isLeft⟩
          rcases lower (rightOf pos) later with ⟨⟨right, last⟩, isRight⟩
          rw [traverse_parent bit]
          simp only [bind, Except.bind, isLeft]
          split_ifs
          · rw [isRight]
            exact ⟨_, rfl⟩
          · exact ⟨_, rfl⟩

theorem extractMatches_ok (tree : CPartialMerkleTree) :
    ∃ extraction, extractMatches hashPair tree = .ok extraction := by
  rw [extractMatches]
  split_ifs
  · exact ⟨_, rfl⟩
  · exact ⟨_, rfl⟩
  · exact ⟨_, rfl⟩
  · exact ⟨_, rfl⟩
  · rcases @traverseAndExtract_ok hashPair tree
        (heightFrom tree.nTransactions 0) 0 { fBad := tree.fBad } with
      ⟨result, traversed⟩
    simp only [bind, Except.bind, traversed]
    exact ⟨_, rfl⟩

end Steps

/-! ## Extracting what was built -/

section Built

variable {hashPair : Uint256 → Uint256 → Uint256} {values : List Uint256}
  {vMatch : List Bool} {tree : CPartialMerkleTree}

theorem getElem?_of_drop
    {α : Type} {list rest : List α} {index : Nat} {value : α}
    (dropped : list.drop index = value :: rest) :
    list[index]? = some value ∧ list.drop (index + 1) = rest := by
  constructor
  · rw [← List.head?_drop, dropped, List.head?_cons]
  · rw [← List.drop_drop, dropped, List.drop_one, List.tail_cons]

/-- The state behind a pruned tree. -/
def behind (state : Traversal) (pruned : Pruned Uint256) :
    Traversal :=
  { state with
    nBitsUsed := state.nBitsUsed + pruned.bits.length
    nHashUsed := state.nHashUsed + pruned.values.length
    vMatch := state.vMatch ++ pruned.marked }

theorem useHash_eq
    {state : Traversal} {hash : Uint256} {rest : List Uint256} (isMatch : Bool)
    (hashes : tree.vHash.drop state.nHashUsed = hash :: rest) :
    useHash tree isMatch state =
      .ok (hash,
        { state with
          nHashUsed := state.nHashUsed + 1
          vMatch := state.vMatch ++ if isMatch then [hash] else [] }) := by
  have stored := (getElem?_of_drop hashes).1
  have inside := (List.getElem?_eq_some_iff.mp stored).1
  rw [useHash, if_neg (not_le.mpr inside), stored]
  cases isMatch
  · simp only [Bool.false_eq_true, if_false, List.append_nil]
    rfl
  · rfl

variable (few : values.length ≤ 2 ^ 15)
  (counts : tree.nTransactions.toNat = values.length)

include few counts

/-- Reading a pruned tree back. -/
theorem traverseAndExtract_eq
    {height pos : Nat} {pruned : Pruned Uint256} (low : height ≤ 15)
    (prunes : Prunes hashPair values vMatch height pos pruned)
    {state : Traversal} {moreBits : List Bool} {moreHashes : List Uint256}
    (bits : tree.vBits.drop state.nBitsUsed = pruned.bits ++ moreBits)
    (hashes : tree.vHash.drop state.nHashUsed = pruned.values ++ moreHashes) :
    traverseAndExtract hashPair tree height pos state =
      .ok (pruned.root hashPair, behind state pruned) := by
  have inside := parent_inside prunes.root_eq
  induction prunes generalizing state moreBits moreHashes with
  | @leaf pos value marked isValue isMark =>
      rw [traverse_leaf (getElem?_of_drop bits).1,
        @useHash_eq tree (nextBit state) _ _ marked hashes]
      rfl
  | @cut height pos value isValue unmarked =>
      rw [traverse_cut (getElem?_of_drop bits).1,
        @useHash_eq tree (nextBit state) _ _ false hashes]
      rfl
  | @single height pos child isMarked last isChild inductionHypothesis =>
      rw [Pruned.bits, List.cons_append] at bits
      have read :=
        @inductionHypothesis (by omega) (nextBit state) moreBits moreHashes
          (getElem?_of_drop bits).2 hashes (parent_inside isChild.root_eq)
      rw [traverse_parent (getElem?_of_drop bits).1, leftOf_eq few inside,
        rightOf_eq few inside, calcTreeWidth_eq few counts (by omega)]
      simp only [bind, Except.bind, read, if_neg last]
      rw [behind, behind, nextBit, Pruned.bits,
        List.length_cons, Pruned.root, Nat.add_assoc, Nat.add_comm 1]
      rfl
  | @node height pos left right isMarked several isLeft isRight leftHypothesis
      rightHypothesis =>
      rw [Pruned.bits, List.cons_append, List.append_assoc] at bits
      rw [Pruned.values, List.append_assoc] at hashes
      have read :=
        @leftHypothesis (by omega) (nextBit state) _ _
          (getElem?_of_drop bits).2 hashes (parent_inside isLeft.root_eq)
      have laterBits :
          tree.vBits.drop
              (behind (nextBit state) left).nBitsUsed =
            right.bits ++ moreBits := by
        rw [behind, ← List.drop_drop]
        exact (congrArg (List.drop _) (getElem?_of_drop bits).2).trans
          List.drop_left
      have laterHashes :
          tree.vHash.drop
              (behind (nextBit state) left).nHashUsed =
            right.values ++ moreHashes := by
        rw [behind, ← List.drop_drop]
        exact (congrArg (List.drop _) hashes).trans List.drop_left
      have rightRead :=
        rightHypothesis (by omega) laterBits laterHashes
          (parent_inside isRight.root_eq)
      rw [traverse_parent (getElem?_of_drop bits).1, leftOf_eq few inside,
        rightOf_eq few inside, calcTreeWidth_eq few counts (by omega)]
      simp only [bind, Except.bind, read, if_pos several, rightRead]
      simp only [behind, nextBit, Pruned.bits,
        Pruned.values, Pruned.marked, Pruned.root, List.length_cons,
        List.length_append, List.append_assoc, pure, Except.pure,
        Except.ok.injEq, Prod.mk.injEq, Traversal.mk.injEq, and_true, true_and]
      omega

/-- The checks of `ExtractMatches` let the padding of the last byte pass. -/
theorem extractMatches_eq
    {pruned : Pruned Uint256} {padding : List Bool}
    (accepted : values.length ≤ MAX_BLOCK_SIZE / 60) (some : values ≠ [])
    (prunes :
      Prunes hashPair values vMatch (Merkle.rootHeight values.length) 0 pruned)
    (bits : tree.vBits = pruned.bits ++ padding)
    (sameBytes :
      (pruned.bits.length + 7) / 8 = (tree.vBits.length + 7) / 8)
    (hashes : tree.vHash = pruned.values) (good : tree.fBad = false) :
    extractMatches hashPair tree =
      .ok ⟨pruned.root hashPair, pruned.marked, false⟩ := by
  have positive := List.length_pos_of_ne_nil some
  have fewHashes := prunes.length_values_le
  have fewBits := pruned.length_values_le
  have isSome : tree.nTransactions ≠ 0 := by
    intro isZero
    rw [isZero] at counts
    simp at counts
    omega
  have read :=
    @traverseAndExtract_eq hashPair values vMatch tree few counts _ _ _
      (rootHeight_le few) prunes { fBad := tree.fBad } padding [] bits
      (hashes.trans (List.append_nil _).symm)
  rw [Merkle.leavesBelow_root] at fewHashes
  have height :=
    heightFrom_eq few counts (Nat.zero_le (Merkle.rootHeight values.length))
  rw [extractMatches, if_neg isSome, if_neg (by omega),
    if_neg (by rw [hashes]; omega),
    if_neg (by rw [bits, hashes, List.length_append]; omega), height]
  simp only [bind, Except.bind, read]
  simp only [finishExtraction, behind, good, Nat.zero_add, sameBytes, hashes,
    ne_eq, not_true_eq_false, if_false, Bool.false_eq_true, List.nil_append]
  rfl

end Built

/-- The constructor writes the pruned tree of the block. -/
theorem partialMerkleTree_eq
    (hashPair : Uint256 → Uint256 → Uint256) {vTxid : List Uint256}
    {vMatch : List Bool} {pruned : Pruned Uint256}
    (few : vTxid.length ≤ 2 ^ 15)
    (lengths : vMatch.length = vTxid.length)
    (prunes :
      Prunes hashPair vTxid vMatch (Merkle.rootHeight vTxid.length) 0 pruned) :
    partialMerkleTree hashPair vTxid vMatch =
      .ok ⟨UInt32.ofNat vTxid.length, pruned.bits, pruned.values, false⟩ := by
  have counts : (UInt32.ofNat vTxid.length).toNat = vTxid.length := by
    rw [UInt32.toNat_ofNat', Nat.mod_eq_of_lt (by omega)]
  rw [partialMerkleTree]
  simp only [heightFrom_eq few counts (Nat.zero_le _)]
  exact traverseAndBuild_eq few counts lengths (rootHeight_le few) prunes _ rfl

/-! ## Matches of a known root -/

section Sound

variable (hashPair : Uint256 → Uint256 → Uint256)

/-- The pairs that a traversal hashes. -/
def traversedPairs (tree : CPartialMerkleTree) :
    (height pos : Nat) → Traversal → List (Uint256 × Uint256)
  | 0, _, _ => []
  | below + 1, pos, state =>
      if tree.vBits[state.nBitsUsed]? = some true then
        match traverseAndExtract hashPair tree below (leftOf pos)
            (nextBit state) with
        | .error _ => []
        | .ok (left, later) =>
            let lower := traversedPairs tree below (leftOf pos) (nextBit state)
            if rightOf pos < calcTreeWidth tree.nTransactions below then
              match traverseAndExtract hashPair tree below (rightOf pos)
                  later with
              | .error _ => []
              | .ok (right, _) =>
                  (left, right) ::
                    (lower ++ traversedPairs tree below (rightOf pos) later)
            else (left, left) :: lower
      else []

/-- The pairs that `ExtractMatches` hashes. -/
def extractedPairs (tree : CPartialMerkleTree) : List (Uint256 × Uint256) :=
  traversedPairs hashPair tree (heightFrom tree.nTransactions 0) 0
    { fBad := tree.fBad }

variable {hashPair} {values : List Uint256} {tree : CPartialMerkleTree}

theorem useHash_matches
    {isMatch : Bool} {state later : Traversal} {hash : Uint256}
    (used : useHash tree isMatch state = .ok (hash, later)) :
    ∀ txid ∈ later.vMatch, txid ∈ state.vMatch ∨ isMatch = true ∧ txid = hash := by
  rw [useHash] at used
  split at used
  · cases used
    exact fun txid member => Or.inl member
  · split at used
    · cases used
      intro txid member
      simp only at member
      split_ifs at member with isTrue
      · rw [List.mem_append, List.mem_singleton] at member
        exact member.imp_right fun same => ⟨isTrue, same⟩
      · exact Or.inl member
    · cases used

variable (few : values.length ≤ 2 ^ 15)
  (counts : tree.nTransactions.toNat = values.length)

include few counts

/-- A subtree of a known hash adds only leaves of the known tree. -/
theorem traverseAndExtract_matches
    {height pos : Nat} {state later : Traversal} {hash : Uint256}
    (low : height ≤ 15)
    (free :
      Set.InjOn (fun pair => hashPair pair.1 pair.2)
        {pair |
          pair ∈ traversedPairs hashPair tree height pos state ∨
            ∃ below < height,
              pair ∈ Merkle.pairs (Merkle.row hashPair values below)})
    (traversed :
      traverseAndExtract hashPair tree height pos state = .ok (hash, later))
    (known : (Merkle.row hashPair values height)[pos]? = some hash) :
    ∀ txid ∈ later.vMatch, txid ∈ state.vMatch ∨ txid ∈ values := by
  induction height generalizing pos state later hash with
  | zero =>
      rcases Nat.lt_or_ge state.nBitsUsed tree.vBits.length with
        inside | exhausted
      · rw [traverse_leaf (List.getElem?_eq_getElem inside)] at traversed
        intro txid member
        refine (useHash_matches traversed txid member).imp_right ?_
        rintro ⟨-, rfl⟩
        exact List.mem_of_getElem? known
      · rw [traverse_exhausted 0 exhausted] at traversed
        cases traversed
        exact fun txid member => Or.inl member
  | succ below inductionHypothesis =>
      rcases Nat.lt_or_ge state.nBitsUsed tree.vBits.length with
        inside | exhausted
      swap
      · rw [traverse_exhausted _ exhausted] at traversed
        cases traversed
        exact fun txid member => Or.inl member
      have bit := List.getElem?_eq_getElem inside
      cases value : tree.vBits[state.nBitsUsed] with
      | false =>
          rw [value] at bit
          rw [traverse_cut bit] at traversed
          intro txid member
          refine (useHash_matches traversed txid member).imp_right ?_
          rintro ⟨isTrue, -⟩
          cases isTrue
      | true =>
          rw [value] at bit
          have posInside := parent_inside known
          rw [traverse_parent bit, leftOf_eq few posInside,
            rightOf_eq few posInside,
            calcTreeWidth_eq few counts (by omega)] at traversed
          rw [traversedPairs, if_pos bit, leftOf_eq few posInside,
            rightOf_eq few posInside,
            calcTreeWidth_eq few counts (by omega)] at free
          rw [Merkle.row] at known
          rcases Merkle.children_of_parent known with
            ⟨knownLeft, knownRight, isPair, isLeft, isRight, isParent⟩
          rw [Merkle.length_row] at isRight
          simp only [bind_eq_ok] at traversed
          rcases traversed with ⟨⟨left, middle⟩, leftTraversed, traversed⟩
          have lift : ∀ {pair : Uint256 × Uint256},
              (∃ lower < below,
                pair ∈ Merkle.pairs (Merkle.row hashPair values lower)) →
              ∃ lower < below + 1,
                pair ∈ Merkle.pairs (Merkle.row hashPair values lower) := by
            rintro pair ⟨lower, less, listed⟩
            exact ⟨lower, Nat.lt_succ_of_lt less, listed⟩
          rw [leftTraversed] at free
          simp only at free
          split_ifs at traversed isRight free with several
          · simp only [bind_eq_ok] at traversed
            rcases traversed with ⟨⟨right, last⟩, rightTraversed, traversed⟩
            cases traversed
            rw [rightTraversed] at free
            have same :=
              free (Or.inl List.mem_cons_self)
                (Or.inr ⟨below, Nat.lt_succ_self below, isPair⟩) isParent.symm
            cases same
            have fromLeft : ∀ txid ∈ middle.vMatch,
                txid ∈ state.vMatch ∨ txid ∈ values := by
              refine @inductionHypothesis _ (nextBit state) _ _ (by omega)
                (free.mono ?_) leftTraversed isLeft
              intro pair member
              refine member.imp (fun listed => ?_) lift
              exact List.mem_cons_of_mem _ (List.mem_append_left _ listed)
            have fromRight : ∀ txid ∈ last.vMatch,
                txid ∈ middle.vMatch ∨ txid ∈ values := by
              refine @inductionHypothesis _ middle _ _ (by omega)
                (free.mono ?_) rightTraversed isRight
              intro pair member
              refine member.imp (fun listed => ?_) lift
              exact List.mem_cons_of_mem _ (List.mem_append_right _ listed)
            intro txid member
            rcases fromRight txid member with earlier | isValue
            · exact fromLeft txid earlier
            · exact Or.inr isValue
          · cases traversed
            have same :=
              free (Or.inl List.mem_cons_self)
                (Or.inr ⟨below, Nat.lt_succ_self below, isPair⟩) isParent.symm
            cases same
            refine @inductionHypothesis _ (nextBit state) _ _ (by omega)
              (free.mono ?_) leftTraversed isLeft
            intro pair member
            exact member.imp (List.mem_cons_of_mem _) lift

end Sound

/-- The checks that a partial tree with a root has passed. -/
theorem extraction_of_root
    {hashPair : Uint256 → Uint256 → Uint256} {tree : CPartialMerkleTree}
    {extraction : Extraction}
    (extracted : extractMatches hashPair tree = .ok extraction)
    (isRoot : extraction.hashMerkleRoot ≠ 0) :
    tree.nTransactions.toNat ≤ MAX_BLOCK_SIZE / 60 ∧
      ∃ later, traverseAndExtract hashPair tree
          (heightFrom tree.nTransactions 0) 0 { fBad := tree.fBad } =
            .ok (extraction.hashMerkleRoot, later) ∧
        extraction.vMatch = later.vMatch := by
  rw [extractMatches] at extracted
  split_ifs at extracted with empty large
  · cases extracted
    exact absurd rfl isRoot
  · cases extracted
    exact absurd rfl isRoot
  · cases extracted
    exact absurd rfl isRoot
  · cases extracted
    exact absurd rfl isRoot
  · simp only [bind_eq_ok] at extracted
    rcases extracted with ⟨⟨hash, later⟩, traversed, finished⟩
    cases finished
    refine ⟨not_lt.mp large, later, ?_, rfl⟩
    simp only [finishExtraction] at isRoot ⊢
    split_ifs at isRoot ⊢
    · exact absurd rfl isRoot
    · exact absurd rfl isRoot
    · exact absurd rfl isRoot
    · exact traversed

theorem buildMerkleTree_empty
    (hashPair : Uint256 → Uint256 → Uint256) :
    buildMerkleTree hashPair [] = .ok 0 := by
  rw [buildMerkleTree, fillMerkleTree_eq (by simp),
    Merkle.rows_of_le_one hashPair (by simp)]
  rfl

theorem rootRow_eq
    {hashPair : Uint256 → Uint256 → Uint256} {values : List Uint256}
    {root : Uint256} (some : values ≠ [])
    (first :
      (Merkle.row hashPair values (Merkle.rootHeight values.length))[0]? =
        .some root) :
    Merkle.row hashPair values (Merkle.rootHeight values.length) = [root] := by
  rcases Merkle.exists_root hashPair some with ⟨only, isRoot⟩
  rw [isRoot] at first ⊢
  cases first
  rfl

/-- What partial merkle trees prove about a block. -/
theorem extractMatches_matches (hashPair : Uint256 → Uint256 → Uint256) :
    (∀ (vTxid : List Uint256) (vMatch : List Bool),
      vTxid ≠ [] → vTxid.length ≤ MAX_BLOCK_SIZE / 60 →
      vMatch.length = vTxid.length →
        ∃ root tree copy,
          buildMerkleTree hashPair vTxid = .ok root ∧
          partialMerkleTree hashPair vTxid vMatch = .ok tree ∧
          extractMatches hashPair tree =
            .ok ⟨root, markedValues (vTxid.zip vMatch), false⟩ ∧
          Stream.Reads readPartialMerkleTree (writePartialMerkleTree tree)
            copy ∧
          extractMatches hashPair copy =
            .ok ⟨root, markedValues (vTxid.zip vMatch), false⟩) ∧
    (∀ tree, ∃ extraction, extractMatches hashPair tree = .ok extraction) ∧
    ∀ (tree : CPartialMerkleTree) (extraction : Extraction)
        (vtx : List Uint256),
      extractMatches hashPair tree = .ok extraction →
      extraction.hashMerkleRoot ≠ 0 →
      vtx.length = tree.nTransactions.toNat →
      buildMerkleTree hashPair vtx = .ok extraction.hashMerkleRoot →
      Set.InjOn (fun pair => hashPair pair.1 pair.2)
        {pair | pair ∈ extractedPairs hashPair tree ∨
          pair ∈ hashedPairs hashPair vtx} →
        ∀ txid ∈ extraction.vMatch, txid ∈ vtx := by
  have bound : MAX_BLOCK_SIZE / 60 ≤ 2 ^ 15 := by decide
  refine ⟨?_, fun tree => extractMatches_ok tree, ?_⟩
  · intro vTxid vMatch some accepted lengths
    have few := accepted.trans bound
    have inside : 0 < Merkle.width vTxid.length
        (Merkle.rootHeight vTxid.length) :=
      Merkle.width_pos (List.length_pos_of_ne_nil some) _
    rcases @exists_prunes _ hashPair _ _ _ _ lengths inside with
      ⟨pruned, prunes⟩
    have root := prunes.root_eq
    have marked := prunes.marked_eq lengths
    rw [← length_marks lengths, Merkle.leavesBelow_root] at marked
    have counts : (UInt32.ofNat vTxid.length).toNat = vTxid.length := by
      rw [UInt32.toNat_ofNat', Nat.mod_eq_of_lt (by omega)]
    have isRoot := rootRow_eq some root
    rw [← marked]
    refine ⟨pruned.root hashPair, _, _, buildMerkleTree_eq (by omega) isRoot,
      partialMerkleTree_eq hashPair few lengths prunes, ?_,
      reads_readPartialMerkleTree ?_ ?_, ?_⟩
    · exact extractMatches_eq few counts accepted some prunes
        (List.append_nil _).symm rfl rfl rfl
    · have fewBits := prunes.length_bits_lt
      have power : 2 ^ (Merkle.rootHeight vTxid.length + 1) ≤ 2 ^ 16 :=
        Nat.pow_le_pow_right (by decide) (Nat.succ_le_succ (rootHeight_le few))
      simp only [Core.Deserialize.MAX_SIZE]
      omega
    · have fewHashes := prunes.length_values_le
      rw [Merkle.leavesBelow_root] at fewHashes
      simp only [Core.Deserialize.MAX_SIZE]
      omega
    · refine extractMatches_eq few counts accepted some prunes
        (unpackBits_packBits pruned.bits) ?_ rfl rfl
      simp only [reread, unpackBits_packBits, List.length_append,
        List.length_replicate]
      omega
  · intro tree extraction vtx extracted isRoot lengths built free
    rcases extraction_of_root extracted isRoot with
      ⟨accepted, later, traversed, matched⟩
    have few : vtx.length ≤ 2 ^ 15 := by omega
    have counts := lengths.symm
    have height := heightFrom_eq few counts (Nat.zero_le _)
    have some : vtx ≠ [] := by
      rintro rfl
      rw [buildMerkleTree_empty] at built
      exact isRoot (Except.ok.inj built).symm
    rcases Merkle.exists_root hashPair some with ⟨root, isLast⟩
    rw [buildMerkleTree_eq (by omega) isLast] at built
    rw [extractedPairs] at free
    rw [height] at free traversed
    intro txid member
    rw [matched] at member
    refine (traverseAndExtract_matches few counts (rootHeight_le few)
      (free.mono ?_) traversed ?_ txid member).resolve_left (by simp)
    · intro pair member
      refine member.imp_right ?_
      rintro ⟨below, lower, listed⟩
      exact mem_hashedPairs (by omega) lower listed
    · rw [isLast, ← Except.ok.inj built]
      rfl

/-! ## Where the failure value shows -/

/-- A partial tree with too many bits for the root zero. -/
def paddedTree : CPartialMerkleTree :=
  ⟨1, true :: List.replicate 8 false, [5], false⟩

theorem extractMatches_paddedTree
    (hashPair : Uint256 → Uint256 → Uint256) :
    extractMatches hashPair paddedTree = .ok ⟨0, [5], false⟩ := by
  have height : heightFrom 1 0 = 0 := by
    rw [heightFrom, if_neg (by decide)]
  rw [extractMatches, if_neg (by decide), if_neg (by decide),
    if_neg (by decide), if_neg (by decide)]
  simp only [paddedTree, height]
  rfl

/-- A partial tree of more transactions than a block can hold. -/
theorem extractMatches_large
    (hashPair : Uint256 → Uint256 → Uint256) {vTxid : List Uint256}
    {vMatch : List Bool} (many : vTxid.length = MAX_BLOCK_SIZE / 60 + 1)
    (lengths : vMatch.length = vTxid.length) :
    ∃ tree, partialMerkleTree hashPair vTxid vMatch = .ok tree ∧
      extractMatches hashPair tree = .ok ⟨0, [], false⟩ := by
  have few : vTxid.length ≤ 2 ^ 15 := by
    rw [many]
    decide
  have inside : 0 < Merkle.width vTxid.length
      (Merkle.rootHeight vTxid.length) :=
    Merkle.width_pos (by omega) _
  rcases @exists_prunes _ hashPair _ _ _ _ lengths inside with
    ⟨pruned, prunes⟩
  refine ⟨_, partialMerkleTree_eq hashPair few lengths prunes, ?_⟩
  have several : UInt32.ofNat vTxid.length ≠ 0 := by
    rw [many]
    decide
  have large : MAX_BLOCK_SIZE / 60 < (UInt32.ofNat vTxid.length).toNat := by
    rw [many]
    decide
  rw [extractMatches, if_neg several, if_pos large]
  rfl

/-- Matches are lost in long lists, and zero is the root of a failure. -/
theorem extractMatches_zero :
    (∃ vTxid vMatch, vTxid ≠ [] ∧ vMatch.length = vTxid.length ∧
      ∀ hashPair, ∃ tree extraction,
        partialMerkleTree hashPair vTxid vMatch = .ok tree ∧
        extractMatches hashPair tree = .ok extraction ∧
        extraction.vMatch ≠ markedValues (vTxid.zip vMatch)) ∧
    ∃ tree vtx, vtx.length = tree.nTransactions.toNat ∧
      ∀ hashPair, ∃ extraction,
        extractMatches hashPair tree = .ok extraction ∧
        buildMerkleTree hashPair vtx = .ok extraction.hashMerkleRoot ∧
        ∃ txid ∈ extraction.vMatch, txid ∉ vtx := by
  constructor
  · obtain ⟨vTxid, many⟩ : ∃ vTxid : List Uint256,
        vTxid.length = MAX_BLOCK_SIZE / 60 + 1 :=
      ⟨List.replicate _ 0, List.length_replicate⟩
    have lengths : (vTxid.map fun _ => true).length = vTxid.length :=
      List.length_map _
    refine ⟨vTxid, _, ?_, lengths, fun hashPair => ?_⟩
    · rintro rfl
      cases many
    · rcases extractMatches_large hashPair many lengths with
        ⟨tree, built, extracted⟩
      refine ⟨tree, _, built, extracted, ?_⟩
      rcases vTxid with _ | ⟨first, rest⟩
      · cases many
      · rw [List.map_cons, List.zip_cons_cons]
        intro same
        cases same
  · refine ⟨paddedTree, [0], rfl, fun hashPair =>
      ⟨_, extractMatches_paddedTree hashPair, ?_, 5,
        List.mem_singleton_self 5, by decide⟩⟩
    rw [buildMerkleTree, fillMerkleTree_eq (by simp),
      Merkle.rows_of_le_one hashPair (by simp)]
    rfl

end DSValue.Merkle.Extraction
