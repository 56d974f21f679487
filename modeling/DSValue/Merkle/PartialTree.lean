import DSValue.Lib.PrunedTree
import DSValue.Merkle.BlockTree

/-!
# Partial merkle trees

`CPartialMerkleTree` keeps the matched transaction hashes of a block and the
hashes that are needed to find its merkle root again.  Its constructor writes
the bits and hashes of the pruned tree of the block, and `ExtractMatches` reads
them back.  Positions and widths are unsigned 32-bit integers.
-/

namespace DSValue.Merkle.PartialTree

open DSValue.Lib
open DSValue.Lib.PrunedTree
open DSValue.Core.Serialize
open DSValue.Core.Transaction
open DSValue.Consensus.CheckBlock hiding buildMerkleTree
open DSValue.Merkle.BlockTree

/-! ## Building and extracting -/

/-- `CPartialMerkleTree`. -/
structure CPartialMerkleTree where
  nTransactions : UInt32 := 0
  vBits : List Bool := []
  vHash : List Uint256 := []
  fBad : Bool := true
deriving DecidableEq

/-- `CalcTreeWidth`. -/
def calcTreeWidth (nTransactions : UInt32) (height : Nat) : Nat :=
  (nTransactions.toNat + 2 ^ height - 1) % 2 ^ 32 / 2 ^ height

theorem calcTreeWidth_le_one
    (nTransactions : UInt32) {height : Nat} (high : 31 ≤ height) :
    calcTreeWidth nTransactions height ≤ 1 := by
  have power : 2 ^ 31 ≤ 2 ^ height := Nat.pow_le_pow_right (by decide) high
  rw [calcTreeWidth, ← Nat.lt_succ_iff,
    Nat.div_lt_iff_lt_mul (Nat.two_pow_pos height)]
  omega

/-- `while (CalcTreeWidth(nHeight) > 1) nHeight++`. -/
def heightFrom (nTransactions : UInt32) (nHeight : Nat) : Nat :=
  if 1 < calcTreeWidth nTransactions nHeight then
    heightFrom nTransactions (nHeight + 1)
  else nHeight
termination_by 31 - nHeight
decreasing_by
  rename_i higher
  rcases Nat.lt_or_ge nHeight 31 with low | high
  · omega
  · have narrow := calcTreeWidth_le_one nTransactions high
    omega

/-- `pos * 2`. -/
def leftOf (pos : Nat) : Nat := pos * 2 % 2 ^ 32

/-- `pos * 2 + 1`. -/
def rightOf (pos : Nat) : Nat := (pos * 2 + 1) % 2 ^ 32

variable (hashPair : Uint256 → Uint256 → Uint256)

/-- `CalcHash`. -/
def calcHash (nTransactions : UInt32) (vTxid : List Uint256) :
    (height pos : Nat) → Except Fault Uint256
  | 0, pos =>
      match vTxid[pos]? with
      | some txid => pure txid
      | none => throw .outOfRange
  | height + 1, pos => do
      let left ← calcHash nTransactions vTxid height (leftOf pos)
      if rightOf pos < calcTreeWidth nTransactions height then
        let right ← calcHash nTransactions vTxid height (rightOf pos)
        pure (hashPair left right)
      else pure (hashPair left left)

/-- The first loop of `TraverseAndBuild`. -/
def parentOfMatch (nTransactions : UInt32) (vMatch : List Bool)
    (height pos : Nat) : Except Fault Bool :=
  let first := pos * 2 ^ height % 2 ^ 32
  let last := (pos + 1) * 2 ^ height % 2 ^ 32
  (List.range' first (min last nTransactions.toNat - first)).foldlM
    (fun fParentOfMatch p =>
      match vMatch[p]? with
      | some isMatch => pure (fParentOfMatch || isMatch)
      | none => throw .outOfRange)
    false

/-- `vBits.push_back(fParentOfMatch)`. -/
def CPartialMerkleTree.pushBit (tree : CPartialMerkleTree)
    (fParentOfMatch : Bool) : CPartialMerkleTree :=
  { tree with vBits := tree.vBits ++ [fParentOfMatch] }

/-- `vHash.push_back(CalcHash(height, pos, vTxid))`. -/
def CPartialMerkleTree.pushHash (tree : CPartialMerkleTree)
    (vTxid : List Uint256) (height pos : Nat) :
    Except Fault CPartialMerkleTree := do
  let hash ← calcHash hashPair tree.nTransactions vTxid height pos
  pure { tree with vHash := tree.vHash ++ [hash] }

/-- `TraverseAndBuild`. -/
def traverseAndBuild (vTxid : List Uint256) (vMatch : List Bool) :
    (height pos : Nat) → CPartialMerkleTree → Except Fault CPartialMerkleTree
  | 0, pos, tree => do
      let fParentOfMatch ← parentOfMatch tree.nTransactions vMatch 0 pos
      (tree.pushBit fParentOfMatch).pushHash hashPair vTxid 0 pos
  | height + 1, pos, tree => do
      let fParentOfMatch ←
        parentOfMatch tree.nTransactions vMatch (height + 1) pos
      let marked := tree.pushBit fParentOfMatch
      if fParentOfMatch then
        let built ← traverseAndBuild vTxid vMatch height (leftOf pos) marked
        if rightOf pos < calcTreeWidth tree.nTransactions height then
          traverseAndBuild vTxid vMatch height (rightOf pos) built
        else pure built
      else marked.pushHash hashPair vTxid (height + 1) pos

/-- The constructor of `CPartialMerkleTree` from transaction hashes. -/
def partialMerkleTree (vTxid : List Uint256) (vMatch : List Bool) :
    Except Fault CPartialMerkleTree :=
  let nTransactions := UInt32.ofNat vTxid.length
  traverseAndBuild hashPair vTxid vMatch (heightFrom nTransactions 0) 0
    { nTransactions := nTransactions, fBad := false }

/-- The references of `TraverseAndExtract`, with the flag of the tree. -/
structure Traversal where
  nBitsUsed : Nat := 0
  nHashUsed : Nat := 0
  vMatch : List Uint256 := []
  fBad : Bool
deriving DecidableEq

/-- Using a stored hash in `TraverseAndExtract`. -/
def useHash (tree : CPartialMerkleTree) (isMatch : Bool)
    (state : Traversal) : Except Fault (Uint256 × Traversal) :=
  if tree.vHash.length ≤ state.nHashUsed then
    pure (0, { state with fBad := true })
  else
    match tree.vHash[state.nHashUsed]? with
    | some hash =>
        pure (hash,
          { state with
            nHashUsed := state.nHashUsed + 1
            vMatch := if isMatch then state.vMatch ++ [hash] else state.vMatch })
    | none => throw .outOfRange

/-- `TraverseAndExtract`. -/
def traverseAndExtract (tree : CPartialMerkleTree) :
    (height pos : Nat) → Traversal → Except Fault (Uint256 × Traversal)
  | height, pos, state =>
      if tree.vBits.length ≤ state.nBitsUsed then
        pure (0, { state with fBad := true })
      else
        match tree.vBits[state.nBitsUsed]? with
        | none => throw .outOfRange
        | some fParentOfMatch =>
            let used := { state with nBitsUsed := state.nBitsUsed + 1 }
            match height with
            | 0 => useHash tree fParentOfMatch used
            | below + 1 =>
                if fParentOfMatch then do
                  let (left, later) ←
                    traverseAndExtract tree below (leftOf pos) used
                  if rightOf pos < calcTreeWidth tree.nTransactions below then
                    let (right, last) ←
                      traverseAndExtract tree below (rightOf pos) later
                    pure (hashPair left right, last)
                  else pure (hashPair left left, later)
                else useHash tree false used

/-- What `ExtractMatches` returns, with `vMatch` and the flag of the tree. -/
structure Extraction where
  hashMerkleRoot : Uint256
  vMatch : List Uint256
  fBad : Bool
deriving DecidableEq

/-- The checks of `ExtractMatches` behind the traversal. -/
def finishExtraction (tree : CPartialMerkleTree) (hashMerkleRoot : Uint256)
    (state : Traversal) : Extraction :=
  { hashMerkleRoot :=
      if state.fBad then 0
      else if (state.nBitsUsed + 7) / 8 ≠ (tree.vBits.length + 7) / 8 then 0
      else if state.nHashUsed ≠ tree.vHash.length then 0
      else hashMerkleRoot
    vMatch := state.vMatch
    fBad := state.fBad }

/-- `ExtractMatches`. -/
def extractMatches (tree : CPartialMerkleTree) : Except Fault Extraction :=
  let failed : Extraction := ⟨0, [], tree.fBad⟩
  if tree.nTransactions = 0 then pure failed
  else if MAX_BLOCK_SIZE / 60 < tree.nTransactions.toNat then pure failed
  else if tree.nTransactions.toNat < tree.vHash.length then pure failed
  else if tree.vBits.length < tree.vHash.length then pure failed
  else do
    let (hashMerkleRoot, state) ←
      traverseAndExtract hashPair tree (heightFrom tree.nTransactions 0) 0
        { fBad := tree.fBad }
    pure (finishExtraction tree hashMerkleRoot state)

/-! ## Widths and positions -/

section Shape

variable {hashPair} {values : List Uint256} {nTransactions : UInt32}

theorem parent_inside
    {height pos : Nat} {value : Uint256}
    (found : (Merkle.row hashPair values height)[pos]? = some value) :
    pos < Merkle.width values.length height := by
  rw [← Merkle.length_row hashPair]
  exact (List.getElem?_eq_some_iff.mp found).1

variable (few : values.length ≤ 2 ^ 15)
  (counts : nTransactions.toNat = values.length)

include few

theorem rootHeight_le : Merkle.rootHeight values.length ≤ 15 :=
  Nat.clog_le_of_le_pow few

theorem pos_le
    {height pos : Nat} (inside : pos < Merkle.width values.length height) :
    pos ≤ 2 ^ 15 := by
  rw [Merkle.lt_width_iff] at inside
  have grows := Nat.le_mul_of_pos_right pos (Nat.two_pow_pos height)
  omega

theorem leftOf_eq
    {height pos : Nat} (inside : pos < Merkle.width values.length height) :
    leftOf pos = 2 * pos := by
  have small := pos_le few inside
  rw [leftOf]
  omega

theorem rightOf_eq
    {height pos : Nat} (inside : pos < Merkle.width values.length height) :
    rightOf pos = 2 * pos + 1 := by
  have small := pos_le few inside
  rw [rightOf]
  omega

include counts

theorem calcTreeWidth_eq {height : Nat} (low : height ≤ 15) :
    calcTreeWidth nTransactions height =
      Merkle.width values.length height := by
  have power : 2 ^ height ≤ 2 ^ 15 := Nat.pow_le_pow_right (by decide) low
  have positive := Nat.two_pow_pos height
  rw [calcTreeWidth, Merkle.width, counts, Nat.mod_eq_of_lt (by omega)]

theorem heightFrom_eq
    {nHeight : Nat} (low : nHeight ≤ Merkle.rootHeight values.length) :
    heightFrom nTransactions nHeight = Merkle.rootHeight values.length := by
  have bounded := rootHeight_le few
  induction nHeight using heightFrom.induct nTransactions with
  | case1 nHeight higher inductionHypothesis =>
      rw [heightFrom, if_pos higher]
      rw [calcTreeWidth_eq few counts (low.trans bounded),
        Merkle.one_lt_width_iff] at higher
      exact inductionHypothesis higher
  | case2 nHeight narrow =>
      rw [heightFrom, if_neg narrow]
      rw [calcTreeWidth_eq few counts (low.trans bounded),
        Merkle.one_lt_width_iff] at narrow
      omega

/-- `CalcHash` gives the values of the rows. -/
theorem calcHash_eq
    {height pos : Nat} {value : Uint256} (low : height ≤ 15)
    (found : (Merkle.row hashPair values height)[pos]? = some value) :
    calcHash hashPair nTransactions values height pos = .ok value := by
  induction height generalizing pos value with
  | zero =>
      rw [Merkle.row] at found
      rw [calcHash, found]
      rfl
  | succ height inductionHypothesis =>
      have inside := parent_inside found
      rw [Merkle.row] at found
      rcases Merkle.children_of_parent found with
        ⟨left, right, -, isLeft, isRight, rfl⟩
      have leftHash := inductionHypothesis (by omega) isLeft
      rw [calcHash, leftOf_eq few inside, rightOf_eq few inside, leftHash,
        calcTreeWidth_eq few counts (by omega)]
      rw [Merkle.length_row] at isRight
      split_ifs at isRight ⊢ with several
      · have rightHash := inductionHypothesis (by omega) isRight
        simp only [bind, Except.bind, rightHash]
        rfl
      · rw [isRight]
        rfl

end Shape

/-! ## Building writes the pruned tree -/

section Build

variable {hashPair} {values : List Uint256} {vMatch : List Bool}
  {nTransactions : UInt32}

theorem foldlM_isMatch
    {first count : Nat} (fParentOfMatch : Bool)
    (inside : first + count ≤ vMatch.length) :
    (List.range' first count).foldlM
        (fun fParentOfMatch p =>
          match vMatch[p]? with
          | some isMatch => (pure (fParentOfMatch || isMatch) : Except Fault _)
          | none => throw Fault.outOfRange)
        fParentOfMatch =
      .ok (fParentOfMatch || decide (true ∈ (vMatch.drop first).take count)) := by
  induction count generalizing first fParentOfMatch with
  | zero => simp [pure, Except.pure]
  | succ count inductionHypothesis =>
      have bound : first < vMatch.length := by omega
      rw [List.range'_succ, List.foldlM_cons, List.getElem?_eq_getElem bound,
        List.drop_eq_getElem_cons bound, List.take_succ_cons]
      simp only [bind, Except.bind, pure, Except.pure]
      have later :=
        @inductionHypothesis (first + 1) (fParentOfMatch || vMatch[first])
          (by omega)
      simp only [pure, Except.pure] at later
      rw [later]
      cases vMatch[first] <;> simp

variable (few : values.length ≤ 2 ^ 15)
  (counts : nTransactions.toNat = values.length)

include few counts

theorem pushHash_eq
    {tree : CPartialMerkleTree} {height pos : Nat} {value : Uint256}
    (low : height ≤ 15) (sized : tree.nTransactions = nTransactions)
    (found : (Merkle.row hashPair values height)[pos]? = some value) :
    tree.pushHash hashPair values height pos =
      .ok { tree with vHash := tree.vHash ++ [value] } := by
  rw [CPartialMerkleTree.pushHash, sized, calcHash_eq few counts low found]
  rfl

variable (lengths : vMatch.length = values.length)

include lengths

theorem parentOfMatch_eq
    {height pos : Nat} (low : height ≤ 15)
    (inside : pos < Merkle.width values.length height) :
    parentOfMatch nTransactions vMatch height pos =
      .ok (decide (true ∈ Merkle.leavesBelow vMatch height pos)) := by
  have power : 2 ^ height ≤ 2 ^ 15 := Nat.pow_le_pow_right (by decide) low
  rw [Merkle.lt_width_iff] at inside
  have first : pos * 2 ^ height % 2 ^ 32 = pos * 2 ^ height :=
    Nat.mod_eq_of_lt (by omega)
  have last : (pos + 1) * 2 ^ height % 2 ^ 32 =
      pos * 2 ^ height + 2 ^ height := by
    rw [Nat.succ_mul]
    exact Nat.mod_eq_of_lt (by omega)
  have taken :
      (vMatch.drop (pos * 2 ^ height)).take
          (min (pos * 2 ^ height + 2 ^ height) values.length -
            pos * 2 ^ height) =
        Merkle.leavesBelow vMatch height pos := by
    rw [Merkle.leavesBelow, List.take_eq_take_iff, List.length_drop, lengths]
    clear first last
    generalize 2 ^ height = width at *
    generalize pos * width = start at *
    omega
  rw [parentOfMatch]
  simp only [first, last, counts]
  rw [foldlM_isMatch false (by omega), taken, Bool.false_or]

/-- The bits and hashes of a pruned tree at the end of a partial tree. -/
def CPartialMerkleTree.extend (tree : CPartialMerkleTree)
    (pruned : Pruned Uint256) : CPartialMerkleTree :=
  { tree with
    vBits := tree.vBits ++ pruned.bits
    vHash := tree.vHash ++ pruned.values }

/-- `TraverseAndBuild` writes the pruned tree. -/
theorem traverseAndBuild_eq
    {height pos : Nat} {pruned : Pruned Uint256} (low : height ≤ 15)
    (prunes : Prunes hashPair values vMatch height pos pruned)
    (tree : CPartialMerkleTree) (sized : tree.nTransactions = nTransactions) :
    traverseAndBuild hashPair values vMatch height pos tree =
      .ok (tree.extend pruned) := by
  have inside := parent_inside prunes.root_eq
  induction prunes generalizing tree with
  | @leaf pos value marked isValue isMark =>
      have pushed :=
        @pushHash_eq hashPair _ _ few counts (tree.pushBit marked) _ _ _ low
          sized isValue
      rw [traverseAndBuild, sized,
        parentOfMatch_eq few counts lengths low inside,
        Merkle.leavesBelow_zero isMark]
      cases marked
      · exact pushed
      · exact pushed
  | @cut height pos value isValue unmarked =>
      rw [traverseAndBuild, sized,
        parentOfMatch_eq few counts lengths low inside,
        decide_eq_false unmarked]
      simp only [bind, Except.bind, Bool.false_eq_true, if_false]
      exact pushHash_eq few counts low sized isValue
  | @single height pos child isMarked last isChild inductionHypothesis =>
      have built :=
        inductionHypothesis (by omega) (tree.pushBit true) sized
          (parent_inside isChild.root_eq)
      rw [traverseAndBuild, sized,
        parentOfMatch_eq few counts lengths low inside,
        decide_eq_true isMarked, leftOf_eq few inside, rightOf_eq few inside,
        calcTreeWidth_eq few counts (by omega)]
      simp only [bind, Except.bind, if_true, built, if_neg last]
      simp [CPartialMerkleTree.pushBit, CPartialMerkleTree.extend, Pruned.bits,
        Pruned.values, pure, Except.pure]
  | @node height pos left right isMarked several isLeft isRight leftHypothesis
      rightHypothesis =>
      have built :=
        leftHypothesis (by omega) (tree.pushBit true) sized
          (parent_inside isLeft.root_eq)
      have rightBuilt :=
        rightHypothesis (by omega) ((tree.pushBit true).extend left) sized
          (parent_inside isRight.root_eq)
      rw [traverseAndBuild, sized,
        parentOfMatch_eq few counts lengths low inside,
        decide_eq_true isMarked, leftOf_eq few inside, rightOf_eq few inside,
        calcTreeWidth_eq few counts (by omega)]
      simp only [bind, Except.bind, if_true, built, if_pos several, rightBuilt]
      simp [CPartialMerkleTree.pushBit, CPartialMerkleTree.extend, Pruned.bits,
        Pruned.values]

end Build

end DSValue.Merkle.PartialTree
