import DSValue.Consensus.CheckBlock
import DSValue.Lib.Merkle
import Mathlib.Data.Nat.Bitwise

/-!
# The merkle tree of a block

`BuildMerkleTree` keeps all rows of the tree in one vector, `GetMerkleBranch`
reads the neighbours of a transaction and of its ancestors from it, and
`CheckMerkleBranch` hashes them up to the root again.  The number of
transactions is converted to `int`.
-/

namespace DSValue.Merkle.BlockTree

open DSValue.Lib
open DSValue.Core.Serialize
open DSValue.Core.Transaction
open DSValue.Consensus.CheckBlock hiding buildMerkleTree

/-! ## The vector of the rows -/

variable (hashPair : Uint256 → Uint256 → Uint256)

/-- `int nSize = vtx.size()`, as a bound of loops. -/
def intSize (count : Nat) : Nat := (Int32.ofNat count).toInt.toNat

/-- Hashing two neighbours in `BuildMerkleTree`. -/
def pushPair
    (j nSize : Nat) (vMerkleTree : List Uint256) (index : Nat) :
    Except Fault (List Uint256) :=
  match vMerkleTree[j + 2 * index]?,
      vMerkleTree[j + min (2 * index + 1) (nSize - 1)]? with
  | some left, some right => pure (vMerkleTree ++ [hashPair left right])
  | _, _ => throw .outOfRange

/-- The loop of `BuildMerkleTree` over the rows. -/
def buildRows (nSize j : Nat) (vMerkleTree : List Uint256) :
    Except Fault (List Uint256) :=
  if 1 < nSize then do
    let higher ←
      (List.range ((nSize + 1) / 2)).foldlM (pushPair hashPair j nSize)
        vMerkleTree
    buildRows ((nSize + 1) / 2) (j + nSize) higher
  else pure vMerkleTree
termination_by nSize

/-- The vector `vMerkleTree` after `BuildMerkleTree`. -/
def fillMerkleTree (vtx : List Uint256) : Except Fault (List Uint256) :=
  buildRows hashPair (intSize vtx.length) 0 vtx

/-- `CBlock::BuildMerkleTree` of the transaction hashes. -/
def buildMerkleTree (vtx : List Uint256) : Except Fault Uint256 := do
  let vMerkleTree ← fillMerkleTree hashPair vtx
  pure (vMerkleTree.getLast?.getD 0)

/-- The loop of `GetMerkleBranch`. -/
def branchRows (vMerkleTree : List Uint256) (nSize j nIndex : Nat) :
    Except Fault (List Uint256) :=
  if 1 < nSize then
    match vMerkleTree[j + min (nIndex ^^^ 1) (nSize - 1)]? with
    | none => throw .outOfRange
    | some otherside => do
        let vMerkleBranch ←
          branchRows vMerkleTree ((nSize + 1) / 2) (j + nSize) (nIndex / 2)
        pure (otherside :: vMerkleBranch)
  else pure []
termination_by nSize

/-- `if (vMerkleTree.empty()) BuildMerkleTree()`. -/
def ensureMerkleTree (vtx vMerkleTree : List Uint256) :
    Except Fault (List Uint256) :=
  if vMerkleTree.isEmpty then fillMerkleTree hashPair vtx
  else pure vMerkleTree

/-- `CBlock::GetMerkleBranch` of a block with a vector that may be empty. -/
def getMerkleBranch (vtx vMerkleTree : List Uint256) (nIndex : Nat) :
    Except Fault (List Uint256) := do
  let filled ← ensureMerkleTree hashPair vtx vMerkleTree
  branchRows filled (intSize vtx.length) 0 nIndex

/-- The loop of `CheckMerkleBranch`. -/
def checkRows : List Uint256 → Uint256 → Int → Uint256
  | [], hash, _ => hash
  | otherside :: vMerkleBranch, hash, nIndex =>
      checkRows vMerkleBranch
        (if nIndex % 2 = 1 then hashPair otherside hash
          else hashPair hash otherside)
        (nIndex / 2)

/-- `CBlock::CheckMerkleBranch`. -/
def checkMerkleBranch
    (hash : Uint256) (vMerkleBranch : List Uint256) (nIndex : Int) :
    Uint256 :=
  if nIndex = -1 then 0 else checkRows hashPair vMerkleBranch hash nIndex

theorem intSize_of_lt {count : Nat} (few : count < 2 ^ 31) :
    intSize count = count := by
  rw [intSize, Int32.toInt_ofNat_of_lt few, Int.toNat_natCast]

variable {hashPair} {values before : List Uint256}

theorem getElem?_before
    (later : List Uint256) {index : Nat} {value : Uint256}
    (found : values[index]? = some value) :
    (before ++ values ++ later)[before.length + index]? = some value := by
  have inside := (List.getElem?_eq_some_iff.mp found).1
  rw [List.append_assoc, List.getElem?_append_right (Nat.le_add_right _ _),
    Nat.add_sub_cancel_left, List.getElem?_append_left inside, found]

/-- Appending the parents of the values at the end of the vector. -/
theorem pushPairs_eq (few : Nat) (enough : few ≤ (values.length + 1) / 2) :
    (List.range few).foldlM
        (pushPair hashPair before.length values.length) (before ++ values) =
      .ok (before ++ values ++ (Merkle.parents hashPair values).take few) := by
  induction few with
  | zero =>
      rw [List.take_zero, List.append_nil]
      rfl
  | succ few inductionHypothesis =>
      have isLeft :=
        List.getElem?_eq_getElem (show 2 * few < values.length by omega)
      have isRight :=
        List.getElem?_eq_getElem
          (show min (2 * few + 1) (values.length - 1) < values.length by omega)
      have parent :=
        @Merkle.getElem?_parents _ hashPair _ _ _ _ isLeft isRight
      have pushed :
          pushPair hashPair before.length values.length
              (before ++ values ++
                (Merkle.parents hashPair values).take few) few =
            .ok (before ++ values ++
              (Merkle.parents hashPair values).take (few + 1)) := by
        rw [pushPair, getElem?_before _ isLeft, getElem?_before _ isRight,
          List.take_add_one, parent, ← List.append_assoc]
        rfl
      rw [List.range_succ, List.foldlM_append, inductionHypothesis (by omega)]
      simp only [List.foldlM_cons, List.foldlM_nil, bind, Except.bind, pushed]
      rfl

/-- The vector holds all rows. -/
theorem buildRows_eq (before values : List Uint256) :
    buildRows hashPair values.length before.length (before ++ values) =
      .ok (before ++ Merkle.rows hashPair values) := by
  induction length : values.length using Nat.strong_induction_on
    generalizing before values with
  | _ nSize inductionHypothesis =>
      subst length
      rw [buildRows]
      split_ifs with several
      · have parents := Merkle.length_parents hashPair values
        have pushed :=
          @pushPairs_eq hashPair values before ((values.length + 1) / 2)
            (Nat.le_refl _)
        rw [← parents, List.take_length] at pushed
        have higher :=
          inductionHypothesis (Merkle.parents hashPair values).length
            (by omega) (before ++ values) _ rfl
        rw [List.length_append] at higher
        rw [← parents, pushed]
        rw [Merkle.rows_of_one_lt hashPair several, ← List.append_assoc,
          ← higher]
        rfl
      · rw [Merkle.rows_of_le_one hashPair (not_lt.mp several)]
        rfl

theorem fillMerkleTree_eq {vtx : List Uint256} (few : vtx.length < 2 ^ 31) :
    fillMerkleTree hashPair vtx = .ok (Merkle.rows hashPair vtx) := by
  rw [fillMerkleTree, intSize_of_lt few]
  exact buildRows_eq [] vtx

/-- `BuildMerkleTree` returns the root. -/
theorem buildMerkleTree_eq
    {vtx : List Uint256} {root : Uint256} (few : vtx.length < 2 ^ 31)
    (isRoot :
      Merkle.row hashPair vtx (Merkle.rootHeight vtx.length) = [root]) :
    buildMerkleTree hashPair vtx = .ok root := by
  rw [buildMerkleTree, fillMerkleTree_eq few]
  simp only [bind, Except.bind, Merkle.getLast?_rows hashPair isRoot,
    Option.getD_some]
  rfl

/-! ## Branches -/

theorem xor_one (nIndex : Nat) :
    nIndex ^^^ 1 = if nIndex % 2 = 1 then nIndex - 1 else nIndex + 1 := by
  rcases Nat.even_or_odd nIndex with even | odd
  · rw [Nat.xor_one_of_even even, if_neg (by rw [Nat.even_iff.mp even]; decide)]
  · rw [Nat.xor_one_of_odd odd, if_pos (Nat.odd_iff.mp odd)]

/-- A value and its neighbour are hashed to the value above them. -/
theorem parent_of_neighbour
    {nIndex : Nat} {value : Uint256} (found : values[nIndex]? = some value) :
    ∃ otherside,
      values[min (nIndex ^^^ 1) (values.length - 1)]? = some otherside ∧
        (Merkle.parents hashPair values)[nIndex / 2]? =
          some (if (nIndex : Int) % 2 = 1 then hashPair otherside value
            else hashPair value otherside) := by
  have inside := (List.getElem?_eq_some_iff.mp found).1
  have read : ∀ {index : Nat}, index < values.length →
      ∃ other, values[index]? = some other :=
    fun below => ⟨_, List.getElem?_eq_getElem below⟩
  rcases read (show min (nIndex ^^^ 1) (values.length - 1) < values.length by
      omega) with ⟨otherside, isOther⟩
  refine ⟨otherside, isOther, ?_⟩
  rcases Nat.mod_two_eq_zero_or_one nIndex with even | odd
  · have neighbour :
        min (nIndex ^^^ 1) (values.length - 1) =
          min (2 * (nIndex / 2) + 1) (values.length - 1) := by
      rw [xor_one, if_neg (by omega)]
      omega
    rw [neighbour] at isOther
    rw [if_neg (by omega)]
    refine Merkle.getElem?_parents ?_ isOther
    rw [show 2 * (nIndex / 2) = nIndex by omega, found]
  · have neighbour :
        min (nIndex ^^^ 1) (values.length - 1) = 2 * (nIndex / 2) := by
      rw [xor_one, if_pos odd]
      omega
    rw [neighbour] at isOther
    rw [if_pos (by omega)]
    refine Merkle.getElem?_parents isOther ?_
    rw [show min (2 * (nIndex / 2) + 1) (values.length - 1) = nIndex by omega,
      found]

/-- The branch leads from a value to the last value of all rows. -/
theorem branchRows_checks
    (before values : List Uint256) {nIndex : Nat} {value : Uint256}
    (found : values[nIndex]? = some value) :
    ∃ vMerkleBranch,
      branchRows (before ++ Merkle.rows hashPair values) values.length
          before.length nIndex = .ok vMerkleBranch ∧
        (Merkle.rows hashPair values).getLast? =
          some (checkRows hashPair vMerkleBranch value nIndex) := by
  induction length : values.length using Nat.strong_induction_on
    generalizing before values nIndex value with
  | _ nSize inductionHypothesis =>
      subst length
      have inside := (List.getElem?_eq_some_iff.mp found).1
      rw [branchRows]
      split_ifs with several
      · rcases @parent_of_neighbour hashPair _ _ _ found with
          ⟨otherside, isOther, isParent⟩
        have parents := Merkle.length_parents hashPair values
        rcases inductionHypothesis (Merkle.parents hashPair values).length
            (by omega) (before ++ values) _ isParent rfl with
          ⟨vMerkleBranch, higher, checks⟩
        rw [List.length_append, parents] at higher
        have read :=
          @getElem?_before values before
            (Merkle.rows hashPair (Merkle.parents hashPair values)) _ _ isOther
        rw [Merkle.rows_of_one_lt hashPair several, ← List.append_assoc, read]
        refine ⟨otherside :: vMerkleBranch, ?_, ?_⟩
        · simp only [higher]
          rfl
        · rw [List.getLast?_append, checks, checkRows, Int.natCast_div]
          rfl
      · rcases values with _ | ⟨only, _ | ⟨_, _⟩⟩
        · simp at inside
        · refine ⟨[], rfl, ?_⟩
          have first : nIndex = 0 := by simpa using inside
          rw [first] at found
          rw [Merkle.rows_of_le_one hashPair (by simp)]
          exact found
        · simp at several

/-- Branches of the transactions of a block lead to its root. -/
theorem checkMerkleBranch_getMerkleBranch
    (hashPair : Uint256 → Uint256 → Uint256) (vtx vMerkleTree : List Uint256)
    (nIndex : Nat) (txid : Uint256) (few : vtx.length ≤ 2 ^ 30)
    (found : vtx[nIndex]? = some txid)
    (filled :
      vMerkleTree = [] ∨ fillMerkleTree hashPair vtx = .ok vMerkleTree) :
    ∃ root vMerkleBranch,
      buildMerkleTree hashPair vtx = .ok root ∧
      getMerkleBranch hashPair vtx vMerkleTree nIndex = .ok vMerkleBranch ∧
      checkMerkleBranch hashPair txid vMerkleBranch nIndex = root := by
  have small : vtx.length < 2 ^ 31 := by omega
  have all := @fillMerkleTree_eq hashPair vtx small
  have tree :
      ensureMerkleTree hashPair vtx vMerkleTree =
        .ok (Merkle.rows hashPair vtx) := by
    rw [ensureMerkleTree]
    rcases filled with rfl | isFilled
    · exact all
    · rw [isFilled] at all ⊢
      cases all
      split_ifs <;> rfl
  rcases @branchRows_checks hashPair [] vtx nIndex txid found with
    ⟨vMerkleBranch, branch, checks⟩
  refine ⟨_, vMerkleBranch, ?_, ?_, rfl⟩
  · rw [buildMerkleTree, all, checkMerkleBranch, if_neg (by omega)]
    simp only [bind, Except.bind, checks, Option.getD_some]
    rfl
  · rw [getMerkleBranch, tree, intSize_of_lt small]
    exact branch

/-- A tree of three transactions. -/
theorem checkMerkleBranch_getMerkleBranch_three :
    ∃ root vMerkleBranch,
      buildMerkleTree (fun left right => 3 * left + right) [1, 2, 4] =
          .ok root ∧
        getMerkleBranch (fun left right => 3 * left + right) [1, 2, 4] [] 2 =
          .ok vMerkleBranch ∧
        checkMerkleBranch (fun left right => 3 * left + right) 4
            vMerkleBranch 2 = root :=
  checkMerkleBranch_getMerkleBranch (fun left right => 3 * left + right)
    [1, 2, 4] [] 2 4 (by decide) rfl (Or.inl rfl)

/-! ## Too many transactions -/

/-- With `2 ^ 31` transactions the size is negative, and no row is built. -/
theorem fillMerkleTree_negative
    {vtx : List Uint256} (many : vtx.length = 2 ^ 31) :
    fillMerkleTree hashPair vtx = .ok vtx := by
  have size : intSize vtx.length = 0 := by
    rw [many]
    decide
  rw [fillMerkleTree, size, buildRows, if_neg (by decide)]
  rfl

theorem getMerkleBranch_negative
    {vtx : List Uint256} (many : vtx.length = 2 ^ 31) (nIndex : Nat) :
    getMerkleBranch hashPair vtx [] nIndex = .ok [] := by
  have size : intSize vtx.length = 0 := by
    rw [many]
    decide
  rw [getMerkleBranch, ensureMerkleTree, List.isEmpty_nil, if_pos rfl,
    fillMerkleTree_negative many, size]
  simp only [bind, Except.bind]
  rw [branchRows, if_neg (by decide)]
  rfl

/-- The branch of the first of `2 ^ 31` transactions does not lead to the root. -/
theorem firstBranch_fails :
    ∃ (vtx : List Uint256) (txid root : Uint256)
        (vMerkleBranch : List Uint256),
      vtx[0]? = some txid ∧
      buildMerkleTree (fun left _ => left) vtx = .ok root ∧
      getMerkleBranch (fun left _ => left) vtx [] 0 = .ok vMerkleBranch ∧
      checkMerkleBranch (fun left _ => left) txid vMerkleBranch 0 ≠ root := by
  have many :
      ((1 : Uint256) :: List.replicate (2 ^ 31 - 1) 0).length = 2 ^ 31 := by
    rw [List.length_cons, List.length_replicate, Nat.sub_add_cancel (by decide)]
  refine ⟨1 :: List.replicate (2 ^ 31 - 1) 0, 1, 0, [], rfl, ?_,
    getMerkleBranch_negative many 0, by decide⟩
  have last :
      ((1 : Uint256) :: List.replicate (2 ^ 31 - 1) 0).getLast? = some 0 := by
    rw [List.getLast?_cons, List.getLast?_replicate, if_neg (by decide)]
    rfl
  rw [buildMerkleTree, fillMerkleTree_negative many]
  simp only [bind, Except.bind, last, Option.getD_some]
  rfl

end DSValue.Merkle.BlockTree
