import DSValue.Merkle.BlockTree

/-!
# What a merkle root fixes

Two lists of different transaction hashes with one root are equal when hashing
does not collide in their trees.  Lists with repeated hashes are not fixed,
since the end of a list can be repeated without changing the root, and
`CheckBlock` refuses them.
-/

namespace DSValue.Merkle.RootBinding

open DSValue.Lib
open DSValue.Core.Serialize
open DSValue.Core.Transaction
open DSValue.Consensus.CheckBlock hiding buildMerkleTree
open DSValue.Merkle.BlockTree

variable (hashPair : Uint256 → Uint256 → Uint256)

/-- The pairs that the loop of `BuildMerkleTree` hashes. -/
def hashedRows (nSize : Nat) (values : List Uint256) :
    List (Uint256 × Uint256) :=
  if 1 < nSize then
    Merkle.pairs values ++
      hashedRows ((nSize + 1) / 2) (Merkle.parents hashPair values)
  else []
termination_by nSize

/-- The pairs that `BuildMerkleTree` hashes. -/
def hashedPairs (vtx : List Uint256) : List (Uint256 × Uint256) :=
  hashedRows hashPair (intSize vtx.length) vtx

/-- No two pairs collide in two trees, and no transaction hash is that of one. -/
structure CollisionFree (first second : List Uint256) : Prop where
  pairs :
    Set.InjOn (fun pair => hashPair pair.1 pair.2)
      {pair | pair ∈ hashedPairs hashPair first ++ hashedPairs hashPair second}
  leaves :
    ∀ txid ∈ first ++ second,
      ∀ pair ∈ hashedPairs hashPair first ++ hashedPairs hashPair second,
        txid ≠ hashPair pair.1 pair.2

variable {hashPair} {first second values : List Uint256}

theorem CollisionFree.symm (free : CollisionFree hashPair first second) :
    CollisionFree hashPair second first where
  pairs := by
    refine free.pairs.mono fun pair member => ?_
    simp only [Set.mem_ofPred_eq, List.mem_append] at member ⊢
    exact member.symm
  leaves := by
    intro txid isLeaf pair member
    simp only [List.mem_append] at isLeaf member
    exact free.leaves txid (List.mem_append.mpr isLeaf.symm) pair
      (List.mem_append.mpr member.symm)

theorem mem_hashedRows
    {height : Nat} {pair : Uint256 × Uint256}
    (below : height < Merkle.rootHeight values.length)
    (member : pair ∈ Merkle.pairs (Merkle.row hashPair values height)) :
    pair ∈ hashedRows hashPair values.length values := by
  induction height generalizing values with
  | zero =>
      have several := Merkle.one_lt_width_iff.mpr below
      rw [Merkle.width_zero] at several
      rw [hashedRows, if_pos several]
      exact List.mem_append_left _ member
  | succ height inductionHypothesis =>
      have several : 1 < values.length := by
        rw [← Merkle.width_zero values.length, Merkle.one_lt_width_iff]
        omega
      rw [hashedRows, if_pos several]
      apply List.mem_append_right
      rw [← Merkle.length_parents hashPair]
      apply inductionHypothesis
      · rw [Merkle.rootHeight_of_one_lt several,
          ← Merkle.length_parents hashPair] at below
        omega
      · rw [Merkle.row_parents]
        exact member

theorem mem_hashedPairs
    {vtx : List Uint256} {height : Nat} {pair : Uint256 × Uint256}
    (few : vtx.length < 2 ^ 31)
    (below : height < Merkle.rootHeight vtx.length)
    (member : pair ∈ Merkle.pairs (Merkle.row hashPair vtx height)) :
    pair ∈ hashedPairs hashPair vtx := by
  rw [hashedPairs, intSize_of_lt few]
  exact mem_hashedRows below member

/-- A list whose tree is not higher is a row of the other tree. -/
theorem eq_row_of_root
    (free : CollisionFree hashPair first second)
    (firstFew : first.length < 2 ^ 31) (secondFew : second.length < 2 ^ 31)
    (firstDistinct : first.Nodup) (secondDistinct : second.Nodup)
    (lower :
      Merkle.rootHeight first.length ≤ Merkle.rootHeight second.length)
    (same :
      Merkle.row hashPair first (Merkle.rootHeight first.length) =
        Merkle.row hashPair second (Merkle.rootHeight second.length)) :
    first =
      Merkle.row hashPair second
        (Merkle.rootHeight second.length - Merkle.rootHeight first.length) := by
  refine Merkle.eq_row_of_row_eq free.pairs firstDistinct secondDistinct
    (Merkle.rootHeight first.length) _ ?_ ?_ ?_
  · intro height below pair member
    exact List.mem_append_left _ (mem_hashedPairs firstFew below member)
  · intro height below pair member
    rw [Nat.add_sub_cancel' lower] at below
    exact List.mem_append_right _ (mem_hashedPairs secondFew below member)
  · rw [Nat.add_sub_cancel' lower]
    exact same

/-- Trees of one root have one height, since leaves are no parents. -/
theorem eq_of_root_of_le
    (free : CollisionFree hashPair first second)
    (firstFew : first.length < 2 ^ 31) (secondFew : second.length < 2 ^ 31)
    (firstSome : first ≠ [])
    (firstDistinct : first.Nodup) (secondDistinct : second.Nodup)
    (lower :
      Merkle.rootHeight first.length ≤ Merkle.rootHeight second.length)
    (same :
      Merkle.row hashPair first (Merkle.rootHeight first.length) =
        Merkle.row hashPair second (Merkle.rootHeight second.length)) :
    first = second := by
  have isRow :=
    eq_row_of_root free firstFew secondFew firstDistinct secondDistinct lower
      same
  cases difference :
      Merkle.rootHeight second.length - Merkle.rootHeight first.length with
  | zero =>
      rw [difference] at isRow
      exact isRow
  | succ height =>
      rw [difference, Merkle.row] at isRow
      rcases List.exists_mem_of_ne_nil first firstSome with ⟨txid, isLeaf⟩
      have isParent := isLeaf
      rw [isRow, Merkle.parents, List.mem_map] at isParent
      rcases isParent with ⟨pair, member, isHash⟩
      have hashed :=
        @mem_hashedPairs hashPair second height pair secondFew (by omega) member
      exact absurd isHash.symm
        (free.leaves txid (List.mem_append_left _ isLeaf) pair
          (List.mem_append_right _ hashed))

theorem eq_of_root
    (free : CollisionFree hashPair first second)
    (firstFew : first.length < 2 ^ 31) (secondFew : second.length < 2 ^ 31)
    (firstSome : first ≠ []) (secondSome : second ≠ [])
    (firstDistinct : first.Nodup) (secondDistinct : second.Nodup)
    (same :
      Merkle.row hashPair first (Merkle.rootHeight first.length) =
        Merkle.row hashPair second (Merkle.rootHeight second.length)) :
    first = second := by
  rcases le_total (Merkle.rootHeight first.length)
      (Merkle.rootHeight second.length) with lower | higher
  · exact eq_of_root_of_le free firstFew secondFew firstSome firstDistinct
      secondDistinct lower same
  · exact (eq_of_root_of_le free.symm secondFew firstFew secondSome
      secondDistinct firstDistinct higher same.symm).symm

/-! ## The root that `CheckBlock` compares -/

theorem merkleLevel_eq (values : List Uint256) :
    merkleLevel hashPair values = Merkle.parents hashPair values := by
  induction values using merkleLevel.induct with
  | case1 => rfl
  | case2 last => rfl
  | case3 left right rest inductionHypothesis =>
      rw [merkleLevel, inductionHypothesis]
      rfl

/-- `CheckBlock` compares with the value of the last row. -/
theorem row_rootHeight (values : List Uint256) (some : values ≠ []) :
    Merkle.row hashPair values (Merkle.rootHeight values.length) =
      [Consensus.CheckBlock.buildMerkleTree hashPair values] := by
  induction length : values.length using Nat.strong_induction_on
    generalizing values with
  | _ count inductionHypothesis =>
      subst length
      rcases values with _ | ⟨left, _ | ⟨right, rest⟩⟩
      · exact absurd rfl some
      · rfl
      · have several : 1 < (left :: right :: rest).length := by simp
        have shorter :=
          Merkle.length_parents hashPair (left :: right :: rest)
        have parentsSome :
            Merkle.parents hashPair (left :: right :: rest) ≠ [] := by
          rw [← List.length_pos_iff_ne_nil, shorter]
          omega
        have higher :=
          inductionHypothesis _ (by omega) _ parentsSome rfl
        have enough := shorter
        rw [← merkleLevel_eq] at enough
        simp only [List.length_cons] at enough
        have bounded :=
          merkleLoop_bound hashPair (rest.length + 1)
            (merkleLevel hashPair (left :: right :: rest)) (by omega)
        rw [Merkle.row_parents, shorter, ← merkleLevel_eq] at higher
        rw [Merkle.rootHeight_of_one_lt several, higher]
        simp only [Consensus.CheckBlock.buildMerkleTree, List.length_cons,
          merkleLoop, bounded]

/-- The transaction hashes of a checked block. -/
theorem root_of_checkBlock
    {node : Node} {block : CBlock} {fCheckPOW : Bool}
    (accepted : node.checkBlock block fCheckPOW true = .ok ()) :
    block.vtx.map node.txHash ≠ [] ∧
      (block.vtx.map node.txHash).length ≤ MAX_BLOCK_SIZE ∧
      (block.vtx.map node.txHash).Nodup ∧
      block.hashMerkleRoot =
        Consensus.CheckBlock.buildMerkleTree node.hashPair
          (block.vtx.map node.txHash) := by
  simp only [Node.checkBlock, bind_eq_ok, require_eq_ok, Bool.and_eq_true,
    decide_eq_true_eq, Bool.not_true, Bool.false_or] at accepted
  rcases accepted with ⟨_, ⟨⟨some, few⟩, -⟩, _, -, _, -, _, -, _, -, _,
    distinct, _, -, root⟩
  refine ⟨?_, by rw [List.length_map]; exact few, distinct, root⟩
  simpa using some

/-- A merkle root fixes the list of the transaction hashes. -/
theorem merkleRoot_fixes_transactions
    (hashPair : Uint256 → Uint256 → Uint256) (first second : List Uint256)
    (free : CollisionFree hashPair first second) :
    (first ≠ [] → second ≠ [] → first.length ≤ 2 ^ 30 →
      second.length ≤ 2 ^ 30 → first.Nodup → second.Nodup →
      buildMerkleTree hashPair first = buildMerkleTree hashPair second →
        first = second) ∧
    ∀ (node : Node) (block other : CBlock) (fCheckPOW otherPOW : Bool),
      node.hashPair = hashPair →
      block.vtx.map node.txHash = first →
      other.vtx.map node.txHash = second →
      node.checkBlock block fCheckPOW true = .ok () →
      node.checkBlock other otherPOW true = .ok () →
      block.hashMerkleRoot = other.hashMerkleRoot → first = second := by
  constructor
  · intro firstSome secondSome firstFew secondFew firstDistinct
      secondDistinct same
    have firstSmall : first.length < 2 ^ 31 := by omega
    have secondSmall : second.length < 2 ^ 31 := by omega
    rcases Merkle.exists_root hashPair firstSome with ⟨firstRoot, isFirst⟩
    rcases Merkle.exists_root hashPair secondSome with ⟨secondRoot, isSecond⟩
    rw [buildMerkleTree_eq firstSmall isFirst,
      buildMerkleTree_eq secondSmall isSecond, Except.ok.injEq] at same
    refine eq_of_root free firstSmall secondSmall firstSome secondSome
      firstDistinct secondDistinct ?_
    rw [isFirst, isSecond, same]
  · rintro node block other fCheckPOW otherPOW rfl rfl rfl accepted
      otherAccepted same
    rcases root_of_checkBlock accepted with ⟨some, few, distinct, root⟩
    rcases root_of_checkBlock otherAccepted with
      ⟨otherSome, otherFew, otherDistinct, otherRoot⟩
    have small : MAX_BLOCK_SIZE < 2 ^ 31 := by decide
    refine eq_of_root free (few.trans_lt small) (otherFew.trans_lt small)
      some otherSome distinct otherDistinct ?_
    rw [row_rootHeight _ some, row_rootHeight _ otherSome, ← root,
      ← otherRoot, same]

/-- The pairs of a tree of three transactions. -/
theorem hashedPairs_three (last : Uint256) :
    hashedPairs (fun left right => 3 * left + right) [1, 2, last] =
      [(1, 2), (last, last), (5, 3 * last + last)] := by
  rw [hashedPairs, intSize_of_lt (by simp)]
  simp only [List.length_cons, List.length_nil]
  rw [hashedRows, if_pos (by decide), hashedRows, if_pos (by decide),
    hashedRows, if_neg (by decide)]
  rfl

/-- Blocks of three transactions with different roots. -/
theorem merkleRoot_fixes_transactions_three :
    buildMerkleTree (fun left right => 3 * left + right) [1, 2, 4] ≠
      buildMerkleTree (fun left right => 3 * left + right) [1, 2, 6] := by
  intro same
  refine absurd ((merkleRoot_fixes_transactions
    (fun left right => 3 * left + right) [1, 2, 4] [1, 2, 6] ⟨?_, ?_⟩).1
      (by decide) (by decide) (by decide) (by decide) (by decide) (by decide)
      same) (by decide)
  · rw [hashedPairs_three, hashedPairs_three]
    intro pair isPair other isOther same
    have distinct :
        ([(1, 2), (4, 4), (5, 16), (6, 6), (5, 24)].map
          fun pair : Uint256 × Uint256 => 3 * pair.1 + pair.2).Nodup := by
      decide
    refine List.inj_on_of_nodup_map distinct ?_ ?_ same
    · simp at isPair ⊢
      tauto
    · simp at isOther ⊢
      tauto
  · rw [hashedPairs_three, hashedPairs_three]
    simp

/-! ## Too many transactions -/

theorem hashedPairs_negative
    {vtx : List Uint256} (many : vtx.length = 2 ^ 31) :
    hashedPairs hashPair vtx = [] := by
  have size : intSize vtx.length = 0 := by
    rw [many]
    decide
  rw [hashedPairs, size, hashedRows, if_neg (by decide)]

theorem hashedPairs_single (txid : Uint256) :
    hashedPairs hashPair [txid] = [] := by
  rw [hashedPairs, intSize_of_lt (by simp), hashedRows, if_neg (by simp)]

/-- A list of `2 ^ 31` hashes has the root of its last one. -/
theorem sameRoot_of_many
    {vtx : List Uint256} (many : vtx.length = 2 ^ 31) (someHash : vtx ≠ [])
    (hashPair : Uint256 → Uint256 → Uint256) :
    CollisionFree hashPair vtx [vtx.getLast someHash] ∧
      buildMerkleTree hashPair vtx =
        buildMerkleTree hashPair [vtx.getLast someHash] := by
  have none : hashedPairs hashPair vtx ++
      hashedPairs hashPair [vtx.getLast someHash] = [] := by
    rw [hashedPairs_negative many, hashedPairs_single, List.append_nil]
  refine ⟨⟨?_, ?_⟩, ?_⟩
  · rw [none]
    intro pair member
    cases member
  · rw [none]
    intro txid isLeaf pair member
    cases member
  · rw [buildMerkleTree, fillMerkleTree_negative many, buildMerkleTree,
      fillMerkleTree_eq (by simp), Merkle.rows_of_le_one hashPair (by simp)]
    simp only [bind, Except.bind, List.getLast?_eq_some_getLast someHash,
      List.getLast?_singleton]

theorem nodup_map_ofNat {count : Nat} (few : count ≤ 2 ^ 256) :
    ((List.range count).map (BitVec.ofNat 256)).Nodup := by
  refine List.Nodup.map_on ?_ List.nodup_range
  intro first isFirst second isSecond same
  rw [List.mem_range] at isFirst isSecond
  have values := congrArg BitVec.toNat same
  rw [BitVec.toNat_ofNat, BitVec.toNat_ofNat, Nat.mod_eq_of_lt (by omega),
    Nat.mod_eq_of_lt (by omega)] at values
  exact values

theorem exists_many (count : Nat) (few : count ≤ 2 ^ 256) :
    ∃ vtx : List Uint256, vtx.length = count ∧ vtx.Nodup :=
  ⟨_, by rw [List.length_map, List.length_range], nodup_map_ofNat few⟩

theorem merkleRoot_misses_transactions :
    ∃ first second : List Uint256,
      first ≠ [] ∧ second ≠ [] ∧ first.Nodup ∧ second.Nodup ∧
      first ≠ second ∧
      ∀ hashPair : Uint256 → Uint256 → Uint256,
        CollisionFree hashPair first second ∧
          buildMerkleTree hashPair first = buildMerkleTree hashPair second := by
  rcases exists_many (2 ^ 31) (by decide) with ⟨vtx, many, distinct⟩
  have someHash : vtx ≠ [] := by
    rw [← List.length_pos_iff_ne_nil, many]
    decide
  refine ⟨vtx, [vtx.getLast someHash], someHash, List.cons_ne_nil _ _,
    distinct, List.nodup_singleton _, ?_, sameRoot_of_many many someHash⟩
  intro same
  have lengths := congrArg List.length same
  rw [many] at lengths
  cases lengths

end DSValue.Merkle.RootBinding
