import DSValue.Consensus.CheckLottoResult

/-!
# Checks of a transaction and of a block without its context

`CheckTransaction` and `CheckBlock`.  A rejected block leaves a `Reject`, a
failed assertion or an exception leaves a `Fault`.
-/

namespace DSValue.Consensus.CheckBlock

open DSValue.Lib
open DSValue.Core.Serialize
open DSValue.Core.Header
open DSValue.Core.Transaction
open DSValue.Script.Scan
open DSValue.Consensus.CheckLottoResult

/-- How validation ends without success. -/
inductive Failure where
  | fault (fault : Fault)
  | reject (reject : Reject)
deriving DecidableEq

/-- `if (!condition) return state.DoS(..)`. -/
def require (condition : Bool) (reject : Reject) : Except Failure Unit :=
  if condition then pure () else throw (.reject reject)

@[simp]
theorem require_eq_ok
    {condition : Bool} {reject : Reject} {result : Unit} :
    require condition reject = .ok result ↔ condition = true := by
  cases condition <;> simp [require, throw, throwThe, MonadExceptOf.throw]
  rfl

/-- Code that cannot reject. -/
def orFault {α : Type} : Except Fault α → Except Failure α
  | .ok value => .ok value
  | .error fault => .error (.fault fault)

@[simp]
theorem orFault_eq_ok {α : Type} {run : Except Fault α} {value : α} :
    orFault run = .ok value ↔ run = .ok value := by
  cases run <;> simp [orFault]

/-- Code that returns what it rejects. -/
def orReject : Except Fault (Option Reject) → Except Failure Unit
  | .ok none => .ok ()
  | .ok (some reject) => .error (.reject reject)
  | .error fault => .error (.fault fault)

@[simp]
theorem orReject_eq_ok
    {run : Except Fault (Option Reject)} {result : Unit} :
    orReject run = .ok result ↔ run = .ok none := by
  rcases run with _ | _ | _ <;> simp [orReject]

/-- `MAX_BLOCK_SIZE`. -/
def MAX_BLOCK_SIZE : Nat := 1000000

/-- `MAX_BLOCK_SIGOPS`. -/
def MAX_BLOCK_SIGOPS : Nat := MAX_BLOCK_SIZE / 50

/-! ## Transactions -/

/-- The loop of `CheckTransaction` over the outputs. -/
def checkOutputs : List CTxOut → Int64 → Except Failure Unit
  | [], _ => pure ()
  | txout :: rest, nValueOut => do
      require (0 ≤ txout.nValue)
        ⟨100, .invalid, "bad-txns-vout-negative", false⟩
      require (txout.nValue ≤ MAX_MONEY)
        ⟨100, .invalid, "bad-txns-vout-toolarge", false⟩
      require (moneyRange (nValueOut + txout.nValue))
        ⟨100, .invalid, "bad-txns-txouttotal-toolarge", false⟩
      checkOutputs rest (nValueOut + txout.nValue)

/-- The checks of `CheckTransaction` that depend on being a coinbase. -/
def checkPrevouts (tx : CTransaction) : Except Failure Unit :=
  if tx.isCoinBase then
    require
      (tx.vin.all fun txin =>
        2 ≤ txin.scriptSig.length ∧ txin.scriptSig.length ≤ 100)
      ⟨100, .invalid, "bad-cb-length", false⟩
  else
    require (tx.vin.all fun txin => !txin.prevout.isNull)
      ⟨10, .invalid, "bad-txns-prevout-null", false⟩

/-- `CheckTransaction`. -/
def checkTransaction (tx : CTransaction) : Except Failure Unit := do
  require (!tx.vin.isEmpty) ⟨10, .invalid, "bad-txns-vin-empty", false⟩
  require (!tx.vout.isEmpty) ⟨10, .invalid, "bad-txns-vout-empty", false⟩
  require (tx.serialize.length ≤ MAX_BLOCK_SIZE)
    ⟨100, .invalid, "bad-txns-oversize", false⟩
  checkOutputs tx.vout 0
  require (tx.vin.map CTxIn.prevout).Nodup
    ⟨100, .invalid, "bad-txns-inputs-duplicate", false⟩
  checkPrevouts tx

/-- `GetLegacySigOpCount`. -/
def getLegacySigOpCount (tx : CTransaction) : Nat :=
  (tx.vin.map fun txin => getSigOpCount false txin.scriptSig).sum +
    (tx.vout.map fun txout => getSigOpCount false txout.scriptPubKey).sum

/-! ## Proof of work and the merkle root -/

/-- `CBigNum::SetCompact`. -/
def setCompact (nCompact : UInt32) : Int :=
  let nSize := nCompact.toNat / 2 ^ 24
  let nWord := nCompact.toNat % 2 ^ 23
  let magnitude : Nat :=
    if nSize ≤ 3 then nWord / 256 ^ (3 - nSize) else nWord * 256 ^ (nSize - 3)
  if nCompact.toNat / 2 ^ 23 % 2 = 1 then -magnitude else magnitude

/-- `Params().ProofOfWorkLimit()`. -/
def proofOfWorkLimit : Network → Nat
  | .main => 2 ^ 248 - 1
  | .testnet => 2 ^ 248 - 1
  | .regtest => 2 ^ 252 - 1

/-- `CheckProofOfWork`. -/
def checkProofOfWork (network : Network) (hash : Uint256) (nBits : UInt32) :
    Bool :=
  0 < setCompact nBits ∧ setCompact nBits ≤ proofOfWorkLimit network ∧
    (hash.toNat : Int) ≤ setCompact nBits

/-- One level of the merkle tree, the last hash paired with itself. -/
def merkleLevel (hashPair : Uint256 → Uint256 → Uint256) :
    List Uint256 → List Uint256
  | [] => []
  | [last] => [hashPair last last]
  | left :: right :: rest =>
      hashPair left right :: merkleLevel hashPair rest

/-- The levels up to the root, on a bound for their number. -/
def merkleLoop (hashPair : Uint256 → Uint256 → Uint256) :
    Nat → List Uint256 → Uint256
  | _, [] => 0
  | _, [root] => root
  | 0, _ => 0
  | bound + 1, level => merkleLoop hashPair bound (merkleLevel hashPair level)

/-- `CBlock::BuildMerkleTree` of the transaction hashes. -/
def buildMerkleTree
    (hashPair : Uint256 → Uint256 → Uint256) (txHashes : List Uint256) :
    Uint256 :=
  merkleLoop hashPair txHashes.length txHashes

theorem merkleLevel_length
    (hashPair : Uint256 → Uint256 → Uint256) (level : List Uint256) :
    (merkleLevel hashPair level).length = (level.length + 1) / 2 := by
  induction level using merkleLevel.induct with
  | case1 => rfl
  | case2 last => simp [merkleLevel]
  | case3 left right rest inductionHypothesis =>
      rw [merkleLevel, List.length_cons, inductionHypothesis]
      simp only [List.length_cons]
      omega

/-- The number of transactions bounds the number of levels. -/
theorem merkleLoop_bound
    (hashPair : Uint256 → Uint256 → Uint256) (bound : Nat)
    (level : List Uint256) (enough : level.length ≤ bound) :
    merkleLoop hashPair bound level =
      merkleLoop hashPair level.length level := by
  induction bound using Nat.strong_induction_on generalizing level with
  | _ bound inductionHypothesis =>
      rcases level with _ | ⟨left, _ | ⟨right, rest⟩⟩
      · simp [merkleLoop]
      · simp [merkleLoop]
      · cases bound with
        | zero => simp at enough
        | succ bound =>
            simp only [List.length_cons] at enough
            have shorter :=
              merkleLevel_length hashPair (left :: right :: rest)
            simp only [List.length_cons] at shorter
            simp only [List.length_cons, merkleLoop]
            rw [inductionHypothesis bound (Nat.lt_succ_self bound) _
                (by omega),
              inductionHypothesis (rest.length + 1) (by omega) _ (by omega)]

/-! ## Blocks -/

/--
What a node reads besides what `CheckLottoResult` does.  `txHash` is
`CTransaction::GetHash`, `hashPair` hashes two joined hashes, `verifyScript`
is the script interpreter on an input of a transaction, and scripts are
verified from `nTotalBlocksEstimate` on, without script check threads.
-/
structure Node extends View where
  txHash : CTransaction → Uint256
  hashPair : Uint256 → Uint256 → Uint256
  verifyScript : CScript → CScript → CTransaction → Nat → Bool → Bool
  nTotalBlocksEstimate : Nat
  nAdjustedTime : Int

/-- `CBlockHeader::GetHash`. -/
def Node.blockHash (node : Node) (block : CBlock) : Uint256 :=
  CBlockHeader.getHash node.hash9 block.toCBlockHeader

/-- The check that exactly the first transaction is a coinbase. -/
def checkCoinBases : List CTransaction → Except Failure Unit
  | [] => throw (.reject ⟨100, .invalid, "bad-cb-missing", false⟩)
  | first :: rest => do
      require first.isCoinBase ⟨100, .invalid, "bad-cb-missing", false⟩
      require (rest.all fun tx => !tx.isCoinBase)
        ⟨100, .invalid, "bad-cb-multiple", false⟩

/-- `CheckBlock`. -/
def Node.checkBlock
    (node : Node) (block : CBlock) (fCheckPOW fCheckMerkleRoot : Bool) :
    Except Failure Unit := do
  require
    (!block.vtx.isEmpty && decide (block.vtx.length ≤ MAX_BLOCK_SIZE) &&
      decide (block.serialize.length ≤ MAX_BLOCK_SIZE))
    ⟨100, .invalid, "bad-blk-length", false⟩
  require
    (!fCheckPOW ||
      checkProofOfWork node.network (node.blockHash block) block.nBits)
    ⟨50, .invalid, "high-hash", false⟩
  require ((block.nTime.toNat : Int) ≤ node.nAdjustedTime + 2 * 60 * 60)
    ⟨0, .invalid, "time-too-new", false⟩
  checkCoinBases block.vtx
  block.vtx.forM checkTransaction
  require (block.vtx.map node.txHash).Nodup
    ⟨100, .invalid, "bad-txns-duplicate", true⟩
  require ((block.vtx.map getLegacySigOpCount).sum ≤ MAX_BLOCK_SIGOPS)
    ⟨100, .invalid, "bad-blk-sigops", true⟩
  require
    (!fCheckMerkleRoot ||
      block.hashMerkleRoot =
        buildMerkleTree node.hashPair (block.vtx.map node.txHash))
    ⟨100, .invalid, "bad-txnmrklroot", true⟩

/-! ## What a checked block satisfies -/

theorem forM_eq_ok
    {α : Type} {check : α → Except Failure Unit} {values : List α}
    {result : Unit} :
    values.forM check = .ok result ↔
      ∀ value ∈ values, check value = .ok () := by
  induction values with
  | nil => exact ⟨fun _ _ member => absurd member List.not_mem_nil, fun _ => rfl⟩
  | cons head tail inductionHypothesis =>
      rw [List.forM, bind_eq_ok, List.forall_mem_cons, ← inductionHypothesis]
      constructor
      · rintro ⟨_, first, later⟩
        exact ⟨first, later⟩
      · rintro ⟨first, later⟩
        exact ⟨(), first, later⟩

/-- Every output of a checked transaction is in the money range. -/
theorem moneyRange_of_checkOutputs
    {vout : List CTxOut} {nValueOut : Int64} {result : Unit}
    (checked : checkOutputs vout nValueOut = .ok result) :
    ∀ txout ∈ vout, moneyRange txout.nValue = true := by
  induction vout generalizing nValueOut with
  | nil => simp
  | cons head tail inductionHypothesis =>
      simp only [checkOutputs, bind_eq_ok, require_eq_ok] at checked
      rcases checked with ⟨_, nonneg, _, bounded, _, _, later⟩
      intro txout member
      rcases List.mem_cons.mp member with rfl | inTail
      · simp only [decide_eq_true_eq] at nonneg bounded
        simpa [moneyRange] using ⟨nonneg, bounded⟩
      · exact inductionHypothesis later txout inTail

theorem moneyRange_of_checkTransaction
    {tx : CTransaction} (checked : checkTransaction tx = .ok ()) :
    ∀ txout ∈ tx.vout, moneyRange txout.nValue = true := by
  simp only [checkTransaction, bind_eq_ok] at checked
  rcases checked with ⟨_, _, _, _, _, _, _, outputs, _⟩
  exact moneyRange_of_checkOutputs outputs

/-- The transactions of a block that `CheckBlock` lets pass. -/
structure Checked (block : CBlock) (coinBaseTx : CTransaction)
    (others : List CTransaction) : Prop where
  vtx : block.vtx = coinBaseTx :: others
  coinBase : coinBaseTx.isCoinBase = true
  noCoinBase : ∀ tx ∈ others, tx.isCoinBase = false
  transactions : ∀ tx ∈ block.vtx, checkTransaction tx = .ok ()

theorem checked_of_checkBlock
    {node : Node} {block : CBlock} {fCheckPOW fCheckMerkleRoot : Bool}
    (accepted :
      node.checkBlock block fCheckPOW fCheckMerkleRoot = .ok ()) :
    ∃ coinBaseTx others, Checked block coinBaseTx others := by
  simp only [Node.checkBlock, bind_eq_ok, forM_eq_ok] at accepted
  rcases accepted with ⟨_, _, _, _, _, _, _, coinBases, _, transactions, _⟩
  rcases vtx : block.vtx with _ | ⟨coinBaseTx, others⟩
  · simp [vtx, checkCoinBases, throw, throwThe, MonadExceptOf.throw]
      at coinBases
  simp only [vtx, checkCoinBases, bind_eq_ok, require_eq_ok] at coinBases
  rcases coinBases with ⟨_, coinBase, noCoinBase⟩
  refine ⟨coinBaseTx, others, vtx, coinBase, ?_, transactions⟩
  simpa using noCoinBase

end DSValue.Consensus.CheckBlock
