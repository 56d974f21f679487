import DSValue.Consensus.ConnectBlock
import DSValue.Core.CoinsCodec

/-!
# Undo data

`CCoins::Spend` hands out the output it spends, and the metadata of the
transaction when this was its last output.  `UpdateCoins` collects these
records for the inputs of a transaction, and `ConnectBlock` writes them to
disk for all transactions but the coinbase.

A record without metadata has height zero.  On disk the height and the
coinbase flag share one number, and the version follows only behind a height.
-/

namespace DSValue.Coins.Undo

open DSValue.Lib
open DSValue.Lib.Stream
open DSValue.Core.Serialize
open DSValue.Core.Deserialize
open DSValue.Core.VarInt
open DSValue.Core.Transaction
open DSValue.Core.Compress
open DSValue.Consensus.CheckBlock
open DSValue.Consensus.ConnectBlock

/-- `CTxInUndo`. -/
structure CTxInUndo where
  txout : CTxOut
  fCoinBase : Bool
  nHeight : UInt32
  nVersion : Int32
deriving DecidableEq

/-! ## Collecting the records -/

/-- `CCoins::Spend` with its undo record. -/
def spend (coins : CCoins) (nPos : Nat) : Option (CCoins × CTxInUndo) :=
  match coins.vout[nPos]? with
  | none => none
  | some txout =>
      if txout.isNull then none
      else
        let spent :=
          CCoins.cleanup
            { coins with vout := coins.vout.set nPos CTxOut.null }
        some (spent,
          if spent.vout.isEmpty then
            ⟨txout, coins.fCoinBase, coins.nHeight.toUInt32, coins.nVersion⟩
          else ⟨txout, false, 0, 0⟩)

/-- The loop of `UpdateCoins` over the inputs. -/
def spendInputs (view : CCoinsView) :
    List CTxIn → Except Fault (CCoinsView × List CTxInUndo)
  | [] => pure (view, [])
  | txin :: rest =>
      match view.coins txin.prevout.hash with
      | none => throw .assertion
      | some coins =>
          match spend coins txin.prevout.n.toNat with
          | none => throw .assertion
          | some (spent, undo) => do
              let later ←
                spendInputs (view.setCoins txin.prevout.hash spent) rest
              pure (later.1, undo :: later.2)

/-- The inputs that `UpdateCoins` spends. -/
def spentInputs (tx : CTransaction) : List CTxIn :=
  if tx.isCoinBase then [] else tx.vin

/-- `UpdateCoins` with the undo records it collects. -/
def updateCoins
    (node : Node) (view : CCoinsView) (nHeight : Nat) (tx : CTransaction) :
    Except Fault (CCoinsView × List CTxInUndo) := do
  let spent ← spendInputs view (spentInputs tx)
  pure (spent.1.setCoins (node.txHash tx)
    (CCoins.ofTransaction tx (Int32.ofInt nHeight)), spent.2)

/-- `UpdateCoins` for all transactions, without records for coinbases. -/
def updateAllCoins
    (node : Node) (nHeight : Nat) (view : CCoinsView) :
    List CTransaction → Except Fault (CCoinsView × List (List CTxInUndo))
  | [] => pure (view, [])
  | tx :: rest => do
      let updated ← updateCoins node view nHeight tx
      let later ← updateAllCoins node nHeight updated.1 rest
      pure (later.1,
        if tx.isCoinBase then later.2 else updated.2 :: later.2)

theorem spend_fst (coins : CCoins) (nPos : Nat) :
    (spend coins nPos).map Prod.fst = coins.spend nPos := by
  rw [spend, CCoins.spend]
  cases coins.vout[nPos]? with
  | none => rfl
  | some txout =>
      simp only
      split_ifs
      · rfl
      · rfl
      · rfl

theorem spendInputs_fst (view : CCoinsView) (vin : List CTxIn) :
    (spendInputs view vin).map Prod.fst = view.spendInputs vin := by
  induction vin generalizing view with
  | nil => rfl
  | cons txin rest inductionHypothesis =>
      rw [spendInputs, CCoinsView.spendInputs]
      cases view.coins txin.prevout.hash with
      | none => rfl
      | some coins =>
          simp only
          rw [← spend_fst]
          rcases spend coins txin.prevout.n.toNat with _ | ⟨spent, undo⟩
          · rfl
          · simp only [Option.map_some]
            rw [← inductionHypothesis]
            cases spendInputs (view.setCoins txin.prevout.hash spent) rest with
            | error fault => rfl
            | ok later => rfl

/-- The records do not change what `UpdateCoins` does to the view. -/
theorem updateCoins_fst
    (node : Node) (view : CCoinsView) (nHeight : Nat) (tx : CTransaction) :
    (updateCoins node view nHeight tx).map Prod.fst =
      Consensus.ConnectBlock.updateCoins node view nHeight tx := by
  have spent :
      markSpent view tx =
        (spendInputs view (spentInputs tx)).map Prod.fst := by
    rw [markSpent, spendInputs_fst, spentInputs]
    split_ifs <;> rfl
  rw [updateCoins, Consensus.ConnectBlock.updateCoins, spent]
  cases spendInputs view (spentInputs tx) with
  | error fault => rfl
  | ok result => rfl

theorem exists_records
    {node : Node} {nHeight : Nat} {view next : CCoinsView}
    {tx : CTransaction}
    (ran :
      Consensus.ConnectBlock.updateCoins node view nHeight tx = .ok next) :
    ∃ undos, updateCoins node view nHeight tx = .ok (next, undos) := by
  rw [← updateCoins_fst] at ran
  cases records : updateCoins node view nHeight tx with
  | error fault =>
      rw [records] at ran
      cases ran
  | ok result =>
      rw [records] at ran
      cases ran
      exact ⟨result.2, rfl⟩

/-- A connected transaction updates the coins. -/
theorem updateCoins_of_connectTransaction
    {node : Node} {nHeight : Nat} {fScriptChecks fStrict : Bool}
    {state next : ConnectState} {tx : CTransaction}
    (ran :
      connectTransaction node nHeight fScriptChecks fStrict state tx =
        .ok next) :
    Consensus.ConnectBlock.updateCoins node state.view nHeight tx =
      .ok next.view := by
  simp only [connectTransaction, bind_eq_ok, require_eq_ok, orFault_eq_ok]
    at ran
  rcases ran with ⟨_, _, checked, inputs, view, updated, result⟩
  cases result
  have sameView : checked.view = state.view := by
    by_cases isCoinBase : tx.isCoinBase = true
    · rw [connectInputs, if_pos isCoinBase] at inputs
      cases inputs
      rfl
    · rw [connectInputs, if_neg isCoinBase] at inputs
      simp only [bind_eq_ok, require_eq_ok, orFault_eq_ok] at inputs
      rcases inputs with ⟨_, _, _, _, _, _, _, _, _, _, _, _, result⟩
      cases result
      rfl
  rw [← sameView]
  exact updated

/-- The loop of `ConnectBlock` is `UpdateCoins` for all transactions. -/
theorem updateAllCoins_of_loop
    {node : Node} {nHeight : Nat} {fScriptChecks fStrict : Bool}
    {state last : ConnectState} {txs : List CTransaction}
    (ran :
      txs.foldlM (connectTransaction node nHeight fScriptChecks fStrict)
        state = .ok last) :
    ∃ blockUndo,
      updateAllCoins node nHeight state.view txs =
        .ok (last.view, blockUndo) := by
  induction txs generalizing state with
  | nil =>
      cases ran
      exact ⟨[], rfl⟩
  | cons tx rest inductionHypothesis =>
      rw [List.foldlM_cons] at ran
      rcases bind_eq_ok.mp ran with ⟨middle, ranFirst, ranLater⟩
      rcases exists_records (updateCoins_of_connectTransaction ranFirst) with
        ⟨undos, records⟩
      rcases inductionHypothesis ranLater with ⟨later, ranRest⟩
      refine ⟨if tx.isCoinBase then later else undos :: later, ?_⟩
      rw [updateAllCoins]
      exact bind_eq_ok.mpr ⟨_, records, bind_eq_ok.mpr ⟨_, ranRest, rfl⟩⟩

/-! ## The records on disk -/

/-- `CTxInUndo::Serialize`. -/
def writeTxInUndo (keys : PubKeyOps) (undo : CTxInUndo) : List UInt8 :=
  writeVarInt 32
      ((undo.nHeight.toNat * 2 + if undo.fCoinBase then 1 else 0) % 2 ^ 32) ++
    ((if 0 < undo.nHeight then writeVarInt32 undo.nVersion else []) ++
      writeCompressedTxOut keys undo.txout)

/-- The version behind a height, and that of a new record without one. -/
def readUndoVersion (nHeight : Nat) : Reader Int32 :=
  if 0 < nHeight then readVarInt32 else pure 0

/-- `CTxInUndo::Unserialize`. -/
def readTxInUndo (keys : PubKeyOps) : Reader CTxInUndo := do
  let nCode ← readVarInt 32
  let nVersion ← readUndoVersion (nCode / 2)
  let txout ← readCompressedTxOut keys
  pure ⟨txout, nCode % 2 = 1, UInt32.ofNat (nCode / 2), nVersion⟩

/-- `CBlockUndo`, as the vectors `vprevout` of its transactions. -/
abbrev CBlockUndo := List (List CTxInUndo)

def writeBlockUndo (keys : PubKeyOps) (blockUndo : CBlockUndo) : List UInt8 :=
  writeVector (writeVector (writeTxInUndo keys)) blockUndo

def readBlockUndo (keys : PubKeyOps) : Reader CBlockUndo :=
  readVector (readVector (readTxInUndo keys))

/--
`CBlockUndo::WriteToDisk` behind the index header: the records and a checksum
over them and the hash of the parent.
-/
def writeToDisk
    (keys : PubKeyOps) (hash : List UInt8 → Uint256) (hashBlock : Uint256)
    (blockUndo : CBlockUndo) : List UInt8 :=
  writeBlockUndo keys blockUndo ++
    writeUint256
      (hash (writeUint256 hashBlock ++ writeBlockUndo keys blockUndo))

/-- The fields that `CBlockUndo::ReadFromDisk` reads. -/
def readChecked (keys : PubKeyOps) : Reader (CBlockUndo × Uint256) := do
  let blockUndo ← readBlockUndo keys
  let hashChecksum ← readUint256
  pure (blockUndo, hashChecksum)

/-- `CBlockUndo::ReadFromDisk`. -/
def readFromDisk
    (keys : PubKeyOps) (hash : List UInt8 → Uint256) (hashBlock : Uint256)
    (file : List UInt8) : Option CBlockUndo :=
  match readChecked keys file with
  | .error _ => none
  | .ok ((blockUndo, hashChecksum), _) =>
      if hashChecksum =
          hash (writeUint256 hashBlock ++ writeBlockUndo keys blockUndo) then
        some blockUndo
      else none

/-- A record that comes back from the disk. -/
structure Recordable (undo : CTxInUndo) : Prop where
  output : Compressible undo.txout
  height : undo.nHeight.toNat < 2 ^ 31
  version : 0 ≤ undo.nVersion
  blank : undo.nHeight = 0 → undo.fCoinBase = false ∧ undo.nVersion = 0

theorem reads_readUndoVersion
    {undo : CTxInUndo} (recordable : Recordable undo) :
    Reads (readUndoVersion undo.nHeight.toNat)
      (if 0 < undo.nHeight then writeVarInt32 undo.nVersion else [])
      undo.nVersion := by
  by_cases positive : 0 < undo.nHeight
  · have positiveNat : 0 < undo.nHeight.toNat :=
      UInt32.lt_iff_toNat_lt.mp positive
    rw [if_pos positive, readUndoVersion, if_pos positiveNat]
    exact reads_readVarInt32 recordable.version
  · have isZero : undo.nHeight = 0 := by
      rw [UInt32.lt_iff_toNat_lt, UInt32.toNat_zero, Nat.not_lt,
        Nat.le_zero] at positive
      exact UInt32.toNat_inj.mp positive
    rw [if_neg positive, readUndoVersion, isZero, UInt32.toNat_zero,
      if_neg (lt_irrefl 0), (recordable.blank isZero).2]
    exact Reads.pure 0

/-- `CTxInUndo` comes back from the disk. -/
theorem reads_readTxInUndo
    {keys : PubKeyOps} (recovers : keys.Recovers) {undo : CTxInUndo}
    (recordable : Recordable undo) :
    Reads (readTxInUndo keys) (writeTxInUndo keys undo) undo := by
  have height := recordable.height
  have flag := Bool.toNat_le undo.fCoinBase
  have code :
      (undo.nHeight.toNat * 2 + if undo.fCoinBase then 1 else 0) % 2 ^ 32 =
        undo.nHeight.toNat * 2 + undo.fCoinBase.toNat := by
    cases undo.fCoinBase with
    | false => exact Nat.mod_eq_of_lt (by simp; omega)
    | true => exact Nat.mod_eq_of_lt (by simp; omega)
  have half :
      (undo.nHeight.toNat * 2 + undo.fCoinBase.toNat) / 2 =
        undo.nHeight.toNat := by
    omega
  have parity :
      decide ((undo.nHeight.toNat * 2 + undo.fCoinBase.toNat) % 2 = 1) =
        undo.fCoinBase := by
    have rest :
        (undo.nHeight.toNat * 2 + undo.fCoinBase.toNat) % 2 =
          undo.fCoinBase.toNat := by
      omega
    rw [rest]
    cases undo.fCoinBase <;> rfl
  rw [writeTxInUndo, code]
  refine (reads_readVarInt (by decide) (by omega)).bind ?_
  rw [half, parity]
  refine (reads_readUndoVersion recordable).bind ?_
  rw [← List.append_nil (writeCompressedTxOut keys undo.txout)]
  refine (reads_readCompressedTxOut recovers recordable.output).bind ?_
  rw [UInt32.ofNat_toNat]
  exact Reads.pure undo

/-- Undo data of a block that come back from the disk. -/
structure BlockRecordable (blockUndo : CBlockUndo) : Prop where
  transactions : blockUndo.length ≤ MAX_SIZE
  inputs : ∀ vprevout ∈ blockUndo, vprevout.length ≤ MAX_SIZE
  records : ∀ vprevout ∈ blockUndo, ∀ undo ∈ vprevout, Recordable undo

theorem readFromDisk_writeToDisk
    {keys : PubKeyOps} (recovers : keys.Recovers)
    (hash : List UInt8 → Uint256) (hashBlock : Uint256)
    {blockUndo : CBlockUndo} (recordable : BlockRecordable blockUndo) :
    readFromDisk keys hash hashBlock
      (writeToDisk keys hash hashBlock blockUndo) = some blockUndo := by
  have records : Reads (readBlockUndo keys) (writeBlockUndo keys blockUndo)
      blockUndo := by
    apply reads_readVector recordable.transactions
    intro vprevout member
    apply reads_readVector (recordable.inputs vprevout member)
    intro undo inVector
    exact reads_readTxInUndo recovers
      (recordable.records vprevout member undo inVector)
  have fields :
      readChecked keys (writeToDisk keys hash hashBlock blockUndo) =
        .ok ((blockUndo,
          hash (writeUint256 hashBlock ++ writeBlockUndo keys blockUndo)),
          []) := by
    apply Reads.done
    refine records.bind ?_
    rw [← List.append_nil (writeUint256 _)]
    exact (reads_readUint256 _).bind (Reads.pure _)
  rw [readFromDisk, fields]
  exact if_pos rfl

end DSValue.Coins.Undo
