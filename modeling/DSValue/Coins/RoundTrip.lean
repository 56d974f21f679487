import DSValue.Coins.Reversal
import DSValue.Consensus.Settlement

/-!
# From `ConnectBlock` to `DisconnectBlock` and back

The loop of `ConnectBlock` over the transactions is `UpdateCoins` for all of
them behind the checks.  The checks of the inputs bound the spent outputs, so
that the undo data survive on disk, and the check against overwritten coins
makes the new coins fresh.
-/

namespace DSValue.Coins.RoundTrip

open DSValue.Lib
open DSValue.Core.Serialize
open DSValue.Core.Deserialize
open DSValue.Core.Transaction
open DSValue.Core.Compress
open DSValue.Consensus.CheckLottoResult
open DSValue.Consensus.CheckBlock
open DSValue.Consensus.ConnectBlock
open DSValue.Consensus.QuietChain
open DSValue.Consensus.BetChain
open DSValue.Consensus.Drawable (countingEnv templateBet)
open DSValue.Consensus.Settlement (beforeBet placeable_templateBet)
open DSValue.Coins.Undo
open DSValue.Coins.Disconnect
open DSValue.Coins.Reversal

/-! ## The records of the inputs -/

/-- An input finds the output that is left of the coins. -/
theorem outputFor?_eq_some
    {view : CCoinsView} {txin : CTxIn} {txout : CTxOut} :
    view.outputFor? txin = some txout ↔
      ∃ coins, view.coins txin.prevout.hash = some coins ∧
        available coins txin.prevout.n.toNat = some txout := by
  rw [CCoinsView.outputFor?]
  cases view.coins txin.prevout.hash with
  | none => simp
  | some coins =>
      simp only [isAvailable_eq, Option.some.injEq, exists_eq_left']
      cases isLeft : available coins txin.prevout.n.toNat with
      | none => simp
      | some found =>
          simp only [Option.isSome_some, if_true,
            (available_eq_some.mp isLeft).1]

/-- Spending outputs leaves no others. -/
theorem outputFor?_of_spends
    {view : CCoinsView} {txid : Uint256} {coins spent : CCoins} {nPos : Nat}
    {undo : CTxInUndo} (holds : view.coins txid = some coins)
    (spends : Spends coins nPos spent undo) {txin : CTxIn} {txout : CTxOut}
    (found : (view.setCoins txid spent).outputFor? txin = some txout) :
    view.outputFor? txin = some txout := by
  rcases outputFor?_eq_some.mp found with ⟨left, isLeft, output⟩
  by_cases same : txin.prevout.hash = txid
  · rw [same, CCoinsView.setCoins_self, Option.some.injEq] at isLeft
    rw [← isLeft, spends.left] at output
    split_ifs at output
    exact outputFor?_eq_some.mpr ⟨coins, by rw [same, holds], output⟩
  · rw [CCoinsView.setCoins_of_ne _ _ same] at isLeft
    exact outputFor?_eq_some.mpr ⟨left, isLeft, output⟩

theorem toNat_toUInt32 {nHeight : Int32} (positive : 0 < nHeight) :
    (nHeight.toUInt32.toNat : Int) = nHeight.toInt := by
  have zero : (0 : Int32).toInt = 0 := rfl
  rw [Int32.lt_iff_toInt_lt, zero] at positive
  have cond := BitVec.toInt_eq_toNat_cond nHeight.toBitVec
  have value : nHeight.toInt = nHeight.toBitVec.toInt := rfl
  have bits : nHeight.toUInt32.toNat = nHeight.toBitVec.toNat := rfl
  rw [value] at positive ⊢
  rw [bits, cond]
  split_ifs at cond ⊢ with small
  · rfl
  · have bound := nHeight.toBitVec.isLt
    omega

/-- The record of a spent output comes back from the disk. -/
theorem recordable_of_spends
    {coins spent : CCoins} {nPos : Nat} {undo : CTxInUndo}
    (sound : Sound coins) (spends : Spends coins nPos spent undo)
    (range : moneyRange undo.txout.nValue = true) : Recordable undo := by
  have member :=
    List.mem_of_getElem? (available_eq_some.mp spends.output).1
  have output : Compressible undo.txout :=
    ⟨range, sound.scripts undo.txout member⟩
  have height := toNat_toUInt32 sound.height
  have positive := sound.height
  have bound := coins.nHeight.toInt_lt
  rw [Int32.lt_iff_toInt_lt] at positive
  have zero : (0 : Int32).toInt = 0 := rfl
  have record := spends.record
  split_ifs at record
  · refine ⟨output, ?_, ?_, ?_⟩
    · rw [record]
      simp only
      omega
    · rw [record]
      exact sound.version
    · intro isZero
      rw [record] at isZero
      simp only at isZero
      rw [isZero, UInt32.toNat_zero] at height
      omega
  · rw [record] at output ⊢
    have zeroHeight : (0 : UInt32).toNat < 2 ^ 31 := by decide
    have zeroVersion : (0 : Int32) ≤ 0 := by decide
    exact ⟨output, zeroHeight, zeroVersion, fun _ => ⟨rfl, rfl⟩⟩

theorem spendInputs_recordable
    {view spent : CCoinsView} {vin : List CTxIn} {undos : List CTxInUndo}
    (sound : SoundView view)
    (ran : Undo.spendInputs view vin = .ok (spent, undos))
    (range :
      ∀ txin ∈ vin, ∀ txout, view.outputFor? txin = some txout →
        moneyRange txout.nValue = true) :
    ∀ undo ∈ undos, Recordable undo := by
  induction vin generalizing view undos with
  | nil =>
      cases ran
      intro undo member
      cases member
  | cons txin rest inductionHypothesis =>
      rcases spendInputs_cons ran with
        ⟨coins, next, undo, later, holds, ranFirst, ranLater, rfl⟩
      have soundCoins := sound _ coins holds
      have spends := spends_of_spend ranFirst
      have first :
          view.outputFor? txin = some undo.txout :=
        outputFor?_eq_some.mpr ⟨coins, holds, spends.output⟩
      intro record member
      rcases List.mem_cons.mp member with rfl | inLater
      · exact recordable_of_spends soundCoins spends
          (range txin List.mem_cons_self _ first)
      · refine inductionHypothesis
          (sound.setCoins _ (sound_spend soundCoins ranFirst)) ranLater ?_
          record inLater
        intro other inRest txout found
        exact range other (List.mem_cons_of_mem _ inRest) txout
          (outputFor?_of_spends holds spends found)

/-! ## The checks of the inputs -/

theorem moneyRange_of_checkInput
    {view : CCoinsView} {nSpendHeight : Nat} {nValueIn total : Int64}
    {txin : CTxIn}
    (checked : checkInput view nSpendHeight nValueIn txin = .ok total)
    {txout : CTxOut} (found : view.outputFor? txin = some txout) :
    moneyRange txout.nValue = true := by
  rcases outputFor?_eq_some.mp found with ⟨coins, holds, isLeft⟩
  simp only [checkInput, holds, (available_eq_some.mp isLeft).1, bind_eq_ok,
    require_eq_ok, Bool.and_eq_true] at checked
  rcases checked with ⟨_, _, _, ⟨range, _⟩, _⟩
  exact range

theorem moneyRange_of_checkInputs
    {view : CCoinsView} {nSpendHeight : Nat} {nValueIn total : Int64}
    {vin : List CTxIn}
    (checked :
      vin.foldlM (checkInput view nSpendHeight) nValueIn = .ok total) :
    ∀ txin ∈ vin, ∀ txout, view.outputFor? txin = some txout →
      moneyRange txout.nValue = true := by
  induction vin generalizing nValueIn with
  | nil =>
      intro txin member
      cases member
  | cons first rest inductionHypothesis =>
      rw [List.foldlM_cons] at checked
      rcases bind_eq_ok.mp checked with ⟨value, ranFirst, ranLater⟩
      intro txin member txout found
      rcases List.mem_cons.mp member with rfl | inRest
      · exact moneyRange_of_checkInput ranFirst found
      · exact inductionHypothesis ranLater txin inRest txout found

/-- The outputs a connected transaction spends are in the money range. -/
theorem moneyRange_of_connectTransaction
    {node : Node} {nHeight : Nat} {fScriptChecks fStrict : Bool}
    {state next : ConnectState} {tx : CTransaction}
    (ran :
      connectTransaction node nHeight fScriptChecks fStrict state tx =
        .ok next) :
    ∀ txin ∈ spentInputs tx, ∀ txout,
      state.view.outputFor? txin = some txout →
      moneyRange txout.nValue = true := by
  simp only [connectTransaction, bind_eq_ok, require_eq_ok, orFault_eq_ok]
    at ran
  rcases ran with ⟨_, _, checked, inputs, view, updated, result⟩
  by_cases isCoinBase : tx.isCoinBase = true
  · rw [spentInputs, if_pos isCoinBase]
    intro txin member
    cases member
  · rw [connectInputs, if_neg isCoinBase] at inputs
    rw [spentInputs, if_neg isCoinBase]
    simp only [bind_eq_ok, require_eq_ok, orFault_eq_ok, checkInputs] at inputs
    rcases inputs with ⟨_, _, _, _, _, _, _, _, _, _, _, checks, -⟩
    rcases checks with ⟨_, _, total, values, _⟩
    exact moneyRange_of_checkInputs values

/-- The loop of `ConnectBlock` as `UpdateCoins` for all transactions. -/
theorem updateAllCoins_of_connect
    {node : Node} {nHeight : Nat} {fScriptChecks fStrict : Bool}
    {state last : ConnectState} {txs : List CTransaction}
    (sound : SoundView state.view)
    (checked : ∀ tx ∈ txs, checkTransaction tx = .ok ())
    (created :
      ∀ tx ∈ txs, Sound (CCoins.ofTransaction tx (Int32.ofInt nHeight)))
    (ran :
      txs.foldlM (connectTransaction node nHeight fScriptChecks fStrict)
        state = .ok last) :
    ∃ blockUndo,
      updateAllCoins node nHeight state.view txs =
        .ok (last.view, blockUndo) ∧
      SoundView last.view ∧
      blockUndo.length ≤ txs.length ∧
      ∀ vprevout ∈ blockUndo,
        vprevout.length ≤ MAX_SIZE ∧ ∀ undo ∈ vprevout, Recordable undo := by
  induction txs generalizing state with
  | nil =>
      cases ran
      refine ⟨[], rfl, sound, le_refl _, ?_⟩
      intro vprevout member
      cases member
  | cons tx rest inductionHypothesis =>
      rw [List.foldlM_cons] at ran
      rcases bind_eq_ok.mp ran with ⟨middle, ranFirst, ranLater⟩
      have range := moneyRange_of_connectTransaction ranFirst
      rcases exists_records (updateCoins_of_connectTransaction ranFirst) with
        ⟨undos, records⟩
      have soundMiddle :=
        soundView_updateCoins sound (created tx List.mem_cons_self) records
      rcases inductionHypothesis soundMiddle
          (fun other member => checked other (List.mem_cons_of_mem _ member))
          (fun other member => created other (List.mem_cons_of_mem _ member))
          ranLater with
        ⟨later, ranRest, soundLast, number, recordable⟩
      refine ⟨if tx.isCoinBase then later else undos :: later, ?_, soundLast,
        ?_, ?_⟩
      · rw [updateAllCoins]
        exact bind_eq_ok.mpr
          ⟨_, records, bind_eq_ok.mpr ⟨_, ranRest, rfl⟩⟩
      · split_ifs <;> simp only [List.length_cons] <;> omega
      · intro vprevout member
        split_ifs at member with isCoinBase
        · exact recordable vprevout member
        · rcases List.mem_cons.mp member with rfl | inLater
          · rcases bind_eq_ok.mp records with
              ⟨⟨spent, found⟩, ranInputs, result⟩
            rw [← (Prod.mk.inj (Except.ok.inj result)).2]
            refine ⟨?_, spendInputs_recordable sound ranInputs range⟩
            have sizes :=
              sizes_of_checkTransaction (checked tx List.mem_cons_self)
            have same := (spendInputs_keeps ranInputs).1
            have maximum : MAX_BLOCK_SIZE ≤ MAX_SIZE := by decide
            rw [spentInputs, if_neg isCoinBase] at same
            show found.length ≤ MAX_SIZE
            omega
          · exact recordable vprevout inLater

/-! ## Blocks -/

/--
Disconnecting a block with the undo data of `UpdateCoins` gives back what the
view held, and everything was as expected.
-/
def Undone
    (node : Node) (keys : PubKeyOps) (hash : List UInt8 → Uint256)
    (view : CCoinsView) (pprev : CBlockIndex) (block : CBlock) : Prop :=
  ∃ updated blockUndo restored,
    updateAllCoins node (pprev.height + 1) view block.vtx =
      .ok (updated, blockUndo) ∧
    disconnectBlock node keys hash
        { updated with hashBlock := node.blockHash block } pprev block
        (writeToDisk keys hash (node.blockHash pprev.item) blockUndo) =
      .ok (restored, true) ∧
    SameCoins restored view ∧
    restored.hashBlock = view.hashBlock

/-- What `CheckBlock` says about the transactions as a list. -/
theorem distinct_of_checkBlock
    {node : Node} {block : CBlock} {fCheckPOW fCheckMerkleRoot : Bool}
    (accepted :
      node.checkBlock block fCheckPOW fCheckMerkleRoot = .ok ()) :
    (block.vtx.map node.txHash).Nodup ∧
      block.vtx.length ≤ MAX_BLOCK_SIZE := by
  simp only [Node.checkBlock, bind_eq_ok, require_eq_ok, Bool.and_eq_true,
    decide_eq_true_eq] at accepted
  rcases accepted with
    ⟨_, ⟨⟨_, number⟩, _⟩, _, _, _, _, _, _, _, _, _, distinct, _⟩
  exact ⟨distinct, number⟩

theorem absent_of_not_overwrites
    {node : Node} {view : CCoinsView} {tx : CTransaction}
    (unspent : overwrites node view tx = false) :
    entryOf (view.coins (node.txHash tx)) = none := by
  rw [overwrites] at unspent
  cases known : view.coins (node.txHash tx) with
  | none => rfl
  | some coins =>
      rw [known] at unspent
      exact entryOf_eq_none.mpr (by simpa using unspent)

/-- What an accepted block leaves, as `UpdateCoins` for its transactions. -/
theorem updateAllCoins_of_connectBlock
    {node : Node} {view next : CCoinsView} {pprev : CBlockIndex}
    {block : CBlock} (sound : SoundView view)
    (versions : ∀ tx ∈ block.vtx, 0 ≤ tx.nVersion)
    (small : pprev.height + 1 < 2 ^ 31)
    (fresh : node.blockHash block ≠ node.hashGenesisBlock)
    (accepted :
      connectBlock node view (some pprev) block false = .ok next) :
    ∃ updated blockUndo,
      updateAllCoins node (pprev.height + 1) view block.vtx =
        .ok (updated, blockUndo) ∧
      next = { updated with hashBlock := node.blockHash block } ∧
      SoundView next ∧ BlockRecordable blockUndo ∧
      ∀ tx ∈ block.vtx,
        Sound (CCoins.ofTransaction tx (Int32.ofInt (pprev.height + 1))) := by
  simp only [connectBlock, bind_eq_ok, orReject_eq_ok, if_neg fresh,
    orFault_eq_ok, require_eq_ok] at accepted
  rcases accepted with ⟨_, checks, _, _, _, _, _, _, state, transactions,
    _, _, _, _, result⟩
  cases result
  rcases checked_of_checkBlock checks with ⟨coinBaseTx, others, checked⟩
  have number := (distinct_of_checkBlock checks).2
  have created :
      ∀ tx ∈ block.vtx,
        Sound (CCoins.ofTransaction tx
          (Int32.ofInt ((pprev.height + 1 : Nat) : Int))) := by
    intro tx member
    exact sound_ofTransaction (checked.transactions tx member)
      (versions tx member) (Nat.succ_pos _) small
  rcases updateAllCoins_of_connect sound checked.transactions created
      transactions with
    ⟨blockUndo, ran, soundLast, length, recordable⟩
  have maximum : MAX_BLOCK_SIZE ≤ MAX_SIZE := by decide
  refine ⟨state.view, blockUndo, ran, rfl, soundLast, ⟨by omega, ?_, ?_⟩,
    created⟩
  · exact fun vprevout member => (recordable vprevout member).1
  · exact fun vprevout member => (recordable vprevout member).2

/--
`DisconnectBlock` undoes `ConnectBlock`, except for the two blocks that may
overwrite unspent coins.
-/
theorem disconnectBlock_undoes
    {node : Node} {keys : PubKeyOps} (recovers : keys.Recovers)
    (hash : List UInt8 → Uint256) {view next : CCoinsView}
    {pprev : CBlockIndex} {block : CBlock} (sound : SoundView view)
    (versions : ∀ tx ∈ block.vtx, 0 ≤ tx.nVersion)
    (small : pprev.height + 1 < 2 ^ 31)
    (fresh : node.blockHash block ≠ node.hashGenesisBlock)
    (enforced :
      enforceBIP30 (pprev.height + 1) (node.blockHash block) = true)
    (accepted :
      connectBlock node view (some pprev) block false = .ok next) :
    Undone node keys hash view pprev block := by
  rcases updateAllCoins_of_connectBlock sound versions small fresh accepted
    with ⟨updated, blockUndo, ran, -, -, recordable, created⟩
  simp only [connectBlock, bind_eq_ok, if_neg fresh, require_eq_ok,
    nextHeight, hashOfPrev, enforced, Bool.not_true, Bool.false_or]
    at accepted
  rcases accepted with ⟨_, checks, _, _, _, best, _, unspent, _⟩
  rcases checked_of_checkBlock checks with ⟨coinBaseTx, others, checked⟩
  have undoable : Undoable node (pprev.height + 1) view block.vtx := by
    refine ⟨sound, checked.transactions, versions, created, ?_,
      (distinct_of_checkBlock checks).1⟩
    intro tx member
    apply absent_of_not_overwrites
    simpa using List.all_eq_true.mp unspent tx member
  rw [checked.vtx] at undoable ran
  have connected :
      CCoinsView.coins { updated with hashBlock := node.blockHash block } =
        updated.coins := rfl
  rcases disconnectAll_undo undoable checked.coinBase checked.noCoinBase ran
      connected with
    ⟨number, restored, ranDisconnect, same⟩
  refine ⟨updated, blockUndo,
    { restored with hashBlock := node.blockHash pprev.item }, ?_, ?_, same,
    of_decide_eq_true best⟩
  · rw [checked.vtx]
    exact ran
  · have read :=
      readFromDisk_writeToDisk recovers hash (node.blockHash pprev.item)
        recordable
    have length : ¬ blockUndo.length + 1 ≠ block.vtx.length := by
      rw [checked.vtx, List.length_cons, number]
      exact not_not_intro rfl
    simp only [disconnectBlock, ne_eq, not_true_eq_false, if_false, read]
    rw [if_neg length, checked.vtx, ranDisconnect]
    rfl

/-! ## Sound views -/

/-- The transactions above the first block have nonnegative versions. -/
def NonnegativeVersions : CBlockIndex → Prop
  | .root _ => True
  | .child pprev block =>
      NonnegativeVersions pprev ∧ ∀ tx ∈ block.vtx, 0 ≤ tx.nVersion

/-- Accepted chains leave sound views. -/
theorem soundView_of_accepted
    {node : Node} {admissible : Snapshot → Prop} {tip : CBlockIndex}
    {view : CCoinsView} (chain : Accepted node admissible tip view)
    (versions : NonnegativeVersions tip) (small : tip.height < 2 ^ 31) :
    SoundView view := by
  induction chain with
  | genesis block header hash =>
      intro txid coins found
      cases found
  | @connect pprev before next chain block snapshot admitted linked fresh
      connected inductionHypothesis =>
      rw [Lineage.height_child] at small
      have sound := inductionHypothesis versions.1 (by omega)
      have freshThen :
          (during node snapshot pprev).blockHash block ≠
            (during node snapshot pprev).hashGenesisBlock := fresh
      rcases updateAllCoins_of_connectBlock sound versions.2 small freshThen
          connected with ⟨_, _, _, _, soundNext, _⟩
      exact soundNext

theorem versions_quietChain
    {tip : CBlockIndex} (versions : NonnegativeVersions tip) (count : Nat) :
    NonnegativeVersions (quietChain count tip) := by
  induction count with
  | zero => exact versions
  | succ count inductionHypothesis =>
      refine ⟨inductionHypothesis, ?_⟩
      intro tx member
      rw [List.mem_singleton.mp member]
      exact show (0 : Int32) ≤ 1 by decide

/-- Public keys none of which is fully valid. -/
def noKeys : PubKeyOps where
  isFullyValid := fun _ => false
  decompress := fun _ => none

theorem recovers_noKeys : noKeys.Recovers := by
  intro x y last _ _ valid
  cases valid

/-- Block 151 of a chain spends a coinbase on a bet, and is undone. -/
theorem betBlock_undone :
    ∃ snapshot view next,
      Accepted (countingNode countingEnv) (fun _ => True) beforeBet view ∧
      connectBlock (during (countingNode countingEnv) snapshot beforeBet)
          view (some beforeBet) (betBlock beforeBet 200000 [1] [templateBet])
          false = .ok next ∧
      Undone (during (countingNode countingEnv) snapshot beforeBet) noKeys
        nonceHash view beforeBet
        (betBlock beforeBet 200000 [1] [templateBet]) := by
  rcases quiet_chainWithBet countingEnv 150 0 placeable_templateBet
      (by decide) (by decide) (by decide) with ⟨last, quiet⟩
  have height : beforeBet.height = 0 + 150 := height_quietChain 150 _
  have first : NonnegativeVersions (.root genesisBlock) := trivial
  have versions : NonnegativeVersions beforeBet :=
    versions_quietChain first 150
  have chain := quiet.chain
  rw [chainWithBet, quietChain] at chain
  cases chain with
  | @connect _ view next earlier _ snapshot _ linked fresh connected =>
      have sound : SoundView view :=
        soundView_of_accepted earlier versions
          (show beforeBet.height < 2 ^ 31 by rw [height]; decide)
      have freshThen :
          (during (countingNode countingEnv) snapshot beforeBet).blockHash
              (betBlock beforeBet 200000 [1] [templateBet]) ≠
            (during (countingNode countingEnv) snapshot
              beforeBet).hashGenesisBlock := fresh
      refine ⟨snapshot, view, _, earlier, connected,
        disconnectBlock_undoes recovers_noKeys nonceHash sound ?_ ?_ freshThen
          ?_ connected⟩
      · intro tx member
        rcases List.mem_cons.mp member with rfl | isSpender
        · exact show (0 : Int32) ≤ 1 by decide
        · rw [List.mem_singleton.mp isSpender]
          exact show (0 : Int32) ≤ 1 by decide
      · rw [height]
        decide
      · rw [height, enforceBIP30]
        simp

/-! ## An exempt block -/

/-- The transaction hash of a coinbase is free behind the disconnection. -/
theorem removed_of_disconnectBlock
    {node : Node} {keys : PubKeyOps} {hash : List UInt8 → Uint256}
    {view restored : CCoinsView} {pprev : CBlockIndex} {block : CBlock}
    {file : List UInt8} {fClean : Bool} {coinBaseTx : CTransaction}
    (vtx : block.vtx = [coinBaseTx])
    (ran :
      disconnectBlock node keys hash view pprev block file =
        .ok (restored, fClean)) :
    entryOf (restored.coins (node.txHash coinBaseTx)) = none := by
  rw [disconnectBlock] at ran
  split at ran
  · cases ran
  split at ran
  · cases ran
  rename_i blockUndo read
  split at ran
  · cases ran
  rcases bind_eq_ok.mp ran with ⟨state, ranLoop, result⟩
  cases result
  rw [undoOrder, vtx, List.zip_cons_cons, List.zip_nil_left,
    List.reverse_singleton, List.foldlM_cons] at ranLoop
  rcases bind_eq_ok.mp ranLoop with ⟨removed, ranFirst, done⟩
  cases done
  cases ranFirst
  simp only [removeOutputs]
  cases known : view.coins (node.txHash coinBaseTx) with
  | none =>
      simp only [known]
      rfl
  | some coins =>
      simp only [CCoinsView.setCoins_self]
      rfl

def exemptHash : Uint256 :=
  0x00000000000a4d0a398161ffc163c503763b1f4360639393e0e4c8e300e0caec

/-- A node on which the header with nonce 91842 has the exempt hash. -/
def exemptNode (tip : CBlockIndex) : Node :=
  { during (countingNode countingEnv) (snapshotOf startChain) tip with
    hash9 := fun bytes =>
      if nonceHash bytes = 91842 then exemptHash else nonceHash bytes }

/-- The coinbase of block 91842 is unspent since height 91812. -/
def exemptView (tip : CBlockIndex) : CCoinsView where
  coins :=
    Function.update (fun _ => none) 91842
      (some (CCoins.ofTransaction (mintedCoinBase 91842 []) 91812))
  hashBlock := (exemptNode tip).blockHash tip.item

section Exempt

variable {tip : CBlockIndex}

theorem blockHash_exempt (height : tip.height = 91841) :
    (exemptNode tip).blockHash (quietBlock tip) = exemptHash := by
  have small : tip.height + 1 < 2 ^ 32 := by
    rw [height]
    decide
  have nonce :
      nonceHash (quietBlock tip).toCBlockHeader.hashRange = 91842 := by
    have isNonce := getHash_nonceHash (quietBlock tip).toCBlockHeader
    have value : nonceOf (quietBlock tip) = BitVec.ofNat 256 (tip.height + 1) :=
      blockHash_mintedBlock small
    rw [height] at value
    exact isNonce.trans value
  exact if_pos nonce

/-- Without the coins in the way the block is an ordinary quiet block. -/
theorem connectBlock_exempt
    (height : tip.height = 91841)
    (key : tip.item.lottoHeader.uLottoKey = 0)
    (last :
      CLottoHeader.getLastBitcoinHeight tip.item.lottoHeader =
        Int32.ofInt BTC_START_HIGHT) :
    ∃ next,
      connectBlock (exemptNode tip) (exemptView tip) (some tip)
        (quietBlock tip) false = .ok next := by
  have near :
      ¬ 1 < Int32.ofInt BTC_START_HIGHT -
        CLottoHeader.getLastBitcoinHeight tip.item.lottoHeader := by
    rw [last]
    decide
  have bitcoin :=
    checkBitcoinPart_start startChain tip.item.lottoHeader
      (quietHeader tip.item.lottoHeader.llPool) rfl near
  have mintable :
      Mintable countingEnv (snapshotOf startChain) tip
        ⟨fun _ => none, nonceOf tip.item⟩
        (quietHeader tip.item.lottoHeader.llPool) [] [] :=
    mintable_quiet (by rw [height]; decide) (by decide)
      (show 1 ≤ 100 by decide) rfl rfl bitcoin rfl rfl key
  have fresh :
      (exemptNode tip).blockHash (quietBlock tip) ≠
        (exemptNode tip).hashGenesisBlock := by
    rw [blockHash_exempt height]
    exact show exemptHash ≠ 0 by decide
  have checks : (exemptNode tip).checkBlock (quietBlock tip) true true = .ok () := by
    have counting := mintable.checkBlock
    simp only [Node.checkBlock, bind_eq_ok, require_eq_ok] at counting ⊢
    rcases counting with ⟨_, sizes, _, _, rest⟩
    have work :
        (!true || checkProofOfWork .main
          ((exemptNode tip).blockHash (quietBlock tip)) 0x1f00ffff) = true := by
      rw [blockHash_exempt height]
      decide
    exact ⟨(), sizes, (), work, rest⟩
  have lotto :
      (exemptNode tip).toView.checkLottoResult (some tip) (quietBlock tip) =
        .ok none := by
    refine checkLottoResult_ok fresh rfl bitcoin ?_
    have counting :
        (during (countingNode countingEnv) (snapshotOf startChain)
          tip).toView.checkPool tip (quietBlock tip) = .ok none :=
      checkPool_quiet
        (getLottoValueFromBlock_minted .main tip.height tip
          (quietHeader tip.item.lottoHeader.llPool) [])
        (Int64.add_zero _).symm rfl key
    have noKey :
        ¬ (2 * nIntervalLottery ≤ tip.height ∧
          (quietBlock tip).lottoHeader.uLottoKey ≠ 0) :=
      fun both => both.2 rfl
    simp only [View.checkPool, if_neg noKey] at counting ⊢
    exact counting
  have exempt :
      (!enforceBIP30 (tip.height + 1)
          ((exemptNode tip).blockHash (quietBlock tip)) ||
        (quietBlock tip).vtx.all fun tx =>
          !overwrites (exemptNode tip) (exemptView tip) tx) = true := by
    rw [blockHash_exempt height, height]
    rfl
  have transactions :=
    connectTransaction_coinBase (exemptNode tip) (tip.height + 1) true true
      ⟨exemptView tip, 0, 0⟩ (mintedCoinBase_isCoinBase (tip.height + 1) [])
      (show 0 + 0 ≤ MAX_BLOCK_SIGOPS by decide)
  have loop :
      connectTransactions (exemptNode tip) (exemptView tip) (tip.height + 1)
          (quietBlock tip) =
        .ok ⟨(exemptView tip).setCoins
          (lockTimeHash (mintedCoinBase (tip.height + 1) []))
          (mintedCoins (tip.height + 1) []), 0, 0 + 0⟩ := by
    rw [connectTransactions, quietBlock, mintedBlock, List.foldlM_cons]
    exact bind_eq_ok.mpr ⟨_, transactions, rfl⟩
  simp only [connectBlock, bind_eq_ok, orReject_eq_ok, if_neg fresh,
    orFault_eq_ok, require_eq_ok]
  exact ⟨_, (), checks, (), lotto, (), decide_eq_true rfl, (), exempt, _, loop,
    _, rfl, (), decide_eq_true (Int64.le_refl _), rfl⟩

theorem exemptView_coins
    {txid : Uint256} {coins : CCoins}
    (found : (exemptView tip).coins txid = some coins) :
    txid = 91842 ∧
      coins = CCoins.ofTransaction (mintedCoinBase 91842 []) 91812 := by
  simp only [exemptView] at found
  by_cases same : txid = 91842
  · rw [same, Function.update_self, Option.some.injEq] at found
    exact ⟨same, found.symm⟩
  · rw [Function.update_of_ne same] at found
    cases found

theorem soundView_exemptView : SoundView (exemptView tip) := by
  intro txid coins found
  have positive : 0 < 91812 := by decide
  have small : 91812 < 2 ^ 31 := by decide
  rw [(exemptView_coins found).2]
  exact sound_ofTransaction (checkTransaction_coinBase 91842)
    (show (0 : Int32) ≤ 1 by decide) positive small

theorem canonical_exemptView (txid : Uint256) :
    CanonicalAt (exemptView tip) txid := by
  intro coins found
  rw [(exemptView_coins found).2]
  exact canonical_ofTransaction 91812 (checkTransaction_coinBase 91842)

theorem not_undone_exempt
    (keys : PubKeyOps) (hash : List UInt8 → Uint256)
    (height : tip.height = 91841) :
    ¬ Undone (exemptNode tip) keys hash (exemptView tip) tip
      (quietBlock tip) := by
  rintro ⟨updated, blockUndo, restored, -, disconnected, same, -⟩
  have removed := removed_of_disconnectBlock rfl disconnected
  have txid :
      (exemptNode tip).txHash (mintedCoinBase (tip.height + 1) []) =
        91842 := by
    rw [height]
    rfl
  have unspent :
      (CCoins.ofTransaction (mintedCoinBase 91842 []) 91812).isPruned =
        false := by
    decide
  have known :
      (exemptView tip).coins 91842 =
        some (CCoins.ofTransaction (mintedCoinBase 91842 []) 91812) := by
    simp only [exemptView, Function.update_self]
  rw [txid, same 91842, known, entryOf_of_not_isPruned unspent] at removed
  cases removed

end Exempt

/-- The exempt block overwrites unspent coins, and they are not restored. -/
theorem exempt_not_undone :
    ∃ next,
      connectBlock (exemptNode (quietChain 91841 (.root genesisBlock)))
          (exemptView (quietChain 91841 (.root genesisBlock)))
          (some (quietChain 91841 (.root genesisBlock)))
          (quietBlock (quietChain 91841 (.root genesisBlock))) false =
        .ok next ∧
      SoundView (exemptView (quietChain 91841 (.root genesisBlock))) ∧
      (∀ txid,
        CanonicalAt (exemptView (quietChain 91841 (.root genesisBlock)))
          txid) ∧
      (∀ tx ∈ (quietBlock (quietChain 91841 (.root genesisBlock))).vtx,
        0 ≤ tx.nVersion) ∧
      ¬ Undone (exemptNode (quietChain 91841 (.root genesisBlock))) noKeys
        nonceHash (exemptView (quietChain 91841 (.root genesisBlock)))
        (quietChain 91841 (.root genesisBlock))
        (quietBlock (quietChain 91841 (.root genesisBlock))) := by
  rcases (quiet_genesis countingEnv (fun _ => True)).run 91841
      (snapshotOf startChain) trivial (by decide)
      (by rw [Lineage.height_root]; omega) with
    ⟨early, quiet, -⟩
  have height :
      (quietChain 91841 (.root genesisBlock)).height = 91841 := by
    rw [height_quietChain, Lineage.height_root]
  rcases connectBlock_exempt height quiet.key quiet.last with ⟨next, accepted⟩
  have versions :
      ∀ tx ∈ (quietBlock (quietChain 91841 (.root genesisBlock))).vtx,
        0 ≤ tx.nVersion := by
    intro tx member
    rw [List.mem_singleton.mp member]
    exact show (0 : Int32) ≤ 1 by decide
  exact ⟨next, accepted, soundView_exemptView, canonical_exemptView, versions,
    not_undone_exempt noKeys nonceHash height⟩

end DSValue.Coins.RoundTrip
