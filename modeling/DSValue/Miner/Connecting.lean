import DSValue.Miner.Selection
import DSValue.Coins.Reversal
import DSValue.Consensus.QuietChain
import DSValue.Consensus.Drawable

/-!
# The block of the miner connects

`ConnectBlock` repeats the loop of `CreateNewBlock` behind the coinbase, which
the miner has not connected.  Nothing reads the outputs of the coinbase, and the
loop of the miner leaves room for its bytes and its signature operations, so what
is left for `ConnectBlock` to refuse is the lottery part and a transaction whose
hash has unspent outputs.
-/

namespace DSValue.Miner.Connecting

open DSValue.Lib
open DSValue.Core.Serialize
open DSValue.Core.Transaction
open DSValue.Script.Scan
open DSValue.Consensus.TxOut
open DSValue.Consensus.CheckLottoResult
open DSValue.Consensus.CheckBlock
open DSValue.Consensus.ConnectBlock
open DSValue.Consensus.QuietChain
open DSValue.Consensus.Drawable (countingEnv)
open DSValue.Coins.Reversal
open DSValue.Mempool.Pool
open DSValue.Miner.BlockTemplate
open DSValue.Miner.Selection

/-! ## What a transaction reads -/

section Reading

variable {view other : CCoinsView} {tx : CTransaction} {node : Node}
  {nHeight : Nat}

theorem foldlM_congr
    {ε α β : Type} {first second : β → α → Except ε β} {values : List α}
    (agree : ∀ value ∈ values, ∀ state, first state value = second state value)
    (state : β) : values.foldlM first state = values.foldlM second state := by
  induction values generalizing state with
  | nil => rfl
  | cons head tail inductionHypothesis =>
      rw [List.foldlM_cons, List.foldlM_cons, agree head List.mem_cons_self]
      congr 1
      funext next
      exact inductionHypothesis
        (fun value member => agree value (List.mem_cons_of_mem head member)) next

/-- Two views have the same coins for the inputs of a transaction. -/
def Agree (view other : CCoinsView) (tx : CTransaction) : Prop :=
  ∀ txin ∈ tx.vin, other.coins txin.prevout.hash = view.coins txin.prevout.hash

theorem Agree.outputFor? (agree : Agree view other tx)
    {txin : CTxIn} (member : txin ∈ tx.vin) :
    other.outputFor? txin = view.outputFor? txin := by
  rw [CCoinsView.outputFor?, CCoinsView.outputFor?, agree txin member]

theorem Agree.getOutputFor (agree : Agree view other tx)
    {txin : CTxIn} (member : txin ∈ tx.vin) :
    other.getOutputFor txin = view.getOutputFor txin := by
  rw [CCoinsView.getOutputFor, CCoinsView.getOutputFor, agree.outputFor? member]

theorem Agree.available (agree : Agree view other tx) :
    other.haveInputs tx = view.haveInputs tx := by
  rw [CCoinsView.haveInputs, CCoinsView.haveInputs]
  congr 1
  rw [Bool.eq_iff_iff, List.all_eq_true, List.all_eq_true]
  exact forall₂_congr fun txin member => by rw [agree.outputFor? member]

theorem Agree.valueIn (agree : Agree view other tx) :
    other.getValueIn tx = view.getValueIn tx := by
  rw [CCoinsView.getValueIn, CCoinsView.getValueIn]
  split
  · rfl
  · exact foldlM_congr
      (fun txin member nResult => by rw [agree.getOutputFor member]) 0

theorem Agree.sigOps (agree : Agree view other tx) :
    getP2SHSigOpCount other tx = getP2SHSigOpCount view tx := by
  rw [getP2SHSigOpCount, getP2SHSigOpCount]
  split
  · rfl
  · exact foldlM_congr
      (fun txin member nSigOps => by rw [agree.getOutputFor member]) 0

theorem Agree.scripts (agree : Agree view other tx) (strict : Bool) :
    scriptsPass node other strict tx = scriptsPass node view strict tx := by
  rw [scriptsPass, scriptsPass, Bool.eq_iff_iff, List.all_eq_true,
    List.all_eq_true]
  refine forall₂_congr fun entry member => ?_
  rw [agree.outputFor? (List.fst_mem_of_mem_zipIdx member)]

theorem Agree.inputs (agree : Agree view other tx)
    (fScriptChecks strict : Bool) :
    checkInputs node other nHeight fScriptChecks strict tx =
      checkInputs node view nHeight fScriptChecks strict tx := by
  have summed :
      tx.vin.foldlM (checkInput other nHeight) 0 =
        tx.vin.foldlM (checkInput view nHeight) 0 :=
    foldlM_congr
      (fun txin member nValueIn => by
        rw [checkInput, checkInput, agree txin member]) 0
  rw [checkInputs, checkInputs, agree.available, agree.scripts, summed]

end Reading

/-! ## The coins behind the coinbase -/

section Behind

variable {view next : CCoinsView} {tx : CTransaction} {node : Node}
  {nHeight : Nat} {txid : Uint256} {coins : CCoins}

theorem agree_of_available
    (absent : view.coins txid = none) (regular : tx.isCoinBase = false)
    (available : view.haveInputs tx = true) :
    Agree view (view.setCoins txid coins) tx := by
  intro txin member
  refine CCoinsView.setCoins_of_ne _ _ ?_
  intro same
  rw [CCoinsView.haveInputs, regular, Bool.false_or, List.all_eq_true] at available
  have found := available txin member
  rw [CCoinsView.outputFor?, same, absent] at found
  cases found

theorem setCoins_comm
    {other : Uint256} {first second : CCoins} (differs : txid ≠ other) :
    (view.setCoins txid first).setCoins other second =
      (view.setCoins other second).setCoins txid first := by
  rw [CCoinsView.setCoins, CCoinsView.setCoins, CCoinsView.setCoins,
    CCoinsView.setCoins]
  congr 1
  exact Function.update_comm differs _ _ _

/-- Spending inputs keeps what no input is from. -/
theorem spendInputs_setCoins
    {vin : List CTxIn} (absent : view.coins txid = none)
    (spent : view.spendInputs vin = .ok next) :
    (view.setCoins txid coins).spendInputs vin = .ok (next.setCoins txid coins) ∧
      next.coins txid = none := by
  induction vin generalizing view with
  | nil =>
      cases spent
      exact ⟨rfl, absent⟩
  | cons txin rest inductionHypothesis =>
      rw [CCoinsView.spendInputs] at spent ⊢
      split at spent
      · cases spent
      rename_i found stored
      split at spent
      · cases spent
      rename_i left taken
      have differs : txin.prevout.hash ≠ txid := by
        intro same
        rw [same, absent] at stored
        cases stored
      rw [CCoinsView.setCoins_of_ne _ _ differs, stored]
      dsimp only
      rw [taken]
      dsimp only
      rw [setCoins_comm differs.symm]
      refine inductionHypothesis ?_ spent
      rw [CCoinsView.setCoins_of_ne _ _ differs.symm, absent]

theorem updateCoins_setCoins
    (absent : view.coins txid = none) (regular : tx.isCoinBase = false)
    (differs : node.txHash tx ≠ txid)
    (updated : updateCoins node view nHeight tx = .ok next) :
    updateCoins node (view.setCoins txid coins) nHeight tx =
        .ok (next.setCoins txid coins) ∧
      next.coins txid = none := by
  rw [updateCoins, markSpent, if_neg (by rw [regular]; exact Bool.false_ne_true),
    bind_eq_ok] at updated ⊢
  rcases updated with ⟨left, spent, same⟩
  cases same
  rcases spendInputs_setCoins absent spent with ⟨spent, absent⟩
  refine ⟨⟨_, spent, ?_⟩, ?_⟩
  · rw [setCoins_comm differs.symm]
    rfl
  · rw [CCoinsView.setCoins_of_ne _ _ differs.symm, absent]

end Behind

/-! ## The loop of `ConnectBlock` -/

section Loop

variable {D : Type} {args : MinerArgs D} {queue : Queue D}
  {template after : Template D} {tx : CTransaction} {txid : Uint256}
  {coins : CCoins} {nTxFees nBetValue : Int64} {nTxSigOps base : Nat}
  {entries : List CTransaction}

theorem checkInputs_of_scriptChecks
    {node : Node} {view : CCoinsView} {nHeight : Nat} {strict : Bool}
    (checked : checkInputs node view nHeight true strict tx = .ok ())
    (fScriptChecks : Bool) :
    checkInputs node view nHeight fScriptChecks strict tx = .ok () := by
  simp only [checkInputs, bind_eq_ok, require_eq_ok, Bool.not_true,
    Bool.false_or] at checked ⊢
  rcases checked with ⟨_, available, nValueIn, valueIn, nValueOut, valueOut, _,
    enough, _, positive, _, range, scripts⟩
  exact ⟨(), available, nValueIn, valueIn, nValueOut, valueOut, (), enough, (),
    positive, (), range, by rw [scripts, Bool.or_true]⟩

/-- The state of `ConnectBlock` where the miner has a template. -/
def stateAt (template : Template D) (txid : Uint256) (coins : CCoins)
    (base : Nat) : ConnectState where
  view := template.view.setCoins txid coins
  nFees := template.nFees
  nSigOps := template.nBlockSigOps - 100 + base

/-- `ConnectBlock` connects what the miner adds. -/
theorem connectTransaction_of_added
    (added : Added args template after tx nTxFees nBetValue nTxSigOps)
    (fScriptChecks : Bool) (absent : template.view.coins txid = none)
    (regular : tx.isCoinBase = false) (differs : args.node.txHash tx ≠ txid)
    (counted : 100 ≤ template.nBlockSigOps) (small : base ≤ 100) :
    connectTransaction args.node args.nHeight fScriptChecks true
        (stateAt template txid coins base) tx =
        .ok (stateAt after txid coins base) ∧
      after.view.coins txid = none := by
  have agree : Agree template.view (template.view.setCoins txid coins) tx :=
    agree_of_available absent regular added.available
  rcases added.fees with ⟨nValueIn, nValueOut, valueIn, valueOut, fees⟩
  rcases added.sigOps with ⟨nP2SHSigOps, sigOps, total⟩
  have cheap := added.cheap
  have behind :
      updateCoins args.node (template.view.setCoins txid coins) args.nHeight tx =
          .ok (after.view.setCoins txid coins) ∧
        after.view.coins txid = none :=
    updateCoins_setCoins absent regular differs added.spent
  rcases behind with ⟨spent, gone⟩
  refine ⟨?_, gone⟩
  rw [connectTransaction, bind_eq_ok]
  refine ⟨(), require_eq_ok.mpr (decide_eq_true (by
    dsimp only [stateAt]
    omega)), ?_⟩
  rw [connectInputs, if_neg (by rw [regular]; exact Bool.false_ne_true)]
  simp only [bind_eq_ok, orFault_eq_ok, require_eq_ok, if_true]
  refine ⟨_, ⟨(), ?_, nP2SHSigOps, ?_, (), decide_eq_true ?_, nValueIn, ?_, nValueOut,
    valueOut, (), ?_, rfl⟩, after.view.setCoins txid coins, spent, ?_⟩
  · exact agree.available.trans added.available
  · exact agree.sigOps.trans sigOps
  · dsimp only [stateAt]
    omega
  · exact agree.valueIn.trans valueIn
  · exact (agree.inputs _ _).trans
      (checkInputs_of_scriptChecks added.checked fScriptChecks)
  · have sum : template.nBlockSigOps - 100 + base + getLegacySigOpCount tx +
        nP2SHSigOps = after.nBlockSigOps - 100 + base := by
      rw [added.nBlockSigOps]
      omega
    refine congrArg Except.ok ?_
    change ConnectState.mk _ (template.nFees + (nValueIn - nValueOut))
      (template.nBlockSigOps - 100 + base + getLegacySigOpCount tx + nP2SHSigOps) =
        stateAt after txid coins base
    rw [stateAt, added.nFees, fees, sum]

/-- What the miner has connected so far, seen from behind the coinbase. -/
structure Connects
    (args : MinerArgs D) (entries : List CTransaction) (view : CCoinsView)
    (fScriptChecks : Bool) (txid : Uint256) (coins : CCoins) (base : Nat)
    (template : Template D) : Prop extends Kept args entries template where
  absent : template.view.coins txid = none
  connected :
    template.vtx.foldlM
        (connectTransaction args.node args.nHeight fScriptChecks true)
        ⟨view.setCoins txid coins, 0, base⟩ =
      .ok (stateAt template txid coins base)

theorem connects_of_run
    {view : CCoinsView} {pool : CTxMemPool} {picks : List Nat}
    (collected : collect args view pool entries = .ok queue)
    (ran : (selection args view queue).run picks = some template)
    (fScriptChecks : Bool) (absent : view.coins txid = none)
    (differs : ∀ tx ∈ entries, args.node.txHash tx ≠ txid) (small : base ≤ 100) :
    Connects args entries view fScriptChecks txid coins base template := by
  refine System.run_invariant ?_ ?_ ran
  · refine ⟨kept_start collected, absent, ?_⟩
    rw [stateAt, selection, start, Nat.sub_self, Nat.zero_add]
    rfl
  · intro state i after connects taken
    rcases takeNext_cases taken with skipped | ⟨tx, _, _, _, added⟩
    · refine ⟨connects.toKept.skip skipped, ?_, ?_⟩
      · rw [skipped.view]
        exact connects.absent
      · rw [skipped.vtx, connects.connected, stateAt, stateAt, skipped.view,
          skipped.nFees, skipped.nBlockSigOps]
    · have kept := connects.toKept.add added
      have member : tx ∈ after.vtx := by
        rw [added.vtx]
        exact List.mem_append_right _ (List.mem_singleton_self tx)
      rcases kept.candidate member with ⟨inside, regular, -⟩
      rcases connectTransaction_of_added added fScriptChecks connects.absent
        regular (differs tx inside) ((Nat.le_add_right _ _).trans connects.legacy)
        small with ⟨connected, gone⟩
      refine ⟨kept, gone, ?_⟩
      · rw [added.vtx, List.foldlM_append, connects.connected]
        change ((connectTransaction _ _ _ _ _ _) >>= pure) = _
        rw [connected]
        rfl

end Loop

/-! ## The block -/

section Block

variable {D : Type} {args : MinerArgs D} {queue : Queue D}
  {template : Template D} {entries : List CTransaction} {view : CCoinsView}
  {block : CBlock} {scriptPubKeyIn : CScript} {vTxOut : List CTxOut}

/-- `pblock->vtx[0]` of a template. -/
def coinBase (args : MinerArgs D) (template : Template D)
    (scriptPubKeyIn : CScript) (vTxOut : List CTxOut) : CTransaction :=
  coinBaseOf args scriptPubKeyIn template.nFees vTxOut

/--
The block that is made of a template: the coinbase fits into the room that is
left for it, its hash is new, and the time is that of `UpdateTime`, behind the
switch to pay-to-script-hash.
-/
structure Mines
    (args : MinerArgs D) (entries : List CTransaction) (view : CCoinsView)
    (template : Template D) (scriptPubKeyIn : CScript) (vTxOut : List CTxOut)
    (block : CBlock) : Prop where
  vtx :
    block.vtx = coinBase args template scriptPubKeyIn vTxOut :: template.vtx
  checked :
    checkTransaction (coinBase args template scriptPubKeyIn vTxOut) = .ok ()
  sigOps :
    getLegacySigOpCount (coinBase args template scriptPubKeyIn vTxOut) ≤ 100
  room :
    block.toCBlockHeader.serialize.length +
      (coinBase args template scriptPubKeyIn vTxOut).serialize.length ≤ 1990
  unused :
    view.coins
      (args.node.txHash (coinBase args template scriptPubKeyIn vTxOut)) = none
  new :
    ∀ tx ∈ entries,
      args.node.txHash tx ≠
        args.node.txHash (coinBase args template scriptPubKeyIn vTxOut)
  switched : 1333238400 ≤ block.nTime.toNat
  adjusted : args.node.nAdjustedTime ≤ block.nTime.toNat
  future : (block.nTime.toNat : Int) ≤ args.node.nAdjustedTime + 2 * 60 * 60
  best : args.node.blockHash args.node.chainActive.item = view.hashBlock
  fresh : args.node.blockHash block ≠ args.node.hashGenesisBlock

/-- What the pool is for the loop: entries of different hashes, each checked. -/
structure Enters (args : MinerArgs D) (entries : List CTransaction) : Prop where
  distinct : (entries.map args.node.txHash).Nodup
  checked : ∀ tx ∈ entries, checkTransaction tx = .ok ()

theorem isFinalTx_later
    {node : Node} {tx : CTransaction} {nHeight : Nat} {nBlockTime : Int}
    (final : isFinalTx node tx nHeight 0 = true)
    (behind : node.nAdjustedTime ≤ nBlockTime) (positive : nBlockTime ≠ 0) :
    isFinalTx node tx nHeight nBlockTime = true := by
  rw [isFinalTx, if_pos rfl] at final
  rw [isFinalTx, if_neg positive]
  simp only [Bool.or_eq_true, decide_eq_true_eq] at final ⊢
  rcases final with (unlocked | below) | finals
  · exact Or.inl (Or.inl unlocked)
  · refine Or.inl (Or.inr ?_)
    split at below <;> omega
  · exact Or.inr finals

theorem length_block
    (kept : Kept args entries template)
    (mines : Mines args entries view template scriptPubKeyIn vTxOut block) :
    block.serialize.length ≤ MAX_BLOCK_SIZE := by
  have number := length_writeCompactSize (UInt64.ofNat block.vtx.length)
  have room := mines.room
  have size := kept.nBlockSize
  have fits := kept.fits
  have limit : args.nBlockMaxSize ≤ MAX_BLOCK_SIZE - 1000 :=
    max_le (by decide) (min_le_left _ _)
  have total : MAX_BLOCK_SIZE = 1000000 := rfl
  rw [CBlock.serialize, writeVector, List.length_append, List.length_append,
    List.length_flatMap, mines.vtx, List.map_cons, List.sum_cons]
  rw [mines.vtx] at number
  omega

theorem checkBlock_of_mines
    (enters : Enters args entries) (kept : Kept args entries template)
    (mines : Mines args entries view template scriptPubKeyIn vTxOut block) :
    args.node.checkBlock block false false = .ok () := by
  have short := length_block kept mines
  have few : block.vtx.length ≤ MAX_BLOCK_SIZE := by
    have counted : block.vtx.length ≤
        (writeVector CTransaction.serialize block.vtx).length :=
      length_le_writeVector fun tx _ => by
        simp [CTransaction.serialize, writeInt32]
        omega
    rw [CBlock.serialize, List.length_append] at short
    omega
  have legacy := kept.legacy
  have cheap := kept.cheap
  have small := mines.sigOps
  simp only [Node.checkBlock, bind_eq_ok, require_eq_ok, forM_eq_ok]
  refine ⟨(), ?_, (), rfl, (), decide_eq_true mines.future, (), ?_, (), ?_, (),
    decide_eq_true ?_, (), decide_eq_true ?_, rfl⟩
  · rw [Bool.and_eq_true, Bool.and_eq_true, decide_eq_true_eq, decide_eq_true_eq]
    exact ⟨⟨by rw [mines.vtx]; rfl, few⟩, short⟩
  · rw [mines.vtx, checkCoinBases, bind_eq_ok]
    refine ⟨(), require_eq_ok.mpr rfl, require_eq_ok.mpr ?_⟩
    rw [List.all_eq_true]
    intro tx member
    rw [(kept.candidate member).2.1]
    rfl
  · intro tx member
    rw [mines.vtx, List.mem_cons] at member
    rcases member with rfl | member
    · exact mines.checked
    · exact enters.checked tx (kept.candidate member).1
  · rw [mines.vtx, List.map_cons, List.nodup_cons]
    constructor
    · intro member
      rcases List.mem_map.mp member with ⟨tx, inside, same⟩
      exact mines.new tx (kept.candidate inside).1 same
    · have distinct : ((candidates args entries).map args.node.txHash).Nodup :=
        enters.distinct.sublist (List.filter_sublist.map _)
      rcases kept.subperm with ⟨ordered, permuted, inside⟩
      exact (permuted.map _).nodup_iff.mp (distinct.sublist (inside.map _))
  · rw [mines.vtx, List.map_cons, List.sum_cons]
    omega

/-- Where `ConnectBlock` is behind the transactions of the block. -/
def connectedState (args : MinerArgs D) (template : Template D)
    (scriptPubKeyIn : CScript) (vTxOut : List CTxOut) : ConnectState :=
  stateAt template
    (args.node.txHash (coinBase args template scriptPubKeyIn vTxOut))
    (CCoins.ofTransaction (coinBase args template scriptPubKeyIn vTxOut)
      (Int32.ofInt args.nHeight))
    (getLegacySigOpCount (coinBase args template scriptPubKeyIn vTxOut))

theorem connectTransactions_of_mines
    {pool : CTxMemPool} {picks : List Nat}
    (collected : collect args view pool entries = .ok queue)
    (ran : (selection args view queue).run picks = some template)
    (mines : Mines args entries view template scriptPubKeyIn vTxOut block) :
    connectTransactions args.node view args.nHeight block =
      .ok (connectedState args template scriptPubKeyIn vTxOut) := by
  have connects :
      Connects args entries view
        (decide (args.node.nTotalBlocksEstimate ≤ args.nHeight))
        (args.node.txHash (coinBase args template scriptPubKeyIn vTxOut))
        (CCoins.ofTransaction (coinBase args template scriptPubKeyIn vTxOut)
          (Int32.ofInt args.nHeight))
        (getLegacySigOpCount (coinBase args template scriptPubKeyIn vTxOut))
        template :=
    connects_of_run collected ran _ mines.unused mines.new mines.sigOps
  have few :
      0 + getLegacySigOpCount (coinBase args template scriptPubKeyIn vTxOut) ≤
        MAX_BLOCK_SIGOPS :=
    (Nat.zero_add _).le.trans (mines.sigOps.trans (by decide))
  rw [connectTransactions, mines.vtx, List.foldlM_cons,
    decide_eq_true mines.switched, connectTransaction_coinBase _ _ _ _ _ rfl few,
    connectedState, ← connects.connected, Nat.zero_add]
  rfl

end Block

/-! ## A chain of two transactions -/

/-- Priorities that prefer nothing. -/
def flatPriorities : Priorities Unit where
  computePriority := fun _ _ => ()
  feePerKb := fun _ _ => ()
  less := fun _ _ => false
  same := fun _ _ => true
  allowFree := fun _ => true
  belowRelayFee := fun _ => false

def sampleArgs : MinerArgs Unit where
  node := countingNode countingEnv
  priorities := flatPriorities
  fDebug := false
  blockmaxsize := 750000
  blockprioritysize := 50000
  blockminsize := 0

/-- A transaction with one input and one output, whose hash is its number. -/
def chained (hash : Uint256) (nLockTime : UInt32) (nValue : Int64) :
    CTransaction where
  nVersion := 1
  vin := [⟨⟨hash, 0⟩, [], 0xffffffff⟩]
  vout := [⟨nValue, [OP_1]⟩]
  nLockTime := nLockTime

def sampleView : CCoinsView where
  coins := fun txid =>
    if txid = 7 then some ⟨false, [⟨1000, [OP_1]⟩], 0, 1⟩ else none
  hashBlock := 0

/-- The second transaction spends the first one and comes before it. -/
def sampleEntries : List CTransaction := [chained 9 8 800, chained 7 9 900]

def samplePool : CTxMemPool :=
  (CTxMemPool.empty.addUnchecked 8 (chained 9 8 800)).addUnchecked 9
    (chained 7 9 900)

def sampleQueue : Queue Unit :=
  (collect sampleArgs sampleView samplePool sampleEntries).toOption.get (by decide)

def sampleTemplate : Template Unit :=
  ((selection sampleArgs sampleView sampleQueue).run [0, 0]).get (by decide)

example : sampleTemplate.vtx = sampleEntries.reverse := by decide

def sampleBlock : CBlock where
  nVersion := 2
  hashPrevBlock := 0
  hashMerkleRoot := 0
  nTime := 1500000000
  nBits := 0x1f00ffff
  nNonce := 1
  lottoHeader := genesisLottoHeader
  vtx := coinBase sampleArgs sampleTemplate [OP_1] [] :: sampleTemplate.vtx

end DSValue.Miner.Connecting
