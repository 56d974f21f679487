import DSValue.Coins.Undo

/-!
# Disconnecting a block

`DisconnectBlock` takes the transactions of a block in reverse order, removes
the coins of each and puts the spent outputs back.  It reports whether it
found what it expected: the coins of the transaction as the block creates
them, and free places for the outputs.

What matters of coins are the outputs that are left and the metadata.  One
input restored from its record undoes one spent input, and the rest follows
by induction over the inputs and the transactions.
-/

namespace DSValue.Coins.Disconnect

open DSValue.Lib
open DSValue.Core.Serialize
open DSValue.Core.Transaction
open DSValue.Core.Compress
open DSValue.Consensus.CheckLottoResult
open DSValue.Consensus.CheckBlock
open DSValue.Consensus.ConnectBlock
open DSValue.Coins.Undo
open DSValue.Script.Scan

/-! ## The function -/

/-- How `DisconnectBlock` fails. -/
inductive DisconnectFailure where
  | assertion
  | outOfRange
  | error (message : String)
deriving DecidableEq

/-- `CCoins()`. -/
def emptyCoins : CCoins :=
  ⟨false, [], 0, 0⟩

/-- `operator==` of `CCoins`. -/
def sameCoins (first second : CCoins) : Bool :=
  (first.isPruned && second.isPruned) ||
    (first.fCoinBase = second.fCoinBase ∧ first.nHeight = second.nHeight ∧
      first.nVersion = second.nVersion ∧ first.vout = second.vout)

/-- A view and `fClean`. -/
abbrev Disconnecting := CCoinsView × Bool

/-- The part of the loop that removes the outputs of a transaction. -/
def removeOutputs
    (node : Node) (nHeight : Nat) (state : Disconnecting)
    (tx : CTransaction) : Disconnecting :=
  let hash := node.txHash tx
  let found := CCoins.clearUnspendable ((state.1.coins hash).getD emptyCoins)
  let outsBlock := CCoins.ofTransaction tx (Int32.ofInt nHeight)
  let outs :=
    if outsBlock.nVersion < 0 then
      { found with nVersion := outsBlock.nVersion }
    else found
  (match state.1.coins hash with
    | none => state.1
    | some _ => state.1.setCoins hash emptyCoins,
    state.2 && sameCoins outs outsBlock)

/-- `coins.vout[out.n] = undo.txout`, behind `resize` where it is short. -/
def restoreOutput (coins : CCoins) (n : UInt32) (txout : CTxOut) :
    Option CCoins :=
  let size := (n + 1).toNat
  let vout :=
    if coins.vout.length < size then
      coins.vout ++ List.replicate (size - coins.vout.length) CTxOut.null
    else coins.vout
  if n.toNat < vout.length then
    some { coins with vout := vout.set n.toNat txout }
  else none

/-- The coins that an output is put back into. -/
def restoredCoins (coins : CCoins) (undo : CTxInUndo) : CCoins :=
  if undo.nHeight ≠ 0 then
    ⟨undo.fCoinBase, [], undo.nHeight.toInt32, undo.nVersion⟩
  else coins

/-- One round of the loop that restores the inputs of a transaction. -/
def restoreInput
    (state : Disconnecting) (record : CTxIn × CTxInUndo) :
    Except DisconnectFailure Disconnecting :=
  let out := record.1.prevout
  let undo := record.2
  let coins := (state.1.coins out.hash).getD emptyCoins
  let fClean :=
    state.2 &&
      (if undo.nHeight ≠ 0 then coins.isPruned else !coins.isPruned) &&
      !(restoredCoins coins undo).isAvailable out.n.toNat
  match restoreOutput (restoredCoins coins undo) out.n undo.txout with
  | none => throw .outOfRange
  | some restored => pure (state.1.setCoins out.hash restored, fClean)

/-- One round of the loop of `DisconnectBlock`; a coinbase has no records. -/
def disconnectTransaction
    (node : Node) (nHeight : Nat) (state : Disconnecting)
    (entry : CTransaction × Option (List CTxInUndo)) :
    Except DisconnectFailure Disconnecting :=
  match entry.2 with
  | none => pure (removeOutputs node nHeight state entry.1)
  | some vprevout =>
      if vprevout.length ≠ entry.1.vin.length then
        throw (.error
          "DisconnectBlock() : transaction and undo data inconsistent")
      else
        (entry.1.vin.zip vprevout).reverse.foldlM restoreInput
          (removeOutputs node nHeight state entry.1)

/-- The transactions with their undo data, the last one first. -/
def undoOrder (vtx : List CTransaction) (blockUndo : CBlockUndo) :
    List (CTransaction × Option (List CTxInUndo)) :=
  (vtx.zip (none :: blockUndo.map some)).reverse

/--
`DisconnectBlock` of a block on top of `pprev` whose undo data stand in a
file: the view and whether everything was as expected.
-/
def disconnectBlock
    (node : Node) (keys : PubKeyOps) (hash : List UInt8 → Uint256)
    (view : CCoinsView) (pprev : CBlockIndex) (block : CBlock)
    (file : List UInt8) : Except DisconnectFailure Disconnecting :=
  if node.blockHash block ≠ view.hashBlock then throw .assertion
  else
    match readFromDisk keys hash (node.blockHash pprev.item) file with
    | none =>
        throw (.error "DisconnectBlock() : failure reading undo data")
    | some blockUndo =>
        if blockUndo.length + 1 ≠ block.vtx.length then
          throw (.error
            "DisconnectBlock() : block and undo data inconsistent")
        else do
          let state ←
            (undoOrder block.vtx blockUndo).foldlM
              (disconnectTransaction node (pprev.height + 1)) (view, true)
          pure ({ state.1 with hashBlock := node.blockHash pprev.item },
            state.2)

/-! ## Outputs that are left -/

/-- The output at a position, if it is left. -/
def available (coins : CCoins) (nPos : Nat) : Option CTxOut :=
  (coins.vout[nPos]?).filter fun txout => !txout.isNull

theorem available_eq_some
    {coins : CCoins} {nPos : Nat} {txout : CTxOut} :
    available coins nPos = some txout ↔
      coins.vout[nPos]? = some txout ∧ txout.isNull = false := by
  rw [available, Option.filter_eq_some_iff, Bool.not_eq_true']

theorem isAvailable_eq (coins : CCoins) (nPos : Nat) :
    coins.isAvailable nPos = (available coins nPos).isSome := by
  rw [CCoins.isAvailable, available]
  cases coins.vout[nPos]? with
  | none => rfl
  | some txout => cases isNull : txout.isNull <;> simp [isNull]

theorem isPruned_iff (coins : CCoins) :
    coins.isPruned = true ↔ ∀ nPos, available coins nPos = none := by
  rw [CCoins.isPruned, List.all_eq_true]
  constructor
  · intro allNull nPos
    rw [Option.eq_none_iff_forall_not_mem]
    intro txout isLeft
    rcases available_eq_some.mp isLeft with ⟨found, nonNull⟩
    rw [allNull txout (List.mem_of_getElem? found)] at nonNull
    cases nonNull
  · intro none txout member
    rcases List.getElem?_of_mem member with ⟨nPos, found⟩
    by_contra nonNull
    have isLeft := available_eq_some.mpr ⟨found, by simpa using nonNull⟩
    rw [none nPos] at isLeft
    cases isLeft

theorem available_cleanup (coins : CCoins) (nPos : Nat) :
    available coins.cleanup nPos = available coins nPos := by
  apply Option.ext
  intro txout
  rw [available_eq_some, available_eq_some]
  constructor
  · rintro ⟨found, nonNull⟩
    exact ⟨(rdropWhile_available coins.vout nPos nonNull).mp found, nonNull⟩
  · rintro ⟨found, nonNull⟩
    exact ⟨(rdropWhile_available coins.vout nPos nonNull).mpr found, nonNull⟩

/-- Setting a position, in terms of the outputs that are left. -/
theorem available_set
    (coins : CCoins) {nPos : Nat} (txout : CTxOut)
    (inside : nPos < coins.vout.length) (other : Nat) :
    available { coins with vout := coins.vout.set nPos txout } other =
      if other = nPos then (some txout).filter fun txout => !txout.isNull
      else available coins other := by
  rw [available, available, List.getElem?_set]
  by_cases same : nPos = other
  · subst same
    rw [if_pos rfl, if_pos rfl, if_pos inside]
  · rw [if_neg same, if_neg (Ne.symm same)]

/-- What `CCoins::Spend` does. -/
structure Spends
    (coins : CCoins) (nPos : Nat) (spent : CCoins) (undo : CTxInUndo) :
    Prop where
  output : available coins nPos = some undo.txout
  left :
    ∀ other, available spent other =
      if other = nPos then none else available coins other
  coinBase : spent.fCoinBase = coins.fCoinBase
  height : spent.nHeight = coins.nHeight
  version : spent.nVersion = coins.nVersion
  record :
    if spent.isPruned then
      undo =
        ⟨undo.txout, coins.fCoinBase, coins.nHeight.toUInt32, coins.nVersion⟩
    else undo = ⟨undo.txout, false, 0, 0⟩

theorem isEmpty_cleanup (coins : CCoins) :
    coins.cleanup.vout.isEmpty = coins.cleanup.isPruned := by
  rw [Bool.eq_iff_iff, List.isEmpty_iff, CCoins.isPruned, List.all_eq_true]
  constructor
  · intro empty txout member
    rw [empty] at member
    cases member
  · intro allNull
    by_contra nonempty
    have last := List.rdropWhile_last_not CTxOut.isNull coins.vout nonempty
    exact last (allNull _ (List.getLast_mem nonempty))

theorem spends_of_spend
    {coins spent : CCoins} {nPos : Nat} {undo : CTxInUndo}
    (ran : spend coins nPos = some (spent, undo)) :
    Spends coins nPos spent undo := by
  rw [spend] at ran
  cases found : coins.vout[nPos]? with
  | none =>
      rw [found] at ran
      cases ran
  | some txout =>
      simp only [found] at ran
      split at ran
      · cases ran
      rename_i nonNull
      rw [Option.some.injEq, Prod.mk.injEq] at ran
      rcases ran with ⟨isSpent, isUndo⟩
      have inside : nPos < coins.vout.length :=
        (List.getElem?_eq_some_iff.mp found).1
      have output : undo.txout = txout := by
        rw [← isUndo]
        split_ifs <;> rfl
      have empty :=
        isEmpty_cleanup
          { coins with vout := coins.vout.set nPos CTxOut.null }
      constructor
      case output =>
        rw [output]
        exact available_eq_some.mpr ⟨found, by simpa using nonNull⟩
      case left =>
        intro other
        rw [← isSpent, available_cleanup, available_set coins _ inside]
        rfl
      case coinBase => rw [← isSpent]; rfl
      case height => rw [← isSpent]; rfl
      case version => rw [← isSpent]; rfl
      case record =>
        rw [← isSpent, ← empty, ← isUndo]
        split_ifs <;> rfl

theorem available_append_null
    (coins : CCoins) (padding nPos : Nat) :
    available
        { coins with
          vout := coins.vout ++ List.replicate padding CTxOut.null } nPos =
      available coins nPos := by
  rw [available, available, List.getElem?_append]
  split_ifs with inside
  · rfl
  · rw [List.getElem?_replicate, List.getElem?_eq_none (not_lt.mp inside)]
    split_ifs <;> rfl

/-- What putting an output back does. -/
structure Restores
    (coins : CCoins) (nPos : Nat) (txout : CTxOut) (restored : CCoins) :
    Prop where
  left :
    ∀ other, available restored other =
      if other = nPos then some txout else available coins other
  coinBase : restored.fCoinBase = coins.fCoinBase
  height : restored.nHeight = coins.nHeight
  version : restored.nVersion = coins.nVersion

theorem restores_of_set
    (coins : CCoins) (padding : Nat) {nPos : Nat} {txout : CTxOut}
    (inside : nPos < coins.vout.length + padding)
    (nonNull : txout.isNull = false) :
    Restores coins nPos txout
      { coins with
        vout :=
          (coins.vout ++ List.replicate padding CTxOut.null).set nPos
            txout } := by
  refine ⟨?_, rfl, rfl, rfl⟩
  intro other
  have isSet :=
    available_set
      { coins with vout := coins.vout ++ List.replicate padding CTxOut.null }
      txout (by simpa using inside) other
  have kept : ((some txout).filter fun txout => !txout.isNull) = some txout := by
    simp [nonNull]
  rw [available_append_null, kept] at isSet
  exact isSet

theorem restores_of_restoreOutput
    (coins : CCoins) {n : UInt32} {txout : CTxOut}
    (small : n.toNat + 1 < 2 ^ 32) (nonNull : txout.isNull = false) :
    ∃ restored, restoreOutput coins n txout = some restored ∧
      Restores coins n.toNat txout restored := by
  have size : (n + 1).toNat = n.toNat + 1 := by
    rw [UInt32.toNat_add]
    exact Nat.mod_eq_of_lt small
  rw [restoreOutput]
  simp only [size]
  by_cases short : coins.vout.length < n.toNat + 1
  · simp only [if_pos short]
    rw [if_pos (by simp; omega)]
    exact ⟨_, rfl, restores_of_set coins _ (by omega) nonNull⟩
  · simp only [if_neg short]
    rw [if_pos (by omega)]
    have restores :=
      restores_of_set coins 0 (show n.toNat < coins.vout.length + 0 by omega)
        nonNull
    rw [List.replicate_zero, List.append_nil] at restores
    exact ⟨_, rfl, restores⟩

/-! ## What a view holds -/

/-- What matters of coins. -/
structure Entry where
  fCoinBase : Bool
  nHeight : Int32
  nVersion : Int32
  available : Nat → Option CTxOut

def CCoins.toEntry (coins : CCoins) : Entry :=
  ⟨coins.fCoinBase, coins.nHeight, coins.nVersion, available coins⟩

/-- What a view holds for a transaction; fully spent coins are absent. -/
def entryOf (coins : Option CCoins) : Option Entry :=
  (coins.filter fun found => !found.isPruned).map CCoins.toEntry

/-- The views hold the same for every transaction. -/
def SameCoins (first second : CCoinsView) : Prop :=
  ∀ txid, entryOf (first.coins txid) = entryOf (second.coins txid)

theorem entryOf_eq_none {coins : Option CCoins} :
    entryOf coins = none ↔ (coins.getD emptyCoins).isPruned = true := by
  cases coins with
  | none => simp [entryOf, CCoins.isPruned, emptyCoins]
  | some coins => cases pruned : coins.isPruned <;> simp [entryOf, pruned]

theorem entryOf_of_not_isPruned
    {coins : CCoins} (left : coins.isPruned = false) :
    entryOf (some coins) = some (CCoins.toEntry coins) := by
  simp [entryOf, left]

theorem entryOf_eq_some
    {coins : Option CCoins} {entry : Entry}
    (holds : entryOf coins = some entry) :
    ∃ found, coins = some found ∧ found.isPruned = false ∧
      CCoins.toEntry found = entry := by
  rw [entryOf, Option.map_eq_some_iff] at holds
  rcases holds with ⟨found, filtered, isEntry⟩
  rcases Option.filter_eq_some_iff.mp filtered with ⟨isSome, left⟩
  exact ⟨found, isSome, by simpa using left, isEntry⟩

/-! ## One input -/

theorem isPruned_eq_false
    {coins : CCoins} {nPos : Nat} {txout : CTxOut}
    (isLeft : available coins nPos = some txout) :
    coins.isPruned = false := by
  rw [← Bool.not_eq_true]
  intro pruned
  rw [(isPruned_iff coins).mp pruned nPos] at isLeft
  cases isLeft

/-- Putting the output back into what is left gives the coins back. -/
theorem entryOf_restored
    {coins spent before restored : CCoins} {nPos : Nat} {undo : CTxInUndo}
    (spends : Spends coins nPos spent undo)
    (restores : Restores before nPos undo.txout restored)
    (left : ∀ other, available before other = available spent other)
    (coinBase : before.fCoinBase = coins.fCoinBase)
    (height : before.nHeight = coins.nHeight)
    (version : before.nVersion = coins.nVersion) :
    entryOf (some restored) = entryOf (some coins) := by
  have restoredLeft : available restored nPos = some undo.txout := by
    rw [restores.left, if_pos rfl]
  rw [entryOf_of_not_isPruned (isPruned_eq_false restoredLeft),
    entryOf_of_not_isPruned (isPruned_eq_false spends.output),
    CCoins.toEntry, CCoins.toEntry, restores.coinBase, restores.height,
    restores.version, coinBase, height, version]
  have outputs : available restored = available coins := by
    funext other
    rw [restores.left, left, spends.left]
    split_ifs with same
    · rw [same, spends.output]
    · rfl
  rw [outputs]

/-- Restoring an input from its record undoes spending it. -/
theorem restoreInput_undoes
    {view current : CCoinsView} {txin : CTxIn} {coins spent : CCoins}
    {undo : CTxInUndo}
    (spends : Spends coins txin.prevout.n.toNat spent undo)
    (positive : coins.nHeight ≠ 0)
    (small : txin.prevout.n.toNat + 1 < 2 ^ 32)
    (same : SameCoins current (view.setCoins txin.prevout.hash spent)) :
    ∃ restored, restoreInput (current, true) (txin, undo) =
        .ok (current.setCoins txin.prevout.hash restored, true) ∧
      entryOf (some restored) = entryOf (some coins) := by
  have atKey := same txin.prevout.hash
  rw [CCoinsView.setCoins_self] at atKey
  have nonNull : undo.txout.isNull = false :=
    (available_eq_some.mp spends.output).2
  have record := spends.record
  generalize isBefore :
    restoredCoins ((current.coins txin.prevout.hash).getD emptyCoins) undo =
      before
  rcases restores_of_restoreOutput before small nonNull with
    ⟨restored, ran, restores⟩
  have step :
      ∀ fClean,
        ((if undo.nHeight ≠ 0 then
            ((current.coins txin.prevout.hash).getD emptyCoins).isPruned
          else
            !((current.coins txin.prevout.hash).getD emptyCoins).isPruned) &&
          !before.isAvailable txin.prevout.n.toNat) = fClean →
        restoreInput (current, true) (txin, undo) =
          .ok (current.setCoins txin.prevout.hash restored, fClean) := by
    intro fClean isClean
    simp only [restoreInput, isBefore, ran, Bool.true_and]
    rw [isClean]
    rfl
  by_cases pruned : spent.isPruned = true
  · rw [if_pos pruned] at record
    have height : undo.nHeight ≠ 0 := by
      rw [record]
      intro isZero
      apply positive
      rw [← Int32.toInt32_toUInt32 coins.nHeight]
      exact congrArg UInt32.toInt32 isZero
    have absent :
        ((current.coins txin.prevout.hash).getD emptyCoins).isPruned =
          true := by
      rw [← entryOf_eq_none, atKey, entryOf_eq_none]
      exact pruned
    rw [restoredCoins, if_pos height] at isBefore
    refine ⟨restored, step true ?_, ?_⟩
    · rw [if_pos height, absent, ← isBefore]
      rfl
    · apply entryOf_restored spends restores
      · intro other
        rw [(isPruned_iff spent).mp pruned other, ← isBefore]
        rfl
      · rw [← isBefore, record]
      · rw [← isBefore, record]
        exact Int32.toInt32_toUInt32 coins.nHeight
      · rw [← isBefore, record]
  · rw [if_neg pruned] at record
    rw [Bool.not_eq_true] at pruned
    rw [entryOf_of_not_isPruned pruned] at atKey
    rcases entryOf_eq_some atKey with ⟨found, isFound, left, isEntry⟩
    rw [CCoins.toEntry, CCoins.toEntry, Entry.mk.injEq] at isEntry
    rcases isEntry with ⟨coinBase, height, version, outputs⟩
    have noHeight : undo.nHeight = 0 := by rw [record]
    rw [restoredCoins, if_neg (not_not.mpr noHeight), isFound,
      Option.getD_some] at isBefore
    subst isBefore
    refine ⟨restored, step true ?_, ?_⟩
    · rw [if_neg (not_not.mpr noHeight), isFound, Option.getD_some, left,
        isAvailable_eq, outputs, spends.left, if_pos rfl]
      rfl
    · apply entryOf_restored spends restores
      · intro other
        rw [outputs]
      · rw [coinBase, spends.coinBase]
      · rw [height, spends.height]
      · rw [version, spends.version]

end DSValue.Coins.Disconnect
