import DSValue.Coins.Reversal

/-!
# Which outputs a block makes available

`UpdateCoins` takes the spent outputs away and adds those of the transaction.
`DisconnectBlock` takes the outputs of the transactions away and puts the
spent ones back; when it reports that everything was as expected it has not
overwritten any.
-/

namespace DSValue.Coins.Availability

open DSValue.Lib
open DSValue.Core.Serialize
open DSValue.Core.Transaction
open DSValue.Core.Compress
open DSValue.Consensus.CheckLottoResult
open DSValue.Consensus.CheckBlock
open DSValue.Consensus.ConnectBlock
open DSValue.Coins.Undo
open DSValue.Coins.Disconnect
open DSValue.Coins.Reversal

/-- The output at an outpoint, if it is left. -/
def unspentAt (view : CCoinsView) (outpoint : COutPoint) : Option CTxOut :=
  (view.coins outpoint.hash).bind fun coins =>
    available coins outpoint.n.toNat

/-- The output of a transaction that ends up among the coins, if it does. -/
def createdAt (tx : CTransaction) (n : UInt32) : Option CTxOut :=
  available (CCoins.ofTransaction tx 0) n.toNat

theorem outputFor?_eq (view : CCoinsView) (txin : CTxIn) :
    view.outputFor? txin = unspentAt view txin.prevout := by
  rw [CCoinsView.outputFor?, unspentAt]
  cases view.coins txin.prevout.hash with
  | none => rfl
  | some coins =>
      simp only [isAvailable_eq, Option.bind_some]
      cases isLeft : available coins txin.prevout.n.toNat with
      | none => rfl
      | some found =>
          simp only [Option.isSome_some, if_true,
            (available_eq_some.mp isLeft).1]

/-- The outputs of a transaction among the coins are outputs of it. -/
theorem getElem?_of_createdAt
    {tx : CTransaction} {n : UInt32} {txout : CTxOut}
    (created : createdAt tx n = some txout) :
    tx.vout[n.toNat]? = some txout ∧ txout.isNull = false := by
  rw [createdAt, CCoins.ofTransaction, CCoins.clearUnspendable,
    available_cleanup] at created
  rcases available_eq_some.mp created with ⟨found, nonNull⟩
  rw [List.getElem?_map, Option.map_eq_some_iff] at found
  rcases found with ⟨original, isOutput, cleared⟩
  split_ifs at cleared
  · rw [← cleared] at nonNull
    exact absurd nonNull (by decide)
  · rw [cleared] at isOutput
    exact ⟨isOutput, nonNull⟩

theorem unspentAt_setCoins
    (view : CCoinsView) (txid : Uint256) (coins : CCoins)
    (outpoint : COutPoint) :
    unspentAt (view.setCoins txid coins) outpoint =
      if outpoint.hash = txid then available coins outpoint.n.toNat
      else unspentAt view outpoint := by
  rw [unspentAt, unspentAt]
  split_ifs with isKey
  · rw [isKey, CCoinsView.setCoins_self]
    rfl
  · rw [CCoinsView.setCoins_of_ne _ _ isKey]

/-! ## Connecting -/

/-- One spent output. -/
theorem unspentAt_spend
    {view : CCoinsView} {outpoint : COutPoint} {coins next : CCoins}
    {undo : CTxInUndo} (holds : view.coins outpoint.hash = some coins)
    (spends : Spends coins outpoint.n.toNat next undo) (other : COutPoint) :
    unspentAt (view.setCoins outpoint.hash next) other =
      if other = outpoint then none else unspentAt view other := by
  rw [unspentAt_setCoins]
  by_cases isHash : other.hash = outpoint.hash
  · rw [if_pos isHash, spends.left]
    by_cases isPos : other.n = outpoint.n
    · have same : other = outpoint := by
        cases other
        cases outpoint
        simp_all
      rw [if_pos (by rw [isPos]), if_pos same]
    · have differs : other ≠ outpoint := fun same => isPos (by rw [same])
      have away : other.n.toNat ≠ outpoint.n.toNat :=
        fun same => isPos (UInt32.toNat_inj.mp same)
      rw [if_neg away, if_neg differs, unspentAt, isHash, holds]
      rfl
  · have differs : other ≠ outpoint := fun same => isHash (by rw [same])
    rw [if_neg isHash, if_neg differs]

/-- The spent outputs are gone, and the records hold them. -/
theorem unspentAt_spendInputs
    {view spent : CCoinsView} {vin : List CTxIn} {undos : List CTxInUndo}
    (ran : Undo.spendInputs view vin = .ok (spent, undos)) :
    (∀ outpoint, unspentAt spent outpoint =
      if outpoint ∈ vin.map CTxIn.prevout then none
      else unspentAt view outpoint) ∧
    ∀ record ∈ vin.zip undos,
      unspentAt view record.1.prevout = some record.2.txout := by
  induction vin generalizing view undos with
  | nil =>
      cases ran
      refine ⟨fun outpoint => by simp, ?_⟩
      intro record member
      cases member
  | cons txin rest inductionHypothesis =>
      rcases spendInputs_cons ran with
        ⟨coins, next, undo, later, holds, ranFirst, ranLater, rfl⟩
      have spends := spends_of_spend ranFirst
      have first := unspentAt_spend holds spends
      rcases inductionHypothesis ranLater with ⟨left, records⟩
      refine ⟨?_, ?_⟩
      · intro outpoint
        rw [left, first, List.map_cons]
        by_cases isFirst : outpoint = txin.prevout
        · simp [isFirst]
        · simp [isFirst]
      · intro record member
        rw [List.zip_cons_cons] at member
        rcases List.mem_cons.mp member with rfl | inRest
        · rw [unspentAt, holds]
          exact spends.output
        · have isLeft := records record inRest
          rw [first] at isLeft
          split_ifs at isLeft
          exact isLeft

/-- What `UpdateCoins` makes available. -/
theorem unspentAt_updateCoins
    {node : Node} {nHeight : Nat} {view next : CCoinsView}
    {tx : CTransaction} {undos : List CTxInUndo}
    (ran : Undo.updateCoins node view nHeight tx = .ok (next, undos))
    (outpoint : COutPoint) :
    unspentAt next outpoint =
      if outpoint.hash = node.txHash tx then createdAt tx outpoint.n
      else if outpoint ∈ (spentInputs tx).map CTxIn.prevout then none
      else unspentAt view outpoint := by
  rcases bind_eq_ok.mp ran with ⟨⟨spent, records⟩, ranInputs, result⟩
  cases result
  rw [unspentAt_setCoins, (unspentAt_spendInputs ranInputs).1]
  rfl

theorem source_of_updateCoins
    {node : Node} {nHeight : Nat} {view next : CCoinsView}
    {tx : CTransaction} {undos : List CTxInUndo}
    (ran : Undo.updateCoins node view nHeight tx = .ok (next, undos))
    {outpoint : COutPoint}
    (isLeft : (unspentAt next outpoint).isSome = true) :
    (unspentAt view outpoint).isSome = true ∨
      node.txHash tx = outpoint.hash ∧
        (createdAt tx outpoint.n).isSome = true := by
  rw [unspentAt_updateCoins ran] at isLeft
  split_ifs at isLeft with isHash isSpent
  · exact Or.inr ⟨isHash.symm, isLeft⟩
  · cases isLeft
  · exact Or.inl isLeft

/-- An output that no transaction of the block spends is available. -/
theorem unspentAt_updateAllCoins
    {node : Node} {nHeight : Nat} {view next : CCoinsView}
    {txs : List CTransaction} {blockUndo : CBlockUndo}
    (ran : updateAllCoins node nHeight view txs = .ok (next, blockUndo))
    {outpoint : COutPoint}
    (unspent :
      ∀ tx ∈ txs, outpoint ∉ (spentInputs tx).map CTxIn.prevout)
    (creates :
      ∀ tx ∈ txs, node.txHash tx = outpoint.hash →
        (createdAt tx outpoint.n).isSome = true)
    (source :
      (unspentAt view outpoint).isSome = true ∨
        ∃ tx ∈ txs, node.txHash tx = outpoint.hash) :
    (unspentAt next outpoint).isSome = true := by
  induction txs generalizing view blockUndo with
  | nil =>
      cases ran
      rcases source with isLeft | ⟨tx, member, -⟩
      · exact isLeft
      · cases member
  | cons tx rest inductionHypothesis =>
      rcases updateAllCoins_cons ran with
        ⟨middle, undos, later, ranFirst, ranLater, -⟩
      apply inductionHypothesis ranLater
        (fun other member => unspent other (List.mem_cons_of_mem _ member))
        (fun other member => creates other (List.mem_cons_of_mem _ member))
      rw [unspentAt_updateCoins ranFirst]
      by_cases isHash : outpoint.hash = node.txHash tx
      · rw [if_pos isHash]
        exact Or.inl (creates tx List.mem_cons_self isHash.symm)
      · rw [if_neg isHash, if_neg (unspent tx List.mem_cons_self)]
        rcases source with isLeft | ⟨other, member, isOther⟩
        · exact Or.inl isLeft
        · rcases List.mem_cons.mp member with rfl | inRest
          · exact absurd isOther.symm isHash
          · exact Or.inr ⟨other, inRest, isOther⟩

/-- Available outputs come from before or from the block. -/
theorem source_of_updateAllCoins
    {node : Node} {nHeight : Nat} {view next : CCoinsView}
    {txs : List CTransaction} {blockUndo : CBlockUndo}
    (ran : updateAllCoins node nHeight view txs = .ok (next, blockUndo))
    {outpoint : COutPoint}
    (isLeft : (unspentAt next outpoint).isSome = true) :
    (unspentAt view outpoint).isSome = true ∨
      ∃ tx ∈ txs, node.txHash tx = outpoint.hash ∧
        (createdAt tx outpoint.n).isSome = true := by
  induction txs generalizing view blockUndo with
  | nil =>
      cases ran
      exact Or.inl isLeft
  | cons tx rest inductionHypothesis =>
      rcases updateAllCoins_cons ran with
        ⟨middle, undos, later, ranFirst, ranLater, -⟩
      rcases inductionHypothesis ranLater with before | ⟨other, member, facts⟩
      · rcases source_of_updateCoins ranFirst before with earlier | created
        · exact Or.inl earlier
        · exact Or.inr ⟨tx, List.mem_cons_self, created⟩
      · exact Or.inr ⟨other, List.mem_cons_of_mem _ member, facts⟩

/-! ## Disconnecting -/

theorem unspentAt_removeOutputs
    (node : Node) (nHeight : Nat) (state : Disconnecting) (tx : CTransaction)
    (outpoint : COutPoint) :
    unspentAt (removeOutputs node nHeight state tx).1 outpoint =
      if outpoint.hash = node.txHash tx then none
      else unspentAt state.1 outpoint := by
  rw [removeOutputs]
  cases known : state.1.coins (node.txHash tx) with
  | none =>
      simp only
      split_ifs with isHash
      · rw [unspentAt, isHash, known]
        rfl
      · rfl
  | some coins =>
      simp only [unspentAt_setCoins]
      rfl

theorem available_restoreOutput
    {coins restored : CCoins} {n : UInt32} {txout : CTxOut}
    (ran : restoreOutput coins n txout = some restored) (other : Nat) :
    available restored other =
      if other = n.toNat then (some txout).filter fun txout => !txout.isNull
      else available coins other := by
  simp only [restoreOutput] at ran
  split_ifs at ran with short padded inside
  · cases ran
    rw [available_set
      { coins with
        vout := coins.vout ++
          List.replicate ((n + 1).toNat - coins.vout.length) CTxOut.null }
      txout padded, available_append_null]
  · cases ran
    exact available_set coins txout inside other

/-- The outputs that are put back, and what was there before. -/
structure PutsBack
    (view next : CCoinsView) (outpoints : List COutPoint) : Prop where
  kept :
    ∀ outpoint, (unspentAt view outpoint).isSome = true →
      (unspentAt next outpoint).isSome = true
  source :
    ∀ outpoint, (unspentAt next outpoint).isSome = true →
      (unspentAt view outpoint).isSome = true ∨ outpoint ∈ outpoints

theorem PutsBack.refl (view : CCoinsView) : PutsBack view view [] :=
  ⟨fun _ isLeft => isLeft, fun _ isLeft => Or.inl isLeft⟩

theorem PutsBack.trans
    {view middle next : CCoinsView} {first second : List COutPoint}
    (ranFirst : PutsBack view middle first)
    (ranSecond : PutsBack middle next second) :
    PutsBack view next (first ++ second) := by
  constructor
  · intro outpoint isLeft
    exact ranSecond.kept outpoint (ranFirst.kept outpoint isLeft)
  · intro outpoint isLeft
    rcases ranSecond.source outpoint isLeft with between | restored
    · rcases ranFirst.source outpoint between with before | restored
      · exact Or.inl before
      · exact Or.inr (List.mem_append_left _ restored)
    · exact Or.inr (List.mem_append_right _ restored)

/-- The coins that an output is put into have lost nothing before. -/
theorem available_restoredCoins
    {coins : CCoins} {undo : CTxInUndo}
    (expected :
      (if undo.nHeight ≠ 0 then coins.isPruned else !coins.isPruned) = true)
    (nPos : Nat) :
    available (restoredCoins coins undo) nPos = available coins nPos := by
  rw [restoredCoins]
  by_cases behind : undo.nHeight ≠ 0
  · rw [if_pos behind] at expected
    rw [if_pos behind, (isPruned_iff coins).mp expected nPos]
    rfl
  · rw [if_neg behind]

/-- Restoring an input without complaint puts one output back. -/
theorem putsBack_restoreInput
    {view next : CCoinsView} {fClean : Bool} {record : CTxIn × CTxInUndo}
    (ran : restoreInput (view, fClean) record = .ok (next, true)) :
    fClean = true ∧ PutsBack view next [record.1.prevout] := by
  simp only [restoreInput] at ran
  split at ran
  · cases ran
  rename_i restored isRestored
  simp only [pure, Except.pure, Except.ok.injEq, Prod.mk.injEq,
    Bool.and_eq_true] at ran
  rcases ran with ⟨rfl, ⟨isClean, expected⟩, isFree⟩
  refine ⟨isClean, ?_⟩
  have atHash :
      ∀ nPos, available restored nPos =
        if nPos = record.1.prevout.n.toNat then
          (some record.2.txout).filter fun txout => !txout.isNull
        else
          available ((view.coins record.1.prevout.hash).getD emptyCoins)
            nPos := by
    intro nPos
    rw [available_restoreOutput isRestored, available_restoredCoins expected]
  have before :
      ∀ outpoint, outpoint.hash = record.1.prevout.hash →
        unspentAt view outpoint =
          available ((view.coins record.1.prevout.hash).getD emptyCoins)
            outpoint.n.toNat := by
    intro outpoint isHash
    rw [unspentAt, isHash]
    cases view.coins record.1.prevout.hash with
    | none => rfl
    | some coins => rfl
  have wasFree : unspentAt view record.1.prevout = none := by
    rw [isAvailable_eq, available_restoredCoins expected, Bool.not_eq_true',
      Option.isSome_eq_false_iff, Option.isNone_iff_eq_none] at isFree
    rw [before record.1.prevout rfl, isFree]
  constructor
  · intro outpoint isLeft
    rw [unspentAt_setCoins]
    split_ifs with isHash
    · rw [before outpoint isHash] at isLeft
      rw [atHash, if_neg]
      · exact isLeft
      · intro isPos
        rw [← before outpoint isHash] at isLeft
        have same : outpoint = record.1.prevout := by
          cases outpoint
          simp only at isHash isPos
          rw [isHash, UInt32.toNat_inj.mp isPos]
        rw [same, wasFree] at isLeft
        cases isLeft
    · exact isLeft
  · intro outpoint isLeft
    rw [unspentAt_setCoins] at isLeft
    split_ifs at isLeft with isHash
    · rw [atHash] at isLeft
      split_ifs at isLeft with isPos
      · right
        rw [List.mem_singleton]
        cases outpoint
        simp only at isHash isPos
        rw [isHash, UInt32.toNat_inj.mp isPos]
      · rw [before outpoint isHash]
        exact Or.inl isLeft
    · exact Or.inl isLeft

theorem putsBack_restoreInputs
    {view next : CCoinsView} {fClean : Bool}
    {records : List (CTxIn × CTxInUndo)}
    (ran : records.foldlM restoreInput (view, fClean) = .ok (next, true)) :
    fClean = true ∧
      PutsBack view next (records.map fun record => record.1.prevout) := by
  induction records generalizing view fClean with
  | nil =>
      cases ran
      exact ⟨rfl, PutsBack.refl _⟩
  | cons record rest inductionHypothesis =>
      rw [List.foldlM_cons] at ran
      rcases bind_eq_ok.mp ran with ⟨⟨middle, isClean⟩, ranFirst, ranRest⟩
      rcases inductionHypothesis ranRest with ⟨rfl, later⟩
      rcases putsBack_restoreInput ranFirst with ⟨clean, first⟩
      exact ⟨clean, first.trans later⟩

/-- What disconnecting transactions without complaint does. -/
structure Disconnects
    (node : Node) (view next : CCoinsView)
    (entries : List (CTransaction × Option (List CTxInUndo))) : Prop where
  kept :
    ∀ outpoint, (∀ entry ∈ entries, outpoint.hash ≠ node.txHash entry.1) →
      (unspentAt view outpoint).isSome = true →
      (unspentAt next outpoint).isSome = true
  source :
    ∀ outpoint, (unspentAt next outpoint).isSome = true →
      (unspentAt view outpoint).isSome = true ∨
        ∃ entry ∈ entries, ∃ vprevout, entry.2 = some vprevout ∧
          ∃ record ∈ entry.1.vin.zip vprevout,
            record.1.prevout = outpoint

theorem disconnects_transaction
    {node : Node} {nHeight : Nat} {view next : CCoinsView} {fClean : Bool}
    {entry : CTransaction × Option (List CTxInUndo)}
    (ran :
      disconnectTransaction node nHeight (view, fClean) entry =
        .ok (next, true)) :
    fClean = true ∧ Disconnects node view next [entry] := by
  have flag :
      (removeOutputs node nHeight (view, fClean) entry.1).2 = true →
        fClean = true := by
    intro isTrue
    simp only [removeOutputs, Bool.and_eq_true] at isTrue
    exact isTrue.1
  have kept :
      ∀ outpoint, (∀ other ∈ [entry], outpoint.hash ≠ node.txHash other.1) →
        (unspentAt view outpoint).isSome = true →
        (unspentAt (removeOutputs node nHeight (view, fClean) entry.1).1
          outpoint).isSome = true := by
    intro outpoint away isLeft
    rw [unspentAt_removeOutputs,
      if_neg (away entry (List.mem_singleton.mpr rfl))]
    exact isLeft
  have source :
      ∀ outpoint,
        (unspentAt (removeOutputs node nHeight (view, fClean) entry.1).1
          outpoint).isSome = true →
        (unspentAt view outpoint).isSome = true := by
    intro outpoint isLeft
    rw [unspentAt_removeOutputs] at isLeft
    split_ifs at isLeft
    · cases isLeft
    · exact isLeft
  rw [disconnectTransaction] at ran
  cases isEntry : entry.2 with
  | none =>
      simp only [isEntry, pure, Except.pure, Except.ok.injEq] at ran
      rw [ran] at flag kept source
      exact ⟨flag rfl, kept, fun outpoint isLeft =>
        Or.inl (source outpoint isLeft)⟩
  | some vprevout =>
      simp only [isEntry] at ran
      split at ran
      · cases ran
      rcases putsBack_restoreInputs ran with ⟨isClean, putsBack⟩
      refine ⟨flag isClean, ?_, ?_⟩
      · intro outpoint away isLeft
        exact putsBack.kept outpoint (kept outpoint away isLeft)
      · intro outpoint isLeft
        rcases putsBack.source outpoint isLeft with before | restored
        · exact Or.inl (source outpoint before)
        · rcases List.mem_map.mp restored with ⟨record, member, isPrevout⟩
          exact Or.inr ⟨entry, List.mem_singleton.mpr rfl, vprevout, isEntry,
            record, List.mem_reverse.mp member, isPrevout⟩

theorem disconnects_transactions
    {node : Node} {nHeight : Nat} {view next : CCoinsView} {fClean : Bool}
    {entries : List (CTransaction × Option (List CTxInUndo))}
    (ran :
      entries.foldlM (disconnectTransaction node nHeight) (view, fClean) =
        .ok (next, true)) :
    fClean = true ∧ Disconnects node view next entries := by
  induction entries generalizing view fClean with
  | nil =>
      cases ran
      exact ⟨rfl, fun _ _ isLeft => isLeft, fun _ isLeft => Or.inl isLeft⟩
  | cons entry rest inductionHypothesis =>
      rw [List.foldlM_cons] at ran
      rcases bind_eq_ok.mp ran with ⟨⟨middle, isClean⟩, ranFirst, ranRest⟩
      rcases inductionHypothesis ranRest with ⟨rfl, later⟩
      rcases disconnects_transaction ranFirst with ⟨clean, first⟩
      refine ⟨clean, ?_, ?_⟩
      · intro outpoint away isLeft
        apply later.kept outpoint
          (fun other member => away other (List.mem_cons_of_mem _ member))
        apply first.kept outpoint _ isLeft
        intro other member
        rw [List.mem_singleton.mp member]
        exact away entry List.mem_cons_self
      · intro outpoint isLeft
        rcases later.source outpoint isLeft with
          between | ⟨other, member, facts⟩
        · rcases first.source outpoint between with
            before | ⟨other, member, facts⟩
          · exact Or.inl before
          · rw [List.mem_singleton.mp member] at facts
            exact Or.inr ⟨entry, List.mem_cons_self, facts⟩
        · exact Or.inr ⟨other, List.mem_cons_of_mem _ member, facts⟩

/-- `DisconnectBlock` without complaint, with the undo data it read. -/
theorem disconnects_block
    {node : Node} {keys : PubKeyOps} {hash : List UInt8 → Uint256}
    {view restored : CCoinsView} {pprev : CBlockIndex} {block : CBlock}
    {file : List UInt8} {blockUndo : CBlockUndo}
    (read :
      readFromDisk keys hash (node.blockHash pprev.item) file =
        some blockUndo)
    (ran :
      disconnectBlock node keys hash view pprev block file =
        .ok (restored, true)) :
    Disconnects node view restored (undoOrder block.vtx blockUndo) := by
  rw [disconnectBlock] at ran
  split at ran
  · cases ran
  simp only [read] at ran
  split at ran
  · cases ran
  rcases bind_eq_ok.mp ran with ⟨⟨next, isClean⟩, ranLoop, result⟩
  cases result
  have disconnects := (disconnects_transactions ranLoop).2
  exact ⟨disconnects.kept, disconnects.source⟩

end DSValue.Coins.Availability
