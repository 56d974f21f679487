import DSValue.Coins.Disconnect
import Mathlib.Algebra.Order.BigOperators.Group.List

/-!
# `DisconnectBlock` undoes `ConnectBlock`

The transactions of a block are undone in reverse order.  Along the way the
current view holds the same as the view before the transactions that are
still to be undone.  For the comparison with the coins the block creates the
coins of its transactions have to be the same list of outputs, not only hold
the same: they are canonical, without null outputs at the end and with blank
null outputs between.
-/

namespace DSValue.Coins.Reversal

open DSValue.Lib
open DSValue.Core.Serialize
open DSValue.Core.Deserialize
open DSValue.Core.Transaction
open DSValue.Core.Compress
open DSValue.Consensus.CheckLottoResult
open DSValue.Consensus.CheckBlock
open DSValue.Consensus.ConnectBlock
open DSValue.Coins.Undo
open DSValue.Coins.Disconnect
open DSValue.Script.Scan

/-! ## Canonical coins -/

/-- Null outputs are blank, and none stands at the end. -/
structure Canonical (coins : CCoins) : Prop where
  blank : ∀ txout ∈ coins.vout, txout.isNull = true → txout = CTxOut.null
  clean : ∀ last, coins.vout.getLast? = some last → last.isNull = false

/-- The coins of a view, if there are any, are canonical. -/
def CanonicalAt (view : CCoinsView) (txid : Uint256) : Prop :=
  ∀ coins, view.coins txid = some coins → Canonical coins

theorem canonical_cleanup
    {coins : CCoins}
    (blank : ∀ txout ∈ coins.vout, txout.isNull = true → txout = CTxOut.null) :
    Canonical coins.cleanup := by
  constructor
  · intro txout member
    exact blank txout
      ((List.rdropWhile_prefix CTxOut.isNull coins.vout).subset member)
  · intro last atEnd
    rw [← Bool.not_eq_true]
    have nonempty : coins.cleanup.vout ≠ [] := by
      intro empty
      rw [empty] at atEnd
      cases atEnd
    rw [List.getLast?_eq_some_getLast nonempty, Option.some.injEq] at atEnd
    rw [← atEnd]
    exact List.rdropWhile_last_not CTxOut.isNull coins.vout nonempty

theorem canonical_emptyCoins : Canonical emptyCoins := by
  constructor
  · intro txout member
    cases member
  · intro last atEnd
    cases atEnd

/-- The coins of a checked transaction are canonical. -/
theorem canonical_ofTransaction
    {tx : CTransaction} (nHeight : Int32)
    (checked : checkTransaction tx = .ok ()) :
    Canonical (CCoins.ofTransaction tx nHeight) := by
  apply canonical_cleanup
  intro txout member isNull
  rcases List.mem_map.mp member with ⟨original, inVout, cleared⟩
  split_ifs at cleared with unspendable
  · exact cleared.symm
  · have range := moneyRange_of_checkTransaction checked original inVout
    rw [cleared] at range
    have value : txout.nValue = -1 := of_decide_eq_true isNull
    rw [value] at range
    exact absurd range (by decide)

theorem canonical_spend
    {coins spent : CCoins} {nPos : Nat} {undo : CTxInUndo}
    (canonical : Canonical coins)
    (ran : spend coins nPos = some (spent, undo)) :
    Canonical spent := by
  have isSpent : coins.spend nPos = some spent := by
    rw [← spend_fst, ran]
    rfl
  rw [CCoins.spend] at isSpent
  split at isSpent
  · cases isSpent
  split_ifs at isSpent
  cases isSpent
  apply canonical_cleanup
  intro txout member isNull
  rcases List.mem_or_eq_of_mem_set member with kept | isNullOutput
  · exact canonical.blank txout kept isNull
  · exact isNullOutput

theorem canonical_set
    {coins : CCoins} {vout : List CTxOut} {nPos : Nat} {txout : CTxOut}
    (nonNull : txout.isNull = false)
    (blank : ∀ other ∈ vout, other.isNull = true → other = CTxOut.null)
    (clean :
      nPos + 1 = vout.length ∨
        ∀ last, vout.getLast? = some last → last.isNull = false) :
    Canonical { coins with vout := vout.set nPos txout } := by
  constructor
  · intro other member isNull
    rcases List.mem_or_eq_of_mem_set member with kept | isSet
    · exact blank other kept isNull
    · rw [isSet, nonNull] at isNull
      cases isNull
  · intro last atEnd
    simp only [List.getLast?_eq_getElem?, List.length_set,
      List.getElem?_set] at atEnd clean
    split_ifs at atEnd with isLast
    · cases atEnd
      exact nonNull
    · rcases clean with isLastPosition | kept
      · omega
      · exact kept last atEnd

theorem canonical_restoreOutput
    {coins restored : CCoins} {n : UInt32} {txout : CTxOut}
    (canonical : Canonical coins) (nonNull : txout.isNull = false)
    (small : n.toNat + 1 < 2 ^ 32)
    (ran : restoreOutput coins n txout = some restored) :
    Canonical restored := by
  have size : (n + 1).toNat = n.toNat + 1 := by
    rw [UInt32.toNat_add]
    exact Nat.mod_eq_of_lt small
  simp only [restoreOutput, size] at ran
  split_ifs at ran with inside short
  · cases ran
    apply canonical_set nonNull
    · intro other member isNull
      rcases List.mem_append.mp member with kept | isPadding
      · exact canonical.blank other kept isNull
      · exact (List.mem_replicate.mp isPadding).2
    · left
      simp only [List.length_append, List.length_replicate]
      omega
  · cases ran
    exact canonical_set nonNull canonical.blank (Or.inr canonical.clean)

theorem length_le_of_available
    {first second : CCoins} (canonical : Canonical first)
    (same : available first = available second) :
    first.vout.length ≤ second.vout.length := by
  by_contra longer
  have nonempty : first.vout ≠ [] := by
    intro empty
    rw [empty] at longer
    exact longer (Nat.zero_le _)
  have atEnd := List.getLast?_eq_some_getLast nonempty
  have nonNull := canonical.clean _ atEnd
  rw [List.getLast?_eq_getElem?] at atEnd
  have isLeft := available_eq_some.mpr ⟨atEnd, nonNull⟩
  rw [same] at isLeft
  have inside :=
    (List.getElem?_eq_some_iff.mp (available_eq_some.mp isLeft).1).1
  omega

/-- Canonical coins with the same outputs left are the same list. -/
theorem vout_eq_of_available
    {first second : CCoins} (canonicalFirst : Canonical first)
    (canonicalSecond : Canonical second)
    (same : available first = available second) :
    first.vout = second.vout := by
  have lengths : first.vout.length = second.vout.length :=
    le_antisymm (length_le_of_available canonicalFirst same)
      (length_le_of_available canonicalSecond same.symm)
  apply List.ext_getElem lengths
  intro nPos insideFirst insideSecond
  have atFirst := List.getElem?_eq_getElem insideFirst
  have atSecond := List.getElem?_eq_getElem insideSecond
  cases isNull : (first.vout[nPos]).isNull with
  | false =>
      have isLeft := available_eq_some.mpr ⟨atFirst, isNull⟩
      rw [same] at isLeft
      have found := (available_eq_some.mp isLeft).1
      rw [atSecond] at found
      exact (Option.some.inj found).symm
  | true =>
      cases otherNull : (second.vout[nPos]).isNull with
      | true =>
          rw [canonicalFirst.blank _ (List.getElem_mem insideFirst) isNull,
            canonicalSecond.blank _ (List.getElem_mem insideSecond) otherNull]
      | false =>
          have isLeft := available_eq_some.mpr ⟨atSecond, otherNull⟩
          rw [← same] at isLeft
          rcases available_eq_some.mp isLeft with ⟨found, nonNull⟩
          rw [atFirst] at found
          rw [← Option.some.inj found, isNull] at nonNull
          cases nonNull

/-! ## Sound coins -/

/-- Coins whose metadata and outputs survive in the undo data. -/
structure Sound (coins : CCoins) : Prop where
  height : 0 < coins.nHeight
  version : 0 ≤ coins.nVersion
  number : coins.vout.length < 2 ^ 32
  scripts :
    ∀ txout ∈ coins.vout,
      txout.scriptPubKey.length + nSpecialScripts < 2 ^ 32

def SoundView (view : CCoinsView) : Prop :=
  ∀ txid coins, view.coins txid = some coins → Sound coins

theorem SoundView.setCoins
    {view : CCoinsView} (sound : SoundView view) (txid : Uint256)
    {coins : CCoins} (soundCoins : Sound coins) :
    SoundView (view.setCoins txid coins) := by
  intro other found isFound
  by_cases same : other = txid
  · rw [same, CCoinsView.setCoins_self, Option.some.injEq] at isFound
    rw [← isFound]
    exact soundCoins
  · rw [CCoinsView.setCoins_of_ne _ _ same] at isFound
    exact sound other found isFound

theorem sound_cleanup {coins : CCoins} (sound : Sound coins) :
    Sound coins.cleanup := by
  have kept := List.rdropWhile_prefix CTxOut.isNull coins.vout
  refine ⟨sound.height, sound.version, ?_, ?_⟩
  · exact lt_of_le_of_lt kept.length_le sound.number
  · intro txout member
    exact sound.scripts txout (kept.subset member)

theorem sound_spend
    {coins spent : CCoins} {nPos : Nat} {undo : CTxInUndo}
    (sound : Sound coins) (ran : spend coins nPos = some (spent, undo)) :
    Sound spent := by
  have isSpent : coins.spend nPos = some spent := by
    rw [← spend_fst, ran]
    rfl
  rw [CCoins.spend] at isSpent
  split at isSpent
  · cases isSpent
  split_ifs at isSpent
  cases isSpent
  apply sound_cleanup
  refine ⟨sound.height, sound.version, by simpa using sound.number, ?_⟩
  intro txout member
  rcases List.mem_or_eq_of_mem_set member with kept | isNull
  · exact sound.scripts txout kept
  · rw [isNull]
    decide

/-! ## The inputs of a transaction -/

/-- Restoring an output keeps canonical coins canonical. -/
theorem canonicalAt_restoreInput
    {current restored : CCoinsView} {fClean isClean : Bool}
    {record : CTxIn × CTxInUndo}
    (nonNull : record.2.txout.isNull = false)
    (small : record.1.prevout.n.toNat + 1 < 2 ^ 32)
    (ran : restoreInput (current, fClean) record = .ok (restored, isClean))
    {txid : Uint256} (canonical : CanonicalAt current txid) :
    CanonicalAt restored txid := by
  simp only [restoreInput] at ran
  split at ran
  · cases ran
  rename_i coins isCoins
  cases ran
  intro found isFound
  by_cases same : txid = record.1.prevout.hash
  · rw [same, CCoinsView.setCoins_self, Option.some.injEq] at isFound
    rw [← isFound]
    refine canonical_restoreOutput ?_ nonNull small isCoins
    rw [restoredCoins]
    split_ifs
    · exact ⟨by simp, by simp⟩
    · rw [same] at canonical
      cases known : current.coins record.1.prevout.hash with
      | none => exact canonical_emptyCoins
      | some coins => exact canonical coins known
  · rw [CCoinsView.setCoins_of_ne _ _ same] at isFound
    exact canonical found isFound

/-- The first step of spending inputs. -/
theorem spendInputs_cons
    {view spent : CCoinsView} {txin : CTxIn} {rest : List CTxIn}
    {undos : List CTxInUndo}
    (ran : Undo.spendInputs view (txin :: rest) = .ok (spent, undos)) :
    ∃ coins next undo later,
      view.coins txin.prevout.hash = some coins ∧
      spend coins txin.prevout.n.toNat = some (next, undo) ∧
      Undo.spendInputs (view.setCoins txin.prevout.hash next) rest =
        .ok (spent, later) ∧
      undos = undo :: later := by
  rw [Undo.spendInputs] at ran
  split at ran
  · cases ran
  rename_i coins holds
  split at ran
  · cases ran
  rename_i next undo spends
  rcases bind_eq_ok.mp ran with ⟨⟨last, later⟩, ranLater, result⟩
  cases result
  exact ⟨coins, next, undo, later, holds, spends, ranLater, rfl⟩

theorem small_of_spends
    {coins spent : CCoins} {n : UInt32} {undo : CTxInUndo}
    (sound : Sound coins) (spends : Spends coins n.toNat spent undo) :
    n.toNat + 1 < 2 ^ 32 := by
  have inside :=
    (List.getElem?_eq_some_iff.mp
      (available_eq_some.mp spends.output).1).1
  have number := sound.number
  omega

theorem sameCoins_restored
    {view current : CCoinsView} {txid : Uint256} {next restored : CCoins}
    {coins : CCoins}
    (same : SameCoins current (view.setCoins txid next))
    (holds : view.coins txid = some coins)
    (entry : entryOf (some restored) = entryOf (some coins)) :
    SameCoins (current.setCoins txid restored) view := by
  intro other
  by_cases isKey : other = txid
  · rw [isKey, CCoinsView.setCoins_self, holds]
    exact entry
  · rw [CCoinsView.setCoins_of_ne _ _ isKey, same other,
      CCoinsView.setCoins_of_ne _ _ isKey]

/-- Restoring the inputs in reverse order undoes spending them. -/
theorem restoreInputs_undo
    {view spent current : CCoinsView} {vin : List CTxIn}
    {undos : List CTxInUndo} (sound : SoundView view)
    (ran : Undo.spendInputs view vin = .ok (spent, undos))
    (same : SameCoins current spent) :
    ∃ restored,
      (vin.zip undos).reverse.foldlM restoreInput (current, true) =
        .ok (restored, true) ∧
      SameCoins restored view ∧
      ∀ txid, CanonicalAt current txid → CanonicalAt restored txid := by
  induction vin generalizing view undos with
  | nil =>
      cases ran
      exact ⟨current, rfl, same, fun _ canonical => canonical⟩
  | cons txin rest inductionHypothesis =>
      rcases spendInputs_cons ran with
        ⟨coins, next, undo, later, holds, ranFirst, ranLater, rfl⟩
      have soundCoins := sound _ coins holds
      have spends := spends_of_spend ranFirst
      have small := small_of_spends soundCoins spends
      rcases inductionHypothesis
          (sound.setCoins _ (sound_spend soundCoins ranFirst)) ranLater with
        ⟨middle, ranMiddle, sameMiddle, canonicalMiddle⟩
      have positive : coins.nHeight ≠ 0 :=
        (Int32.ne_of_lt soundCoins.height).symm
      rcases restoreInput_undoes spends positive small sameMiddle with
        ⟨restored, ranLast, entry⟩
      refine ⟨middle.setCoins txin.prevout.hash restored, ?_,
        sameCoins_restored sameMiddle holds entry, ?_⟩
      · rw [List.zip_cons_cons, List.reverse_cons, List.foldlM_append,
          ranMiddle]
        exact bind_eq_ok.mpr ⟨_, rfl, bind_eq_ok.mpr ⟨_, ranLast, rfl⟩⟩
      · intro txid canonical
        exact canonicalAt_restoreInput
          (available_eq_some.mp spends.output).2 small ranLast
          (canonicalMiddle txid canonical)

/-- What spending inputs keeps. -/
theorem spendInputs_keeps
    {view spent : CCoinsView} {vin : List CTxIn} {undos : List CTxInUndo}
    (ran : Undo.spendInputs view vin = .ok (spent, undos)) :
    undos.length = vin.length ∧
      (SoundView view → SoundView spent) ∧
      ∀ txid,
        (CanonicalAt view txid → CanonicalAt spent txid) ∧
        (entryOf (view.coins txid) = none →
          entryOf (spent.coins txid) = none) := by
  induction vin generalizing view undos with
  | nil =>
      cases ran
      exact ⟨rfl, id, fun _ => ⟨id, id⟩⟩
  | cons txin rest inductionHypothesis =>
      rcases spendInputs_cons ran with
        ⟨coins, next, undo, later, holds, ranFirst, ranLater, rfl⟩
      rcases inductionHypothesis ranLater with ⟨number, sounds, keeps⟩
      refine ⟨by simp [number], ?_, ?_⟩
      · intro sound
        exact sounds
          (sound.setCoins _ (sound_spend (sound _ coins holds) ranFirst))
      · intro txid
        refine ⟨fun canonical => (keeps txid).1 ?_,
          fun absent => (keeps txid).2 ?_⟩
        · intro found isFound
          by_cases same : txid = txin.prevout.hash
          · rw [same, CCoinsView.setCoins_self, Option.some.injEq] at isFound
            rw [← isFound]
            rw [same] at canonical
            exact canonical_spend (canonical coins holds) ranFirst
          · rw [CCoinsView.setCoins_of_ne _ _ same] at isFound
            exact canonical found isFound
        · by_cases same : txid = txin.prevout.hash
          · rw [same, holds, entryOf_eq_none] at absent
            have output := (spends_of_spend ranFirst).output
            rw [(isPruned_iff coins).mp absent] at output
            cases output
          · rw [CCoinsView.setCoins_of_ne _ _ same]
            exact absent

/-! ## One transaction -/

theorem clearUnspendable_eq
    {coins : CCoins} (canonical : Canonical coins)
    (spendable :
      ∀ nPos txout, available coins nPos = some txout →
        isUnspendable txout.scriptPubKey = false) :
    coins.clearUnspendable = coins := by
  have kept :
      coins.vout.map (fun txout =>
        if isUnspendable txout.scriptPubKey then CTxOut.null else txout) =
        coins.vout := by
    refine (List.map_congr_left ?_).trans (List.map_id coins.vout)
    intro txout member
    split_ifs with unspendable
    · cases isNull : txout.isNull with
      | true => exact (canonical.blank txout member isNull).symm
      | false =>
          rcases List.getElem?_of_mem member with ⟨nPos, found⟩
          have isLeft := available_eq_some.mpr ⟨found, isNull⟩
          rw [spendable nPos txout isLeft] at unspendable
          cases unspendable
    · rfl
  have clean : coins.vout.rdropWhile CTxOut.isNull = coins.vout := by
    cases atEnd : coins.vout.getLast? with
    | none =>
        rw [List.getLast?_eq_none_iff] at atEnd
        rw [atEnd]
        rfl
    | some last =>
        exact rdropWhile_of_getLast? atEnd (canonical.clean last atEnd)
  rw [CCoins.clearUnspendable, CCoins.cleanup]
  simp only [kept, clean]

/-- Outputs left of a transaction are spendable. -/
theorem spendable_ofTransaction
    {tx : CTransaction} {nHeight : Int32} {nPos : Nat} {txout : CTxOut}
    (isLeft :
      available (CCoins.ofTransaction tx nHeight) nPos = some txout) :
    isUnspendable txout.scriptPubKey = false := by
  rw [CCoins.ofTransaction, CCoins.clearUnspendable, available_cleanup]
    at isLeft
  rcases available_eq_some.mp isLeft with ⟨found, nonNull⟩
  rw [List.getElem?_map, Option.map_eq_some_iff] at found
  rcases found with ⟨original, -, cleared⟩
  split_ifs at cleared with unspendable
  · rw [← cleared] at nonNull
    exact absurd nonNull (by decide)
  · rw [← cleared]
    simpa using unspendable

/-- Coins that hold what a transaction created compare equal to it. -/
theorem sameCoins_ofTransaction
    {tx : CTransaction} {nHeight : Int32} {coins : Option CCoins}
    (checked : checkTransaction tx = .ok ())
    (canonical : Canonical (coins.getD emptyCoins))
    (same :
      entryOf coins = entryOf (some (CCoins.ofTransaction tx nHeight))) :
    (coins.getD emptyCoins).clearUnspendable = coins.getD emptyCoins ∧
      sameCoins (coins.getD emptyCoins)
        (CCoins.ofTransaction tx nHeight) = true := by
  cases pruned : (CCoins.ofTransaction tx nHeight).isPruned with
  | true =>
      have absent :
          entryOf (some (CCoins.ofTransaction tx nHeight)) = none :=
        entryOf_eq_none.mpr pruned
      rw [absent, entryOf_eq_none] at same
      refine ⟨clearUnspendable_eq canonical ?_, ?_⟩
      · intro nPos txout isLeft
        rw [(isPruned_iff _).mp same] at isLeft
        cases isLeft
      · rw [sameCoins, same, pruned]
        rfl
  | false =>
      rw [entryOf_of_not_isPruned pruned] at same
      rcases entryOf_eq_some same with ⟨found, rfl, left, isEntry⟩
      rw [Option.getD_some] at canonical ⊢
      rw [CCoins.toEntry, CCoins.toEntry, Entry.mk.injEq] at isEntry
      rcases isEntry with ⟨coinBase, height, version, outputs⟩
      have vout :=
        vout_eq_of_available canonical (canonical_ofTransaction nHeight checked)
          outputs
      refine ⟨clearUnspendable_eq canonical ?_, ?_⟩
      · intro nPos txout isLeft
        rw [outputs] at isLeft
        exact spendable_ofTransaction isLeft
      · rw [sameCoins, Bool.or_eq_true]
        exact Or.inr (decide_eq_true ⟨coinBase, height, version, vout⟩)

/-- Removing the coins a transaction created finds them as expected. -/
theorem removeOutputs_clean
    {node : Node} {nHeight : Nat} {current : CCoinsView} {tx : CTransaction}
    (checked : checkTransaction tx = .ok ()) (version : 0 ≤ tx.nVersion)
    (canonical : CanonicalAt current (node.txHash tx))
    (same :
      entryOf (current.coins (node.txHash tx)) =
        entryOf (some (CCoins.ofTransaction tx (Int32.ofInt nHeight)))) :
    ∃ removed, removeOutputs node nHeight (current, true) tx = (removed, true) ∧
      entryOf (removed.coins (node.txHash tx)) = none ∧
      CanonicalAt removed (node.txHash tx) ∧
      ∀ txid, txid ≠ node.txHash tx →
        removed.coins txid = current.coins txid := by
  have canonicalFound :
      Canonical ((current.coins (node.txHash tx)).getD emptyCoins) := by
    cases known : current.coins (node.txHash tx) with
    | none => exact canonical_emptyCoins
    | some coins => exact canonical coins known
  rcases sameCoins_ofTransaction checked canonicalFound same with
    ⟨cleared, equal⟩
  have noOverride :
      ¬ (CCoins.ofTransaction tx (Int32.ofInt nHeight)).nVersion < 0 :=
    Int32.not_lt.mpr version
  have flag :
      (removeOutputs node nHeight (current, true) tx).2 = true := by
    simp only [removeOutputs, cleared, if_neg noOverride, equal, Bool.and_self]
  have noCoins : entryOf (some emptyCoins) = none := rfl
  cases known : current.coins (node.txHash tx) with
  | none =>
      have kept :
          (removeOutputs node nHeight (current, true) tx).1 = current := by
        simp only [removeOutputs, known]
      refine ⟨current, Prod.ext kept flag, ?_, canonical, fun _ _ => rfl⟩
      rw [known]
      rfl
  | some coins =>
      have isSet :
          (removeOutputs node nHeight (current, true) tx).1 =
            current.setCoins (node.txHash tx) emptyCoins := by
        simp only [removeOutputs, known]
      refine ⟨current.setCoins (node.txHash tx) emptyCoins,
        Prod.ext isSet flag, ?_, ?_, ?_⟩
      · rw [CCoinsView.setCoins_self]
        exact noCoins
      · intro found isFound
        rw [CCoinsView.setCoins_self, Option.some.injEq] at isFound
        rw [← isFound]
        exact canonical_emptyCoins
      · intro txid differs
        exact CCoinsView.setCoins_of_ne _ _ differs

/-- A transaction with the records that `DisconnectBlock` finds for it. -/
def undoEntry (tx : CTransaction) (undos : List CTxInUndo) :
    CTransaction × Option (List CTxInUndo) :=
  (tx, if tx.isCoinBase then none else some undos)

/-- Disconnecting a transaction undoes `UpdateCoins`. -/
theorem disconnectTransaction_undoes
    {node : Node} {nHeight : Nat} {view next current : CCoinsView}
    {tx : CTransaction} {undos : List CTxInUndo} (sound : SoundView view)
    (checked : checkTransaction tx = .ok ()) (version : 0 ≤ tx.nVersion)
    (fresh : entryOf (view.coins (node.txHash tx)) = none)
    (ran : Undo.updateCoins node view nHeight tx = .ok (next, undos))
    (same : SameCoins current next)
    (canonical : CanonicalAt current (node.txHash tx)) :
    ∃ restored,
      disconnectTransaction node nHeight (current, true)
          (undoEntry tx undos) = .ok (restored, true) ∧
      SameCoins restored view ∧
      ∀ txid, CanonicalAt current txid → CanonicalAt restored txid := by
  rcases bind_eq_ok.mp ran with ⟨⟨spent, records⟩, ranInputs, result⟩
  cases result
  have keeps := spendInputs_keeps ranInputs
  have atHash := same (node.txHash tx)
  rw [CCoinsView.setCoins_self] at atHash
  rcases removeOutputs_clean checked version canonical atHash with
    ⟨removed, isRemoved, absent, canonicalThere, kept⟩
  have sameRemoved : SameCoins removed spent := by
    intro txid
    by_cases isHash : txid = node.txHash tx
    · rw [isHash, absent, (keeps.2.2 _).2 fresh]
    · rw [kept txid isHash, same txid, CCoinsView.setCoins_of_ne _ _ isHash]
  have canonicalRemoved :
      ∀ txid, CanonicalAt current txid → CanonicalAt removed txid := by
    intro txid known
    by_cases isHash : txid = node.txHash tx
    · rw [isHash]
      exact canonicalThere
    · intro coins found
      rw [kept txid isHash] at found
      exact known coins found
  rcases restoreInputs_undo sound ranInputs sameRemoved with
    ⟨restored, ranRestore, sameRestored, canonicalRestored⟩
  refine ⟨restored, ?_, sameRestored,
    fun txid known => canonicalRestored txid (canonicalRemoved txid known)⟩
  rw [spentInputs] at ranRestore keeps
  rw [disconnectTransaction, undoEntry]
  split_ifs at ranRestore keeps ⊢ with isCoinBase
  · cases ranRestore
    simp only [isRemoved]
    rfl
  · simp only [keeps.1, ne_eq, not_true_eq_false, if_false, isRemoved]
    exact ranRestore

/-! ## The transactions of a block -/

theorem length_serialize_le
    {α : Type} {write : α → List UInt8} {values : List α} {value : α}
    (member : value ∈ values) :
    (write value).length ≤ (writeVector write values).length := by
  rw [writeVector, List.length_append, List.length_flatMap]
  have single :=
    List.single_le_sum (fun size _ => Nat.zero_le size) _
      (List.mem_map_of_mem (f := fun value => (write value).length) member)
  omega

theorem length_le_writeVector
    {α : Type} {write : α → List UInt8} {values : List α}
    (nonempty : ∀ value ∈ values, 1 ≤ (write value).length) :
    values.length ≤ (writeVector write values).length := by
  rw [writeVector, List.length_append, List.length_flatMap]
  have each : values.length ≤ (values.map fun value => (write value).length).sum := by
    induction values with
    | nil => simp
    | cons value values inductionHypothesis =>
        have first := nonempty value (by simp)
        have later :=
          inductionHypothesis fun other member =>
            nonempty other (List.mem_cons_of_mem _ member)
        rw [List.length_cons, List.map_cons, List.sum_cons]
        omega
  omega

/-- The sizes that `CheckTransaction` bounds. -/
theorem sizes_of_checkTransaction
    {tx : CTransaction} (checked : checkTransaction tx = .ok ()) :
    tx.vin.length ≤ MAX_BLOCK_SIZE ∧ tx.vout.length ≤ MAX_BLOCK_SIZE ∧
      ∀ txout ∈ tx.vout, txout.scriptPubKey.length ≤ MAX_BLOCK_SIZE := by
  simp only [checkTransaction, bind_eq_ok, require_eq_ok] at checked
  rcases checked with ⟨_, _, _, _, _, size, _⟩
  have bound := of_decide_eq_true size
  rw [CTransaction.serialize] at bound
  simp only [List.length_append] at bound
  have inputs : tx.vin.length ≤ (writeVector CTxIn.serialize tx.vin).length := by
    apply length_le_writeVector
    intro txin _
    simp [CTxIn.serialize, writeUint256]
    omega
  have outputs :
      tx.vout.length ≤ (writeVector CTxOut.serialize tx.vout).length := by
    apply length_le_writeVector
    intro txout _
    simp [CTxOut.serialize, writeInt64]
    omega
  refine ⟨by omega, by omega, ?_⟩
  intro txout member
  have output : txout.serialize.length ≤ _ := length_serialize_le member
  have script : txout.scriptPubKey.length ≤ txout.serialize.length := by
    simp [CTxOut.serialize, writeScript]
    omega
  omega

theorem sound_ofTransaction
    {tx : CTransaction} {nHeight : Nat}
    (checked : checkTransaction tx = .ok ()) (version : 0 ≤ tx.nVersion)
    (positive : 0 < nHeight) (small : nHeight < 2 ^ 31) :
    Sound (CCoins.ofTransaction tx (Int32.ofInt nHeight)) := by
  rcases sizes_of_checkTransaction checked with ⟨-, number, scripts⟩
  have maximum : MAX_BLOCK_SIZE = 1000000 := rfl
  apply sound_cleanup
  refine ⟨?_, version, ?_, ?_⟩
  · have value : (Int32.ofInt nHeight).toInt = nHeight := by
      rw [Int32.toInt_ofInt]
      exact Int.bmod_eq_of_le (by simp) (by simp; omega)
    have zero : (0 : Int32).toInt = 0 := rfl
    rw [Int32.lt_iff_toInt_lt, zero]
    simp only [value]
    omega
  · simp only [List.length_map]
    omega
  · intro txout member
    rcases List.mem_map.mp member with ⟨original, inVout, cleared⟩
    split_ifs at cleared
    · rw [← cleared]
      decide
    · have script := scripts original inVout
      rw [← cleared, nSpecialScripts]
      omega

theorem soundView_updateCoins
    {node : Node} {nHeight : Nat} {view next : CCoinsView}
    {tx : CTransaction} {undos : List CTxInUndo} (sound : SoundView view)
    (soundCoins : Sound (CCoins.ofTransaction tx (Int32.ofInt nHeight)))
    (ran : Undo.updateCoins node view nHeight tx = .ok (next, undos)) :
    SoundView next := by
  rcases bind_eq_ok.mp ran with ⟨⟨spent, records⟩, ranInputs, result⟩
  cases result
  exact ((spendInputs_keeps ranInputs).2.1 sound).setCoins _ soundCoins

/-- `UpdateCoins` leaves no coins behind where there were none. -/
theorem absent_updateCoins
    {node : Node} {nHeight : Nat} {view next : CCoinsView}
    {tx : CTransaction} {undos : List CTxInUndo}
    (ran : Undo.updateCoins node view nHeight tx = .ok (next, undos))
    {txid : Uint256} (differs : txid ≠ node.txHash tx)
    (absent : entryOf (view.coins txid) = none) :
    entryOf (next.coins txid) = none := by
  rcases bind_eq_ok.mp ran with ⟨⟨spent, records⟩, ranInputs, result⟩
  cases result
  rw [CCoinsView.setCoins_of_ne _ _ differs]
  exact ((spendInputs_keeps ranInputs).2.2 txid).2 absent

theorem canonical_updateCoins
    {node : Node} {nHeight : Nat} {view next : CCoinsView}
    {tx : CTransaction} {undos : List CTxInUndo}
    (checked : checkTransaction tx = .ok ())
    (ran : Undo.updateCoins node view nHeight tx = .ok (next, undos))
    {txid : Uint256}
    (canonical : txid = node.txHash tx ∨ CanonicalAt view txid) :
    CanonicalAt next txid := by
  rcases bind_eq_ok.mp ran with ⟨⟨spent, records⟩, ranInputs, result⟩
  cases result
  intro coins found
  by_cases isHash : txid = node.txHash tx
  · rw [isHash, CCoinsView.setCoins_self, Option.some.injEq] at found
    rw [← found]
    exact canonical_ofTransaction _ checked
  · rw [CCoinsView.setCoins_of_ne _ _ isHash] at found
    rcases canonical with isHash' | known
    · exact absurd isHash' isHash
    · exact ((spendInputs_keeps ranInputs).2.2 txid).1 known coins found

theorem updateAllCoins_cons
    {node : Node} {nHeight : Nat} {view next : CCoinsView}
    {tx : CTransaction} {rest : List CTransaction} {blockUndo : CBlockUndo}
    (ran :
      updateAllCoins node nHeight view (tx :: rest) = .ok (next, blockUndo)) :
    ∃ middle undos later,
      Undo.updateCoins node view nHeight tx = .ok (middle, undos) ∧
      updateAllCoins node nHeight middle rest = .ok (next, later) ∧
      blockUndo = if tx.isCoinBase then later else undos :: later := by
  rw [updateAllCoins] at ran
  rcases bind_eq_ok.mp ran with ⟨⟨middle, undos⟩, ranFirst, ranRest⟩
  rcases bind_eq_ok.mp ranRest with ⟨⟨last, later⟩, ranLater, result⟩
  cases result
  exact ⟨middle, undos, later, ranFirst, ranLater, rfl⟩

/-- The coins of the transactions of a block end up canonical. -/
theorem canonical_updateAllCoins
    {node : Node} {nHeight : Nat} {view next : CCoinsView}
    {txs : List CTransaction} {blockUndo : CBlockUndo}
    (checked : ∀ tx ∈ txs, checkTransaction tx = .ok ())
    (ran : updateAllCoins node nHeight view txs = .ok (next, blockUndo))
    {txid : Uint256}
    (canonical : txid ∈ txs.map node.txHash ∨ CanonicalAt view txid) :
    CanonicalAt next txid := by
  induction txs generalizing view blockUndo with
  | nil =>
      cases ran
      rcases canonical with member | known
      · cases member
      · exact known
  | cons tx rest inductionHypothesis =>
      rcases updateAllCoins_cons ran with
        ⟨middle, undos, later, ranFirst, ranLater, -⟩
      apply inductionHypothesis
        (fun other member => checked other (List.mem_cons_of_mem _ member))
        ranLater
      have first := checked tx List.mem_cons_self
      rcases canonical with member | known
      · rw [List.map_cons, List.mem_cons] at member
        rcases member with isHash | later
        · exact Or.inr
            (canonical_updateCoins first ranFirst (Or.inl isHash))
        · exact Or.inl later
      · exact Or.inr (canonical_updateCoins first ranFirst (Or.inr known))

/-- What the transactions of a block have to satisfy to be undone. -/
structure Undoable
    (node : Node) (nHeight : Nat) (view : CCoinsView)
    (txs : List CTransaction) : Prop where
  sound : SoundView view
  checked : ∀ tx ∈ txs, checkTransaction tx = .ok ()
  versions : ∀ tx ∈ txs, 0 ≤ tx.nVersion
  created :
    ∀ tx ∈ txs, Sound (CCoins.ofTransaction tx (Int32.ofInt nHeight))
  fresh : ∀ tx ∈ txs, entryOf (view.coins (node.txHash tx)) = none
  distinct : (txs.map node.txHash).Nodup

/-- It stays so behind the first transaction. -/
theorem Undoable.tail
    {node : Node} {nHeight : Nat} {view middle : CCoinsView}
    {tx : CTransaction} {rest : List CTransaction} {undos : List CTxInUndo}
    (undoable : Undoable node nHeight view (tx :: rest))
    (ran : Undo.updateCoins node view nHeight tx = .ok (middle, undos)) :
    Undoable node nHeight middle rest := by
  have later : ∀ other ∈ rest, other ∈ tx :: rest :=
    fun other member => List.mem_cons_of_mem _ member
  have distinct := undoable.distinct
  rw [List.map_cons, List.nodup_cons] at distinct
  constructor
  · exact soundView_updateCoins undoable.sound
      (undoable.created tx List.mem_cons_self) ran
  · exact fun other member => undoable.checked other (later other member)
  · exact fun other member => undoable.versions other (later other member)
  · exact fun other member => undoable.created other (later other member)
  · intro other member
    refine absent_updateCoins ran ?_ (undoable.fresh other (later other member))
    intro same
    exact distinct.1 (same ▸ List.mem_map_of_mem member)
  · exact distinct.2

/-- Disconnecting the transactions behind the coinbase undoes them. -/
theorem disconnectTransactions_undo
    {node : Node} {nHeight : Nat} {view next current : CCoinsView}
    {txs : List CTransaction} {blockUndo : CBlockUndo}
    (undoable : Undoable node nHeight view txs)
    (regular : ∀ tx ∈ txs, tx.isCoinBase = false)
    (ran : updateAllCoins node nHeight view txs = .ok (next, blockUndo))
    (same : SameCoins current next)
    (canonical : ∀ tx ∈ txs, CanonicalAt current (node.txHash tx)) :
    blockUndo.length = txs.length ∧
      ∃ restored,
        (txs.zip (blockUndo.map some)).reverse.foldlM
            (disconnectTransaction node nHeight) (current, true) =
          .ok (restored, true) ∧
        SameCoins restored view ∧
        ∀ txid, CanonicalAt current txid → CanonicalAt restored txid := by
  induction txs generalizing view blockUndo with
  | nil =>
      cases ran
      exact ⟨rfl, current, rfl, same, fun _ known => known⟩
  | cons tx rest inductionHypothesis =>
      rcases updateAllCoins_cons ran with
        ⟨middle, undos, later, ranFirst, ranLater, isUndo⟩
      have isRegular := regular tx List.mem_cons_self
      rw [isRegular, if_neg Bool.false_ne_true] at isUndo
      rcases inductionHypothesis (undoable.tail ranFirst)
          (fun other member => regular other (List.mem_cons_of_mem _ member))
          ranLater
          (fun other member =>
            canonical other (List.mem_cons_of_mem _ member)) with
        ⟨number, undone, ranUndone, sameUndone, canonicalUndone⟩
      rcases disconnectTransaction_undoes undoable.sound
          (undoable.checked tx List.mem_cons_self)
          (undoable.versions tx List.mem_cons_self)
          (undoable.fresh tx List.mem_cons_self) ranFirst sameUndone
          (canonicalUndone _ (canonical tx List.mem_cons_self)) with
        ⟨restored, ranRestored, sameRestored, canonicalRestored⟩
      rw [undoEntry, isRegular] at ranRestored
      rw [isUndo]
      refine ⟨by simp [number], restored, ?_, sameRestored,
        fun txid known => canonicalRestored txid (canonicalUndone txid known)⟩
      rw [List.map_cons, List.zip_cons_cons, List.reverse_cons,
        List.foldlM_append]
      exact bind_eq_ok.mpr
        ⟨_, ranUndone, bind_eq_ok.mpr ⟨_, ranRestored, rfl⟩⟩

/-- Disconnecting all transactions of a block undoes them. -/
theorem disconnectAll_undo
    {node : Node} {nHeight : Nat} {view next current : CCoinsView}
    {coinBaseTx : CTransaction} {others : List CTransaction}
    {blockUndo : CBlockUndo}
    (undoable : Undoable node nHeight view (coinBaseTx :: others))
    (coinBase : coinBaseTx.isCoinBase = true)
    (regular : ∀ tx ∈ others, tx.isCoinBase = false)
    (ran :
      updateAllCoins node nHeight view (coinBaseTx :: others) =
        .ok (next, blockUndo))
    (same : current.coins = next.coins) :
    blockUndo.length = others.length ∧
      ∃ restored,
        (undoOrder (coinBaseTx :: others) blockUndo).foldlM
            (disconnectTransaction node nHeight) (current, true) =
          .ok (restored, true) ∧
        SameCoins restored view := by
  have canonical :
      ∀ tx ∈ coinBaseTx :: others, CanonicalAt current (node.txHash tx) := by
    intro tx member coins found
    rw [same] at found
    exact canonical_updateAllCoins undoable.checked ran
      (Or.inl (List.mem_map_of_mem member)) coins found
  rcases updateAllCoins_cons ran with
    ⟨middle, undos, later, ranFirst, ranLater, isUndo⟩
  rw [if_pos coinBase] at isUndo
  rw [isUndo]
  have sameNext : SameCoins current next := by
    intro txid
    rw [same]
  rcases disconnectTransactions_undo (undoable.tail ranFirst) regular ranLater
      sameNext
      (fun tx member => canonical tx (List.mem_cons_of_mem _ member)) with
    ⟨number, undone, ranUndone, sameUndone, canonicalUndone⟩
  rcases disconnectTransaction_undoes undoable.sound
      (undoable.checked coinBaseTx List.mem_cons_self)
      (undoable.versions coinBaseTx List.mem_cons_self)
      (undoable.fresh coinBaseTx List.mem_cons_self) ranFirst sameUndone
      (canonicalUndone _ (canonical coinBaseTx List.mem_cons_self)) with
    ⟨restored, ranRestored, sameRestored, -⟩
  rw [undoEntry, if_pos coinBase] at ranRestored
  refine ⟨number, restored, ?_, sameRestored⟩
  rw [undoOrder, List.zip_cons_cons, List.reverse_cons, List.foldlM_append]
  exact bind_eq_ok.mpr
    ⟨_, ranUndone, bind_eq_ok.mpr ⟨_, ranRestored, rfl⟩⟩

end DSValue.Coins.Reversal
