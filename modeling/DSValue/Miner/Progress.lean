import DSValue.Miner.Connecting
import DSValue.Coins.Availability

/-!
# The loop over the heap ends

Where every input of the pool is backed, either by the coins or by a transaction
of the pool that the coins do not know, no orphan is deleted and no round fails.
A transaction comes into the heap once, so the rounds are at most as many as the
transactions of the pool, and what waits in the end depends on one that is not in
the block.
-/

namespace DSValue.Miner.Progress

open DSValue.Lib
open DSValue.Core.Serialize
open DSValue.Core.Transaction
open DSValue.Script.Scan
open DSValue.Consensus.TxOut
open DSValue.Consensus.CheckLottoResult
open DSValue.Consensus.CheckBlock
open DSValue.Consensus.ConnectBlock
open DSValue.Coins.Disconnect
open DSValue.Coins.Availability
open DSValue.Mempool.Pool
open DSValue.Mempool.Accept
open DSValue.Miner.BlockTemplate
open DSValue.Miner.Selection

variable {D : Type} {args : MinerArgs D} {queue next : Queue D}
  {template after : Template D} {tx : CTransaction} {view : CCoinsView}
  {pool : CTxMemPool} {entries : List CTransaction}

/-! ## Spending what is available -/

/-- Different outputs that are available can all be spent. -/
theorem spendInputs_ok
    {vin : List CTxIn} (distinct : (vin.map CTxIn.prevout).Nodup)
    (left : ∀ txin ∈ vin, (unspentAt view txin.prevout).isSome = true) :
    ∃ spent, view.spendInputs vin = .ok spent := by
  induction vin generalizing view with
  | nil => exact ⟨view, rfl⟩
  | cons txin rest inductionHypothesis =>
      rw [List.map_cons, List.nodup_cons] at distinct
      rcases Option.isSome_iff_exists.mp (left txin List.mem_cons_self) with
        ⟨txout, found⟩
      rcases Option.bind_eq_some_iff.mp found with ⟨coins, holds, isLeft⟩
      have spends : ∃ next undo,
          Coins.Undo.spend coins txin.prevout.n.toNat = some (next, undo) := by
        rcases available_eq_some.mp isLeft with ⟨atPos, nonNull⟩
        rw [Coins.Undo.spend, atPos]
        simp only [nonNull, Bool.false_eq_true, if_false]
        exact ⟨_, _, rfl⟩
      rcases spends with ⟨next, undo, spends⟩
      have taken : coins.spend txin.prevout.n.toNat = some next := by
        rw [← Coins.Undo.spend_fst, spends]
        rfl
      rw [CCoinsView.spendInputs, holds]
      dsimp only
      rw [taken]
      refine inductionHypothesis distinct.2 ?_
      intro other member
      rw [unspentAt_spend holds (spends_of_spend spends), if_neg ?_]
      · exact left other (List.mem_cons_of_mem _ member)
      · intro same
        exact distinct.1 (same ▸ List.mem_map_of_mem member)

theorem getOutputFor_ok
    {txin : CTxIn} (left : (unspentAt view txin.prevout).isSome = true) :
    ∃ txout, view.getOutputFor txin = .ok txout := by
  rcases Option.isSome_iff_exists.mp left with ⟨txout, found⟩
  refine ⟨txout, ?_⟩
  rw [CCoinsView.getOutputFor, outputFor?_eq, found]
  rfl

theorem unspent_of_haveInputs
    (regular : tx.isCoinBase = false) (available : view.haveInputs tx = true) :
    ∀ txin ∈ tx.vin, (unspentAt view txin.prevout).isSome = true := by
  rw [CCoinsView.haveInputs, regular, Bool.false_or, List.all_eq_true] at available
  intro txin member
  rw [← outputFor?_eq]
  exact available txin member

/-- A loop whose rounds succeed succeeds. -/
theorem foldlM_ok
    {ε α β : Type} {step : β → α → Except ε β} {values : List α}
    (steps : ∀ value ∈ values, ∀ state, ∃ next, step state value = .ok next)
    (state : β) : ∃ last, values.foldlM step state = .ok last := by
  induction values generalizing state with
  | nil => exact ⟨state, rfl⟩
  | cons head tail inductionHypothesis =>
      rcases steps head List.mem_cons_self state with ⟨next, first⟩
      rw [List.foldlM_cons, first]
      exact inductionHypothesis
        (fun value member => steps value (List.mem_cons_of_mem head member)) next

theorem getValueIn_ok
    (left : ∀ txin ∈ tx.vin, (unspentAt view txin.prevout).isSome = true) :
    ∃ nValueIn, view.getValueIn tx = .ok nValueIn := by
  rw [CCoinsView.getValueIn]
  split
  · exact ⟨0, rfl⟩
  · refine foldlM_ok (fun txin member nResult => ?_) 0
    rcases getOutputFor_ok (left txin member) with ⟨txout, found⟩
    rw [found]
    exact ⟨_, rfl⟩

theorem getP2SHSigOpCount_ok
    (left : ∀ txin ∈ tx.vin, (unspentAt view txin.prevout).isSome = true) :
    ∃ nSigOps, getP2SHSigOpCount view tx = .ok nSigOps := by
  rw [getP2SHSigOpCount]
  split
  · exact ⟨0, rfl⟩
  · refine foldlM_ok (fun txin member nSigOps => ?_) 0
    rcases getOutputFor_ok (left txin member) with ⟨txout, found⟩
    rw [found]
    exact ⟨_, rfl⟩

theorem getValueOut_of_checkOutputs
    {vout : List CTxOut} {nValueOut : Int64} {result : Unit}
    (checked : checkOutputs vout nValueOut = .ok result) :
    ∃ total, vout.foldlM
        (fun nValueOut txout =>
          if moneyRange txout.nValue && moneyRange (nValueOut + txout.nValue) then
            pure (nValueOut + txout.nValue)
          else throw Fault.exception) nValueOut = (.ok total : Except Fault Int64) := by
  induction vout generalizing nValueOut with
  | nil => exact ⟨nValueOut, rfl⟩
  | cons txout rest inductionHypothesis =>
      simp only [checkOutputs, bind_eq_ok, require_eq_ok] at checked
      rcases checked with ⟨_, positive, _, small, _, range, later⟩
      have inRange : moneyRange txout.nValue = true := by
        rw [decide_eq_true_eq] at positive small
        simpa [moneyRange] using ⟨positive, small⟩
      rw [List.foldlM_cons, inRange, range]
      exact inductionHypothesis later

theorem getValueOut_ok (checked : checkTransaction tx = .ok ()) :
    ∃ nValueOut, getValueOut tx = .ok nValueOut := by
  simp only [checkTransaction, bind_eq_ok] at checked
  rcases checked with ⟨_, _, _, _, _, _, _, outputs, _⟩
  exact getValueOut_of_checkOutputs outputs

/-! ## Checks that answer -/

/-- A check that accepts or rejects. -/
def Answers {α : Type} (run : Except Failure α) : Prop :=
  ∀ fault, run ≠ .error (.fault fault)

theorem answers_ok {α : Type} (value : α) : Answers (.ok value) :=
  fun _ equal => by cases equal

theorem answers_require (condition : Bool) (reject : Reject) :
    Answers (require condition reject) := by
  intro fault equal
  rw [require] at equal
  split at equal <;> cases equal

theorem Answers.bind
    {α β : Type} {first : Except Failure α} {next : α → Except Failure β}
    (answers : Answers first)
    (later : ∀ value, first = .ok value → Answers (next value)) :
    Answers (first >>= next) := by
  intro fault equal
  cases first with
  | error failure => exact answers fault (by rw [Except.error.inj equal])
  | ok value => exact later value rfl fault equal

theorem answers_foldlM
    {α β : Type} {step : β → α → Except Failure β} {values : List α}
    (steps : ∀ value ∈ values, ∀ state, Answers (step state value)) (state : β) :
    Answers (values.foldlM step state) := by
  induction values generalizing state with
  | nil => exact answers_ok state
  | cons head tail inductionHypothesis =>
      rw [List.foldlM_cons]
      exact (steps head List.mem_cons_self state).bind fun next _ =>
        inductionHypothesis
          (fun value member => steps value (List.mem_cons_of_mem head member)) next

/-- `CheckInputs` answers where the inputs are available. -/
theorem answers_checkInputs
    {node : Node} {nHeight : Nat} {fScriptChecks strict : Bool}
    (checked : checkTransaction tx = .ok ())
    (left : ∀ txin ∈ tx.vin, (unspentAt view txin.prevout).isSome = true) :
    Answers (checkInputs node view nHeight fScriptChecks strict tx) := by
  rcases getValueOut_ok checked with ⟨nValueOut, valueOut⟩
  have inputs (nValueIn : Int64) :
      Answers (tx.vin.foldlM (checkInput view nHeight) nValueIn) := by
    refine answers_foldlM (fun txin member nValueIn => ?_) nValueIn
    rcases Option.isSome_iff_exists.mp (left txin member) with ⟨txout, found⟩
    rcases Option.bind_eq_some_iff.mp found with ⟨coins, holds, isLeft⟩
    rw [checkInput, holds]
    refine (answers_require _ _).bind fun _ _ => ?_
    rw [(available_eq_some.mp isLeft).1]
    exact (answers_require _ _).bind fun _ _ => answers_ok _
  rw [checkInputs, valueOut]
  refine (answers_require _ _).bind fun _ _ => (inputs 0).bind fun _ _ => ?_
  refine (answers_ok nValueOut).bind fun _ _ => ?_
  refine (answers_require _ _).bind fun _ _ => (answers_require _ _).bind fun _ _ => ?_
  exact (answers_require _ _).bind fun _ _ => answers_require _ _

/-- A transaction whose outputs are all accepted has a bet value. -/
theorem lottoValueLoop_of_valid
    {network : Network} {tipHeight : Nat} {vout : List CTxOut}
    {iTxType : TransactionState} (nCurBetValue : Int64)
    (valid : validLoop network tipHeight vout iTxType = .ok true) :
    ∃ value, lottoValueLoop network tipHeight vout iTxType nCurBetValue =
      .ok value := by
  induction vout generalizing iTxType nCurBetValue with
  | nil => exact ⟨nCurBetValue, rfl⟩
  | cons txout rest inductionHypothesis =>
      rw [validLoop, bind_eq_ok] at valid
      rcases valid with ⟨scanned, ran, valid⟩
      split at valid
      · cases valid
      split at valid
      · cases valid
      rw [lottoValueLoop, ran]
      exact inductionHypothesis _ valid

theorem getLottoValueFromTx_of_valid
    {network : Network} {tipHeight : Nat}
    (valid : isTransactionValid network tipHeight tx = .ok true) :
    ∃ value, getLottoValueFromTx network tipHeight tx = .ok value := by
  rw [getLottoValueFromTx]
  split
  · exact ⟨0, rfl⟩
  · exact lottoValueLoop_of_valid 0 valid

/-- Spending what is available and adding the outputs succeeds. -/
theorem updateCoins_ok
    {node : Node} {nHeight : Nat} (checked : checkTransaction tx = .ok ())
    (left : ∀ txin ∈ tx.vin, (unspentAt view txin.prevout).isSome = true) :
    ∃ next, updateCoins node view nHeight tx = .ok next := by
  simp only [checkTransaction, bind_eq_ok, require_eq_ok] at checked
  rcases checked with ⟨_, _, _, _, _, _, _, _, _, distinct, _⟩
  rw [updateCoins, markSpent]
  split
  · exact ⟨_, rfl⟩
  · rcases spendInputs_ok (of_decide_eq_true distinct) left with ⟨spent, ran⟩
    rw [ran]
    exact ⟨_, rfl⟩

/-! ## Orphans and those who wait for them -/

/-- `mapDependers` points to orphans, and to each one from what it depends on. -/
structure Wired (queue : Queue D) : Prop where
  places :
    ∀ hash, ∀ porphan ∈ queue.mapDependers hash,
      ∃ orphan, queue.vOrphan[porphan]? = some (some orphan)
  wired :
    ∀ porphan orphan, queue.vOrphan[porphan]? = some (some orphan) →
      ∀ hash ∈ orphan.setDependsOn, porphan ∈ queue.mapDependers hash

/-- Every orphan is still there and depends on nothing new. -/
structure Loosens (queue next : Queue D) : Prop where
  mapDependers : next.mapDependers = queue.mapDependers
  kept :
    ∀ (porphan : Nat) (orphan : COrphan D),
      queue.vOrphan[porphan]? = some (some orphan) → ∃ after : COrphan D,
        next.vOrphan[porphan]? = some (some after) ∧
          after.setDependsOn ⊆ orphan.setDependsOn
  old :
    ∀ (porphan : Nat) (after : COrphan D),
      next.vOrphan[porphan]? = some (some after) → ∃ orphan : COrphan D,
        queue.vOrphan[porphan]? = some (some orphan) ∧
          after.setDependsOn ⊆ orphan.setDependsOn

theorem Loosens.refl (queue : Queue D) : Loosens queue queue where
  mapDependers := rfl
  kept := fun _ orphan found => ⟨orphan, found, Finset.Subset.refl _⟩
  old := fun _ orphan found => ⟨orphan, found, Finset.Subset.refl _⟩

theorem Loosens.trans {between : Queue D}
    (first : Loosens queue between) (later : Loosens between next) :
    Loosens queue next where
  mapDependers := later.mapDependers.trans first.mapDependers
  kept := by
    intro porphan orphan found
    rcases first.kept porphan orphan found with ⟨middle, found, fewer⟩
    rcases later.kept porphan middle found with ⟨after, found, less⟩
    exact ⟨after, found, less.trans fewer⟩
  old := by
    intro porphan after found
    rcases later.old porphan after found with ⟨middle, found, fewer⟩
    rcases first.old porphan middle found with ⟨orphan, found, less⟩
    exact ⟨orphan, found, fewer.trans less⟩

theorem Wired.loosen (wired : Wired queue) (loosens : Loosens queue next) :
    Wired next where
  places := by
    intro hash porphan member
    rw [loosens.mapDependers] at member
    rcases wired.places hash porphan member with ⟨orphan, found⟩
    rcases loosens.kept porphan orphan found with ⟨after, found, -⟩
    exact ⟨after, found⟩
  wired := by
    intro porphan after found hash depends
    rcases loosens.old porphan after found with ⟨orphan, found, fewer⟩
    rw [loosens.mapDependers]
    exact wired.wired porphan orphan found hash (fewer depends)

theorem loosens_set
    {porphan : Nat} {orphan after : COrphan D}
    (found : queue.vOrphan[porphan]? = some (some orphan))
    (fewer : after.setDependsOn ⊆ orphan.setDependsOn)
    (vecPriority : List (TxPriority D)) :
    Loosens queue
      ⟨vecPriority, queue.vOrphan.set porphan (some after), queue.mapDependers⟩ where
  mapDependers := rfl
  kept := by
    intro other before holds
    dsimp only
    rw [List.getElem?_set]
    split
    · rename_i same
      subst same
      rw [found] at holds
      cases holds
      rw [if_pos (List.getElem?_eq_some_iff.mp found).choose]
      exact ⟨after, rfl, fewer⟩
    · exact ⟨before, holds, Finset.Subset.refl _⟩
  old := by
    intro other last holds
    dsimp only at holds
    rw [List.getElem?_set] at holds
    split at holds
    · rename_i same
      subst same
      rw [if_pos (List.getElem?_eq_some_iff.mp found).choose] at holds
      cases holds
      exact ⟨orphan, found, fewer⟩
    · exact ⟨last, holds, Finset.Subset.refl _⟩

/-- An orphan that is released does not depend on the transaction any more. -/
theorem release_ok
    (hash : Uint256) {porphan : Nat} {orphan : COrphan D}
    (found : queue.vOrphan[porphan]? = some (some orphan)) :
    ∃ next, release hash queue porphan = .ok next ∧ Loosens queue next ∧
      ∀ after, next.vOrphan[porphan]? = some (some after) →
        hash ∉ after.setDependsOn := by
  rw [release, found]
  dsimp only
  have inside := (List.getElem?_eq_some_iff.mp found).choose
  split
  · rename_i none
    refine ⟨queue, rfl, Loosens.refl queue, ?_⟩
    intro after holds
    rw [found] at holds
    cases holds
    rw [none]
    exact Finset.notMem_empty hash
  · split
    · refine ⟨_, rfl, loosens_set found (Finset.erase_subset _ _) _, ?_⟩
      intro after holds
      dsimp only at holds
      rw [List.getElem?_set_self inside] at holds
      cases holds
      exact Finset.notMem_erase _ _
    · refine ⟨_, rfl, loosens_set found (Finset.erase_subset _ _) _, ?_⟩
      intro after holds
      dsimp only at holds
      rw [List.getElem?_set_self inside] at holds
      cases holds
      exact Finset.notMem_erase _ _

theorem releases_ok
    (hash : Uint256) {dependers : List Nat}
    (places : ∀ porphan ∈ dependers,
      ∃ orphan, queue.vOrphan[porphan]? = some (some orphan)) :
    ∃ next, dependers.foldlM (release hash) queue = .ok next ∧
      Loosens queue next ∧
      ∀ porphan ∈ dependers, ∀ after,
        next.vOrphan[porphan]? = some (some after) →
          hash ∉ after.setDependsOn := by
  induction dependers generalizing queue with
  | nil => exact ⟨queue, rfl, Loosens.refl queue, fun _ member => by cases member⟩
  | cons porphan rest inductionHypothesis =>
      rcases places porphan List.mem_cons_self with ⟨orphan, found⟩
      rcases release_ok hash found with ⟨between, first, loosens, gone⟩
      have later : ∀ other ∈ rest,
          ∃ orphan, between.vOrphan[other]? = some (some orphan) := by
        intro other member
        rcases places other (List.mem_cons_of_mem _ member) with ⟨orphan, found⟩
        rcases loosens.kept other orphan found with ⟨after, found, -⟩
        exact ⟨after, found⟩
      rcases inductionHypothesis later with ⟨next, ran, fewer, left⟩
      refine ⟨next, ?_, loosens.trans fewer, ?_⟩
      · rw [List.foldlM_cons, first]
        exact ran
      · intro other member after holds
        rcases List.mem_cons.mp member with rfl | inRest
        · rcases fewer.old other after holds with ⟨before, found, less⟩
          exact fun depends => gone before found (less depends)
        · exact left other inRest after holds

/-! ## Going through the pool -/

/--
The output of an input is among the coins, or in a transaction of the pool that
the coins do not know.
-/
inductive Resolved (view : CCoinsView) (pool : CTxMemPool) (txin : CTxIn) :
    Prop where
  | confirmed {coins : CCoins} {txout : CTxOut}
      (holds : view.coins txin.prevout.hash = some coins)
      (found : coins.vout[txin.prevout.n.toNat]? = some txout)
  | pooled {parent : CTransaction} {txout : CTxOut}
      (absent : view.coins txin.prevout.hash = none)
      (known : pool.mapTx txin.prevout.hash = some parent)
      (found : parent.vout[txin.prevout.n.toNat]? = some txout)

/-- What is depended on is recorded, and in the pool. -/
def Recorded (pool : CTxMemPool) (scanned : ScannedInputs) : Prop :=
  ∀ hash ∈ scanned.setDependsOn,
    hash ∈ scanned.depended ∧ (pool.mapTx hash).isSome = true

theorem scanInputs_ok
    {vin : List CTxIn} {scanned : ScannedInputs}
    (resolved : ∀ txin ∈ vin, Resolved view pool txin)
    (recorded : Recorded pool scanned) :
    ∃ last, scanInputs args view pool vin scanned = .ok (last, false) ∧
      Recorded pool last := by
  induction vin generalizing scanned with
  | nil => exact ⟨scanned, rfl, recorded⟩
  | cons txin rest inductionHypothesis =>
      have others : ∀ txin ∈ rest, Resolved view pool txin :=
        fun other member => resolved other (List.mem_cons_of_mem _ member)
      rw [scanInputs]
      cases resolved txin List.mem_cons_self with
      | confirmed holds found =>
          rw [holds]
          dsimp only
          rw [found]
          exact inductionHypothesis others recorded
      | pooled absent known found =>
          rw [absent, known]
          dsimp only
          rw [found]
          refine inductionHypothesis others ?_
          intro hash depends
          rcases Finset.mem_insert.mp depends with rfl | depends
          · exact ⟨List.mem_append_right _ (List.mem_singleton_self _),
              by rw [known]; rfl⟩
          · rcases recorded hash depends with ⟨inside, pooled⟩
            exact ⟨List.mem_append_left _ inside, pooled⟩

theorem mem_addDependers
    {porphan other : Nat} {mapDependers : Uint256 → List Nat}
    {depended : List Uint256} {hash : Uint256} :
    other ∈ addDependers porphan mapDependers depended hash ↔
      other ∈ mapDependers hash ∨ other = porphan ∧ hash ∈ depended := by
  induction depended generalizing mapDependers with
  | nil => simp [addDependers]
  | cons head rest inductionHypothesis =>
      rw [addDependers, List.foldl_cons]
      refine inductionHypothesis.trans ?_
      by_cases same : hash = head
      · subst same
        rw [Function.update_self, List.mem_append, List.mem_singleton]
        simp only [List.mem_cons, true_or, and_true]
        tauto
      · rw [Function.update_of_ne same]
        simp only [List.mem_cons, same, false_or]

/-- What the loop over the pool leaves. -/
structure Entered (args : MinerArgs D) (pool : CTxMemPool)
    (entries : List CTransaction) (queue : Queue D) : Prop extends Wired queue where
  all : pending queue = ↑(candidates args entries)
  pooled :
    ∀ (porphan : Nat) (orphan : COrphan D),
      queue.vOrphan[porphan]? = some (some orphan) →
        ∀ hash ∈ orphan.setDependsOn, (pool.mapTx hash).isSome = true

theorem Entered.push
    (entered : Entered args pool entries queue) (entry : TxPriority D)
    (candidate : candidates args [entry.tx] = [entry.tx]) :
    Entered args pool (entries ++ [entry.tx])
      { queue with vecPriority := queue.vecPriority ++ [entry] } where
  places := entered.places
  wired := entered.wired
  all := by
    rw [pending_push, candidates, List.filter_append, ← Multiset.coe_add]
    exact congrArg₂ _ entered.all (by rw [← candidates, candidate]; rfl)
  pooled := entered.pooled

theorem Entered.orphan
    (entered : Entered args pool entries queue) (orphan : COrphan D)
    {scanned : ScannedInputs} (recorded : Recorded pool scanned)
    (depends : orphan.setDependsOn = scanned.setDependsOn)
    (waits : scanned.setDependsOn ≠ ∅)
    (candidate : candidates args [orphan.ptx] = [orphan.ptx]) :
    Entered args pool (entries ++ [orphan.ptx])
      { queue with
        vOrphan := queue.vOrphan ++ [some orphan]
        mapDependers :=
          addDependers queue.vOrphan.length queue.mapDependers
            scanned.depended } where
  places := by
    intro hash porphan member
    dsimp only
    rcases mem_addDependers.mp member with before | ⟨rfl, -⟩
    · rcases entered.places hash porphan before with ⟨other, found⟩
      refine ⟨other, ?_⟩
      rw [List.getElem?_append_left (List.getElem?_eq_some_iff.mp found).choose]
      exact found
    · exact ⟨orphan, List.getElem?_concat_length⟩
  wired := by
    intro porphan other found hash needed
    refine mem_addDependers.mpr ?_
    dsimp only at found
    rw [List.getElem?_append] at found
    split at found
    · exact Or.inl (entered.wired porphan other found hash needed)
    · rename_i behind
      rcases List.getElem?_eq_some_iff.mp found with ⟨inside, same⟩
      rw [List.length_singleton] at inside
      rw [List.getElem_singleton] at same
      cases same
      rw [depends] at needed
      exact Or.inr ⟨by omega, (recorded hash needed).1⟩
  all := by
    rw [pending_orphan _ _ _ _ queue.mapDependers, candidates,
      List.filter_append, ← Multiset.coe_add]
    refine congrArg₂ _ entered.all ?_
    rw [waiting, if_neg (by rw [depends]; exact waits), ← candidates, candidate]
    rfl
  pooled := by
    intro porphan other found hash needed
    dsimp only at found
    rw [List.getElem?_append] at found
    split at found
    · exact entered.pooled porphan other found hash needed
    · rcases List.getElem?_eq_some_iff.mp found with ⟨inside, same⟩
      rw [List.length_singleton] at inside
      rw [List.getElem_singleton] at same
      cases same
      rw [depends] at needed
      exact (recorded hash needed).2

theorem enqueue_ok
    (entered : Entered args pool entries queue)
    (checked : checkTransaction tx = .ok ())
    (resolved : ∀ txin ∈ tx.vin, Resolved view pool txin) :
    ∃ next, enqueue args view pool queue tx = .ok next ∧
      Entered args pool (entries ++ [tx]) next := by
  rw [enqueue]
  split
  · rename_i passed
    refine ⟨queue, rfl, ⟨entered.places, entered.wired⟩, ?_, entered.pooled⟩
    rw [entered.all, candidates, candidates, List.filter_append,
      List.filter_cons_of_neg (by
        rw [Bool.or_eq_true, Bool.not_eq_true'] at passed
        rcases passed with coinBase | open'
        · simp [coinBase]
        · simp [open']), List.filter_nil, List.append_nil]
  · rename_i looked
    have candidate : candidates args [tx] = [tx] := by
      rw [candidates, List.filter_cons_of_pos (by simpa using looked)]
      rfl
    rcases scanInputs_ok resolved
      (show Recorded pool ⟨∅, [], 0, []⟩ from
        fun _ member => by cases member) with
      ⟨scanned, ran, recorded⟩
    rcases getValueOut_ok checked with ⟨nValueOut, valueOut⟩
    rw [ran]
    dsimp only [bind, Except.bind]
    rw [if_neg Bool.false_ne_true, valueOut]
    dsimp only
    split
    · exact ⟨_, rfl, entered.push ⟨_, _, tx⟩ candidate⟩
    · rename_i waits
      exact ⟨_, rfl, entered.orphan ⟨tx, _, _, _⟩ recorded rfl waits candidate⟩

theorem collect_ok
    (checked : ∀ tx ∈ entries, checkTransaction tx = .ok ())
    (resolved : ∀ tx ∈ entries, ∀ txin ∈ tx.vin, Resolved view pool txin) :
    ∃ queue, collect args view pool entries = .ok queue ∧
      Entered args pool entries queue := by
  have enters :
      ∀ (rest passed : List CTransaction) (queue : Queue D),
        Entered args pool passed queue →
        (∀ tx ∈ rest, checkTransaction tx = .ok ()) →
        (∀ tx ∈ rest, ∀ txin ∈ tx.vin, Resolved view pool txin) →
          ∃ last, rest.foldlM (enqueue args view pool) queue = .ok last ∧
            Entered args pool (passed ++ rest) last := by
    intro rest
    induction rest with
    | nil =>
        intro passed queue entered _ _
        exact ⟨queue, rfl, by rwa [List.append_nil]⟩
    | cons tx rest inductionHypothesis =>
        intro passed queue entered checked resolved
        rcases enqueue_ok entered (checked tx List.mem_cons_self)
          (resolved tx List.mem_cons_self) with ⟨next, first, later⟩
        rcases inductionHypothesis (passed ++ [tx]) next later
          (fun other member => checked other (List.mem_cons_of_mem _ member))
          (fun other member => resolved other (List.mem_cons_of_mem _ member))
          with ⟨last, ran, entered⟩
        refine ⟨last, ?_, by rwa [List.append_assoc] at entered⟩
        rw [List.foldlM_cons, first]
        exact ran
  refine enters entries [] _ ?_ checked resolved
  exact
    { places := fun _ _ member => by cases member
      wired := fun _ _ found => by cases found
      all := rfl
      pooled := fun _ _ found => by cases found }

/-! ## Rounds -/

/-- What every round keeps. -/
structure Sound (args : MinerArgs D) (pool : CTxMemPool)
    (entries : List CTransaction) (template : Template D) : Prop
    extends Kept args entries template where
  wired : Wired template.queue
  waits :
    ∀ (porphan : Nat) (orphan : COrphan D),
      template.queue.vOrphan[porphan]? = some (some orphan) →
        ∀ hash ∈ orphan.setDependsOn,
          (pool.mapTx hash).isSome = true ∧
            ∀ tx ∈ template.vtx, args.node.txHash tx ≠ hash

theorem Wired.of_eq
    (wired : Wired queue) (vOrphan : next.vOrphan = queue.vOrphan)
    (mapDependers : next.mapDependers = queue.mapDependers) : Wired next where
  places := by
    rw [vOrphan, mapDependers]
    exact wired.places
  wired := by
    rw [vOrphan, mapDependers]
    exact wired.wired

theorem sound_start (entered : Entered args pool entries queue) :
    Sound args pool entries (start args view queue) where
  left := by
    rw [← entered.all]
    exact (zero_add _).le
  nBlockSize := rfl
  fits := lt_max_of_lt_left (Nat.lt_succ_self 1000)
  legacy := le_refl _
  cheap := (by decide : 100 < MAX_BLOCK_SIGOPS)
  bets := rfl
  wired := entered.toWired
  waits := fun porphan orphan found hash depends =>
    ⟨entered.pooled porphan orphan found hash depends, fun _ member => by cases member⟩

theorem Sound.step
    {first : Queue D} {i : Nat} (sound : Sound args pool entries template)
    (taken : (selection args view first).step template i = some after) :
    Sound args pool entries after := by
  rcases takeNext_cases taken with skipped | ⟨tx, _, _, _, added⟩
  · refine ⟨sound.toKept.skip skipped,
      sound.wired.of_eq skipped.vOrphan skipped.mapDependers, ?_⟩
    rw [skipped.vOrphan, skipped.vtx]
    exact sound.waits
  · rcases added.released with ⟨vecPriority, ran⟩
    have wired : Wired { template.queue with vecPriority := vecPriority } :=
      sound.wired.of_eq rfl rfl
    rcases releases_ok (args.node.txHash tx)
      (wired.places (args.node.txHash tx)) with ⟨next, released, loosens, gone⟩
    cases ran.symm.trans released
    refine ⟨sound.toKept.add added, wired.loosen loosens, ?_⟩
    intro porphan orphan found hash depends
    rcases loosens.old porphan orphan found with ⟨before, stood, fewer⟩
    rcases sound.waits porphan before stood hash (fewer depends) with
      ⟨pooled, absent⟩
    refine ⟨pooled, ?_⟩
    intro other member
    rw [added.vtx, List.mem_append, List.mem_singleton] at member
    rcases member with member | rfl
    · exact absent other member
    · rintro rfl
      have wanted := sound.wired.wired porphan before stood _ (fewer depends)
      exact gone porphan wanted orphan found depends

/-- The transactions of the heap are looked at. -/
theorem candidate_of_heap
    {entry : TxPriority D} (kept : Kept args entries template)
    (member : entry ∈ template.queue.vecPriority) :
    entry.tx ∈ candidates args entries := by
  have inside : entry.tx ∈ pending template.queue :=
    Multiset.mem_add.mpr (Or.inl (List.mem_map_of_mem member))
  exact Multiset.mem_coe.mp
    (Multiset.mem_of_le kept.left (Multiset.mem_add.mpr (Or.inr inside)))

/-- A transaction that has been checked is added or left out. -/
theorem tryAdd_ok
    {valid : Bool} (wired : Wired template.queue) (regular : tx.isCoinBase = false)
    (checked : checkTransaction tx = .ok ())
    (classified :
      isTransactionValid args.node.network args.node.chainActive.height tx =
        .ok valid) :
    ∃ next, tryAdd args template tx = .ok next := by
  rw [tryAdd]
  split
  · exact ⟨_, rfl⟩
  rename_i available
  have left := unspent_of_haveInputs regular (by simpa using available)
  rcases getValueIn_ok left with ⟨nValueIn, valueIn⟩
  rcases getValueOut_ok checked with ⟨nValueOut, valueOut⟩
  rcases getP2SHSigOpCount_ok left with ⟨nP2SHSigOps, sigOps⟩
  have answers : Answers
      (checkInputs args.node template.view args.nHeight true true tx) :=
    answers_checkInputs checked left
  rw [valueIn, valueOut, sigOps, classified]
  dsimp only [bind, Except.bind]
  by_cases full : MAX_BLOCK_SIGOPS ≤
      template.nBlockSigOps + (getLegacySigOpCount tx + nP2SHSigOps)
  · rw [if_pos full]
    exact ⟨_, rfl⟩
  rw [if_neg full]
  cases ran : checkInputs args.node template.view args.nHeight true true tx with
  | error failure =>
      cases failure with
      | fault fault => exact absurd ran (answers fault)
      | reject reject => exact ⟨_, rfl⟩
  | ok =>
      dsimp only
      split
      · rename_i holds
        rw [holds] at classified
        rcases getLottoValueFromTx_of_valid classified with ⟨nBetValue, bets⟩
        have updates : ∃ spent,
            updateCoins args.node template.view args.nHeight tx = .ok spent :=
          updateCoins_ok checked left
        rcases updates with ⟨spent, updated⟩
        rcases releases_ok (args.node.txHash tx)
          (wired.places (args.node.txHash tx)) with ⟨next, released, -⟩
        rw [add, updated, bets]
        dsimp only [bind, Except.bind]
        rw [released]
        exact ⟨_, rfl⟩
      · exact ⟨_, rfl⟩

/-- A round on a transaction that has been checked does not fail. -/
theorem consider_ok
    {entry : TxPriority D} {valid : Bool} (wired : Wired template.queue)
    (regular : entry.tx.isCoinBase = false)
    (checked : checkTransaction entry.tx = .ok ())
    (classified :
      isTransactionValid args.node.network args.node.chainActive.height
        entry.tx = .ok valid) :
    ∃ next, consider args template entry = .ok next := by
  rw [consider]
  split
  · exact ⟨_, rfl⟩
  split
  · exact ⟨_, rfl⟩
  split
  · exact ⟨_, rfl⟩
  exact tryAdd_ok (wired.of_eq rfl rfl) regular checked classified

end DSValue.Miner.Progress
