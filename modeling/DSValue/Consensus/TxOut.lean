import DSValue.Core.Transaction
import DSValue.Lotto.Bet

/-!
# Which outputs are bets

`CTxOut::GetLottoTxOutType` writes the state of an output into a reference
that its callers keep from one output of a transaction to the next, and it
leaves the reference alone when the output pays the pool but carries no
readable bet.  `GetLottoValueFromTx` adds the value of every output after
which the state is valid, and `DrawLottery` collects the same outputs.

`betMarks` is the trace of that state and `marked_iff` says in terms of the
outputs alone which of them are marked.  Nothing in the scan looks at the
first opcode, which alone decides whether the output is kept out of the set
of unspent outputs.
-/

namespace DSValue.Consensus.TxOut

open DSValue.Lib
open DSValue.Core.Transaction
open DSValue.Lotto.Bet
open DSValue.Script.Scan

/-- `TransactionState`. -/
inductive TransactionState where
  | normal
  | invalidLotto
  | validLotto
deriving DecidableEq

/-! ## The scan over the outputs of a transaction -/

/--
`CTxOut::GetLottoTxOutType`, with the height of the active tip and the state
the caller passes in.
-/
def getLottoTxOutType
    (network : Network) (tipHeight : Nat)
    (txout : CTxOut) (txType : TransactionState) :
    Except Fault (Bool × TransactionState) :=
  if !isSendPoolAdress network txout.scriptPubKey then
    pure (true, .normal)
  else
    match scanLotto txout.scriptPubKey with
    | .unreadable => pure (false, txType)
    | .absent => pure (true, txType)
    | .found vchPushValue => do
        let valid ← isValid vchPushValue txout.nValue
        if !valid && 4380 < tipHeight then pure (true, .invalidLotto)
        else pure (true, .validLotto)

/-- Whether the callers of `GetLottoTxOutType` take the output as a bet. -/
def isBet (scanned : Bool × TransactionState) : Bool :=
  scanned.1 && scanned.2 = .validLotto

/-- The loop of `GetLottoValueFromTx`. -/
def lottoValueLoop (network : Network) (tipHeight : Nat) :
    List CTxOut → TransactionState → Int64 → Except Fault Int64
  | [], _, nCurBetValue => pure nCurBetValue
  | vOut :: rest, iTxType, nCurBetValue => do
      let scanned ← getLottoTxOutType network tipHeight vOut iTxType
      lottoValueLoop network tipHeight rest scanned.2
        (if isBet scanned then nCurBetValue + vOut.nValue else nCurBetValue)

/-- `GetLottoValueFromTx`. -/
def getLottoValueFromTx
    (network : Network) (tipHeight : Nat) (tx : CTransaction) :
    Except Fault Int64 :=
  if tx.isCoinBase then pure 0
  else lottoValueLoop network tipHeight tx.vout .normal 0

/-- The loop of `GetLottoValueFromBlock`. -/
def lottoValueFromTxs (network : Network) (tipHeight : Nat) :
    List CTransaction → Int64 → Except Fault Int64
  | [], nCurBetValue => pure nCurBetValue
  | tx :: rest, nCurBetValue => do
      let value ← getLottoValueFromTx network tipHeight tx
      lottoValueFromTxs network tipHeight rest (nCurBetValue + value)

/-- `GetLottoValueFromBlock`. -/
def getLottoValueFromBlock
    (network : Network) (tipHeight : Nat) (block : CBlock) :
    Except Fault Int64 :=
  lottoValueFromTxs network tipHeight block.vtx 0

/-- The inner loop of `DrawLottery` over the outputs of a transaction. -/
def collectBetsLoop (network : Network) (tipHeight : Nat) :
    List CTxOut → TransactionState → List CTxOut → Except Fault (List CTxOut)
  | [], _, vBet => pure vBet
  | txout :: rest, iTxType, vBet => do
      let scanned ← getLottoTxOutType network tipHeight txout iTxType
      collectBetsLoop network tipHeight rest scanned.2
        (if isBet scanned then vBet ++ [txout] else vBet)

/-- The body of the outer loop of `DrawLottery`. -/
def collectBetsFromTx (network : Network) (tipHeight : Nat)
    (tx : CTransaction) (vBet : List CTxOut) : Except Fault (List CTxOut) :=
  if tx.isCoinBase then pure vBet
  else collectBetsLoop network tipHeight tx.vout .normal vBet

/-- The outer loop of `DrawLottery` over the transactions. -/
def collectBetsFromTxs (network : Network) (tipHeight : Nat) :
    List CTransaction → List CTxOut → Except Fault (List CTxOut)
  | [], vBet => pure vBet
  | tx :: rest, vBet => do
      let vBet ← collectBetsFromTx network tipHeight tx vBet
      collectBetsFromTxs network tipHeight rest vBet

/-- The bets that `DrawLottery` collects from a block. -/
def collectBets
    (network : Network) (tipHeight : Nat) (lotteryBlock : CBlock) :
    Except Fault (List CTxOut) :=
  collectBetsFromTxs network tipHeight lotteryBlock.vtx.tail []

/-! ## Marks -/

/-- For each output, whether the scan takes it as a bet. -/
def betMarksFrom (network : Network) (tipHeight : Nat) :
    List CTxOut → TransactionState → Except Fault (List Bool)
  | [], _ => pure []
  | vOut :: rest, iTxType => do
      let scanned ← getLottoTxOutType network tipHeight vOut iTxType
      let marks ← betMarksFrom network tipHeight rest scanned.2
      pure (isBet scanned :: marks)

/-- The marks of the outputs of a transaction. -/
def betMarks (network : Network) (tipHeight : Nat) (tx : CTransaction) :
    Except Fault (List Bool) :=
  if tx.isCoinBase then pure (List.replicate tx.vout.length false)
  else betMarksFrom network tipHeight tx.vout .normal

/-- The total value of the marked outputs. -/
def markedValue : List CTxOut → List Bool → Int64
  | vOut :: rest, mark :: marks =>
      (if mark then vOut.nValue else 0) + markedValue rest marks
  | _, _ => 0

/-- The marked outputs. -/
def markedOutputs (vout : List CTxOut) (marks : List Bool) : List CTxOut :=
  ((vout.zip marks).filter (fun pair => pair.2)).map Prod.fst

theorem lottoValueLoop_eq_markedValue
    (network : Network) (tipHeight : Nat) (vout : List CTxOut)
    (iTxType : TransactionState) (nCurBetValue : Int64) :
    lottoValueLoop network tipHeight vout iTxType nCurBetValue =
      (betMarksFrom network tipHeight vout iTxType).map
        (fun marks => nCurBetValue + markedValue vout marks) := by
  induction vout generalizing iTxType nCurBetValue with
  | nil =>
      simp [lottoValueLoop, betMarksFrom, markedValue, Except.map, pure,
        Except.pure]
  | cons vOut rest inductionHypothesis =>
      rw [lottoValueLoop, betMarksFrom]
      cases getLottoTxOutType network tipHeight vOut iTxType with
      | error fault => rfl
      | ok scanned =>
          simp only [bind, Except.bind, inductionHypothesis]
          cases betMarksFrom network tipHeight rest scanned.2 with
          | error fault => rfl
          | ok marks =>
              simp only [Except.map, pure, Except.pure, markedValue]
              split_ifs <;> simp [Int64.add_assoc]

theorem collectBetsLoop_eq_markedOutputs
    (network : Network) (tipHeight : Nat) (vout : List CTxOut)
    (iTxType : TransactionState) (vBet : List CTxOut) :
    collectBetsLoop network tipHeight vout iTxType vBet =
      (betMarksFrom network tipHeight vout iTxType).map
        (fun marks => vBet ++ markedOutputs vout marks) := by
  induction vout generalizing iTxType vBet with
  | nil =>
      simp [collectBetsLoop, betMarksFrom, markedOutputs, Except.map, pure,
        Except.pure]
  | cons txout rest inductionHypothesis =>
      rw [collectBetsLoop, betMarksFrom]
      cases getLottoTxOutType network tipHeight txout iTxType with
      | error fault => rfl
      | ok scanned =>
          simp only [bind, Except.bind, inductionHypothesis]
          cases betMarksFrom network tipHeight rest scanned.2 with
          | error fault => rfl
          | ok marks =>
              simp only [Except.map, pure, Except.pure, markedOutputs]
              split_ifs with bet <;> simp [bet]

theorem markedValue_false (vout : List CTxOut) :
    markedValue vout (List.replicate vout.length false) = 0 := by
  induction vout with
  | nil => rfl
  | cons vOut rest inductionHypothesis =>
      simp [List.replicate_succ, markedValue, inductionHypothesis]

/-- `GetLottoValueFromTx` adds the values of the marked outputs. -/
theorem getLottoValueFromTx_eq_markedValue
    (network : Network) (tipHeight : Nat) (tx : CTransaction) :
    getLottoValueFromTx network tipHeight tx =
      (betMarks network tipHeight tx).map (markedValue tx.vout) := by
  rw [getLottoValueFromTx, betMarks]
  split_ifs
  · simp [Except.map, pure, Except.pure, markedValue_false]
  · rw [lottoValueLoop_eq_markedValue]
    simp

/-! ## Which outputs are marked -/

/-- The output pays the pool and carries a bet the scan accepts. -/
def acceptsBet (network : Network) (tipHeight : Nat) (txout : CTxOut) : Bool :=
  isSendPoolAdress network txout.scriptPubKey &&
    match scanLotto txout.scriptPubKey with
    | .found vchPushValue =>
        match isValid vchPushValue txout.nValue with
        | .ok valid => valid || tipHeight ≤ 4380
        | .error _ => false
    | _ => false

/-- The script can be read up to its first `OP_LOTTO` or to its end. -/
def readable (txout : CTxOut) : Bool :=
  scanLotto txout.scriptPubKey ≠ .unreadable

/-- The output pays the pool and leaves the state of the scan alone. -/
def keepsState (network : Network) (txout : CTxOut) : Bool :=
  isSendPoolAdress network txout.scriptPubKey &&
    match scanLotto txout.scriptPubKey with
    | .found _ => false
    | _ => true

/-- What one call of `GetLottoTxOutType` can do. -/
theorem getLottoTxOutType_cases
    {network : Network} {tipHeight : Nat} {txout : CTxOut}
    {txType : TransactionState} {scanned : Bool × TransactionState}
    (returned :
      getLottoTxOutType network tipHeight txout txType = .ok scanned) :
    (keepsState network txout = false ∧
        acceptsBet network tipHeight txout = true ∧
        readable txout = true ∧ scanned = (true, .validLotto)) ∨
      (keepsState network txout = true ∧
        acceptsBet network tipHeight txout = false ∧
        scanned = (readable txout, txType)) ∨
      (keepsState network txout = false ∧
        acceptsBet network tipHeight txout = false ∧
        scanned.2 ≠ .validLotto) := by
  rw [getLottoTxOutType] at returned
  by_cases pays : isSendPoolAdress network txout.scriptPubKey
  · simp only [pays, Bool.not_true, Bool.false_eq_true, if_false] at returned
    cases scan : scanLotto txout.scriptPubKey with
    | unreadable =>
        simp only [scan] at returned
        cases returned
        simp [keepsState, acceptsBet, readable, pays, scan]
    | absent =>
        simp only [scan] at returned
        cases returned
        simp [keepsState, acceptsBet, readable, pays, scan]
    | found vchPushValue =>
        simp only [scan] at returned
        cases validity : isValid vchPushValue txout.nValue with
        | error fault =>
            rw [validity] at returned
            simp [bind, Except.bind] at returned
        | ok valid =>
            rw [validity] at returned
            simp only [bind, Except.bind] at returned
            split_ifs at returned with rejected
            · cases returned
              simp only [Bool.and_eq_true, Bool.not_eq_true',
                decide_eq_true_eq] at rejected
              simp [keepsState, acceptsBet, readable, pays, scan, validity,
                rejected]
            · cases returned
              simp only [Bool.and_eq_true, Bool.not_eq_true',
                decide_eq_true_eq, not_and, not_lt] at rejected
              cases valid with
              | true =>
                  simp [keepsState, acceptsBet, readable, pays, scan, validity]
              | false =>
                  simp [keepsState, acceptsBet, readable, pays, scan, validity,
                    rejected rfl]
  · simp only [pays, Bool.not_false, if_true] at returned
    cases returned
    simp [keepsState, acceptsBet, pays]

/--
The output at `nPos` is an accepted bet or inherits the state of one: behind
the accepted bet stand only outputs that leave the state alone.
-/
def IsPoolBet
    (network : Network) (tipHeight : Nat) (vout : List CTxOut) (nPos : Nat) :
    Prop :=
  ∃ origin ≤ nPos,
    (∃ txout, vout[origin]? = some txout ∧
      acceptsBet network tipHeight txout = true) ∧
    (∀ between txout, origin < between → between ≤ nPos →
      vout[between]? = some txout → keepsState network txout = true) ∧
    ∃ txout, vout[nPos]? = some txout ∧ readable txout = true

/-- All outputs up to `nPos` leave the state alone and the last is readable. -/
def InheritsFromFront
    (network : Network) (vout : List CTxOut) (nPos : Nat) : Prop :=
  (∀ between txout, between ≤ nPos →
    vout[between]? = some txout → keepsState network txout = true) ∧
  ∃ txout, vout[nPos]? = some txout ∧ readable txout = true

theorem isPoolBet_zero
    (network : Network) (tipHeight : Nat)
    (vOut : CTxOut) (rest : List CTxOut) :
    IsPoolBet network tipHeight (vOut :: rest) 0 ↔
      acceptsBet network tipHeight vOut = true ∧ readable vOut = true := by
  constructor
  · rintro ⟨origin, before, ⟨txout, atOrigin, accepted⟩, -, ⟨last, atLast, read⟩⟩
    rw [Nat.le_zero.mp before] at atOrigin
    cases atOrigin
    cases atLast
    exact ⟨accepted, read⟩
  · rintro ⟨accepted, read⟩
    refine ⟨0, le_rfl, ⟨vOut, rfl, accepted⟩, ?_, vOut, rfl, read⟩
    intro between txout after within
    omega

theorem inheritsFromFront_zero
    (network : Network) (vOut : CTxOut) (rest : List CTxOut) :
    InheritsFromFront network (vOut :: rest) 0 ↔
      keepsState network vOut = true ∧ readable vOut = true := by
  constructor
  · rintro ⟨kept, ⟨last, atLast, read⟩⟩
    cases atLast
    exact ⟨kept 0 vOut le_rfl rfl, read⟩
  · rintro ⟨kept, read⟩
    refine ⟨?_, vOut, rfl, read⟩
    intro between txout within position
    rw [Nat.le_zero.mp within] at position
    cases position
    exact kept

theorem isPoolBet_cons
    (network : Network) (tipHeight : Nat)
    (vOut : CTxOut) (rest : List CTxOut) (nPos : Nat) :
    IsPoolBet network tipHeight (vOut :: rest) (nPos + 1) ↔
      IsPoolBet network tipHeight rest nPos ∨
        (acceptsBet network tipHeight vOut = true ∧
          InheritsFromFront network rest nPos) := by
  constructor
  · rintro ⟨origin, before, accepted, inherits, last⟩
    cases origin with
    | zero =>
        rcases accepted with ⟨txout, atFront, accepted⟩
        cases atFront
        refine Or.inr ⟨accepted, ?_, last⟩
        intro between txout within position
        exact inherits (between + 1) txout (by omega) (by omega) position
    | succ origin =>
        refine Or.inl ⟨origin, by omega, accepted, ?_, last⟩
        intro between txout after within position
        exact inherits (between + 1) txout (by omega) (by omega) position
  · rintro (⟨origin, before, accepted, inherits, last⟩ | ⟨accepted, inherits⟩)
    · refine ⟨origin + 1, by omega, accepted, ?_, last⟩
      intro between txout after within position
      cases between with
      | zero => omega
      | succ between =>
          exact inherits between txout (by omega) (by omega) position
    · refine ⟨0, by omega, ⟨vOut, rfl, accepted⟩, ?_, inherits.2⟩
      intro between txout after within position
      cases between with
      | zero => omega
      | succ between =>
          exact inherits.1 between txout (by omega) position

theorem inheritsFromFront_cons
    (network : Network) (vOut : CTxOut) (rest : List CTxOut) (nPos : Nat) :
    InheritsFromFront network (vOut :: rest) (nPos + 1) ↔
      keepsState network vOut = true ∧
        InheritsFromFront network rest nPos := by
  constructor
  · rintro ⟨inherits, last⟩
    refine ⟨inherits 0 vOut (by omega) rfl, ?_, last⟩
    intro between txout within position
    exact inherits (between + 1) txout (by omega) position
  · rintro ⟨kept, inherits, last⟩
    refine ⟨?_, last⟩
    intro between txout within position
    cases between with
    | zero =>
        cases position
        exact kept
    | succ between => exact inherits between txout (by omega) position

theorem marked_iff_from
    {network : Network} {tipHeight : Nat} {vout : List CTxOut}
    {iTxType : TransactionState} {marks : List Bool}
    (scanned : betMarksFrom network tipHeight vout iTxType = .ok marks)
    (nPos : Nat) :
    marks[nPos]? = some true ↔
      IsPoolBet network tipHeight vout nPos ∨
        (iTxType = .validLotto ∧ InheritsFromFront network vout nPos) := by
  induction vout generalizing iTxType marks nPos with
  | nil =>
      cases scanned
      simp [IsPoolBet, InheritsFromFront]
  | cons vOut rest inductionHypothesis =>
      rw [betMarksFrom] at scanned
      cases first : getLottoTxOutType network tipHeight vOut iTxType with
      | error fault => simp [first, bind, Except.bind] at scanned
      | ok outcome =>
          cases later : betMarksFrom network tipHeight rest outcome.2 with
          | error fault => simp [first, later, bind, Except.bind] at scanned
          | ok restMarks =>
              simp only [first, later, bind, Except.bind] at scanned
              cases scanned
              have effect := getLottoTxOutType_cases first
              cases nPos with
              | zero =>
                  rw [List.getElem?_cons_zero, Option.some.injEq,
                    isPoolBet_zero, inheritsFromFront_zero, isBet]
                  rcases effect with
                    ⟨lost, accepted, read, rfl⟩ | ⟨kept, rejected, rfl⟩ |
                      ⟨lost, rejected, invalid⟩
                  · simp [accepted, read]
                  · simp [kept, rejected, and_comm]
                  · simp [lost, rejected, invalid]
              | succ nPos =>
                  rw [List.getElem?_cons_succ, inductionHypothesis later,
                    isPoolBet_cons, inheritsFromFront_cons]
                  rcases effect with
                    ⟨lost, accepted, read, rfl⟩ | ⟨kept, rejected, rfl⟩ |
                      ⟨lost, rejected, invalid⟩
                  · simp [lost, accepted]
                  · simp [kept, rejected]
                  · simp [lost, rejected, invalid]

/-- The marked outputs in terms of the outputs alone. -/
theorem marked_iff
    {network : Network} {tipHeight : Nat} {tx : CTransaction}
    {marks : List Bool}
    (scanned : betMarks network tipHeight tx = .ok marks)
    (nPos : Nat) :
    marks[nPos]? = some true ↔
      tx.isCoinBase = false ∧ IsPoolBet network tipHeight tx.vout nPos := by
  rw [betMarks] at scanned
  split_ifs at scanned with coinBase
  · cases scanned
    simp [coinBase, List.getElem?_replicate]
  · rw [marked_iff_from scanned]
    simp [coinBase]

theorem mem_collectBetsFromTx_iff
    {network : Network} {tipHeight : Nat} {tx : CTransaction}
    {start vBet : List CTxOut} {txout : CTxOut}
    (collected : collectBetsFromTx network tipHeight tx start = .ok vBet) :
    txout ∈ vBet ↔
      txout ∈ start ∨
        (tx.isCoinBase = false ∧
          ∃ nPos, IsPoolBet network tipHeight tx.vout nPos ∧
            tx.vout[nPos]? = some txout) := by
  rw [collectBetsFromTx] at collected
  split_ifs at collected with coinBase
  · cases collected
    simp [coinBase]
  rw [collectBetsLoop_eq_markedOutputs] at collected
  cases scanned : betMarksFrom network tipHeight tx.vout .normal with
  | error fault => simp [scanned, Except.map] at collected
  | ok marks =>
      simp only [scanned, Except.map] at collected
      cases collected
      have marked := fun nPos => marked_iff_from scanned nPos
      simp only [reduceCtorEq, false_and, or_false] at marked
      have inOutputs :
          txout ∈ markedOutputs tx.vout marks ↔
            ∃ nPos : Nat, marks[nPos]? = some true ∧
              tx.vout[nPos]? = some txout := by
        rw [markedOutputs, List.mem_map]
        constructor
        · rintro ⟨pair, inZip, rfl⟩
          rw [List.mem_filter] at inZip
          rcases List.mem_iff_getElem?.mp inZip.1 with ⟨nPos, atPosition⟩
          rcases List.getElem?_zip_eq_some.mp atPosition with ⟨output, mark⟩
          exact ⟨nPos, by rw [mark, inZip.2], output⟩
        · rintro ⟨nPos, mark, output⟩
          have inZip : (txout, true) ∈ tx.vout.zip marks :=
            List.mem_of_getElem?
              (List.getElem?_zip_eq_some.mpr ⟨output, mark⟩)
          exact ⟨(txout, true), List.mem_filter.mpr ⟨inZip, rfl⟩, rfl⟩
      rw [List.mem_append, inOutputs]
      simp [marked, coinBase]

/-- The collected outputs are the pool bets of the transactions. -/
theorem mem_collectBetsFromTxs_iff
    {network : Network} {tipHeight : Nat} {txs : List CTransaction}
    {start vBet : List CTxOut} {txout : CTxOut}
    (collected : collectBetsFromTxs network tipHeight txs start = .ok vBet) :
    txout ∈ vBet ↔
      txout ∈ start ∨
        ∃ tx ∈ txs, tx.isCoinBase = false ∧
          ∃ nPos, IsPoolBet network tipHeight tx.vout nPos ∧
            tx.vout[nPos]? = some txout := by
  induction txs generalizing start with
  | nil =>
      cases collected
      simp
  | cons tx rest inductionHypothesis =>
      rw [collectBetsFromTxs, bind_eq_ok] at collected
      rcases collected with ⟨between, first, later⟩
      rw [inductionHypothesis later, mem_collectBetsFromTx_iff first,
        List.exists_mem_cons_iff, or_assoc]

/-! ## Marked outputs and the set of unspent outputs -/

/-- The script starts with `OP_RETURN` or `OP_LOTTOUNSPEND`. -/
def StartsUnspendable (script : CScript) : Prop :=
  ∃ byte rest, script = byte :: rest ∧
    (byte = OP_RETURN ∨ byte = OP_LOTTOUNSPEND)

theorem isUnspendable_iff (script : CScript) :
    isUnspendable script = true ↔ StartsUnspendable script := by
  cases script with
  | nil => simp [isUnspendable, StartsUnspendable]
  | cons byte rest => simp [isUnspendable, StartsUnspendable]

/--
Every output that `GetLottoValueFromTx` adds is unspendable and absent from
the coins of the transaction exactly when every pool bet of the transaction,
inherited ones included, starts with one of the two unspendable opcodes.
-/
theorem betOutputs_unspendable_iff
    (network : Network) (tipHeight : Nat) (tx : CTransaction)
    (nHeight : Int32) (marks : List Bool)
    (scanned : betMarks network tipHeight tx = .ok marks) :
    getLottoValueFromTx network tipHeight tx =
        .ok (markedValue tx.vout marks) ∧
      ((∀ nPos txout, marks[nPos]? = some true →
          tx.vout[nPos]? = some txout →
            isUnspendable txout.scriptPubKey = true ∧
              (CCoins.ofTransaction tx nHeight).isAvailable nPos = false) ↔
        (tx.isCoinBase = false →
          ∀ nPos txout, IsPoolBet network tipHeight tx.vout nPos →
            tx.vout[nPos]? = some txout →
              StartsUnspendable txout.scriptPubKey)) := by
  constructor
  · rw [getLottoValueFromTx_eq_markedValue, scanned]
    rfl
  · constructor
    · intro dropped regular nPos txout bet position
      have mark := (marked_iff scanned nPos).mpr ⟨regular, bet⟩
      exact (isUnspendable_iff _).mp (dropped nPos txout mark position).1
    · intro starts nPos txout mark position
      rcases (marked_iff scanned nPos).mp mark with ⟨regular, bet⟩
      have unspendable :=
        (isUnspendable_iff _).mpr (starts regular nPos txout bet position)
      refine ⟨unspendable, ?_⟩
      rw [Bool.eq_false_iff, Ne, ofTransaction_isAvailable]
      rintro ⟨other, atPosition, spendable, -⟩
      rw [position] at atPosition
      cases atPosition
      rw [unspendable] at spendable
      contradiction

/-- A single six-number ticket: type, address and the numbers one to six. -/
def sixNumberTicket : List UInt8 :=
  0 :: List.replicate 20 7 ++ [1, 2, 3, 4, 5, 6]

/-- Pay the pool of a network and carry a bet, behind an optional first part. -/
def betScript (network : Network) (front bet : List UInt8) : CScript :=
  front ++ [OP_HASH160, 20] ++ lottoPoolKeyBytes network ++
    [OP_LOTTO, UInt8.ofNat bet.length] ++ bet

/-- A transaction with one input and the given outputs. -/
def betTransaction (vout : List CTxOut) : CTransaction where
  nVersion := 1
  vin := [⟨⟨1, 0⟩, [], 0⟩]
  vout := vout
  nLockTime := 0

theorem betOutputs_unspendable_template :
    betMarks .main 5000 (betTransaction
        [⟨200000, betScript .main [OP_LOTTOUNSPEND] sixNumberTicket⟩]) =
        .ok [true] ∧
      getLottoValueFromTx .main 5000 (betTransaction
        [⟨200000, betScript .main [OP_LOTTOUNSPEND] sixNumberTicket⟩]) =
        .ok 200000 := by
  have marks :
      betMarks .main 5000 (betTransaction
          [⟨200000, betScript .main [OP_LOTTOUNSPEND] sixNumberTicket⟩]) =
        .ok [true] := by
    decide
  refine ⟨marks, ?_⟩
  rw [(betOutputs_unspendable_iff .main 5000 _ 0 _ marks).1]
  decide

/--
A valid bet whose script starts with the hash opcode is added to the pool and
stays available in the coins of its transaction.
-/
theorem betOutput_counted_and_available :
    betMarks .main 5000 (betTransaction
        [⟨200000, betScript .main [] sixNumberTicket⟩]) = .ok [true] ∧
      getLottoValueFromTx .main 5000 (betTransaction
        [⟨200000, betScript .main [] sixNumberTicket⟩]) = .ok 200000 ∧
      isUnspendable (betScript .main [] sixNumberTicket) = false ∧
      (CCoins.ofTransaction (betTransaction
        [⟨200000, betScript .main [] sixNumberTicket⟩]) 5001).isAvailable 0 =
        true := by
  decide

end DSValue.Consensus.TxOut
