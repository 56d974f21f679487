import DSValue.Consensus.Classification
import DSValue.Mempool.Accept

/-!
# The bets of a transaction

`GetLottoValueFromTx`, `GetLottoFee` and `DrawLottery` run one scan over the
outputs, so they always speak of the same outputs.  These are the outputs
that carry an accepted bet and those that inherit its state: an output that
pays the pool without a bet is marked when only such outputs stand between it
and an accepted bet.  Moving it in front of the bet unmarks it.
-/

namespace DSValue.Mempool.BetValue

open DSValue.Lib
open DSValue.Lib.Outcome
open DSValue.Core.Transaction
open DSValue.Lotto.Bet
open DSValue.Script.Scan
open DSValue.Consensus.TxOut
open DSValue.Consensus.Classification
open DSValue.Mempool.Accept

/-! ## One scan for three purposes -/

/-- The outputs with a mark, by any rule. -/
def totalValue (vout : List CTxOut) : Int64 :=
  (vout.map CTxOut.nValue).sum

theorem markedValue_eq_totalValue (vout : List CTxOut) (marks : List Bool) :
    markedValue vout marks = totalValue (markedOutputs vout marks) := by
  induction vout generalizing marks with
  | nil => simp [markedValue, markedOutputs, totalValue]
  | cons txout rest inductionHypothesis =>
      cases marks with
      | nil => simp [markedValue, markedOutputs, totalValue]
      | cons mark marks =>
          rw [markedValue, inductionHypothesis]
          cases mark <;> simp [markedOutputs, totalValue]

/-- Value, draw and fee of a transaction all come from its marks. -/
theorem scans_agree
    (network : Network) (tipHeight : Nat) {tx : CTransaction}
    (regular : tx.isCoinBase = false) :
    getLottoValueFromTx network tipHeight tx =
        (betMarks network tipHeight tx).map
          (fun marks => totalValue (markedOutputs tx.vout marks)) ∧
      collectBetsFromTx network tipHeight tx [] =
        (betMarks network tipHeight tx).map (markedOutputs tx.vout) ∧
      getLottoFee network tipHeight tx =
        (betMarks network tipHeight tx).map
          (fun marks => rateOf (totalValue (markedOutputs tx.vout marks))) := by
  refine ⟨?_, ?_, ?_⟩
  · rw [getLottoValueFromTx_eq_markedValue]
    congr 1
    funext marks
    exact markedValue_eq_totalValue tx.vout marks
  · rw [collectBetsFromTx, if_neg (by simp [regular]),
      collectBetsLoop_eq_markedOutputs, betMarks, if_neg (by simp [regular])]
    simp
  · rw [getLottoFee, lottoValueLoop_eq_markedValue, betMarks,
      if_neg (by simp [regular])]
    cases betMarksFrom network tipHeight tx.vout .normal with
    | error fault => rfl
    | ok marks =>
        simp [Except.map, bind, Except.bind, pure, Except.pure,
          markedValue_eq_totalValue]

/-! ## Marks by a rule on single outputs -/

theorem markedOutputs_map (vout : List CTxOut) (isBet : CTxOut → Bool) :
    markedOutputs vout (vout.map isBet) = vout.filter isBet := by
  induction vout with
  | nil => rfl
  | cons txout rest inductionHypothesis =>
      rw [List.map_cons, List.filter_cons, ← inductionHypothesis]
      cases isBet txout <;> simp [markedOutputs]

/-- Every output that a rule takes as a bet is marked. -/
def Covers (isBet : CTxOut → Bool) (vout : List CTxOut) (marks : List Bool) :
    Prop :=
  ∀ (nPos : Nat) (txout : CTxOut), vout[nPos]? = some txout →
    isBet txout = true → marks[nPos]? = some true

theorem Covers.tail
    {isBet : CTxOut → Bool} {txout : CTxOut} {rest : List CTxOut}
    {mark : Bool} {marks : List Bool}
    (covers : Covers isBet (txout :: rest) (mark :: marks)) :
    Covers isBet rest marks :=
  fun nPos other position bet => covers (nPos + 1) other position bet

theorem markedOutputs_length_le
    {vout : List CTxOut} {marks : List Bool} {isBet : CTxOut → Bool}
    (marked : Covers isBet vout marks) :
    (vout.filter isBet).length ≤ (markedOutputs vout marks).length := by
  induction vout generalizing marks with
  | nil => simp
  | cons txout rest inductionHypothesis =>
      have first := marked 0 txout rfl
      cases marks with
      | nil =>
          have none : ∀ other ∈ txout :: rest, isBet other = false := by
            intro other member
            rcases List.getElem?_of_mem member with ⟨nPos, position⟩
            rw [Bool.eq_false_iff]
            intro bet
            simpa using marked nPos other position bet
          rw [List.filter_eq_nil_iff.mpr (by simpa using none)]
          simp
      | cons mark marks =>
          have later := inductionHypothesis marked.tail
          cases bet : isBet txout with
          | true =>
              have isMarked : mark = true := by simpa using first bet
              simpa [markedOutputs, isMarked, bet] using later
          | false =>
              cases mark with
              | true =>
                  simp only [markedOutputs, List.zip_cons_cons,
                    List.filter_cons, bet] at later ⊢
                  simp only [Bool.false_eq_true, if_false, if_true,
                    List.map_cons, List.length_cons]
                  omega
              | false => simpa [markedOutputs, bet] using later

/-- Marks that cover a rule and mark as many outputs are those of the rule. -/
theorem marks_eq_map_iff
    {vout : List CTxOut} {marks : List Bool} {isBet : CTxOut → Bool}
    (length : marks.length = vout.length)
    (marked : Covers isBet vout marks) :
    markedOutputs vout marks = vout.filter isBet ↔
      marks = vout.map isBet := by
  refine ⟨fun same => ?_, fun same => same ▸ markedOutputs_map vout isBet⟩
  induction vout generalizing marks with
  | nil => simpa using length
  | cons txout rest inductionHypothesis =>
      rcases marks with _ | ⟨mark, marks⟩
      · simp at length
      have later := marked.tail
      have first := marked 0 txout rfl
      have sameLength : marks.length = rest.length := by simpa using length
      cases bet : isBet txout with
      | true =>
          have isMarked : mark = true := by simpa using first bet
          subst isMarked
          have restSame :
              markedOutputs rest marks = rest.filter isBet := by
            simpa [markedOutputs, bet] using same
          rw [List.map_cons, bet,
            inductionHypothesis sameLength later restSame]
      | false =>
          cases mark with
          | true =>
              have atLeast := @markedOutputs_length_le rest marks isBet later
              have lengths := congrArg List.length same
              simp only [markedOutputs, List.zip_cons_cons, List.filter_cons,
                bet] at lengths atLeast
              simp only [Bool.false_eq_true, if_false, if_true,
                List.map_cons, List.length_cons] at lengths
              omega
          | false =>
              have restSame :
                  markedOutputs rest marks = rest.filter isBet := by
                simpa [markedOutputs, bet] using same
              rw [List.map_cons, bet,
                inductionHypothesis sameLength later restSame]

/-! ## Outputs that inherit the state of a bet -/

/-- The output stands behind an accepted bet, with nothing that resets. -/
def StandsBehindBet
    (network : Network) (tipHeight : Nat) (vout : List CTxOut) (nPos : Nat) :
    Prop :=
  ∃ origin < nPos,
    (∃ txout, vout[origin]? = some txout ∧
      acceptsBet network tipHeight txout = true) ∧
    (∀ between txout, origin < between → between ≤ nPos →
      vout[between]? = some txout → keepsState network txout = true) ∧
    ∃ txout, vout[nPos]? = some txout ∧ readable txout = true

theorem not_keepsState_of_acceptsBet
    {network : Network} {tipHeight : Nat} {txout : CTxOut}
    (accepted : acceptsBet network tipHeight txout = true) :
    keepsState network txout = false ∧ readable txout = true := by
  simp only [acceptsBet, Bool.and_eq_true] at accepted
  rcases accepted with ⟨pays, bet⟩
  cases scan : scanLotto txout.scriptPubKey with
  | unreadable => simp [scan] at bet
  | absent => simp [scan] at bet
  | found data => simp [keepsState, readable, pays, scan]

theorem isPoolBet_iff
    (network : Network) (tipHeight : Nat) (vout : List CTxOut) (nPos : Nat) :
    IsPoolBet network tipHeight vout nPos ↔
      (∃ txout, vout[nPos]? = some txout ∧
        acceptsBet network tipHeight txout = true) ∨
      StandsBehindBet network tipHeight vout nPos := by
  constructor
  · rintro ⟨origin, before, accepted, inherits, last⟩
    rcases Nat.lt_or_eq_of_le before with strict | rfl
    · exact Or.inr ⟨origin, strict, accepted, inherits, last⟩
    · exact Or.inl accepted
  · rintro (⟨txout, position, accepted⟩ |
      ⟨origin, before, accepted, inherits, last⟩)
    · refine ⟨nPos, le_rfl, ⟨txout, position, accepted⟩, ?_, txout, position,
        (not_keepsState_of_acceptsBet accepted).2⟩
      intro between other after within
      omega
    · exact ⟨origin, before.le, accepted, inherits, last⟩

/-- No output inherits the state of a bet. -/
def NoneBehind
    (network : Network) (tipHeight : Nat) (vout : List CTxOut) : Prop :=
  ∀ nPos, ¬ StandsBehindBet network tipHeight vout nPos

/-- Every bet that the scan accepts satisfies a rule. -/
def AcceptsOnly
    (network : Network) (tipHeight : Nat) (isBet : CTxOut → Bool)
    (vout : List CTxOut) : Prop :=
  ∀ txout ∈ vout, acceptsBet network tipHeight txout = true →
    isBet txout = true

theorem betMarksFrom_length
    {network : Network} {tipHeight : Nat} {vout : List CTxOut}
    {iTxType : TransactionState} {marks : List Bool}
    (scanned : betMarksFrom network tipHeight vout iTxType = .ok marks) :
    marks.length = vout.length := by
  induction vout generalizing iTxType marks with
  | nil =>
      cases scanned
      rfl
  | cons txout rest inductionHypothesis =>
      simp only [betMarksFrom, bind_eq_ok] at scanned
      rcases scanned with ⟨outcome, -, restMarks, later, built⟩
      cases built
      rw [List.length_cons, List.length_cons, inductionHypothesis later]

/-- The marks follow a rule when no output inherits and only its bets pass. -/
theorem marks_map_iff
    {network : Network} {tipHeight : Nat} {tx : CTransaction}
    {marks : List Bool} {isBet : CTxOut → Bool}
    (regular : tx.isCoinBase = false)
    (scanned : betMarks network tipHeight tx = .ok marks)
    (accepts :
      ∀ txout, isBet txout = true →
        acceptsBet network tipHeight txout = true) :
    marks = tx.vout.map isBet ↔
      NoneBehind network tipHeight tx.vout ∧
        AcceptsOnly network tipHeight isBet tx.vout := by
  have marked (nPos : Nat) :
      marks[nPos]? = some true ↔ IsPoolBet network tipHeight tx.vout nPos := by
    rw [marked_iff scanned]
    simp [regular]
  have length : marks.length = tx.vout.length := by
    rw [betMarks, if_neg (by simp [regular])] at scanned
    exact betMarksFrom_length scanned
  constructor
  · intro same
    have rule (nPos : Nat) (txout : CTxOut)
        (position : tx.vout[nPos]? = some txout) :
        isBet txout = true ↔ IsPoolBet network tipHeight tx.vout nPos := by
      rw [← marked, same, List.getElem?_map, position]
      simp
    constructor
    · intro nPos behind
      rcases behind with ⟨origin, before, accepted, inherits, last⟩
      rcases last with ⟨txout, position, isReadable⟩
      have bet :=
        (rule nPos txout position).mpr
          ((isPoolBet_iff network tipHeight tx.vout nPos).mpr
            (Or.inr ⟨origin, before, accepted, inherits, txout, position,
              isReadable⟩))
      have kept := inherits nPos txout before le_rfl position
      rw [(not_keepsState_of_acceptsBet (accepts txout bet)).1] at kept
      contradiction
    · intro txout member accepted
      rcases List.getElem?_of_mem member with ⟨nPos, position⟩
      exact (rule nPos txout position).mpr
        ((isPoolBet_iff network tipHeight tx.vout nPos).mpr
          (Or.inl ⟨txout, position, accepted⟩))
  · rintro ⟨noneBehind, only⟩
    apply List.ext_getElem?
    intro nPos
    rw [List.getElem?_map]
    cases position : tx.vout[nPos]? with
    | none =>
        rw [List.getElem?_eq_none_iff] at position
        rw [Option.map_none, List.getElem?_eq_none_iff, length]
        exact position
    | some txout =>
        have inside := (List.getElem?_eq_some_iff.mp position).1
        have isMark : marks[nPos]? = some marks[nPos] :=
          List.getElem?_eq_getElem (length ▸ inside)
        rw [isMark, Option.map_some, Option.some.injEq, Bool.eq_iff_iff]
        have here := marked nPos
        rw [isMark, Option.some.injEq, isPoolBet_iff] at here
        rw [here]
        constructor
        · rintro (⟨other, same, accepted⟩ | behind)
          · rw [position] at same
            cases same
            exact only txout (List.mem_of_getElem? position) accepted
          · exact absurd behind (noneBehind nPos)
        · intro bet
          exact Or.inl ⟨txout, position, accepts txout bet⟩

/-! ## The claim of a sum over single outputs -/

/-- Value, draw and fee of a transaction are those of the bets by a rule. -/
structure SumsBets
    (network : Network) (tipHeight : Nat) (isBet : CTxOut → Bool)
    (tx : CTransaction) : Prop where
  value :
    getLottoValueFromTx network tipHeight tx =
      .ok (totalValue (tx.vout.filter isBet))
  drawn :
    collectBetsFromTx network tipHeight tx [] = .ok (tx.vout.filter isBet)
  fee :
    getLottoFee network tipHeight tx =
      .ok (rateOf (totalValue (tx.vout.filter isBet)))

theorem sumsBets_iff
    {network : Network} {tipHeight : Nat} {tx : CTransaction}
    {isBet : CTxOut → Bool}
    (regular : tx.isCoinBase = false)
    (accepts :
      ∀ txout, isBet txout = true →
        acceptsBet network tipHeight txout = true) :
    SumsBets network tipHeight isBet tx ↔
      AllClassifiable network tx ∧ NoneBehind network tipHeight tx.vout ∧
        AcceptsOnly network tipHeight isBet tx.vout := by
  rcases scans_agree network tipHeight regular with ⟨value, drawn, fee⟩
  have returns := returns_getLottoValueFromTx_iff network tipHeight tx
  cases scanned : betMarks network tipHeight tx with
  | error fault =>
      rw [scanned] at value drawn
      constructor
      · intro sums
        rw [sums.drawn] at drawn
        cases drawn
      · rintro ⟨classifiable, -⟩
        have returned := returns.mpr classifiable
        rw [value] at returned
        exact absurd returned (not_returns_error fault)
  | ok marks =>
      rw [scanned] at value drawn fee
      have classifiable : AllClassifiable network tx :=
        returns.mp ⟨_, value⟩
      have covers : Covers isBet tx.vout marks := by
        intro nPos txout position bet
        rw [marked_iff scanned]
        exact ⟨regular, (isPoolBet_iff network tipHeight tx.vout nPos).mpr
          (Or.inl ⟨txout, position, accepts txout bet⟩)⟩
      have length : marks.length = tx.vout.length := by
        rw [betMarks, if_neg (by simp [regular])] at scanned
        exact betMarksFrom_length scanned
      rw [← marks_map_iff regular scanned accepts,
        ← marks_eq_map_iff length covers]
      constructor
      · intro sums
        rw [sums.drawn] at drawn
        exact ⟨classifiable, (Except.ok.inj drawn).symm⟩
      · rintro ⟨-, same⟩
        simp only [Except.map, same] at value drawn fee
        exact ⟨value, drawn, fee⟩

/-! ## The order of the outputs -/

/-- No order of the outputs puts a readable one into the state of a bet. -/
def NeverBehind
    (network : Network) (tipHeight : Nat) (vout : List CTxOut) : Prop :=
  (∀ txout ∈ vout, acceptsBet network tipHeight txout = false) ∨
    ∀ txout ∈ vout, keepsState network txout = true → readable txout = false

theorem neverBehind_iff
    (network : Network) (tipHeight : Nat) (vout : List CTxOut) :
    (∀ vout', vout'.Perm vout → NoneBehind network tipHeight vout') ↔
      NeverBehind network tipHeight vout := by
  constructor
  · intro noneBehind
    by_contra either
    rw [NeverBehind, not_or] at either
    push Not at either
    rcases either with ⟨⟨bet, betMember, accepted⟩,
      ⟨follower, followerMember, kept, isReadable⟩⟩
    rw [ne_eq, Bool.not_eq_false] at accepted isReadable
    have differs : follower ≠ bet := by
      rintro rfl
      rw [(not_keepsState_of_acceptsBet accepted).1] at kept
      contradiction
    have left : follower ∈ vout.erase bet :=
      (List.mem_erase_of_ne differs).mpr followerMember
    have reordered :
        (bet :: follower :: (vout.erase bet).erase follower).Perm vout :=
      (((List.perm_cons_erase left).symm).cons bet).trans
        (List.perm_cons_erase betMember).symm
    refine noneBehind _ reordered 1
      ⟨0, Nat.one_pos, ⟨bet, rfl, accepted⟩, ?_, follower, rfl, isReadable⟩
    intro between txout after within position
    have second : between = 1 := by omega
    subst second
    cases position
    exact kept
  · rintro either vout' reordered nPos
      ⟨origin, before, ⟨bet, atOrigin, accepted⟩, inherits,
        follower, atPos, isReadable⟩
    have betMember := reordered.mem_iff.mp (List.mem_of_getElem? atOrigin)
    have followerMember := reordered.mem_iff.mp (List.mem_of_getElem? atPos)
    rcases either with noBet | noFollower
    · rw [noBet bet betMember] at accepted
      contradiction
    · rw [noFollower follower followerMember
        (inherits nPos follower before le_rfl atPos)] at isReadable
      contradiction

/-- The output pays the pool with bet data that `CLotto::IsValid` accepts. -/
def validBet (network : Network) (txout : CTxOut) : Bool :=
  isSendPoolAdress network txout.scriptPubKey &&
    match scanLotto txout.scriptPubKey with
    | .found vchPushValue =>
        decide (isValid vchPushValue txout.nValue = .ok true)
    | _ => false

theorem acceptsBet_of_validBet
    (network : Network) (tipHeight : Nat) (txout : CTxOut)
    (valid : validBet network txout = true) :
    acceptsBet network tipHeight txout = true := by
  simp only [validBet, Bool.and_eq_true] at valid
  rcases valid with ⟨pays, valid⟩
  cases scan : scanLotto txout.scriptPubKey with
  | unreadable => simp [scan] at valid
  | absent => simp [scan] at valid
  | found data =>
      simp only [scan, decide_eq_true_eq] at valid
      simp [acceptsBet, pays, scan, valid]

/-- Above height 4380 only valid bets are accepted. -/
theorem acceptsOnly_of_high
    (network : Network) {tipHeight : Nat} (high : 4380 < tipHeight)
    (vout : List CTxOut) :
    AcceptsOnly network tipHeight (validBet network) vout := by
  intro txout _ accepted
  simp only [acceptsBet, Bool.and_eq_true] at accepted
  rcases accepted with ⟨pays, accepted⟩
  cases scan : scanLotto txout.scriptPubKey with
  | unreadable => simp [scan] at accepted
  | absent => simp [scan] at accepted
  | found data =>
      cases validity : isValid data txout.nValue with
      | error fault => simp [scan, validity] at accepted
      | ok valid =>
          simp only [scan, validity, Bool.or_eq_true, decide_eq_true_eq]
            at accepted
          have isTrue : valid = true := by
            rcases accepted with isTrue | low
            · exact isTrue
            · omega
          simp [validBet, pays, scan, validity, isTrue]

/--
The value, the fee and the drawn outputs of a transaction are those of its
valid bets exactly when all outputs can be classified, no output inherits the
state of a bet and the scan accepts valid bets only; they are so in every
order of the outputs exactly when there is no bet or no readable output to
inherit its state.
-/
theorem sumsValidBets_iff
    (network : Network) (tipHeight : Nat) (tx : CTransaction)
    (regular : tx.isCoinBase = false) :
    (SumsBets network tipHeight (validBet network) tx ↔
      AllClassifiable network tx ∧ NoneBehind network tipHeight tx.vout ∧
        AcceptsOnly network tipHeight (validBet network) tx.vout) ∧
    ((∀ vout', vout'.Perm tx.vout →
        SumsBets network tipHeight (validBet network)
          { tx with vout := vout' }) ↔
      AllClassifiable network tx ∧ NeverBehind network tipHeight tx.vout ∧
        AcceptsOnly network tipHeight (validBet network) tx.vout) := by
  have accepts := acceptsBet_of_validBet network tipHeight
  have each (vout' : List CTxOut) :
      SumsBets network tipHeight (validBet network)
          { tx with vout := vout' } ↔
        (∀ txout ∈ vout', Classifiable network txout) ∧
          NoneBehind network tipHeight vout' ∧
            AcceptsOnly network tipHeight (validBet network) vout' := by
    have sameInputs : ({ tx with vout := vout' }).isCoinBase = false := regular
    rw [sumsBets_iff sameInputs accepts, AllClassifiable]
    simp [sameInputs]
  refine ⟨sumsBets_iff regular accepts, ?_⟩
  rw [← neverBehind_iff]
  simp only [each, AllClassifiable, regular, forall_const]
  constructor
  · intro all
    have here := all tx.vout (List.Perm.refl _)
    exact ⟨here.1, fun vout' reordered => (all vout' reordered).2.1,
      here.2.2⟩
  · rintro ⟨classifiable, noneBehind, only⟩ vout' reordered
    refine ⟨?_, noneBehind vout' reordered, ?_⟩
    · intro txout member
      exact classifiable txout (reordered.mem_iff.mp member)
    · intro txout member
      exact only txout (reordered.mem_iff.mp member)

/-- A ticket of the value 200000 and an output for the change. -/
def ticketWithChange : CTransaction :=
  betTransaction
    [⟨200000, betScript .main [OP_LOTTOUNSPEND] sixNumberTicket⟩,
      ⟨300000, [OP_1]⟩]

theorem ticketWithChange_sums :
    SumsBets .main 5000 (validBet .main) ticketWithChange ∧
      ∀ vout', vout'.Perm ticketWithChange.vout →
        SumsBets .main 5000 (validBet .main)
          { ticketWithChange with vout := vout' } := by
  have regular : ticketWithChange.isCoinBase = false := by decide
  have classifiable : AllClassifiable .main ticketWithChange :=
    (returns_getLottoValueFromTx_iff .main 5000 ticketWithChange).mp
      ⟨200000, by decide⟩
  have never : NeverBehind .main 5000 ticketWithChange.vout :=
    Or.inr (by decide)
  have only :=
    acceptsOnly_of_high .main (show 4380 < 5000 by decide)
      ticketWithChange.vout
  have none :=
    (neverBehind_iff .main 5000 ticketWithChange.vout).mpr never _
      (List.Perm.refl _)
  rcases sumsValidBets_iff .main 5000 ticketWithChange regular with
    ⟨here, always⟩
  exact ⟨here.mpr ⟨classifiable, none, only⟩,
    always.mpr ⟨classifiable, never, only⟩⟩

/-- A ticket and an output that pays the pool without a bet. -/
def ticketWithFollower : List CTxOut :=
  [⟨200000, betScript .main [OP_LOTTOUNSPEND] sixNumberTicket⟩,
    ⟨5, [OP_LOTTOUNSPEND, OP_HASH160, 20] ++ lottoPoolKeyBytes .main⟩]

/--
The follower is added to the value when it stands behind the ticket and left
out when it stands in front of it.
-/
theorem follower_counts_behind_the_ticket :
    totalValue (ticketWithFollower.filter (validBet .main)) = 200000 ∧
      getLottoValueFromTx .main 5000 (betTransaction ticketWithFollower) =
        .ok 200005 ∧
      getLottoValueFromTx .main 5000
          (betTransaction ticketWithFollower.reverse) = .ok 200000 := by
  decide

end DSValue.Mempool.BetValue
