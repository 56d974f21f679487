import DSValue.Script.Bounds
import DSValue.Script.StandardOutputs

/-!
# Outputs with several keys

`OP_CHECKMULTISIG` goes through signatures and keys once and never goes back.
That is enough: it succeeds whenever every signature has a key that verifies
it and the keys stand in the order of the signatures.
-/

namespace DSValue.Script.MultiSig

open DSValue.Lib
open DSValue.Lib.Matching
open DSValue.Script.Scan hiding getOp2 getOp2_length
open DSValue.Script.PushCodec (getOp2 getOp2_length push)
open DSValue.Script.Solver hiding isPayToScriptHash
open DSValue.Script.Number
open DSValue.Script.Interpreter
open DSValue.Script.Execution
open DSValue.Script.StandardOutputs
open DSValue.Script.Bounds (bounded_evalScript small_nil)

variable {args : EvalArgs} {op last : ParsedOp} {opcode : UInt8}
  {script pc end_ scriptSig scriptPubKey : CScript} {n : UInt8}
  {keys sigs stack left : List Valtype} {vSolutions result : List (List UInt8)}
  {check : Valtype → Valtype → Bool} {final : EvalState}

/-! ## The loop -/

/-- The loop stops early only where it would fail. -/
theorem multiSigLoop_eq_greedy (fits : sigs.length ≤ keys.length) :
    multiSigLoop check sigs keys = greedy check sigs keys := by
  induction keys generalizing sigs with
  | nil =>
      rw [List.length_eq_zero_iff.mp (Nat.le_zero.mp fits)]
      rfl
  | cons key keys inductionHypothesis =>
      cases sigs with
      | nil => rfl
      | cons sig sigs =>
          rw [List.length_cons, List.length_cons] at fits
          rw [multiSigLoop, greedy]
          by_cases isValid : check sig key = true
          · rw [if_pos isValid, if_pos isValid, if_neg (by omega),
              inductionHypothesis (by omega)]
          · rw [if_neg isValid, if_neg isValid]
            split_ifs with tooMany
            · symm
              rw [← Bool.not_eq_true, greedy_eq_true]
              exact fun given => absurd given.length_le (Nat.not_le_of_lt tooMany)
            · exact inductionHypothesis (Nat.le_of_not_lt tooMany)

/-! ## The script -/

/-- Pushes of the size of a public key lead from one position to another. -/
inductive Pushed : CScript → List Valtype → CScript → Prop where
  | nil (pc : CScript) : Pushed pc [] pc
  | cons {pc end_ : CScript} {op : ParsedOp} {keys : List Valtype}
      (parsed : Scan.getOp2 pc = some op)
      (sized : 33 ≤ op.vchRet.length ∧ op.vchRet.length ≤ 65)
      (rest : Pushed op.pc keys end_) : Pushed pc (op.vchRet :: keys) end_

/-- The loop over public keys stops at the first other operation. -/
theorem pushed_of_takePubKeys
    {bound : Nat} (parsed : Scan.getOp2 pc = some op)
    (taken : takePubKeys bound op vSolutions = (last, result))
    (valid : last.opcode ≠ OP_INVALIDOPCODE) :
    ∃ keys end_, result = vSolutions ++ keys ∧ Pushed pc keys end_ ∧
      Scan.getOp2 end_ = some last := by
  induction bound generalizing pc op vSolutions with
  | zero =>
      cases taken
      exact ⟨[], pc, (List.append_nil _).symm, Pushed.nil pc, parsed⟩
  | succ bound inductionHypothesis =>
      rw [takePubKeys] at taken
      split_ifs at taken with sized
      · cases following : Scan.getOp2 op.pc with
        | none =>
            rw [following] at taken
            cases taken
            exact absurd rfl valid
        | some next =>
            rw [following] at taken
            rcases inductionHypothesis following taken with
              ⟨keys, end_, rfl, pushed, ended⟩
            exact ⟨op.vchRet :: keys, end_, by rw [List.append_assoc]; rfl,
              Pushed.cons parsed sized pushed, ended⟩
      · cases taken
        exact ⟨[], pc, (List.append_nil _).symm, Pushed.nil pc, parsed⟩

/-- A small number is one byte. -/
theorem eq_of_decodeOpN
    (parsed : Scan.getOp2 pc = some op) (decoded : decodeOpN op.opcode = some n)
    (positive : 1 ≤ n) :
    pc = op.opcode :: op.pc ∧ OP_1 ≤ op.opcode ∧ op.opcode ≤ OP_16 ∧
      n = op.opcode - (OP_1 - 1) := by
  rw [decodeOpN] at decoded
  split_ifs at decoded with zero inside
  · cases decoded
    exact absurd positive (by decide)
  · cases decoded
    have behind : OP_PUSHDATA4 < op.opcode :=
      UInt8.lt_of_lt_of_le (by decide) inside.1
    exact ⟨eq_cons_of_scan parsed behind, inside.1, inside.2, rfl⟩

theorem matchOp_smallInteger
    {sols : List (List UInt8)}
    (matched : matchOp op OP_SMALLINTEGER sols = .continued result) :
    ∃ n, decodeOpN op.opcode = some n ∧ result = sols ++ [[n]] := by
  rw [matchOp, if_neg (by decide), if_neg (by decide), if_pos rfl] at matched
  cases decoded : decodeOpN op.opcode with
  | none =>
      rw [decoded] at matched
      cases matched
  | some n =>
      rw [decoded] at matched
      cases matched
      exact ⟨n, rfl, rfl⟩

theorem not_accepted_smallInteger {sols : List (List UInt8)} :
    matchOp op OP_SMALLINTEGER sols ≠ .accepted result := by
  rw [matchOp, if_neg (by decide), if_neg (by decide), if_pos rfl]
  cases decodeOpN op.opcode <;> exact fun equal => by cases equal

/-- The parts of a script with several keys. -/
structure Parts (script : CScript) (nRequired : UInt8) (keys : List Valtype)
    (nKeys : UInt8) (pcKeys : CScript) : Prop where
  positive : 1 ≤ nRequired
  required : nRequired ≤ nKeys
  counted : keys.length = nKeys.toNat
  few : nKeys ≤ 16
  whole : script = (nRequired + (OP_1 - 1)) :: pcKeys
  pushed : Pushed pcKeys keys [nKeys + (OP_1 - 1), OP_CHECKMULTISIG]

theorem sub_add_smallInteger (opcode : UInt8) :
    opcode - (OP_1 - 1) + (OP_1 - 1) = opcode :=
  UInt8.sub_add_cancel _ _

theorem isMultisig_listed
    {m n : UInt8} {keys : List (List UInt8)}
    (isMulti : isMultisig ([m] :: (keys ++ [[n]])) = true) :
    1 ≤ m ∧ 1 ≤ n ∧ m ≤ n ∧ keys.length = n.toNat := by
  have lastListed : ([m] :: (keys ++ [[n]])).getLast?.bind List.head? = some n := by
    rw [← List.cons_append, List.getLast?_concat]
    rfl
  rw [isMultisig, lastListed] at isMulti
  change decide _ = true at isMulti
  rw [decide_eq_true_eq] at isMulti
  simpa using isMulti

/-- What `Solver` finds in a script with several keys. -/
theorem parts_of_solver
    (solved : solver script = some (.multisig, vSolutions)) :
    ∃ nRequired keys nKeys pcKeys,
      vSolutions = [nRequired] :: (keys ++ [[nKeys]]) ∧
        Parts script nRequired keys nKeys pcKeys := by
  rcases matchTemplate_of_solver solved (by decide) with
    ⟨template, listed, matched⟩
  have isMulti : isMultisig vSolutions = true := by
    rw [solver] at solved
    split_ifs at solved
    · cases solved
    · exact isMultisig_of_solverLoop solved
  simp only [mTemplates, List.mem_cons, Prod.mk.injEq, reduceCtorEq, false_and,
    true_and, false_or, or_false, List.not_mem_nil] at listed
  subst listed
  rw [matchTemplate] at matched
  cases parsed : Scan.getOp2 script with
  | none =>
      rw [parsed] at matched
      cases matched
  | some first =>
      rw [parsed] at matched
      dsimp only at matched
      rw [if_neg (by decide)] at matched
      split at matched
      · cases matched
      next accepted => exact absurd accepted not_accepted_smallInteger
      next sols continued =>
        rcases matchOp_smallInteger continued with ⟨nRequired, decoded, rfl⟩
        rw [List.nil_append, matchTemplate] at matched
        cases second : Scan.getOp2 first.pc with
        | none =>
            rw [second] at matched
            cases matched
        | some op =>
            rw [second] at matched
            dsimp only at matched
            rw [if_pos rfl] at matched
            cases taken : takePubKeys first.pc.length op [[nRequired]] with
            | mk last sols =>
                rw [taken] at matched
                split at matched
                · cases matched
                next accepted => exact absurd accepted not_accepted_smallInteger
                next more continued =>
                  rcases matchOp_smallInteger continued with
                    ⟨nKeys, decodedKeys, rfl⟩
                  have valid : last.opcode ≠ OP_INVALIDOPCODE := by
                    intro invalid
                    change decodeOpN last.opcode = some nKeys at decodedKeys
                    rw [invalid] at decodedKeys
                    cases decodedKeys
                  rcases pushed_of_takePubKeys second taken valid with
                    ⟨keys, end_, rfl, pushed, ended⟩
                  rcases matchTemplate_opcode matched (by decide) (by decide) with
                    ⟨rest, behind, endMatched⟩
                  rcases matchTemplate_nil endMatched with ⟨rfl, rfl⟩
                  rcases isMultisig_listed isMulti with
                    ⟨positive, positiveKeys, required, counted⟩
                  rcases eq_of_decodeOpN parsed decoded positive with
                    ⟨whole, -, -, number⟩
                  rcases eq_of_decodeOpN ended decodedKeys positiveKeys with
                    ⟨wholeEnd, low, high, numberKeys⟩
                  refine ⟨nRequired, keys, nKeys, first.pc, rfl,
                    ⟨positive, required, counted, ?_, ?_, ?_⟩⟩
                  · rw [UInt8.le_iff_toNat_le] at low high ⊢
                    rw [numberKeys, UInt8.toNat_sub_of_le _ _ (by
                      rw [UInt8.le_iff_toNat_le]
                      exact le_trans (by decide) low)]
                    have one : (OP_1 - 1).toNat = 80 := rfl
                    have sixteen : OP_16.toNat = 96 := rfl
                    have bound : (16 : UInt8).toNat = 16 := rfl
                    omega
                  · rw [number, sub_add_smallInteger]
                    exact whole
                  · rw [numberKeys, sub_add_smallInteger, ← behind, ← wholeEnd]
                    exact pushed

/-! ## Evaluating it -/

theorem length_le_of_pushed (pushed : Pushed pc keys end_) :
    pc.length ≤ 70 * keys.length + end_.length := by
  induction pushed with
  | nil => omega
  | cons parsed sized rest inductionHypothesis =>
      have read := length_le_of_scan parsed
      rw [List.length_cons]
      omega

/-- The keys are pushed one after another. -/
theorem exec_pushed
    {code : CScript} (pushed : Pushed pc keys end_)
    (short : 70 * keys.length + end_.length < 2 ^ 32)
    (fits : stack.length ≤ 1000) :
    (evalMachine args).exec ⟨pc, code, stack, [], [], 0⟩ = some final ↔
      keys.length + stack.length ≤ 1000 ∧
        (evalMachine args).exec ⟨end_, code, keys.reverse ++ stack, [], [], 0⟩ =
          some final := by
  induction pushed generalizing stack with
  | nil pc =>
      rw [List.length_nil, Nat.zero_add, and_iff_right fits]
      rfl
  | @cons pc end_ op keys parsed sized rest inductionHypothesis =>
      rw [List.length_cons] at short ⊢
      have behind := length_le_of_pushed rest
      have read := getOp2_of_scan parsed (by omega)
      have isPush : op.opcode ≤ OP_PUSHDATA4 :=
        isPush_of_operand read (List.ne_nil_of_length_pos (by omega))
      rw [exec_push read isPush (by omega), continueWith_eq_some]
      simp only [List.length_cons, List.length_nil]
      rw [List.reverse_cons, List.append_assoc, List.singleton_append]
      by_cases room : stack.length + 1 ≤ 1000
      · rw [inductionHypothesis (by omega) (by rw [List.length_cons]; exact room),
          List.length_cons, and_iff_right (by omega),
          show keys.length + (stack.length + 1) = keys.length + 1 + stack.length by
            omega]
      · exact iff_of_false (fun both => room both.1) fun both => by omega

/-- What `OP_CHECKMULTISIG` finds below the two numbers and the keys. -/
theorem readMultiSig_eq_some
    {nKeys nRequired : Nat} {operands : MultiSig} (counted : keys.length = nKeys)
    (required : nRequired ≤ nKeys) (few : nKeys ≤ 16) :
    readMultiSig nKeys (keys.reverse ++ getvch nRequired :: stack) =
        some operands ↔
      nRequired + 1 ≤ stack.length ∧
        operands = ⟨keys.reverse, stack.take nRequired, stack.drop (nRequired + 1)⟩ := by
  have reversed : keys.reverse.length = nKeys := by
    rw [List.length_reverse, counted]
  rw [readMultiSig, List.drop_left' reversed]
  dsimp only
  rw [castToBigNum_getvch (by omega), Option.bind_eq_bind, Option.bind_some,
    getint_natCast (by omega), if_neg (by omega), Int.toNat_natCast,
    List.take_left' reversed]
  split_ifs with short
  · exact iff_of_false (fun equal => by cases equal) fun both => by omega
  · rw [Option.some_inj, and_iff_right (by omega), eq_comm]

theorem evalScript_multisig
    {nRequired nKeys : UInt8} {pcKeys : CScript}
    (parts : Parts script nRequired keys nKeys pcKeys)
    (fits : stack.length ≤ 1000) :
    evalScript args stack script = some left ↔
      stack.length + keys.length + 2 ≤ 1000 ∧
        nRequired.toNat + 1 ≤ stack.length ∧
        boolVch (multiSigLoop
          (args.check (dropSignatures script (stack.take nRequired.toNat)))
          (stack.take nRequired.toNat) keys.reverse) ::
            stack.drop (nRequired.toNat + 1) = left := by
  have required := UInt8.le_iff_toNat_le.mp parts.required
  have few : nKeys.toNat ≤ 16 := UInt8.le_iff_toNat_le.mp parts.few
  have counted := parts.counted
  have behind := length_le_of_pushed parts.pushed
  simp only [List.length_cons, List.length_nil] at behind
  rcases operation_smallInteger parts.positive
    (UInt8.le_trans parts.required parts.few) with ⟨isRequired, above, below⟩
  rcases operation_smallInteger
    (UInt8.le_trans parts.positive parts.required) parts.few with
    ⟨isKeys, aboveKeys, belowKeys⟩
  rw [parts.whole, evalScript_of_le (by rw [List.length_cons]; omega),
    EvalState.start, exec_number isRequired above below, ← parts.whole,
    Option.bind_eq_some_iff]
  simp only [continueWith_eq_some, List.length_cons, List.length_nil]
  by_cases room : stack.length + 1 ≤ 1000
  swap
  · refine iff_of_false ?_ fun both => by omega
    rintro ⟨final, conditions, -⟩
    exact room conditions.1
  have unlock := fun final => @exec_pushed args pcKeys
    [nKeys + (OP_1 - 1), OP_CHECKMULTISIG] keys
    (getvch nRequired.toNat :: stack) final script parts.pushed
    (by simp only [List.length_cons, List.length_nil]; omega)
    (by rw [List.length_cons]; exact room)
  simp only [unlock, exec_number isKeys aboveKeys belowKeys, continueWith_eq_some,
    exec_operation (show OP_16 < OP_CHECKMULTISIG by decide)
      (show 0 < 201 by decide)
      (show OP_CHECKMULTISIG ∉ disabledOpcodes by decide),
    show operation OP_CHECKMULTISIG = .checkMultiSig false from rfl, execute,
    executeCheckMultiSig, castToBigNum_getvch few, Option.bind_eq_bind,
    Option.bind_some, getint_natCast few, Int.toNat_natCast]
  rw [if_neg (by omega), if_neg (by omega)]
  simp only [Option.bind_eq_some_iff, readMultiSig_eq_some counted required few]
  constructor
  · rintro ⟨final, ⟨-, -, keysFit, state, ⟨operands, ⟨enough, rfl⟩, last, answered,
      same⟩, continued⟩, finished⟩
    cases answered
    cases same
    rw [continueWith_eq_some, exec_nil, Option.some_inj] at continued
    rcases continued with ⟨-, rfl⟩
    cases finished
    simp only [List.length_append, List.length_cons, List.length_reverse]
      at keysFit
    exact ⟨by omega, enough, rfl⟩
  · rintro ⟨keysFit, enough, rfl⟩
    generalize answered : multiSigLoop
      (args.check (dropSignatures script (stack.take nRequired.toNat)))
      (stack.take nRequired.toNat) keys.reverse = fSuccess
    refine ⟨⟨[], script, boolVch fSuccess :: stack.drop (nRequired.toNat + 1), [],
      [], 0 + 1 + nKeys.toNat⟩, ⟨room, by simp only [List.length_cons]; omega, ?_,
      ⟨[], script, boolVch fSuccess :: stack.drop (nRequired.toNat + 1), [],
        [], 0 + 1 + nKeys.toNat⟩, ⟨_, ⟨enough, rfl⟩, _, rfl, ?_⟩, ?_⟩, rfl⟩
    · simp only [List.length_append, List.length_cons, List.length_reverse,
        List.length_nil]
      omega
    · rw [answered]
    · rw [continueWith_of_le, exec_nil]
      simp only [List.length_cons, List.length_drop, List.length_nil]
      omega

/-- A script with several keys does not pay to the hash of a script. -/
theorem notScriptHash_of_parts
    {nRequired nKeys : UInt8} {pcKeys : CScript}
    (parts : Parts script nRequired keys nKeys pcKeys) :
    Scan.isPayToScriptHash script = false := by
  rcases operation_smallInteger parts.positive
    (UInt8.le_trans parts.required parts.few) with ⟨-, -, low⟩
  rw [parts.whole, Scan.isPayToScriptHash, decide_eq_false_iff_not]
  rintro ⟨-, isHash, -⟩
  have same : nRequired + (OP_1 - 1) = OP_HASH160 := Option.some_inj.mp isHash
  rw [same] at low
  exact absurd low (by decide)

/--
An output that `Solver` takes to have several keys is spent exactly by the
scripts that leave, above one element that nobody looks at, as many signatures
as are required, each verified by a key of its own, in the order of the keys.
-/
theorem verifyScript_multisig
    (args : EvalArgs) (scriptSig scriptPubKey : CScript)
    (vSolutions : List (List UInt8))
    (solved : solver scriptPubKey = some (.multisig, vSolutions)) :
    verifyScript args scriptSig scriptPubKey = .ok true ↔
      ∃ nRequired keys nKeys sigs dummy rest,
        vSolutions = [nRequired] :: (keys ++ [[nKeys]]) ∧
          evalScript args [] scriptSig = some (sigs.reverse ++ dummy :: rest) ∧
          sigs.length = nRequired.toNat ∧
          rest.length + sigs.length + keys.length + 3 ≤ 1000 ∧
          Matches (args.check (dropSignatures scriptPubKey sigs.reverse)) sigs
            keys := by
  rcases parts_of_solver solved with ⟨nRequired, keys, nKeys, pcKeys, rfl, parts⟩
  have required := UInt8.le_iff_toNat_le.mp parts.required
  have counted := parts.counted
  rw [verifyScript_of_other (notScriptHash_of_parts parts)]
  constructor
  · rintro ⟨stack, left, evaluated, locked, isTrue⟩
    have fits := (bounded_evalScript (Nat.zero_le _) small_nil evaluated).1
    rcases (evalScript_multisig parts fits).mp locked with ⟨room, enough, rfl⟩
    rw [topIsTrue_boolVch] at isTrue
    have taken : (stack.take nRequired.toNat).length = nRequired.toNat := by
      rw [List.length_take]
      omega
    have dropped := List.drop_eq_getElem_cons (show nRequired.toNat < stack.length by
      omega)
    refine ⟨nRequired, keys, nKeys, (stack.take nRequired.toNat).reverse,
      stack[nRequired.toNat], stack.drop (nRequired.toNat + 1), rfl, ?_, ?_, ?_, ?_⟩
    · rw [List.reverse_reverse, ← dropped, List.take_append_drop]
      exact evaluated
    · rw [List.length_reverse, taken]
    · rw [List.length_reverse, taken, List.length_drop]
      omega
    · rw [List.reverse_reverse, ← matches_reverse, List.reverse_reverse,
        ← greedy_eq_true, ← multiSigLoop_eq_greedy]
      · exact isTrue
      · rw [taken, List.length_reverse]
        omega
  · rintro ⟨m, others, n, sigs, dummy, rest, same, evaluated, number, room,
      verified⟩
    rcases List.cons.inj same with ⟨sameRequired, sameKeys⟩
    cases sameRequired
    rcases List.append_inj' sameKeys rfl with ⟨rfl, -⟩
    have taken : (sigs.reverse ++ dummy :: rest).take nRequired.toNat =
        sigs.reverse :=
      List.take_left' (by rw [List.length_reverse, number])
    have dropped : (sigs.reverse ++ dummy :: rest).drop (nRequired.toNat + 1) =
        rest := by
      rw [← List.drop_drop, List.drop_left' (by rw [List.length_reverse, number])]
      rfl
    have size : (sigs.reverse ++ dummy :: rest).length = sigs.length + rest.length + 1 := by
      rw [List.length_append, List.length_reverse, List.length_cons]
      omega
    refine ⟨_, _, evaluated, (evalScript_multisig parts (by omega)).mpr
      ⟨by omega, by omega, rfl⟩, ?_⟩
    rw [topIsTrue_boolVch, taken, multiSigLoop_eq_greedy, greedy_eq_true,
      matches_reverse]
    · exact verified
    · rw [List.length_reverse, List.length_reverse]
      omega

/-- One signature for one key. -/
theorem verifyScript_multisig_generator :
    verifyScript (sampleArgs 0) [0x00, 0x01, 0x01]
      (OP_1 :: 0x21 :: (generator ++ [OP_1, OP_CHECKMULTISIG])) = .ok true :=
  (verifyScript_multisig (sampleArgs 0) _ _ [[1], generator, [1]] (by decide)).mpr
    ⟨1, [generator], 1, [[0x01]], [], [], rfl, by decide, rfl, by decide,
      [generator], List.Sublist.refl _,
      List.Forall₂.cons (by decide) List.Forall₂.nil⟩

end DSValue.Script.MultiSig
