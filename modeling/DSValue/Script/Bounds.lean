import DSValue.Script.Execution

/-!
# What evaluating a script can use

The stacks hold at most a thousand elements of at most 520 bytes, and at most
201 operations count.  The loop checks the pushes and the number of elements
only; that nothing else grows an element follows from what the operations
leave: numbers of at most five bytes, hashes and copies.
-/

namespace DSValue.Script.Bounds

open DSValue.Lib
open DSValue.Script.Scan hiding getOp2 getOp2_length
open DSValue.Script.PushCodec (getOp2 getOp2_length)
open DSValue.Script.Number
open DSValue.Script.Interpreter
open DSValue.Script.Execution

variable {args : EvalArgs} {hashes : Hashes} {stack result : List Valtype}
  {vch : Valtype} {state next fetched : EvalState} {script : CScript} {op : ParsedOp}

/-- No element is larger than what may be pushed. -/
def Small (stack : List Valtype) : Prop := ∀ vch ∈ stack, vch.length ≤ 520

@[simp]
theorem small_nil : Small [] := fun _ listed => by cases listed

@[simp]
theorem small_cons : Small (vch :: stack) ↔ vch.length ≤ 520 ∧ Small stack :=
  List.forall_mem_cons

theorem Small.of_subset (small : Small stack) (subset : result ⊆ stack) :
    Small result :=
  fun vch listed => small vch (subset listed)

theorem small_append {others : List Valtype} :
    Small (stack ++ others) ↔ Small stack ∧ Small others :=
  List.forall_mem_append

/-! ## What operations leave -/

theorem length_number_le {bn : Int} (small : bn.natAbs < 2 ^ 39) :
    (getvch bn).length ≤ 520 :=
  (length_getvch_le small).trans (by decide)

theorem length_boolVch_le (value : Bool) : (boolVch value).length ≤ 520 := by
  cases value <;> decide

theorem natAbs_ofBool_le (value : Bool) : (ofBool value).natAbs ≤ 1 := by
  cases value <;> decide

theorem natAbs_unary_lt
    {bn : Int} (op : UnaryOp) (cast : castToBigNum vch = some bn) :
    (op.apply bn).natAbs < 2 ^ 39 := by
  have small := natAbs_lt_of_cast cast
  cases op with
  | add1 | sub1 | negate =>
      rw [UnaryOp.apply]
      omega
  | abs =>
      rw [UnaryOp.apply]
      split_ifs <;> omega
  | not | notEqual0 => exact Nat.lt_of_le_of_lt (natAbs_ofBool_le _) (by decide)

theorem natAbs_binary_lt
    {bn1 bn2 : Int} {vch1 vch2 : Valtype} (op : BinaryOp)
    (cast1 : castToBigNum vch1 = some bn1) (cast2 : castToBigNum vch2 = some bn2) :
    (op.apply bn1 bn2).natAbs < 2 ^ 39 := by
  have small1 := natAbs_lt_of_cast cast1
  have small2 := natAbs_lt_of_cast cast2
  cases op with
  | add | sub =>
      rw [BinaryOp.apply]
      omega
  | min | max =>
      rw [BinaryOp.apply]
      split_ifs <;> omega
  | boolAnd | boolOr | numEqual | numNotEqual | lessThan | greaterThan
  | lessThanOrEqual | greaterThanOrEqual =>
      exact Nat.lt_of_le_of_lt (natAbs_ofBool_le _) (by decide)

theorem length_hash_le (op : HashOp) : (op.apply hashes vch).length ≤ 520 := by
  cases op <;> simp [HashOp.apply]

/-- An operation on the stack leaves small elements. -/
theorem small_apply
    {stackOp : StackOp} (small : Small stack) (few : stack.length ≤ 1000)
    (number : ∀ n, stackOp = .number n → n.natAbs < 2 ^ 39)
    (applied : stackOp.apply hashes stack = some result) : Small result := by
  unfold StackOp.apply at applied
  split at applied
  case h_1 n =>
    cases applied
    exact small_cons.mpr ⟨length_number_le (number n rfl), small⟩
  case h_2 =>
    cases applied
    exact small
  -- The operations that move or copy elements.
  case h_4 | h_5 | h_6 | h_7 | h_8 | h_9 | h_12 | h_13 | h_14 | h_15 | h_18 | h_19
  | h_20 =>
    cases applied
    simp only [small_cons] at small ⊢
    tauto
  case h_3 | h_23 =>
    split_ifs at applied
    cases applied
    simp only [small_cons] at small
    tauto
  case h_10 =>
    cases applied
    split_ifs
    · exact small_cons.mpr ⟨(small_cons.mp small).1, small⟩
    · exact small
  case h_11 =>
    cases applied
    refine small_cons.mpr ⟨length_number_le ?_, small⟩
    rw [Int.natAbs_natCast]
    exact Nat.lt_of_le_of_lt few (by decide)
  case h_16 | h_17 =>
    rcases Option.bind_eq_some_iff.mp applied with ⟨bn, -, applied⟩
    dsimp only at applied
    split_ifs at applied
    rcases Option.bind_eq_some_iff.mp applied with ⟨vch, found, applied⟩
    cases applied
    have rest := (small_cons.mp small).2
    have chosen := rest vch (List.mem_of_getElem? found)
    first
    | exact small_cons.mpr ⟨chosen, rest⟩
    | exact small_cons.mpr
        ⟨chosen, rest.of_subset (List.eraseIdx_sublist _ _).subset⟩
  case h_21 =>
    cases applied
    refine small_cons.mpr ⟨length_number_le ?_, small⟩
    rw [Int.natAbs_natCast]
    exact Nat.lt_of_le_of_lt (small_cons.mp small).1 (by decide)
  case h_22 =>
    cases applied
    simp only [small_cons] at small ⊢
    exact ⟨length_boolVch_le _, small.2.2⟩
  case h_24 =>
    rcases Option.bind_eq_some_iff.mp applied with ⟨bn, cast, applied⟩
    cases applied
    exact small_cons.mpr
      ⟨length_number_le (natAbs_unary_lt _ cast), (small_cons.mp small).2⟩
  case h_25 =>
    rcases Option.bind_eq_some_iff.mp applied with ⟨bn1, cast1, applied⟩
    rcases Option.bind_eq_some_iff.mp applied with ⟨bn2, cast2, applied⟩
    cases applied
    simp only [small_cons] at small ⊢
    exact ⟨length_number_le (natAbs_binary_lt _ cast1 cast2), small.2.2⟩
  case h_26 =>
    rcases Option.bind_eq_some_iff.mp applied with ⟨bn1, -, applied⟩
    rcases Option.bind_eq_some_iff.mp applied with ⟨bn2, -, applied⟩
    split_ifs at applied
    cases applied
    exact (small_cons.mp (small_cons.mp small).2).2
  case h_27 =>
    rcases Option.bind_eq_some_iff.mp applied with ⟨bn1, -, applied⟩
    rcases Option.bind_eq_some_iff.mp applied with ⟨bn2, -, applied⟩
    rcases Option.bind_eq_some_iff.mp applied with ⟨bn3, -, applied⟩
    cases applied
    simp only [small_cons] at small ⊢
    exact ⟨length_boolVch_le _, small.2.2.2⟩
  case h_28 =>
    cases applied
    exact small_cons.mpr ⟨length_hash_le _, (small_cons.mp small).2⟩
  case h_29 => cases applied

/-! ## What holds between two rounds -/

/-- What the `switch` can find. -/
theorem operation_cases (opcode : UInt8) :
    (∃ n : Int, n.natAbs < 2 ^ 39 ∧ operation opcode = .onStack (.number n)) ∨
      operation opcode = .onStack .nop ∨ operation opcode = .invalid ∨
      (opcode, operation opcode) ∈ operations := by
  rw [operation]
  split_ifs
  · have small := opcode.toNat_lt
    refine Or.inl ⟨_, ?_, rfl⟩
    rw [show OP_1.toNat = 81 from rfl]
    omega
  · exact Or.inr (Or.inl rfl)
  · cases found : operations.lookup opcode with
    | none => exact Or.inr (Or.inr (Or.inl rfl))
    | some entry =>
        rcases List.lookup_eq_some_iff.mp found with ⟨before, behind, listed, -⟩
        refine Or.inr (Or.inr (Or.inr ?_))
        rw [listed]
        exact List.mem_append_right _ List.mem_cons_self

/-- An operation that pushes a number. -/
def isNumber : Operation → Bool
  | .onStack (.number _) => true
  | _ => false

/-- An operation that opens a condition. -/
def opensCondition : Operation → Bool
  | .opIf _ => true
  | _ => false

theorem operations_not_number : ∀ entry ∈ operations, isNumber entry.2 = false := by
  decide

theorem operations_opensCondition :
    ∀ entry ∈ operations, opensCondition entry.2 = true → OP_16 < entry.1 := by
  decide

/-- The numbers that opcodes push are small. -/
theorem natAbs_number_lt
    {opcode : UInt8} {n : Int} (isOp : operation opcode = .onStack (.number n)) :
    n.natAbs < 2 ^ 39 := by
  rcases operation_cases opcode with ⟨m, small, isNumber⟩ | isNop | invalid | listed
  · rw [isOp] at isNumber
    cases isNumber
    exact small
  · rw [isOp] at isNop
    cases isNop
  · rw [isOp] at invalid
    cases invalid
  · have other := operations_not_number _ listed
    rw [isOp] at other
    cases other

/-- A condition is opened by an operation that counts. -/
theorem counted_of_opIf
    {opcode : UInt8} {negated : Bool} (isOp : operation opcode = .opIf negated) :
    OP_16 < opcode := by
  rcases operation_cases opcode with ⟨n, -, isNumber⟩ | isNop | invalid | listed
  · rw [isOp] at isNumber
    cases isNumber
  · rw [isOp] at isNop
    cases isNop
  · rw [isOp] at invalid
    cases invalid
  · exact operations_opensCondition _ listed (by rw [isOp]; rfl)

/-- What every round keeps. -/
structure Bounded (script : CScript) (state : EvalState) : Prop where
  few : state.stack.length + state.altstack.length ≤ 1000
  small : Small state.stack
  smallAlt : Small state.altstack
  counted : state.nOpCount ≤ 201
  nested : state.vfExec.length ≤ state.nOpCount
  pc : state.pc <:+ script
  pbegincodehash : state.pbegincodehash <:+ script

theorem bounded_start
    (few : stack.length ≤ 1000) (small : Small stack) :
    Bounded script (EvalState.start stack script) where
  few := few
  small := small
  smallAlt := small_nil
  counted := Nat.zero_le _
  nested := Nat.zero_le _
  pc := List.suffix_refl _
  pbegincodehash := List.suffix_refl _

theorem small_answer
    {verify fSuccess : Bool} (small : Small stack)
    (answered : answer verify fSuccess stack = some result) : Small result := by
  rw [answer] at answered
  split_ifs at answered <;> cases answered
  · exact small
  · exact small_cons.mpr ⟨length_boolVch_le _, small⟩

theorem readMultiSig_rest_subset
    {nKeysCount : Nat} {operands : MultiSig}
    (read : readMultiSig nKeysCount stack = some operands) :
    operands.rest ⊆ stack := by
  rw [readMultiSig] at read
  split at read
  · cases read
  next count below dropped =>
    rcases Option.bind_eq_some_iff.mp read with ⟨bn, -, read⟩
    dsimp only at read
    split_ifs at read
    cases read
    have kept : below ⊆ stack := fun vch listed =>
      List.mem_of_mem_drop (dropped ▸ List.mem_cons_of_mem count listed)
    exact List.Subset.trans (List.drop_subset _ _) kept

/-- The stacks an operation leaves, but for the number of their elements. -/
theorem small_execute
    {operation : Operation} (small : Small state.stack)
    (smallAlt : Small state.altstack) (few : state.stack.length ≤ 1000)
    (number : ∀ n, operation = .onStack (.number n) → n.natAbs < 2 ^ 39)
    (executed : execute args operation state = some next) :
    Small next.stack ∧ Small next.altstack := by
  cases operation with
  | onStack stackOp =>
      rcases Option.map_eq_some_iff.mp executed with ⟨stack, applied, rfl⟩
      exact ⟨small_apply small few (fun n same => number n (same ▸ rfl)) applied,
        smallAlt⟩
  | opIf negated =>
      rw [execute, executeIf] at executed
      split_ifs at executed
      · split at executed
        · cases executed
        next vch stack held =>
          cases executed
          exact ⟨small.of_subset (held ▸ List.subset_cons_self _ _), smallAlt⟩
      · cases executed
        exact ⟨small, smallAlt⟩
  | opElse | opEndIf =>
      rw [execute] at executed
      split at executed <;> cases executed
      exact ⟨small, smallAlt⟩
  | toAltStack =>
      rw [execute] at executed
      split at executed
      · cases executed
      next vch stack held =>
        cases executed
        rw [held] at small
        rcases small_cons.mp small with ⟨moved, small⟩
        exact ⟨small, small_cons.mpr ⟨moved, smallAlt⟩⟩
  | fromAltStack =>
      rw [execute] at executed
      split at executed
      · cases executed
      next vch altstack held =>
        cases executed
        rw [held] at smallAlt
        rcases small_cons.mp smallAlt with ⟨moved, smallAlt⟩
        exact ⟨small_cons.mpr ⟨moved, small⟩, smallAlt⟩
  | codeSeparator =>
      cases executed
      exact ⟨small, smallAlt⟩
  | checkSig verify =>
      rw [execute, executeCheckSig] at executed
      split at executed
      next vchPubKey vchSig stack held =>
        rcases Option.bind_eq_some_iff.mp executed with ⟨left, answered, same⟩
        cases same
        rw [held] at small
        simp only [small_cons] at small
        exact ⟨small_answer small.2.2 answered, smallAlt⟩
      · cases executed
  | checkMultiSig verify =>
      rw [execute, executeCheckMultiSig] at executed
      split at executed
      · cases executed
      next count stack held =>
        rcases Option.bind_eq_some_iff.mp executed with ⟨bn, -, executed⟩
        dsimp only at executed
        split_ifs at executed
        rcases Option.bind_eq_some_iff.mp executed with ⟨operands, read, executed⟩
        rcases Option.bind_eq_some_iff.mp executed with ⟨left, answered, same⟩
        cases same
        rw [held] at small
        have rest := (small_cons.mp small).2.of_subset (readMultiSig_rest_subset read)
        exact ⟨small_answer rest answered, smallAlt⟩
  | lotto =>
      rcases Option.map_eq_some_iff.mp executed with ⟨operand, -, rfl⟩
      exact ⟨small, smallAlt⟩
  | invalid => cases executed

/-- What an operation does to the rest of the state. -/
theorem frame_execute
    {operation : Operation} (counted : state.nOpCount ≤ 201)
    (nested : state.vfExec.length ≤ state.nOpCount)
    (opens : opensCondition operation = true →
      state.vfExec.length < state.nOpCount)
    (code : state.pbegincodehash <:+ script) (rest : state.pc <:+ script)
    (executed : execute args operation state = some next) :
    next.nOpCount ≤ 201 ∧ next.vfExec.length ≤ next.nOpCount ∧
      next.pc <:+ script ∧ next.pbegincodehash <:+ script := by
  cases operation with
  | onStack stackOp =>
      rcases Option.map_eq_some_iff.mp executed with ⟨stack, -, rfl⟩
      exact ⟨counted, nested, rest, code⟩
  | opIf negated =>
      have deeper := opens rfl
      rw [execute, executeIf] at executed
      split_ifs at executed
      · split at executed <;> cases executed
        exact ⟨counted, deeper, rest, code⟩
      · cases executed
        exact ⟨counted, deeper, rest, code⟩
  | opElse | opEndIf =>
      rw [execute] at executed
      split at executed
      · cases executed
      next fValue vfExec held =>
        cases executed
        rw [held, List.length_cons] at nested
        exact ⟨counted, by simp only [List.length_cons]; omega, rest, code⟩
  | toAltStack | fromAltStack =>
      rw [execute] at executed
      split at executed <;> cases executed
      exact ⟨counted, nested, rest, code⟩
  | codeSeparator =>
      cases executed
      exact ⟨counted, nested, rest, rest⟩
  | checkSig verify =>
      rw [execute, executeCheckSig] at executed
      split at executed
      · rcases Option.bind_eq_some_iff.mp executed with ⟨left, -, same⟩
        cases same
        exact ⟨counted, nested, rest, code⟩
      · cases executed
  | checkMultiSig verify =>
      rw [execute, executeCheckMultiSig] at executed
      split at executed
      · cases executed
      · rcases Option.bind_eq_some_iff.mp executed with ⟨bn, -, executed⟩
        dsimp only at executed
        split_ifs at executed with _ many
        rcases Option.bind_eq_some_iff.mp executed with ⟨operands, -, executed⟩
        rcases Option.bind_eq_some_iff.mp executed with ⟨left, -, same⟩
        cases same
        exact ⟨Nat.le_of_not_lt many, nested.trans (Nat.le_add_right _ _), rest,
          code⟩
  | lotto =>
      rcases Option.map_eq_some_iff.mp executed with ⟨operand, parsed, rfl⟩
      exact ⟨counted, nested,
        (CodeSeparators.getOp2_suffix parsed).trans rest, code⟩
  | invalid => cases executed

/-- Reading an operation keeps the bounds. -/
theorem Bounded.fetch
    (bounded : Bounded script state) (read : fetch state = some (op, fetched)) :
    Bounded script fetched := by
  rcases fetch_eq_some.mp read with ⟨parsed, -, few, -, rfl⟩
  have counted := bounded.counted
  have nested := bounded.nested
  have within := of_decide_eq_false few
  refine
    { bounded with
      counted := ?_
      nested := ?_
      pc := (CodeSeparators.getOp2_suffix parsed).trans bounded.pc }
  · dsimp only [countOp]
    split_ifs with counts
    · exact Nat.le_of_not_lt fun many => within ⟨counts, many⟩
    · exact counted
  · dsimp only [countOp]
    split_ifs <;> omega

/-- A condition that is opened was counted when it was read. -/
theorem lt_of_opensCondition
    (bounded : Bounded script state) (read : fetch state = some (op, fetched))
    (opens : opensCondition (operation op.opcode) = true) :
    fetched.vfExec.length < fetched.nOpCount := by
  rcases fetch_eq_some.mp read with ⟨-, -, -, -, rfl⟩
  cases isOp : operation op.opcode with
  | opIf negated =>
      dsimp only
      rw [countOp, if_pos (counted_of_opIf isOp)]
      exact Nat.lt_succ_of_le bounded.nested
  | _ =>
      rw [isOp] at opens
      cases opens

/-- Every round keeps the bounds. -/
theorem Bounded.step
    (bounded : Bounded script state) (taken : step args state = some next) :
    Bounded script next := by
  rcases step_eq_some.mp taken with ⟨op, fetched, read, executed, fits⟩
  have after := bounded.fetch read
  have opens := lt_of_opensCondition bounded read
  have short : op.vchRet.length ≤ 520 := (fetch_eq_some.mp read).2.1
  rw [dispatch] at executed
  split_ifs at executed
  · cases executed
    exact
      { after with
        few := of_decide_eq_true fits
        small := small_cons.mpr ⟨short, after.small⟩ }
  · have few := (Nat.le_add_right _ _).trans after.few
    rcases small_execute after.small after.smallAlt few
      (fun n => natAbs_number_lt) executed with ⟨small, smallAlt⟩
    rcases frame_execute after.counted after.nested opens after.pbegincodehash
      after.pc executed with ⟨counted, nested, pc, pbegincodehash⟩
    exact ⟨of_decide_eq_true fits, small, smallAlt, counted, nested, pc,
      pbegincodehash⟩
  · cases executed
    exact after

theorem Bounded.reaches
    (bounded : Bounded script state)
    (reaches : (evalMachine args).Reaches state next) : Bounded script next :=
  reaches.invariant bounded fun _ _ => Bounded.step

/-- A script that succeeds leaves a stack that another one can start from. -/
theorem bounded_evalScript
    (few : stack.length ≤ 1000) (small : Small stack)
    (evaluated : evalScript args stack script = some result) :
    result.length ≤ 1000 ∧ Small result := by
  rcases evalScript_eq_some.mp evaluated with ⟨-, last, reaches, -, -, rfl⟩
  have bounded := (bounded_start few small).reaches reaches
  exact ⟨(Nat.le_add_right _ _).trans bounded.few, bounded.small⟩

/-- The evaluations that `VerifyScript` makes. -/
inductive Evaluates (args : EvalArgs) (scriptSig scriptPubKey : CScript) :
    (stack : List Valtype) → (script : CScript) → Prop where
  | signature : Evaluates args scriptSig scriptPubKey [] scriptSig
  | pubKey {stack : List Valtype}
      (evaluated : evalScript args [] scriptSig = some stack) :
      Evaluates args scriptSig scriptPubKey stack scriptPubKey
  | subscript {pubKeySerialized : Valtype} {stack : List Valtype}
      (evaluated : evalScript args [] scriptSig = some (pubKeySerialized :: stack)) :
      Evaluates args scriptSig scriptPubKey stack pubKeySerialized

/--
Whatever the two scripts are, in every round of every evaluation that
`VerifyScript` makes the limits hold.
-/
theorem verifyScript_bounded
    (args : EvalArgs) (scriptSig scriptPubKey : CScript) (stack : List Valtype)
    (script : CScript) (state : EvalState)
    (evaluates : Evaluates args scriptSig scriptPubKey stack script)
    (reaches : (evalMachine args).Reaches (EvalState.start stack script) state) :
    Bounded script state := by
  refine Bounded.reaches ?_ reaches
  cases evaluates with
  | signature => exact bounded_start (Nat.zero_le _) small_nil
  | pubKey evaluated =>
      rcases bounded_evalScript (Nat.zero_le _) small_nil evaluated with ⟨few, small⟩
      exact bounded_start few small
  | subscript evaluated =>
      rcases bounded_evalScript (Nat.zero_le _) small_nil evaluated with ⟨few, small⟩
      exact bounded_start (Nat.le_of_succ_le few) (small_cons.mp small).2

/-- The limits hold behind a push. -/
theorem verifyScript_bounded_push :
    Bounded [0x01, 0x07] ⟨[], [0x01, 0x07], [[0x07]], [], [], 0⟩ :=
  verifyScript_bounded
    ⟨⟨⟨fun _ => Vector.replicate 20 0, fun _ => Vector.replicate 20 0,
        fun _ => Vector.replicate 32 0⟩, fun _ _ _ => false⟩,
      ⟨1, [], [], 0⟩, 0, 0, 0⟩
    [0x01, 0x07] [] [] [0x01, 0x07] _ Evaluates.signature
    (Machine.Reaches.head rfl (Machine.Reaches.refl _))

end DSValue.Script.Bounds
