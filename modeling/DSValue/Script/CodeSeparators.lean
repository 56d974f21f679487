import DSValue.Script.PushCodec

/-!
# Removing code separators

`FindAndDelete` edits a script: at the start of every operation it erases the
bytes it was given, as often as they stand there.  `SerializeScriptCode`
leaves the script alone and writes the pieces between the operations
`OP_CODESEPARATOR`.  On a script that `GetOp` parses to its end both give the
operations other than `OP_CODESEPARATOR`, with what they push.
-/

namespace DSValue.Script.CodeSeparators

open DSValue.Core.Serialize
open DSValue.Script.Scan (CScript ParsedOp readPushSize OP_PUSHDATA4)
open DSValue.Script.PushCodec

def OP_CODESEPARATOR : UInt8 := 0xab

/-! ## `FindAndDelete` -/

/-- The bytes are erased as often as the script goes on with them. -/
def eraseAll (b pc : CScript) (nFound : Int32) : CScript × Int32 :=
  if b ≠ [] ∧ b.length ≤ pc.length ∧ pc.take b.length = b then
    eraseAll b (pc.drop b.length) (nFound + 1)
  else (pc, nFound)
termination_by pc.length
decreasing_by
  rename_i erases
  have nonempty := List.length_pos_iff.mpr erases.1
  rw [List.length_drop]
  omega

theorem length_eraseAll_le (b pc : CScript) (nFound : Int32) :
    (eraseAll b pc nFound).1.length ≤ pc.length := by
  fun_induction eraseAll b pc nFound with
  | case1 pc nFound _ inductionHypothesis =>
      rw [List.length_drop] at inductionHypothesis
      omega
  | case2 => exact le_refl _

/-- The loop of `FindAndDelete`, with what is left in front of `pc`. -/
def deleteLoop (b done pc : CScript) (nFound : Int32) : CScript × Int32 :=
  let erased := eraseAll b pc nFound
  match _ : getOp2 erased.1 with
  | none => (done ++ erased.1, erased.2)
  | some op =>
      deleteLoop b
        (done ++ erased.1.take (erased.1.length - op.pc.length)) op.pc erased.2
termination_by pc.length
decreasing_by
  rename_i parsed
  exact (getOp2_length parsed).trans_le (length_eraseAll_le b pc nFound)

/-- `CScript::FindAndDelete`. -/
def findAndDelete (script b : CScript) : CScript × Int32 :=
  if b.isEmpty then (script, 0) else deleteLoop b [] script 0

/-! ## `SerializeScriptCode` -/

/-- The first loop counts. -/
def countSeparators (it : CScript) (nCodeSeparators : UInt32) : UInt32 :=
  match _ : getOp2 it with
  | none => nCodeSeparators
  | some op =>
      countSeparators op.pc
        (if op.opcode = OP_CODESEPARATOR then nCodeSeparators + 1
        else nCodeSeparators)
termination_by it.length
decreasing_by
  rename_i parsed
  exact getOp2_length parsed

/-- Where a `GetOp` that fails leaves its position. -/
def stopPosition : CScript → CScript
  | [] => []
  | opcode :: pc =>
      match readPushSize opcode pc with
      | none => pc
      | some (_, operand) => operand

/-- The second loop writes the pieces from `itBegin` on. -/
def writePieces (itBegin it : CScript) : List UInt8 :=
  match _ : getOp2 it with
  | none => itBegin.take (itBegin.length - (stopPosition it).length)
  | some op =>
      if op.opcode = OP_CODESEPARATOR then
        itBegin.take (itBegin.length - op.pc.length - 1) ++
          writePieces op.pc op.pc
      else writePieces itBegin op.pc
termination_by it.length
decreasing_by
  all_goals
    rename_i parsed _
    exact getOp2_length parsed

/-- `CTransactionSignatureSerializer::SerializeScriptCode`. -/
def serializeScriptCode (scriptCode : CScript) : List UInt8 :=
  writeCompactSize
      (UInt64.ofNat scriptCode.length -
        (countSeparators scriptCode 0).toUInt64) ++
    writePieces scriptCode scriptCode

/-! ## The operations that stay -/

/-- `GetOp` parses a script to its end. -/
inductive Parses : CScript → Prop where
  | nil : Parses []
  | cons {script : CScript} {op : ParsedOp} (parsed : getOp2 script = some op)
      (rest : Parses op.pc) : Parses script

/-- A script without its operations `OP_CODESEPARATOR`. -/
def withoutSeparators (script : CScript) : CScript :=
  match _ : getOp2 script with
  | none => script
  | some op =>
      if op.opcode = OP_CODESEPARATOR then withoutSeparators op.pc
      else
        script.take (script.length - op.pc.length) ++ withoutSeparators op.pc
termination_by script.length
decreasing_by
  all_goals
    rename_i parsed _
    exact getOp2_length parsed

/-- The number of operations `OP_CODESEPARATOR`. -/
def separators (script : CScript) : Nat :=
  match _ : getOp2 script with
  | none => 0
  | some op =>
      separators op.pc + if op.opcode = OP_CODESEPARATOR then 1 else 0
termination_by script.length
decreasing_by
  rename_i parsed
  exact getOp2_length parsed

variable {script pc it itBegin : CScript} {op : ParsedOp} {nFound : Int32}

theorem withoutSeparators_stop (stops : getOp2 script = none) :
    withoutSeparators script = script := by
  rw [withoutSeparators]
  split
  · rfl
  next parsed =>
    rw [stops] at parsed
    cases parsed

theorem withoutSeparators_op (parsed : getOp2 script = some op) :
    withoutSeparators script =
      if op.opcode = OP_CODESEPARATOR then withoutSeparators op.pc
      else
        script.take (script.length - op.pc.length) ++
          withoutSeparators op.pc := by
  rw [withoutSeparators]
  split
  next stops =>
    rw [stops] at parsed
    cases parsed
  next other isOther =>
    cases parsed.symm.trans isOther
    rfl

theorem separators_op (parsed : getOp2 script = some op) :
    separators script =
      separators op.pc + if op.opcode = OP_CODESEPARATOR then 1 else 0 := by
  rw [separators]
  split
  next stops =>
    rw [stops] at parsed
    cases parsed
  next other isOther =>
    cases parsed.symm.trans isOther
    rfl

theorem writePieces_op (parsed : getOp2 it = some op) :
    writePieces itBegin it =
      if op.opcode = OP_CODESEPARATOR then
        itBegin.take (itBegin.length - op.pc.length - 1) ++
          writePieces op.pc op.pc
      else writePieces itBegin op.pc := by
  rw [writePieces]
  split
  next stops =>
    rw [stops] at parsed
    cases parsed
  next other isOther =>
    cases parsed.symm.trans isOther
    rfl

/-! ## One operation -/

theorem readPushSize_suffix
    {opcode : UInt8} {nSize : Nat} {operand : CScript}
    (read : readPushSize opcode pc = some (nSize, operand)) : operand <:+ pc := by
  have field :
      ∀ width, Scan.readSizeField width pc = some (nSize, operand) →
        operand <:+ pc := by
    intro width fieldRead
    rw [Scan.readSizeField] at fieldRead
    split_ifs at fieldRead
    cases fieldRead
    exact List.drop_suffix _ _
  rw [readPushSize] at read
  split_ifs at read
  · cases read
    exact List.suffix_refl _
  · exact field 1 read
  · exact field 2 read
  · exact field 4 read

theorem getOp2_suffix (parsed : getOp2 script = some op) : op.pc <:+ script := by
  cases script with
  | nil => cases parsed
  | cons opcode pc =>
      rw [getOp2] at parsed
      split_ifs at parsed
      · cases read : readPushSize opcode pc with
        | none =>
            rw [read] at parsed
            cases parsed
        | some sized =>
            rw [read] at parsed
            dsimp only at parsed
            split_ifs at parsed
            cases parsed
            exact (List.drop_suffix _ _).trans
              ((readPushSize_suffix read).trans (List.suffix_cons _ _))
      · cases parsed
        exact List.suffix_cons _ _

theorem getOp2_separator (pc : CScript) :
    getOp2 (OP_CODESEPARATOR :: pc) = some ⟨OP_CODESEPARATOR, [], pc⟩ := by
  rw [getOp2, if_neg (by decide)]

/-- A separator is one byte. -/
theorem eq_cons_of_separator
    (parsed : getOp2 script = some op) (isSeparator : op.opcode = OP_CODESEPARATOR) :
    script = OP_CODESEPARATOR :: op.pc := by
  cases script with
  | nil => cases parsed
  | cons opcode pc =>
      have same : opcode = op.opcode := by
        rw [getOp2] at parsed
        split_ifs at parsed
        · cases read : readPushSize opcode pc with
          | none =>
              rw [read] at parsed
              cases parsed
          | some sized =>
              rw [read] at parsed
              dsimp only at parsed
              split_ifs at parsed
              cases parsed
              rfl
        · cases parsed
          rfl
      rw [same, isSeparator, getOp2_separator] at parsed
      cases parsed
      rw [same, isSeparator]

/-! ## Both versions remove the separators -/

/-- At a separator the bytes are erased, elsewhere the erasing stops. -/
theorem eraseAll_separator (pc : CScript) (nFound : Int32) :
    (∃ rest, pc = OP_CODESEPARATOR :: rest ∧
      eraseAll [OP_CODESEPARATOR] pc nFound =
        eraseAll [OP_CODESEPARATOR] rest (nFound + 1)) ∨
    ((∀ rest, pc ≠ OP_CODESEPARATOR :: rest) ∧
      eraseAll [OP_CODESEPARATOR] pc nFound = (pc, nFound)) := by
  rw [eraseAll]
  cases pc with
  | nil => exact Or.inr ⟨nofun, if_neg (by simp)⟩
  | cons opcode rest =>
      by_cases same : opcode = OP_CODESEPARATOR
      · subst same
        exact Or.inl ⟨rest, rfl, if_pos (by simp)⟩
      · refine Or.inr ⟨fun other equal => ?_, if_neg (by simp [same])⟩
        cases equal
        exact same rfl

theorem withoutSeparators_eraseAll (pc : CScript) (nFound : Int32) :
    withoutSeparators (eraseAll [OP_CODESEPARATOR] pc nFound).1 =
      withoutSeparators pc := by
  induction pc generalizing nFound with
  | nil =>
      rcases eraseAll_separator [] nFound with ⟨rest, same, -⟩ | ⟨-, erased⟩
      · cases same
      · rw [erased]
  | cons opcode pc inductionHypothesis =>
      rcases eraseAll_separator (opcode :: pc) nFound with
        ⟨rest, same, erased⟩ | ⟨-, erased⟩
      · cases same
        rw [erased, inductionHypothesis,
          withoutSeparators_op (getOp2_separator pc), if_pos rfl]
      · rw [erased]

theorem opcode_eraseAll
    (parsed : getOp2 (eraseAll [OP_CODESEPARATOR] pc nFound).1 = some op) :
    op.opcode ≠ OP_CODESEPARATOR := by
  induction pc generalizing nFound with
  | nil =>
      rcases eraseAll_separator [] nFound with ⟨rest, same, -⟩ | ⟨-, erased⟩
      · cases same
      · rw [erased] at parsed
        cases parsed
  | cons opcode pc inductionHypothesis =>
      rcases eraseAll_separator (opcode :: pc) nFound with
        ⟨rest, same, erased⟩ | ⟨other, erased⟩
      · cases same
        rw [erased] at parsed
        exact inductionHypothesis parsed
      · rw [erased] at parsed
        exact fun isSeparator => other _ (eq_cons_of_separator parsed isSeparator)

theorem deleteLoop_separators (done pc : CScript) (nFound : Int32) :
    (deleteLoop [OP_CODESEPARATOR] done pc nFound).1 =
      done ++ withoutSeparators pc := by
  fun_induction deleteLoop [OP_CODESEPARATOR] done pc nFound with
  | case1 done pc nFound erased stops =>
      rw [← withoutSeparators_eraseAll pc nFound, withoutSeparators_stop stops]
  | case2 done pc nFound erased op parsed inductionHypothesis =>
      rw [inductionHypothesis, ← withoutSeparators_eraseAll pc nFound,
        withoutSeparators_op parsed, if_neg (opcode_eraseAll parsed),
        List.append_assoc]

/-- `FindAndDelete` leaves the operations that are no separators. -/
theorem findAndDelete_separators (script : CScript) :
    (findAndDelete script [OP_CODESEPARATOR]).1 = withoutSeparators script := by
  rw [findAndDelete, if_neg (by decide), deleteLoop_separators, List.nil_append]

/-- A piece goes on through an operation. -/
theorem take_append_take
    (shorter : pc <:+ it) (suffix : it <:+ itBegin) :
    itBegin.take (itBegin.length - it.length) ++ it.take (it.length - pc.length) =
      itBegin.take (itBegin.length - pc.length) := by
  rcases shorter with ⟨piece, rfl⟩
  rcases suffix with ⟨front, rfl⟩
  have before : (front ++ (piece ++ pc)).length - (piece ++ pc).length =
      front.length := by
    simp
  have inside : (piece ++ pc).length - pc.length = piece.length := by simp
  have both : (front ++ (piece ++ pc)).length - pc.length =
      (front ++ piece).length := by
    simp only [List.length_append]
    omega
  rw [before, inside, both, List.take_left, List.take_left, ← List.append_assoc,
    List.take_left]

/-- The pieces are the operations that are no separators. -/
theorem writePieces_eq (parses : Parses it) (suffix : it <:+ itBegin) :
    writePieces itBegin it =
      itBegin.take (itBegin.length - it.length) ++ withoutSeparators it := by
  induction parses generalizing itBegin with
  | nil =>
      rw [writePieces, withoutSeparators_stop rfl, List.append_nil]
      split
      · rfl
      next parsed => cases parsed
  | @cons it op parsed _ inductionHypothesis =>
      have shorter := getOp2_suffix parsed
      rw [writePieces_op parsed, withoutSeparators_op parsed]
      split_ifs with isSeparator
      · rw [inductionHypothesis (List.suffix_refl _), Nat.sub_self,
          List.take_zero, List.nil_append, eq_cons_of_separator parsed isSeparator,
          List.length_cons, Nat.sub_sub]
      · rw [inductionHypothesis (shorter.trans suffix),
          ← take_append_take shorter suffix, List.append_assoc]

theorem length_withoutSeparators (script : CScript) :
    (withoutSeparators script).length + separators script = script.length := by
  fun_induction withoutSeparators script with
  | case1 script stops =>
      rw [separators]
      split
      · rfl
      next parsed =>
        rw [stops] at parsed
        cases parsed
  | case2 script op parsed isSeparator inductionHypothesis =>
      have whole := eq_cons_of_separator parsed isSeparator
      rw [separators_op parsed, if_pos isSeparator, whole, List.length_cons]
      omega
  | case3 script op parsed other inductionHypothesis =>
      have shorter := getOp2_length parsed
      rw [separators_op parsed, if_neg other, List.length_append,
        List.length_take]
      omega

theorem separators_le (script : CScript) : separators script ≤ script.length :=
  Nat.le.intro ((Nat.add_comm _ _).trans (length_withoutSeparators script))

theorem countSeparators_eq (it : CScript) (nCodeSeparators : UInt32) :
    countSeparators it nCodeSeparators =
      nCodeSeparators + UInt32.ofNat (separators it) := by
  fun_induction countSeparators it nCodeSeparators with
  | case1 it nCodeSeparators stops =>
      rw [separators]
      split
      · exact (UInt32.add_zero _).symm
      next parsed =>
        rw [stops] at parsed
        cases parsed
  | case2 it nCodeSeparators op parsed inductionHypothesis =>
      simp only [dite_eq_ite] at inductionHypothesis
      rw [inductionHypothesis, separators_op parsed, UInt32.ofNat_add]
      split_ifs
      · rw [UInt32.add_assoc, UInt32.add_comm 1]
        rfl
      · exact congrArg _ (UInt32.add_zero _).symm

/-- What is serialized is the script without its separators. -/
theorem serializeScriptCode_eq
    (parses : Parses script) (few : separators script < 2 ^ 32) :
    serializeScriptCode script =
      writeCompactSize (UInt64.ofNat (withoutSeparators script).length) ++
        withoutSeparators script := by
  have length := length_withoutSeparators script
  have size :
      UInt64.ofNat script.length - (countSeparators script 0).toUInt64 =
        UInt64.ofNat (withoutSeparators script).length := by
    have count : (countSeparators script 0).toUInt64 =
        UInt64.ofNat (separators script) := by
      rw [countSeparators_eq, UInt32.zero_add, ← UInt64.toNat_inj,
        UInt32.toNat_toUInt64, UInt32.toNat_ofNat_of_lt' few,
        UInt64.toNat_ofNat_of_lt' (few.trans (by decide))]
    rw [count, ← length, UInt64.ofNat_add]
    exact UInt64.add_sub_cancel _ _
  rw [serializeScriptCode, size, writePieces_eq parses (List.suffix_refl _),
    Nat.sub_self, List.take_zero, List.nil_append]

end DSValue.Script.CodeSeparators
