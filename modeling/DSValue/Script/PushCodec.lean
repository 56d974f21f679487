import DSValue.Script.Scan

/-!
# Pushing data and reading it back

`operator<<` writes a vector behind its size in one of four forms.  `GetOp2`
compares the bytes that are left with the size as 32-bit numbers, so it may
take a push in front of more than four gigabytes for a truncated one, but it
never runs past the end of the script.
-/

namespace DSValue.Script.PushCodec

open DSValue.Lib.Encoding
open DSValue.Script.Scan (CScript ParsedOp readPushSize OP_PUSHDATA1
  OP_PUSHDATA2 OP_PUSHDATA4)

/-! ## The codec -/

/-- `CScript::operator<<` of a byte vector. -/
def push (script : CScript) (b : List UInt8) : CScript :=
  if b.length < OP_PUSHDATA1.toNat then
    script ++ ([UInt8.ofNat b.length] ++ b)
  else if b.length ≤ 0xff then
    script ++ ([OP_PUSHDATA1, UInt8.ofNat b.length] ++ b)
  else if b.length ≤ 0xffff then
    script ++ (OP_PUSHDATA2 :: littleEndian 2 b.length ++ b)
  else script ++ (OP_PUSHDATA4 :: littleEndian 4 b.length ++ b)

/-- `CScript::GetOp2` at a position. -/
def getOp2 : CScript → Option ParsedOp
  | [] => none
  | opcode :: pc =>
      if opcode ≤ OP_PUSHDATA4 then
        match readPushSize opcode pc with
        | none => none
        | some (nSize, operand) =>
            if operand.length % 2 ^ 32 < nSize then none
            else some ⟨opcode, operand.take nSize, operand.drop nSize⟩
      else some ⟨opcode, [], pc⟩

/-- The opcode that a vector is pushed with. -/
def pushOpcode (b : List UInt8) : UInt8 :=
  if b.length < OP_PUSHDATA1.toNat then UInt8.ofNat b.length
  else if b.length ≤ 0xff then OP_PUSHDATA1
  else if b.length ≤ 0xffff then OP_PUSHDATA2
  else OP_PUSHDATA4

variable {b rest : List UInt8} {opcode : UInt8} {script pc : CScript}

/-- Without four gigabytes behind it an operation is read in full. -/
theorem getOp2_eq (short : script.length < 2 ^ 32) :
    getOp2 script = Scan.getOp2 script := by
  cases script with
  | nil => rfl
  | cons opcode pc =>
      rw [getOp2, Scan.getOp2]
      split_ifs
      · cases read : readPushSize opcode pc with
        | none => rfl
        | some sized =>
            have shorter := Scan.readPushSize_length read
            rw [List.length_cons] at short
            dsimp only
            rw [Nat.mod_eq_of_lt (by omega)]
      · rfl

theorem getOp2_of_size
    {sizeField : List UInt8} (isPush : opcode ≤ OP_PUSHDATA4)
    (read : readPushSize opcode (sizeField ++ (b ++ rest)) =
      some (b.length, b ++ rest))
    (fits : (b ++ rest).length < 2 ^ 32) :
    getOp2 (opcode :: (sizeField ++ (b ++ rest))) = some ⟨opcode, b, rest⟩ := by
  rw [getOp2, if_pos isPush, read]
  dsimp only
  rw [Nat.mod_eq_of_lt fits, if_neg (by simp), List.take_left, List.drop_left]

theorem readSizeField_littleEndian
    {width : Nat} (fits : b.length < 256 ^ width) :
    Scan.readSizeField width (littleEndian width b.length ++ (b ++ rest)) =
      some (b.length, b ++ rest) := by
  have field := length_littleEndian width b.length
  rw [Scan.readSizeField, if_neg (by simp), List.take_left' field,
    List.drop_left' field, leValue_littleEndian, Nat.mod_eq_of_lt fits]

theorem readPushSize_direct (tiny : b.length < OP_PUSHDATA1.toNat) :
    UInt8.ofNat b.length < OP_PUSHDATA1 ∧
      readPushSize (UInt8.ofNat b.length) ([] ++ (b ++ rest)) =
        some (b.length, b ++ rest) := by
  have direct : OP_PUSHDATA1.toNat = 76 := rfl
  have byte : (UInt8.ofNat b.length).toNat = b.length :=
    UInt8.toNat_ofNat_of_lt' (show b.length < 256 by omega)
  have isDirect : UInt8.ofNat b.length < OP_PUSHDATA1 := by
    rw [UInt8.lt_iff_toNat_lt, byte]
    exact tiny
  exact ⟨isDirect, by rw [readPushSize, if_pos isDirect, byte]; rfl⟩

/-- What was pushed is read back, and the position is right behind it. -/
theorem getOp2_push_append (fits : (b ++ rest).length < 2 ^ 32) :
    getOp2 ((push script b ++ rest).drop script.length) =
      some ⟨pushOpcode b, b, rest⟩ := by
  rw [push, pushOpcode]
  split_ifs with tiny small middle <;>
    rw [List.append_assoc, List.drop_left]
  · rcases readPushSize_direct tiny with ⟨isDirect, read⟩
    have isPush : UInt8.ofNat b.length ≤ OP_PUSHDATA4 :=
      UInt8.le_of_lt (UInt8.lt_of_lt_of_le isDirect (by decide))
    exact getOp2_of_size isPush read fits
  · have byte : littleEndian 1 b.length = [UInt8.ofNat b.length] := by
      rw [littleEndian, littleEndian, Nat.mod_eq_of_lt (by omega)]
    have read := @readSizeField_littleEndian b rest 1 (by omega)
    rw [byte] at read
    have sized : readPushSize OP_PUSHDATA1
        ([UInt8.ofNat b.length] ++ (b ++ rest)) =
          some (b.length, b ++ rest) := read
    exact getOp2_of_size (by decide) sized fits
  · have read := @readSizeField_littleEndian b rest 2 (by omega)
    rw [List.cons_append, List.cons_append, List.append_assoc]
    exact getOp2_of_size (by decide) read fits
  · rw [List.length_append] at fits
    have read := @readSizeField_littleEndian b rest 4 (by omega)
    rw [List.cons_append, List.cons_append, List.append_assoc]
    exact getOp2_of_size (by decide) read (by rw [List.length_append]; exact fits)

/-- Reading right after a push ends where the script ends. -/
theorem getOp2_push (fits : b.length < 2 ^ 32) :
    getOp2 ((push script b).drop script.length) =
      some ⟨pushOpcode b, b, []⟩ := by
  have read := @getOp2_push_append b [] script (by rwa [List.append_nil])
  rwa [List.append_nil] at read

/-- Reading an operation moves forward. -/
theorem getOp2_length
    {op : ParsedOp} (parsed : getOp2 script = some op) :
    op.pc.length < script.length := by
  cases script with
  | nil => cases parsed
  | cons opcode pc =>
      rw [getOp2] at parsed
      split_ifs at parsed
      · cases read : readPushSize opcode pc with
        | none =>
            rw [read] at parsed
            cases parsed
        | some sized =>
            have shorter := Scan.readPushSize_length read
            rw [read] at parsed
            dsimp only at parsed
            split_ifs at parsed
            cases parsed
            simp only [List.length_drop, List.length_cons]
            omega
      · cases parsed
        simp

end DSValue.Script.PushCodec
