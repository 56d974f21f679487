import DSValue.Lib.MachineInt
import DSValue.Script.Number
import Mathlib.Data.Nat.Bitwise

/-!
# Canonical signatures and public keys

`IsCanonicalSignature` goes through a signature byte by byte.  What it accepts
is the DER encoding of two numbers with the type of the hash behind it: the
numbers are written in as few bytes as a sign bit that is not set allows.  The
numbers can be read off such a signature in one way only.
-/

namespace DSValue.Script.SignatureFormat

open DSValue.Lib
open DSValue.Lib.Encoding
open DSValue.Lib.SignMagnitude (signBit width width_le signBit_le lt_signBit
  length_encode encode decode_encode)
open DSValue.Script.Number (Valtype)

def SCRIPT_VERIFY_NONE : UInt32 := 0
def SCRIPT_VERIFY_P2SH : UInt32 := 1
def SCRIPT_VERIFY_STRICTENC : UInt32 := 2
def SCRIPT_VERIFY_EVEN_S : UInt32 := 4
def SCRIPT_VERIFY_NOCACHE : UInt32 := 8

/-! ## The checks -/

/-- `IsCanonicalPubKey`. -/
def isCanonicalPubKey (vchPubKey : Valtype) (flags : UInt32) :
    Except String Unit :=
  if flags &&& SCRIPT_VERIFY_STRICTENC = 0 then .ok ()
  else if vchPubKey.length < 33 then
    .error "Non-canonical public key: too short"
  else if vchPubKey[0]? = some 0x04 then
    if vchPubKey.length ≠ 65 then
      .error "Non-canonical public key: invalid length for uncompressed key"
    else .ok ()
  else if vchPubKey[0]? = some 0x02 ∨ vchPubKey[0]? = some 0x03 then
    if vchPubKey.length ≠ 33 then
      .error "Non-canonical public key: invalid length for compressed key"
    else .ok ()
  else .error "Non-canonical public key: compressed nor uncompressed"

/-- The checks of `R` and of `S`, behind the type byte in front of them. -/
def checkInteger (name : String) (type : UInt8) (value : List UInt8) :
    Except String Unit :=
  if type ≠ 0x02 then
    .error ("Non-canonical signature: " ++ name ++ " value type mismatch")
  else
    match value with
    | [] => .error ("Non-canonical signature: " ++ name ++ " length is zero")
    | first :: rest =>
        if first &&& 0x80 ≠ 0 then
          .error ("Non-canonical signature: " ++ name ++ " value negative")
        else if rest ≠ [] ∧ first = 0x00 ∧ rest.headD 0 &&& 0x80 = 0 then
          .error
            ("Non-canonical signature: " ++ name ++ " value excessively padded")
        else .ok ()

/-- `IsCanonicalSignature`. -/
def isCanonicalSignature (vchSig : Valtype) (flags : UInt32) :
    Except String Unit :=
  if flags &&& SCRIPT_VERIFY_STRICTENC = 0 then .ok ()
  else if vchSig.length < 9 then
    .error "Non-canonical signature: too short"
  else if 73 < vchSig.length then
    .error "Non-canonical signature: too long"
  else
    let nHashType := vchSig.getD (vchSig.length - 1) 0 &&& ~~~0x80
    if nHashType < 1 ∨ 3 < nHashType then
      .error "Non-canonical signature: unknown hashtype byte"
    else if vchSig.getD 0 0 ≠ 0x30 then
      .error "Non-canonical signature: wrong type"
    else if (vchSig.getD 1 0).toNat ≠ vchSig.length - 3 then
      .error "Non-canonical signature: wrong length marker"
    else
      let nLenR := (vchSig.getD 3 0).toNat
      if vchSig.length ≤ 5 + nLenR then
        .error "Non-canonical signature: S length misplaced"
      else
        let nLenS := (vchSig.getD (5 + nLenR) 0).toNat
        if nLenR + nLenS + 7 ≠ vchSig.length then
          .error "Non-canonical signature: R+S length mismatch"
        else do
          checkInteger "R" (vchSig.getD 2 0) ((vchSig.drop 4).take nLenR)
          let S := (vchSig.drop (6 + nLenR)).take nLenS
          checkInteger "S" (vchSig.getD (4 + nLenR) 0) S
          if flags &&& SCRIPT_VERIFY_EVEN_S ≠ 0 ∧ S.getD (nLenS - 1) 0 &&& 1 ≠ 0
          then .error "Non-canonical signature: S value odd"
          else .ok ()

/-! ## Numbers in DER -/

/-- A number, big-endian, in as few bytes as a clear sign bit allows. -/
def derInteger (n : Nat) : List UInt8 :=
  if n = 0 then [0] else (encode n).reverse

/-- A signature: two numbers and the type of the hash. -/
def derSignature (r s : Nat) (nHashType : UInt8) : Valtype :=
  [0x30, UInt8.ofNat (4 + (derInteger r).length + (derInteger s).length), 0x02,
      UInt8.ofNat (derInteger r).length] ++
    derInteger r ++ [0x02, UInt8.ofNat (derInteger s).length] ++
    derInteger s ++ [nHashType]

/-- What `checkInteger` asks of the bytes of a number. -/
def Canonical : List UInt8 → Prop
  | [] => False
  | first :: rest =>
      first &&& 0x80 = 0 ∧
        ¬(rest ≠ [] ∧ first = 0x00 ∧ rest.headD 0 &&& 0x80 = 0)

variable {name : String} {type first : UInt8} {value rest vchSig : List UInt8}
  {flags : UInt32} {n : Nat}

theorem and_sign_eq_zero (byte : UInt8) :
    byte &&& 0x80 = 0 ↔ byte.toNat < 128 := by
  have bound := byte.toNat_lt
  have bit : (byte &&& 0x80).toNat = byte.toNat / 128 % 2 * 128 := by
    rw [UInt8.toNat_and]
    refine (Nat.and_two_pow byte.toNat 7).trans ?_
    rw [Nat.testBit_eq_decide_div_mod_eq]
    rcases Nat.mod_two_eq_zero_or_one (byte.toNat / 2 ^ 7) with even | odd
    · rw [even, show byte.toNat / 128 % 2 = 0 from even]
      rfl
    · rw [odd, show byte.toNat / 128 % 2 = 1 from odd]
      rfl
  rw [← UInt8.toNat_inj, bit]
  change byte.toNat / 128 % 2 * 128 = 0 ↔ byte.toNat < 128
  omega

theorem checkInteger_eq_ok :
    checkInteger name type value = .ok () ↔ type = 0x02 ∧ Canonical value := by
  by_cases isInteger : type = 0x02
  · rw [and_iff_right isInteger]
    cases value with
    | nil =>
        rw [checkInteger, if_neg (not_not_intro isInteger)]
        exact iff_of_false (fun equal => by cases equal) id
    | cons first rest =>
        rw [checkInteger, if_neg (not_not_intro isInteger), Canonical]
        split_ifs with negative padded
        · exact iff_of_false (fun equal => by cases equal)
            fun both => negative both.1
        · exact iff_of_false (fun equal => by cases equal)
            fun both => both.2 padded
        · exact iff_of_true rfl ⟨not_not.mp negative, padded⟩
  · unfold checkInteger
    rw [if_pos isInteger]
    exact iff_of_false (fun equal => by cases equal)
      fun both => isInteger both.1

theorem leValue_append (low high : List UInt8) :
    leValue (low ++ high) = leValue low + 256 ^ low.length * leValue high := by
  induction low with
  | nil => simp [leValue]
  | cons byte low inductionHypothesis =>
      rw [List.cons_append, leValue, leValue, inductionHypothesis,
        List.length_cons, pow_succ]
      ring

theorem leValue_reverse_cons (first : UInt8) (rest : List UInt8) :
    leValue (first :: rest).reverse =
      leValue rest.reverse + 256 ^ rest.length * first.toNat := by
  rw [List.reverse_cons, leValue_append, List.length_reverse]
  rfl

/-- A canonical number is below the sign bit of its bytes. -/
theorem leValue_lt_signBit (rest : List UInt8) (positive : first &&& 0x80 = 0) :
    leValue (first :: rest).reverse < signBit (first :: rest).length := by
  rw [and_sign_eq_zero] at positive
  have low := leValue_lt rest.reverse
  rw [List.length_reverse] at low
  rw [leValue_reverse_cons, signBit, List.length_cons, Nat.add_sub_cancel,
    Nat.mul_comm 128]
  have high := Nat.mul_le_mul_left (256 ^ rest.length)
    (show first.toNat + 1 ≤ 128 from positive)
  rw [Nat.mul_add, Nat.mul_one] at high
  omega

/-- A canonical number of two bytes or more needs all of them. -/
theorem signBit_le_leValue
    {second : UInt8} (rest : List UInt8)
    (needed : ¬(first = 0x00 ∧ second &&& 0x80 = 0)) :
    signBit (second :: rest).length ≤
      leValue (first :: second :: rest).reverse := by
  rw [and_sign_eq_zero] at needed
  rw [leValue_reverse_cons, leValue_reverse_cons, signBit, List.length_cons,
    Nat.add_sub_cancel, Nat.mul_comm 128, pow_succ, Nat.mul_assoc]
  by_cases zero : first = 0x00
  · have large : 128 ≤ second.toNat := by
      by_contra small
      exact needed ⟨zero, by omega⟩
    have high := Nat.mul_le_mul_left (256 ^ rest.length) large
    omega
  · have large : 1 ≤ first.toNat :=
      Nat.one_le_iff_ne_zero.mpr fun none => zero (UInt8.toNat_inj.mp none)
    have high := Nat.mul_le_mul_left (256 ^ rest.length)
      (show 128 ≤ 256 * first.toNat by omega)
    omega

theorem encode_natCast (n : Nat) : encode n = littleEndian (width n) n := by
  rw [encode, Int.natAbs_natCast, if_neg (by omega), Nat.add_zero]

/-- The bytes that `checkInteger` accepts are those of a number. -/
theorem derInteger_of_canonical (canonical : Canonical value) :
    value = derInteger (leValue value.reverse) := by
  cases value with
  | nil => exact canonical.elim
  | cons first rest =>
      rcases canonical with ⟨positive, needed⟩
      have small := leValue_lt_signBit rest positive
      have fewest : leValue (first :: rest).reverse ≠ 0 →
          width (leValue (first :: rest).reverse) = (first :: rest).length := by
        intro nonzero
        refine le_antisymm (width_le (Nat.succ_pos _) small) ?_
        by_contra fewer
        cases rest with
        | nil =>
            have some := SignMagnitude.width_pos nonzero
            rw [List.length_singleton] at fewer
            omega
        | cons second others =>
            have large := signBit_le_leValue others
              fun both : first = 0x00 ∧ second &&& 0x80 = 0 =>
                needed ⟨List.cons_ne_nil _ _, both⟩
            have below := lt_signBit nonzero
            have fits : signBit
                (width (leValue (first :: second :: others).reverse)) ≤
                  signBit (second :: others).length := by
              refine Nat.mul_le_mul_left _ (Nat.pow_le_pow_right (by decide) ?_)
              rw [List.length_cons] at fewer
              omega
            omega
      rw [derInteger]
      split_ifs with zero
      · cases rest with
        | nil =>
            rw [leValue_reverse_cons, List.reverse_nil, leValue,
              List.length_nil, pow_zero, Nat.one_mul, Nat.zero_add] at zero
            have none : first.toNat = (0 : UInt8).toNat := zero
            rw [UInt8.toNat_inj.mp none]
        | cons second others =>
            have large := signBit_le_leValue others
              fun both : first = 0x00 ∧ second &&& 0x80 = 0 =>
                needed ⟨List.cons_ne_nil _ _, both⟩
            have some := SignMagnitude.signBit_pos (second :: others).length
            omega
      · rw [encode_natCast, fewest zero, ← List.length_reverse,
          littleEndian_leValue, List.reverse_reverse]

theorem length_derInteger_pos (n : Nat) : 0 < (derInteger n).length := by
  rw [derInteger]
  split_ifs with zero
  · exact Nat.one_pos
  · rw [List.length_reverse, length_encode, Int.natAbs_natCast]
    exact SignMagnitude.width_pos zero

theorem leValue_derInteger (n : Nat) : leValue (derInteger n).reverse = n := by
  rw [derInteger]
  split_ifs with zero
  · rw [zero]
    rfl
  · have whole := SignMagnitude.two_mul_signBit (SignMagnitude.width_pos zero)
    have small := lt_signBit zero
    rw [List.reverse_reverse, encode_natCast, leValue_littleEndian,
      Nat.mod_eq_of_lt (by omega)]

theorem canonical_derInteger (n : Nat) : Canonical (derInteger n) := by
  have positive := length_derInteger_pos n
  have read := leValue_derInteger n
  have length : n ≠ 0 → (derInteger n).length = width n := by
    intro nonzero
    rw [derInteger, if_neg nonzero, List.length_reverse, length_encode,
      Int.natAbs_natCast]
  cases value : derInteger n with
  | nil =>
      rw [value] at positive
      exact absurd positive (Nat.lt_irrefl 0)
  | cons first rest =>
      rw [value] at read length
      by_cases zero : n = 0
      · rw [zero, derInteger, if_pos rfl] at value
        cases value
        exact ⟨rfl, fun both => both.1 rfl⟩
      · have small := lt_signBit zero
        rw [← length zero, ← read, leValue_reverse_cons, signBit,
          List.length_cons, Nat.add_sub_cancel, Nat.mul_comm 128] at small
        refine ⟨(and_sign_eq_zero first).mpr ?_, ?_⟩
        · exact Nat.lt_of_mul_lt_mul_left
            (Nat.lt_of_le_of_lt (Nat.le_add_left _ _) small)
        · rintro ⟨longer, isZero, clear⟩
          cases rest with
          | nil => exact longer rfl
          | cons second others =>
              have less : n < signBit (second :: others).length := by
                rw [← read, leValue_reverse_cons, isZero]
                exact leValue_lt_signBit others clear
              have fits := width_le (Nat.succ_pos _) less
              rw [← length zero, List.length_cons] at fits
              exact Nat.not_succ_le_self _ fits

theorem canonical_iff : Canonical value ↔ ∃ n, value = derInteger n :=
  ⟨fun canonical => ⟨_, derInteger_of_canonical canonical⟩,
    fun ⟨n, same⟩ => same ▸ canonical_derInteger n⟩

theorem derInteger_injective : Function.Injective derInteger := by
  intro m n equal
  rw [← leValue_derInteger m, equal, leValue_derInteger]

/-! ## What is accepted -/

/-- The type of the hash without `SIGHASH_ANYONECANPAY` is a known one. -/
def KnownHashType (nHashType : UInt8) : Prop :=
  1 ≤ nHashType &&& ~~~0x80 ∧ nHashType &&& ~~~0x80 ≤ 3

/-- All checks of `IsCanonicalSignature` at once. -/
structure Accepted (vchSig : Valtype) (flags : UInt32) (nLenR nLenS : Nat) :
    Prop where
  long : 9 ≤ vchSig.length
  short : vchSig.length ≤ 73
  known : KnownHashType (vchSig.getD (vchSig.length - 1) 0)
  isSequence : vchSig.getD 0 0 = 0x30
  length : (vchSig.getD 1 0).toNat = vchSig.length - 3
  lengthR : (vchSig.getD 3 0).toNat = nLenR
  lengthS : (vchSig.getD (5 + nLenR) 0).toNat = nLenS
  whole : nLenR + nLenS + 7 = vchSig.length
  typeR : vchSig.getD 2 0 = 0x02
  integerR : Canonical ((vchSig.drop 4).take nLenR)
  typeS : vchSig.getD (4 + nLenR) 0 = 0x02
  integerS : Canonical ((vchSig.drop (6 + nLenR)).take nLenS)
  even : flags &&& SCRIPT_VERIFY_EVEN_S ≠ 0 →
    ((vchSig.drop (6 + nLenR)).take nLenS).getD (nLenS - 1) 0 &&& 1 = 0

theorem isCanonicalSignature_eq_ok (strict : flags &&& SCRIPT_VERIFY_STRICTENC ≠ 0) :
    isCanonicalSignature vchSig flags = .ok () ↔
      ∃ nLenR nLenS, Accepted vchSig flags nLenR nLenS := by
  constructor
  · intro accepted
    rw [isCanonicalSignature, if_neg strict] at accepted
    dsimp only at accepted
    split_ifs at accepted with short long known isSequence length misplaced
      whole parity
    all_goals
      rw [bind_eq_ok] at accepted
      rcases accepted with ⟨⟨⟩, isR, accepted⟩
      rw [bind_eq_ok] at accepted
      rcases accepted with ⟨⟨⟩, isS, accepted⟩
      rw [checkInteger_eq_ok] at isR isS
    · cases accepted
    refine ⟨(vchSig.getD 3 0).toNat,
      (vchSig.getD (5 + (vchSig.getD 3 0).toNat) 0).toNat, ?_⟩
    exact
      { long := Nat.le_of_not_lt short
        short := Nat.le_of_not_lt long
        known := by
          rw [not_or, UInt8.not_lt, UInt8.not_lt] at known
          exact known
        isSequence := not_not.mp isSequence
        length := not_not.mp length
        lengthR := rfl
        lengthS := rfl
        whole := not_not.mp whole
        typeR := isR.1
        integerR := isR.2
        typeS := isS.1
        integerS := isS.2
        even := fun isEven => not_not.mp fun odd => parity ⟨isEven, odd⟩ }
  · rintro ⟨nLenR, nLenS, accepted⟩
    have whole := accepted.whole
    rw [isCanonicalSignature, if_neg strict,
      if_neg (Nat.not_lt_of_le accepted.long),
      if_neg (Nat.not_lt_of_le accepted.short)]
    dsimp only
    rw [if_neg (by
        rw [not_or, UInt8.not_lt, UInt8.not_lt]
        exact accepted.known),
      if_neg (not_not_intro accepted.isSequence),
      if_neg (not_not_intro accepted.length), accepted.lengthR,
      if_neg (by omega), accepted.lengthS, if_neg (not_not_intro whole),
      checkInteger_eq_ok.mpr ⟨accepted.typeR, accepted.integerR⟩,
      checkInteger_eq_ok.mpr ⟨accepted.typeS, accepted.integerS⟩]
    change (if _ then _ else _) = _
    exact if_neg fun both => both.2 (accepted.even both.1)

/-- The places of a signature, filled with any bytes. -/
def assemble (a b c d : UInt8) (R : List UInt8) (e f : UInt8) (S : List UInt8)
    (g : UInt8) : Valtype :=
  [a, b, c, d] ++ (R ++ (e :: f :: (S ++ [g])))

section Assembled

variable (a b c d e f g : UInt8) (R S : List UInt8)

@[simp]
theorem length_assemble :
    (assemble a b c d R e f S g).length = R.length + S.length + 7 := by
  simp only [assemble, List.length_append, List.length_cons, List.length_nil]
  omega

theorem drop_four_assemble :
    (assemble a b c d R e f S g).drop 4 = R ++ (e :: f :: (S ++ [g])) := rfl

theorem drop_assemble (count : Nat) :
    (assemble a b c d R e f S g).drop (4 + R.length + count) =
      (e :: f :: (S ++ [g])).drop count := by
  rw [Nat.add_assoc, ← List.drop_drop, drop_four_assemble, List.drop_append,
    List.drop_eq_nil_of_le (Nat.le_add_right _ _), List.nil_append,
    Nat.add_sub_cancel_left]

theorem getD_assemble (count : Nat) :
    (assemble a b c d R e f S g).getD (4 + R.length + count) 0 =
      (e :: f :: (S ++ [g])).getD count 0 := by
  have behind : (assemble a b c d R e f S g).drop (4 + R.length) =
      e :: f :: (S ++ [g]) :=
    drop_assemble a b c d e f g R S 0
  rw [List.getD_eq_getElem?_getD, List.getD_eq_getElem?_getD, ← behind,
    List.getElem?_drop]

/-- Which bytes at the places of a signature are accepted. -/
theorem accepted_assemble :
    Accepted (assemble a b c d R e f S g) flags R.length S.length ↔
      (a = 0x30 ∧ b.toNat = R.length + S.length + 4 ∧ c = 0x02 ∧
          d.toNat = R.length) ∧
        Canonical R ∧ (e = 0x02 ∧ f.toNat = S.length) ∧ Canonical S ∧
        KnownHashType g ∧ R.length + S.length + 7 ≤ 73 ∧
        (flags &&& SCRIPT_VERIFY_EVEN_S ≠ 0 →
          S.getD (S.length - 1) 0 &&& 1 = 0) := by
  have whole := length_assemble a b c d e f g R S
  have last : (assemble a b c d R e f S g).getD
      ((assemble a b c d R e f S g).length - 1) 0 = g := by
    rw [whole, show R.length + S.length + 7 - 1 = 4 + R.length + (S.length + 2) by
        omega, getD_assemble]
    simp
  have typeS : (assemble a b c d R e f S g).getD (4 + R.length) 0 = e :=
    getD_assemble a b c d e f g R S 0
  have lengthS : (assemble a b c d R e f S g).getD (5 + R.length) 0 = f := by
    rw [show 5 + R.length = 4 + R.length + 1 by omega, getD_assemble]
    rfl
  have integerR : ((assemble a b c d R e f S g).drop 4).take R.length = R := by
    rw [drop_four_assemble, List.take_left]
  have integerS : ((assemble a b c d R e f S g).drop (6 + R.length)).take
      S.length = S := by
    rw [show 6 + R.length = 4 + R.length + 2 by omega, drop_assemble]
    exact List.take_left
  constructor
  · intro accepted
    have canonicalR := accepted.integerR
    have canonicalS := accepted.integerS
    have parity := accepted.even
    rw [integerR] at canonicalR
    rw [integerS] at canonicalS parity
    refine ⟨⟨accepted.isSequence, ?_, accepted.typeR, accepted.lengthR⟩,
      canonicalR, ⟨typeS ▸ accepted.typeS, lengthS ▸ accepted.lengthS⟩,
      canonicalS, last ▸ accepted.known, whole ▸ accepted.short, parity⟩
    have marker : b.toNat = _ := accepted.length
    rw [marker, whole]
    omega
  · rintro ⟨⟨isSequence, length, typeR, lengthR⟩, canonicalR,
      ⟨isInteger, sized⟩, canonicalS, known, short, parity⟩
    have positiveR : 0 < R.length := by
      cases R with
      | nil => exact canonicalR.elim
      | cons first rest => exact Nat.succ_pos _
    have positiveS : 0 < S.length := by
      cases S with
      | nil => exact canonicalS.elim
      | cons first rest => exact Nat.succ_pos _
    exact
      { long := by rw [whole]; omega
        short := by rw [whole]; exact short
        known := by rw [last]; exact known
        isSequence := isSequence
        length := by
          rw [whole]
          exact length.trans (by omega)
        lengthR := lengthR
        lengthS := by rw [lengthS]; exact sized
        whole := whole.symm
        typeR := typeR
        integerR := by rw [integerR]; exact canonicalR
        typeS := by rw [typeS]; exact isInteger
        integerS := by rw [integerS]; exact canonicalS
        even := by rw [integerS]; exact parity }

end Assembled

/-- Bytes of the length that the two lengths add up to have all the places. -/
theorem eq_assemble
    {nLenR nLenS : Nat} (whole : nLenR + nLenS + 7 = vchSig.length) :
    ∃ a b c d R e f S g, vchSig = assemble a b c d R e f S g ∧
      R.length = nLenR ∧ S.length = nLenS := by
  match vchSig, whole with
  | a :: b :: c :: d :: rest, whole =>
      simp only [List.length_cons] at whole
      have back := List.take_append_drop nLenR rest
      have lengthR : (rest.take nLenR).length = nLenR := by
        rw [List.length_take]
        omega
      have lengthBack : (rest.drop nLenR).length = nLenS + 3 := by
        rw [List.length_drop]
        omega
      match behind : rest.drop nLenR, lengthBack with
      | e :: f :: last, lengthBack =>
          simp only [List.length_cons] at lengthBack
          have nonempty : last ≠ [] := List.ne_nil_of_length_pos (by omega)
          refine ⟨a, b, c, d, rest.take nLenR, e, f, last.dropLast,
            last.getLast nonempty, ?_, lengthR, ?_⟩
          · rw [assemble, List.dropLast_append_getLast, ← behind, back]
            rfl
          · rw [List.length_dropLast]
            omega

theorem and_one_eq_zero (byte : UInt8) : byte &&& 1 = 0 ↔ byte.toNat % 2 = 0 := by
  rw [← UInt8.toNat_inj, UInt8.toNat_and]
  change byte.toNat &&& 1 = 0 ↔ _
  rw [Nat.and_one_is_mod]

/-- The last byte of a number tells whether it is even. -/
theorem even_derInteger (n : Nat) :
    (derInteger n).getD ((derInteger n).length - 1) 0 &&& 1 = 0 ↔ n % 2 = 0 := by
  have positive := length_derInteger_pos n
  have read := leValue_derInteger n
  have last : (derInteger n).getD ((derInteger n).length - 1) 0 =
      (derInteger n).reverse.headD 0 := by
    rw [List.getD_eq_getElem?_getD, List.headD_eq_head?_getD, List.head?_reverse,
      List.getLast?_eq_getElem?]
  rw [last, and_one_eq_zero]
  cases value : (derInteger n).reverse with
  | nil =>
      rw [← List.length_reverse, value] at positive
      exact absurd positive (Nat.lt_irrefl 0)
  | cons low high =>
      rw [value, leValue] at read
      rw [List.headD_cons]
      omega

theorem derSignature_eq (r s : Nat) (nHashType : UInt8) :
    derSignature r s nHashType =
      assemble 0x30
        (UInt8.ofNat (4 + (derInteger r).length + (derInteger s).length)) 0x02
        (UInt8.ofNat (derInteger r).length) (derInteger r) 0x02
        (UInt8.ofNat (derInteger s).length) (derInteger s) nHashType := by
  simp only [derSignature, assemble, List.append_assoc, List.cons_append,
    List.nil_append]

/-- Signatures of the length that is accepted can be read in one way only. -/
theorem derSignature_injective
    {r s r' s' : Nat} {nHashType nHashType' : UInt8}
    (short : (derSignature r s nHashType).length ≤ 73)
    (equal : derSignature r s nHashType = derSignature r' s' nHashType') :
    r = r' ∧ s = s' ∧ nHashType = nHashType' := by
  have sameShort := short
  rw [equal] at sameShort
  rw [derSignature_eq, length_assemble] at short sameShort
  rw [derSignature_eq, derSignature_eq] at equal
  have lengths : (derInteger r).length = (derInteger r').length := by
    have byte := congrArg (fun vchSig => (vchSig.getD 3 0).toNat) equal
    change (UInt8.ofNat (derInteger r).length).toNat =
      (UInt8.ofNat (derInteger r').length).toNat at byte
    rwa [UInt8.toNat_ofNat_of_lt' (show (derInteger r).length < 256 by omega),
      UInt8.toNat_ofNat_of_lt' (show (derInteger r').length < 256 by omega)]
      at byte
  have behind := congrArg (List.drop 4) equal
  rw [drop_four_assemble, drop_four_assemble] at behind
  rcases List.append_inj behind lengths with ⟨sameR, rest⟩
  simp only [List.cons.injEq, true_and] at rest
  have sameS := List.append_inj' rest.2 rfl
  exact ⟨derInteger_injective sameR, derInteger_injective sameS.1,
    List.singleton_inj.mp sameS.2⟩

/--
`IsCanonicalSignature` accepts exactly the DER encodings of two numbers, with
the type of a hash behind them, of at most 73 bytes, and each can be read in
one way only.  With `SCRIPT_VERIFY_EVEN_S` the second number is even.
-/
theorem isCanonicalSignature_iff
    (vchSig : Valtype) (flags : UInt32)
    (strict : flags &&& SCRIPT_VERIFY_STRICTENC ≠ 0) :
    isCanonicalSignature vchSig flags = .ok () ↔
      ∃! signature : Nat × Nat × UInt8,
        vchSig = derSignature signature.1 signature.2.1 signature.2.2 ∧
          vchSig.length ≤ 73 ∧ KnownHashType signature.2.2 ∧
          (flags &&& SCRIPT_VERIFY_EVEN_S ≠ 0 → signature.2.1 % 2 = 0) := by
  rw [isCanonicalSignature_eq_ok strict]
  constructor
  · rintro ⟨nLenR, nLenS, accepted⟩
    rcases eq_assemble accepted.whole with
      ⟨a, b, c, d, R, e, f, S, g, rfl, rfl, rfl⟩
    rcases (accepted_assemble a b c d e f g R S).mp accepted with
      ⟨⟨rfl, length, rfl, lengthR⟩, canonicalR, ⟨rfl, lengthS⟩, canonicalS,
        known, short, parity⟩
    rcases canonical_iff.mp canonicalR with ⟨r, rfl⟩
    rcases canonical_iff.mp canonicalS with ⟨s, rfl⟩
    rw [even_derInteger] at parity
    have same : assemble 0x30 b 0x02 d (derInteger r) 0x02 f (derInteger s) g =
        derSignature r s g := by
      rw [derSignature_eq, ← lengthR, ← lengthS, UInt8.ofNat_toNat,
        UInt8.ofNat_toNat, show 4 + d.toNat + f.toNat = b.toNat by omega,
        UInt8.ofNat_toNat]
    have fits : (derSignature r s g).length ≤ 73 := by
      rw [derSignature_eq, length_assemble]
      exact short
    rw [same]
    refine ⟨⟨r, s, g⟩, ⟨rfl, fits, known, parity⟩, ?_⟩
    rintro ⟨r', s', g'⟩ ⟨equal, -⟩
    rcases derSignature_injective fits equal with ⟨rfl, rfl, rfl⟩
    rfl
  · rintro ⟨⟨r, s, g⟩, ⟨rfl, short, known, parity⟩, -⟩
    refine ⟨(derInteger r).length, (derInteger s).length, ?_⟩
    dsimp only at short known parity ⊢
    rw [derSignature_eq, length_assemble] at short
    rw [derSignature_eq, accepted_assemble, even_derInteger]
    refine ⟨⟨rfl, ?_, rfl, ?_⟩, canonical_derInteger r, ⟨rfl, ?_⟩,
      canonical_derInteger s, known, short, parity⟩
    · rw [UInt8.toNat_ofNat_of_lt' (by
        change 4 + (derInteger r).length + (derInteger s).length < 256
        omega)]
      omega
    · exact UInt8.toNat_ofNat_of_lt'
        (show (derInteger r).length < 256 by omega)
    · exact UInt8.toNat_ofNat_of_lt'
        (show (derInteger s).length < 256 by omega)

/-- The shortest signature there is. -/
theorem isCanonicalSignature_shortest :
    isCanonicalSignature [0x30, 6, 2, 1, 1, 2, 1, 1, 1] SCRIPT_VERIFY_STRICTENC =
        .ok () ↔
      ∃! signature : Nat × Nat × UInt8,
        [0x30, 6, 2, 1, 1, 2, 1, 1, 1] =
            derSignature signature.1 signature.2.1 signature.2.2 ∧
          [0x30, 6, 2, 1, 1, 2, 1, 1, (1 : UInt8)].length ≤ 73 ∧
          KnownHashType signature.2.2 ∧
          (SCRIPT_VERIFY_STRICTENC &&& SCRIPT_VERIFY_EVEN_S ≠ 0 →
            signature.2.1 % 2 = 0) :=
  isCanonicalSignature_iff _ _ (by decide)

end DSValue.Script.SignatureFormat
