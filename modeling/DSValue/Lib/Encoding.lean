import Mathlib.Data.List.Basic
import Mathlib.Tactic.Ring

/-!
# Self-delimiting byte encodings

An encoder is self-delimiting when the encoded value and the bytes after it
can both be recovered from the concatenation.  The property is closed under
the constructions a record serializer is made of: renaming along an injective
map, one field after another, a run of records of known number, and a run of
records behind its own length.

The last section gives the base case every fixed-width integer field reduces
to, the little-endian bytes of a natural number.
-/

namespace DSValue.Lib.Encoding

variable {α β γ δ : Type*}

/--
The value and the remaining stream are determined by the stream that starts
with the encoded value.
-/
def SelfDelimiting (encode : α → List δ) : Prop :=
  ∀ first second restFirst restSecond,
    encode first ++ restFirst = encode second ++ restSecond →
      first = second ∧ restFirst = restSecond

theorem SelfDelimiting.injective
    {encode : α → List δ}
    (delimits : SelfDelimiting encode) :
    Function.Injective encode := by
  intro first second equal
  exact (delimits first second [] [] (by rw [equal])).1

/-- Two fields, one written after the other. -/
theorem SelfDelimiting.append
    {encodeLeft : α → List δ} {encodeRight : β → List δ}
    (left : SelfDelimiting encodeLeft)
    (right : SelfDelimiting encodeRight) :
    SelfDelimiting
      (fun pair : α × β => encodeLeft pair.1 ++ encodeRight pair.2) := by
  rintro ⟨firstLeft, firstRight⟩ ⟨secondLeft, secondRight⟩
    restFirst restSecond equal
  simp only [List.append_assoc] at equal
  obtain ⟨leftEqual, tails⟩ := left _ _ _ _ equal
  obtain ⟨rightEqual, rests⟩ := right _ _ _ _ tails
  exact ⟨by rw [leftEqual, rightEqual], rests⟩

/-- An injective encoder of constant width is self-delimiting. -/
theorem selfDelimiting_of_fixedWidth
    {encode : α → List δ} {width : Nat}
    (fixed : ∀ value, (encode value).length = width)
    (injective : Function.Injective encode) :
    SelfDelimiting encode := by
  intro first second restFirst restSecond equal
  have split :=
    List.append_inj equal (by rw [fixed first, fixed second])
  exact ⟨injective split.1, split.2⟩

/-- Two runs of the same number of records are recovered record by record. -/
theorem SelfDelimiting.flatMap
    {encode : α → List δ}
    (delimits : SelfDelimiting encode)
    (first second : List α) (restFirst restSecond : List δ)
    (sameLength : first.length = second.length)
    (equal :
      first.flatMap encode ++ restFirst =
        second.flatMap encode ++ restSecond) :
    first = second ∧ restFirst = restSecond := by
  induction first generalizing second with
  | nil =>
      have emptySecond : second = [] :=
        List.length_eq_zero_iff.mp sameLength.symm
      subst emptySecond
      exact ⟨rfl, by simpa using equal⟩
  | cons head tail inductionHypothesis =>
      cases second with
      | nil => simp at sameLength
      | cons otherHead otherTail =>
          simp only [List.flatMap_cons, List.append_assoc] at equal
          obtain ⟨headEqual, tails⟩ := delimits _ _ _ _ equal
          have recovered :=
            inductionHypothesis otherTail (by simpa using sameLength) tails
          exact ⟨by rw [headEqual, recovered.1], recovered.2⟩

/--
A run of records written behind its length, for the runs whose length the
length field can hold.
-/
theorem SelfDelimiting.lengthPrefixed
    {encodeLength : γ → List δ} {encode : α → List δ}
    {lengthField : Nat → γ} {bound : Nat}
    (lengths : SelfDelimiting encodeLength)
    (fits :
      ∀ first second, first < bound → second < bound →
        lengthField first = lengthField second → first = second)
    (delimits : SelfDelimiting encode)
    {first second : List α} {restFirst restSecond : List δ}
    (firstFits : first.length < bound)
    (secondFits : second.length < bound)
    (equal :
      encodeLength (lengthField first.length) ++
          first.flatMap encode ++ restFirst =
        encodeLength (lengthField second.length) ++
          second.flatMap encode ++ restSecond) :
    first = second ∧ restFirst = restSecond := by
  simp only [List.append_assoc] at equal
  obtain ⟨fieldEqual, tails⟩ := lengths _ _ _ _ equal
  exact delimits.flatMap first second restFirst restSecond
    (fits _ _ firstFits secondFits fieldEqual) tails

/-! ## Little-endian naturals -/

/-- The `width` little-endian bytes of `value`; higher bits are dropped. -/
def littleEndian : (width value : Nat) → List UInt8
  | 0, _ => []
  | width + 1, value =>
      UInt8.ofNat (value % 256) :: littleEndian width (value / 256)

@[simp]
theorem length_littleEndian (width value : Nat) :
    (littleEndian width value).length = width := by
  induction width generalizing value with
  | zero => rfl
  | succ width inductionHypothesis =>
      simp [littleEndian, inductionHypothesis]

/-- Equal bytes are equality of the values modulo the width. -/
theorem littleEndian_eq_iff (width first second : Nat) :
    littleEndian width first = littleEndian width second ↔
      first % 256 ^ width = second % 256 ^ width := by
  induction width generalizing first second with
  | zero => simp [littleEndian, Nat.mod_one]
  | succ width inductionHypothesis =>
      have lowByte :
          UInt8.ofNat (first % 256) = UInt8.ofNat (second % 256) ↔
            first % 256 = second % 256 := by
        rw [← UInt8.toNat_inj, UInt8.toNat_ofNat', UInt8.toNat_ofNat']
        omega
      rw [littleEndian, littleEndian, List.cons.injEq, lowByte,
        inductionHypothesis, pow_succ', Nat.mod_mul, Nat.mod_mul]
      constructor
      · rintro ⟨low, high⟩
        rw [low, high]
      · intro equal
        have firstLow := Nat.mod_lt first (show 0 < 256 by decide)
        have secondLow := Nat.mod_lt second (show 0 < 256 by decide)
        omega

/-- Dropping the last byte is writing one byte less. -/
theorem dropLast_littleEndian (width value : Nat) :
    (littleEndian (width + 1) value).dropLast =
      littleEndian width value := by
  induction width generalizing value with
  | zero => rfl
  | succ width inductionHypothesis =>
      have tailNonempty : littleEndian (width + 1) (value / 256) ≠ [] := by
        simp [littleEndian]
      rw [littleEndian, List.dropLast_cons_of_ne_nil tailNonempty,
        inductionHypothesis, ← littleEndian]

/-- The number that a few little-endian bytes spell. -/
def leValue : List UInt8 → Nat
  | [] => 0
  | byte :: rest => byte.toNat + 256 * leValue rest

theorem leValue_littleEndian (width value : Nat) :
    leValue (littleEndian width value) = value % 256 ^ width := by
  induction width generalizing value with
  | zero => simp [littleEndian, leValue, Nat.mod_one]
  | succ width inductionHypothesis =>
      rw [littleEndian, leValue, inductionHypothesis,
        UInt8.toNat_ofNat_of_lt' (Nat.mod_lt _ (by decide)), pow_succ',
        Nat.mod_mul]

theorem leValue_lt (bytes : List UInt8) :
    leValue bytes < 256 ^ bytes.length := by
  induction bytes with
  | nil => exact Nat.one_pos
  | cons byte rest inductionHypothesis =>
      have small := byte.toNat_lt
      rw [leValue, List.length_cons, pow_succ']
      omega

/-- Writing the number that bytes spell gives the bytes back. -/
theorem littleEndian_leValue (bytes : List UInt8) :
    littleEndian bytes.length (leValue bytes) = bytes := by
  induction bytes with
  | nil => rfl
  | cons byte rest inductionHypothesis =>
      have small := byte.toNat_lt
      rw [leValue, List.length_cons, littleEndian,
        show (byte.toNat + 256 * leValue rest) / 256 = leValue rest by omega,
        show (byte.toNat + 256 * leValue rest) % 256 = byte.toNat by omega,
        inductionHypothesis, UInt8.ofNat_toNat]

theorem littleEndian_injective_of_lt
    {width : Nat} {field : α → Nat}
    (injective : Function.Injective field)
    (fits : ∀ value, field value < 256 ^ width) :
    Function.Injective (fun value => littleEndian width (field value)) := by
  intro first second equal
  have residues := (littleEndian_eq_iff width _ _).mp equal
  rw [Nat.mod_eq_of_lt (fits first), Nat.mod_eq_of_lt (fits second)] at residues
  exact injective residues

/-- A fixed-width integer field is self-delimiting. -/
theorem selfDelimiting_littleEndian
    {width : Nat} {field : α → Nat}
    (injective : Function.Injective field)
    (fits : ∀ value, field value < 256 ^ width) :
    SelfDelimiting (fun value => littleEndian width (field value)) :=
  selfDelimiting_of_fixedWidth
    (fun value => length_littleEndian width (field value))
    (littleEndian_injective_of_lt injective fits)

end DSValue.Lib.Encoding
