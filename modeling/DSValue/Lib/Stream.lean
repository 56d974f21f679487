import DSValue.Lib.Encoding

/-!
# Readers of byte streams

A reader takes what it needs from the front of a stream and fails when the
stream is too short or spells no value.  `Reads` relates a reader to the bytes
a writer produces: the reader gives the value back and stops right behind
them.  Fields, one after the other, and runs of records of a known number keep
the relation.
-/

namespace DSValue.Lib.Stream

open DSValue.Lib.Encoding

/-- Why a stream cannot be read. -/
inductive StreamError where
  | endOfData
  | nonCanonical
  | tooLarge
deriving DecidableEq

/-- A reader of values from the front of a stream. -/
abbrev Reader (α : Type) := StateT (List UInt8) (Except StreamError) α

variable {α β : Type}

/-- The next bytes of the stream. -/
def readBytes (width : Nat) : Reader (List UInt8) := fun stream =>
  if stream.length < width then .error .endOfData
  else .ok (stream.take width, stream.drop width)

/-- The number in the next little-endian bytes. -/
def readLittleEndian (width : Nat) : Reader Nat := do
  let bytes ← readBytes width
  pure (leValue bytes)

/-- A run of records. -/
def readMany (read : Reader α) : Nat → Reader (List α)
  | 0 => pure []
  | count + 1 => do
      let value ← read
      let values ← readMany read count
      pure (value :: values)

/-- The reader takes exactly these bytes and returns the value. -/
def Reads (read : Reader α) (bytes : List UInt8) (value : α) : Prop :=
  ∀ rest, read (bytes ++ rest) = .ok (value, rest)

theorem Reads.pure (value : α) : Reads (pure value) [] value :=
  fun _ => rfl

theorem bind_of_ok
    {read : Reader α} {next : α → Reader β} {stream rest : List UInt8}
    {value : α} (first : read stream = .ok (value, rest)) :
    (read >>= next) stream = next value rest := by
  simp only [bind, StateT.bind, Except.bind, first]

theorem bind_of_error
    {read : Reader α} {next : α → Reader β} {stream : List UInt8}
    {failure : StreamError} (first : read stream = .error failure) :
    (read >>= next) stream = .error failure := by
  simp only [bind, StateT.bind, Except.bind, first]

theorem reader_bind_eq_ok
    {read : Reader α} {next : α → Reader β} {stream : List UInt8}
    {result : β × List UInt8} :
    (read >>= next) stream = .ok result ↔
      ∃ value rest, read stream = .ok (value, rest) ∧
        next value rest = .ok result := by
  cases first : read stream with
  | error failure => simp [bind_of_error first]
  | ok taken =>
      rcases taken with ⟨value, rest⟩
      simp [bind_of_ok first]

theorem Reads.bind
    {read : Reader α} {next : α → Reader β} {bytes more : List UInt8}
    {value : α} {result : β}
    (first : Reads read bytes value) (second : Reads (next value) more result) :
    Reads (read >>= next) (bytes ++ more) result := by
  intro rest
  rw [List.append_assoc, bind_of_ok (first (more ++ rest))]
  exact second rest

theorem Reads.done
    {read : Reader α} {bytes : List UInt8} {value : α}
    (reads : Reads read bytes value) :
    read bytes = .ok (value, []) := by
  have atEnd := reads []
  rwa [List.append_nil] at atEnd

theorem reads_readBytes (bytes : List UInt8) :
    Reads (readBytes bytes.length) bytes bytes := by
  intro rest
  simp [readBytes]

theorem reads_readLittleEndian
    {width value : Nat} (fits : value < 256 ^ width) :
    Reads (readLittleEndian width) (littleEndian width value) value := by
  have taken := reads_readBytes (littleEndian width value)
  rw [length_littleEndian] at taken
  intro rest
  rw [readLittleEndian, bind_of_ok (taken rest), leValue_littleEndian,
    Nat.mod_eq_of_lt fits]
  rfl

theorem readBytes_eq_ok
    {width : Nat} {stream bytes rest : List UInt8} :
    readBytes width stream = .ok (bytes, rest) ↔
      bytes.length = width ∧ stream = bytes ++ rest := by
  constructor
  · intro read
    rw [readBytes] at read
    split_ifs at read with short
    cases read
    exact ⟨List.length_take_of_le (not_lt.mp short),
      (List.take_append_drop width stream).symm⟩
  · rintro ⟨rfl, rfl⟩
    exact reads_readBytes bytes rest

/-- A number is read from its own bytes, and from no others. -/
theorem readLittleEndian_eq_ok
    {width value : Nat} {stream rest : List UInt8} :
    readLittleEndian width stream = .ok (value, rest) ↔
      value < 256 ^ width ∧ stream = littleEndian width value ++ rest := by
  constructor
  · intro read
    rcases reader_bind_eq_ok.mp read with ⟨bytes, after, taken, spelled⟩
    rcases readBytes_eq_ok.mp taken with ⟨rfl, rfl⟩
    cases spelled
    exact ⟨leValue_lt bytes, by rw [littleEndian_leValue]⟩
  · rintro ⟨fits, rfl⟩
    exact reads_readLittleEndian fits rest

theorem Reads.many
    {read : Reader α} {write : α → List UInt8} {values : List α}
    (each : ∀ value ∈ values, Reads read (write value) value) :
    Reads (readMany read values.length) (values.flatMap write) values := by
  induction values with
  | nil => exact Reads.pure []
  | cons value values inductionHypothesis =>
      have later :=
        inductionHypothesis fun other member =>
          each other (List.mem_cons_of_mem _ member)
      rw [List.length_cons, readMany, List.flatMap_cons]
      refine (each value List.mem_cons_self).bind ?_
      rw [← List.append_nil (values.flatMap write)]
      exact later.bind (Reads.pure _)

/-! ## Records of a fixed width -/

/-- Any stream with enough bytes holds a record. -/
structure FixedWidth (read : Reader α) (width : Nat) : Prop where
  enough :
    ∀ stream, width ≤ stream.length →
      ∃ value, read stream = .ok (value, stream.drop width)
  short :
    ∀ stream, stream.length < width → read stream = .error .endOfData

theorem fixedWidth_readBytes (width : Nat) :
    FixedWidth (readBytes width) width := by
  constructor
  · intro stream enough
    exact ⟨stream.take width, if_neg (not_lt.mpr enough)⟩
  · intro stream short
    exact if_pos short

theorem FixedWidth.map
    {read : Reader α} {width : Nat} (fixed : FixedWidth read width)
    (convert : α → β) :
    FixedWidth (do let value ← read; pure (convert value)) width := by
  constructor
  · intro stream enough
    rcases fixed.enough stream enough with ⟨value, taken⟩
    exact ⟨convert value, by rw [bind_of_ok taken]; rfl⟩
  · intro stream short
    exact bind_of_error (fixed.short stream short)

theorem FixedWidth.bind
    {read : Reader α} {next : α → Reader β} {width : Nat}
    (first : FixedWidth read width) (more : Nat)
    (second : ∀ value, FixedWidth (next value) more) :
    FixedWidth (read >>= next) (width + more) := by
  constructor
  · intro stream enough
    rcases first.enough stream (by omega) with ⟨value, taken⟩
    rcases (second value).enough (stream.drop width)
        (by rw [List.length_drop]; omega) with ⟨result, rest⟩
    exact ⟨result, by rw [bind_of_ok taken, rest, List.drop_drop]⟩
  · intro stream short
    by_cases early : stream.length < width
    · exact bind_of_error (first.short stream early)
    · rcases first.enough stream (not_lt.mp early) with ⟨value, taken⟩
      rw [bind_of_ok taken]
      apply (second value).short
      rw [List.length_drop]
      omega

theorem FixedWidth.many
    {read : Reader α} {width : Nat} (fixed : FixedWidth read width)
    (count : Nat) :
    FixedWidth (readMany read count) (count * width) := by
  induction count with
  | zero =>
      constructor
      · intro stream _
        exact ⟨[], by rw [Nat.zero_mul, List.drop_zero]; rfl⟩
      · intro stream short
        omega
  | succ count inductionHypothesis =>
      constructor
      · intro stream enough
        rw [Nat.succ_mul] at enough ⊢
        rcases fixed.enough stream (by omega) with ⟨value, taken⟩
        rcases inductionHypothesis.enough (stream.drop width)
            (by rw [List.length_drop]; omega) with ⟨values, rest⟩
        refine ⟨value :: values, ?_⟩
        rw [readMany, bind_of_ok taken, bind_of_ok rest, List.drop_drop,
          Nat.add_comm width]
        rfl
      · intro stream short
        rw [Nat.succ_mul] at short
        rw [readMany]
        by_cases first : stream.length < width
        · exact bind_of_error (fixed.short stream first)
        · rcases fixed.enough stream (not_lt.mp first) with ⟨value, taken⟩
          rw [bind_of_ok taken]
          refine bind_of_error (inductionHypothesis.short _ ?_)
          rw [List.length_drop]
          omega

end DSValue.Lib.Stream
