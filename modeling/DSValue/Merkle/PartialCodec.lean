import DSValue.Core.Deserialize
import DSValue.Merkle.PartialTree
import Mathlib.Data.Nat.Bitwise

/-!
# Serialization of partial merkle trees

The bits of a partial tree are packed eight to a byte, the least significant
bit first.  Reading fills the last byte up with zeros and forgets the flag.
-/

namespace DSValue.Merkle.PartialCodec

open DSValue.Lib.Stream
open DSValue.Core.Serialize
open DSValue.Core.Deserialize
open DSValue.Merkle.PartialTree

/-! ## Bits and bytes -/

/-- `vBytes[p / 8] |= vBits[p] << (p % 8)`. -/
def packBit (vBits : List Bool) (vBytes : List UInt8) (p : Nat) : List UInt8 :=
  vBytes.modify (p / 8) fun byte =>
    byte ||| (vBits[p]?.getD false).toUInt8 <<< UInt8.ofNat (p % 8)

/-- `vBytes` when a partial tree is written. -/
def packBits (vBits : List Bool) : List UInt8 :=
  (List.range vBits.length).foldl (packBit vBits)
    (List.replicate ((vBits.length + 7) / 8) 0)

/-- `vBits` when a partial tree is read. -/
def unpackBits (vBytes : List UInt8) : List Bool :=
  (List.range (vBytes.length * 8)).map fun p =>
    vBytes[p / 8]?.getD 0 &&& 1 <<< UInt8.ofNat (p % 8) != 0

/-- The bit at a position. -/
def bitAt (vBytes : List UInt8) (p : Nat) : Bool :=
  (vBytes[p / 8]?.getD 0).toNat.testBit (p % 8)

theorem toNat_shift (bit : Bool) {offset : Nat} (small : offset < 8) :
    (bit.toUInt8 <<< UInt8.ofNat offset).toNat = bit.toNat * 2 ^ offset := by
  have all : ∀ bit : Bool, ∀ offset < 8,
      (bit.toUInt8 <<< UInt8.ofNat offset).toNat = bit.toNat * 2 ^ offset := by
    decide
  exact all bit offset small

theorem and_shift_ne_zero (byte : UInt8) {offset : Nat} (small : offset < 8) :
    (byte &&& 1 <<< UInt8.ofNat offset != 0) = byte.toNat.testBit offset := by
  have one := toNat_shift true small
  rw [Bool.eq_iff_iff, bne_iff_ne, ne_eq, ← UInt8.toNat_inj, UInt8.toNat_and,
    show (1 : UInt8) = true.toUInt8 from rfl, one, Bool.toNat_true, Nat.one_mul,
    Nat.and_two_pow]
  cases byte.toNat.testBit offset <;> simp

theorem testBit_or_shift
    (byte : UInt8) (bit : Bool) {offset other : Nat} (small : offset < 8) :
    (byte ||| bit.toUInt8 <<< UInt8.ofNat offset).toNat.testBit other =
      (byte.toNat.testBit other || decide (offset = other) && bit) := by
  rw [UInt8.toNat_or, toNat_shift bit small, Nat.testBit_or]
  cases bit
  · simp
  · simp [Nat.testBit_two_pow]

theorem bitAt_packBit
    (vBits : List Bool) (vBytes : List UInt8) {p q : Nat}
    (inside : q / 8 < vBytes.length) :
    bitAt (packBit vBits vBytes p) q =
      (bitAt vBytes q || decide (p = q) && vBits[p]?.getD false) := by
  rw [bitAt, packBit, List.getElem?_modify, List.getElem?_eq_getElem inside]
  simp only [Option.map_eq_map, Option.map_some, Option.getD_some]
  rw [bitAt, List.getElem?_eq_getElem inside, Option.getD_some]
  split_ifs with sameByte
  · rw [testBit_or_shift _ _ (Nat.mod_lt p (by decide))]
    congr 2
    rw [decide_eq_decide]
    omega
  · rw [decide_eq_false (by rintro rfl; exact sameByte rfl), Bool.false_and,
      Bool.or_false]

theorem foldl_packBit
    (vBits : List Bool) (vBytes : List UInt8) (count : Nat) :
    ((List.range count).foldl (packBit vBits) vBytes).length = vBytes.length ∧
      ∀ q, q / 8 < vBytes.length →
        bitAt ((List.range count).foldl (packBit vBits) vBytes) q =
          (bitAt vBytes q || decide (q < count) && vBits[q]?.getD false) := by
  induction count with
  | zero => simp
  | succ count inductionHypothesis =>
      rcases inductionHypothesis with ⟨length, bits⟩
      rw [List.range_succ, List.foldl_append, List.foldl_cons, List.foldl_nil]
      refine ⟨by rw [packBit, List.length_modify, length], ?_⟩
      intro q inside
      rw [bitAt_packBit vBits _ (by rw [length]; exact inside), bits q inside]
      by_cases last : count = q
      · subst last
        simp
      · have earlier : q < count ↔ q < count + 1 := by omega
        simp [last, earlier]

theorem length_packBits (vBits : List Bool) :
    (packBits vBits).length = (vBits.length + 7) / 8 := by
  rw [packBits, (foldl_packBit _ _ _).1, List.length_replicate]

theorem bitAt_packBits
    (vBits : List Bool) {p : Nat} (inside : p / 8 < (vBits.length + 7) / 8) :
    bitAt (packBits vBits) p = vBits[p]?.getD false := by
  rw [packBits, (foldl_packBit _ _ _).2 p (by rwa [List.length_replicate])]
  have zero :
      bitAt (List.replicate ((vBits.length + 7) / 8) 0) p = false := by
    rw [bitAt, List.getElem?_replicate_of_lt inside]
    simp
  rw [zero, Bool.false_or]
  by_cases known : p < vBits.length
  · rw [decide_eq_true known, Bool.true_and]
  · rw [List.getElem?_eq_none (not_lt.mp known), Option.getD_none, Bool.and_false]

/-- Reading the bits fills the last byte up. -/
theorem unpackBits_packBits (vBits : List Bool) :
    unpackBits (packBits vBits) =
      vBits ++
        List.replicate ((vBits.length + 7) / 8 * 8 - vBits.length) false := by
  apply List.ext_getElem
  · rw [unpackBits, List.length_map, List.length_range, length_packBits,
      List.length_append, List.length_replicate]
    omega
  · intro p inside padded
    rw [unpackBits, List.length_map, List.length_range,
      length_packBits] at inside
    simp only [unpackBits, List.getElem_map, List.getElem_range]
    rw [and_shift_ne_zero _ (Nat.mod_lt p (by decide))]
    refine (bitAt_packBits vBits (by omega)).trans ?_
    rw [List.getElem_append]
    split_ifs with known
    · rw [List.getElem?_eq_getElem known, Option.getD_some]
    · rw [List.getElem?_eq_none (not_lt.mp known), Option.getD_none,
        List.getElem_replicate]

/-! ## Partial trees -/

/-- `Serialize` of a partial merkle tree. -/
def writePartialMerkleTree (tree : CPartialMerkleTree) : List UInt8 :=
  writeUInt32 tree.nTransactions ++
    (writeVector writeUint256 tree.vHash ++
      writeVector (fun byte => [byte]) (packBits tree.vBits))

/-- `Unserialize` of a partial merkle tree. -/
def readPartialMerkleTree : Reader CPartialMerkleTree := do
  let nTransactions ← readUInt32
  let vHash ← readVector readUint256
  let vBytes ← readByteVector
  pure ⟨nTransactions, unpackBits vBytes, vHash, false⟩

/-- What a partial tree is read back as. -/
def reread (tree : CPartialMerkleTree) : CPartialMerkleTree :=
  { tree with
    vBits := unpackBits (packBits tree.vBits)
    fBad := false }

theorem reads_readByteVector
    {vBytes : List UInt8} (small : vBytes.length ≤ MAX_SIZE) :
    Reads readByteVector (writeVector (fun byte => [byte]) vBytes) vBytes := by
  rw [writeVector, List.flatMap_singleton']
  exact (reads_readCompactSize small).bind (reads_readBytes vBytes)

theorem reads_readPartialMerkleTree
    {tree : CPartialMerkleTree} (fewBits : (tree.vBits.length + 7) / 8 ≤ MAX_SIZE)
    (fewHashes : tree.vHash.length ≤ MAX_SIZE) :
    Reads readPartialMerkleTree (writePartialMerkleTree tree) (reread tree) := by
  have bits := @reads_readByteVector (packBits tree.vBits)
    (by rwa [length_packBits])
  have hashes :=
    reads_readVector fewHashes fun value _ => reads_readUint256 value
  rw [writePartialMerkleTree]
  refine (reads_readUInt32 tree.nTransactions).bind (hashes.bind ?_)
  rw [← List.append_nil (writeVector _ (packBits tree.vBits))]
  exact bits.bind (Reads.pure _)

end DSValue.Merkle.PartialCodec
