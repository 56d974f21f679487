import DSValue.Core.Deserialize
import DSValue.Core.Transaction

/-!
# Reading blocks from a file

`CBufferedFile` reads a file through a buffer that can be rewound.  At the end
of the file it fails for good, while a limit or a spelling that no writer
produces only ends the reading of one block.  Objects are read field by field,
and the entries of the Bitcoin hash map in any order.
-/

namespace DSValue.Chain.BufferedFile

open DSValue.Lib
open DSValue.Lib.Encoding
open DSValue.Lib.Stream (StreamError)
open DSValue.Core.Serialize
open DSValue.Core.Header
open DSValue.Core.Transaction
open DSValue.Core.Deserialize (MAX_SIZE)
open DSValue.Script.Scan (CScript)

/-- `CBufferedFile`: `feof` of its source, and whether `failbit` is set. -/
structure CBufferedFile where
  src : List UInt8
  nSrcPos : Nat
  nReadPos : Nat
  nReadLimit : Nat
  nRewind : Nat
  nBufSize : Nat
  fEof : Bool
  fFail : Bool

/-- What reads from the file, and leaves it somewhere also when it throws. -/
abbrev FileReader (α : Type) := ExceptT StreamError (StateM CBufferedFile) α

namespace CBufferedFile

/-- A file that was opened. -/
def create (fileIn : List UInt8) (nBufSize nRewindIn : Nat) : CBufferedFile where
  src := fileIn
  nSrcPos := 0
  nReadPos := 0
  nReadLimit := 2 ^ 64 - 1
  nRewind := nRewindIn
  nBufSize := nBufSize
  fEof := false
  fFail := false

def good (blkdat : CBufferedFile) : Bool := !blkdat.fFail

def eof (blkdat : CBufferedFile) : Bool :=
  blkdat.nReadPos = blkdat.nSrcPos && blkdat.fEof

/-- `SetPos`. -/
def setPos (blkdat : CBufferedFile) (nPos : Nat) : CBufferedFile :=
  { blkdat with
    nReadPos :=
      if nPos + blkdat.nRewind < blkdat.nSrcPos then
        blkdat.nSrcPos - blkdat.nRewind
      else if blkdat.nSrcPos < nPos then blkdat.nSrcPos
      else nPos }

/-- `Seek`. -/
def seek (blkdat : CBufferedFile) (nPos : Nat) : CBufferedFile :=
  { blkdat with nSrcPos := nPos, nReadPos := nPos, fEof := false, fFail := false }

/-- `SetLimit`. -/
def setLimit (blkdat : CBufferedFile) (nPos : Nat) : CBufferedFile :=
  if nPos < blkdat.nReadPos then blkdat else { blkdat with nReadLimit := nPos }

/-- How much `Fill` asks for. -/
def readNow (blkdat : CBufferedFile) : Nat :=
  min (blkdat.nBufSize - blkdat.nSrcPos % blkdat.nBufSize)
    (blkdat.nBufSize - (blkdat.nSrcPos - blkdat.nReadPos) - blkdat.nRewind)

/-- `Fill`. -/
def fill : FileReader Unit := do
  let blkdat ← get
  let read := min blkdat.readNow (blkdat.src.length - blkdat.nSrcPos)
  if blkdat.readNow = 0 then pure ()
  else if read = 0 then do
    set { blkdat with fEof := true, fFail := true }
    throw .endOfData
  else
    set
      { blkdat with
        nSrcPos := blkdat.nSrcPos + read
        fEof := blkdat.fEof || decide (read < blkdat.readNow) }

/-- The byte at the reading position, in the buffer if need be. -/
def peek : FileReader UInt8 := do
  let blkdat ← get
  if blkdat.nReadPos = blkdat.nSrcPos then fill
  match blkdat.src[blkdat.nReadPos]? with
  | none => throw .endOfData
  | some byte => pure byte

def advance : FileReader Unit :=
  modify fun blkdat => { blkdat with nReadPos := blkdat.nReadPos + 1 }

/-- The bytes of a `read`, one after the other. -/
def readBytes : Nat → FileReader (List UInt8)
  | 0 => pure []
  | nSize + 1 => do
      let byte ← peek
      advance
      let bytes ← readBytes nSize
      pure (byte :: bytes)

/-- `read`. -/
def read (nSize : Nat) : FileReader (List UInt8) := do
  let blkdat ← get
  if blkdat.nReadLimit < nSize + blkdat.nReadPos then throw .tooLarge
  else if blkdat.nBufSize < nSize + blkdat.nRewind then throw .tooLarge
  else readBytes nSize

/-- `FindByte`, with a bound on the number of bytes that it passes over. -/
def findByte (ch : UInt8) : Nat → FileReader Unit
  | 0 => throw .endOfData
  | fuel + 1 => do
      let byte ← peek
      if byte = ch then pure ()
      else do
        advance
        findByte ch fuel

end CBufferedFile

/-! ## Objects -/

open CBufferedFile (read)

def readNumber (width : Nat) : FileReader Nat := do
  let bytes ← read width
  pure (leValue bytes)

def readInt32 : FileReader Int32 := do
  let value ← readNumber 4
  pure (Int32.ofBitVec (BitVec.ofNat 32 value))

def readUInt32 : FileReader UInt32 := do
  let value ← readNumber 4
  pure (UInt32.ofNat value)

def readInt64 : FileReader Int64 := do
  let value ← readNumber 8
  pure (Int64.ofBitVec (BitVec.ofNat 64 value))

def readUint256 : FileReader Uint256 := do
  let value ← readNumber 32
  pure (BitVec.ofNat 256 value)

/-- A size behind its marker, which may not fit a shorter form. -/
def readWideSize (width bound : Nat) : FileReader Nat := do
  let xSize ← readNumber width
  if xSize < bound then throw .nonCanonical else pure xSize

/-- `ReadCompactSize`. -/
def readCompactSize : FileReader Nat := do
  let chSize ← readNumber 1
  let nSizeRet ←
    if chSize < 253 then pure chSize
    else if chSize = 253 then readWideSize 2 253
    else if chSize = 254 then readWideSize 4 0x10000
    else readWideSize 8 0x100000000
  if MAX_SIZE < nSizeRet then throw .tooLarge else pure nSizeRet

def readMany {α : Type} (readOne : FileReader α) : Nat → FileReader (List α)
  | 0 => pure []
  | count + 1 => do
      let value ← readOne
      let values ← readMany readOne count
      pure (value :: values)

/-- `Unserialize` of a vector of objects. -/
def readVector {α : Type} (readOne : FileReader α) : FileReader (List α) := do
  let nSize ← readCompactSize
  readMany readOne nSize

/-- `Unserialize` of a vector of bytes. -/
def readScript : FileReader CScript := do
  let nSize ← readCompactSize
  read nSize

def readMapEntry : FileReader (Int32 × Uint256) := do
  let key ← readInt32
  let value ← readUint256
  pure (key, value)

/-- `Unserialize` of a map: an entry is inserted unless its key is there. -/
def readMap : FileReader (OrderedMap Int32 Uint256) := do
  let items ← readVector readMapEntry
  pure (items.foldl (fun m item => m.insert item.1 item.2) .empty)

def readLottoHeader : FileReader CLottoHeader := do
  let nVersion ← readInt32
  let mBitcoinHash ← readMap
  let llPool ← readInt64
  let nLottoID ← readInt32
  let uLottoKey ← readUint256
  pure ⟨nVersion, mBitcoinHash, llPool, nLottoID, uLottoKey⟩

def readHeader : FileReader CBlockHeader := do
  let nVersion ← readInt32
  let hashPrevBlock ← readUint256
  let hashMerkleRoot ← readUint256
  let nTime ← readUInt32
  let nBits ← readUInt32
  let nNonce ← readUInt32
  let lottoHeader ← readLottoHeader
  pure ⟨nVersion, hashPrevBlock, hashMerkleRoot, nTime, nBits, nNonce,
    lottoHeader⟩

def readTxIn : FileReader CTxIn := do
  let hash ← readUint256
  let n ← readUInt32
  let scriptSig ← readScript
  let nSequence ← readUInt32
  pure ⟨⟨hash, n⟩, scriptSig, nSequence⟩

def readTxOut : FileReader CTxOut := do
  let nValue ← readInt64
  let scriptPubKey ← readScript
  pure ⟨nValue, scriptPubKey⟩

def readTransaction : FileReader CTransaction := do
  let nVersion ← readInt32
  let vin ← readVector readTxIn
  let vout ← readVector readTxOut
  let nLockTime ← readUInt32
  pure ⟨nVersion, vin, vout, nLockTime⟩

/-- `blkdat >> block`. -/
def readBlock : FileReader CBlock := do
  let header ← readHeader
  let vtx ← readVector readTransaction
  pure { header with vtx := vtx }

end DSValue.Chain.BufferedFile
