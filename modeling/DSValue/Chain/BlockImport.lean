import DSValue.Chain.BlockFiles
import DSValue.Chain.BufferedFile
import DSValue.Consensus.CheckBlock

/-!
# Indexing block files and storing blocks

`LoadExternalBlockFile` looks for blocks in a file and hands them with their
positions to `ProcessBlock`.  `AcceptBlock` gets space for new blocks and
accounts for the others, and undo data gets space when blocks are connected.
The steps of the system are the passes of the loop over a file and the calls
for new blocks and undo data, in any order; it may stop and start again at any
time.  What `ProcessBlock` decides and whether there is space on the disk is
open.
-/

namespace DSValue.Chain.BlockImport

open DSValue.Lib
open DSValue.Lib.Allocation
open DSValue.Lib.Encoding
open DSValue.Core.Transaction
open DSValue.Script.Scan (Network)
open DSValue.Consensus.CheckBlock (MAX_BLOCK_SIZE)
open DSValue.Chain.BlockFiles
open DSValue.Chain.BufferedFile

/-- `CChainParams::MessageStart`. -/
def messageStart : Network → List UInt8
  | .main => [0xff, 0xfe, 0x1d, 0x20]
  | .testnet => [0xfe, 0x2d, 0x1c, 0x0d]
  | .regtest => [0xfc, 0x1d, 0x2d, 0x3d]

/-! ## A pass over a file -/

/-- The header in front of a block: `nRewind`, and the size if it is one. -/
def findHeader (network : Network) : FileReader (Nat × Option Nat) := do
  let blkdat ← get
  CBufferedFile.findByte ((messageStart network).headD 0)
    (blkdat.src.length + 1)
  let blkdat ← get
  let nRewind := blkdat.nReadPos + 1
  let buf ← CBufferedFile.read 4
  if buf ≠ messageStart network then pure (nRewind, none)
  else do
    let nSize ← readNumber 4
    if nSize < 80 ∨ MAX_BLOCK_SIZE < nSize then pure (nRewind, none)
    else pure (nRewind, some nSize)

/-- What a pass of the loop comes to. -/
inductive Pass where
  | stopped
  | again (blkdat : CBufferedFile) (nRewind : Nat)
  | found (nBlockPos : Nat) (block : CBlock) (blkdat : CBufferedFile)

/-- The part of a pass in front of `ProcessBlock`. -/
def searchPass (network : Network) (blkdat : CBufferedFile) (nRewind : Nat) :
    Pass :=
  if !blkdat.good || blkdat.eof then .stopped
  else
    match findHeader network
        ((blkdat.setPos nRewind).setLimit (2 ^ 64 - 1)) with
    | (.error _, _) => .stopped
    | (.ok (nRewind, none), blkdat) => .again blkdat nRewind
    | (.ok (nRewind, some nSize), blkdat) =>
        let nBlockPos := blkdat.nReadPos
        match readBlock (blkdat.setLimit (nBlockPos + nSize)) with
        | (.error _, blkdat) => .again blkdat nRewind
        | (.ok block, blkdat) => .found nBlockPos block blkdat

/-- A file that is being read, with the number that `dbp` holds. -/
structure Scan where
  dbp : Option Nat
  blkdat : CBufferedFile
  nStartByte : Nat
  nRewind : Nat

/-- The beginning of `LoadExternalBlockFile`. -/
def openScan (files : FileSpace) (dbp : Option Nat) (fileIn : List UInt8) :
    Scan :=
  let blkdat :=
    CBufferedFile.create fileIn (2 * MAX_BLOCK_SIZE) (MAX_BLOCK_SIZE + 8)
  match dbp.bind files.readBlockFileInfo with
  | none => ⟨dbp, blkdat, 0, blkdat.nReadPos⟩
  | some info =>
      let blkdat := blkdat.seek info.nSize.toNat
      ⟨dbp, blkdat, info.nSize.toNat, blkdat.nReadPos⟩

/-! ## The system -/

/-- The files, the file being read, and the space in use. -/
structure System where
  files : FileSpace
  scan : Option Scan
  blocks : List (Range Nat)
  newBlocks : List (Range Nat)
  undos : List (Range Nat)

/-- An empty block tree database. -/
def System.start : System := ⟨.empty, none, [], [], []⟩

/-- Where a block was found: `dbp`, and the position behind the block. -/
structure Known where
  nFile : Nat
  nBlockPos : Nat
  nEnd : Nat

/-- `GetSerializeSize` of a block. -/
def blockSize (block : CBlock) : Nat := block.serialize.length

/-- The space of a block that was found. -/
def Known.range (known : Known) : Range Nat :=
  ⟨known.nFile, known.nBlockPos - 8, known.nEnd⟩

/-- The space of a block that was written, with the index header. -/
def newRange (pos : CDiskBlockPos) (nAddSize : Nat) : Range Nat :=
  ⟨pos.nFile, pos.nPos.toNat, pos.nPos.toNat + nAddSize⟩

/--
`AcceptBlock` at its block position.  There is no result when `FindBlockPos`
does not end.
-/
def acceptBlock (system : System) (block : CBlock) (dbp : Option Known)
    (nHeight : UInt32) (fDiskSpace : Bool) : Option System := do
  let nAddSize := UInt32.ofNat (blockSize block) + 8
  let blockPos : CDiskBlockPos :=
    match dbp with
    | none => ⟨0, 0⟩
    | some known => ⟨known.nFile, UInt32.ofNat known.nBlockPos⟩
  let (files, result) ←
    findBlockPos system.files blockPos nAddSize nHeight block.nTime.toUInt64
      dbp.isSome fDiskSpace
  match result, dbp with
  | none, _ => some { system with files := files }
  | some _, some known =>
      some { system with files := files, blocks := known.range :: system.blocks }
  | some pos, none =>
      some
        { system with
          files := files
          blocks := newRange pos (blockSize block + 8) :: system.blocks
          newBlocks := newRange pos (blockSize block + 8) :: system.newBlocks }

/-- `ConnectBlock` where it writes undo data. -/
def writeUndoData (system : System) (nFile nSize : Nat) (fDiskSpace : Bool) :
    System :=
  match findUndoPos system.files nFile (UInt32.ofNat nSize + 40) fDiskSpace with
  | (files, none) => { system with files := files }
  | (files, some pos) =>
      { system with
        files := files
        undos := newRange pos (nSize + 40) :: system.undos }

/-- What `ProcessBlock` decides, and whether the state is in error behind it. -/
structure Processed where
  fAccepted : Bool
  nHeight : UInt32
  fDiskSpace : Bool
  fError : Bool

/-- `ProcessBlock` for a block that was found. -/
def processBlock (system : System) (scan : Scan) (nBlockPos : Nat)
    (block : CBlock) (nEnd : Nat) (processed : Processed) : Option System :=
  if processed.fAccepted ∧ blockSize block ≤ MAX_BLOCK_SIZE then
    acceptBlock system block (scan.dbp.map fun nFile => ⟨nFile, nBlockPos, nEnd⟩)
      processed.nHeight processed.fDiskSpace
  else some system

/-- A block behind `nStartByte` goes to `ProcessBlock`. -/
def handleFound (system : System) (scan : Scan) (nBlockPos : Nat)
    (block : CBlock) (nEnd : Nat) (processed : Processed) : Option System :=
  if scan.nStartByte ≤ nBlockPos then
    processBlock system scan nBlockPos block nEnd processed
  else some system

/-- The loop is left when the state is in error. -/
def Scan.next (scan : Scan) (nBlockPos : Nat) (blkdat : CBufferedFile)
    (processed : Processed) : Option Scan :=
  if scan.nStartByte ≤ nBlockPos ∧ processed.fError then none
  else some { scan with blkdat := blkdat, nRewind := blkdat.nReadPos }

/-- What can happen. -/
inductive Event where
  | openFile (dbp : Option Nat) (fileIn : List UInt8)
  | readOn (processed : Processed)
  | restart
  | accept (block : CBlock) (nHeight : UInt32) (fDiskSpace : Bool)
  | connect (nFile nSize : Nat) (fDiskSpace : Bool)

/-- A step; there is none where the event cannot happen or does not end. -/
def step (network : Network) (system : System) : Event → Option System
  | .openFile dbp fileIn =>
      if system.scan.isNone then
        some { system with scan := some (openScan system.files dbp fileIn) }
      else none
  | .readOn processed => do
      let scan ← system.scan
      match searchPass network scan.blkdat scan.nRewind with
      | .stopped => some { system with scan := none }
      | .again blkdat nRewind =>
          some
            { system with
              scan := some { scan with blkdat := blkdat, nRewind := nRewind } }
      | .found nBlockPos block blkdat =>
          (handleFound system scan nBlockPos block blkdat.nReadPos processed).map
            fun after =>
              { after with scan := scan.next nBlockPos blkdat processed }
  | .restart => some { system with files := system.files.restart, scan := none }
  | .accept block nHeight fDiskSpace =>
      if blockSize block ≤ MAX_BLOCK_SIZE then
        acceptBlock system block none nHeight fDiskSpace
      else none
  | .connect nFile nSize fDiskSpace =>
      some (writeUndoData system nFile nSize fDiskSpace)

/-! ## Space is not given out twice -/

variable {network : Network} {system next : System} {event : Event}
  {block : CBlock} {dbp : Option Known} {known : Known} {nHeight : UInt32}
  {fDiskSpace : Bool} {nFile nSize : Nat}

/--
A block that was found lies, with the 8 bytes in front of it, right behind the
mark of its file, as many bytes as are written for it, below 2^32.
-/
structure InPlace (files : FileSpace) (known : Known) (block : CBlock) :
    Prop where
  atMark : known.nBlockPos = (current files known.nFile).nSize.toNat + 8
  sameSize : known.nEnd = known.nBlockPos + blockSize block
  fits : known.nEnd < 2 ^ 32

instance (files : FileSpace) (known : Known) (block : CBlock) :
    Decidable (InPlace files known block) :=
  decidable_of_iff
    (known.nBlockPos = (current files known.nFile).nSize.toNat + 8 ∧
      known.nEnd = known.nBlockPos + blockSize block ∧ known.nEnd < 2 ^ 32)
    ⟨fun holds => ⟨holds.1, holds.2.1, holds.2.2⟩,
      fun inPlace => ⟨inPlace.atMark, inPlace.sameSize, inPlace.fits⟩⟩

/-- No addition to the mark of a file that is looked at wraps around. -/
def NoWrap (files : FileSpace) (nAddSize : Nat) : Prop :=
  ∀ nFile, Visited files nAddSize nFile →
    (current files nFile).nSize.toNat + nAddSize < 2 ^ 32

/-- The condition on a block that is accepted. -/
def AcceptMeets (files : FileSpace) (block : CBlock) : Option Known → Prop
  | none => NoWrap files (blockSize block + 8)
  | some known => InPlace files known block

/-- The condition on a step. -/
def Meets (network : Network) (system : System) : Event → Prop
  | .openFile _ _ => True
  | .readOn processed =>
      ∀ scan nBlockPos block blkdat, system.scan = some scan →
        searchPass network scan.blkdat scan.nRewind =
          .found nBlockPos block blkdat →
        scan.nStartByte ≤ nBlockPos → processed.fAccepted = true →
        AcceptMeets system.files block
          (scan.dbp.map fun nFile => ⟨nFile, nBlockPos, blkdat.nReadPos⟩)
  | .restart => True
  | .accept block _ _ => NoWrap system.files (blockSize block + 8)
  | .connect nFile nSize _ =>
      (current system.files nFile).nUndoSize.toNat + (nSize + 40) < 2 ^ 32

/-- The ranges lie below the marks in the database. -/
structure Sound (system : System) : Prop where
  ahead : Ahead system.files
  blocks : Below (blockMark system.files) system.blocks
  undos : Below (undoMark system.files) system.undos
  below :
    ∀ range ∈ system.newBlocks, range.stop < MAX_BLOCKFILE_SIZE.toNat

theorem sound_start : Sound System.start :=
  ⟨⟨le_refl _, le_refl _⟩, Below.nil _, Below.nil _, nofun⟩

theorem toNat_blockAddSize (small : blockSize block ≤ MAX_BLOCK_SIZE) :
    (UInt32.ofNat (blockSize block) + 8).toNat = blockSize block + 8 := by
  rw [MAX_BLOCK_SIZE] at small
  have size : (UInt32.ofNat (blockSize block)).toNat = blockSize block :=
    UInt32.toNat_ofNat_of_lt' (lt_of_le_of_lt small (by decide))
  have eight : (8 : UInt32).toNat = 8 := rfl
  rw [toNat_add (by rw [size, eight]; omega), size, eight]

theorem blockAddSize_lt (small : blockSize block ≤ MAX_BLOCK_SIZE) :
    UInt32.ofNat (blockSize block) + 8 < MAX_BLOCKFILE_SIZE := by
  have size := toNat_blockAddSize small
  have limit : MAX_BLOCKFILE_SIZE.toNat = 134217728 := rfl
  rw [MAX_BLOCK_SIZE] at small
  rw [UInt32.lt_iff_toNat_lt, size, limit]
  omega

/-- A block that was found is accounted for where it lies. -/
theorem acceptBlock_known
    (sound : Sound system) (small : blockSize block ≤ MAX_BLOCK_SIZE)
    (inPlace : InPlace system.files known block) (nHeight : UInt32)
    (fDiskSpace : Bool) :
    ∃ next,
      acceptBlock system block (some known) nHeight fDiskSpace = some next ∧
        Sound next := by
  have size := toNat_blockAddSize small
  have atMark := inPlace.atMark
  have sameSize := inPlace.sameSize
  have end32 := inPlace.fits
  have fits :
      (current system.files known.nFile).nSize.toNat +
        (UInt32.ofNat (blockSize block) + 8).toNat < 2 ^ 32 := by
    omega
  rcases findBlockPos_known sound.ahead
      ⟨known.nFile, UInt32.ofNat known.nBlockPos⟩ fits nHeight
      block.nTime.toUInt64 fDiskSpace with ⟨files, found, ahead, grows, mark⟩
  rw [acceptBlock]
  dsimp only [Option.isSome_some]
  rw [found]
  refine ⟨_, rfl, ahead, ?_, sound.undos.mono grows.undo, sound.below⟩
  have behind := sound.ahead.current_block known.nFile
  dsimp only at mark
  refine sound.blocks.cons grows.block ?_ ?_
  · rw [Known.range]
    dsimp only
    omega
  · rw [Known.range]
    dsimp only
    rw [mark, size]
    omega

/-- A new block gets space of its own. -/
theorem acceptBlock_new
    (sound : Sound system) (small : blockSize block ≤ MAX_BLOCK_SIZE)
    (noWrap : NoWrap system.files (blockSize block + 8)) (nHeight : UInt32)
    (fDiskSpace : Bool) :
    ∃ next,
      acceptBlock system block none nHeight fDiskSpace = some next ∧
        Sound next := by
  have size := toNat_blockAddSize small
  rcases findBlockPos_new sound.ahead (blockAddSize_lt small)
      (by rw [size]; exact noWrap) ⟨0, 0⟩ nHeight block.nTime.toUInt64
      fDiskSpace with ⟨files, result, found, ahead, grows, placed⟩
  rw [acceptBlock]
  dsimp only [Option.isSome_none]
  rw [found]
  cases result with
  | none =>
      exact ⟨_, rfl, ahead, sound.blocks.mono grows.block,
        sound.undos.mono grows.undo, sound.below⟩
  | some pos =>
      have isPlaced := placed pos rfl
      have covered := isPlaced.covered
      have below := isPlaced.below
      rw [size] at covered below
      refine ⟨_, rfl, ahead, ?_, sound.undos.mono grows.undo, ?_⟩
      · exact sound.blocks.cons grows.block isPlaced.behind covered
      · intro range member
        rcases List.mem_cons.mp member with rfl | earlier
        · exact below
        · exact sound.below range earlier

theorem sound_writeUndoData
    (sound : Sound system)
    (fits :
      (current system.files nFile).nUndoSize.toNat + (nSize + 40) < 2 ^ 32)
    (fDiskSpace : Bool) :
    Sound (writeUndoData system nFile nSize fDiskSpace) := by
  have size : (UInt32.ofNat nSize + 40).toNat = nSize + 40 := by
    have known : (UInt32.ofNat nSize).toNat = nSize :=
      UInt32.toNat_ofNat_of_lt' (show nSize < 2 ^ 32 by omega)
    have forty : (40 : UInt32).toNat = 40 := rfl
    rw [toNat_add (by rw [known, forty]; omega), known, forty]
  have spec := @findUndoPos_spec system.files nFile (UInt32.ofNat nSize + 40)
    sound.ahead (by rw [size]; exact fits) fDiskSpace
  rw [writeUndoData]
  generalize findUndoPos system.files nFile (UInt32.ofNat nSize + 40)
    fDiskSpace = allocated at spec ⊢
  rcases allocated with ⟨files, result⟩
  rcases spec with ⟨ahead, grows, placed⟩
  cases result with
  | none =>
      exact ⟨ahead, sound.blocks.mono grows.block, sound.undos.mono grows.undo,
        sound.below⟩
  | some pos =>
      rcases placed pos rfl with ⟨rfl, behind, covered⟩
      rw [size] at covered
      exact ⟨ahead, sound.blocks.mono grows.block,
        sound.undos.cons grows.undo behind covered, sound.below⟩

theorem sound_acceptBlock
    (sound : Sound system) (small : blockSize block ≤ MAX_BLOCK_SIZE)
    (meets : AcceptMeets system.files block dbp)
    (ran : acceptBlock system block dbp nHeight fDiskSpace = some next) :
    Sound next := by
  cases dbp with
  | none =>
      rcases acceptBlock_new sound small meets nHeight fDiskSpace with
        ⟨_, same, after⟩
      cases same.symm.trans ran
      exact after
  | some known =>
      rcases acceptBlock_known sound small meets nHeight fDiskSpace with
        ⟨_, same, after⟩
      cases same.symm.trans ran
      exact after

theorem sound_handleFound
    {scan : Scan} {nBlockPos nEnd : Nat} {processed : Processed}
    (sound : Sound system)
    (meets : scan.nStartByte ≤ nBlockPos → processed.fAccepted = true →
      AcceptMeets system.files block
        (scan.dbp.map fun nFile => ⟨nFile, nBlockPos, nEnd⟩))
    (ran : handleFound system scan nBlockPos block nEnd processed = some next) :
    Sound next := by
  rw [handleFound] at ran
  split_ifs at ran with behind
  · rw [processBlock] at ran
    split_ifs at ran with accepted
    · exact sound_acceptBlock sound accepted.2 (meets behind accepted.1) ran
    · cases ran
      exact sound
  · cases ran
    exact sound

/-- A step that meets the condition keeps the ranges apart. -/
theorem sound_step
    (sound : Sound system) (meets : Meets network system event)
    (stepped : step network system event = some next) : Sound next := by
  cases event with
  | openFile dbp fileIn =>
      rw [step] at stepped
      split_ifs at stepped
      cases stepped
      exact ⟨sound.ahead, sound.blocks, sound.undos, sound.below⟩
  | readOn processed =>
      rw [step] at stepped
      rcases Option.bind_eq_some_iff.mp stepped with ⟨scan, isScan, ran⟩
      have condition := fun nBlockPos block blkdat =>
        meets scan nBlockPos block blkdat isScan
      cases passed : searchPass network scan.blkdat scan.nRewind with
      | stopped =>
          rw [passed] at ran
          cases ran
          exact ⟨sound.ahead, sound.blocks, sound.undos, sound.below⟩
      | again blkdat nRewind =>
          rw [passed] at ran
          cases ran
          exact ⟨sound.ahead, sound.blocks, sound.undos, sound.below⟩
      | found nBlockPos block blkdat =>
          rw [passed] at ran
          rcases Option.map_eq_some_iff.mp ran with ⟨after, handled, rfl⟩
          have soundAfter := sound_handleFound sound
            (condition nBlockPos block blkdat passed) handled
          exact ⟨soundAfter.ahead, soundAfter.blocks, soundAfter.undos,
            soundAfter.below⟩
  | restart =>
      cases stepped
      exact ⟨ahead_switchTo _ _, sound.blocks, sound.undos, sound.below⟩
  | accept block nHeight fDiskSpace =>
      rw [step] at stepped
      split_ifs at stepped with small
      have noWrap : AcceptMeets system.files block none := meets
      exact sound_acceptBlock sound small noWrap stepped
  | connect nFile nSize fDiskSpace =>
      cases stepped
      exact sound_writeUndoData sound meets fDiskSpace

/-- The systems that a run reaches when every step meets the condition. -/
inductive Reaches (network : Network) : System → Prop where
  | start : Reaches network System.start
  | step {system next : System} {event : Event}
      (reaches : Reaches network system) (meets : Meets network system event)
      (stepped : BlockImport.step network system event = some next) :
      Reaches network next

/--
No space was given out twice, new blocks lie below the size limit of a file,
and the search for a file with room ends.
-/
structure Safe (system : System) : Prop where
  blocks : system.blocks.Pairwise Range.Apart
  undos : system.undos.Pairwise Range.Apart
  below :
    ∀ range ∈ system.newBlocks, range.stop < MAX_BLOCKFILE_SIZE.toNat
  ends :
    ∀ (block : CBlock) pos nHeight fDiskSpace,
      blockSize block ≤ MAX_BLOCK_SIZE →
        ∃ result,
          findBlockPos system.files pos (UInt32.ofNat (blockSize block) + 8)
            nHeight block.nTime.toUInt64 false fDiskSpace = some result

theorem sound_of_reaches (reaches : Reaches network system) : Sound system := by
  induction reaches with
  | start => exact sound_start
  | step _ meets stepped inductionHypothesis =>
      exact sound_step inductionHypothesis meets stepped

/-- Space is safe in every system that is reached. -/
theorem safe_of_reaches (reaches : Reaches network system) : Safe system := by
  have sound := sound_of_reaches reaches
  refine ⟨sound.blocks.apart, sound.undos.apart, sound.below, ?_⟩
  intro block pos nHeight fDiskSpace small
  exact findBlockPos_ends system.files (blockAddSize_lt small) pos nHeight
    block.nTime.toUInt64 fDiskSpace

/-! ## A file with a block -/

def plainBlock : CBlock where
  nVersion := 2
  hashPrevBlock := 0
  hashMerkleRoot := 0
  nTime := 7
  nBits := 0
  nNonce := 0
  lottoHeader := ⟨1, .empty, 0, 1, 0⟩
  vtx := [⟨1, [⟨⟨0, 0xffffffff⟩, [0x51, 0x51], 0⟩], [⟨5, []⟩], 0⟩]

/-- The block with its index header, behind some bytes. -/
def blockFile (garbage : List UInt8) : List UInt8 :=
  garbage ++
    (messageStart .main ++
      (littleEndian 4 (blockSize plainBlock) ++ plainBlock.serialize))

def acceptFound : Processed := ⟨true, 0, true, false⟩

/-- What a pass found, with the position behind the block. -/
def Pass.block? : Pass → Option (Nat × CBlock × Nat)
  | .found nBlockPos block blkdat => some (nBlockPos, block, blkdat.nReadPos)
  | _ => none

/-- A file is opened on an empty database. -/
def opened (fileIn : List UInt8) : System :=
  { System.start with scan := some (openScan .empty (some 0) fileIn) }

theorem meets_readOn :
    Meets .main (opened (blockFile [])) (.readOn acceptFound) := by
  intro scan nBlockPos block blkdat isScan passed _ _
  cases isScan
  have found :
      (searchPass .main (openScan .empty (some 0) (blockFile [])).blkdat
        (openScan .empty (some 0) (blockFile [])).nRewind).block? =
        some (8, plainBlock, 200) := by
    decide +kernel
  rw [passed, Pass.block?, Option.some.injEq, Prod.mk.injEq, Prod.mk.injEq]
    at found
  rcases found with ⟨rfl, rfl, nEnd⟩
  have inPlace : InPlace .empty ⟨0, 8, blkdat.nReadPos⟩ plainBlock := by
    rw [nEnd]
    decide +kernel
  exact inPlace

/-- The block at the beginning of a file is indexed, and its undo data stored. -/
theorem safe_of_reaches_own :
    ∃ system,
      (step .main (opened (blockFile [])) (.readOn acceptFound)).bind
          (step .main · (.connect 0 100 true)) = some system ∧ Safe system := by
  have indexed :
      (step .main (opened (blockFile [])) (.readOn acceptFound)).map
          (fun system => (current system.files 0).nUndoSize) = some 0 := by
    decide +kernel
  rcases Option.map_eq_some_iff.mp indexed with ⟨system, ran, undone⟩
  have fits :
      Meets .main system (.connect 0 100 true) := by
    rw [Meets, undone]
    decide
  have opens : Meets .main System.start (.openFile (some 0) (blockFile [])) :=
    trivial
  have reached : Reaches .main system :=
    Reaches.step (Reaches.step Reaches.start opens rfl) meets_readOn ran
  refine ⟨_, ?_, safe_of_reaches (Reaches.step reached fits rfl)⟩
  rw [ran, Option.bind_some]
  rfl

/--
One byte in front of the block in the file: the mark stays one byte behind the
block, and a new block overwrites its last byte.
-/
theorem not_apart :
    ∃ system,
      [Event.openFile (some 0) (blockFile [0]), .readOn acceptFound,
          .readOn acceptFound, .accept plainBlock 1 true].foldlM (step .main)
          System.start = some system ∧
        ¬ system.blocks.Pairwise Range.Apart := by
  have blocks :
      ([Event.openFile (some 0) (blockFile [0]), .readOn acceptFound,
          .readOn acceptFound, .accept plainBlock 1 true].foldlM (step .main)
          System.start).map System.blocks =
        some [⟨0, 200, 400⟩, ⟨0, 1, 201⟩] := by
    decide +kernel
  rcases Option.map_eq_some_iff.mp blocks with ⟨system, ran, same⟩
  refine ⟨system, ran, ?_⟩
  rw [same]
  decide

end DSValue.Chain.BlockImport
