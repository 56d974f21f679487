import DSValue.Lib.Allocation
import DSValue.Lib.Loop
import Mathlib.Algebra.Group.Nat.Defs
import Mathlib.Tactic.Common

/-!
# Space in the block files

`FindBlockPos` and `FindUndoPos` hand out space at the end marks of a file.
The marks of the last block file are in memory, those of the other files in
the block tree database, and both functions write what they change to the
database.  A new block goes to the first file, from the last one on, that has
room for it.  A block whose position is known only moves the mark on.
-/

namespace DSValue.Chain.BlockFiles

open DSValue.Lib
open DSValue.Lib.Allocation

def MAX_BLOCKFILE_SIZE : UInt32 := 0x8000000
def BLOCKFILE_CHUNK_SIZE : UInt32 := 0x1000000
def UNDOFILE_CHUNK_SIZE : UInt32 := 0x100000

/-- `CDiskBlockPos`. -/
structure CDiskBlockPos where
  nFile : Nat
  nPos : UInt32
deriving DecidableEq

/-- `CBlockFileInfo`. -/
structure CBlockFileInfo where
  nBlocks : UInt32
  nSize : UInt32
  nUndoSize : UInt32
  nHeightFirst : UInt32
  nHeightLast : UInt32
  nTimeFirst : UInt64
  nTimeLast : UInt64
deriving DecidableEq

/-- `CBlockFileInfo::SetNull`. -/
def CBlockFileInfo.null : CBlockFileInfo :=
  ⟨0, 0, 0, 0, 0, 0, 0⟩

/-- `CBlockFileInfo::AddBlock`. -/
def CBlockFileInfo.addBlock (info : CBlockFileInfo) (nHeightIn : UInt32)
    (nTimeIn : UInt64) : CBlockFileInfo where
  nBlocks := info.nBlocks + 1
  nSize := info.nSize
  nUndoSize := info.nUndoSize
  nHeightFirst :=
    if info.nBlocks = 0 ∨ nHeightIn < info.nHeightFirst then nHeightIn
    else info.nHeightFirst
  nHeightLast :=
    if info.nHeightLast < nHeightIn then nHeightIn else info.nHeightLast
  nTimeFirst :=
    if info.nBlocks = 0 ∨ nTimeIn < info.nTimeFirst then nTimeIn
    else info.nTimeFirst
  nTimeLast := if info.nTimeLast < nTimeIn then nTimeIn else info.nTimeLast

/-- The last block file in memory, and the records of the database. -/
structure FileSpace where
  nLastBlockFile : Nat
  infoLastBlockFile : CBlockFileInfo
  blockFileInfo : List (Nat × CBlockFileInfo)
  lastBlockFile : Option Nat
deriving DecidableEq

namespace FileSpace

/-- An empty block tree database. -/
def empty : FileSpace := ⟨0, .null, [], none⟩

/-- `CBlockTreeDB::ReadBlockFileInfo`. -/
def readBlockFileInfo (files : FileSpace) (nFile : Nat) :
    Option CBlockFileInfo :=
  files.blockFileInfo.lookup nFile

/-- `CBlockTreeDB::WriteBlockFileInfo`. -/
def writeBlockFileInfo (files : FileSpace) (nFile : Nat)
    (info : CBlockFileInfo) : FileSpace :=
  { files with blockFileInfo := (nFile, info) :: files.blockFileInfo }

/-- `CBlockTreeDB::WriteLastBlockFile`. -/
def writeLastBlockFile (files : FileSpace) : FileSpace :=
  { files with lastBlockFile := some files.nLastBlockFile }

/-- The last block file is another one, with the information on disk. -/
def switchTo (files : FileSpace) (nFile : Nat) : FileSpace :=
  { files with
    nLastBlockFile := nFile
    infoLastBlockFile := (files.readBlockFileInfo nFile).getD .null }

/-- What `LoadBlockIndexDB` reads after a restart. -/
def restart (files : FileSpace) : FileSpace :=
  files.switchTo (files.lastBlockFile.getD 0)

/-- A number behind the files in the database. -/
def top (files : FileSpace) : Nat :=
  (files.blockFileInfo.map Prod.fst).foldr max 0

end FileSpace

/-! ## `FindBlockPos` -/

/-- The loop that leaves full block files, with `fUpdatedLast`. -/
def leaveFull (nAddSize : UInt32) (state : FileSpace × Bool) :
    Option ((FileSpace × Bool) × Bool) :=
  if MAX_BLOCKFILE_SIZE ≤ state.1.infoLastBlockFile.nSize + nAddSize then
    some ((state.1.switchTo (state.1.nLastBlockFile + 1), true), false)
  else some (state, true)

/-- Where the block goes, and the file whose information is in memory. -/
def chooseFile (files : FileSpace) (pos : CDiskBlockPos) (nAddSize : UInt32)
    (fKnown : Bool) : Option ((FileSpace × Bool) × CDiskBlockPos) :=
  if fKnown then
    if files.nLastBlockFile ≠ pos.nFile then
      some ((files.switchTo pos.nFile, true), pos)
    else some ((files, false), pos)
  else do
    let chosen ← Loop.run (leaveFull nAddSize) (files.top + 3) (files, false)
    some
      (chosen, ⟨chosen.1.nLastBlockFile, chosen.1.infoLastBlockFile.nSize⟩)

/-- The block is added to the information in memory. -/
def addToLast (files : FileSpace) (nAddSize nHeight : UInt32) (nTime : UInt64) :
    FileSpace :=
  { files with
    infoLastBlockFile :=
      { files.infoLastBlockFile with
        nSize := files.infoLastBlockFile.nSize + nAddSize }.addBlock
          nHeight nTime }

/-- The file grows by a chunk. -/
def newChunk (nOldSize nNewSize nChunkSize : UInt32) : Bool :=
  (nOldSize + nChunkSize - 1) / nChunkSize <
    (nNewSize + nChunkSize - 1) / nChunkSize

/-- The information in memory is written to the database. -/
def writeLast (files : FileSpace) (fUpdatedLast : Bool) : FileSpace :=
  let files :=
    files.writeBlockFileInfo files.nLastBlockFile files.infoLastBlockFile
  if fUpdatedLast then files.writeLastBlockFile else files

/-- The rest of `FindBlockPos`, where `CheckDiskSpace` may find no space. -/
def allocate (chosen : (FileSpace × Bool) × CDiskBlockPos)
    (nAddSize nHeight : UInt32) (nTime : UInt64) (fKnown fDiskSpace : Bool) :
    FileSpace × Option CDiskBlockPos :=
  let added := addToLast chosen.1.1 nAddSize nHeight nTime
  if !fKnown && newChunk chosen.2.nPos added.infoLastBlockFile.nSize
      BLOCKFILE_CHUNK_SIZE && !fDiskSpace then
    (added, none)
  else (writeLast added chosen.1.2, some chosen.2)

/--
`FindBlockPos`.  There is no result when the loop does not end, and no position
when an error is returned.
-/
def findBlockPos (files : FileSpace) (pos : CDiskBlockPos)
    (nAddSize nHeight : UInt32) (nTime : UInt64) (fKnown fDiskSpace : Bool) :
    Option (FileSpace × Option CDiskBlockPos) :=
  (chooseFile files pos nAddSize fKnown).map fun chosen =>
    allocate chosen nAddSize nHeight nTime fKnown fDiskSpace

/-! ## `FindUndoPos` -/

/-- The undo data is added to the information of its file. -/
def CBlockFileInfo.addUndo (info : CBlockFileInfo) (nAddSize : UInt32) :
    CBlockFileInfo :=
  { info with nUndoSize := info.nUndoSize + nAddSize }

/-- The information on the file of the undo data. -/
def undoInfo (files : FileSpace) (nFile : Nat) : Option CBlockFileInfo :=
  if nFile = files.nLastBlockFile then some files.infoLastBlockFile
  else files.readBlockFileInfo nFile

/-- What is written to the database, and kept of the last file. -/
def writeUndo (files : FileSpace) (nFile : Nat) (info : CBlockFileInfo) :
    FileSpace :=
  (if nFile = files.nLastBlockFile then { files with infoLastBlockFile := info }
  else files).writeBlockFileInfo nFile info

/-- `FindUndoPos`. -/
def findUndoPos (files : FileSpace) (nFile : Nat) (nAddSize : UInt32)
    (fDiskSpace : Bool) : FileSpace × Option CDiskBlockPos :=
  match undoInfo files nFile with
  | none => (files, none)
  | some info =>
      let written := writeUndo files nFile (info.addUndo nAddSize)
      if newChunk info.nUndoSize (info.addUndo nAddSize).nUndoSize
          UNDOFILE_CHUNK_SIZE && !fDiskSpace then
        (written, none)
      else (written, some ⟨nFile, info.nUndoSize⟩)

/-! ## The marks -/

variable {files chosen next : FileSpace} {nFile : Nat} {info : CBlockFileInfo}
  {size : CBlockFileInfo → UInt32} {nAddSize nHeight : UInt32} {nTime : UInt64}
  {fKnown fDiskSpace : Bool} {pos : CDiskBlockPos}

/-- What the database knows about a file. -/
def onDisk (files : FileSpace) (nFile : Nat) : CBlockFileInfo :=
  (files.readBlockFileInfo nFile).getD .null

/-- What counts for a file. -/
def current (files : FileSpace) (nFile : Nat) : CBlockFileInfo :=
  if nFile = files.nLastBlockFile then files.infoLastBlockFile
  else onDisk files nFile

/-- The end mark of a block file in the database. -/
def blockMark (files : FileSpace) (nFile : Nat) : Nat :=
  (onDisk files nFile).nSize.toNat

/-- The end mark of an undo file in the database. -/
def undoMark (files : FileSpace) (nFile : Nat) : Nat :=
  (onDisk files nFile).nUndoSize.toNat

/-- The marks in memory are never behind those in the database. -/
structure Ahead (files : FileSpace) : Prop where
  block :
    blockMark files files.nLastBlockFile ≤ files.infoLastBlockFile.nSize.toNat
  undo :
    undoMark files files.nLastBlockFile ≤
      files.infoLastBlockFile.nUndoSize.toNat

/-- No mark goes back. -/
structure Grows (files next : FileSpace) : Prop where
  block : ∀ nFile, blockMark files nFile ≤ blockMark next nFile
  undo : ∀ nFile, undoMark files nFile ≤ undoMark next nFile

theorem ahead_switchTo (files : FileSpace) (nFile : Nat) :
    Ahead (files.switchTo nFile) :=
  ⟨le_refl _, le_refl _⟩

theorem onDisk_write (files : FileSpace) (nFile other : Nat)
    (info : CBlockFileInfo) :
    onDisk (files.writeBlockFileInfo nFile info) other =
      if other = nFile then info else onDisk files other := by
  rw [onDisk, FileSpace.readBlockFileInfo, FileSpace.writeBlockFileInfo,
    List.lookup_cons]
  by_cases same : other = nFile
  · rw [if_pos same, beq_iff_eq.mpr same]
    rfl
  · rw [if_neg same, beq_eq_false_iff_ne.mpr same]
    rfl

theorem Ahead.current_block (ahead : Ahead files) (nFile : Nat) :
    blockMark files nFile ≤ (current files nFile).nSize.toNat := by
  rw [current]
  split_ifs with isLast
  · rw [isLast]
    exact ahead.block
  · exact le_refl _

theorem Ahead.current_undo (ahead : Ahead files) (nFile : Nat) :
    undoMark files nFile ≤ (current files nFile).nUndoSize.toNat := by
  rw [current]
  split_ifs with isLast
  · rw [isLast]
    exact ahead.undo
  · exact le_refl _

theorem toNat_add {left right : UInt32}
    (fits : left.toNat + right.toNat < 2 ^ 32) :
    (left + right).toNat = left.toNat + right.toNat := by
  rw [UInt32.toNat_add]
  exact Nat.mod_eq_of_lt fits

/-- Information that is written moves the marks of its file. -/
theorem grows_of_onDisk
    (recorded : ∀ other,
      onDisk next other = if other = nFile then info else onDisk files other)
    (block : blockMark files nFile ≤ info.nSize.toNat)
    (undo : undoMark files nFile ≤ info.nUndoSize.toNat) : Grows files next := by
  constructor
  · intro other
    rw [blockMark, blockMark, recorded]
    split_ifs with same
    · rw [same]
      exact block
    · exact le_refl _
  · intro other
    rw [undoMark, undoMark, recorded]
    split_ifs with same
    · rw [same]
      exact undo
    · exact le_refl _

theorem onDisk_writeLast (files : FileSpace) (fUpdatedLast : Bool) (nFile : Nat) :
    onDisk (writeLast files fUpdatedLast) nFile =
      if nFile = files.nLastBlockFile then files.infoLastBlockFile
      else onDisk files nFile := by
  rw [← onDisk_write, writeLast]
  split_ifs
  · rfl
  · rfl

theorem writeLast_memory (files : FileSpace) (fUpdatedLast : Bool) :
    (writeLast files fUpdatedLast).nLastBlockFile = files.nLastBlockFile ∧
      (writeLast files fUpdatedLast).infoLastBlockFile =
        files.infoLastBlockFile := by
  rw [writeLast]
  split_ifs
  · exact ⟨rfl, rfl⟩
  · exact ⟨rfl, rfl⟩

theorem toNat_addToLast
    (nHeight : UInt32) (nTime : UInt64)
    (fits :
      chosen.infoLastBlockFile.nSize.toNat + nAddSize.toNat < 2 ^ 32) :
    (addToLast chosen nAddSize nHeight nTime).infoLastBlockFile.nSize.toNat =
      chosen.infoLastBlockFile.nSize.toNat + nAddSize.toNat := by
  rw [addToLast]
  exact toNat_add fits

/-- Without space on the disk only the mark in memory moves. -/
theorem ahead_addToLast
    (nHeight : UInt32) (nTime : UInt64) (ahead : Ahead chosen)
    (fits :
      chosen.infoLastBlockFile.nSize.toNat + nAddSize.toNat < 2 ^ 32) :
    Ahead (addToLast chosen nAddSize nHeight nTime) := by
  constructor
  · rw [toNat_addToLast nHeight nTime fits]
    exact ahead.block.trans (Nat.le_add_right _ _)
  · exact ahead.undo

/-- A block that is added and recorded moves the mark of its file. -/
theorem writeLast_addToLast
    (nHeight : UInt32) (nTime : UInt64) (fUpdatedLast : Bool)
    (ahead : Ahead chosen)
    (fits :
      chosen.infoLastBlockFile.nSize.toNat + nAddSize.toNat < 2 ^ 32) :
    Ahead (writeLast (addToLast chosen nAddSize nHeight nTime) fUpdatedLast) ∧
      Grows chosen
        (writeLast (addToLast chosen nAddSize nHeight nTime) fUpdatedLast) ∧
      blockMark (writeLast (addToLast chosen nAddSize nHeight nTime) fUpdatedLast)
          chosen.nLastBlockFile =
        chosen.infoLastBlockFile.nSize.toNat + nAddSize.toNat := by
  have moved := toNat_addToLast nHeight nTime fits
  have recorded := onDisk_writeLast
    (addToLast chosen nAddSize nHeight nTime) fUpdatedLast
  have same : (addToLast chosen nAddSize nHeight nTime).nLastBlockFile =
      chosen.nLastBlockFile := rfl
  rcases writeLast_memory (addToLast chosen nAddSize nHeight nTime)
      fUpdatedLast with ⟨sameFile, sameInfo⟩
  refine ⟨⟨?_, ?_⟩, grows_of_onDisk recorded ?_ ahead.undo, ?_⟩
  · rw [blockMark, recorded, sameFile, if_pos rfl, sameInfo]
  · rw [undoMark, recorded, sameFile, if_pos rfl, sameInfo]
  · rw [moved]
    exact ahead.block.trans (Nat.le_add_right _ _)
  · rw [blockMark, recorded, same, if_pos rfl, moved]

/-! ## A block at a known position -/

/-- Space is accounted for where the block is, and the mark moves on. -/
theorem findBlockPos_known
    (ahead : Ahead files) (pos : CDiskBlockPos)
    (fits : (current files pos.nFile).nSize.toNat + nAddSize.toNat < 2 ^ 32)
    (nHeight : UInt32) (nTime : UInt64) (fDiskSpace : Bool) :
    ∃ next,
      findBlockPos files pos nAddSize nHeight nTime true fDiskSpace =
        some (next, some pos) ∧
      Ahead next ∧ Grows files next ∧
      blockMark next pos.nFile =
        (current files pos.nFile).nSize.toNat + nAddSize.toNat := by
  rw [findBlockPos, chooseFile, if_pos rfl]
  by_cases isLast : files.nLastBlockFile = pos.nFile
  · rw [current, if_pos isLast.symm] at fits ⊢
    rw [if_neg (not_not_intro isLast)]
    rcases writeLast_addToLast nHeight nTime false ahead fits with
      ⟨nextAhead, grows, mark⟩
    exact ⟨_, rfl, nextAhead, grows, isLast ▸ mark⟩
  · rw [current, if_neg (Ne.symm isLast)] at fits ⊢
    rw [if_pos isLast]
    rcases writeLast_addToLast nHeight nTime true
        (ahead_switchTo files pos.nFile) fits with ⟨nextAhead, grows, mark⟩
    exact ⟨_, rfl, nextAhead, ⟨grows.block, grows.undo⟩, mark⟩

/-! ## A new block -/

/-- A file is looked at when all files from the last one on are full. -/
def Visited (files : FileSpace) (nAddSize nFile : Nat) : Prop :=
  files.nLastBlockFile ≤ nFile ∧
    ∀ full, files.nLastBlockFile ≤ full → full < nFile →
      MAX_BLOCKFILE_SIZE.toNat ≤ (current files full).nSize.toNat + nAddSize

/-- The file in memory is one that is looked at. -/
structure Chosen (files : FileSpace) (nAddSize : UInt32) (chosen : FileSpace) :
    Prop where
  records : chosen.blockFileInfo = files.blockFileInfo
  visited : Visited files nAddSize.toNat chosen.nLastBlockFile
  info :
    chosen.infoLastBlockFile = current files chosen.nLastBlockFile

theorem Chosen.switch
    (isChosen : Chosen files nAddSize chosen)
    (full :
      MAX_BLOCKFILE_SIZE ≤ chosen.infoLastBlockFile.nSize + nAddSize) :
    Chosen files nAddSize (chosen.switchTo (chosen.nLastBlockFile + 1)) := by
  rcases isChosen.visited with ⟨later, before⟩
  have other : chosen.nLastBlockFile + 1 ≠ files.nLastBlockFile := by omega
  refine ⟨isChosen.records, ⟨Nat.le_succ_of_le later, ?_⟩, ?_⟩
  · intro file start upTo
    rcases Nat.lt_succ_iff_lt_or_eq.mp upTo with earlier | rfl
    · exact before file start earlier
    · rw [isChosen.info, UInt32.le_iff_toNat_le, UInt32.toNat_add] at full
      exact full.trans (Nat.mod_le _ _)
  · dsimp only [FileSpace.switchTo]
    rw [current, if_neg other, onDisk, FileSpace.readBlockFileInfo,
      FileSpace.readBlockFileInfo, isChosen.records]

theorem readBlockFileInfo_of_top_lt
    (files : FileSpace) (behind : files.top < nFile) :
    files.readBlockFileInfo nFile = none := by
  rw [FileSpace.readBlockFileInfo, List.lookup_eq_none_iff]
  intro record member
  rw [bne_iff_ne]
  rintro rfl
  have bound : ∀ (numbers : List Nat), record.1 ∈ numbers →
      record.1 ≤ numbers.foldr max 0 := by
    intro numbers inside
    induction numbers with
    | nil => cases inside
    | cons number numbers inductionHypothesis =>
        rw [List.foldr_cons]
        rcases List.mem_cons.mp inside with same | later
        · rw [same]
          exact le_max_left _ _
        · exact (inductionHypothesis later).trans (le_max_right _ _)
  exact absurd (bound _ (List.mem_map_of_mem member)) (not_le.mpr behind)

theorem top_switchTo (files : FileSpace) (nFile : Nat) :
    (files.switchTo nFile).top = files.top :=
  rfl

/-- How many files may be left: those in the database, and one more. -/
def filesLeft (nAddSize : UInt32) (state : FileSpace × Bool) : Nat :=
  state.1.top + 1 - state.1.nLastBlockFile +
    if MAX_BLOCKFILE_SIZE ≤ state.1.infoLastBlockFile.nSize + nAddSize then 1
    else 0

theorem filesLeft_switchTo
    (small : nAddSize < MAX_BLOCKFILE_SIZE) (files : FileSpace)
    (fUpdatedLast : Bool)
    (full : MAX_BLOCKFILE_SIZE ≤ files.infoLastBlockFile.nSize + nAddSize) :
    filesLeft nAddSize (files.switchTo (files.nLastBlockFile + 1), true) <
      filesLeft nAddSize (files, fUpdatedLast) := by
  have last : (files.switchTo (files.nLastBlockFile + 1)).nLastBlockFile =
      files.nLastBlockFile + 1 := rfl
  rw [filesLeft, filesLeft, if_pos full]
  dsimp only
  rw [top_switchTo, last]
  by_cases known : files.nLastBlockFile ≤ files.top
  · split_ifs <;> omega
  · have unknown := readBlockFileInfo_of_top_lt files
      (show files.top < files.nLastBlockFile + 1 by omega)
    have room : ¬ MAX_BLOCKFILE_SIZE ≤
        (files.switchTo (files.nLastBlockFile + 1)).infoLastBlockFile.nSize +
          nAddSize := by
      dsimp only [FileSpace.switchTo]
      rw [unknown, Option.getD_none, CBlockFileInfo.null, UInt32.zero_add]
      exact UInt32.not_le.mpr small
    rw [if_neg room]
    omega

/-- The loop finds a file with room. -/
theorem leaveFull_ends
    (files : FileSpace) (small : nAddSize < MAX_BLOCKFILE_SIZE) :
    ∃ chosen,
      Loop.run (leaveFull nAddSize) (files.top + 3) (files, false) =
        some chosen ∧
      Chosen files nAddSize chosen.1 ∧
      ¬ MAX_BLOCKFILE_SIZE ≤ chosen.1.infoLastBlockFile.nSize + nAddSize := by
  have start : Chosen files nAddSize files :=
    ⟨rfl, ⟨le_refl _, fun file later earlier => absurd earlier (not_lt.mpr later)⟩,
      by rw [current, if_pos rfl]⟩
  refine Loop.run_reaches (fun state => Chosen files nAddSize state.1)
    (filesLeft nAddSize) ?_ start ?_
  · intro state isChosen
    rw [leaveFull]
    split_ifs with full
    · exact ⟨_, false, rfl, fun _ =>
        ⟨isChosen.switch full, filesLeft_switchTo small state.1 state.2 full⟩, nofun⟩
    · exact ⟨_, true, rfl, nofun, fun _ => ⟨isChosen, full⟩⟩
  · rw [filesLeft]
    dsimp only
    split_ifs <;> omega

/-- `FindBlockPos` ends for every block that is smaller than a file. -/
theorem findBlockPos_ends
    (files : FileSpace) (small : nAddSize < MAX_BLOCKFILE_SIZE)
    (pos : CDiskBlockPos) (nHeight : UInt32) (nTime : UInt64)
    (fDiskSpace : Bool) :
    ∃ result,
      findBlockPos files pos nAddSize nHeight nTime false fDiskSpace =
        some result := by
  rcases leaveFull_ends files small with ⟨chosen, finished, -⟩
  rw [findBlockPos, chooseFile, if_neg (by decide), finished, Option.bind_eq_bind,
    Option.bind_some, Option.map_some]
  exact ⟨_, rfl⟩

theorem Chosen.ahead
    (ahead : Ahead files) (isChosen : Chosen files nAddSize chosen) :
    Ahead chosen := by
  have same : onDisk chosen chosen.nLastBlockFile =
      onDisk files chosen.nLastBlockFile := by
    rw [onDisk, onDisk, FileSpace.readBlockFileInfo, FileSpace.readBlockFileInfo,
      isChosen.records]
  constructor
  · rw [blockMark, same, isChosen.info]
    exact ahead.current_block _
  · rw [undoMark, same, isChosen.info]
    exact ahead.current_undo _

theorem Chosen.grows
    (isChosen : Chosen files nAddSize chosen) (grows : Grows chosen next) :
    Grows files next := by
  have same : ∀ nFile, onDisk chosen nFile = onDisk files nFile := by
    intro nFile
    rw [onDisk, onDisk, FileSpace.readBlockFileInfo, FileSpace.readBlockFileInfo,
      isChosen.records]
  constructor
  · intro nFile
    have grown := grows.block nFile
    rwa [blockMark, same] at grown
  · intro nFile
    have grown := grows.undo nFile
    rwa [undoMark, same] at grown

/-- Where a new block goes. -/
structure Placed (files next : FileSpace) (nAddSize : UInt32)
    (pos : CDiskBlockPos) : Prop where
  behind : blockMark files pos.nFile ≤ pos.nPos.toNat
  covered : pos.nPos.toNat + nAddSize.toNat ≤ blockMark next pos.nFile
  below : pos.nPos.toNat + nAddSize.toNat < MAX_BLOCKFILE_SIZE.toNat

/-- A new block gets space behind the mark of a file with room for it. -/
theorem findBlockPos_new
    (ahead : Ahead files) (small : nAddSize < MAX_BLOCKFILE_SIZE)
    (fits :
      ∀ nFile, Visited files nAddSize.toNat nFile →
        (current files nFile).nSize.toNat + nAddSize.toNat < 2 ^ 32)
    (pos : CDiskBlockPos) (nHeight : UInt32) (nTime : UInt64)
    (fDiskSpace : Bool) :
    ∃ next result,
      findBlockPos files pos nAddSize nHeight nTime false fDiskSpace =
        some (next, result) ∧
      Ahead next ∧ Grows files next ∧
      ∀ found, result = some found → Placed files next nAddSize found := by
  rcases leaveFull_ends files small with ⟨chosen, finished, isChosen, room⟩
  have chosenAhead := isChosen.ahead ahead
  have noWrap : chosen.1.infoLastBlockFile.nSize.toNat + nAddSize.toNat <
      2 ^ 32 := by
    rw [isChosen.info]
    exact fits _ isChosen.visited
  rcases writeLast_addToLast nHeight nTime chosen.2 chosenAhead noWrap with
    ⟨nextAhead, grows, mark⟩
  rw [findBlockPos, chooseFile, if_neg (by decide), finished, Option.bind_eq_bind,
    Option.bind_some, Option.map_some, allocate]
  split_ifs
  · have kept : Grows chosen.1 (addToLast chosen.1 nAddSize nHeight nTime) :=
      ⟨fun _ => le_refl _, fun _ => le_refl _⟩
    exact ⟨_, _, rfl, ahead_addToLast nHeight nTime chosenAhead noWrap,
      isChosen.grows kept, nofun⟩
  · refine ⟨_, _, rfl, nextAhead, isChosen.grows grows, ?_⟩
    intro found same
    cases same
    refine ⟨?_, mark.ge, ?_⟩
    · dsimp only
      rw [isChosen.info]
      exact ahead.current_block _
    · rw [UInt32.not_le, UInt32.lt_iff_toNat_lt, toNat_add noWrap] at room
      exact room

/-! ## Undo data -/

theorem undoInfo_eq_some (found : undoInfo files nFile = some info) :
    info = current files nFile := by
  rw [undoInfo] at found
  rw [current]
  split_ifs at found ⊢
  · exact (Option.some.inj found).symm
  · rw [onDisk, found, Option.getD_some]

theorem onDisk_writeUndo (files : FileSpace) (nFile other : Nat)
    (info : CBlockFileInfo) :
    onDisk (writeUndo files nFile info) other =
      if other = nFile then info else onDisk files other := by
  rw [← onDisk_write, writeUndo]
  split_ifs
  · rfl
  · rfl

theorem ahead_writeUndo (ahead : Ahead files) (nFile : Nat) (info : CBlockFileInfo) :
    Ahead (writeUndo files nFile info) := by
  have last : (writeUndo files nFile info).nLastBlockFile =
      files.nLastBlockFile := by
    rw [writeUndo]
    split_ifs
    · rfl
    · rfl
  by_cases isLast : nFile = files.nLastBlockFile
  · have memory : (writeUndo files nFile info).infoLastBlockFile = info := by
      rw [writeUndo, if_pos isLast]
      rfl
    constructor
    · rw [blockMark, onDisk_writeUndo, last, if_pos isLast.symm, memory]
    · rw [undoMark, onDisk_writeUndo, last, if_pos isLast.symm, memory]
  · have memory : (writeUndo files nFile info).infoLastBlockFile =
        files.infoLastBlockFile := by
      rw [writeUndo, if_neg isLast]
      rfl
    constructor
    · rw [blockMark, onDisk_writeUndo, last, if_neg (Ne.symm isLast), memory]
      exact ahead.block
    · rw [undoMark, onDisk_writeUndo, last, if_neg (Ne.symm isLast), memory]
      exact ahead.undo

/-- Undo data gets space behind the mark of its file. -/
theorem findUndoPos_spec
    (ahead : Ahead files)
    (fits :
      (current files nFile).nUndoSize.toNat + nAddSize.toNat < 2 ^ 32)
    (fDiskSpace : Bool) :
    Ahead (findUndoPos files nFile nAddSize fDiskSpace).1 ∧
      Grows files (findUndoPos files nFile nAddSize fDiskSpace).1 ∧
      ∀ found, (findUndoPos files nFile nAddSize fDiskSpace).2 = some found →
        found.nFile = nFile ∧ undoMark files nFile ≤ found.nPos.toNat ∧
        found.nPos.toNat + nAddSize.toNat ≤
          undoMark (findUndoPos files nFile nAddSize fDiskSpace).1 nFile := by
  cases read : undoInfo files nFile with
  | none =>
      rw [findUndoPos, read]
      exact ⟨ahead, ⟨fun _ => le_refl _, fun _ => le_refl _⟩, nofun⟩
  | some info =>
      have isCurrent := undoInfo_eq_some read
      rw [← isCurrent] at fits
      have moved : (info.addUndo nAddSize).nUndoSize.toNat =
          info.nUndoSize.toNat + nAddSize.toNat := by
        rw [CBlockFileInfo.addUndo]
        exact toNat_add fits
      have written :
          (findUndoPos files nFile nAddSize fDiskSpace).1 =
            writeUndo files nFile (info.addUndo nAddSize) := by
        rw [findUndoPos, read]
        dsimp only
        split_ifs
        · rfl
        · rfl
      have block := ahead.current_block nFile
      have undo := ahead.current_undo nFile
      rw [← isCurrent] at block undo
      rw [written]
      refine ⟨ahead_writeUndo ahead nFile _,
        grows_of_onDisk (fun other => onDisk_writeUndo files nFile other _) block
          ?_, ?_⟩
      · rw [moved]
        exact undo.trans (Nat.le_add_right _ _)
      · intro found isFound
        rw [findUndoPos, read] at isFound
        dsimp only at isFound
        split_ifs at isFound
        cases isFound
        refine ⟨rfl, undo, ?_⟩
        rw [undoMark, onDisk_writeUndo, if_pos rfl, moved]

end DSValue.Chain.BlockFiles
