import DSValue.Bitcoin.HeaderTree

/-!
# Targets in the tree of Bitcoin headers

Every header of the tree carries the target that its parent asks for, and every
index but the start block has a parent.  The start block stands one below a
multiple of 2016, so that walking back a period never leaves the tree.
-/

namespace DSValue.Bitcoin.Retargeting

open DSValue.Lib
open DSValue.Lib.KeepFirst
open DSValue.Lib.Mantissa
open DSValue.Core.Serialize
open DSValue.Consensus.CheckLottoResult
open DSValue.Consensus.CheckBlock
open DSValue.Consensus.Compact
open DSValue.Bitcoin.HeaderTree

theorem nInterval_eq : nInterval = 2016 := rfl

/-! ## Sound indexes -/

/-- An index above the start block whose headers carry the required targets. -/
def SoundIndex (env : BitcoinEnv) : BitcoinIndex → Prop
  | .root block => env.getHash block = hashBitcoinStartBlock
  | .child pprev block =>
      env.getHash block ≠ hashBitcoinStartBlock ∧
        env.getNextWorkRequired (some pprev) block = .ok block.nBits ∧
        SoundIndex env pprev

/-- The start block is known, and every known index is sound. -/
structure SoundTree (env : BitcoinEnv) (headers : HeaderMap) : Prop where
  rooted : ∃ index, headers.lookup hashBitcoinStartBlock = some index
  sound :
    ∀ hash index, headers.lookup hash = some index → SoundIndex env index

variable {env : BitcoinEnv} {headers next : HeaderMap}
  {pprev index : BitcoinIndex} {block : CBitcoinBlock}

theorem nHeight_of_sound (sound : SoundIndex env index) :
    env.nHeight index = BTC_START_HIGHT + index.height := by
  induction index with
  | root block =>
      rw [SoundIndex] at sound
      rw [BitcoinEnv.nHeight, if_pos sound, Lineage.height_root]
      rfl
  | child pprev block inductionHypothesis =>
      rcases sound with ⟨notStart, -, pprevSound⟩
      rw [BitcoinEnv.nHeight, if_neg notStart, inductionHypothesis pprevSound,
        Lineage.height_child]
      push_cast
      ring

theorem soundTree_start
    (isStart : env.getHash block = hashBitcoinStartBlock) :
    SoundTree env (env.addToBlockIndex ∅ block) := by
  have lookup : ∀ hash, (env.addToBlockIndex ∅ block).lookup hash =
      if hashBitcoinStartBlock = hash then some (.root block) else none := by
    intro hash
    rw [BitcoinEnv.addToBlockIndex, lookup_insertNew, isStart,
      AList.lookup_empty, Option.none_or]
    rfl
  constructor
  · exact ⟨.root block, by rw [lookup, if_pos rfl]⟩
  · intro hash index found
    rw [lookup] at found
    split_ifs at found
    cases found
    exact isStart

theorem bits_of_checkHeader
    (checked : env.checkHeader headers pprev block = .ok ()) :
    env.getNextWorkRequired (some pprev) block = .ok block.nBits := by
  rw [BitcoinEnv.checkHeader] at checked
  cases required : env.getNextWorkRequired (some pprev) block with
  | error fault =>
      rw [required] at checked
      cases checked
  | ok nBits =>
      rw [required] at checked
      simp only [Except.mapError, bind, Except.bind] at checked
      by_cases same : block.nBits = nBits
      · rw [same]
      · rw [if_pos same] at checked
        cases checked

/-- A header is accepted on a known one, except for the start block. -/
theorem parent_of_acceptBlock
    (accepted : env.acceptBlock headers block = .ok next)
    (notStart : env.getHash block ≠ hashBitcoinStartBlock) :
    ∃ pprev, headers.lookup block.hashPrevBlock = some pprev ∧
      env.getNextWorkRequired (some pprev) block = .ok block.nBits ∧
      next = insertNew headers (env.getHash block) (.child pprev block) := by
  rw [BitcoinEnv.acceptBlock, if_pos notStart] at accepted
  cases found : headers.lookup block.hashPrevBlock with
  | none =>
      simp only [found] at accepted
      split_ifs at accepted <;> cases accepted
  | some pprev =>
      simp only [found, bind_eq_ok] at accepted
      rcases accepted with ⟨_, checked, added⟩
      refine ⟨pprev, rfl, bits_of_checkHeader checked, ?_⟩
      cases added
      rw [BitcoinEnv.addToBlockIndex, newIndex, found]

theorem soundTree_insertNew
    (tree : SoundTree env headers) {hash : Uint256}
    (sound : hash = hashBitcoinStartBlock ∨ SoundIndex env index) :
    SoundTree env (insertNew headers hash index) := by
  rcases tree.rooted with ⟨start, known⟩
  constructor
  · refine ⟨start, ?_⟩
    rw [lookup_insertNew, known, Option.some_or]
  · intro other stored found
    rw [lookup_insertNew] at found
    cases present : headers.lookup other with
    | some old =>
        rw [present, Option.some_or] at found
        cases found
        exact tree.sound other _ present
    | none =>
        rw [present, Option.none_or] at found
        split_ifs at found with same
        cases found
        rcases sound with isStart | isSound
        · rw [← same, isStart, known] at present
          cases present
        · exact isSound

/-- Every tree that `AcceptBlock` builds is sound. -/
theorem soundTree_of_built (built : Built env headers) :
    SoundTree env headers := by
  induction built with
  | start isStart => exact soundTree_start isStart
  | @accept headers next block _ accepted tree =>
      by_cases isStart : env.getHash block = hashBitcoinStartBlock
      · rw [BitcoinEnv.acceptBlock, if_neg (not_not.mpr isStart)] at accepted
        cases accepted
        exact soundTree_insertNew tree (Or.inl isStart)
      · rcases parent_of_acceptBlock accepted isStart with
          ⟨pprev, found, required, rfl⟩
        exact soundTree_insertNew tree
          (Or.inr ⟨isStart, required, tree.sound _ pprev found⟩)

/-! ## Required targets -/

theorem clampTimespan_bounds (nActualTimespan : Int) :
    302400 ≤ clampTimespan nActualTimespan ∧
      clampTimespan nActualTimespan ≤ 4838400 := by
  rw [clampTimespan]
  simp only [show nTargetTimespan.tdiv 4 = 302400 by decide,
    show nTargetTimespan * 4 = 4838400 by decide]
  split_ifs <;> omega

/-- What a target is after a period, before it is written. -/
def Retargeted (previous : Int) (nBits : UInt32) : Prop :=
  setCompact nBits ≤ bnProofOfWorkLimit ∧
    ∃ bnNew : Nat,
      previous / 4 ≤ bnNew ∧
      (bnNew : Int) ≤ min (4 * previous) bnProofOfWorkLimit ∧
      setCompact nBits ≤ bnNew ∧
      (bnNew : Int) < setCompact nBits + lastUnit bnNew

/-- A target between zero and the limit. -/
def IsTarget (nBits : UInt32) : Prop :=
  0 ≤ setCompact nBits ∧ setCompact nBits ≤ bnProofOfWorkLimit

theorem retarget_bounds
    (last first : BitcoinIndex) (isTarget : IsTarget last.item.nBits) :
    ∃ nBits, retarget last first = .ok nBits ∧ IsTarget nBits ∧
      Retargeted (setCompact last.item.nBits) nBits := by
  rcases isTarget with ⟨nonnegative, small⟩
  rcases clampTimespan_bounds (last.item.nTime.toNat - first.item.nTime.toNat)
    with ⟨spanLow, spanHigh⟩
  rcases @scaled_bounds _ _ 4 302400 nonnegative (by decide) (by decide)
      spanLow spanHigh with ⟨scaledLow, scaledHigh⟩
  have divided :=
    bnDiv_of_pos
      (Int.mul_nonneg nonnegative ((by decide : (0 : Int) ≤ 302400).trans spanLow))
      (show (0 : Int) < 4 * 302400 by decide)
  obtain ⟨bnNew, isNew, lower, upper⟩ :
      ∃ bnNew : Nat,
        retarget last first = .ok (getCompact bnNew) ∧
        setCompact last.item.nBits / 4 ≤ bnNew ∧
        (bnNew : Int) ≤
          min (4 * setCompact last.item.nBits) bnProofOfWorkLimit := by
    rw [retarget]
    simp only [show nTargetTimespan = 4 * 302400 by decide, divided, bind,
      Except.bind]
    split_ifs with large
    · exact ⟨bnProofOfWorkLimit, rfl, by omega, by omega⟩
    · refine ⟨(setCompact last.item.nBits *
        clampTimespan (last.item.nTime.toNat - first.item.nTime.toNat) /
          (4 * 302400)).toNat, ?_, ?_, ?_⟩
      · rw [Int.toNat_of_nonneg (by omega)]
        rfl
      · omega
      · omega
  rcases encoded_target (show bnProofOfWorkLimit < 2 ^ 256 by decide)
      (show bnNew ≤ bnProofOfWorkLimit by omega) with
    ⟨decoded, decodedSmall, -⟩
  have kept := truncate_le bnNew
  have lost := lt_truncate_add bnNew
  refine ⟨_, isNew, ⟨?_, decodedSmall⟩, decodedSmall, bnNew, lower, upper, ?_, ?_⟩
  · rw [decoded]
    exact Int.natCast_nonneg _
  · rw [decoded]
    exact_mod_cast kept
  · rw [decoded]
    exact_mod_cast lost

/-- The first target above the start block. -/
theorem isTarget_first : IsTarget 0x18415fd1 := by
  constructor
  · decide
  · decide

/-! ## The rule at each height -/

theorem required_first
    (sound : SoundIndex env index) (isStart : index.height = 0)
    (block : CBitcoinBlock) :
    env.getNextWorkRequired (some index) block = .ok 0x18415fd1 := by
  have height := nHeight_of_sound sound
  rw [isStart] at height
  rw [BitcoinEnv.getNextWorkRequired, height]
  exact if_pos (by decide)

theorem required_between
    (main : env.fTestNet = false)
    (between : (env.nHeight index + 1) % nInterval ≠ 0)
    (block : CBitcoinBlock) :
    env.getNextWorkRequired (some index) block = .ok index.item.nBits := by
  rw [BitcoinEnv.getNextWorkRequired]
  simp only [if_neg (fun both : _ ∧ _ => between both.1), if_pos between,
    BitcoinEnv.sameTarget, main]
  rfl

/-- A period above the start block the walk ends in the tree. -/
theorem required_period
    (sound : SoundIndex env index)
    (period : (env.nHeight index + 1) % nInterval = 0)
    (above : index.height ≠ 0) (block : CBitcoinBlock) :
    ∃ first, env.getNextWorkRequired (some index) block =
      retarget index first := by
  have height := nHeight_of_sound sound
  have deep : 2015 ≤ index.height := by
    rw [height, nInterval_eq, BTC_START_HIGHT] at period
    omega
  rcases Lineage.walk_isSome deep with ⟨first, found⟩
  have far : ¬ env.nHeight index + 1 - BTC_START_HIGHT < nInterval := by
    rw [height, nInterval_eq] at *
    rw [BTC_START_HIGHT] at *
    omega
  refine ⟨first, ?_⟩
  rw [BitcoinEnv.getNextWorkRequired]
  simp only [if_neg (fun both : _ ∧ _ => far both.2),
    if_neg (not_not.mpr period)]
  rw [show (nInterval - 1).toNat = 2015 by decide, found]

/-- The targets above the start block. -/
theorem isTarget_of_sound
    (main : env.fTestNet = false)
    (sound : SoundIndex env (.child pprev block)) : IsTarget block.nBits := by
  induction pprev generalizing block with
  | root start =>
      rcases sound with ⟨-, required, startSound⟩
      rw [required_first startSound rfl, Except.ok.injEq] at required
      rw [← required]
      exact isTarget_first
  | child pprev last inductionHypothesis =>
      rcases sound with ⟨-, required, lastSound⟩
      have lastTarget := inductionHypothesis lastSound
      by_cases period :
          (env.nHeight (.child pprev last) + 1) % nInterval = 0
      · rcases required_period lastSound period (Nat.succ_ne_zero _) block with
          ⟨first, retargeted⟩
        rcases retarget_bounds (.child pprev last) first lastTarget with
          ⟨nBits, isNew, isTarget, -⟩
        rw [required, isNew, Except.ok.injEq] at retargeted
        rw [retargeted]
        exact isTarget
      · rw [required_between main period, Except.ok.injEq] at required
        rw [← required]
        exact lastTarget

/-- A new target at a retarget height other than the first one. -/
theorem retargeted_of_required
    (main : env.fTestNet = false) (sound : SoundIndex env index)
    (period : (env.nHeight index + 1) % nInterval = 0)
    (above : env.nHeight index ≠ BTC_START_HIGHT)
    (required : env.getNextWorkRequired (some index) block = .ok block.nBits) :
    Retargeted (setCompact index.item.nBits) block.nBits := by
  cases index with
  | root start =>
      rw [nHeight_of_sound sound] at above
      exact absurd (Int.add_zero _) above
  | child pprev last =>
      rcases required_period sound period (Nat.succ_ne_zero _) block with
        ⟨first, retargeted⟩
      rcases retarget_bounds (.child pprev last) first
          (isTarget_of_sound main sound) with ⟨nBits, isNew, -, bounds⟩
      rw [required, isNew, Except.ok.injEq] at retargeted
      rw [retargeted]
      exact bounds

theorem required_of_sound
    (main : env.fTestNet = false) (sound : SoundIndex env index)
    (block : CBitcoinBlock) :
    ∃ nBits, env.getNextWorkRequired (some index) block = .ok nBits := by
  by_cases isStart : index.height = 0
  · exact ⟨_, required_first sound isStart block⟩
  by_cases period : (env.nHeight index + 1) % nInterval = 0
  · rcases required_period sound period isStart block with ⟨first, retargeted⟩
    cases index with
    | root start => exact absurd rfl isStart
    | child pprev last =>
        rcases retarget_bounds (.child pprev last) first
            (isTarget_of_sound main sound) with ⟨nBits, isNew, -⟩
        exact ⟨nBits, retargeted.trans isNew⟩
  · exact ⟨_, required_between main period block⟩

/-- The indexes below a sound one are sound. -/
theorem sound_of_at
    {nHeight : Nat} {ancestor : BitcoinIndex} (sound : SoundIndex env index)
    (found : index.at? nHeight = some ancestor) : SoundIndex env ancestor := by
  induction index with
  | root block =>
      rw [Lineage.at?] at found
      split_ifs at found
      cases found
      exact sound
  | child pprev block inductionHypothesis =>
      rw [Lineage.at?] at found
      split_ifs at found
      · cases found
        exact sound
      · exact inductionHypothesis sound.2.2 found

/-- Headers hashed to their nonce, with the start block at zero. -/
def nonceEnv : BitcoinEnv where
  getHash := fun block =>
    if block.nNonce = 0 then hashBitcoinStartBlock
    else BitVec.ofNat 256 block.nNonce.toNat
  checkpoints := []
  fTestNet := false

def startBlock : CBitcoinBlock := ⟨2, 0, 0, 1404029522, 0x1851aba2, 0⟩

end DSValue.Bitcoin.Retargeting
