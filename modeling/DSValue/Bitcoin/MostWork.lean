import DSValue.Bitcoin.AddedHeaders

/-!
# The work of the active tip

The active tip has the most work of all known headers, and no call loses work,
in every run in which the first header that is added after a restart has at
least the work of the loaded tip.  A weaker one takes its place.
-/

namespace DSValue.Bitcoin.MostWork

open DSValue.Lib
open DSValue.Lib.KeepFirst
open DSValue.Core.Serialize
open DSValue.Consensus.CheckLottoResult
open DSValue.Chain.BestChain
open DSValue.Bitcoin.HeaderTree
open DSValue.Bitcoin.Retargeting
open DSValue.Bitcoin.ChainManager
open DSValue.Bitcoin.HeaderChoice
open DSValue.Bitcoin.StoredHeaders
open DSValue.Bitcoin.AddedHeaders

variable {env : BitcoinEnv} {clock : Clock} {manager next : CChainManager}
  {headers : HeaderMap} {block : CBitcoinBlock}
  {vBitcoinHeader : List CBitcoinBlock} {tip newTip pprev : BitcoinIndex}

/-! ## One header -/

/-- Whether `ProcessBitcoinHeader` adds a header. -/
def accepts
    (env : BitcoinEnv) (clock : Clock) (manager : CChainManager)
    (block : CBitcoinBlock) : Bool :=
  match manager.preliminaryChecks env clock block,
      env.acceptBlock manager.mapBitcoinBlockIndex block with
  | .ok (), .ok _ => true
  | _, _ => false

theorem fresh_of_preliminaryChecks
    (passed : manager.preliminaryChecks env clock block = .ok ()) :
    env.getHash block ∉ manager.mapBitcoinBlockIndex := by
  intro known
  rw [CChainManager.preliminaryChecks, if_pos known] at passed
  cases passed

theorem checkHeader_ne_fault
    (main : env.fTestNet = false) (sound : SoundIndex env pprev)
    (fault : Fault) :
    env.checkHeader headers pprev block ≠ .error (.fault fault) := by
  rcases required_of_sound main sound block with ⟨nBits, required⟩
  intro failed
  rw [BitcoinEnv.checkHeader, required] at failed
  simp only [Except.mapError, bind, Except.bind] at failed
  split_ifs at failed <;> cases failed

/-- In a tree with the start block no check of `AcceptBlock` fails badly. -/
theorem acceptBlock_ne_fault
    (main : env.fTestNet = false) (tree : SoundTree env headers)
    (fault : Fault) :
    env.acceptBlock headers block ≠ .error (.fault fault) := by
  intro failed
  rw [BitcoinEnv.acceptBlock] at failed
  by_cases isStart : env.getHash block = hashBitcoinStartBlock
  · rw [if_neg (not_not.mpr isStart)] at failed
    cases failed
  rw [if_pos isStart] at failed
  cases parent : headers.lookup block.hashPrevBlock with
  | none =>
      have unknown : block.hashPrevBlock ≠ hashBitcoinStartBlock := by
        intro same
        rcases tree.rooted with ⟨start, rooted⟩
        rw [same, rooted] at parent
        cases parent
      simp only [parent, if_pos unknown] at failed
      cases failed
  | some pprev =>
      have noFault :
          env.checkHeader headers pprev block ≠ .error (.fault fault) :=
        checkHeader_ne_fault main (tree.sound _ pprev parent) fault
      cases checked : env.checkHeader headers pprev block with
      | error refusal =>
          simp only [parent, checked, bind, Except.bind] at failed
          rw [checked] at noFault
          cases failed
          exact noFault rfl
      | ok _ =>
          simp only [parent, checked, bind, Except.bind] at failed
          cases failed

theorem accepts_eq_true :
    accepts env clock manager block = true ↔
      manager.preliminaryChecks env clock block = .ok () ∧
        ∃ grown, env.acceptBlock manager.mapBitcoinBlockIndex block =
          .ok grown := by
  rw [accepts]
  cases manager.preliminaryChecks env clock block with
  | error rejection => simp
  | ok result =>
      cases env.acceptBlock manager.mapBitcoinBlockIndex block <;> simp

theorem processBitcoinHeader_rejected
    (main : env.fTestNet = false)
    (tree : SoundTree env manager.mapBitcoinBlockIndex)
    (rejected : accepts env clock manager block = false) :
    ∃ rejection,
      manager.processBitcoinHeader env clock block =
        .ok (manager, rejection) := by
  rw [CChainManager.processBitcoinHeader]
  cases passed : manager.preliminaryChecks env clock block with
  | error rejection => exact ⟨_, rfl⟩
  | ok result =>
      dsimp only
      split_ifs
      · exact ⟨_, rfl⟩
      cases accepted : env.acceptBlock manager.mapBitcoinBlockIndex block with
      | ok grown =>
          rw [accepts_eq_true.mpr ⟨passed, grown, accepted⟩] at rejected
          cases rejected
      | error refusal =>
          cases refusal with
          | fault fault =>
              exact absurd accepted (acceptBlock_ne_fault main tree fault)
          | _ => exact ⟨_, rfl⟩

theorem processBitcoinHeader_accepted
    (kept : Kept env manager tip)
    (accepted : accepts env clock manager block = true) :
    ∃ next newTip,
      manager.processBitcoinHeader env clock block = .ok (next, none) ∧
        Kept env next newTip ∧ Added env manager block tip next newTip := by
  rcases accepts_eq_true.mp accepted with ⟨passed, grown, accepts⟩
  have fresh := fresh_of_preliminaryChecks passed
  have notStart : env.getHash block ≠ hashBitcoinStartBlock := by
    rcases kept.known.tree.rooted with ⟨start, rooted⟩
    intro same
    exact fresh (AList.lookup_isSome.mp (by rw [same, rooted]; rfl))
  rcases parent_of_acceptBlock accepts notStart with
    ⟨pprev, parent, required, -⟩
  rcases addToBlockIndex_spec kept fresh notStart parent required with
    ⟨next, newTip, result, nextKept, added⟩
  refine ⟨next, newTip, ?_, nextKept, added⟩
  have known : ¬ manager.isOrphan block := by
    have member : block.hashPrevBlock ∈ manager.mapBitcoinBlockIndex :=
      AList.lookup_isSome.mp (by rw [parent]; rfl)
    simp [CChainManager.isOrphan, member]
  rw [CChainManager.processBitcoinHeader, passed]
  simp only [if_neg known, accepts, result]
  rfl

/-! ## Calls -/

theorem addBitcoinHeader_cons :
    manager.addBitcoinHeader env clock (block :: vBitcoinHeader) = (do
      let processed ← manager.processBitcoinHeader env clock block
      processed.1.addBitcoinHeader env clock vBitcoinHeader) := by
  rw [CChainManager.addBitcoinHeader, List.foldlM_cons, bind_assoc]
  simp only [pure_bind]
  rfl

theorem addBitcoinHeader_append (first rest : List CBitcoinBlock) :
    manager.addBitcoinHeader env clock (first ++ rest) = (do
      let next ← manager.addBitcoinHeader env clock first
      next.addBitcoinHeader env clock rest) :=
  List.foldlM_append

/-- Every call returns. -/
theorem addBitcoinHeader_returns
    (main : env.fTestNet = false) (kept : Kept env manager tip)
    (clock : Clock) (vBitcoinHeader : List CBitcoinBlock) :
    ∃ next newTip,
      manager.addBitcoinHeader env clock vBitcoinHeader = .ok next ∧
        Kept env next newTip := by
  induction vBitcoinHeader generalizing manager tip with
  | nil => exact ⟨manager, tip, rfl, kept⟩
  | cons block rest inductionHypothesis =>
      rw [addBitcoinHeader_cons]
      cases accepted : accepts env clock manager block with
      | false =>
          rcases processBitcoinHeader_rejected main kept.known.tree
              accepted with ⟨rejection, processed⟩
          rw [processed]
          exact inductionHypothesis kept
      | true =>
          rcases processBitcoinHeader_accepted kept accepted with
            ⟨next, newTip, processed, nextKept, -⟩
          rw [processed]
          exact inductionHypothesis nextKept

/-- Headers that fail a check change nothing. -/
theorem addBitcoinHeader_rejected
    (main : env.fTestNet = false)
    (tree : SoundTree env manager.mapBitcoinBlockIndex)
    (rejected :
      ∀ block ∈ vBitcoinHeader, accepts env clock manager block = false) :
    manager.addBitcoinHeader env clock vBitcoinHeader = .ok manager := by
  induction vBitcoinHeader with
  | nil => rfl
  | cons block rest inductionHypothesis =>
      rcases processBitcoinHeader_rejected main tree
          (rejected block List.mem_cons_self) with ⟨rejection, processed⟩
      rw [addBitcoinHeader_cons, processed]
      exact inductionHypothesis fun other among =>
        rejected other (List.mem_cons_of_mem _ among)

/--
When no header was added since the restart, the first one that the call adds
has at least the work of the tip.
-/
def KeepsUp
    (env : BitcoinEnv) (clock : Clock) (manager : CChainManager)
    (vBitcoinHeader : List CBitcoinBlock) : Prop :=
  manager.chain.setBlockIndexValid = [] →
    ∀ block tip, vBitcoinHeader.find? (accepts env clock manager) = some block →
      manager.chain.chainActive = some tip →
        nChainWork tip ≤
          nChainWork (newIndex manager.mapBitcoinBlockIndex block)

theorem KeepsUp.prefix
    {first rest : List CBitcoinBlock}
    (keepsUp : KeepsUp env clock manager (first ++ rest)) :
    KeepsUp env clock manager first := by
  intro none block tip found
  apply keepsUp none block tip
  rw [List.find?_append, found, Option.some_or]

/-- A call that keeps up keeps the lead of the tip. -/
theorem addBitcoinHeader_leads
    (main : env.fTestNet = false) (kept : Kept env manager tip)
    (leads : Leads manager tip)
    (keepsUp : KeepsUp env clock manager vBitcoinHeader) :
    ∃ next newTip,
      manager.addBitcoinHeader env clock vBitcoinHeader = .ok next ∧
        Kept env next newTip ∧ Leads next newTip ∧
          nChainWork tip ≤ nChainWork newTip := by
  induction vBitcoinHeader generalizing manager tip with
  | nil => exact ⟨manager, tip, rfl, kept, leads, BitVec.le_refl _⟩
  | cons block rest inductionHypothesis =>
      rw [addBitcoinHeader_cons]
      cases accepted : accepts env clock manager block with
      | false =>
          rcases processBitcoinHeader_rejected main kept.known.tree
              accepted with ⟨rejection, processed⟩
          rw [processed]
          apply inductionHypothesis kept leads
          intro none other oldTip found
          apply keepsUp none other oldTip
          rwa [List.find?_cons_of_neg (by simp [accepted])]
      | true =>
          rcases processBitcoinHeader_accepted kept accepted with
            ⟨next, newTip, processed, nextKept, added⟩
          have isFirst :
              (block :: rest).find? (accepts env clock manager) = some block :=
            List.find?_cons_of_pos accepted
          rcases added.leads kept nextKept leads fun none =>
              keepsUp none block tip isFirst kept.chosen.active with
            ⟨nextLeads, more⟩
          -- from here on there is a candidate
          have later : KeepsUp env clock next rest := by
            intro none
            rw [added.candidates] at none
            cases none
          rcases inductionHypothesis nextKept nextLeads later with
            ⟨last, lastTip, result, lastKept, lastLeads, evenMore⟩
          rw [processed]
          exact ⟨last, lastTip, result, lastKept, lastLeads,
            BitVec.le_trans more evenMore⟩

/-- A first header with less work replaces the tip. -/
theorem addBitcoinHeader_behind
    (main : env.fTestNet = false) (kept : Kept env manager tip)
    (none : manager.chain.setBlockIndexValid = [])
    {first : List CBitcoinBlock}
    (rejected : ∀ other ∈ first, accepts env clock manager other = false)
    (accepted : accepts env clock manager block = true) :
    ∃ next,
      manager.addBitcoinHeader env clock (first ++ [block]) = .ok next ∧
        next.chain.chainActive =
          some (newIndex manager.mapBitcoinBlockIndex block) := by
  rcases processBitcoinHeader_accepted kept accepted with
    ⟨next, newTip, processed, nextKept, added⟩
  refine ⟨next, ?_, ?_⟩
  · rw [addBitcoinHeader_append,
      addBitcoinHeader_rejected main kept.known.tree rejected]
    simp only [bind, Except.bind, addBitcoinHeader_cons, processed]
    rfl
  · rw [nextKept.chosen.active, added.tip_of_none none]

/-! ## Runs -/

/-- The active tip is a known header, and none has more work. -/
def FollowsMostWork (manager : CChainManager) : Prop :=
  ∃ tip, manager.chain.chainActive = some tip ∧
    (∃ hash, manager.mapBitcoinBlockIndex.lookup hash = some tip) ∧
    ∀ hash pindex, manager.mapBitcoinBlockIndex.lookup hash = some pindex →
      nChainWork pindex ≤ nChainWork tip

/-- A step does not lose work. -/
def KeepsWork (manager next : CChainManager) : Prop :=
  ∀ tip newTip, manager.chain.chainActive = some tip →
    next.chain.chainActive = some newTip → nChainWork tip ≤ nChainWork newTip

/--
The states that calls of `AddBitcoinHeader` and restarts reach, with a
condition on the calls.  Every restart has addresses of its own.
-/
inductive Run
    (env : BitcoinEnv)
    (allowed : Clock → CChainManager → List CBitcoinBlock → Prop) :
    CChainManager → Prop where
  | start {manager : CChainManager} (address : BitcoinIndex → Nat)
      (created : create env address .empty = .ok manager) :
      Run env allowed manager
  | addBitcoinHeader {manager next : CChainManager} (clock : Clock)
      {vBitcoinHeader : List CBitcoinBlock} (before : Run env allowed manager)
      (isAllowed : allowed clock manager vBitcoinHeader)
      (result :
        manager.addBitcoinHeader env clock vBitcoinHeader = .ok next) :
      Run env allowed next
  | restart {manager next : CChainManager} (address : BitcoinIndex → Nat)
      (before : Run env allowed manager)
      (created : create env address manager.pBitcoinblocktree = .ok next) :
      Run env allowed next

theorem followsMostWork_of_leads
    (kept : Kept env manager tip) (leads : Leads manager tip) :
    FollowsMostWork manager :=
  ⟨tip, kept.chosen.active, ⟨_, kept.tipFound⟩, leads⟩

/-- A restart keeps the lead. -/
theorem create_leads
    (kept : Kept env manager tip) (leads : Leads manager tip)
    {address : BitcoinIndex → Nat}
    (created : create env address manager.pBitcoinblocktree = .ok next) :
    Kept env next tip ∧ Leads next tip ∧
      next.chain.setBlockIndexValid = [] := by
  rcases create_of_noNull kept (noNull_of_create kept created) address with
    ⟨loaded, isLoaded, loadedKept, restarted⟩
  rw [created, Except.ok.injEq] at isLoaded
  rw [← isLoaded] at loadedKept restarted
  refine ⟨loadedKept, ?_, restarted.candidates⟩
  intro hash pindex found
  exact leads hash pindex ((restarted.headers hash pindex).mp found).1

/-- The invariant of a run whose calls keep up. -/
theorem Run.leads
    (main : env.fTestNet = false) (run : Run env (KeepsUp env) manager) :
    ∃ tip, Kept env manager tip ∧ Leads manager tip := by
  induction run with
  | start address created => exact ⟨_, kept_of_create_empty created⟩
  | addBitcoinHeader clock before keepsUp result inductionHypothesis =>
      rcases inductionHypothesis with ⟨tip, kept, leads⟩
      rcases addBitcoinHeader_leads main kept leads keepsUp with
        ⟨next, newTip, isNext, nextKept, nextLeads, -⟩
      rw [result, Except.ok.injEq] at isNext
      rw [isNext]
      exact ⟨newTip, nextKept, nextLeads⟩
  | restart address before created inductionHypothesis =>
      rcases inductionHypothesis with ⟨tip, kept, leads⟩
      rcases create_leads kept leads created with ⟨nextKept, nextLeads, -⟩
      exact ⟨tip, nextKept, nextLeads⟩

/-- Every prefix of a call leaves the tip with the most work and loses none. -/
def LeadsThroughout
    (env : BitcoinEnv) (clock : Clock) (manager : CChainManager)
    (vBitcoinHeader : List CBitcoinBlock) : Prop :=
  ∀ first rest, vBitcoinHeader = first ++ rest →
    ∃ next, manager.addBitcoinHeader env clock first = .ok next ∧
      FollowsMostWork next ∧ KeepsWork manager next

/-- A call leads throughout exactly when it keeps up. -/
theorem leadsThroughout_iff
    (main : env.fTestNet = false) (kept : Kept env manager tip)
    (leads : Leads manager tip) :
    LeadsThroughout env clock manager vBitcoinHeader ↔
      KeepsUp env clock manager vBitcoinHeader := by
  constructor
  · intro throughout none block oldTip found active
    rcases List.find?_eq_some_iff_append.mp found with
      ⟨accepted, first, rest, split, rejected⟩
    rcases addBitcoinHeader_behind main kept none
        (fun other among => by simpa using rejected other among) accepted with
      ⟨next, result, newActive⟩
    rcases throughout (first ++ [block]) rest (by simpa using split) with
      ⟨other, isOther, -, notLess⟩
    rw [result, Except.ok.injEq] at isOther
    rw [← isOther] at notLess
    exact notLess oldTip _ active newActive
  · intro keepsUp first rest split
    rw [split] at keepsUp
    rcases addBitcoinHeader_leads main kept leads keepsUp.prefix with
      ⟨next, newTip, result, nextKept, nextLeads, more⟩
    refine ⟨next, result, followsMostWork_of_leads nextKept nextLeads, ?_⟩
    intro oldTip last oldActive lastActive
    rw [kept.tip_eq oldActive, nextKept.tip_eq lastActive]
    exact more

/--
In every run whose calls keep up the active tip has the most work of the known
headers, calls that keep up lose no work, no other calls lead throughout, and
restarts keep the tip.
-/
theorem followsMostWork_of_run
    (env : BitcoinEnv) (main : env.fTestNet = false)
    (manager : CChainManager) (run : Run env (KeepsUp env) manager) :
    FollowsMostWork manager ∧
    (∀ clock vBitcoinHeader,
      (∃ next,
        manager.addBitcoinHeader env clock vBitcoinHeader = .ok next) ∧
      (LeadsThroughout env clock manager vBitcoinHeader ↔
        KeepsUp env clock manager vBitcoinHeader)) ∧
    (∀ address next,
      create env address manager.pBitcoinblocktree = .ok next →
        FollowsMostWork next ∧
          next.chain.chainActive = manager.chain.chainActive) ∧
    ((∀ address, ∃ next,
        create env address manager.pBitcoinblocktree = .ok next) ↔
      NoNull manager.pBitcoinblocktree) := by
  rcases run.leads main with ⟨tip, kept, leads⟩
  refine ⟨followsMostWork_of_leads kept leads, ?_, ?_, ?_⟩
  · intro clock vBitcoinHeader
    rcases addBitcoinHeader_returns main kept clock vBitcoinHeader with
      ⟨next, newTip, result, -⟩
    exact ⟨⟨next, result⟩, leadsThroughout_iff main kept leads⟩
  · intro address next created
    rcases create_leads kept leads created with ⟨nextKept, nextLeads, -⟩
    refine ⟨followsMostWork_of_leads nextKept nextLeads, ?_⟩
    rw [nextKept.chosen.active, kept.chosen.active]
  · constructor
    · intro starts
      rcases starts fun _ => 0 with ⟨next, created⟩
      exact noNull_of_create kept created
    · intro noNull address
      rcases create_of_noNull kept noNull address with ⟨next, created, -⟩
      exact ⟨next, created⟩

/-! ## A weaker header after a restart -/

/-- A header that fits on a parent, without checkpoints. -/
structure Fits
    (env : BitcoinEnv) (clock : Clock) (pprev : BitcoinIndex)
    (block : CBitcoinBlock) : Prop where
  plain : env.checkpoints = []
  notStart : env.getHash block ≠ hashBitcoinStartBlock
  work : checkProofOfWork (env.getHash block) block.nBits = true
  now : ¬ clock.adjustedTime + 2 * 60 * 60 < block.nTime.toNat
  required : env.getNextWorkRequired (some pprev) block = .ok block.nBits
  late : getMedianTimePast pprev < block.nTime.toNat
  version : ¬ block.nVersion < 2

theorem Fits.accepts
    (fits : Fits env clock pprev block)
    (fresh : env.getHash block ∉ manager.mapBitcoinBlockIndex)
    (parent :
      manager.mapBitcoinBlockIndex.lookup block.hashPrevBlock = some pprev) :
    accepts env clock manager block = true := by
  rcases fits with ⟨plain, notStart, work, now, required, late, version⟩
  have noCheckpoint :
      env.getLastCheckpoint manager.mapBitcoinBlockIndex = none := by
    rw [BitcoinEnv.getLastCheckpoint, plain]
    rfl
  have checked :
      env.checkHeader manager.mapBitcoinBlockIndex pprev block = .ok () := by
    rw [BitcoinEnv.checkHeader, required]
    simp [Except.mapError, bind, Except.bind, not_le.mpr late, noCheckpoint,
      BitcoinEnv.checkpointCheck, plain, BitcoinEnv.isOldVersion, version]
    rfl
  refine accepts_eq_true.mpr ⟨?_,
    env.addToBlockIndex manager.mapBitcoinBlockIndex block, ?_⟩
  · rw [CChainManager.preliminaryChecks, if_neg fresh, noCheckpoint]
    simp only [work, Bool.not_true, Bool.false_eq_true, if_false, if_neg now]
    rfl
  · rw [BitcoinEnv.acceptBlock, if_pos notStart, parent]
    simp only [checked, bind, Except.bind]
    rfl

/-- Headers hashed to their nonce, except for the start block. -/
def soloEnv : BitcoinEnv where
  getHash := fun block =>
    if block = firstBlock then hashBitcoinStartBlock
    else BitVec.ofNat 256 block.nNonce.toNat
  checkpoints := []
  fTestNet := false

def headerOn (hashPrevBlock : Uint256) (nTime nNonce : UInt32) :
    CBitcoinBlock where
  nVersion := 2
  hashPrevBlock := hashPrevBlock
  hashMerkleRoot := 0
  nTime := nTime
  nBits := 0x18415fd1
  nNonce := nNonce

/-- The first header above the start block. -/
def lowBlock : CBitcoinBlock := headerOn hashBitcoinStartBlock 1404029600 1

/-- A header on the first one. -/
def highBlock : CBitcoinBlock := headerOn 1 1404029601 2

/-- Another header on the start block. -/
def rivalBlock : CBitcoinBlock := headerOn hashBitcoinStartBlock 1404029602 3

def lowIndex : BitcoinIndex := .child (.root firstBlock) lowBlock

def highIndex : BitcoinIndex := .child lowIndex highBlock

/-- The known headers with the first header above the start block. -/
def twoHeaders : HeaderMap :=
  soloEnv.addToBlockIndex (soloEnv.addToBlockIndex ∅ firstBlock) lowBlock

def threeHeaders : HeaderMap := soloEnv.addToBlockIndex twoHeaders highBlock

def soloClock : Clock := ⟨.main, 1404029700⟩

theorem getMedianTimePast_root (block : CBitcoinBlock) :
    getMedianTimePast (.root block) = block.nTime.toNat := by
  simp [getMedianTimePast, lastTimes]

theorem getMedianTimePast_low : getMedianTimePast lowIndex = 1404029600 := by
  have times : lastTimes 11 lowIndex = [1404029600, 1404029522] := by decide
  have sorted :
      [1404029600, 1404029522].mergeSort = [1404029522, 1404029600] := by
    simp [List.mergeSort]
  rw [getMedianTimePast, times, sorted]
  rfl

theorem fits_low : Fits soloEnv soloClock (.root firstBlock) lowBlock where
  plain := rfl
  notStart := by decide
  work := by decide
  now := by decide
  required := by decide
  late := by rw [getMedianTimePast_root]; decide
  version := by decide

theorem fits_high : Fits soloEnv soloClock lowIndex highBlock where
  plain := rfl
  notStart := by decide
  work := by decide
  now := by decide
  required := by decide
  late := by rw [getMedianTimePast_low]; decide
  version := by decide

theorem fits_rival : Fits soloEnv soloClock (.root firstBlock) rivalBlock where
  plain := rfl
  notStart := by decide
  work := by decide
  now := by decide
  required := by decide
  late := by rw [getMedianTimePast_root]; decide
  version := by decide

/-- Two headers above the start block, and the manager after a restart. -/
theorem exists_restarted :
    ∃ started manager loaded,
      create soloEnv (fun _ => 0) .empty = .ok started ∧
      started.addBitcoinHeader soloEnv soloClock [lowBlock, highBlock] =
        .ok manager ∧
      create soloEnv (fun _ => 0) manager.pBitcoinblocktree = .ok loaded ∧
      KeepsUp soloEnv soloClock started [lowBlock, highBlock] ∧
      Kept soloEnv loaded highIndex ∧
      loaded.chain.setBlockIndexValid = [] ∧
      accepts soloEnv soloClock loaded rivalBlock = true ∧
      newIndex loaded.mapBitcoinBlockIndex rivalBlock =
        .child (.root firstBlock) rivalBlock := by
  have isStart : soloEnv.getHash firstBlock = hashBitcoinStartBlock := rfl
  rcases create_empty isStart fun _ => 0 with
    ⟨started, created, kept, headers⟩
  have lowAccepted : accepts soloEnv soloClock started lowBlock = true :=
    fits_low.accepts (by rw [headers]; decide)
      (by rw [headers]; decide)
  rcases processBitcoinHeader_accepted kept lowAccepted with
    ⟨low, lowTip, lowProcessed, lowKept, lowAdded⟩
  have isLow : newIndex started.mapBitcoinBlockIndex lowBlock = lowIndex := by
    rw [headers]
    decide
  have lowHeaders : low.mapBitcoinBlockIndex = twoHeaders := by
    rw [lowAdded.headers, headers]
    rfl
  have lowIsTip :=
    lowAdded.tip_of_more lowKept (by rw [isLow]; decide)
  rw [lowIsTip, isLow] at lowKept
  have highAccepted : accepts soloEnv soloClock low highBlock = true :=
    fits_high.accepts (by rw [lowHeaders]; decide)
      (by rw [lowHeaders]; decide)
  rcases processBitcoinHeader_accepted lowKept highAccepted with
    ⟨high, highTip, highProcessed, highKept, highAdded⟩
  have isHigh : newIndex low.mapBitcoinBlockIndex highBlock = highIndex := by
    rw [lowHeaders]
    decide
  have highHeaders : high.mapBitcoinBlockIndex = threeHeaders := by
    rw [highAdded.headers, lowHeaders]
    rfl
  have highIsTip :=
    highAdded.tip_of_more highKept (by rw [isHigh]; decide)
  rw [highIsTip, isHigh] at highKept
  have noNull : NoNull high.pBitcoinblocktree := by
    intro hash member
    rcases highKept.stored.records hash member with ⟨pindex, found, -⟩
    have known : hash ∈ threeHeaders :=
      AList.lookup_isSome.mp (by rw [← highHeaders, found]; rfl)
    constructor <;> rintro rfl <;> revert known <;> decide
  rcases create_of_noNull highKept noNull fun _ => 0 with
    ⟨loaded, isLoaded, loadedKept, restarted⟩
  have parent :
      loaded.mapBitcoinBlockIndex.lookup hashBitcoinStartBlock =
        some (.root firstBlock) := by
    refine (restarted.headers _ _).mpr ⟨by rw [highHeaders]; decide, ?_⟩
    exact (highKept.stored.tipSaved.mono
      (root_le_of_linked
        (highKept.known.linked _ highIndex highKept.tipFound))).mem
  have fresh : soloEnv.getHash rivalBlock ∉ loaded.mapBitcoinBlockIndex := by
    intro member
    rcases Option.isSome_iff_exists.mp (AList.lookup_isSome.mpr member) with
      ⟨pindex, found⟩
    have known : soloEnv.getHash rivalBlock ∈ threeHeaders :=
      AList.lookup_isSome.mp (by
        rw [← highHeaders, ((restarted.headers _ _).mp found).1]
        rfl)
    revert known
    decide
  refine ⟨started, high, loaded, created, ?_, isLoaded, ?_, loadedKept,
    restarted.candidates, fits_rival.accepts fresh parent, ?_⟩
  · simp only [addBitcoinHeader_cons, lowProcessed, bind, Except.bind,
      highProcessed]
    rfl
  · intro _ block tip found active
    rw [List.find?_cons_of_pos lowAccepted, Option.some.injEq] at found
    rw [← found, isLow, kept.tip_eq active]
    decide
  · have onStart : rivalBlock.hashPrevBlock = hashBitcoinStartBlock := rfl
    rw [newIndex, onStart, parent]

/-- The weaker header becomes the tip. -/
theorem not_followsMostWork :
    ∃ started manager loaded next,
      create soloEnv (fun _ => 0) .empty = .ok started ∧
      started.addBitcoinHeader soloEnv soloClock [lowBlock, highBlock] =
        .ok manager ∧
      create soloEnv (fun _ => 0) manager.pBitcoinblocktree = .ok loaded ∧
      loaded.addBitcoinHeader soloEnv soloClock [rivalBlock] = .ok next ∧
      ¬ FollowsMostWork next ∧ ¬ KeepsWork loaded next := by
  rcases exists_restarted with
    ⟨started, manager, loaded, created, added, isLoaded, -, kept, none,
      accepted, isRival⟩
  rcases processBitcoinHeader_accepted kept accepted with
    ⟨next, newTip, processed, nextKept, rivalAdded⟩
  have active := nextKept.chosen.active
  rw [rivalAdded.tip_of_none none, isRival] at active
  have weaker :
      ¬ nChainWork highIndex ≤
        nChainWork (.child (.root firstBlock) rivalBlock) := by
    decide
  refine ⟨started, manager, loaded, next, created, added, isLoaded, ?_, ?_, ?_⟩
  · rw [addBitcoinHeader_cons, processed]
    rfl
  · rintro ⟨tip, isTip, -, most⟩
    rw [active, Option.some.injEq] at isTip
    rw [← isTip] at most
    refine weaker (most (soloEnv.getHash highIndex.item) highIndex ?_)
    rw [rivalAdded.headers, BitcoinEnv.addToBlockIndex, lookup_insertNew,
      kept.tipFound, Option.some_or]
  · intro keeps
    exact weaker (keeps _ _ kept.chosen.active active)

/-- The theorem after a restart with two headers above the start block. -/
theorem followsMostWork_of_run_restart :
    ∃ manager, manager.chain.chainActive = some highIndex ∧
      FollowsMostWork manager := by
  rcases exists_restarted with
    ⟨started, manager, loaded, created, added, isLoaded, keepsUp, kept, -⟩
  have run : Run soloEnv (KeepsUp soloEnv) loaded :=
    .restart _ (.addBitcoinHeader _ (.start _ created) keepsUp added) isLoaded
  exact ⟨loaded, kept.chosen.active,
    (followsMostWork_of_run soloEnv rfl loaded run).1⟩

end DSValue.Bitcoin.MostWork
