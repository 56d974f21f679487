import DSValue.Chain.Selection

/-!
# One attempt to activate a chain

Disconnecting down to the fork and connecting up to the chosen tip ends at the
last index before the first one that does not connect.
-/

namespace DSValue.Chain.Activation

open DSValue.Lib
open DSValue.Consensus.CheckLottoResult
open DSValue.Chain.BestChain
open DSValue.Chain.Selection

variable {α : Type} [DecidableEq α]
  {less : Lineage α → Lineage α → Bool} {valid : Lineage α → Bool}
  {connectTip : Lineage α → Option Reject}
  {tip mostWork genesis : Lineage α}

/-! ## Disconnecting and connecting -/

/-- Disconnecting stops at the last common index. -/
theorem disconnectTips_spec
    (onActive : genesis ≤ tip) (onMostWork : genesis ≤ mostWork) :
    ∃ fork, disconnectTips mostWork tip = some fork ∧
      fork ≤ tip ∧ fork ≤ mostWork ∧
      ∀ pindex ≤ tip, pindex ≤ mostWork → pindex ≤ fork := by
  induction tip with
  | root item =>
      have same := Lineage.le_root_iff.mp onActive
      rw [same] at onMostWork
      exact ⟨.root item, by rw [disconnectTips, if_pos onMostWork], le_rfl,
        onMostWork, fun _ below _ => below⟩
  | child pprev item inductionHypothesis =>
      rw [disconnectTips]
      split_ifs with inside
      · exact ⟨_, rfl, le_rfl, inside, fun _ below _ => below⟩
      · have lower : ∀ pindex, pindex ≤ Lineage.child pprev item →
            pindex ≤ mostWork → pindex ≤ pprev := by
          intro pindex below common
          rcases Lineage.le_child_iff.mp below with rfl | under
          · exact absurd common inside
          · exact under
        rcases inductionHypothesis (lower genesis onActive onMostWork) with
          ⟨fork, found, onPprev, onChain, greatest⟩
        refine ⟨fork, found, onPprev.trans (Lineage.le_child pprev item),
          onChain, ?_⟩
        intro pindex below common
        exact greatest pindex (lower pindex below common) common

/-- What connecting from a fork towards a tip reaches. -/
structure Reached
    (connectTip : Lineage α → Option Reject) (fork mostWork last : Lineage α)
    (stopped : Option (Lineage α × Reject)) : Prop where
  above : fork ≤ last
  below : last ≤ mostWork
  connected : ∀ pindex ≤ last, pindex ≤ fork ∨ connectTip pindex = none
  complete : stopped = none → last = mostWork
  blocked :
    ∀ pindexConnect reject, stopped = some (pindexConnect, reject) →
      pindexConnect ≤ mostWork ∧ pindexConnect.pprev? = some last ∧
        connectTip pindexConnect = some reject

omit [DecidableEq α] in
theorem Reached.whole (mostWork : Lineage α) :
    Reached connectTip mostWork mostWork mostWork none where
  above := le_rfl
  below := le_rfl
  connected := fun _ under => Or.inl under
  complete := fun _ => rfl
  blocked := by simp

omit [DecidableEq α] in
theorem Reached.stopped
    {pprev : Lineage α} {item : α} {reject : Reject}
    (onChain : .child pprev item ≤ mostWork)
    (rejected : connectTip (.child pprev item) = some reject) :
    Reached connectTip pprev mostWork pprev
      (some (.child pprev item, reject)) where
  above := le_rfl
  below := (Lineage.le_child pprev item).trans onChain
  connected := fun _ under => Or.inl under
  complete := by simp
  blocked := by
    rintro _ _ ⟨⟩
    exact ⟨onChain, rfl, rejected⟩

omit [DecidableEq α] in
theorem Reached.connect
    {pprev last : Lineage α} {item : α}
    {stopped : Option (Lineage α × Reject)}
    (connects : connectTip (.child pprev item) = none)
    (reached :
      Reached connectTip (.child pprev item) mostWork last stopped) :
    Reached connectTip pprev mostWork last stopped where
  above := (Lineage.le_child pprev item).trans reached.above
  below := reached.below
  connected := by
    intro pindex under
    rcases reached.connected pindex under with inFork | later
    · rcases Lineage.le_child_iff.mp inFork with rfl | lower
      · exact Or.inr connects
      · exact Or.inl lower
    · exact Or.inr later
  complete := reached.complete
  blocked := reached.blocked

theorem connectTips_spec
    (connectTip : Lineage α → Option Reject) {fork : Lineage α} (left : Nat)
    (below : fork ≤ mostWork) (enough : mostWork.height < fork.height + left) :
    ∃ last stopped,
      connectTips connectTip mostWork left (some fork) =
          (some last, stopped) ∧
        Reached connectTip fork mostWork last stopped := by
  induction left generalizing fork with
  | zero =>
      have height := Lineage.height_le_of_le below
      omega
  | succ left inductionHypothesis =>
      rw [connectTips]
      split_ifs with done
      · have same : mostWork ≤ fork := by simpa [contains] using done
        rw [le_antisymm below same]
        exact ⟨mostWork, none, rfl, .whole mostWork⟩
      · have strict : fork < mostWork := by
          refine lt_of_le_of_ne below ?_
          rintro rfl
          simp [contains] at done
        rcases Lineage.at?_succ_of_lt strict with ⟨item, found, onChain⟩
        simp only [nextHeight, found]
        cases result : connectTip (.child fork item) with
        | none =>
            rcases inductionHypothesis onChain
                (by rw [Lineage.height_child]; omega) with
              ⟨last, stopped, finished, reached⟩
            exact ⟨last, stopped, finished, .connect result reached⟩
        | some reject =>
            exact ⟨fork, _, rfl, .stopped onChain result⟩

/-- Nothing moves when the next index does not connect. -/
theorem attempt_of_blocked
    {blocked : Lineage α} {reject : Reject}
    (onChain : blocked ≤ mostWork) (parent : blocked.pprev? = some tip)
    (rejected : connectTip blocked = some reject) :
    connectTips connectTip mostWork (mostWork.height + 1)
        (disconnectTips mostWork tip) =
      (some tip, some (blocked, reject)) := by
  rcases Lineage.eq_child_of_pprev? parent with ⟨item, rfl⟩
  have below : tip ≤ mostWork := (Lineage.le_child tip item).trans onChain
  have kept : disconnectTips mostWork tip = some tip := by
    cases tip <;> rw [disconnectTips, if_pos below]
  have short : ¬ mostWork ≤ tip := fun above =>
    Lineage.not_child_le tip item (onChain.trans above)
  have next : mostWork.at? (tip.height + 1) = some (.child tip item) := onChain
  rw [kept, connectTips]
  simp [contains, short, nextHeight, next, rejected]

/-! ## Blocked indexes -/

/-- An index lies on the chain of the call's first tip or connects. -/
def Ok
    (connectTip : Lineage α → Option Reject) (oldTip pindex : Lineage α) :
    Prop :=
  pindex ≤ oldTip ∨ connectTip pindex = none

def Connectable
    (connectTip : Lineage α → Option Reject) (oldTip pindex : Lineage α) :
    Prop :=
  ∀ ancestor ≤ pindex, Ok connectTip oldTip ancestor

/-- The first index on the way to a tip that does not connect. -/
structure FirstBlocked
    (connectTip : Lineage α → Option Reject)
    (oldTip pindex blocked : Lineage α) : Prop where
  below : blocked ≤ pindex
  isBlocked : ¬ Ok connectTip oldTip blocked
  before : ∀ ancestor < blocked, Ok connectTip oldTip ancestor

/-- An index of the first tip's chain that would not connect again. -/
def Stale
    (connectTip : Lineage α → Option Reject) (oldTip pindex : Lineage α) :
    Prop :=
  pindex ≤ oldTip ∧ connectTip pindex ≠ none

omit [DecidableEq α] in
theorem FirstBlocked.unique
    {oldTip pindex blocked other : Lineage α}
    (first : FirstBlocked connectTip oldTip pindex blocked)
    (second : FirstBlocked connectTip oldTip pindex other) :
    blocked = other := by
  rcases Lineage.le_total_of_le first.below second.below with lower | lower
  · by_contra different
    exact first.isBlocked (second.before _ (lt_of_le_of_ne lower different))
  · by_contra different
    exact second.isBlocked
      (first.before _ (lt_of_le_of_ne lower (Ne.symm different)))

/-- The active chain during a call. -/
structure OnWay
    (connectTip : Lineage α → Option Reject)
    (genesis oldTip active : Lineage α) : Prop where
  rooted : genesis ≤ active
  ok : Connectable connectTip oldTip active
  stale : ∀ pindex, Stale connectTip oldTip pindex → pindex ≤ active

/-- How an attempt to reach a tip ends. -/
structure Attempt
    (connectTip : Lineage α → Option Reject)
    (genesis oldTip mostWork last : Lineage α)
    (stopped : Option (Lineage α × Reject)) : Prop where
  rooted : genesis ≤ last
  below : last ≤ mostWork
  ok : Connectable connectTip oldTip last
  stale :
    (∀ pindex, Stale connectTip oldTip pindex → pindex ≤ mostWork) →
      ∀ pindex, Stale connectTip oldTip pindex → pindex ≤ last
  complete : stopped = none → last = mostWork
  blocked :
    ∀ pindexConnect reject, stopped = some (pindexConnect, reject) →
      FirstBlocked connectTip oldTip mostWork pindexConnect ∧
        pindexConnect.pprev? = some last ∧
        connectTip pindexConnect = some reject

/-- An attempt from a chain on the way stops at the first blocked index. -/
theorem attempt_spec
    {oldTip active : Lineage α}
    (onWay : OnWay connectTip genesis oldTip active)
    (rooted : genesis ≤ mostWork) :
    ∃ last stopped,
      connectTips connectTip mostWork (mostWork.height + 1)
          (disconnectTips mostWork active) = (some last, stopped) ∧
        Attempt connectTip genesis oldTip mostWork last stopped := by
  rcases disconnectTips_spec onWay.rooted rooted with
    ⟨fork, disconnected, onActive, onMostWork, greatest⟩
  rcases connectTips_spec connectTip (mostWork.height + 1) onMostWork
      (by omega) with ⟨last, stopped, finished, reached⟩
  have lastOk : Connectable connectTip oldTip last := by
    intro ancestor under
    rcases reached.connected ancestor under with inFork | connects
    · exact onWay.ok ancestor (inFork.trans onActive)
    · exact Or.inr connects
  refine ⟨last, stopped, by rw [disconnected]; exact finished, ?_⟩
  constructor
  case rooted =>
    exact (greatest genesis onWay.rooted rooted).trans reached.above
  case below => exact reached.below
  case ok => exact lastOk
  case stale =>
    intro onTarget pindex stale
    exact (greatest pindex (onWay.stale pindex stale)
      (onTarget pindex stale)).trans reached.above
  case complete => exact reached.complete
  case blocked =>
    intro pindexConnect reject isStopped
    rcases reached.blocked pindexConnect reject isStopped with
      ⟨onChain, parent, rejected⟩
    rcases Lineage.eq_child_of_pprev? parent with ⟨item, rfl⟩
    refine ⟨⟨onChain, ?_, ?_⟩, parent, rejected⟩
    · rintro (onOld | connects)
      · have inActive :=
          onWay.stale _ ⟨onOld, by simp [rejected]⟩
        exact Lineage.not_child_le last item
          ((greatest _ inActive onChain).trans reached.above)
      · simp [rejected] at connects
    · intro ancestor strictlyBelow
      exact lastOk ancestor (Lineage.lt_child_iff.mp strictlyBelow)

end DSValue.Chain.Activation
