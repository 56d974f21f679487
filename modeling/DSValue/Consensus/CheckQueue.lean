import Mathlib.Algebra.BigOperators.Group.Finset.Basic
import Mathlib.Algebra.Order.BigOperators.Group.Finset
import Mathlib.Data.Fintype.Option
import Mathlib.Tactic.Abel
import DSValue.Lib.System

/-!
# The queue of script checks

A block is connected by one thread, the master, which puts the checks of the
scripts into a queue.  Workers take them out in batches, and the master helps
when it waits for the result.  The members of the queue are touched under its
mutex only, so a thread goes on in sections: from the mutex to the next wait,
batch or return, or from one check of its batch to the next.  The sections of
the threads can follow each other in every order.

What `Wait` returns is whether all checks are fulfilled that were added since it
returned before; each of them was taken exactly once.  A master that sleeps is
woken, because a worker has a batch for as long as nobody woke it.
-/

namespace DSValue.Consensus.CheckQueue

open DSValue.Lib

variable {T ι : Type*}

/-! ## The queue and its threads -/

/-- The workers and the master, which is `none`. -/
abbrev Thread (ι : Type*) := Option ι

/-- Where a thread is. -/
inductive Phase (T : Type*) where
  /-- Not in `Loop`. -/
  | outside
  /-- In front of its first section. -/
  | entering
  /-- In a section. -/
  | locked
  /-- Between the checks of its batch. -/
  | running (done todo : List T) (fOk : Bool)
  /-- In `cond.wait`. -/
  | waiting (notified : Bool)

/-- What happened in a section. -/
inductive Event (T : Type*) where
  | added (vChecks : List T)
  | executed (check : T)
  | skipped (check : T)
  | returned (fRet : Bool)

/-- `CCheckQueue`; `queue` has its back in front. -/
structure QueueState (T ι : Type*) where
  queue : List T
  nIdle : Int
  nTotal : Int
  fAllOk : Bool
  nTodo : Nat
  fQuit : Bool
  phase : Thread ι → Phase T

/-- The constructor. -/
def QueueState.initial : QueueState T ι where
  queue := []
  nIdle := 0
  nTotal := 0
  fAllOk := true
  nTodo := 0
  fQuit := false
  phase := fun _ => .outside

/-- A notified thread is woken. -/
def Phase.notify : Phase T → Phase T
  | .waiting _ => .waiting true
  | phase => phase

/-- The number of checks that a thread takes. -/
def nNow (nBatchSize : Nat) (state : QueueState T ι) : Nat :=
  max 1 (min nBatchSize
    (state.queue.length / (state.nTotal + state.nIdle + 1).toNat))

theorem nNow_pos (nBatchSize : Nat) (state : QueueState T ι) :
    0 < nNow nBatchSize state :=
  Nat.lt_of_lt_of_le Nat.one_pos (le_max_left _ _)

section Sections

variable [DecidableEq ι]

/-- A thread goes to another place. -/
def QueueState.enterPhase (state : QueueState T ι) (thread : Thread ι)
    (phase : Phase T) : QueueState T ι :=
  { state with phase := Function.update state.phase thread phase }

/-- `notify_one` of a thread that is waiting. -/
def QueueState.notifyOne (state : QueueState T ι) (thread : Thread ι) :
    QueueState T ι :=
  state.enterPhase thread (state.phase thread).notify

/-- `condWorker.notify_all`. -/
def QueueState.notifyAll (state : QueueState T ι) : QueueState T ι :=
  { state with
    phase := fun thread =>
      match thread with
      | none => state.phase none
      | some worker => (state.phase (some worker)).notify }

/-- `Add`; `woken` is the worker that `notify_one` wakes, if there is one. -/
def add (vChecks : List T) (woken : Option ι) (state : QueueState T ι) :
    QueueState T ι :=
  let state :=
    { state with
      queue := vChecks.reverse ++ state.queue
      nTodo := state.nTodo + vChecks.length }
  if vChecks.length = 1 then
    match woken with
    | none => state
    | some worker => state.notifyOne (some worker)
  else if 1 < vChecks.length then state.notifyAll
  else state

/-- The clean-up of the batch before. -/
def cleanUp (thread : Thread ι) (nNow : Nat) (fOk : Bool) (state : QueueState T ι) :
    QueueState T ι :=
  let state :=
    { state with
      fAllOk := state.fAllOk && fOk
      nTodo := state.nTodo - nNow }
  if state.nTodo = 0 ∧ thread ≠ none then state.notifyOne none else state

/-- A section up to the head of the loop. -/
def acquire (thread : Thread ι) (state : QueueState T ι) :
    Option (QueueState T ι) :=
  match state.phase thread with
  | .entering =>
      some ({ state with nTotal := state.nTotal + 1 }.enterPhase thread .locked)
  | .running done [] fOk =>
      some (cleanUp thread done.length fOk (state.enterPhase thread .locked))
  | .waiting _ =>
      some ({ state with nIdle := state.nIdle - 1 }.enterPhase thread .locked)
  | _ => none

/-- A section from the head of the loop on: return, wait or take a batch. -/
def loopHead (nBatchSize : Nat) (thread : Thread ι) (state : QueueState T ι) :
    QueueState T ι × List (Event T) :=
  match state.queue with
  | [] =>
      if (thread = none ∨ state.fQuit = true) ∧ state.nTodo = 0 then
        ({ state with
            nTotal := state.nTotal - 1
            fAllOk := if thread = none then true else state.fAllOk }.enterPhase
          thread .outside,
          if thread = none then [.returned state.fAllOk] else [])
      else
        ({ state with nIdle := state.nIdle + 1 }.enterPhase thread (.waiting false),
          [])
  | _ :: _ =>
      ({ state with queue := state.queue.drop (nNow nBatchSize state) }.enterPhase
        thread
        (.running [] (state.queue.take (nNow nBatchSize state)) state.fAllOk),
        [])

/-- The next check of a batch. -/
def execute (ok : T → Bool) (thread : Thread ι) (state : QueueState T ι) :
    Option (QueueState T ι × List (Event T)) :=
  match state.phase thread with
  | .running done (check :: todo) fOk =>
      some (state.enterPhase thread
          (.running (done ++ [check]) todo (fOk && ok check)),
        [if fOk then .executed check else .skipped check])
  | _ => none

/-- What a thread does next; the master adds checks while it is not in `Loop`. -/
inductive QueueAction (T ι : Type*) where
  | add (vChecks : List T) (woken : Option ι)
  | enter (thread : Thread ι)
  | lock (thread : Thread ι)
  | execute (thread : Thread ι)

def queueStep (ok : T → Bool) (nBatchSize : Nat) (state : QueueState T ι) :
    QueueAction T ι → Option (QueueState T ι × List (Event T))
  | .add vChecks woken =>
      match state.phase none with
      | .outside => some (add vChecks woken state, [.added vChecks])
      | _ => none
  | .enter thread =>
      match state.phase thread with
      | .outside => some (state.enterPhase thread .entering, [])
      | _ => none
  | .lock thread => (acquire thread state).map (loopHead nBatchSize thread)
  | .execute thread => execute ok thread state

/-- The queue with what happened, the latest in front. -/
structure Traced (T ι : Type*) where
  state : QueueState T ι
  trace : List (Event T)

/-- Every order of the sections. -/
def queueSystem (ok : T → Bool) (nBatchSize : Nat) :
    System (Traced T ι) (QueueAction T ι) where
  init := ⟨QueueState.initial, []⟩
  step := fun traced action =>
    (queueStep ok nBatchSize traced.state action).map fun taken =>
      ⟨taken.1, taken.2 ++ traced.trace⟩

end Sections

/-! ## What the threads hold -/

/-- The batch that is counted in `nTodo`. -/
def Phase.size : Phase T → Nat
  | .running done todo _ => done.length + todo.length
  | _ => 0

/-- The checks of a batch that are still to come. -/
def Phase.todo : Phase T → Multiset T
  | .running _ todo _ => todo
  | _ => 0

/-- The checks of a batch that were taken. -/
def Phase.done : Phase T → Multiset T
  | .running done _ _ => done
  | _ => 0

/-- Whether a thread is counted in `nTotal`. -/
def Phase.inside : Phase T → Nat
  | .outside => 0
  | .entering => 0
  | _ => 1

/-- Whether a thread is counted in `nIdle`. -/
def Phase.idle : Phase T → Nat
  | .waiting _ => 1
  | _ => 0

/-- No check of a batch has failed. -/
def Phase.fOk : Phase T → Bool
  | .running _ _ fOk => fOk
  | _ => true

/-- What is read off a phase the same way whether it is notified or not. -/
theorem Phase.notify_eq (phase : Phase T) :
    phase.notify.size = phase.size ∧ phase.notify.todo = phase.todo ∧
      phase.notify.done = phase.done ∧ phase.notify.inside = phase.inside ∧
      phase.notify.idle = phase.idle ∧ phase.notify.fOk = phase.fOk := by
  cases phase <;> exact ⟨rfl, rfl, rfl, rfl, rfl, rfl⟩

/-- The events since `Wait` returned. -/
def session : List (Event T) → List (Event T)
  | [] => []
  | .returned _ :: _ => []
  | event :: trace => event :: session trace

def Event.addedChecks : Event T → Multiset T
  | .added vChecks => vChecks
  | _ => 0

def Event.executedChecks : Event T → Multiset T
  | .executed check => {check}
  | _ => 0

def Event.skippedChecks : Event T → Multiset T
  | .skipped check => {check}
  | _ => 0

/-- The checks of all events of one kind. -/
def collect (kind : Event T → Multiset T) (events : List (Event T)) : Multiset T :=
  (events.map kind).sum

section Sums

variable [Fintype ι] {M : Type*} [AddCommMonoid M]

/-- What all threads hold. -/
def total (held : Phase T → M) (phase : Thread ι → Phase T) : M :=
  ∑ thread, held (phase thread)

/-- A thread that goes to another place changes what it holds. -/
theorem total_split
    [DecidableEq ι] (held : Phase T → M) (phase : Thread ι → Phase T)
    (thread : Thread ι) :
    ∃ others, total held phase = others + held (phase thread) ∧
      ∀ next, total held (Function.update phase thread next) = others + held next := by
  refine ⟨∑ t ∈ Finset.univ.erase thread, held (phase t), ?_, fun next => ?_⟩
  · exact (Finset.sum_erase_add _ _ (Finset.mem_univ thread)).symm
  · rw [total, ← Finset.sum_erase_add _ _ (Finset.mem_univ thread),
      Function.update_self]
    congr 1
    exact Finset.sum_congr rfl fun t listed => by
      rw [Function.update_of_ne (Finset.ne_of_mem_erase listed)]

theorem total_congr
    {held : Phase T → M} {phase other : Thread ι → Phase T}
    (same : ∀ thread, held (phase thread) = held (other thread)) :
    total held phase = total held other :=
  Finset.sum_congr rfl fun thread _ => same thread

theorem total_eq_zero
    {held : Phase T → M} {phase : Thread ι → Phase T}
    (none : ∀ thread, held (phase thread) = 0) : total held phase = 0 :=
  Finset.sum_eq_zero fun thread _ => none thread

end Sums

/-- Nothing has failed so far. -/
def AllOk (state : QueueState T ι) : Prop :=
  state.fAllOk = true ∧ ∀ thread, (state.phase thread).fOk = true

section Verdict

variable [DecidableEq ι] {state next : QueueState T ι} {thread : Thread ι}

/-- The others have not failed either. -/
theorem allOk_split
    {phase : Phase T} (updated : next.phase = Function.update state.phase thread phase) :
    (AllOk next ↔ (next.fAllOk = true ∧ phase.fOk = true) ∧
      ∀ t ≠ thread, (state.phase t).fOk = true) ∧
    (AllOk state ↔ (state.fAllOk = true ∧ (state.phase thread).fOk = true) ∧
      ∀ t ≠ thread, (state.phase t).fOk = true) := by
  constructor
  · rw [AllOk, updated, and_assoc, and_congr_right_iff]
    intro _
    constructor
    · intro all
      refine ⟨?_, fun t other => ?_⟩
      · have here := all thread
        rwa [Function.update_self] at here
      · have there := all t
        rwa [Function.update_of_ne other] at there
    · rintro ⟨here, others⟩ t
      by_cases same : t = thread
      · rw [same, Function.update_self]
        exact here
      · rw [Function.update_of_ne same]
        exact others t same
  · rw [AllOk, and_assoc, and_congr_right_iff]
    intro _
    constructor
    · exact fun all => ⟨all thread, fun t _ => all t⟩
    · rintro ⟨here, others⟩ t
      by_cases same : t = thread
      · rw [same]
        exact here
      · exact others t same

/-- Nobody else is in a section. -/
def Alone (thread : Thread ι) (phase : Thread ι → Phase T) : Prop :=
  ∀ t, t ≠ thread → phase t ≠ .locked

theorem notify_ne_locked {phase : Phase T} (unlocked : phase ≠ .locked) :
    phase.notify ≠ .locked := by
  cases phase with
  | locked => exact absurd rfl unlocked
  | outside | entering | running | waiting => exact fun equal => by cases equal

theorem Alone.update
    {phases : Thread ι → Phase T} {other : Thread ι} {phase : Phase T}
    (alone : Alone thread phases) (leaves : other ≠ thread → phase ≠ .locked) :
    Alone thread (Function.update phases other phase) := by
  intro t others
  by_cases here : t = other
  · rw [here, Function.update_self]
    exact leaves (here ▸ others)
  · rw [Function.update_of_ne here]
    exact alone t others

theorem alone_acquire
    (unlocked : ∀ t, state.phase t ≠ .locked)
    (acquired : acquire thread state = some next) : Alone thread next.phase := by
  have alone : Alone thread (Function.update state.phase thread .locked) :=
    Alone.update (fun t _ => unlocked t) fun other => absurd rfl other
  rw [acquire] at acquired
  split at acquired
  · cases acquired
    exact alone
  · cases acquired
    unfold cleanUp
    dsimp only
    split_ifs
    · exact alone.update fun other => notify_ne_locked (alone none other)
    · exact alone
  · cases acquired
    exact alone
  · cases acquired

theorem unlocked_loopHead
    {nBatchSize : Nat} (alone : Alone thread state.phase) (t : Thread ι) :
    (loopHead nBatchSize thread state).1.phase t ≠ .locked := by
  have moved {phase : Phase T} (leaves : phase ≠ .locked) :
      Function.update state.phase thread phase t ≠ .locked := by
    by_cases here : t = thread
    · rw [here, Function.update_self]
      exact leaves
    · rw [Function.update_of_ne here]
      exact alone t here
  rw [loopHead]
  split
  · split
    · exact moved fun equal => by cases equal
    · exact moved fun equal => by cases equal
  · exact moved fun equal => by cases equal

theorem lock_step
    (ok : T → Bool) (nBatchSize : Nat) {traced : Traced T ι} {held : QueueState T ι}
    (acquired : acquire thread traced.state = some held) :
    (queueSystem ok nBatchSize).step traced (.lock thread) =
      some ⟨(loopHead nBatchSize thread held).1,
        (loopHead nBatchSize thread held).2 ++ traced.trace⟩ := by
  change ((acquire thread traced.state).map _).map _ = _
  rw [acquired]
  rfl

end Verdict

/-! ## What holds between two sections -/

section Invariant

variable [Fintype ι] {ok : T → Bool} {nBatchSize : Nat}
  {state next : QueueState T ι} {events : List (Event T)} {thread : Thread ι}
  {vChecks : List T} {woken : Option ι}

/-- The checks added in a session, and those taken out of a batch. -/
def added (events : List (Event T)) : Multiset T := collect Event.addedChecks events

def skipped (events : List (Event T)) : Multiset T := collect Event.skippedChecks events

def processed (events : List (Event T)) : Multiset T :=
  collect Event.executedChecks events + skipped events

/-- What holds of the queue and of the events since `Wait` returned. -/
structure Invariant (ok : T → Bool) (state : QueueState T ι)
    (events : List (Event T)) : Prop where
  fQuit : state.fQuit = false
  batch : ∀ thread done todo fOk, state.phase thread = .running done todo fOk →
    0 < done.length + todo.length
  nTodo : state.nTodo = state.queue.length + total Phase.size state.phase
  nTotal : state.nTotal = total Phase.inside state.phase
  nIdle : state.nIdle = total Phase.idle state.phase
  conserved : added events =
    processed events + state.queue + total Phase.todo state.phase
  taken : total Phase.done state.phase ≤ processed events
  verdict : AllOk state ↔ ∀ check ∈ processed events, ok check = true
  skips : skipped events ≠ 0 → ¬ AllOk state
  asleep : ∀ notified, state.phase none = .waiting notified →
    state.queue = [] ∧ (notified = false → 0 < state.nTodo)

@[simp]
theorem collect_nil (kind : Event T → Multiset T) : collect kind [] = 0 := rfl

@[simp]
theorem collect_cons (kind : Event T → Multiset T) (event : Event T)
    (events : List (Event T)) :
    collect kind (event :: events) = kind event + collect kind events :=
  List.sum_cons

theorem invariant_initial :
    Invariant ok (QueueState.initial : QueueState T ι) [] where
  fQuit := rfl
  batch := fun _ _ _ _ running => by cases running
  nTodo := by
    rw [total_eq_zero fun _ => rfl]
    rfl
  nTotal := by
    rw [total_eq_zero fun _ => rfl]
    rfl
  nIdle := by
    rw [total_eq_zero fun _ => rfl]
    rfl
  conserved := by
    rw [total_eq_zero fun _ => rfl]
    rfl
  taken := by
    rw [total_eq_zero fun _ => rfl]
    exact le_refl _
  verdict := iff_of_true ⟨rfl, fun _ => rfl⟩ fun check listed =>
    absurd listed (Multiset.notMem_zero check)
  skips := fun some => absurd rfl some
  asleep := fun _ waiting => by cases waiting

/-- A master that nobody has woken sleeps while a worker has a batch. -/
theorem Invariant.exists_running
    (invariant : Invariant ok state events)
    (asleep : state.phase none = .waiting false) :
    ∃ worker done todo fOk, state.phase (some worker) = .running done todo fOk := by
  rcases invariant.asleep false asleep with ⟨empty, unfinished⟩
  by_contra idle
  have sizes : total Phase.size state.phase = 0 :=
    total_eq_zero fun thread => by
      cases held : state.phase thread with
      | running done todo fOk =>
          cases thread with
          | none =>
              rw [asleep] at held
              cases held
          | some worker => exact absurd ⟨worker, done, todo, fOk, held⟩ idle
      | locked | outside | entering | waiting => rfl
  have counted := invariant.nTodo
  have todo := unfinished rfl
  rw [empty, sizes] at counted
  exact absurd counted (Nat.ne_of_gt todo)

/-- A notified thread holds what it held before. -/
theorem Invariant.notified
    {phase : Thread ι → Phase T} (invariant : Invariant ok state events)
    (similar : ∀ thread, phase thread = state.phase thread ∨
      phase thread = (state.phase thread).notify) :
    Invariant ok { state with phase := phase } events := by
  have size : total Phase.size phase = total Phase.size state.phase :=
    total_congr fun t => by
      rcases similar t with same | same <;> rw [same]
      exact (Phase.notify_eq _).1
  have todo : total Phase.todo phase = total Phase.todo state.phase :=
    total_congr fun t => by
      rcases similar t with same | same <;> rw [same]
      exact (Phase.notify_eq _).2.1
  have done : total Phase.done phase = total Phase.done state.phase :=
    total_congr fun t => by
      rcases similar t with same | same <;> rw [same]
      exact (Phase.notify_eq _).2.2.1
  have inside : total Phase.inside phase = total Phase.inside state.phase :=
    total_congr fun t => by
      rcases similar t with same | same <;> rw [same]
      exact (Phase.notify_eq _).2.2.2.1
  have idle : total Phase.idle phase = total Phase.idle state.phase :=
    total_congr fun t => by
      rcases similar t with same | same <;> rw [same]
      exact (Phase.notify_eq _).2.2.2.2.1
  have fOk (t : Thread ι) : (phase t).fOk = (state.phase t).fOk := by
    rcases similar t with same | same <;> rw [same]
    exact (Phase.notify_eq _).2.2.2.2.2
  have allOk : AllOk { state with phase := phase } ↔ AllOk state := by
    rw [AllOk, AllOk]
    exact and_congr_right fun _ => forall_congr' fun t => by rw [fOk t]
  refine
    { fQuit := invariant.fQuit
      batch := ?_
      nTodo := by rw [size]; exact invariant.nTodo
      nTotal := by rw [inside]; exact invariant.nTotal
      nIdle := by rw [idle]; exact invariant.nIdle
      conserved := by rw [todo]; exact invariant.conserved
      taken := by rw [done]; exact invariant.taken
      verdict := allOk.trans invariant.verdict
      skips := fun some => fun all => invariant.skips some (allOk.mp all)
      asleep := ?_ }
  · intro t done todo fOk running
    rcases similar t with same | same
    · exact invariant.batch t _ _ _ (same.symm.trans running)
    · refine invariant.batch t done todo fOk ?_
      have notified := same.symm.trans running
      cases held : state.phase t with
      | running => rw [held] at notified; exact notified
      | outside | entering | locked | waiting => rw [held] at notified; cases notified
  · intro notified waiting
    rcases similar none with same | same
    · exact invariant.asleep notified (same.symm.trans waiting)
    · have woken := same.symm.trans waiting
      cases held : state.phase none with
      | waiting before =>
          rw [held] at woken
          cases woken
          exact ⟨(invariant.asleep before held).1, fun equal => by cases equal⟩
      | outside | entering | locked | running => rw [held] at woken; cases woken

theorem Invariant.notifyAll (invariant : Invariant ok state events) :
    Invariant ok state.notifyAll events :=
  invariant.notified fun t => by
    cases t with
    | none => exact Or.inl rfl
    | some worker => exact Or.inr rfl

variable [DecidableEq ι]

theorem Invariant.notifyOne (invariant : Invariant ok state events) :
    Invariant ok (state.notifyOne thread) events :=
  invariant.notified fun t => by
    by_cases here : t = thread
    · subst here
      exact Or.inr (Function.update_self _ _ _)
    · exact Or.inl (Function.update_of_ne here _ _)

/-- The master adds checks. -/
theorem Invariant.add
    (invariant : Invariant ok state events) (outside : state.phase none = .outside) :
    Invariant ok (add vChecks woken state) (.added vChecks :: events) := by
  have grown : Invariant ok
      { state with
        queue := vChecks.reverse ++ state.queue
        nTodo := state.nTodo + vChecks.length } (.added vChecks :: events) := by
    have others : processed (.added vChecks :: events) = processed events := by
      simp only [processed, skipped, collect_cons, Event.executedChecks,
        Event.skippedChecks, zero_add]
    have skips : skipped (.added vChecks :: events) = skipped events := by
      simp only [skipped, collect_cons, Event.skippedChecks, zero_add]
    refine
      { fQuit := invariant.fQuit
        batch := invariant.batch
        nTodo := ?_
        nTotal := invariant.nTotal
        nIdle := invariant.nIdle
        conserved := ?_
        taken := others ▸ invariant.taken
        verdict := others ▸ invariant.verdict
        skips := skips ▸ invariant.skips
        asleep := ?_ }
    · have counted := invariant.nTodo
      simp only [List.length_append, List.length_reverse]
      omega
    · have conserved := invariant.conserved
      rw [others, CheckQueue.added, collect_cons, Event.addedChecks]
      change _ + CheckQueue.added events = _
      rw [conserved, ← Multiset.coe_add, Multiset.coe_reverse]
      abel
    · intro notified waiting
      rw [outside] at waiting
      cases waiting
  unfold CheckQueue.add
  dsimp only
  split_ifs
  · cases woken with
    | none => exact grown
    | some worker => exact grown.notifyOne
  · exact grown.notifyAll
  · exact grown

/-- A thread goes to another place, and no check is added or taken. -/
theorem Invariant.move
    {before phase : Phase T} (invariant : Invariant ok state events)
    (held : state.phase thread = before)
    (updated : next.phase = Function.update state.phase thread phase)
    (fQuit : next.fQuit = state.fQuit)
    (batch : ∀ done todo fOk, phase = .running done todo fOk →
      0 < done.length + todo.length)
    (nTodo : next.nTodo + (state.queue.length + before.size) =
      state.nTodo + (next.queue.length + phase.size))
    (nTotal : next.nTotal + before.inside = state.nTotal + phase.inside)
    (nIdle : next.nIdle + before.idle = state.nIdle + phase.idle)
    (conserved : (next.queue : Multiset T) + phase.todo = state.queue + before.todo)
    (done : phase.done = 0)
    (allOk : next.fAllOk = true ∧ phase.fOk = true ↔
      state.fAllOk = true ∧ before.fOk = true)
    (asleep : ∀ notified, next.phase none = .waiting notified →
      next.queue = [] ∧ (notified = false → 0 < next.nTodo)) :
    Invariant ok next events := by
  have same : AllOk next ↔ AllOk state := by
    rcases allOk_split updated with ⟨after, earlier⟩
    rw [after, earlier, held, allOk]
  refine
    { fQuit := fQuit.trans invariant.fQuit
      batch := ?_
      nTodo := ?_
      nTotal := ?_
      nIdle := ?_
      conserved := ?_
      taken := ?_
      verdict := same.trans invariant.verdict
      skips := fun some all => invariant.skips some (same.mp all)
      asleep := asleep }
  · intro t done todo fOk running
    rw [updated] at running
    by_cases here : t = thread
    · rw [here, Function.update_self] at running
      exact batch done todo fOk running
    · rw [Function.update_of_ne here] at running
      exact invariant.batch t done todo fOk running
  · rcases total_split Phase.size state.phase thread with ⟨others, earlier, after⟩
    have counted := invariant.nTodo
    rw [held] at earlier
    rw [updated, after]
    omega
  · rcases total_split Phase.inside state.phase thread with ⟨others, earlier, after⟩
    have counted := invariant.nTotal
    rw [held] at earlier
    rw [updated, after]
    omega
  · rcases total_split Phase.idle state.phase thread with ⟨others, earlier, after⟩
    have counted := invariant.nIdle
    rw [held] at earlier
    rw [updated, after]
    omega
  · rcases total_split Phase.todo state.phase thread with ⟨others, earlier, after⟩
    rw [invariant.conserved, updated, after, earlier, held, add_left_comm,
      add_assoc, ← conserved]
    abel
  · rcases total_split Phase.done state.phase thread with ⟨others, earlier, after⟩
    rw [updated, after, done, add_zero]
    refine le_trans ?_ invariant.taken
    rw [earlier]
    exact le_self_add

/-- The master is where it was, when another thread goes on. -/
theorem asleep_of_locked
    (invariant : Invariant ok state events) (notified : Bool)
    (waiting : Function.update state.phase thread .locked none = .waiting notified) :
    state.queue = [] ∧ (notified = false → 0 < state.nTodo) := by
  by_cases here : none = thread
  · rw [here, Function.update_self] at waiting
    cases waiting
  · rw [Function.update_of_ne here] at waiting
    exact invariant.asleep notified waiting

/-- A batch is counted. -/
theorem Invariant.size_le (invariant : Invariant ok state events) (thread : Thread ι) :
    state.queue.length + (state.phase thread).size ≤ state.nTodo := by
  rcases total_split Phase.size state.phase thread with ⟨others, earlier, -⟩
  have counted := invariant.nTodo
  omega

theorem Invariant.cleanUp
    {done : List T} {fOk : Bool} (invariant : Invariant ok state events)
    (running : state.phase thread = .running done [] fOk) :
    Invariant ok (cleanUp thread done.length fOk (state.enterPhase thread .locked))
      events := by
  have counted := invariant.size_le thread
  rw [running] at counted
  simp only [Phase.size, List.length_nil, Nat.add_zero] at counted
  have verdict : (state.fAllOk && fOk) = true ∧ (Phase.locked : Phase T).fOk = true ↔
      state.fAllOk = true ∧ (Phase.running done [] fOk).fOk = true := by
    rw [Bool.and_eq_true]
    exact and_iff_left rfl
  unfold CheckQueue.cleanUp
  dsimp only
  split_ifs with last
  · -- The master is woken first; what the thread gives up does not concern it.
    rcases last with ⟨finished, worker⟩
    have master : none ≠ thread := fun same => worker same.symm
    have woken := @Invariant.notifyOne T ι _ ok state events none _ invariant
    have still : (state.notifyOne none).phase thread = .running done [] fOk :=
      (Function.update_of_ne worker _ _).trans running
    have moved : ∀ phase : Phase T,
        Function.update (Function.update state.phase thread .locked) none phase =
          Function.update (Function.update state.phase none phase) thread .locked :=
      fun phase => Function.update_comm worker _ _ _
    have updated : Function.update (Function.update state.phase thread .locked) none
          (Function.update state.phase thread Phase.locked none).notify =
        Function.update (state.notifyOne none).phase thread .locked := by
      rw [Function.update_of_ne master, moved]
      rfl
    refine woken.move still updated rfl (fun _ _ _ equal => by cases equal) ?_ rfl rfl
      rfl rfl verdict ?_
    · simp only [QueueState.notifyOne, QueueState.enterPhase, Phase.size,
        List.length_nil]
      omega
    · intro notified waiting
      change Function.update (Function.update state.phase thread .locked) none
        (Function.update state.phase thread Phase.locked none).notify none = _
        at waiting
      rw [Function.update_self, Function.update_of_ne master] at waiting
      cases held : state.phase none with
      | waiting before =>
          rw [held] at waiting
          cases waiting
          exact ⟨(invariant.asleep before held).1, fun equal => by cases equal⟩
      | outside | entering | locked | running =>
          rw [held] at waiting
          cases waiting
  · refine invariant.move running rfl rfl (fun _ _ _ equal => by cases equal) ?_ rfl
      rfl rfl rfl verdict ?_
    · simp only [QueueState.enterPhase, Phase.size, List.length_nil]
      omega
    · intro notified waiting
      change Function.update state.phase thread .locked none = _ at waiting
      by_cases here : none = thread
      · rw [here, Function.update_self] at waiting
        cases waiting
      · rw [Function.update_of_ne here] at waiting
        refine ⟨(invariant.asleep notified waiting).1, fun _ => ?_⟩
        exact Nat.pos_of_ne_zero fun finished =>
          last ⟨finished, fun same => here same.symm⟩

/-- A thread in a section. -/
theorem Invariant.acquire
    (invariant : Invariant ok state events)
    (acquired : acquire thread state = some next) :
    Invariant ok next events ∧ next.phase thread = .locked := by
  rw [CheckQueue.acquire] at acquired
  split at acquired
  next held =>
    cases acquired
    refine ⟨invariant.move held rfl rfl (fun _ _ _ equal => by cases equal) rfl ?_ rfl
      rfl rfl (and_congr_right fun _ => Iff.rfl)
      fun notified waiting => asleep_of_locked invariant notified waiting,
      Function.update_self _ _ _⟩
    simp only [QueueState.enterPhase, Phase.inside]
    omega
  next done fOk held =>
    cases acquired
    refine ⟨invariant.cleanUp held, ?_⟩
    unfold CheckQueue.cleanUp
    dsimp only
    split_ifs with last
    · exact (Function.update_of_ne last.2 _ _).trans (Function.update_self _ _ _)
    · exact Function.update_self _ _ _
  next notified held =>
    cases acquired
    refine ⟨invariant.move held rfl rfl (fun _ _ _ equal => by cases equal) rfl rfl ?_
      rfl rfl (and_congr_right fun _ => Iff.rfl)
      fun notified waiting => asleep_of_locked invariant notified waiting,
      Function.update_self _ _ _⟩
    simp only [QueueState.enterPhase, Phase.idle]
    omega
  · cases acquired

/-- The answer for the checks of a session. -/
structure Answers (ok : T → Bool) (fRet : Bool) (events : List (Event T)) :
    Prop where
  right : fRet = true ↔ ∀ check ∈ added events, ok check = true
  once : processed events = added events
  complete : fRet = true → skipped events = 0

/-- Nobody has a batch when nothing is to do. -/
theorem Invariant.not_running
    (invariant : Invariant ok state events) (finished : state.nTodo = 0)
    (thread : Thread ι) :
    (state.phase thread).size = 0 ∧ (state.phase thread).todo = 0 ∧
      (state.phase thread).done = 0 ∧ (state.phase thread).fOk = true := by
  have counted := invariant.size_le thread
  cases held : state.phase thread with
  | running done todo fOk =>
      have some := invariant.batch thread done todo fOk held
      rw [held] at counted
      simp only [Phase.size] at counted
      omega
  | outside | entering | locked | waiting => exact ⟨rfl, rfl, rfl, rfl⟩

/-- The master returns. -/
theorem Invariant.answers
    (invariant : Invariant ok state events) (empty : state.queue = [])
    (finished : state.nTodo = 0) : Answers ok state.fAllOk events := by
  have none := invariant.not_running finished
  have once : processed events = added events := by
    have conserved := invariant.conserved
    rw [empty, total_eq_zero fun t => (none t).2.1, add_zero, Multiset.coe_nil,
      add_zero] at conserved
    exact conserved.symm
  have all : AllOk state ↔ state.fAllOk = true :=
    and_iff_left fun t => (none t).2.2.2
  refine ⟨?_, once, fun fRet => ?_⟩
  · rw [← once, ← all]
    exact invariant.verdict
  · by_contra some
    exact invariant.skips some (all.mpr fRet)

/-- When nothing is to do a new session can begin. -/
theorem Invariant.reset
    (invariant : Invariant ok state events) (empty : state.queue = [])
    (finished : state.nTodo = 0) : Invariant ok { state with fAllOk := true } [] := by
  have none := invariant.not_running finished
  refine
    { invariant with
      conserved := ?_
      taken := ?_
      verdict := iff_of_true ⟨rfl, fun t => (none t).2.2.2⟩ fun check listed =>
        absurd listed (Multiset.notMem_zero check)
      skips := fun some => absurd rfl some }
  · rw [empty, total_eq_zero fun t => (none t).2.1]
    rfl
  · rw [total_eq_zero fun t => (none t).2.2.1]
    exact le_refl _

/-- From the head of the loop to the end of the section. -/
theorem Invariant.loopHead
    (invariant : Invariant ok state events) (locked : state.phase thread = .locked) :
    (loopHead nBatchSize thread state).2 = [] ∧
        Invariant ok (loopHead nBatchSize thread state).1 events ∨
      ∃ fRet, (loopHead nBatchSize thread state).2 = [.returned fRet] ∧
        Answers ok fRet events ∧
        Invariant ok (loopHead nBatchSize thread state).1 [] := by
  rw [CheckQueue.loopHead]
  split
  next empty =>
    by_cases returns : (thread = none ∨ state.fQuit = true) ∧ state.nTodo = 0
    · rw [if_pos returns]
      rcases returns with ⟨returning, finished⟩
      have master : thread = none := by
        rw [invariant.fQuit] at returning
        exact returning.resolve_right Bool.false_ne_true
      subst master
      rw [if_pos rfl, if_pos rfl]
      refine Or.inr ⟨state.fAllOk, rfl, invariant.answers empty finished, ?_⟩
      refine (invariant.reset empty finished).move locked rfl rfl
        (fun _ _ _ equal => by cases equal) rfl ?_ rfl rfl rfl Iff.rfl ?_
      · simp only [QueueState.enterPhase, Phase.inside]
        omega
      · intro notified waiting
        change Function.update state.phase none .outside none = _ at waiting
        rw [Function.update_self] at waiting
        cases waiting
    · rw [if_neg returns]
      refine Or.inl ⟨rfl, invariant.move locked rfl rfl
        (fun _ _ _ equal => by cases equal) rfl rfl ?_ rfl rfl Iff.rfl ?_⟩
      · simp only [QueueState.enterPhase, Phase.idle]
        omega
      · intro notified waiting
        change Function.update state.phase thread (.waiting false) none = _ at waiting
        refine ⟨empty, fun unnoticed => ?_⟩
        by_cases here : none = thread
        · exact Nat.pos_of_ne_zero fun finished => returns ⟨Or.inl here.symm, finished⟩
        · rw [Function.update_of_ne here] at waiting
          exact (invariant.asleep notified waiting).2 unnoticed
  next first others queued =>
    have positive := nNow_pos nBatchSize state
    generalize nNow nBatchSize state = nNow at positive
    have some : 0 < state.queue.length := by
      rw [queued]
      exact Nat.succ_pos _
    refine Or.inl ⟨rfl, invariant.move locked rfl rfl ?_ ?_ rfl rfl ?_ rfl ?_ ?_⟩
    · intro done todo fOk equal
      cases equal
      rw [List.length_take, List.length_nil]
      omega
    · simp only [QueueState.enterPhase, Phase.size, List.length_take, List.length_drop,
        List.length_nil]
      omega
    · change ((state.queue.drop nNow : List T) : Multiset T) +
        (state.queue.take nNow : List T) = state.queue + 0
      rw [Multiset.coe_add, add_zero, Multiset.coe_eq_coe]
      exact List.perm_append_comm.trans (by rw [List.take_append_drop])
    · exact and_congr_right fun fAllOk => iff_of_true fAllOk rfl
    · intro notified waiting
      change Function.update state.phase thread (.running _ _ _) none = _ at waiting
      by_cases here : none = thread
      · rw [here, Function.update_self] at waiting
        cases waiting
      · rw [Function.update_of_ne here] at waiting
        have empty := (invariant.asleep notified waiting).1
        rw [queued] at empty
        cases empty

/-- A check of a batch is taken, executed or not. -/
theorem Invariant.take
    {done todo : List T} {check : T} {fOk : Bool} (event : Event T)
    (invariant : Invariant ok state events)
    (held : state.phase thread = .running done (check :: todo) fOk)
    (adds : event.addedChecks = 0)
    (takes : event.executedChecks + event.skippedChecks = {check})
    (executes : fOk = true → event.skippedChecks = 0) :
    Invariant ok
      (state.enterPhase thread (.running (done ++ [check]) todo (fOk && ok check)))
      (event :: events) := by
  have same : added (event :: events) = added events := by
    rw [added, collect_cons, adds, zero_add]
    rfl
  have skips : skipped (event :: events) = event.skippedChecks + skipped events :=
    collect_cons _ _ _
  have more : processed (event :: events) = {check} + processed events := by
    rw [processed, skips, collect_cons, ← takes, processed]
    abel
  have updated : (state.enterPhase thread
      (.running (done ++ [check]) todo (fOk && ok check))).phase =
    Function.update state.phase thread
      (.running (done ++ [check]) todo (fOk && ok check)) := rfl
  rcases allOk_split updated with ⟨after, earlier⟩
  rw [held] at earlier
  simp only [Phase.fOk, Bool.and_eq_true] at after earlier
  refine
    { fQuit := invariant.fQuit
      batch := ?_
      nTodo := ?_
      nTotal := ?_
      nIdle := ?_
      conserved := ?_
      taken := ?_
      verdict := ?_
      skips := ?_
      asleep := ?_ }
  · intro t first others result running
    rw [updated] at running
    by_cases here : t = thread
    · rw [here, Function.update_self] at running
      cases running
      rw [List.length_append, List.length_singleton]
      omega
    · rw [Function.update_of_ne here] at running
      exact invariant.batch t _ _ _ running
  · rcases total_split Phase.size state.phase thread with ⟨others, before, behind⟩
    have total := invariant.nTodo
    rw [held] at before
    rw [updated, behind]
    simp only [Phase.size, List.length_append, List.length_cons, List.length_nil]
      at before ⊢
    change state.nTodo = state.queue.length + _
    omega
  · rcases total_split Phase.inside state.phase thread with ⟨others, before, behind⟩
    rw [updated, behind]
    rw [held] at before
    exact invariant.nTotal.trans (congrArg Nat.cast before)
  · rcases total_split Phase.idle state.phase thread with ⟨others, before, behind⟩
    rw [updated, behind]
    rw [held] at before
    exact invariant.nIdle.trans (congrArg Nat.cast before)
  · rcases total_split Phase.todo state.phase thread with ⟨others, before, behind⟩
    rw [held] at before
    rw [same, more, invariant.conserved, updated, behind, before]
    simp only [Phase.todo, ← Multiset.cons_coe, ← Multiset.singleton_add]
    change _ = {check} + processed events + state.queue + _
    abel
  · rcases total_split Phase.done state.phase thread with ⟨others, before, behind⟩
    have taken := invariant.taken
    rw [held] at before
    rw [before] at taken
    rw [more, updated, behind]
    simp only [Phase.done, ← Multiset.coe_add, Multiset.coe_singleton] at taken ⊢
    rw [← add_assoc, add_comm]
    exact add_le_add_right taken _
  · have verdict := invariant.verdict
    rw [earlier] at verdict
    rw [after, more]
    simp only [Multiset.mem_add, Multiset.mem_singleton, or_imp, forall_and,
      forall_eq, ← verdict]
    change (state.fAllOk = true ∧ _) ∧ _ ↔ _
    tauto
  · intro some all
    rcases after.mp all with ⟨⟨fAllOk, fine, -⟩, others⟩
    refine invariant.skips ?_ (earlier.mpr ⟨⟨fAllOk, fine⟩, others⟩)
    rwa [skips, executes fine, zero_add] at some
  · intro notified waiting
    rw [updated] at waiting
    by_cases here : none = thread
    · rw [here, Function.update_self] at waiting
      cases waiting
    · rw [Function.update_of_ne here] at waiting
      exact invariant.asleep notified waiting

/-! ## Every order of the sections -/

/-- The answers of `Wait` so far. -/
def AllAnswers (ok : T → Bool) : List (Event T) → Prop
  | [] => True
  | .returned fRet :: trace => Answers ok fRet (session trace) ∧ AllAnswers ok trace
  | _ :: trace => AllAnswers ok trace

/-- What holds of the queue and of everything that happened. -/
structure Sound (ok : T → Bool) (traced : Traced T ι) : Prop where
  invariant : Invariant ok traced.state (session traced.trace)
  unlocked : ∀ thread, traced.state.phase thread ≠ .locked
  answers : AllAnswers ok traced.trace

theorem session_append
    (others : ∀ fRet, .returned fRet ∉ events) (trace : List (Event T)) :
    session (events ++ trace) = events ++ session trace := by
  induction events with
  | nil => rfl
  | cons event events inductionHypothesis =>
      have rest := inductionHypothesis fun fRet listed =>
        others fRet (List.mem_cons_of_mem _ listed)
      cases event with
      | returned fRet => exact absurd List.mem_cons_self (others fRet)
      | added | executed | skipped =>
          exact congrArg (List.cons _) rest

theorem allAnswers_append
    (others : ∀ fRet, .returned fRet ∉ events) (trace : List (Event T)) :
    AllAnswers ok (events ++ trace) ↔ AllAnswers ok trace := by
  induction events with
  | nil => exact Iff.rfl
  | cons event events inductionHypothesis =>
      have rest := inductionHypothesis fun fRet listed =>
        others fRet (List.mem_cons_of_mem _ listed)
      cases event with
      | returned fRet => exact absurd List.mem_cons_self (others fRet)
      | added | executed | skipped => exact rest

/-- What a section does to the session. -/
theorem Invariant.step
    {action : QueueAction T ι} {evs : List (Event T)}
    (invariant : Invariant ok state events)
    (unlocked : ∀ t, state.phase t ≠ .locked)
    (taken : queueStep ok nBatchSize state action = some (next, evs)) :
    (∀ t, next.phase t ≠ .locked) ∧
      ((∀ fRet, .returned fRet ∉ evs) ∧ Invariant ok next (evs ++ events) ∨
        ∃ fRet, evs = [.returned fRet] ∧ Answers ok fRet events ∧
          Invariant ok next []) := by
  cases action with
  | add vChecks woken =>
      rw [queueStep] at taken
      split at taken
      next outside =>
        cases taken
        refine ⟨?_, Or.inl ⟨?_, invariant.add outside⟩⟩
        · unfold CheckQueue.add
          dsimp only
          split_ifs
          · cases woken with
            | none => exact unlocked
            | some worker =>
                intro t
                change Function.update state.phase (some worker) _ t ≠ .locked
                by_cases here : t = some worker
                · rw [here, Function.update_self]
                  exact notify_ne_locked (unlocked _)
                · rw [Function.update_of_ne here]
                  exact unlocked t
          · intro t
            cases t with
            | none => exact unlocked none
            | some worker => exact notify_ne_locked (unlocked _)
          · exact unlocked
        · intro fRet listed
          cases List.mem_singleton.mp listed
      · cases taken
  | enter thread =>
      rw [queueStep] at taken
      split at taken
      next outside =>
        cases taken
        refine ⟨?_, Or.inl ⟨fun fRet listed => (by cases listed), ?_⟩⟩
        · intro t
          change Function.update state.phase thread .entering t ≠ .locked
          by_cases here : t = thread
          · rw [here, Function.update_self]
            exact fun equal => by cases equal
          · rw [Function.update_of_ne here]
            exact unlocked t
        · refine invariant.move outside rfl rfl (fun _ _ _ equal => by cases equal) rfl
            rfl rfl rfl rfl Iff.rfl ?_
          intro notified waiting
          change Function.update state.phase thread .entering none = _ at waiting
          by_cases here : none = thread
          · rw [here, Function.update_self] at waiting
            cases waiting
          · rw [Function.update_of_ne here] at waiting
            exact invariant.asleep notified waiting
      · cases taken
  | lock thread =>
      rcases Option.map_eq_some_iff.mp taken with ⟨held, acquired, passed⟩
      rcases invariant.acquire acquired with ⟨kept, locked⟩
      have same : next = (CheckQueue.loopHead nBatchSize thread held).1 ∧
          evs = (CheckQueue.loopHead nBatchSize thread held).2 := by
        rw [passed]
        exact ⟨rfl, rfl⟩
      rcases same with ⟨rfl, rfl⟩
      refine ⟨unlocked_loopHead (alone_acquire unlocked acquired), ?_⟩
      rcases @Invariant.loopHead _ _ _ _ nBatchSize _ _ _ _ kept locked with
        ⟨none, after⟩ | answered
      · rw [none]
        exact Or.inl ⟨fun fRet listed => (by cases listed), after⟩
      · exact Or.inr answered
  | execute thread =>
      rw [queueStep, CheckQueue.execute] at taken
      split at taken
      next done check todo fOk running =>
        cases taken
        refine ⟨?_, Or.inl ⟨?_, ?_⟩⟩
        · intro t
          change Function.update state.phase thread (.running _ _ _) t ≠ .locked
          by_cases here : t = thread
          · rw [here, Function.update_self]
            exact fun equal => by cases equal
          · rw [Function.update_of_ne here]
            exact unlocked t
        · intro fRet listed
          have same := List.mem_singleton.mp listed
          split_ifs at same
        · refine invariant.take _ running ?_ ?_ ?_
          · split_ifs <;> rfl
          · split_ifs <;> rfl
          · intro fine
            rw [if_pos fine]
            rfl
      · cases taken

theorem Sound.step
    {traced after : Traced T ι} {action : QueueAction T ι} (sound : Sound ok traced)
    (taken : (queueSystem ok nBatchSize).step traced action = some after) :
    Sound ok after := by
  rcases Option.map_eq_some_iff.mp taken with ⟨⟨next, evs⟩, stepped, rfl⟩
  rcases sound.invariant.step sound.unlocked stepped with
    ⟨unlocked, ⟨others, invariant⟩ | ⟨fRet, rfl, answers, invariant⟩⟩
  · exact
      { invariant := by rw [session_append others]; exact invariant
        unlocked := unlocked
        answers := (allAnswers_append others _).mpr sound.answers }
  · exact ⟨invariant, unlocked, answers, sound.answers⟩

theorem sound_of_run
    {actions : List (QueueAction T ι)} {traced : Traced T ι}
    (ran : (queueSystem ok nBatchSize).run actions = some traced) : Sound ok traced := by
  have start : Sound ok (⟨QueueState.initial, []⟩ : Traced T ι) :=
    ⟨invariant_initial, fun _ equal => (by cases equal), trivial⟩
  exact System.run_invariant start (fun _ _ _ => Sound.step) ran

theorem answers_of_trace
    {later earlier : List (Event T)} {fRet : Bool} {trace : List (Event T)}
    (answers : AllAnswers ok trace) (split : trace = later ++ .returned fRet :: earlier) :
    Answers ok fRet (session earlier) := by
  subst split
  induction later with
  | nil => exact answers.1
  | cons event later inductionHypothesis =>
      cases event with
      | returned other => exact inductionHypothesis answers.2
      | added | executed | skipped => exact inductionHypothesis answers

end Invariant

section Results

variable [Fintype ι] [DecidableEq ι]

/--
Whatever the order of the sections was, every answer of `Wait` says whether all
checks are fulfilled that were added since the answer before; each of them was
taken once, and executed if the answer is true.
-/
theorem wait_answers
    (ok : T → Bool) (nBatchSize : Nat) (actions : List (QueueAction T ι))
    (traced : Traced T ι) (later earlier : List (Event T)) (fRet : Bool)
    (ran : (queueSystem ok nBatchSize).run actions = some traced)
    (returned : traced.trace = later ++ .returned fRet :: earlier) :
    Answers ok fRet (session earlier) :=
  answers_of_trace (sound_of_run ran).answers returned

/-- A worker and the master take one check each, and the worker's fails. -/
def sampleActions : List (QueueAction Bool (Fin 1)) :=
  [.enter (some 0), .lock (some 0), .add [true, false] none, .enter none,
    .lock (some 0), .lock none, .execute (some 0), .execute none, .lock (some 0),
    .lock none]

theorem wait_answers_sample :
    Answers id false (session [.executed true, .executed false, .added [true, false]]) :=
  wait_answers id 128 sampleActions _ [] _ false rfl rfl

/-- Nobody has a batch before checks are added. -/
theorem Invariant.not_running_of_unused
    {ok : T → Bool} {state : QueueState T ι} {events : List (Event T)}
    (invariant : Invariant ok state events) (unused : added events = 0)
    (thread : Thread ι) (done todo : List T) (fOk : Bool) :
    state.phase thread ≠ .running done todo fOk := by
  intro running
  have conserved := invariant.conserved.symm
  rw [unused, add_assoc, add_eq_zero, add_eq_zero] at conserved
  rcases conserved with ⟨processed, -, todos⟩
  have dones : total Phase.done state.phase = 0 :=
    Multiset.le_zero.mp (processed ▸ invariant.taken)
  rcases total_split Phase.todo state.phase thread with ⟨others, split, -⟩
  rcases total_split Phase.done state.phase thread with ⟨others', split', -⟩
  rw [split, add_eq_zero, running] at todos
  rw [split', add_eq_zero, running] at dones
  have some := invariant.batch thread done todo fOk running
  have none : done.length = 0 ∧ todo.length = 0 :=
    ⟨congrArg Multiset.card dones.2, congrArg Multiset.card todos.2⟩
  omega

/-- What is left to do. -/
def left (state : QueueState T ι) : Nat :=
  state.nTodo + 2 * state.queue.length +
    Multiset.card (total Phase.todo state.phase)

theorem total_todo_notifyOne (state : QueueState T ι) (thread : Thread ι) :
    total Phase.todo (state.notifyOne thread).phase = total Phase.todo state.phase := by
  rcases total_split Phase.todo state.phase thread with ⟨others, before, after⟩
  exact (after _).trans (((congrArg _ (Phase.notify_eq _).2.1)).trans before.symm)

/-- A thread that has no check to come goes where it has none. -/
theorem total_todo_update
    {phases : Thread ι → Phase T} {thread : Thread ι} {phase : Phase T}
    (before : (phases thread).todo = 0) (after : phase.todo = 0) :
    total Phase.todo (Function.update phases thread phase) =
      total Phase.todo phases := by
  rcases total_split Phase.todo phases thread with ⟨others, earlier, later⟩
  rw [later, after, earlier, before]

/-- What a thread cleans up is done. -/
theorem left_acquire
    {ok : T → Bool} {state next : QueueState T ι} {events : List (Event T)}
    {thread : Thread ι} (invariant : Invariant ok state events)
    (acquired : acquire thread state = some next) :
    left next + (state.phase thread).size = left state ∧ next.queue = state.queue ∧
      next.nTodo + (state.phase thread).size = state.nTodo := by
  have counted := invariant.size_le thread
  rw [acquire] at acquired
  split at acquired
  next held =>
    cases acquired
    have todo : total Phase.todo (Function.update state.phase thread .locked) =
        total Phase.todo state.phase :=
      total_todo_update (by rw [held]; rfl) rfl
    rw [held]
    refine ⟨?_, rfl, rfl⟩
    simp only [left, QueueState.enterPhase, todo, Phase.size, Nat.add_zero]
  next done fOk held =>
    cases acquired
    have todo : total Phase.todo (Function.update state.phase thread .locked) =
        total Phase.todo state.phase :=
      total_todo_update (by rw [held]; rfl) rfl
    rw [held] at counted ⊢
    simp only [Phase.size, List.length_nil, Nat.add_zero] at counted ⊢
    unfold cleanUp
    dsimp only
    split_ifs
    · refine ⟨?_, rfl, ?_⟩
      · rw [left, total_todo_notifyOne]
        simp only [left, QueueState.notifyOne, QueueState.enterPhase, todo]
        omega
      · simp only [QueueState.notifyOne, QueueState.enterPhase]
        omega
    · refine ⟨?_, rfl, ?_⟩
      · simp only [left, QueueState.enterPhase, todo]
        omega
      · simp only [QueueState.enterPhase]
        omega
  next notified held =>
    cases acquired
    have todo : total Phase.todo (Function.update state.phase thread .locked) =
        total Phase.todo state.phase :=
      total_todo_update (by rw [held]; rfl) rfl
    rw [held]
    refine ⟨?_, rfl, rfl⟩
    simp only [left, QueueState.enterPhase, todo, Phase.size, Nat.add_zero]
  · cases acquired

/-- The head of the loop adds nothing, and takes checks if there are any. -/
theorem left_loopHead
    {state : QueueState T ι} {thread : Thread ι} (nBatchSize : Nat)
    (locked : state.phase thread = .locked) :
    left (loopHead nBatchSize thread state).1 ≤ left state ∧
      (state.queue ≠ [] → left (loopHead nBatchSize thread state).1 < left state) := by
  have none : (state.phase thread).todo = 0 := by
    rw [locked]
    rfl
  rw [loopHead]
  split
  next empty =>
    have same {phase : Phase T} (without : phase.todo = 0) :=
      total_todo_update none without
    split
    · refine ⟨?_, fun some => absurd empty some⟩
      simp only [left, QueueState.enterPhase]
      rw [same rfl]
    · refine ⟨?_, fun some => absurd empty some⟩
      simp only [left, QueueState.enterPhase]
      rw [same rfl]
  next first others queued =>
    have positive := nNow_pos nBatchSize state
    generalize nNow nBatchSize state = nNow at positive
    have some : 0 < state.queue.length := by
      rw [queued]
      exact Nat.succ_pos _
    have less : left (({ state with queue := state.queue.drop nNow }.enterPhase thread
        (.running [] (state.queue.take nNow) state.fAllOk))) < left state := by
      rcases total_split Phase.todo state.phase thread with ⟨rest, earlier, later⟩
      simp only [left, QueueState.enterPhase, List.length_drop]
      rw [later, earlier, none]
      simp only [Phase.todo, Multiset.card_add, Multiset.coe_card, List.length_take,
        Multiset.card_zero]
      omega
    exact ⟨less.le, fun _ => less⟩

/-- There is a section that brings the master closer to its answer. -/
theorem Sound.onward
    {ok : T → Bool} (nBatchSize : Nat) {traced : Traced T ι} (sound : Sound ok traced)
    (inside : traced.state.phase none ≠ .outside) :
    ∃ action after,
      (queueSystem ok nBatchSize).step traced action = some after ∧ Sound ok after ∧
        (after.state.phase none = .outside ∨ left after.state < left traced.state) := by
  have invariant := sound.invariant
  by_cases more : ∃ thread done check todo fOk,
      traced.state.phase thread = .running done (check :: todo) fOk
  · rcases more with ⟨thread, done, check, todo, fOk, running⟩
    have taken : (queueSystem ok nBatchSize).step traced (.execute thread) =
        some ⟨traced.state.enterPhase thread
            (.running (done ++ [check]) todo (fOk && ok check)),
          [if fOk then .executed check else .skipped check] ++ traced.trace⟩ := by
      change (execute ok thread traced.state).map _ = _
      rw [execute, running]
      rfl
    refine ⟨_, _, taken, sound.step taken, Or.inr ?_⟩
    rcases total_split Phase.todo traced.state.phase thread with ⟨rest, earlier, later⟩
    simp only [left, QueueState.enterPhase]
    rw [later, earlier, running]
    simp only [Phase.todo, Multiset.card_add, Multiset.coe_card, List.length_cons]
    omega
  by_cases finished : ∃ thread done fOk,
      traced.state.phase thread = .running done [] fOk
  · rcases finished with ⟨thread, done, fOk, running⟩
    have acquired : acquire thread traced.state =
        some (cleanUp thread done.length fOk
          (traced.state.enterPhase thread .locked)) := by
      rw [acquire, running]
    have taken := lock_step ok nBatchSize acquired
    have some := invariant.batch thread done [] fOk running
    have cleaned := (left_acquire invariant acquired).1
    rw [running] at cleaned
    have less := (left_loopHead nBatchSize (invariant.acquire acquired).2).1
    refine ⟨_, _, taken, sound.step taken, Or.inr (Nat.lt_of_le_of_lt less ?_)⟩
    simp only [Phase.size] at cleaned
    omega
  -- Nobody has a batch, so the master is not woken in vain.
  have quiet (thread : Thread ι) (done todo : List T) (fOk : Bool) :
      traced.state.phase thread ≠ .running done todo fOk := by
    intro running
    cases todo with
    | nil => exact finished ⟨thread, done, fOk, running⟩
    | cons check todo => exact more ⟨thread, done, check, todo, fOk, running⟩
  have sizes : total Phase.size traced.state.phase = 0 :=
    total_eq_zero fun thread => by
      cases held : traced.state.phase thread with
      | running done todo fOk => exact absurd held (quiet thread done todo fOk)
      | locked | outside | entering | waiting => rfl
  have counted := invariant.nTodo
  rw [sizes, Nat.add_zero] at counted
  have acquires : ∃ held, acquire none traced.state = some held := by
    rw [acquire]
    cases held : traced.state.phase none with
    | outside => exact absurd held inside
    | locked => exact absurd held (sound.unlocked none)
    | running done todo fOk => exact absurd held (quiet none done todo fOk)
    | entering | waiting => exact ⟨_, rfl⟩
  rcases acquires with ⟨held, acquired⟩
  rcases left_acquire invariant acquired with ⟨kept, queue, todo⟩
  have locked := (invariant.acquire acquired).2
  have taken := lock_step ok nBatchSize acquired
  refine ⟨_, _, taken, sound.step taken, ?_⟩
  by_cases empty : held.queue = []
  · refine Or.inl ?_
    have done : held.nTodo = 0 := by
      rw [← queue, empty, List.length_nil] at counted
      omega
    rw [loopHead]
    split
    · rw [if_pos ⟨Or.inl rfl, done⟩]
      change Function.update held.phase none .outside none = _
      exact Function.update_self _ _ _
    next first others queued =>
      rw [queued] at empty
      cases empty
  · have less := (left_loopHead nBatchSize locked).2 empty
    exact Or.inr (Nat.lt_of_lt_of_le less (by omega))

/--
The master is never stuck: while it sleeps and nobody has woken it a worker has a
batch, and from every state the sections can go on so that `Wait` returns.
-/
theorem wait_returns
    (ok : T → Bool) (nBatchSize : Nat) (actions : List (QueueAction T ι))
    (traced : Traced T ι)
    (ran : (queueSystem ok nBatchSize).run actions = some traced) :
    (traced.state.phase none = .waiting false →
      ∃ worker done todo fOk,
        traced.state.phase (some worker) = .running done todo fOk) ∧
      ∃ others last,
        (queueSystem ok nBatchSize).runFrom others traced = some last ∧
          last.state.phase none = .outside := by
  have sound := sound_of_run ran
  exact ⟨sound.invariant.exists_running,
    @System.exists_runFrom _ _ (queueSystem ok nBatchSize) traced (Sound ok)
      (fun traced => traced.state.phase none = .outside)
      (fun traced => left traced.state) sound
      fun _ kept inside => kept.onward nBatchSize inside⟩

/-- The worker takes the only check before the master waits. -/
def sampleSleep : List (QueueAction Bool (Fin 1)) :=
  [.enter (some 0), .add [true] none, .lock (some 0), .enter none, .lock none]

theorem wait_returns_sample :
    ∃ traced, (queueSystem id 128).run sampleSleep = some traced ∧
      ∃ worker done todo fOk,
        traced.state.phase (some worker) = .running done todo fOk :=
  ⟨_, rfl, (wait_returns id 128 sampleSleep _ rfl).1 rfl⟩

end Results

end DSValue.Consensus.CheckQueue
