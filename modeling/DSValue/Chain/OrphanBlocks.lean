import DSValue.Core.Serialize
import DSValue.Lib.Cycles
import DSValue.Lib.Loop
import DSValue.Lib.TableOps

/-!
# Orphan blocks

A block whose parent is unknown waits as a `COrphanBlock` that two maps point
to, one by its hash and one, a multimap, by the hash of its parent.  The object
is deleted in two places, where a random leaf makes room and where the block is
offered to `AcceptBlock`, there while the multimap still points to it.  The
objects live in a heap, and reading a deleted one is a fault of the model.
-/

namespace DSValue.Chain.OrphanBlocks

open DSValue.Lib
open DSValue.Lib.Cycles
open DSValue.Lib.KeepFirst
open DSValue.Lib.TableOps
open DSValue.Core.Serialize

def MAX_ORPHAN_BLOCKS : Nat := 750

/-! ## The maps -/

/-- `COrphanBlock`. -/
structure COrphanBlock where
  hashBlock : Uint256
  hashPrev : Uint256
  vchBlock : List UInt8
deriving DecidableEq

/-- The live objects, the address of the next one, and the two maps. -/
structure Orphans where
  heap : Table Nat COrphanBlock
  nextAddress : Nat
  mapOrphanBlocks : Table Uint256 Nat
  mapOrphanBlocksByPrev : List (Uint256 × Nat)

def Orphans.empty : Orphans := ⟨∅, 0, ∅, []⟩

/-- `std::multimap::insert`: behind the entries with the same key. -/
def insertByPrev (entries : List (Uint256 × Nat)) (entry : Uint256 × Nat) :
    List (Uint256 × Nat) :=
  entries.takeWhile (fun other => other.1 ≤ entry.1) ++
    entry :: entries.dropWhile (fun other => other.1 ≤ entry.1)

/-- `std::multimap::find`. -/
def findByPrev (entries : List (Uint256 × Nat)) (key : Uint256) :
    Option (Uint256 × Nat) :=
  entries.find? (fun entry => entry.1 = key)

/-- A pass of `GetOrphanRoot` from `it`, the hash and the object. -/
def rootPass (orphans : Orphans) (it : Uint256 × Nat) :
    Option ((Uint256 × Nat) × Bool) :=
  match orphans.heap.lookup it.2 with
  | none => none
  | some block =>
      match orphans.mapOrphanBlocks.lookup block.hashPrev with
      | none => some (it, true)
      | some it2 => some ((block.hashPrev, it2), false)

/-- `GetOrphanRoot`, with a bound on the number of passes. -/
def getOrphanRoot (orphans : Orphans) (hash : Uint256) : Option Uint256 :=
  match orphans.mapOrphanBlocks.lookup hash with
  | none => some hash
  | some it =>
      (Loop.run (rootPass orphans)
        (orphans.mapOrphanBlocksByPrev.length + 1) (hash, it)).map Prod.fst

/-- A pass of `PruneOrphanBlocks` towards an orphan without successors. -/
def leafPass (orphans : Orphans) (it : Uint256 × Nat) :
    Option ((Uint256 × Nat) × Bool) :=
  match orphans.heap.lookup it.2 with
  | none => none
  | some block =>
      match findByPrev orphans.mapOrphanBlocksByPrev block.hashBlock with
      | none => some (it, true)
      | some it2 => some (it2, false)

/-- `PruneOrphanBlocks`, with the block that it has evicted. -/
def pruneOrphanBlocks (orphans : Orphans) (insecure_rand : Nat) :
    Option (Orphans × Option COrphanBlock) :=
  if orphans.mapOrphanBlocksByPrev.length ≤ MAX_ORPHAN_BLOCKS then
    some (orphans, none)
  else do
    let pos := insecure_rand % orphans.mapOrphanBlocksByPrev.length
    let start ← orphans.mapOrphanBlocksByPrev[pos]?
    let it ← Loop.run (leafPass orphans)
      (orphans.mapOrphanBlocksByPrev.length + 1) start
    let block ← orphans.heap.lookup it.2
    some
      ({ orphans with
          heap := orphans.heap.erase it.2
          mapOrphanBlocksByPrev := orphans.mapOrphanBlocksByPrev.erase it
          mapOrphanBlocks := orphans.mapOrphanBlocks.erase block.hashBlock },
        some block)

/-- `new COrphanBlock()` and its insertion into both maps. -/
def addOrphanBlock (orphans : Orphans) (block : COrphanBlock) : Orphans where
  heap := orphans.heap.insert orphans.nextAddress block
  nextAddress := orphans.nextAddress + 1
  mapOrphanBlocks :=
    insertNew orphans.mapOrphanBlocks block.hashBlock orphans.nextAddress
  mapOrphanBlocksByPrev :=
    insertByPrev orphans.mapOrphanBlocksByPrev
      (block.hashPrev, orphans.nextAddress)

/-! ## `ProcessBlock` -/

/-- The maps and the hashes of `mapBlockIndex`. -/
structure State where
  orphans : Orphans
  mapBlockIndex : Finset Uint256

/--
A call of `ProcessBlock`: the block, whether its checks pass, whether there is
a node to ask, a random number, and what `AcceptBlock` says of the block and,
by its earlier answers, of the orphans.
-/
structure Call where
  hash : Uint256
  hashPrevBlock : Uint256
  vchBlock : List UInt8
  fChecked : Bool
  pfrom : Bool
  insecure_rand : Nat
  fCheckpoint : Bool
  fAccepted : Bool
  acceptBlock : List (Uint256 × Bool) → COrphanBlock → Bool

/-- The local variables of the resolution, and the calls of `AcceptBlock`. -/
structure Resolution extends State where
  vWorkQueue : List Uint256
  i : Nat
  offers : List (Uint256 × Bool)

/-- The state after an answer of `AcceptBlock`. -/
def answered (state : Resolution) (address : Nat) (block : COrphanBlock)
    (fAccepted : Bool) : Resolution :=
  { state with
    orphans :=
      { state.orphans with
        heap := state.orphans.heap.erase address
        mapOrphanBlocks := state.orphans.mapOrphanBlocks.erase block.hashBlock }
    mapBlockIndex :=
      if fAccepted then insert block.hashBlock state.mapBlockIndex
      else state.mapBlockIndex
    vWorkQueue :=
      if fAccepted then state.vWorkQueue ++ [block.hashBlock]
      else state.vWorkQueue
    offers := state.offers ++ [(block.hashBlock, fAccepted)] }

/-- The body of the inner loop. -/
def offerOrphan (acceptBlock : List (Uint256 × Bool) → COrphanBlock → Bool)
    (state : Resolution) (mi : Uint256 × Nat) : Option Resolution :=
  match state.orphans.heap.lookup mi.2 with
  | none => none
  | some block =>
      some (answered state mi.2 block (acceptBlock state.offers block))

/-- A pass of the outer loop. -/
def resolvePass (acceptBlock : List (Uint256 × Bool) → COrphanBlock → Bool)
    (state : Resolution) : Option (Resolution × Bool) :=
  match state.vWorkQueue[state.i]? with
  | none => some (state, true)
  | some hashPrev => do
      let byPrev := state.orphans.mapOrphanBlocksByPrev
      let offered ←
        (byPrev.filter fun entry => entry.1 = hashPrev).foldlM
          (offerOrphan acceptBlock) state
      some
        ({ offered with
            orphans :=
              { offered.orphans with
                mapOrphanBlocksByPrev :=
                  byPrev.filter fun entry => entry.1 ≠ hashPrev }
            i := state.i + 1 },
          false)

/--
What a call leaves and returns, the orphan that it has evicted, the root that
it has asked for, and its offers of orphans to `AcceptBlock`.
-/
structure Result where
  state : State
  fRet : Bool
  evicted : Option COrphanBlock
  asked : Option Uint256
  offers : List (Uint256 × Bool)

/-- `ProcessBlock`. -/
def processBlock (state : State) (call : Call) : Option Result :=
  if call.hash ∈ state.mapBlockIndex then some ⟨state, false, none, none, []⟩
  else if call.hash ∈ state.orphans.mapOrphanBlocks then
    some ⟨state, false, none, none, []⟩
  else if !call.fChecked then some ⟨state, false, none, none, []⟩
  else if call.hashPrevBlock ≠ 0 ∧ call.hashPrevBlock ∉ state.mapBlockIndex then
    if call.pfrom then do
      let (pruned, evicted) ←
        pruneOrphanBlocks state.orphans call.insecure_rand
      let orphans :=
        addOrphanBlock pruned ⟨call.hash, call.hashPrevBlock, call.vchBlock⟩
      let root ← getOrphanRoot orphans call.hash
      some ⟨{ state with orphans := orphans }, true, evicted, some root, []⟩
    else some ⟨state, true, none, none, []⟩
  else if !call.fCheckpoint then some ⟨state, false, none, none, []⟩
  else if !call.fAccepted then some ⟨state, false, none, none, []⟩
  else do
    let resolved ←
      Loop.run (resolvePass call.acceptBlock)
        (state.orphans.mapOrphanBlocksByPrev.length + 2)
        ⟨⟨state.orphans, insert call.hash state.mapBlockIndex⟩, [call.hash], 0, []⟩
    some ⟨resolved.toState, true, none, none, resolved.offers⟩

/-- The states that calls lead to, over blocks with the given links. -/
inductive Reachable (link : Uint256 → Uint256 → Prop) : State → Prop
  | start (mapBlockIndex : Finset Uint256) :
      Reachable link ⟨.empty, mapBlockIndex⟩
  | call {state : State} {result : Result} (call : Call) :
      Reachable link state → link call.hashPrevBlock call.hash →
        processBlock state call = some result → Reachable link result.state

/-! ## Entries and objects -/

variable {link : Uint256 → Uint256 → Prop} {live : Uint256 × Nat → Prop}
  {heap : Table Nat COrphanBlock} {map : Table Uint256 Nat}
  {orphans : Orphans} {state : State} {call : Call} {block : COrphanBlock}
  {entry other : Uint256 × Nat} {entries : List (Uint256 × Nat)}

/--
The live entries of the multimap are the objects under their parents, and the
map has each object under its own hash.
-/
structure Linked (live : Uint256 × Nat → Prop)
    (heap : Table Nat COrphanBlock) (map : Table Uint256 Nat) : Prop where
  object :
    ∀ entry, live entry → ∃ block, heap.lookup entry.2 = some block ∧
      block.hashPrev = entry.1 ∧ map.lookup block.hashBlock = some entry.2
  named :
    ∀ hash address, map.lookup hash = some address →
      ∃ block, heap.lookup address = some block ∧ block.hashBlock = hash
  owned :
    ∀ address block, heap.lookup address = some block →
      live (block.hashPrev, address)

theorem Linked.eq_of_address
    (linked : Linked live heap map) (isLive : live entry)
    (otherLive : live other) (same : other.2 = entry.2) : other = entry := by
  rcases linked.object entry isLive with ⟨block, found, parent, -⟩
  rcases linked.object other otherLive with ⟨otherBlock, otherFound, otherParent, -⟩
  rw [same, found] at otherFound
  cases otherFound
  exact Prod.ext (otherParent.symm.trans parent) same

/-- Deleting an object with its entries leaves the others. -/
theorem Linked.remove
    (linked : Linked live heap map) (isLive : live entry)
    (found : heap.lookup entry.2 = some block) :
    Linked (fun other => live other ∧ other ≠ entry)
      (heap.erase entry.2) (map.erase block.hashBlock) := by
  rcases linked.object entry isLive with ⟨same, isFound, parent, filed⟩
  rw [found] at isFound
  cases isFound
  constructor
  · rintro other ⟨otherLive, different⟩
    rcases linked.object other otherLive with
      ⟨otherBlock, otherFound, otherParent, otherFiled⟩
    have elsewhere : other.2 ≠ entry.2 := fun same =>
      different (linked.eq_of_address isLive otherLive same)
    refine ⟨otherBlock, ?_, otherParent, ?_⟩
    · rw [AList.lookup_erase_ne elsewhere]
      exact otherFound
    · rw [AList.lookup_erase_ne]
      · exact otherFiled
      · intro sameHash
        rw [sameHash, filed] at otherFiled
        exact elsewhere (Option.some.inj otherFiled).symm
  · intro hash address filedUnder
    have different : hash ≠ block.hashBlock := by
      rintro rfl
      rw [AList.lookup_erase] at filedUnder
      cases filedUnder
    rw [AList.lookup_erase_ne different] at filedUnder
    rcases linked.named hash address filedUnder with ⟨named, isNamed, itsHash⟩
    refine ⟨named, ?_, itsHash⟩
    rw [AList.lookup_erase_ne]
    · exact isNamed
    · rintro rfl
      rw [found] at isNamed
      cases isNamed
      exact different itsHash.symm
  · intro address held isHeld
    have elsewhere : address ≠ entry.2 := by
      rintro rfl
      rw [AList.lookup_erase] at isHeld
      cases isHeld
    rw [AList.lookup_erase_ne elsewhere] at isHeld
    refine ⟨linked.owned address held isHeld, ?_⟩
    rintro rfl
    exact elsewhere rfl

/-- A new object under a new hash joins the others. -/
theorem Linked.add
    (linked : Linked live heap map) {address : Nat}
    (unused : heap.lookup address = none)
    (unknown : map.lookup block.hashBlock = none) :
    Linked (fun other => other = (block.hashPrev, address) ∨ live other)
      (heap.insert address block) (insertNew map block.hashBlock address) := by
  have filed : ∀ hash, (insertNew map block.hashBlock address).lookup hash =
      if hash = block.hashBlock then some address else map.lookup hash := by
    intro hash
    rw [lookup_insertNew]
    by_cases same : hash = block.hashBlock
    · rw [if_pos same, if_pos same.symm, same, unknown, Option.none_or]
    · rw [if_neg same, if_neg (Ne.symm same), Option.or_none]
  constructor
  · rintro other (rfl | isLive)
    · exact ⟨block, AList.lookup_insert _, rfl, by rw [filed, if_pos rfl]⟩
    · rcases linked.object other isLive with ⟨held, found, parent, under⟩
      refine ⟨held, ?_, parent, ?_⟩
      · rw [AList.lookup_insert_ne]
        · exact found
        · intro same
          rw [same, unused] at found
          cases found
      · rw [filed, if_neg]
        · exact under
        · intro same
          rw [same, unknown] at under
          cases under
  · intro hash pointer isFiled
    rw [filed] at isFiled
    split_ifs at isFiled with same
    · cases isFiled
      exact ⟨block, AList.lookup_insert _, same.symm⟩
    · rcases linked.named hash pointer isFiled with ⟨held, found, itsHash⟩
      refine ⟨held, ?_, itsHash⟩
      rw [AList.lookup_insert_ne]
      · exact found
      · intro sameAddress
        rw [sameAddress, unused] at found
        cases found
  · intro pointer held found
    by_cases same : pointer = address
    · rw [same, AList.lookup_insert] at found
      cases found
      exact Or.inl (by rw [same])
    · rw [AList.lookup_insert_ne same] at found
      exact Or.inr (linked.owned pointer held found)

/-- A block waits among the orphans. -/
def Stored (orphans : Orphans) (block : COrphanBlock) : Prop :=
  ∃ address, orphans.heap.lookup address = some block

/--
Both maps hold the same objects, each once, under its own hash and under the
hash of its parent.
-/
structure Consistent (orphans : Orphans) : Prop where
  linked :
    Linked (· ∈ orphans.mapOrphanBlocksByPrev) orphans.heap
      orphans.mapOrphanBlocks
  once : orphans.mapOrphanBlocksByPrev.Nodup
  fresh : ∀ address ∈ orphans.heap, address < orphans.nextAddress

theorem consistent_empty : Consistent .empty where
  linked := ⟨nofun, nofun, nofun⟩
  once := List.nodup_nil
  fresh := nofun

theorem Consistent.stored_iff
    (consistent : Consistent orphans) :
    Stored orphans block ↔
      ∃ entry ∈ orphans.mapOrphanBlocksByPrev,
        orphans.heap.lookup entry.2 = some block ∧
          entry.1 = block.hashPrev := by
  constructor
  · rintro ⟨address, found⟩
    exact ⟨_, consistent.linked.owned address block found, found, rfl⟩
  · rintro ⟨entry, _, found, _⟩
    exact ⟨entry.2, found⟩

/-- Stored blocks with one hash are one block. -/
theorem Consistent.eq_of_hash
    (consistent : Consistent orphans) {first second : COrphanBlock}
    (firstStored : Stored orphans first) (secondStored : Stored orphans second)
    (same : first.hashBlock = second.hashBlock) : first = second := by
  rcases consistent.stored_iff.mp firstStored with ⟨entry, member, found, -⟩
  rcases consistent.stored_iff.mp secondStored with ⟨other, inside, held, -⟩
  rcases consistent.linked.object entry member with ⟨block, isBlock, -, filed⟩
  rcases consistent.linked.object other inside with ⟨block', isBlock', -, filed'⟩
  rw [found] at isBlock
  rw [held] at isBlock'
  cases isBlock
  cases isBlock'
  rw [same, filed'] at filed
  rw [← Option.some.inj filed, held] at found
  exact (Option.some.inj found).symm

/-- Both maps point to the same objects, each once. -/
theorem Consistent.pointers_perm (consistent : Consistent orphans) :
    (orphans.mapOrphanBlocks.entries.map Sigma.snd).Perm
      (orphans.mapOrphanBlocksByPrev.map Prod.snd) := by
  have named := consistent.linked.named
  rw [List.perm_ext_iff_of_nodup]
  · intro address
    rw [List.mem_map, List.mem_map]
    constructor
    · rintro ⟨entry, member, rfl⟩
      rcases named _ _ (lookup_of_mem_entries member) with ⟨block, found, -⟩
      exact ⟨_, consistent.linked.owned _ block found, rfl⟩
    · rintro ⟨entry, member, rfl⟩
      rcases consistent.linked.object entry member with ⟨block, -, -, filed⟩
      exact ⟨_, AList.mem_lookup_iff.mp filed, rfl⟩
  · refine List.Nodup.map_on ?_ orphans.mapOrphanBlocks.nodupKeys.nodup
    intro entry member other inside same
    have filed := lookup_of_mem_entries member
    have alsoFiled := lookup_of_mem_entries inside
    rcases named _ _ filed with ⟨block, found, itsHash⟩
    rcases named _ _ alsoFiled with ⟨held, isHeld, heldHash⟩
    rw [← same, found] at isHeld
    cases isHeld
    exact Sigma.ext (itsHash.symm.trans heldHash) (heq_of_eq same)
  · refine List.Nodup.map_on ?_ consistent.once
    exact fun entry member other inside same =>
      consistent.linked.eq_of_address inside member same

/-! ## Walks along the links -/

/-- The stored blocks have links of the given relation. -/
def Links (link : Uint256 → Uint256 → Prop) (orphans : Orphans) : Prop :=
  ∀ block, Stored orphans block → link block.hashPrev block.hashBlock

/-- The hash of the object of an entry. -/
def hashOf (orphans : Orphans) (entry : Uint256 × Nat) : Uint256 :=
  ((orphans.heap.lookup entry.2).map COrphanBlock.hashBlock).getD 0

def hashes (orphans : Orphans) : Finset Uint256 :=
  (orphans.mapOrphanBlocksByPrev.map (hashOf orphans)).toFinset

theorem card_hashes_le (orphans : Orphans) :
    (hashes orphans).card ≤ orphans.mapOrphanBlocksByPrev.length := by
  have bound := List.toFinset_card_le
    (orphans.mapOrphanBlocksByPrev.map (hashOf orphans))
  rwa [List.length_map] at bound

theorem mem_hashes
    (consistent : Consistent orphans) (stored : Stored orphans block) :
    block.hashBlock ∈ hashes orphans := by
  rcases consistent.stored_iff.mp stored with ⟨entry, member, found, -⟩
  rw [hashes, List.mem_toFinset, List.mem_map]
  exact ⟨entry, member, by rw [hashOf, found]; rfl⟩

theorem findByPrev_eq_none {key : Uint256}
    (missing : findByPrev entries key = none) (member : entry ∈ entries) :
    entry.1 ≠ key := by
  have absent := List.find?_eq_none.mp missing entry member
  rwa [decide_eq_true_eq] at absent

theorem findByPrev_eq_some {key : Uint256}
    (found : findByPrev entries key = some entry) :
    entry ∈ entries ∧ entry.1 = key := by
  have holds := List.find?_some found
  rw [decide_eq_true_eq] at holds
  exact ⟨List.mem_of_find?_eq_some found, holds⟩

/-- `PruneOrphanBlocks` reaches an orphan that no stored one depends on. -/
theorem leafPass_ends
    (consistent : Consistent orphans) (acyclic : Acyclic link)
    (links : Links link orphans)
    (member : entry ∈ orphans.mapOrphanBlocksByPrev) :
    ∃ leaf, Loop.run (leafPass orphans)
        (orphans.mapOrphanBlocksByPrev.length + 1) entry = some leaf ∧
      leaf ∈ orphans.mapOrphanBlocksByPrev ∧
      ∃ block, orphans.heap.lookup leaf.2 = some block ∧
        findByPrev orphans.mapOrphanBlocksByPrev block.hashBlock = none := by
  refine Loop.run_reaches (· ∈ orphans.mapOrphanBlocksByPrev)
    (fun it => ahead link (hashes orphans) (hashOf orphans it)) ?_ member ?_
  · intro it inside
    rcases consistent.linked.object it inside with ⟨block, found, -, -⟩
    rw [leafPass, found]
    dsimp only
    cases next : findByPrev orphans.mapOrphanBlocksByPrev block.hashBlock with
    | none => exact ⟨_, true, rfl, nofun, fun _ => ⟨inside, block, found, next⟩⟩
    | some it2 =>
        rcases findByPrev_eq_some next with ⟨nextInside, parent⟩
        rcases consistent.linked.object it2 nextInside with
          ⟨child, childFound, childParent, -⟩
        have stored : Stored orphans child := ⟨_, childFound⟩
        have itsHash : hashOf orphans it = block.hashBlock := by
          rw [hashOf, found]
          rfl
        have nextHash : hashOf orphans it2 = child.hashBlock := by
          rw [hashOf, childFound]
          rfl
        have linked := links child stored
        rw [childParent, parent] at linked
        refine ⟨it2, false, rfl, fun _ => ⟨nextInside, ?_⟩, nofun⟩
        rw [itsHash, nextHash]
        exact ahead_lt acyclic linked (mem_hashes consistent stored)
  · have bound := ahead_le_card link (hashes orphans) (hashOf orphans entry)
    have few := card_hashes_le orphans
    omega

/-- `GetOrphanRoot` reaches a hash whose block has no stored parent. -/
theorem getOrphanRoot_ends
    (consistent : Consistent orphans) (acyclic : Acyclic link)
    (links : Links link orphans) (stored : Stored orphans block) :
    ∃ root, getOrphanRoot orphans block.hashBlock = some root.hashBlock ∧
      Stored orphans root ∧ root.hashPrev ∉ orphans.mapOrphanBlocks := by
  rcases consistent.stored_iff.mp stored with ⟨entry, member, found, -⟩
  rcases consistent.linked.object entry member with ⟨same, isFound, -, filed⟩
  rw [found] at isFound
  cases isFound
  have walk : ∃ last, Loop.run (rootPass orphans)
      (orphans.mapOrphanBlocksByPrev.length + 1) (block.hashBlock, entry.2) =
        some last ∧
      ∃ root, orphans.heap.lookup last.2 = some root ∧
        root.hashBlock = last.1 ∧ root.hashPrev ∉ orphans.mapOrphanBlocks := by
    refine Loop.run_reaches
      (fun it => orphans.mapOrphanBlocks.lookup it.1 = some it.2)
      (fun it => ahead (Function.swap link) (hashes orphans) it.1) ?_ filed ?_
    · intro it isFiled
      rcases consistent.linked.named it.1 it.2 isFiled with
        ⟨held, isHeld, itsHash⟩
      rw [rootPass, isHeld]
      dsimp only
      cases next : orphans.mapOrphanBlocks.lookup held.hashPrev with
      | none =>
          exact ⟨_, true, rfl, nofun, fun _ =>
            ⟨held, isHeld, itsHash, AList.lookup_eq_none.mp next⟩⟩
      | some it2 =>
          rcases consistent.linked.named _ _ next with
            ⟨parent, parentFound, parentHash⟩
          have linked := links held ⟨_, isHeld⟩
          have inside := mem_hashes consistent ⟨_, parentFound⟩
          rw [parentHash] at inside
          rw [itsHash] at linked
          refine ⟨_, false, rfl, fun _ => ⟨next, ?_⟩, nofun⟩
          exact ahead_lt acyclic.swap linked inside
    · have bound := ahead_le_card (Function.swap link) (hashes orphans)
        block.hashBlock
      have few := card_hashes_le orphans
      show ahead _ _ block.hashBlock < _
      omega
  rcases walk with ⟨last, ends, root, isRoot, itsHash, noParent⟩
  refine ⟨root, ?_, ⟨_, isRoot⟩, noParent⟩
  rw [getOrphanRoot, filed, itsHash]
  dsimp only
  rw [ends]
  rfl

/-! ## Making room -/

theorem Consistent.erase
    (consistent : Consistent orphans)
    (member : entry ∈ orphans.mapOrphanBlocksByPrev)
    (found : orphans.heap.lookup entry.2 = some block) :
    Consistent
      { orphans with
        heap := orphans.heap.erase entry.2
        mapOrphanBlocksByPrev := orphans.mapOrphanBlocksByPrev.erase entry
        mapOrphanBlocks := orphans.mapOrphanBlocks.erase block.hashBlock } where
  linked := by
    have removed := consistent.linked.remove member found
    simp only [consistent.once.mem_erase_iff]
    simpa only [and_comm] using removed
  once := consistent.once.erase entry
  fresh := by
    intro address inside
    exact consistent.fresh address (AList.mem_erase.mp inside).2

/-- What `PruneOrphanBlocks` leaves, and what it evicts. -/
theorem pruneOrphanBlocks_ends
    (consistent : Consistent orphans) (acyclic : Acyclic link)
    (links : Links link orphans) (insecure_rand : Nat)
    (few : orphans.mapOrphanBlocksByPrev.length ≤ MAX_ORPHAN_BLOCKS + 1) :
    ∃ pruned evicted, pruneOrphanBlocks orphans insecure_rand =
        some (pruned, evicted) ∧
      Consistent pruned ∧
      pruned.mapOrphanBlocksByPrev.length ≤ MAX_ORPHAN_BLOCKS ∧
      (∀ block, Stored pruned block → Stored orphans block) ∧
      (∀ block, Stored orphans block →
        Stored pruned block ∨ evicted = some block) ∧
      (∀ hash, hash ∉ orphans.mapOrphanBlocks →
        hash ∉ pruned.mapOrphanBlocks) ∧
      ∀ block, evicted = some block →
        Stored orphans block ∧
          ∀ other, Stored orphans other → other.hashPrev ≠ block.hashBlock := by
  rw [pruneOrphanBlocks]
  split_ifs with room
  · exact ⟨orphans, none, rfl, consistent, room, fun _ stored => stored,
      fun _ stored => Or.inl stored, fun _ absent => absent, nofun⟩
  · have inside : insecure_rand % orphans.mapOrphanBlocksByPrev.length <
        orphans.mapOrphanBlocksByPrev.length := Nat.mod_lt _ (by omega)
    rcases leafPass_ends consistent acyclic links (List.getElem_mem inside) with
      ⟨leaf, ends, member, block, found, alone⟩
    have start := List.getElem?_eq_getElem inside
    refine ⟨_, some block, ?_, consistent.erase member found, ?_, ?_, ?_, ?_, ?_⟩
    · simp only [start, ends, found, Option.bind_eq_bind, Option.bind_some]
    · rw [List.length_erase_of_mem member]
      omega
    · rintro other ⟨address, isFound⟩
      refine ⟨address, ?_⟩
      dsimp only at isFound
      by_cases same : address = leaf.2
      · rw [same, AList.lookup_erase] at isFound
        cases isFound
      · rwa [AList.lookup_erase_ne same] at isFound
    · rintro other ⟨address, isFound⟩
      by_cases same : address = leaf.2
      · rw [same, found] at isFound
        exact Or.inr isFound
      · refine Or.inl ⟨address, ?_⟩
        exact (AList.lookup_erase_ne same).trans isFound
    · intro hash absent present
      exact absent (AList.mem_erase.mp present).2
    · intro other isEvicted
      cases isEvicted
      refine ⟨⟨_, found⟩, ?_⟩
      intro child stored parent
      rcases consistent.stored_iff.mp stored with ⟨entry, isEntry, -, itsParent⟩
      exact findByPrev_eq_none alone isEntry (itsParent.trans parent)

/-! ## A new orphan -/

theorem insertByPrev_perm (entries : List (Uint256 × Nat))
    (entry : Uint256 × Nat) :
    (insertByPrev entries entry).Perm (entry :: entries) := by
  have split := @List.perm_middle _ entry
    (entries.takeWhile fun other => other.1 ≤ entry.1)
    (entries.dropWhile fun other => other.1 ≤ entry.1)
  rwa [List.takeWhile_append_dropWhile] at split

theorem Consistent.unused
    (consistent : Consistent orphans) :
    orphans.heap.lookup orphans.nextAddress = none := by
  rw [AList.lookup_eq_none]
  intro member
  exact absurd (consistent.fresh _ member) (lt_irrefl _)

theorem Consistent.add
    (consistent : Consistent orphans)
    (unknown : block.hashBlock ∉ orphans.mapOrphanBlocks) :
    Consistent (addOrphanBlock orphans block) where
  linked := by
    have added := consistent.linked.add consistent.unused
      (AList.lookup_eq_none.mpr unknown)
    simp only [addOrphanBlock, (insertByPrev_perm _ _).mem_iff, List.mem_cons]
    exact added
  once := by
    rw [addOrphanBlock, (insertByPrev_perm _ _).nodup_iff, List.nodup_cons]
    refine ⟨?_, consistent.once⟩
    intro member
    rcases consistent.linked.object _ member with ⟨held, found, -, -⟩
    rw [consistent.unused] at found
    cases found
  fresh := by
    intro address member
    rcases (AList.mem_insert _).mp member with rfl | old
    · exact Nat.lt_succ_self _
    · exact Nat.lt_succ_of_lt (consistent.fresh address old)

theorem stored_addOrphanBlock
    {other : COrphanBlock}
    (stored : Stored (addOrphanBlock orphans block) other) :
    other = block ∨ Stored orphans other := by
  rcases stored with ⟨address, found⟩
  rw [addOrphanBlock] at found
  by_cases same : address = orphans.nextAddress
  · rw [same, AList.lookup_insert] at found
    exact Or.inl (Option.some.inj found).symm
  · rw [AList.lookup_insert_ne same] at found
    exact Or.inr ⟨address, found⟩

theorem Consistent.stored_add
    (consistent : Consistent orphans) (block : COrphanBlock) :
    Stored (addOrphanBlock orphans block) block ∧
      ∀ other, Stored orphans other →
        Stored (addOrphanBlock orphans block) other := by
  refine ⟨⟨orphans.nextAddress, AList.lookup_insert _⟩, ?_⟩
  rintro other ⟨address, found⟩
  refine ⟨address, (AList.lookup_insert_ne ?_).trans found⟩
  rintro rfl
  rw [consistent.unused] at found
  cases found

/-! ## The inner loop of the resolution -/

/-- The hashes of the offered blocks that were accepted. -/
def acceptedOf (offers : List (Uint256 × Bool)) : List Uint256 :=
  (offers.filter Prod.snd).map Prod.fst

variable {acceptBlock : List (Uint256 × Bool) → COrphanBlock → Bool}
  {resolution : Resolution}

theorem acceptedOf_cons (hash : Uint256) (fAccepted : Bool)
    (offers : List (Uint256 × Bool)) :
    acceptedOf ((hash, fAccepted) :: offers) =
      (if fAccepted then [hash] else []) ++ acceptedOf offers := by
  cases fAccepted <;> rfl

theorem acceptedOf_append (first second : List (Uint256 × Bool)) :
    acceptedOf (first ++ second) = acceptedOf first ++ acceptedOf second := by
  rw [acceptedOf, acceptedOf, acceptedOf, List.filter_append, List.map_append]

theorem mem_acceptedOf {hash : Uint256} {offers : List (Uint256 × Bool)} :
    hash ∈ acceptedOf offers ↔ (hash, true) ∈ offers := by
  rw [acceptedOf, List.mem_map]
  constructor
  · rintro ⟨⟨other, fAccepted⟩, member, rfl⟩
    rcases List.mem_filter.mp member with ⟨offered, accepted⟩
    have isTrue : fAccepted = true := accepted
    rwa [isTrue] at offered
  · intro offered
    exact ⟨_, List.mem_filter.mpr ⟨offered, rfl⟩, rfl⟩

/--
The objects of some entries were offered in turn and deleted, and the accepted
ones were queued.
-/
structure Offered (live : Uint256 × Nat → Prop) (todo : List (Uint256 × Nat))
    (before after : Resolution) (answers : List (Uint256 × Bool)) : Prop where
  linked :
    Linked (fun entry => live entry ∧ entry ∉ todo) after.orphans.heap
      after.orphans.mapOrphanBlocks
  kept :
    ∀ address block, after.orphans.heap.lookup address = some block →
      before.orphans.heap.lookup address = some block
  nextAddress : after.orphans.nextAddress = before.orphans.nextAddress
  i : after.i = before.i
  offers : after.offers = before.offers ++ answers
  queue : after.vWorkQueue = before.vWorkQueue ++ acceptedOf answers
  index :
    ∀ hash, hash ∈ after.mapBlockIndex ↔
      hash ∈ before.mapBlockIndex ∨ hash ∈ acceptedOf answers
  count : answers.length = todo.length
  hashes :
    ∀ hash, hash ∈ answers.map Prod.fst ↔ ∃ entry ∈ todo, ∃ block,
      before.orphans.heap.lookup entry.2 = some block ∧ block.hashBlock = hash
  once : (answers.map Prod.fst).Nodup

/-- The inner loop never reads a deleted object. -/
theorem foldlM_offerOrphan
    {todo : List (Uint256 × Nat)} (once : todo.Nodup)
    (linked : Linked live resolution.orphans.heap
      resolution.orphans.mapOrphanBlocks)
    (inside : ∀ entry ∈ todo, live entry) :
    ∃ after answers, todo.foldlM (offerOrphan acceptBlock) resolution =
        some after ∧ Offered live todo resolution after answers := by
  induction todo generalizing live resolution with
  | nil =>
      refine ⟨resolution, [], rfl, ?_, fun _ _ found => found, rfl, rfl, ?_, ?_,
        ?_, rfl, ?_, List.nodup_nil⟩
      · simpa using linked
      · rw [List.append_nil]
      · rw [acceptedOf, List.filter_nil, List.map_nil, List.append_nil]
      · intro hash
        simp [acceptedOf]
      · intro hash
        simp
  | cons entry todo inductionHypothesis =>
      rw [List.nodup_cons] at once
      have isLive := inside entry List.mem_cons_self
      rcases linked.object entry isLive with ⟨block, found, -, filed⟩
      have removed := linked.remove isLive found
      have later : ∀ other ∈ todo, live other ∧ other ≠ entry := by
        intro other member
        refine ⟨inside other (List.mem_cons_of_mem _ member), ?_⟩
        rintro rfl
        exact once.1 member
      rcases @inductionHypothesis _
          (answered resolution entry.2 block
            (acceptBlock resolution.offers block)) once.2 removed later with
        ⟨after, answers, folded, offered⟩
      have erased : ∀ other ∈ todo,
          (resolution.orphans.heap.erase entry.2).lookup other.2 =
            resolution.orphans.heap.lookup other.2 := by
        intro other member
        refine AList.lookup_erase_ne fun same => ?_
        exact (later other member).2
          (linked.eq_of_address isLive (later other member).1 same)
      refine ⟨after,
        (block.hashBlock, acceptBlock resolution.offers block) :: answers,
        ?_, ?_, ?_, offered.nextAddress, offered.i, ?_, ?_, ?_, ?_, ?_, ?_⟩
      · rw [List.foldlM_cons, offerOrphan, found]
        exact folded
      · have rest := offered.linked
        simp only [List.mem_cons, not_or]
        simpa only [and_assoc] using rest
      · intro address held isHeld
        have before := offered.kept address held isHeld
        by_cases same : address = entry.2
        · rw [same] at before
          have gone : (resolution.orphans.heap.erase entry.2).lookup entry.2 =
            some held := before
          rw [AList.lookup_erase] at gone
          cases gone
        · rwa [answered, AList.lookup_erase_ne same] at before
      · rw [offered.offers]
        simp [answered]
      · rw [offered.queue, acceptedOf_cons, answered]
        split_ifs <;> simp
      · intro hash
        rw [offered.index, acceptedOf_cons, answered]
        split_ifs
        · simp [or_assoc, or_left_comm]
        · simp
      · rw [List.length_cons, List.length_cons, offered.count]
      · intro hash
        rw [List.map_cons, List.mem_cons, offered.hashes, List.exists_mem_cons_iff]
        refine or_congr ?_ ?_
        · simp [found, eq_comm]
        · refine exists_congr fun other => and_congr_right fun member => ?_
          show (∃ held, (resolution.orphans.heap.erase entry.2).lookup other.2 =
            some held ∧ _) ↔ _
          rw [erased other member]
      · rw [List.map_cons, List.nodup_cons]
        refine ⟨?_, offered.once⟩
        rw [offered.hashes]
        rintro ⟨other, member, held, isHeld, same⟩
        rcases removed.object other (later other member) with
          ⟨isBlock, isFound, -, under⟩
        have sameBlock := isFound.symm.trans isHeld
        cases sameBlock
        rw [same, AList.lookup_erase] at under
        cases under

/-! ## The outer loop of the resolution -/

/-- What the resolution for a block has done so far. -/
structure Resolving (before : State) (hash : Uint256) (now : Resolution) :
    Prop where
  consistent : Consistent now.orphans
  stored :
    ∀ block, Stored now.orphans block ↔
      Stored before.orphans block ∧ block.hashPrev ∉ now.vWorkQueue.take now.i
  offered :
    ∀ offer, offer ∈ now.offers.map Prod.fst ↔ ∃ block,
      Stored before.orphans block ∧ block.hashBlock = offer ∧
        block.hashPrev ∈ now.vWorkQueue.take now.i
  once : (now.offers.map Prod.fst).Nodup
  queue : now.vWorkQueue = hash :: acceptedOf now.offers
  passed : now.i ≤ now.vWorkQueue.length
  index :
    ∀ other, other ∈ now.mapBlockIndex ↔
      other ∈ before.mapBlockIndex ∨ other ∈ now.vWorkQueue
  count :
    now.orphans.mapOrphanBlocksByPrev.length ≤
      before.orphans.mapOrphanBlocksByPrev.length

theorem resolving_start
    (consistent : Consistent state.orphans) (hash : Uint256) :
    Resolving state hash
      ⟨⟨state.orphans, insert hash state.mapBlockIndex⟩, [hash], 0, []⟩ where
  consistent := consistent
  stored := by simp
  offered := by simp
  once := List.nodup_nil
  queue := rfl
  passed := Nat.zero_le _
  index := by
    intro other
    rw [Finset.mem_insert, List.mem_singleton, or_comm]
  count := le_refl _

/-- The maps after the entries of one parent are gone. -/
theorem Offered.consistent
    {before after : Resolution} {answers : List (Uint256 × Bool)}
    {hashPrev : Uint256}
    (consistent : Consistent before.orphans)
    (offered : Offered (· ∈ before.orphans.mapOrphanBlocksByPrev)
      (before.orphans.mapOrphanBlocksByPrev.filter
        fun entry => entry.1 = hashPrev) before after answers) :
    Consistent
      { after.orphans with
        mapOrphanBlocksByPrev :=
          before.orphans.mapOrphanBlocksByPrev.filter
            fun entry => entry.1 ≠ hashPrev } where
  linked := by
    have left : ∀ entry : Uint256 × Nat,
        entry ∈ before.orphans.mapOrphanBlocksByPrev.filter
            (fun entry => entry.1 ≠ hashPrev) ↔
          entry ∈ before.orphans.mapOrphanBlocksByPrev ∧
            entry ∉ before.orphans.mapOrphanBlocksByPrev.filter
              (fun entry => entry.1 = hashPrev) := by
      intro entry
      simp only [List.mem_filter, decide_eq_true_eq]
      tauto
    simp only [left]
    exact offered.linked
  once := consistent.once.filter _
  fresh := by
    intro address member
    rw [offered.nextAddress]
    rcases mem_table_iff.mp member with ⟨block, found⟩
    exact consistent.fresh address
      (mem_table_iff.mpr ⟨block, offered.kept address block found⟩)

theorem take_succ_of_getElem?
    {α : Type*} {queue more : List α} {i : Nat} {head : α}
    (isHead : queue[i]? = some head) :
    (queue ++ more).take (i + 1) = queue.take i ++ [head] := by
  have inside : i < queue.length := (List.getElem?_eq_some_iff.mp isHead).1
  rw [List.take_append_of_le_length inside, List.take_add_one, isHead]
  rfl

/-- A pass offers the children of the next hash in the queue. -/
theorem resolvePass_resolves
    {before : State} {hash hashPrev : Uint256}
    (whole : Consistent before.orphans)
    (resolving : Resolving before hash resolution)
    (next : resolution.vWorkQueue[resolution.i]? = some hashPrev) :
    ∃ after, resolvePass acceptBlock resolution = some (after, false) ∧
      Resolving before hash after ∧
      after.vWorkQueue.length - after.i +
          after.orphans.mapOrphanBlocksByPrev.length <
        resolution.vWorkQueue.length - resolution.i +
          resolution.orphans.mapOrphanBlocksByPrev.length := by
  have consistent := resolving.consistent
  let children := resolution.orphans.mapOrphanBlocksByPrev.filter
    fun entry => entry.1 = hashPrev
  rcases @foldlM_offerOrphan _ acceptBlock resolution children
      (consistent.once.filter _) consistent.linked
      (fun entry member => (List.mem_filter.mp member).1) with
    ⟨after, answers, folded, offered⟩
  have inside : resolution.i < resolution.vWorkQueue.length :=
    (List.getElem?_eq_some_iff.mp next).1
  have taken : after.vWorkQueue.take (resolution.i + 1) =
      resolution.vWorkQueue.take resolution.i ++ [hashPrev] := by
    rw [offered.queue]
    exact take_succ_of_getElem? next
  have rest := offered.consistent consistent
  have stays : ∀ block, Stored after.orphans block ↔
      Stored resolution.orphans block ∧ block.hashPrev ≠ hashPrev := by
    intro block
    constructor
    · rintro ⟨address, found⟩
      refine ⟨⟨address, offered.kept address block found⟩, ?_⟩
      have member := rest.linked.owned address block found
      exact of_decide_eq_true (List.mem_filter.mp member).2
    · rintro ⟨⟨address, found⟩, other⟩
      have member := consistent.linked.owned address block found
      have left : (block.hashPrev, address) ∈
          resolution.orphans.mapOrphanBlocksByPrev.filter
            fun entry => entry.1 ≠ hashPrev :=
        List.mem_filter.mpr ⟨member, decide_eq_true other⟩
      rcases rest.linked.object _ left with ⟨held, isHeld, -, -⟩
      have sameBlock := (offered.kept _ _ isHeld).symm.trans found
      cases sameBlock
      exact ⟨address, isHeld⟩
  have isChild : ∀ offer, offer ∈ answers.map Prod.fst ↔ ∃ block,
      Stored resolution.orphans block ∧ block.hashBlock = offer ∧
        block.hashPrev = hashPrev := by
    intro offer
    rw [offered.hashes]
    constructor
    · rintro ⟨entry, member, block, found, itsHash⟩
      rcases List.mem_filter.mp member with ⟨isEntry, parent⟩
      rcases consistent.linked.object entry isEntry with
        ⟨same, isFound, itsParent, -⟩
      have sameBlock := isFound.symm.trans found
      cases sameBlock
      exact ⟨_, ⟨_, found⟩, itsHash,
        itsParent.trans (of_decide_eq_true parent)⟩
    · rintro ⟨block, stored, itsHash, itsParent⟩
      rcases consistent.stored_iff.mp stored with ⟨entry, isEntry, found, parent⟩
      refine ⟨entry, List.mem_filter.mpr ⟨isEntry, ?_⟩, block, found, itsHash⟩
      exact decide_eq_true (parent.trans itsParent)
  refine ⟨{ after with
      orphans :=
        { after.orphans with
          mapOrphanBlocksByPrev :=
            resolution.orphans.mapOrphanBlocksByPrev.filter
              fun entry => entry.1 ≠ hashPrev }
      i := resolution.i + 1 }, ?_, ⟨rest, ?_, ?_, ?_, ?_, ?_, ?_, ?_⟩, ?_⟩
  · rw [resolvePass, next]
    dsimp only
    rw [folded]
    rfl
  · intro block
    have seen := stays block
    rw [resolving.stored block, and_assoc] at seen
    rw [taken, List.mem_append, List.mem_singleton, not_or]
    exact seen
  · intro offer
    rw [taken, offered.offers, List.map_append, List.mem_append,
      resolving.offered, isChild]
    constructor
    · rintro (⟨block, stored, itsHash, earlier⟩ | ⟨block, stored, itsHash, child⟩)
      · exact ⟨block, stored, itsHash, List.mem_append_left _ earlier⟩
      · refine ⟨block, ((resolving.stored block).mp stored).1, itsHash, ?_⟩
        rw [child]
        exact List.mem_append_right _ (List.mem_singleton.mpr rfl)
    · rintro ⟨block, stored, itsHash, parent⟩
      by_cases earlier :
          block.hashPrev ∈ resolution.vWorkQueue.take resolution.i
      · exact Or.inl ⟨block, stored, itsHash, earlier⟩
      · rcases List.mem_append.mp parent with inQueue | child
        · exact absurd inQueue earlier
        · exact Or.inr ⟨block, (resolving.stored block).mpr ⟨stored, earlier⟩,
            itsHash, List.mem_singleton.mp child⟩
  · rw [offered.offers, List.map_append, List.nodup_append]
    refine ⟨resolving.once, offered.once, ?_⟩
    rintro hash before again now rfl
    rcases (resolving.offered hash).mp before with ⟨first, stored, firstHash, seen⟩
    rcases (isChild hash).mp now with ⟨second, present, secondHash, -⟩
    rcases (resolving.stored second).mp present with ⟨secondStored, unseen⟩
    rw [whole.eq_of_hash stored secondStored
      (firstHash.trans secondHash.symm)] at seen
    exact unseen seen
  · rw [offered.queue, offered.offers, acceptedOf_append, resolving.queue]
    rfl
  · rw [offered.queue, List.length_append]
    dsimp only
    omega
  · intro other
    rw [offered.index, offered.queue, List.mem_append, resolving.index, or_assoc]
  · exact (List.length_filter_le _ _).trans resolving.count
  · have accepted : (acceptedOf answers).length ≤ children.length := by
      rw [acceptedOf, List.length_map, ← offered.count]
      exact List.length_filter_le _ _
    have split := (List.filter_append_perm
      (fun entry => decide (entry.1 = hashPrev))
      resolution.orphans.mapOrphanBlocksByPrev).length_eq
    have parts : children.length + _ = _ := List.length_append.symm.trans split
    rw [offered.queue, List.length_append]
    simp only [decide_not, ne_eq]
    omega

/-- The resolution ends, and has offered the children of the accepted ones. -/
theorem resolvePass_ends
    (consistent : Consistent state.orphans) (hash : Uint256)
    (acceptBlock : List (Uint256 × Bool) → COrphanBlock → Bool) :
    ∃ resolved, Loop.run (resolvePass acceptBlock)
        (state.orphans.mapOrphanBlocksByPrev.length + 2)
        ⟨⟨state.orphans, insert hash state.mapBlockIndex⟩, [hash], 0, []⟩ =
          some resolved ∧
      Resolving state hash resolved ∧
      resolved.vWorkQueue.take resolved.i = resolved.vWorkQueue := by
  refine @Loop.run_reaches _ _ _ _ (Resolving state hash)
    (fun now => now.vWorkQueue.length - now.i +
      now.orphans.mapOrphanBlocksByPrev.length) ?_ _
    (resolving_start consistent hash) ?_
  · intro now resolving
    cases next : now.vWorkQueue[now.i]? with
    | none =>
        refine ⟨now, true, ?_, nofun, fun _ => ⟨resolving, ?_⟩⟩
        · rw [resolvePass, next]
        · exact List.take_of_length_le (List.getElem?_eq_none_iff.mp next)
    | some hashPrev =>
        rcases resolvePass_resolves consistent resolving next with
          ⟨after, passed, kept, less⟩
        exact ⟨after, false, passed, fun _ => ⟨kept, less⟩, nofun⟩
  · show [hash].length - 0 + state.orphans.mapOrphanBlocksByPrev.length < _
    rw [List.length_singleton]
    omega

/-! ## The descendants of an accepted block -/

/--
The stored descendants of a block that its acceptance reaches: its children,
and the children of those among the descendants that were accepted.
-/
inductive Awaits (orphans : Orphans) (hash : Uint256)
    (offers : List (Uint256 × Bool)) : COrphanBlock → Prop
  | child {block : COrphanBlock} :
      Stored orphans block → block.hashPrev = hash →
        Awaits orphans hash offers block
  | descendant {parent block : COrphanBlock} :
      Awaits orphans hash offers parent → (parent.hashBlock, true) ∈ offers →
        Stored orphans block → block.hashPrev = parent.hashBlock →
        Awaits orphans hash offers block

variable {hash : Uint256} {offers : List (Uint256 × Bool)}

instance : Finite Uint256 :=
  Finite.of_injective BitVec.toFin fun _ _ => BitVec.eq_of_toFin_eq

theorem awaits_iff
    (acyclic : Acyclic link) (links : Links link orphans)
    (offered :
      ∀ offer, offer ∈ offers.map Prod.fst ↔ ∃ block,
        Stored orphans block ∧ block.hashBlock = offer ∧
          block.hashPrev ∈ hash :: acceptedOf offers) :
    Awaits orphans hash offers block ↔
      Stored orphans block ∧ block.hashPrev ∈ hash :: acceptedOf offers := by
  constructor
  · rintro (⟨stored, parent⟩ | ⟨-, accepted, stored, parent⟩)
    · exact ⟨stored, parent ▸ List.mem_cons_self⟩
    · refine ⟨stored, List.mem_cons_of_mem _ ?_⟩
      rw [parent]
      exact mem_acceptedOf.mpr accepted
  · induction known : block.hashBlock using acyclic.wellFounded.induction
      generalizing block with
    | h next inductionHypothesis =>
        rintro ⟨stored, inQueue⟩
        rcases List.mem_cons.mp inQueue with parent | later
        · exact Awaits.child stored parent
        · have accepted := mem_acceptedOf.mp later
          have offer : block.hashPrev ∈ offers.map Prod.fst :=
            List.mem_map.mpr ⟨_, accepted, rfl⟩
          rcases (offered block.hashPrev).mp offer with
            ⟨parent, isStored, itsHash, reached⟩
          have linked := links block stored
          rw [known, ← itsHash] at linked
          refine Awaits.descendant ?_ (itsHash ▸ accepted) stored itsHash.symm
          exact inductionHypothesis _ linked rfl ⟨isStored, reached⟩

/-! ## Calls and runs -/

/-- What holds between calls. -/
structure Sound (state : State) : Prop where
  consistent : Consistent state.orphans
  few : state.orphans.mapOrphanBlocksByPrev.length ≤ MAX_ORPHAN_BLOCKS + 1
  waiting :
    ∀ block, Stored state.orphans block → block.hashPrev ∉ state.mapBlockIndex

/-- What a call does with the orphans. -/
structure Handled (state : State) (call : Call) (result : Result) : Prop where
  sound : Sound result.state
  arrived :
    ∀ block, Stored result.state.orphans block →
      Stored state.orphans block ∨
        block = ⟨call.hash, call.hashPrevBlock, call.vchBlock⟩
  left :
    ∀ block, Stored state.orphans block →
      Stored result.state.orphans block ∨ result.evicted = some block ∨
        block.hashBlock ∈ result.offers.map Prod.fst
  evicted :
    ∀ block, result.evicted = some block →
      Stored state.orphans block ∧
        ∀ other, Stored state.orphans other → other.hashPrev ≠ block.hashBlock
  once : (result.offers.map Prod.fst).Nodup
  offered :
    call.hash ∉ state.mapBlockIndex → call.hash ∈ result.state.mapBlockIndex →
      ∀ offer, offer ∈ result.offers.map Prod.fst ↔ ∃ block,
        Awaits state.orphans call.hash result.offers block ∧
          block.hashBlock = offer

/-- A call that is over before `AcceptBlock` and stores nothing. -/
theorem handled_unchanged (sound : Sound state) (call : Call) (fRet : Bool) :
    Handled state call ⟨state, fRet, none, none, []⟩ where
  sound := sound
  arrived := fun _ stored => Or.inl stored
  left := fun _ stored => Or.inl stored
  evicted := nofun
  once := List.nodup_nil
  offered := fun unknown known => absurd known unknown

/-- A block whose parent is unknown is stored. -/
theorem storeOrphan_handled
    (acyclic : Acyclic link) (links : Links link state.orphans)
    (sound : Sound state) (linked : link call.hashPrevBlock call.hash)
    (unknown : call.hash ∉ state.mapBlockIndex)
    (new : call.hash ∉ state.orphans.mapOrphanBlocks)
    (orphaned : call.hashPrevBlock ∉ state.mapBlockIndex) :
    ∃ pruned evicted root,
      pruneOrphanBlocks state.orphans call.insecure_rand =
        some (pruned, evicted) ∧
      getOrphanRoot
          (addOrphanBlock pruned ⟨call.hash, call.hashPrevBlock, call.vchBlock⟩)
          call.hash = some root ∧
      Handled state call
        ⟨{ state with
            orphans := addOrphanBlock pruned
              ⟨call.hash, call.hashPrevBlock, call.vchBlock⟩ },
          true, evicted, some root, []⟩ := by
  rcases pruneOrphanBlocks_ends sound.consistent acyclic links
      call.insecure_rand sound.few with
    ⟨pruned, evicted, ends, consistent, room, fewer, kept, absent, alone⟩
  let block : COrphanBlock := ⟨call.hash, call.hashPrevBlock, call.vchBlock⟩
  have added : Consistent (addOrphanBlock pruned block) :=
    consistent.add (absent _ new)
  have nowLinks : Links link (addOrphanBlock pruned block) := by
    intro other stored
    rcases stored_addOrphanBlock stored with rfl | old
    · exact linked
    · exact links other (fewer other old)
  have stored := consistent.stored_add block
  rcases getOrphanRoot_ends added acyclic nowLinks stored.1 with
    ⟨root, rooted, -, -⟩
  refine ⟨pruned, evicted, root.hashBlock, ends, rooted, ⟨added, ?_, ?_⟩, ?_, ?_,
    alone, List.nodup_nil, fun _ known => absurd known unknown⟩
  · show (insertByPrev _ _).length ≤ _
    rw [(insertByPrev_perm _ _).length_eq, List.length_cons]
    omega
  · intro other isStored
    rcases stored_addOrphanBlock isStored with rfl | old
    · exact orphaned
    · exact sound.waiting other (fewer other old)
  · intro other isStored
    rcases stored_addOrphanBlock isStored with same | old
    · exact Or.inr same
    · exact Or.inl (fewer other old)
  · intro other isStored
    rcases kept other isStored with still | gone
    · exact Or.inl (stored.2 other still)
    · exact Or.inr (Or.inl gone)

/-- An accepted block resolves its descendants. -/
theorem resolution_handled
    (acyclic : Acyclic link) (links : Links link state.orphans)
    (sound : Sound state) {resolved : Resolution}
    (resolving : Resolving state call.hash resolved)
    (done : resolved.vWorkQueue.take resolved.i = resolved.vWorkQueue) :
    Handled state call ⟨resolved.toState, true, none, none, resolved.offers⟩ := by
  have offered := resolving.offered
  have stored := resolving.stored
  simp only [done] at offered stored
  refine ⟨⟨resolving.consistent, resolving.count.trans sound.few, ?_⟩, ?_, ?_,
    nofun, resolving.once, ?_⟩
  · intro block isStored inIndex
    rcases (stored block).mp isStored with ⟨before, notQueued⟩
    rcases (resolving.index _).mp inIndex with old | queued
    · exact sound.waiting block before old
    · exact notQueued queued
  · exact fun block isStored => Or.inl ((stored block).mp isStored).1
  · intro block isStored
    by_cases queued : block.hashPrev ∈ resolved.vWorkQueue
    · exact Or.inr (Or.inr ((offered _).mpr ⟨block, isStored, rfl, queued⟩))
    · exact Or.inl ((stored block).mpr ⟨isStored, queued⟩)
  · intro _ _ offer
    rw [resolving.queue] at offered
    show offer ∈ resolved.offers.map Prod.fst ↔ _
    rw [offered offer]
    simp only [awaits_iff acyclic links offered, and_left_comm, and_comm]

theorem processBlock_handled
    (acyclic : Acyclic link) (links : Links link state.orphans)
    (sound : Sound state) (linked : link call.hashPrevBlock call.hash) :
    ∃ result, processBlock state call = some result ∧
      Handled state call result := by
  rw [processBlock]
  split_ifs with known stored failed orphaned asks checkpoint rejected
  · exact ⟨_, rfl, handled_unchanged sound call _⟩
  · exact ⟨_, rfl, handled_unchanged sound call _⟩
  · exact ⟨_, rfl, handled_unchanged sound call _⟩
  · rcases storeOrphan_handled acyclic links sound linked known stored
        orphaned.2 with ⟨pruned, evicted, root, ends, rooted, handled⟩
    refine ⟨_, ?_, handled⟩
    simp only [ends, rooted, Option.bind_eq_bind, Option.bind_some]
  · exact ⟨_, rfl, handled_unchanged sound call _⟩
  · exact ⟨_, rfl, handled_unchanged sound call _⟩
  · exact ⟨_, rfl, handled_unchanged sound call _⟩
  · rcases resolvePass_ends sound.consistent call.hash call.acceptBlock with
      ⟨resolved, ends, resolving, done⟩
    refine ⟨_, ?_, resolution_handled acyclic links sound resolving done⟩
    simp only [ends, Option.bind_eq_bind, Option.bind_some]

theorem Reachable.sound
    (acyclic : Acyclic link) (reachable : Reachable link state) :
    Sound state ∧ Links link state.orphans := by
  induction reachable with
  | start mapBlockIndex =>
      exact ⟨⟨consistent_empty, Nat.zero_le _, nofun⟩, nofun⟩
  | call call _ linked processed inductionHypothesis =>
      rcases inductionHypothesis with ⟨sound, links⟩
      rcases processBlock_handled acyclic links sound linked with
        ⟨result, same, handled⟩
      cases same.symm.trans processed
      refine ⟨handled.sound, ?_⟩
      intro block stored
      rcases handled.arrived block stored with old | rfl
      · exact links block old
      · exact linked

/-- An orphan that waits for block 2. -/
def orphanCall : Call :=
  ⟨3, 2, [], true, true, 0, true, true, fun _ _ => true⟩

/-- Its parent, on top of block 1. -/
def parentCall : Call :=
  ⟨2, 1, [], true, true, 0, true, true, fun _ _ => true⟩

def orphanWaits : State :=
  ⟨addOrphanBlock .empty ⟨3, 2, []⟩, {1}⟩

end DSValue.Chain.OrphanBlocks
