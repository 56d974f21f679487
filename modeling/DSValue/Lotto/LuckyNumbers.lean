import DSValue.Lib.FirstDistinct
import DSValue.Lotto.Enumeration

/-!
# The lucky numbers and the hash chain

The numbers of a draw come from the chain of hashes of its seed: a hash whose
low byte is below a limit gives the number one above it.  The six numbers and
the red numbers are the first distinct ones of the chain, sorted.

The blue numbers are looked for in the same vector as the red ones, so a
number that was drawn as red is passed over, and the blue numbers depend on
the red ones.
-/

namespace DSValue.Lotto.LuckyNumbers

open DSValue.Lib
open DSValue.Lib.Encoding
open DSValue.Lib.FirstDistinct
open DSValue.Core.Serialize
open DSValue.Lotto.Bet
open DSValue.Lotto.Draw
open DSValue.Lotto.Tickets
open DSValue.Lotto.Enumeration

/-! ## The chain -/

/-- The hashes of a hash. -/
def hashChain (hash : List UInt8 → Uint256) (first : Uint256) : Nat → Uint256
  | 0 => first
  | position + 1 => hash (writeUint256 (hashChain hash first position))

/-- The low byte of a hash. -/
def lowByte (hash : Uint256) : UInt8 :=
  UInt8.ofNat hash.toNat

/-- The number that a hash of the chain gives below a limit. -/
def candidate (limit : UInt8) (chain : Nat → Uint256) (position : Nat) :
    Option UInt8 :=
  if lowByte (chain position) < limit then
    some (lowByte (chain position) + 1)
  else none

/-- The number is from one to the limit. -/
theorem candidate_bounds
    {limit : UInt8} {chain : Nat → Uint256} {position : Nat} {no : UInt8}
    (given : candidate limit chain position = some no) :
    1 ≤ no.toNat ∧ no.toNat ≤ limit.toNat := by
  rw [candidate] at given
  split_ifs at given with below
  cases given
  rw [UInt8.lt_iff_toNat_lt] at below
  have limitSmall := limit.toNat_lt
  rw [UInt8.toNat_add, UInt8.toNat_one, Nat.mod_eq_of_lt (by omega)]
  omega

theorem collect_bounds
    {limit : UInt8} {chain : Nat → Uint256} {start steps : Nat} :
    ∀ no ∈ collect (candidate limit chain) [] start steps,
      1 ≤ no.toNat ∧ no.toNat ≤ limit.toNat := by
  intro no member
  rcases mem_collect.mp member with nowhere | ⟨step, -, given⟩
  · cases nowhere
  · exact candidate_bounds given

/-! ## The loop -/

/-- One turn of the loop pushes the candidate. -/
theorem push_candidate
    (limit : UInt8) (chain : Nat → Uint256) (position : Nat)
    (seen : List UInt8) :
    push seen (candidate limit chain position) =
      if lowByte (chain position) < limit ∧
          lowByte (chain position) + 1 ∉ seen then
        seen ++ [lowByte (chain position) + 1]
      else seen := by
  rw [candidate]
  by_cases below : lowByte (chain position) < limit
  · rw [if_pos below, push]
    by_cases known : lowByte (chain position) + 1 ∈ seen
    · simp [known]
    · simp [below, known]
  · simp [below, push]

/--
The loop of `CreateLuckyStarMap` collects candidates until there are enough.
-/
theorem drawNumbers_collects
    {hash : List UInt8 → Uint256} {first : Uint256} {limit : UInt8}
    {size bound : Nat} {seen : List UInt8} {start steps : Nat}
    {found : List UInt8} {next : Uint256}
    (fewer :
      ∀ earlier ≤ steps,
        (collect (candidate limit (hashChain hash first)) seen start
          earlier).length < size)
    (ran :
      drawNumbers hash limit size bound
          (collect (candidate limit (hashChain hash first)) seen start steps)
          (hashChain hash first (start + steps)) = .ok (found, next)) :
    ∃ all, next = hashChain hash first (start + all) ∧
      found =
        collect (candidate limit (hashChain hash first)) seen start all ∧
      found.length = size ∧
      ∀ earlier < all,
        (collect (candidate limit (hashChain hash first)) seen start
          earlier).length < size := by
  induction bound generalizing steps with
  | zero => cases ran
  | succ bound inductionHypothesis =>
      rw [drawNumbers] at ran
      rcases bind_eq_ok.mp ran with ⟨byte, isByte, rest⟩
      have byteEqual :
          lowByte (hashChain hash first (start + steps)) = byte := by
        rw [firstByte] at isByte
        split_ifs at isByte
        cases isByte
        rfl
      have pushed :=
        push_candidate limit (hashChain hash first) (start + steps)
          (collect (candidate limit (hashChain hash first)) seen start steps)
      rw [byteEqual] at pushed
      rw [← pushed] at rest
      have later :
          push
              (collect (candidate limit (hashChain hash first)) seen start
                steps)
              (candidate limit (hashChain hash first) (start + steps)) =
            collect (candidate limit (hashChain hash first)) seen start
              (steps + 1) :=
        rfl
      simp only [later] at rest
      by_cases more :
          (collect (candidate limit (hashChain hash first)) seen start
            (steps + 1)).length < size
      · rw [if_pos more] at rest
        apply inductionHypothesis _ rest
        intro earlier atMost
        rcases Nat.le_succ_iff.mp atMost with before | rfl
        · exact fewer earlier before
        · exact more
      · rw [if_neg more] at rest
        cases rest
        have one :=
          length_push_le
            (collect (candidate limit (hashChain hash first)) seen start
              steps)
            (candidate limit (hashChain hash first) (start + steps))
        have before := fewer steps le_rfl
        rw [later] at one
        refine ⟨steps + 1, rfl, rfl, by omega, ?_⟩
        intro earlier below
        exact fewer earlier (by omega)

/-- The loop from an empty vector finds the first distinct candidates. -/
theorem drawNumbers_firsts
    {hash : List UInt8 → Uint256} {first : Uint256} {limit : UInt8}
    {size bound : Nat} {found : List UInt8} {next : Uint256}
    (some : 0 < size)
    (ran : drawNumbers hash limit size bound [] first = .ok (found, next)) :
    ∃ stop, next = hashChain hash first stop ∧
      Firsts (candidate limit (hashChain hash first)) 0 size stop found := by
  have fewer :
      ∀ earlier ≤ 0,
        (collect (candidate limit (hashChain hash first)) [] 0
          earlier).length < size := by
    intro earlier none
    rw [Nat.le_zero.mp none]
    exact some
  rcases drawNumbers_collects fewer ran with
    ⟨all, isNext, isFound, enough, least⟩
  rw [Nat.zero_add] at isNext
  refine ⟨all, isNext, Nat.zero_le all, isFound, enough, ?_⟩
  intro steps below
  exact least steps (by omega)

/-! ## The draw -/

/-- The first hash of a draw. -/
def drawChain (env : DrawEnv) (seed : Uint256) : Nat → Uint256 :=
  hashChain env.hash (env.hash (writeUint256 seed))

/-- What a draw that stops gives, blue numbers that avoid the red ones. -/
theorem createLuckyStarMap_firsts
    {env : DrawEnv} {seed : Uint256} {stars : BetType → List UInt8}
    (stops : createLuckyStarMap env seed = .ok stars) :
    ∃ sixStop six redStop red blueStop blue,
      Firsts (candidate 15 (drawChain env seed)) 0 6 sixStop six ∧
      Firsts (candidate 20 (drawChain env seed)) 0 5 redStop red ∧
      Firsts (avoiding red (candidate 10 (drawChain env seed))) redStop 2
        blueStop blue ∧
      stars .type15_6 = sortBytes six ∧
      stars .typeMulilt = sortBytes red ++ gSplitFlag :: sortBytes blue := by
  simp only [createLuckyStarMap, bind_eq_ok] at stops
  rcases stops with ⟨⟨six, sixNext⟩, ranSix, ⟨red, redNext⟩, ranRed,
    ⟨both, bothNext⟩, ranBoth, isStars⟩
  rcases drawNumbers_firsts (by decide) ranSix with ⟨sixStop, -, isSix⟩
  rcases drawNumbers_firsts (by decide) ranRed with ⟨redStop, isNext, isRed⟩
  have redRange : ∀ no ∈ red, 1 ≤ no.toNat ∧ no.toNat ≤ 20 := by
    rw [isRed.collected]
    exact collect_bounds
  have inFront :
      ∀ no, 1 ≤ no.toNat ∧ no.toNat ≤ 10 →
        (no ∈ sortBytes red ++ [gSplitFlag] ↔ no ∈ red) := by
    intro no bounds
    have notFlag : no ≠ gSplitFlag := by
      rintro rfl
      exact absurd bounds.2 (by decide)
    simp [sortBytes, notFlag]
  have sameCandidates :
      avoiding (sortBytes red ++ [gSplitFlag])
          (candidate 10 (drawChain env seed)) =
        avoiding red (candidate 10 (drawChain env seed)) := by
    funext position
    rw [avoiding, avoiding]
    cases given : candidate 10 (drawChain env seed) position with
    | none => rfl
    | some no => simp only [inFront no (candidate_bounds given)]
  have frontLength : (sortBytes red ++ [gSplitFlag]).length = 6 := by
    rw [List.length_append, sortBytes, List.length_insertionSort,
      isRed.enough]
    rfl
  have collected :
      ∀ steps,
        collect (candidate 10 (drawChain env seed))
            (sortBytes red ++ [gSplitFlag]) redStop steps =
          sortBytes red ++ [gSplitFlag] ++
            collect (avoiding red (candidate 10 (drawChain env seed))) []
              redStop steps := by
    intro steps
    rw [collect_eq_append, sameCandidates]
  have fewer :
      ∀ earlier ≤ 0,
        (collect (candidate 10 (drawChain env seed))
          (sortBytes red ++ [gSplitFlag]) redStop earlier).length < 8 := by
    intro earlier none
    rw [Nat.le_zero.mp none, collect, frontLength]
    decide
  simp only at isNext ranBoth
  rw [isNext] at ranBoth
  rcases drawNumbers_collects fewer ranBoth with
    ⟨all, -, isBoth, enough, least⟩
  refine ⟨sixStop, six, redStop, red, redStop + all,
    collect (avoiding red (candidate 10 (drawChain env seed))) [] redStop all,
    isSix, isRed, ⟨Nat.le_add_right _ _, ?_, ?_, ?_⟩, ?_, ?_⟩
  · rw [Nat.add_sub_cancel_left]
  · have isLength := enough
    rw [isBoth] at isLength
    have split := congrArg List.length (collected all)
    rw [List.length_append, frontLength] at split
    have whole := isLength.symm.trans split
    omega
  · intro steps below
    have short := least steps (by omega)
    have split := congrArg List.length (collected steps)
    rw [List.length_append, frontLength] at split
    have whole := Nat.lt_of_le_of_lt split.ge short
    omega
  · cases isStars
    rfl
  · have redAway : ∀ no ∈ sortBytes red, no ≠ gSplitFlag := by
      intro no member
      rintro rfl
      have inRed : gSplitFlag ∈ red := by
        simpa [sortBytes] using member
      exact absurd (redRange gSplitFlag inRed).2 (by decide)
    have isBothList :
        both =
          sortBytes red ++
            gSplitFlag ::
              collect (avoiding red (candidate 10 (drawChain env seed))) []
                redStop all := by
      rw [isBoth]
      exact (collected all).trans (by rw [List.append_assoc]; rfl)
    cases isStars
    simp only [isBothList, redPart_of_flag redAway, bluePart_of_flag redAway,
      Option.getD_some]

/--
The draw of the game: the first distinct numbers of the chain, the blue ones
behind the last hash that was used for the red ones.
-/
def DrawsFirsts
    (env : DrawEnv) (seed : Uint256) (stars : BetType → List UInt8) : Prop :=
  ∃ sixStop six redStop red blueStop blue,
    Firsts (candidate 15 (drawChain env seed)) 0 6 sixStop six ∧
    Firsts (candidate 20 (drawChain env seed)) 0 5 redStop red ∧
    Firsts (candidate 10 (drawChain env seed)) redStop 2 blueStop blue ∧
    stars .type15_6 = sortBytes six ∧
    stars .typeMulilt = sortBytes red ++ gSplitFlag :: sortBytes blue

theorem sortBytes_eq_iff (first second : List UInt8) :
    sortBytes first = sortBytes second ↔ first.Perm second := by
  constructor
  · intro same
    have left : (sortBytes first).Perm first := List.perm_insertionSort _ first
    have right : (sortBytes second).Perm second :=
      List.perm_insertionSort _ second
    rw [same] at left
    exact left.symm.trans right
  · intro perm
    have sorted :
        ∀ bytes : List UInt8,
          (sortBytes bytes).Pairwise (fun left right => left ≤ right) :=
      fun bytes => List.pairwise_insertionSort _ bytes
    apply List.Perm.eq_of_pairwise _ (sorted first) (sorted second)
    · exact (List.perm_insertionSort _ first).trans
        (perm.trans (List.perm_insertionSort _ second).symm)
    · intro left right _ _ below above
      exact UInt8.le_antisymm below above

/--
A draw that stops is the draw of the game exactly when neither of the first
two blue candidates behind the red numbers is one of them.
-/
theorem drawsFirsts_iff
    (env : DrawEnv) (seed : Uint256) (stars : BetType → List UInt8)
    (stops : createLuckyStarMap env seed = .ok stars) :
    DrawsFirsts env seed stars ↔
      ∀ redStop red blueStop blue,
        Firsts (candidate 20 (drawChain env seed)) 0 5 redStop red →
        Firsts (candidate 10 (drawChain env seed)) redStop 2 blueStop blue →
        ∀ no ∈ blue, no ∉ red := by
  rcases createLuckyStarMap_firsts stops with
    ⟨sixStop, six, redStop, red, drawnStop, drawn, isSix, isRed, isDrawn,
      sixStars, doubleStars⟩
  constructor
  · rintro ⟨-, -, otherStop, otherRed, blueStop, blue, -, isOtherRed, isBlue,
      -, blueStars⟩ lastStop lastRed lastBlueStop lastBlue isLastRed isLastBlue
    rcases isRed.unique isOtherRed with ⟨rfl, rfl⟩
    rcases isRed.unique isLastRed with ⟨rfl, rfl⟩
    rcases isBlue.unique isLastBlue with ⟨rfl, rfl⟩
    have same := doubleStars.symm.trans blueStars
    have sameBlue := List.append_cancel_left same
    rw [List.cons.injEq] at sameBlue
    have perm := (sortBytes_eq_iff drawn blue).mp sameBlue.2
    exact (isBlue.perm_avoiding_iff isDrawn).mp perm.symm
  · intro away
    have enough :
        2 ≤ (collect (candidate 10 (drawChain env seed)) [] redStop
          (drawnStop - redStop)).length := by
      have drawnLength := isDrawn.enough
      rw [isDrawn.collected] at drawnLength
      have atLeast :=
        length_avoiding_le (candidate 10 (drawChain env seed)) red redStop
          (drawnStop - redStop)
      omega
    rcases exists_firsts enough with ⟨blueStop, blue, isBlue⟩
    have perm :=
      (isBlue.perm_avoiding_iff isDrawn).mpr
        (away redStop red blueStop blue isRed isBlue)
    refine ⟨sixStop, six, redStop, red, blueStop, blue, isSix, isRed, isBlue,
      sixStars, ?_⟩
    rw [doubleStars, (sortBytes_eq_iff blue drawn).mpr perm]

/-- The numbers of a draw are distinct and in range. -/
theorem drawnNumbers_of_createLuckyStarMap
    {env : DrawEnv} {seed : Uint256} {stars : BetType → List UInt8}
    (stops : createLuckyStarMap env seed = .ok stars) :
    DrawnNumbers stars := by
  rcases createLuckyStarMap_firsts stops with
    ⟨sixStop, six, redStop, red, blueStop, blue, isSix, isRed, isBlue,
      sixStars, doubleStars⟩
  have nodup :
      ∀ {values : Nat → Option UInt8} {start size stop : Nat}
        {found : List UInt8}, Firsts values start size stop found →
        (sortBytes found).Nodup ∧ (sortBytes found).length = size := by
    intro values start size stop found firsts
    rw [sortBytes, List.length_insertionSort, firsts.enough,
      (List.perm_insertionSort _ found).nodup_iff, firsts.collected]
    exact ⟨nodup_collect List.nodup_nil values start (stop - start), rfl⟩
  have redRange : ∀ no ∈ sortBytes red, 1 ≤ no.toNat ∧ no.toNat ≤ 20 := by
    intro no member
    have inRed : no ∈ red := by
      simpa [sortBytes] using member
    rw [isRed.collected] at inRed
    exact collect_bounds no inRed
  have redAway : ∀ no ∈ sortBytes red, no ≠ gSplitFlag := by
    rintro no member rfl
    exact absurd (redRange gSplitFlag member).2 (by decide)
  have isRedPart : redPart (stars .typeMulilt) = sortBytes red := by
    rw [doubleStars, redPart_of_flag redAway]
  have isBluePart : bluePart (stars .typeMulilt) = some (sortBytes blue) := by
    rw [doubleStars, bluePart_of_flag redAway]
  have isBlues : bluesOf (stars .typeMulilt) = sortBytes blue := by
    rw [bluesOf, isBluePart, Option.getD_some]
  constructor
  · rw [sixStars]
    exact nodup isSix
  · rw [isBlues, isBluePart]
  · rw [isRedPart]
    exact nodup isRed
  · rw [isRedPart]
    exact redRange
  · rw [isBlues]
    exact nodup isBlue

/-! ## Two chains -/

/-- A hash that counts upwards, and jumps behind one number. -/
def jumpingEnv (jump : Nat) : DrawEnv where
  hash := fun bytes =>
    BitVec.ofNat 256
      (if leValue bytes = jump then 512 else leValue bytes + 1)
  readClottoData := fun _ _ => pure []
  bound := 20

/-- The lucky numbers of both chains. -/
def lowNumbers : BetType → List UInt8
  | .type15_6 => [1, 2, 3, 4, 5, 6]
  | .typeMulilt => [1, 2, 3, 4, 5, gSplitFlag, 6, 7]

theorem lowNumbers_drawn
    {env : DrawEnv} {first redNext sixNext blueNext : Uint256}
    (seed : env.hash (writeUint256 255) = first)
    (six :
      drawNumbers env.hash 15 6 env.bound [] first =
        .ok ([1, 2, 3, 4, 5, 6], sixNext))
    (red :
      drawNumbers env.hash 20 5 env.bound [] first =
        .ok ([1, 2, 3, 4, 5], redNext))
    (both :
      drawNumbers env.hash 10 8 env.bound
          (sortBytes [1, 2, 3, 4, 5] ++ [gSplitFlag]) redNext =
        .ok ([1, 2, 3, 4, 5, gSplitFlag, 6, 7], blueNext)) :
    createLuckyStarMap env 255 = .ok lowNumbers := by
  rw [createLuckyStarMap]
  simp only [seed, six, red, both, bind, Except.bind, pure, Except.pure]
  congr 1

theorem lowNumbers_drawn_jumping :
    createLuckyStarMap (jumpingEnv 260) 255 = .ok lowNumbers := by
  apply @lowNumbers_drawn _ 256 512 518 519 <;> decide

theorem lowNumbers_drawn_counting :
    createLuckyStarMap (jumpingEnv 0) 255 = .ok lowNumbers := by
  apply @lowNumbers_drawn _ 256 261 262 263 <;> decide

/-- Finding the first values is a matter of finitely many positions. -/
theorem firsts_of_decide
    {values : Nat → Option UInt8} {start size stop : Nat}
    {found : List UInt8} (after : start ≤ stop)
    (collected : found = collect values [] start (stop - start))
    (enough : found.length = size)
    (least :
      ∀ steps < stop - start, (collect values [] start steps).length < size) :
    Firsts values start size stop found :=
  ⟨after, collected, enough, fun steps below => least steps (by omega)⟩

theorem counting_drawsFirsts :
    DrawsFirsts (jumpingEnv 0) 255 lowNumbers := by
  apply (drawsFirsts_iff _ _ _ lowNumbers_drawn_counting).mpr
  have isRed :
      Firsts (candidate 20 (drawChain (jumpingEnv 0) 255)) 0 5 5
        [1, 2, 3, 4, 5] :=
    firsts_of_decide (by decide) (by decide) rfl (by decide)
  have isBlue :
      Firsts (candidate 10 (drawChain (jumpingEnv 0) 255)) 5 2 7 [6, 7] :=
    firsts_of_decide (by decide) (by decide) rfl (by decide)
  intro redStop red blueStop blue isOtherRed isOtherBlue
  rcases isRed.unique isOtherRed with ⟨rfl, rfl⟩
  rcases isBlue.unique isOtherBlue with ⟨rfl, rfl⟩
  decide +kernel

/-- A chain whose first blue candidates were drawn as red. -/
theorem jumping_not_drawsFirsts :
    createLuckyStarMap (jumpingEnv 260) 255 = .ok lowNumbers ∧
      ¬ DrawsFirsts (jumpingEnv 260) 255 lowNumbers := by
  refine ⟨lowNumbers_drawn_jumping, ?_⟩
  have isRed :
      Firsts (candidate 20 (drawChain (jumpingEnv 260) 255)) 0 5 5
        [1, 2, 3, 4, 5] :=
    firsts_of_decide (by decide) (by decide) rfl (by decide)
  have isBlue :
      Firsts (candidate 10 (drawChain (jumpingEnv 260) 255)) 5 2 7 [1, 2] :=
    firsts_of_decide (by decide) (by decide) rfl (by decide)
  rintro ⟨-, -, redStop, red, blueStop, blue, -, isOtherRed, isOtherBlue, -,
    isDouble⟩
  rcases isRed.unique isOtherRed with ⟨rfl, rfl⟩
  rcases isBlue.unique isOtherBlue with ⟨rfl, rfl⟩
  exact absurd isDouble (by decide)

end DSValue.Lotto.LuckyNumbers
