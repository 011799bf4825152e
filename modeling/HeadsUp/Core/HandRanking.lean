import HeadsUp.Lib.Combinations
import HeadsUp.Lib.Keys
import HeadsUp.Core.Card
import Mathlib.Order.Basic

/-!
# Hand ranking (`core/hand_ranking.cpp`)

The evaluator as the code computes it. Every loop over an `unordered_map` reads
the entries in an order the code does not control; that order is the parameter
`σ`, a function of the entries in the order they were inserted.
-/

namespace HeadsUp.Core
open HeadsUp.Lib

inductive HandRank where
  | highCard | onePair | twoPair | threeOfAKind | straight | flush | fullHouse | fourOfAKind
  | straightFlush | royalFlush
  deriving DecidableEq, Repr

namespace HandRank

def toNat : HandRank → ℕ
  | highCard => 0 | onePair => 1 | twoPair => 2 | threeOfAKind => 3 | straight => 4 | flush => 5
  | fullHouse => 6 | fourOfAKind => 7 | straightFlush => 8 | royalFlush => 9

theorem toNat_injective : Function.Injective toNat := by
  intro a b h
  cases a <;> cases b <;> first | rfl | exact absurd h (by decide)

instance : LinearOrder HandRank := LinearOrder.lift' toNat toNat_injective

theorem lt_iff {a b : HandRank} : a < b ↔ a.toNat < b.toNat := Iff.rfl
theorem le_iff {a b : HandRank} : a ≤ b ↔ a.toNat ≤ b.toNat := Iff.rfl

end HandRank

structure CardValue where
  rank : ℤ
  suit : ℤ
  deriving DecidableEq, Repr, Inhabited

/-- Iteration order of the `std::unordered_map<int, int>` tables. -/
abbrev MapOrder := Shuffle (Σ _ : ℤ, ℕ)

def toCardValue (c : Card) : CardValue := ⟨c.rank.toFin.val, c.suit.toFin.val⟩
def toCardValues (cards : List Card) : List CardValue := cards.map toCardValue

/-! ### Five cards -/

def isStraight (ranks : List ℤ) : Bool :=
  if ranks.length < 5 then false
  else
    ((List.range (ranks.length - 4)).any fun i =>
      (List.range 4).all fun j => ranks.getD (i + j) 0 == ranks.getD (i + j + 1) 0 + 1) ||
    (ranks.contains 12 && ranks.contains 0 && ranks.contains 1 && ranks.contains 2 &&
      ranks.contains 3)

def isFlush (σ : MapOrder) (cards : List CardValue) : Bool :=
  if cards.length < 5 then false
  else (σ.apply (tally (cards.map CardValue.suit)).entries).any fun e => e.2 ≥ 5

/-- The tests of `evaluateFiveCards` in its order, on the sorted ranks, the
entries of `rank_count` and the two flags. -/
def classify (ranks : List ℤ) (rankCount : List (Σ _ : ℤ, ℕ)) (flush straight : Bool) :
    HandRank :=
  let hasThree := rankCount.any fun e => e.2 == 3
  let hasPair := rankCount.any fun e => e.2 == 2
  let pairCount := rankCount.countP fun e => e.2 == 2
  if flush && straight then
    if ranks.getD 0 0 == 12 && ranks.getD 4 0 == 8 then .royalFlush else .straightFlush
  else if rankCount.any fun e => e.2 == 4 then .fourOfAKind
  else if hasThree && hasPair then .fullHouse
  else if flush then .flush
  else if straight then .straight
  else if hasThree then .threeOfAKind
  else if pairCount == 2 then .twoPair
  else if pairCount == 1 then .onePair
  else .highCard

def sortedRanks (cards : List CardValue) : List ℤ := sortDescending (cards.map CardValue.rank)

/-- `rank_count`, filled from the sorted ranks and read in the order `σ`. -/
def rankCounts (σ : MapOrder) (cards : List CardValue) : List (Σ _ : ℤ, ℕ) :=
  σ.apply (tally (sortedRanks cards)).entries

/-- `evaluateFiveCards` past its size check. -/
def rankOfFive (σ : MapOrder) (cards : List CardValue) : HandRank :=
  classify (sortedRanks cards) (rankCounts σ cards) (isFlush σ cards)
    (isStraight (sortedRanks cards))

def evaluateFiveCards (σ : MapOrder) (cards : List CardValue) : Except Exn HandRank :=
  if cards.length ≠ 5 then
    .error (.invalidArgument "Need exactly 5 cards for evaluation")
  else .ok (rankOfFive σ cards)

/-! ### Tie-break keys -/

/-- Keys of the entries that fail the test, best first. -/
def kickers (p : (Σ _ : ℤ, ℕ) → Bool) (rankCount : List (Σ _ : ℤ, ℕ)) : List ℤ :=
  sortDescending ((rankCount.filter fun e => !p e).map fun e => e.1)

/-- The `switch` of `getComparisonKey`. `pairs[0]` and `pairs[1]` are read
unchecked there; a hand ranked `TWO_PAIR` has them. -/
def keyOf (ranks : List ℤ) (rankCount : List (Σ _ : ℤ, ℕ)) (rank : HandRank) : List ℤ :=
  match rank with
  | .highCard => ranks
  | .onePair =>
    lastKey (fun e => e.2 == 2) (-1) rankCount :: kickers (fun e => e.2 == 2) rankCount
  | .twoPair =>
    let pairs := kickers (fun e => e.2 != 2) rankCount
    [pairs.getD 0 0, pairs.getD 1 0, lastKey (fun e => e.2 != 2) (-1) rankCount]
  | .threeOfAKind =>
    lastKey (fun e => e.2 == 3) (-1) rankCount :: kickers (fun e => e.2 == 3) rankCount
  | .straight | .straightFlush =>
    if ranks.length == 5 && ranks.getD 0 0 == 12 && ranks.getD 4 0 == 0 then [3]
    else [ranks.getD 0 0]
  | .flush | .royalFlush => [ranks.getD 0 0]
  | .fullHouse =>
    [lastKey (fun e => e.2 == 3) (-1) rankCount,
      lastKey (fun e => e.2 != 3 && e.2 == 2) (-1) rankCount]
  | .fourOfAKind =>
    [lastKey (fun e => e.2 == 4) (-1) rankCount, lastKey (fun e => e.2 != 4) (-1) rankCount]

def getComparisonKey (σ : MapOrder) (cards : List CardValue) (rank : HandRank) : List ℤ :=
  keyOf (sortedRanks cards) (rankCounts σ cards) rank

/-! ### Six and seven cards -/

/-- The index loop from `0 … 4`, reading the cards at each index vector. The
fuel bounds the number of vectors of five indices below `n`. -/
def generateCombinations (cards : List CardValue) : List (List CardValue) :=
  ((combinationLoop cards.length (cards.length ^ 5) (List.range' 0 5)).getD []).map fun indices =>
    indices.map fun i => cards.getD i default

/-- One round of the loop of `evaluateBestFiveCards`; `best_index` is kept as
the combination it selects. -/
def keepBest (σ : MapOrder) (best : HandRank × List CardValue) (combo : List CardValue) :
    Except Exn (HandRank × List CardValue) := do
  let rank ← evaluateFiveCards σ combo
  if best.1 < rank then pure (rank, combo)
  else if rank = best.1 then
    if 0 < firstDifference (getComparisonKey σ combo rank) (getComparisonKey σ best.2 rank) then
      pure (best.1, combo)
    else pure best
  else pure best

def evaluateBestFiveCards (σ : MapOrder) (cards : List CardValue) :
    Except Exn (HandRank × List CardValue) :=
  if cards.length < 5 ∨ 7 < cards.length then
    .error (.invalidArgument "Need 5-7 cards for evaluation")
  else if cards.length = 5 then do
    let rank ← evaluateFiveCards σ cards
    pure (rank, cards)
  else
    let combos := generateCombinations cards
    combos.foldlM (keepBest σ) (.highCard, combos.headD [])

namespace HandRanking

def rankToString : HandRank → String
  | .highCard => "HIGH_CARD"
  | .onePair => "ONE_PAIR"
  | .twoPair => "TWO_PAIR"
  | .threeOfAKind => "THREE_OF_A_KIND"
  | .straight => "STRAIGHT"
  | .flush => "FLUSH"
  | .fullHouse => "FULL_HOUSE"
  | .fourOfAKind => "FOUR_OF_A_KIND"
  | .straightFlush => "STRAIGHT_FLUSH"
  | .royalFlush => "ROYAL_FLUSH"

/-- The loop over the combinations is written out again in the source; it
visits the index vectors of `generateCombinations` one by one. -/
def evaluate (σ : MapOrder) (cards : List Card) : Except Exn HandRank :=
  if cards.length < 5 ∨ 7 < cards.length then
    .error (.invalidArgument "Hand evaluation requires 5-7 cards")
  else if cards.length = 5 then evaluateFiveCards σ (toCardValues cards)
  else
    (generateCombinations (toCardValues cards)).foldlM (fun best combo => do
      let rank ← evaluateFiveCards σ combo
      pure (if best < rank then rank else best)) .highCard

def compare (σ : MapOrder) (hand1 hand2 : List Card) : Except Exn ℤ := do
  let (rank1, best1) ← evaluateBestFiveCards σ (toCardValues hand1)
  let (rank2, best2) ← evaluateBestFiveCards σ (toCardValues hand2)
  if rank1 ≠ rank2 then pure (rank1.toNat - rank2.toNat : ℤ)
  else pure (firstDifference (getComparisonKey σ best1 rank1) (getComparisonKey σ best2 rank2))

end HandRanking

end HeadsUp.Core
