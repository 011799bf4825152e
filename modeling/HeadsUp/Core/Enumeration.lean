import HeadsUp.Core.HandRanking
import Mathlib.Data.Nat.Choose.Bounds

/-!
# The loop of `generateCombinations` (`core/hand_ranking.cpp`)

The loop with its index arithmetic written out and every read of the cards
checked. From five cards on it ends, stays inside the cards, and has visited
every choice of five positions once, in lexicographic order.
-/

namespace HeadsUp.Core
open HeadsUp.Lib

/-- Where a bounded run of the loop is: still going, at a read past the end of
the cards, or through. -/
inductive LoopEnd where
  | running
  | pastEnd
  | finished (combos : List (List CardValue))
  deriving DecidableEq

/-- At most `fuel` rounds of the `while` loop. -/
def combosLoop (cards : List CardValue) : ℕ → List ℕ → List (List CardValue) → LoopEnd
  | 0, _, _ => .running
  | fuel + 1, indices, combos =>
    match indices.mapM fun i => cards[i]? with
    | none => .pastEnd
    | some combo =>
      let combos := combos ++ [combo]
      match lastRaisable cards.length indices indices.length with
      | none => .finished combos
      | some i =>
        let raised := indices.set i (indices.getD i 0 + 1)
        combosLoop cards fuel (restart raised (i + 1) (indices.length - (i + 1))) combos

def cardsAt (cards : List CardValue) (indices : List ℕ) : List CardValue :=
  indices.map fun i => cards.getD i default

section Loop
variable {cards : List CardValue}

theorem mapM_cardsAt {indices : List ℕ} (h : ∀ i ∈ indices, i < cards.length) :
    (indices.mapM fun i => cards[i]?) = some (cardsAt cards indices) := by
  induction indices with
  | nil => rfl
  | cons i indices ih =>
    obtain ⟨hi, hrest⟩ := List.forall_mem_cons.mp h
    rw [List.mapM_cons, ih hrest, List.getElem?_eq_getElem hi]
    simp [cardsAt, List.getD_eq_getElem?_getD, hi]

/-- Along a chain of successors within the cards the loop reads them all. -/
theorem combosLoop_follows {v : List ℕ} {rest : List (List ℕ)}
    (h : Follows cards.length (v :: rest))
    (hbounds : ∀ w ∈ v :: rest, ∀ i ∈ w, i < cards.length) {fuel : ℕ} (hfuel : rest.length < fuel)
    (combos : List (List CardValue)) :
    combosLoop cards fuel v combos = .finished (combos ++ (v :: rest).map (cardsAt cards)) := by
  revert combos hbounds
  refine Follows.loop_induction (motive := fun fuel v rest =>
    (∀ w ∈ v :: rest, ∀ i ∈ w, i < cards.length) → ∀ combos,
      combosLoop cards fuel v combos = .finished (combos ++ (v :: rest).map (cardsAt cards)))
    ?_ ?_ h hfuel
  · intro fuel v hlast hbounds combos
    rw [nextCombination_eq_loops, Option.map_eq_none_iff] at hlast
    rw [combosLoop, mapM_cardsAt (hbounds v List.mem_cons_self)]
    simp [hlast]
  · intro fuel v w rest hnext ih hbounds combos
    rw [nextCombination_eq_loops, Option.map_eq_some_iff] at hnext
    obtain ⟨i, hi, rfl⟩ := hnext
    rw [combosLoop, mapM_cardsAt (hbounds v List.mem_cons_self)]
    simp only [hi]
    rw [ih fun w hw => hbounds w (List.mem_cons_of_mem _ hw)]
    simp

/-- From five cards on the loop ends without a read past the cards. The index
vectors it visits are all the increasing ones of five positions, each once and in
lexicographic order, and the result has the cards at each. -/
theorem generateCombinations_enumerates (h : 5 ≤ cards.length) :
    ∃ vectors : List (List ℕ),
      (∀ fuel, vectors.length ≤ fuel →
        combinationLoop cards.length fuel (List.range' 0 5) = some vectors ∧
        combosLoop cards fuel (List.range' 0 5) [] = .finished (generateCombinations cards)) ∧
      generateCombinations cards = vectors.map (cardsAt cards) ∧
      (∀ v, v ∈ vectors ↔ v.length = 5 ∧ v.Pairwise (· < ·) ∧ ∀ i ∈ v, i < cards.length) ∧
      vectors.Nodup ∧ vectors.Pairwise (· < ·) ∧ vectors.length = cards.length.choose 5 := by
  have hcount := length_choices 5 0 cards.length
  have hmem : ∀ v, v ∈ choices 5 0 cards.length ↔
      v.length = 5 ∧ v.Pairwise (· < ·) ∧ ∀ i ∈ v, i < cards.length := by
    intro v
    simp only [mem_choices_iff, Nat.zero_le, true_and, Nat.zero_add]
  have hcombos : generateCombinations cards
      = (choices 5 0 cards.length).map (cardsAt cards) := by
    rw [generateCombinations, combinationLoop_eq h (Nat.choose_le_pow _ _), Option.getD_some]
    rfl
  refine ⟨choices 5 0 cards.length, fun fuel hfuel => ⟨?_, ?_⟩, hcombos, hmem,
    choices_nodup 5 0 _, choices_sorted 5 0 _, hcount⟩
  · exact combinationLoop_eq h (hcount ▸ hfuel)
  · obtain ⟨rest, hchoices⟩ := choices_head h 0
    have hchain := choices_follows h (Nat.zero_add cards.length)
    rw [hchoices] at hchain hfuel hmem
    rw [hcombos, hchoices]
    exact combosLoop_follows hchain (fun v hv => ((hmem v).mp hv).2.2) hfuel []

end Loop

theorem generateCombinations_enumerates_six :
    let cards := toCardValues (createStandardDeck.take 6)
    ∃ vectors : List (List ℕ),
      (∀ fuel, vectors.length ≤ fuel →
        combinationLoop cards.length fuel (List.range' 0 5) = some vectors ∧
        combosLoop cards fuel (List.range' 0 5) [] = .finished (generateCombinations cards)) ∧
      generateCombinations cards = vectors.map (cardsAt cards) ∧
      (∀ v, v ∈ vectors ↔ v.length = 5 ∧ v.Pairwise (· < ·) ∧ ∀ i ∈ v, i < cards.length) ∧
      vectors.Nodup ∧ vectors.Pairwise (· < ·) ∧ vectors.length = cards.length.choose 5 :=
  generateCombinations_enumerates (by decide)

end HeadsUp.Core
