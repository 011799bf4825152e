import HeadsUp.Core.BestHand

/-!
# The loop of `evaluate` (`core/hand_ranking.cpp`)

`HandRanking::evaluate` has an enumeration of its own: it rates each combination
as it reaches it and keeps the rank alone. It sees every choice of five that
`evaluateBestFiveCards` sees, and the two agree on the rank.
-/

namespace HeadsUp.Core
open HeadsUp.Lib

/-- The `while` loop of `evaluate` from `indices` on; `none` when the fuel runs
out before the last vector. -/
def evaluateLoop (σ : MapOrder) (cards : List CardValue) :
    ℕ → HandRank → List ℕ → Option (Except Exn HandRank)
  | 0, _, _ => none
  | fuel + 1, bestRank, indices =>
    match evaluateFiveCards σ (indices.map fun i => cards.getD i default) with
    | .error e => some (.error e)
    | .ok rank =>
      let bestRank := if bestRank < rank then rank else bestRank
      match nextCombination cards.length indices with
      | none => some (.ok bestRank)
      | some next => evaluateLoop σ cards fuel bestRank next

namespace HandRanking

/-- `HandRanking::evaluate` with its own loop; the fuel bounds the number of
vectors of five indices. -/
def evaluateInPlace (σ : MapOrder) (cards : List Card) : Option (Except Exn HandRank) :=
  if cards.length < 5 ∨ 7 < cards.length then
    some (.error (.invalidArgument "Hand evaluation requires 5-7 cards"))
  else if cards.length = 5 then some (evaluateFiveCards σ (toCardValues cards))
  else evaluateLoop σ (toCardValues cards) (cards.length ^ 5) .highCard (List.range' 0 5)

end HandRanking

/-! ### The loop visits every combination -/

def keepRank (σ : MapOrder) (best : HandRank) (combo : List CardValue) : Except Exn HandRank := do
  let rank ← evaluateFiveCards σ combo
  pure (if best < rank then rank else best)

section Loop
variable (σ : MapOrder) {cards : List CardValue}

/-- Along a chain of successors the loop is the fold over the combinations. -/
theorem evaluateLoop_follows {v : List ℕ} {rest : List (List ℕ)}
    (h : Follows cards.length (v :: rest)) {fuel : ℕ} (hfuel : rest.length < fuel)
    (best : HandRank) : evaluateLoop σ cards fuel best v
      = some (((v :: rest).map fun indices => indices.map fun i => cards.getD i default).foldlM
        (keepRank σ) best) := by
  revert best
  refine Follows.loop_induction (motive := fun fuel v rest => ∀ best,
    evaluateLoop σ cards fuel best v
      = some (((v :: rest).map fun indices => indices.map fun i => cards.getD i default).foldlM
        (keepRank σ) best)) ?_ ?_ h hfuel
  · intro fuel v hlast best
    rw [evaluateLoop, List.map_singleton, List.foldlM_cons, keepRank]
    cases evaluateFiveCards σ (v.map fun i => cards.getD i default) with
    | error e => rfl
    | ok rank =>
      simp only [hlast]
      rfl
  · intro fuel v w rest hnext ih best
    rw [evaluateLoop, List.map_cons, List.foldlM_cons, keepRank]
    cases evaluateFiveCards σ (v.map fun i => cards.getD i default) with
    | error e => rfl
    | ok rank =>
      simp only [hnext]
      exact ih _

theorem evaluateLoop_eq (h : 5 ≤ cards.length) :
    evaluateLoop σ cards (cards.length ^ 5) .highCard (List.range' 0 5)
      = some ((generateCombinations cards).foldlM (keepRank σ) .highCard) := by
  obtain ⟨rest, hchoices⟩ := choices_head h 0
  have hcount := length_choices 5 0 cards.length
  have hfuel : cards.length.choose 5 ≤ cards.length ^ 5 := Nat.choose_le_pow _ _
  rw [hchoices, List.length_cons] at hcount
  rw [generateCombinations, combinationLoop_eq h hfuel, Option.getD_some, hchoices]
  exact evaluateLoop_follows σ (hchoices ▸ choices_follows h (Nat.zero_add _)) (by omega) .highCard

theorem HandRanking.evaluateInPlace_eq (cards : List Card) :
    HandRanking.evaluateInPlace σ cards = some (HandRanking.evaluate σ cards) := by
  rw [HandRanking.evaluateInPlace, HandRanking.evaluate]
  split_ifs with hsize hfive
  · rfl
  · rfl
  · have hlen : (toCardValues cards).length = cards.length := List.length_map _
    rw [← hlen, evaluateLoop_eq σ (by omega)]
    rfl

end Loop

/-! ### The best of five -/

section Best
variable (σ : MapOrder)

/-- `r` is the greatest rank of five of the cards. -/
def IsBestRank (cards : List Card) (r : HandRank) : Prop :=
  IsGreatest {rank | ∃ five, FiveOf cards five ∧ evaluateFiveCards σ five = .ok rank} r

theorem evaluate_isBestRank (h : PokerCards) :
    ∃ r, HandRanking.evaluate σ h.cards = .ok r ∧ IsBestRank σ h.cards r := by
  obtain ⟨r, hr, ⟨five, hfive, hrank⟩, hmax⟩ := evaluate_spec σ h
  refine ⟨r, hr, ⟨five, hfive, ?_⟩, ?_⟩
  · rw [evaluateFiveCards_ok σ hfive.2, hrank]
  · intro rank hmem
    obtain ⟨other, hother, hok⟩ := hmem
    rw [evaluateFiveCards_ok σ hother.2] at hok
    rw [← Except.ok.inj hok]
    exact hmax other hother

theorem IsBestRank.congr (σ' : MapOrder) {cards cards' : List Card} (h : cards.Perm cards')
    {r : HandRank} (hr : IsBestRank σ cards r) : IsBestRank σ' cards' r := by
  have hset : {rank | ∃ five, FiveOf cards five ∧ evaluateFiveCards σ five = .ok rank}
      = {rank | ∃ five, FiveOf cards' five ∧ evaluateFiveCards σ' five = .ok rank} := by
    have hsame : ∀ five : List CardValue, five.length = 5 →
        evaluateFiveCards σ five = evaluateFiveCards σ' five := by
      intro five hlen
      rw [evaluateFiveCards_ok σ hlen, evaluateFiveCards_ok σ' hlen,
        rankOfFive_congr σ σ' (List.Perm.refl five)]
    ext rank
    constructor
    · intro hh
      obtain ⟨five, hfive, hok⟩ := hh
      exact ⟨five, hfive.congr h, (hsame five hfive.2) ▸ hok⟩
    · intro hh
      obtain ⟨five, hfive, hok⟩ := hh
      exact ⟨five, hfive.congr h.symm, (hsame five hfive.2).symm ▸ hok⟩
  rw [IsBestRank, ← hset]
  exact hr

theorem IsBestRank.mono {cards cards' : List Card} (h : cards.Subperm cards') {r r' : HandRank}
    (hr : IsBestRank σ cards r) (hr' : IsBestRank σ cards' r') : r ≤ r' := by
  obtain ⟨five, hfive, hok⟩ := hr.1
  obtain ⟨others, hperm, hsub⟩ := h
  exact hr'.2 ⟨five, (hfive.congr hperm.symm).mono hsub, hok⟩

/-- The rank of the five cards with the best key is the best rank. -/
theorem evaluateBestFiveCards_isBestRank (h : PokerCards) :
    ∃ r best, evaluateBestFiveCards σ (toCardValues h.cards) = .ok (r, best) ∧
      best.Sublist (toCardValues h.cards) ∧ best.length = 5 ∧
      evaluateFiveCards σ best = .ok r ∧ IsBestRank σ h.cards r := by
  obtain ⟨best, hbest, hsub, hlen, -, hkey⟩ := evaluateBestFiveCards_spec σ h
  have hok := evaluateFiveCards_ok σ hlen
  refine ⟨_, best, hbest, hsub, hlen, hok, ⟨best, .of_sublist hsub hlen, hok⟩, ?_⟩
  intro rank hh
  obtain ⟨five, hfive, hrank⟩ := hh
  rw [evaluateFiveCards_ok σ hfive.2] at hrank
  obtain rfl := Except.ok.inj hrank
  -- five of a higher rank would have a greater key
  refine not_lt.mp fun hlt => ?_
  have hgreater := (handKey_lt_iff σ hlen hfive.2).mpr (.inl hlt)
  exact absurd (hkey ⟨five, hfive, rfl⟩) (not_le.mpr hgreater)

/-- For five to seven cards both enumerations end, with the greatest rank of any
five of them. It is the same for every order of the cards and of the tables, no
lower for a hand with more cards, and `evaluateBestFiveCards` returns five of
the cards that have it. -/
theorem evaluate_best (h : PokerCards) :
    ∃ r best, HandRanking.evaluateInPlace σ h.cards = some (.ok r) ∧
      HandRanking.evaluate σ h.cards = .ok r ∧ IsBestRank σ h.cards r ∧
      (∀ (σ' : MapOrder) (cards' : List Card), h.cards.Perm cards' →
        HandRanking.evaluateInPlace σ' cards' = some (.ok r)) ∧
      (∀ cards' : List Card, h.cards.Subperm cards' → cards'.length ≤ 7 →
        ∃ r', HandRanking.evaluateInPlace σ cards' = some (.ok r') ∧ r ≤ r') ∧
      evaluateBestFiveCards σ (toCardValues h.cards) = .ok (r, best) ∧
      best.Sublist (toCardValues h.cards) ∧ best.length = 5 ∧
      evaluateFiveCards σ best = .ok r := by
  obtain ⟨r, hr, hbestRank⟩ := evaluate_isBestRank σ h
  obtain ⟨r', best, hbest, hsub, hlen, hok, hbestRank'⟩ := evaluateBestFiveCards_isBestRank σ h
  obtain rfl : r = r' := IsGreatest.unique hbestRank hbestRank'
  refine ⟨r, best, ?_, hr, hbestRank, ?_, ?_, hbest, hsub, hlen, hok⟩
  · rw [HandRanking.evaluateInPlace_eq, hr]
  · intro σ' cards' hperm
    have hsize : 5 ≤ cards'.length ∧ cards'.length ≤ 7 := hperm.length_eq ▸ h.property
    obtain ⟨r', hr', hgreatest⟩ := evaluate_isBestRank σ' ⟨cards', hsize⟩
    rw [HandRanking.evaluateInPlace_eq]
    refine congrArg some (hr'.trans (congrArg Except.ok ?_))
    exact IsGreatest.unique hgreatest (hbestRank.congr σ σ' hperm)
  · intro cards' hsubperm hle
    have hsize : 5 ≤ cards'.length ∧ cards'.length ≤ 7 :=
      ⟨h.property.1.trans hsubperm.length_le, hle⟩
    obtain ⟨r', hr', hgreatest⟩ := evaluate_isBestRank σ ⟨cards', hsize⟩
    refine ⟨r', ?_, hbestRank.mono σ hsubperm hgreatest⟩
    rw [HandRanking.evaluateInPlace_eq]
    exact congrArg some hr'

end Best
end HeadsUp.Core
