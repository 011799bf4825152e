import HeadsUp.Core.Categories
import HeadsUp.Core.BestHand

/-!
# The suits are equals

No suit outranks another: whatever the suits of a hand are exchanged for, one for
one, it has the same category and compares the same with every other hand.
-/

namespace HeadsUp.Core
open HeadsUp.Lib

/-- The card of the same rank in another suit. -/
def Card.relabel (f : Suit → Suit) (c : Card) : Card := .ofRankSuit c.rank (f c.suit)

@[simp] theorem rank_relabel (f : Suit → Suit) (c : Card) : (c.relabel f).rank = c.rank :=
  Card.rank_ofRankSuit _ _

@[simp] theorem suit_relabel (f : Suit → Suit) (c : Card) : (c.relabel f).suit = f c.suit :=
  Card.suit_ofRankSuit _ _

section Five
variable (f : Equiv.Perm Suit) {five : List Card}

theorem sortedRanks_relabel (five : List Card) :
    sortedRanks (toCardValues (five.map (Card.relabel f))) = sortedRanks (toCardValues five) := by
  have hranks : (toCardValues (five.map (Card.relabel f))).map CardValue.rank
      = (toCardValues five).map CardValue.rank := by
    simp only [toCardValues, List.map_map]
    refine List.map_congr_left fun c _ => ?_
    simp [toCardValue]
  rw [sortedRanks, sortedRanks, hranks]

theorem oneSuit_relabel : OneSuit (five.map (Card.relabel f)) ↔ OneSuit five := by
  constructor
  · intro hh
    obtain ⟨s, hs⟩ := hh
    refine ⟨f.symm s, fun c hc => ?_⟩
    have hsuit := hs _ (List.mem_map_of_mem hc)
    rw [suit_relabel] at hsuit
    exact (f.symm_apply_eq.mpr hsuit.symm).symm
  · intro hh
    obtain ⟨s, hs⟩ := hh
    refine ⟨f s, fun c hc => ?_⟩
    obtain ⟨d, hd, rfl⟩ := List.mem_map.mp hc
    rw [suit_relabel, hs d hd]

variable (σ : MapOrder)

theorem rankOfFive_relabel (h5 : five.length = 5) :
    rankOfFive σ (toCardValues (five.map (Card.relabel f))) = rankOfFive σ (toCardValues five) := by
  have hlen : ∀ l : List Card, l.length = 5 → (toCardValues l).length = 5 := fun l hl =>
    (List.length_map _).trans hl
  have hmap : (five.map (Card.relabel f)).length = 5 := (List.length_map _).trans h5
  have hflush : isFlush σ (toCardValues (five.map (Card.relabel f)))
      = isFlush σ (toCardValues five) := by
    rw [Bool.eq_iff_iff, isFlush_iff σ (hlen _ hmap), isFlush_iff σ (hlen _ h5),
      ← oneSuit_iff (List.ne_nil_of_length_eq_add_one hmap),
      ← oneSuit_iff (List.ne_nil_of_length_eq_add_one h5), oneSuit_relabel]
  rw [rankOfFive, rankOfFive, rankCounts, rankCounts, hflush, sortedRanks_relabel]

theorem handKey_relabel (h5 : five.length = 5) :
    handKey σ (toCardValues (five.map (Card.relabel f))) = handKey σ (toCardValues five) := by
  rw [handKey, handKey, getComparisonKey, getComparisonKey, rankCounts, rankCounts,
    rankOfFive_relabel f σ h5, sortedRanks_relabel]

end Five

/-! ### The best five -/

section Best
variable (f : Equiv.Perm Suit) {cards : List Card}

theorem length_relabel : (cards.map (Card.relabel f)).length = cards.length := List.length_map _

/-- A choice of five card values is, up to its order, five of the cards. -/
theorem fiveOf_iff {five : List CardValue} : FiveOf cards five ↔
    ∃ chosen : List Card, chosen.Sublist cards ∧ chosen.length = 5 ∧
      (toCardValues chosen).Perm five := by
  constructor
  · intro hh
    obtain ⟨⟨picked, hperm, hsub⟩, h5⟩ := hh
    obtain ⟨chosen, hchosen, rfl⟩ := List.sublist_map_iff.mp hsub
    refine ⟨chosen, hchosen, ?_, hperm⟩
    rw [← h5, ← hperm.length_eq, List.length_map]
  · intro hh
    obtain ⟨chosen, hchosen, h5, hperm⟩ := hh
    refine ⟨⟨_, hperm, hchosen.map toCardValue⟩, ?_⟩
    rw [← hperm.length_eq, toCardValues, List.length_map, h5]

theorem relabel_symm (cards : List Card) :
    (cards.map (Card.relabel f)).map (Card.relabel f.symm) = cards := by
  rw [List.map_map]
  refine (List.map_congr_left fun c _ => ?_).trans (List.map_id cards)
  refine Card.eq_of_rank_suit ?_ ?_ <;> simp

variable (σ : MapOrder)

theorem exists_five_relabel {five : List CardValue} (h : FiveOf cards five) :
    ∃ five', FiveOf (cards.map (Card.relabel f)) five' ∧
      rankOfFive σ five' = rankOfFive σ five ∧ handKey σ five' = handKey σ five := by
  obtain ⟨chosen, hsub, h5, hperm⟩ := fiveOf_iff.mp h
  have hlen : (toCardValues chosen).length = 5 := (List.length_map _).trans h5
  refine ⟨toCardValues (chosen.map (Card.relabel f)), fiveOf_iff.mpr
    ⟨_, hsub.map _, (List.length_map _).trans h5, .refl _⟩, ?_, ?_⟩
  · rw [rankOfFive_relabel f σ h5, rankOfFive_congr σ σ hperm]
  · rw [handKey_relabel f σ h5, handKey_congr σ σ hperm hlen]

theorem exists_five_of_relabel {five : List CardValue}
    (h : FiveOf (cards.map (Card.relabel f)) five) :
    ∃ five', FiveOf cards five' ∧
      rankOfFive σ five' = rankOfFive σ five ∧ handKey σ five' = handKey σ five := by
  have hback := exists_five_relabel f.symm σ h
  rwa [relabel_symm] at hback

theorem IsBestKey.relabel {k : Key} (h : IsBestKey σ cards k) :
    IsBestKey σ (cards.map (Card.relabel f)) k := by
  obtain ⟨⟨five, hfive, rfl⟩, hmax⟩ := h
  obtain ⟨five', hfive', -, hkey⟩ := exists_five_relabel f σ hfive
  refine ⟨⟨five', hfive', hkey.symm⟩, ?_⟩
  intro v hh
  obtain ⟨other, hother, rfl⟩ := hh
  obtain ⟨back, hback, -, hsame⟩ := exists_five_of_relabel f σ hother
  exact hsame ▸ hmax ⟨back, hback, rfl⟩

end Best

/-- The hand with its suits exchanged. -/
def PokerCards.relabel (f : Equiv.Perm Suit) (h : PokerCards) : PokerCards :=
  ⟨h.cards.map (Card.relabel f), by rw [length_relabel]; exact h.property⟩

theorem evaluate_relabel (σ σ' : MapOrder) (f : Equiv.Perm Suit) (h : PokerCards) :
    HandRanking.evaluate σ' (h.relabel f).cards = HandRanking.evaluate σ h.cards := by
  obtain ⟨r, hr, ⟨five, hfive, hrank⟩, hle⟩ := evaluate_spec σ h
  obtain ⟨r', hr', ⟨five', hfive', hrank'⟩, hle'⟩ := evaluate_spec σ' (h.relabel f)
  rw [hr, hr']
  -- each rank is that of a choice the other hand has as well
  obtain ⟨image, himage, himagerank, -⟩ := exists_five_relabel f σ' hfive
  obtain ⟨back, hback, hbackrank, -⟩ := exists_five_of_relabel f σ hfive'
  have hge : r ≤ r' := by
    have hsame := rankOfFive_congr σ σ' (List.Perm.refl five)
    rw [← hrank, hsame, ← himagerank]
    exact hle' image himage
  have hlt : r' ≤ r := by
    have hsame := rankOfFive_congr σ' σ (List.Perm.refl five')
    rw [← hrank', hsame, ← hbackrank]
    exact hle back hback
  rw [le_antisymm hlt hge]

/-- Whatever suits two hands of five to seven cards have theirs exchanged for, each
its own way, `evaluate` gives them the same ranks and `compare` the same sign. -/
theorem suits_are_equal (σ σ' : MapOrder) (f g : Equiv.Perm Suit) (a b : PokerCards) :
    HandRanking.evaluate σ' (a.cards.map (Card.relabel f)) = HandRanking.evaluate σ a.cards ∧
      ∃ x y, HandRanking.compare σ a.cards b.cards = .ok x ∧
        HandRanking.compare σ' (a.cards.map (Card.relabel f)) (b.cards.map (Card.relabel g))
          = .ok y ∧ x.sign = y.sign := by
  have hka := bestKey_spec σ a
  have hkb := bestKey_spec σ b
  obtain ⟨x, hx, sx⟩ := compare_spec σ hka hkb
  obtain ⟨y, hy, sy⟩ := compare_spec σ' (a := a.relabel f) (b := b.relabel g)
    ((hka.relabel f σ).congr σ σ' (.refl _)) ((hkb.relabel g σ).congr σ σ' (.refl _))
  refine ⟨evaluate_relabel σ σ' f a, x, y, hx, hy, ?_⟩
  exact sign_eq_of_cmp (sx.trans sy.symm)

end HeadsUp.Core
