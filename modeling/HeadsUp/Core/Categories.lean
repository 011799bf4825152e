import HeadsUp.Core.PokerRules
import Mathlib.Data.List.Count

/-!
# The categories of poker

What it takes to hold a pair, a straight, a flush, said of the cards alone. The
categories overlap, and a hand counts as the highest it satisfies.
-/

namespace HeadsUp.Core
open HeadsUp.Lib

/-! ### The rules -/

def ranksOf (cards : List Card) : List Rank := cards.map Card.rank

def OneSuit (cards : List Card) : Prop := ∃ s : Suit, ∀ c ∈ cards, c.suit = s

def rankValue (r : Rank) : ℤ := r.toFin.val

/-- Five consecutive ranks, lowest first; the ace counts below the two as well. -/
def IsRun (run : List Rank) : Prop :=
  run = [.ace, .two, .three, .four, .five] ∨
    ∃ low : ℤ, run.map rankValue = [low, low + 1, low + 2, low + 3, low + 4]

def Consecutive (cards : List Card) : Prop := ∃ run, IsRun run ∧ (ranksOf cards).Perm run

/-- `n` cards of one rank. -/
def OfAKind (n : ℕ) (cards : List Card) : Prop := ∃ r, n ≤ (ranksOf cards).count r

/-- `m` cards of one rank and `n` of another. -/
def TwoKinds (m n : ℕ) (cards : List Card) : Prop :=
  ∃ r s, r ≠ s ∧ m ≤ (ranksOf cards).count r ∧ n ≤ (ranksOf cards).count s

def Satisfies (cards : List Card) : HandRank → Prop
  | .royalFlush => OneSuit cards ∧ (ranksOf cards).Perm [.ten, .jack, .queen, .king, .ace]
  | .straightFlush => OneSuit cards ∧ Consecutive cards
  | .fourOfAKind => OfAKind 4 cards
  | .fullHouse => TwoKinds 3 2 cards
  | .flush => OneSuit cards
  | .straight => Consecutive cards
  | .threeOfAKind => OfAKind 3 cards
  | .twoPair => TwoKinds 2 2 cards
  | .onePair => OfAKind 2 cards
  | .highCard => True

/-! ### Suits and ranks of the card values -/

theorem rankValue_injective : Function.Injective rankValue := by
  intro r s h
  rw [← Rank.ofFin_toFin r, ← Rank.ofFin_toFin s, Fin.ext (Int.ofNat_inj.mp h)]

theorem ranks_toCardValues (cards : List Card) :
    (toCardValues cards).map CardValue.rank = (ranksOf cards).map rankValue := by
  rw [toCardValues, ranksOf, List.map_map, List.map_map]
  rfl

theorem oneSuit_iff {cards : List Card} (hne : cards ≠ []) :
    OneSuit cards ↔ SameSuit (toCardValues cards) := by
  have hinj : ∀ c d : Card, (toCardValue c).suit = (toCardValue d).suit → c.suit = d.suit := by
    intro c d h
    rw [← Suit.ofFin_toFin c.suit, ← Suit.ofFin_toFin d.suit, Fin.ext (Int.ofNat_inj.mp h)]
  constructor
  · intro hh
    obtain ⟨s, hs⟩ := hh
    intro x hx y hy
    obtain ⟨c, hc, rfl⟩ := List.mem_map.mp hx
    obtain ⟨d, hd, rfl⟩ := List.mem_map.mp hy
    rw [toCardValue, toCardValue, hs c hc, hs d hd]
  · intro hsame
    obtain ⟨c, hc⟩ := List.exists_mem_of_ne_nil cards hne
    refine ⟨c.suit, fun d hd => hinj d c ?_⟩
    exact hsame _ (List.mem_map_of_mem hd) _ (List.mem_map_of_mem hc)

/-! ### Straights -/

theorem exists_perm_of_map_perm {α β : Type*} {f : α → β} {l : List α} {m : List β}
    (hf : Function.Injective f) (h : (l.map f).Perm m) : ∃ l', l.Perm l' ∧ l'.map f = m := by
  rcases l.eq_nil_or_concat with rfl | ⟨init, last, hl⟩
  · exact ⟨[], .refl _, (List.nil_perm.mp h).symm⟩
  · have : Nonempty α := ⟨last⟩
    obtain ⟨g, hg⟩ := hf.hasLeftInverse
    have hback : (l.map f).map g = l := by
      rw [List.map_map, hg.comp_eq_id, List.map_id]
    refine ⟨m.map g, hback ▸ h.map g, ?_⟩
    rw [List.map_map]
    refine (List.map_congr_left fun x hx => ?_).trans (List.map_id m)
    obtain ⟨y, -, rfl⟩ := List.mem_map.mp (h.mem_iff.mpr hx)
    exact congrArg f (hg y)

theorem sortedRanks_eq_iff {cards : List Card} {run : List Rank} {top : List ℤ}
    (hrun : (run.map rankValue).Perm top) (htop : top.Pairwise (· ≥ ·)) :
    sortedRanks (toCardValues cards) = top ↔ (ranksOf cards).Perm run := by
  rw [sortedRanks, ranks_toCardValues]
  constructor
  · intro hsorted
    have hperm := (sortDescending_perm ((ranksOf cards).map rankValue)).symm
    rw [hsorted] at hperm
    exact (List.map_perm_map_iff rankValue_injective).mp (hperm.trans hrun.symm)
  · intro hperm
    exact sortDescending_eq ((hperm.map rankValue).trans hrun) htop

theorem ascending_reverse (low : ℤ) : [low, low + 1, low + 2, low + 3, low + 4].reverse
    = [low + 4, low + 4 - 1, low + 4 - 2, low + 4 - 3, low + 4 - 4] := by
  simp
  omega

theorem consecutive_iff {cards : List Card} :
    Consecutive cards ↔ ∃ t, straightTop (toCardValues cards) = some t := by
  constructor
  · intro hh
    obtain ⟨run, hrun, hperm⟩ := hh
    rcases hrun with rfl | ⟨low, hlow⟩
    · have hsorted : sortedRanks (toCardValues cards) = [12, 3, 2, 1, 0] :=
        (sortedRanks_eq_iff (by decide) (by decide)).mpr hperm
      exact ⟨3, straightTop_eq_some.mpr (.inl ⟨hsorted, rfl⟩)⟩
    · have hrev := ascending_reverse low
      have hsorted : sortedRanks (toCardValues cards)
          = [low + 4, low + 4 - 1, low + 4 - 2, low + 4 - 3, low + 4 - 4] := by
        refine (sortedRanks_eq_iff ?_ (by simp; omega)).mpr hperm
        rw [hlow, ← hrev]
        exact (List.reverse_perm _).symm
      exact ⟨low + 4, straightTop_eq_some.mpr (.inr hsorted)⟩
  · intro hh
    obtain ⟨t, ht⟩ := hh
    rcases straightTop_eq_some.mp ht with ⟨hsorted, -⟩ | hsorted
    · exact ⟨_, .inl rfl, (sortedRanks_eq_iff (by decide) (by decide)).mp hsorted⟩
    · have hperm : ((ranksOf cards).map rankValue).Perm
          [t - 4, t - 4 + 1, t - 4 + 2, t - 4 + 3, t - 4 + 4] := by
        have hrev := ascending_reverse (t - 4)
        have htop : t - 4 + 4 = t := by omega
        rw [htop] at hrev ⊢
        rw [sortedRanks, ranks_toCardValues] at hsorted
        refine (sortDescending_perm _).symm.trans ?_
        rw [hsorted, ← hrev]
        exact List.reverse_perm _
      obtain ⟨run, hrun, hmap⟩ := exists_perm_of_map_perm rankValue_injective hperm
      exact ⟨run, .inr ⟨t - 4, hmap⟩, hrun⟩

theorem royal_ranks_iff {cards : List Card} :
    (ranksOf cards).Perm [.ten, .jack, .queen, .king, .ace] ↔
      straightTop (toCardValues cards) = some 12 := by
  have hsorted : sortedRanks (toCardValues cards) = [12, 11, 10, 9, 8] ↔
      (ranksOf cards).Perm [.ten, .jack, .queen, .king, .ace] :=
    sortedRanks_eq_iff (by decide) (by decide)
  rw [← hsorted, straightTop_eq_some]
  constructor
  · exact fun h => .inr h
  · intro hh
    rcases hh with ⟨-, hno⟩ | h
    · exact absurd hno (by decide)
    · exact h

/-! ### Cards of one rank -/

section Counts
variable {cards : List Card}

theorem count_rankValue (r : Rank) : ((toCardValues cards).map CardValue.rank).count (rankValue r)
    = (ranksOf cards).count r := by
  rw [ranks_toCardValues]
  exact List.count_map_of_injective _ _ rankValue_injective r

theorem exists_rank_of_count {x : ℤ} {n : ℕ} (hn : 0 < n)
    (h : n ≤ ((toCardValues cards).map CardValue.rank).count x) : ∃ r, rankValue r = x := by
  have hmem := List.count_pos_iff.mp (hn.trans_le h)
  rw [ranks_toCardValues] at hmem
  obtain ⟨r, -, hr⟩ := List.mem_map.mp hmem
  exact ⟨r, hr⟩

theorem exists_group_of_count {l : List ℤ} {x : ℤ} (h : 0 < l.count x) :
    ∃ e ∈ groups l, e.1 = x ∧ e.2 = l.count x := by
  have hmem : x ∈ expand (groups l) :=
    (expand_groups_perm l).mem_iff.mpr (List.count_pos_iff.mp h)
  obtain ⟨e, he, hx⟩ := List.mem_flatMap.mp hmem
  obtain rfl := List.eq_of_mem_replicate hx
  exact ⟨e, he, rfl, groups_count he⟩

theorem ofAKind_iff {n : ℕ} (hn : 0 < n) :
    OfAKind n cards ↔ ∃ e ∈ groups ((toCardValues cards).map CardValue.rank), n ≤ e.2 := by
  constructor
  · intro hh
    obtain ⟨r, hr⟩ := hh
    rw [← count_rankValue] at hr
    obtain ⟨e, he, -, hcount⟩ := exists_group_of_count (hn.trans_le hr)
    exact ⟨e, he, hcount ▸ hr⟩
  · intro hh
    obtain ⟨e, he, hle⟩ := hh
    rw [groups_count he] at hle
    obtain ⟨r, hr⟩ := exists_rank_of_count hn hle
    exact ⟨r, by rwa [← count_rankValue, hr]⟩

theorem twoKinds_iff {m n : ℕ} (hm : 0 < m) (hn : 0 < n) :
    TwoKinds m n cards ↔ ∃ e ∈ groups ((toCardValues cards).map CardValue.rank),
      ∃ f ∈ groups ((toCardValues cards).map CardValue.rank), e.1 ≠ f.1 ∧ m ≤ e.2 ∧ n ≤ f.2 := by
  constructor
  · intro hh
    obtain ⟨r, s, hne, hr, hs⟩ := hh
    rw [← count_rankValue] at hr hs
    obtain ⟨e, he, hex, hecount⟩ := exists_group_of_count (hm.trans_le hr)
    obtain ⟨f, hf, hfx, hfcount⟩ := exists_group_of_count (hn.trans_le hs)
    refine ⟨e, he, f, hf, ?_, hecount ▸ hr, hfcount ▸ hs⟩
    rw [hex, hfx]
    exact fun hsame => hne (rankValue_injective hsame)
  · intro hh
    obtain ⟨e, he, f, hf, hne, hle, hlf⟩ := hh
    rw [groups_count he] at hle
    rw [groups_count hf] at hlf
    obtain ⟨r, hr⟩ := exists_rank_of_count hm hle
    obtain ⟨s, hs⟩ := exists_rank_of_count hn hlf
    refine ⟨r, s, ?_, by rwa [← count_rankValue, hr], by rwa [← count_rankValue, hs]⟩
    rintro rfl
    exact hne (hr.symm.trans hs)

end Counts

/-- No five different cards have one rank: there are four suits. -/
theorem count_rank_le_four {cards : List Card} (hnd : cards.Nodup) (r : Rank) :
    (ranksOf cards).count r ≤ 4 := by
  have hcount : (ranksOf cards).count r
      = ((cards.filter fun c => decide (c.rank = r)).map Card.suit).length := by
    rw [ranksOf, List.length_map, List.count, List.countP_map, List.countP_eq_length_filter]
    rfl
  have hsuits : ((cards.filter fun c => decide (c.rank = r)).map Card.suit).Nodup := by
    refine (hnd.filter _).map_on fun c hc d hd hsuit => ?_
    have hc' : c.rank = r := by simpa using (List.mem_filter.mp hc).2
    have hd' : d.rank = r := by simpa using (List.mem_filter.mp hd).2
    exact Card.eq_of_rank_suit (hc'.trans hd'.symm) hsuit
  have hall : (cards.filter fun c => decide (c.rank = r)).map Card.suit
      ⊆ [.clubs, .diamonds, .hearts, .spades] := by
    intro s _
    cases s <;> decide
  rw [hcount]
  exact (hsuits.subperm hall).length_le

/-! ### The highest category -/

/-- The categories in terms of the flush, the top of the straight and the groups
of equal ranks. -/
def Holds (flush : Prop) (top : Option ℤ) (g : List (Σ _ : ℤ, ℕ)) : HandRank → Prop
  | .royalFlush => flush ∧ top = some 12
  | .straightFlush => flush ∧ ∃ t, top = some t
  | .fourOfAKind => ∃ e ∈ g, 4 ≤ e.2
  | .fullHouse => ∃ e ∈ g, ∃ f ∈ g, e.1 ≠ f.1 ∧ 3 ≤ e.2 ∧ 2 ≤ f.2
  | .flush => flush
  | .straight => ∃ t, top = some t
  | .threeOfAKind => ∃ e ∈ g, 3 ≤ e.2
  | .twoPair => ∃ e ∈ g, ∃ f ∈ g, e.1 ≠ f.1 ∧ 2 ≤ e.2 ∧ 2 ≤ f.2
  | .onePair => ∃ e ∈ g, 2 ≤ e.2
  | .highCard => True

theorem satisfies_iff {cards : List Card} (hne : cards ≠ []) (rank : HandRank) :
    Satisfies cards rank ↔ Holds (SameSuit (toCardValues cards))
      (straightTop (toCardValues cards)) (groups ((toCardValues cards).map CardValue.rank)) rank := by
  cases rank with
  | royalFlush => exact and_congr (oneSuit_iff hne) royal_ranks_iff
  | straightFlush => exact and_congr (oneSuit_iff hne) consecutive_iff
  | fourOfAKind => exact ofAKind_iff (by decide)
  | fullHouse => exact twoKinds_iff (by decide) (by decide)
  | flush => exact oneSuit_iff hne
  | straight => exact consecutive_iff
  | threeOfAKind => exact ofAKind_iff (by decide)
  | twoPair => exact twoKinds_iff (by decide) (by decide)
  | onePair => exact ofAKind_iff (by decide)
  | highCard => exact Iff.rfl

theorem greatest_of_above {P : HandRank → Prop} {c r : HandRank} (hc : c = r) (h : P r)
    (habove : ∀ rank, r.toNat < rank.toNat → ¬P rank) : IsGreatest {rank | P rank} c := by
  subst hc
  refine ⟨h, fun rank hrank => not_lt.mp fun hlt => ?_⟩
  exact habove rank (HandRank.lt_iff.mp hlt) hrank

/-- Without a straight, four of a kind or a full house a flush is the highest. -/
theorem flush_greatest {flush : Prop} {g : List (Σ _ : ℤ, ℕ)} {c : HandRank} (hc : c = .flush)
    (hflush : flush) (hfour : ¬Holds flush none g .fourOfAKind)
    (hfull : ¬Holds flush none g .fullHouse) : IsGreatest {rank | Holds flush none g rank} c := by
  refine greatest_of_above hc hflush fun rank hlt => ?_
  cases rank with
  | royalFlush => simp [Holds]
  | straightFlush => simp [Holds]
  | fourOfAKind => exact hfour
  | fullHouse => exact hfull
  | _ => simp [HandRank.toNat] at hlt

/-- The rules' category is the greatest that holds: one shape of the groups at a
time. -/
theorem category_greatest {five : List CardValue} (h5 : five.length = 5)
    (hfour : ∀ e ∈ groups (five.map CardValue.rank), e.2 ≤ 4) :
    IsGreatest {rank | Holds (SameSuit five) (straightTop five)
      (groups (five.map CardValue.rank)) rank} (category five) := by
  have hg := fiveGroups (five.map CardValue.rank) (by rw [List.length_map, h5])
  have hst : ∀ t, straightTop five = some t → Distinct (groups (five.map CardValue.rank)) := by
    intro t ht
    rw [← groups_sortedRanks]
    exact straight_distinct ((sortedRanks_length five).trans h5) (sortedRanks_sorted five)
      ((isStraight_iff_straightTop h5).mpr ⟨t, ht⟩)
  unfold category sizes
  generalize straightTop five = top at hst ⊢
  generalize groups (five.map CardValue.rank) = g at hg hfour hst ⊢
  have hnone : ∀ e ∈ g, e.2 ≠ 1 → top = none := by
    intro e he hne
    cases top with
    | none => rfl
    | some t => exact absurd (hst t rfl e he) hne
  cases hg with
  | five a => exact absurd (hfour ⟨a, 5⟩ (by simp)) (by simp)
  | @quads a b hab =>
    obtain rfl := hnone ⟨a, 4⟩ (by simp) (by simp)
    refine greatest_of_above (r := .fourOfAKind) (by simp) (by simp [Holds]) fun rank hlt => ?_
    cases rank <;> simp [Holds, HandRank.toNat] at hlt ⊢
  | @full a b hab =>
    obtain rfl := hnone ⟨a, 3⟩ (by simp) (by simp)
    refine greatest_of_above (r := .fullHouse) (by simp) (by simp [Holds, hab]) fun rank hlt => ?_
    cases rank <;> simp [Holds, HandRank.toNat] at hlt ⊢
  | @trips t a b hta htb hab =>
    obtain rfl := hnone ⟨t, 3⟩ (by simp) (by simp)
    by_cases hs : SameSuit five
    · exact flush_greatest (by simp [hs]) hs (by simp [Holds]) (by simp [Holds])
    · refine greatest_of_above (r := .threeOfAKind) (by simp [hs]) (by simp [Holds])
        fun rank hlt => ?_
      cases rank <;> simp [Holds, hs, HandRank.toNat] at hlt ⊢
  | @twoPair a b k hab hak hbk =>
    obtain rfl := hnone ⟨a, 2⟩ (by simp) (by simp)
    by_cases hs : SameSuit five
    · exact flush_greatest (by simp [hs]) hs (by simp [Holds]) (by simp [Holds])
    · refine greatest_of_above (r := .twoPair) (by simp [hs]) (by simp [Holds, hab.ne'])
        fun rank hlt => ?_
      cases rank <;> simp [Holds, hs, HandRank.toNat] at hlt ⊢
  | @pair p a b c hpa hpb hpc hab hbc =>
    obtain rfl := hnone ⟨p, 2⟩ (by simp) (by simp)
    by_cases hs : SameSuit five
    · exact flush_greatest (by simp [hs]) hs (by simp [Holds]) (by simp [Holds])
    · refine greatest_of_above (r := .onePair) (by simp [hs]) (by simp [Holds]) fun rank hlt => ?_
      cases rank <;> simp [Holds, hs, HandRank.toNat] at hlt ⊢
  | high hab hbc hcd hde =>
    by_cases hs : SameSuit five
    · by_cases hroyal : top = some 12
      · refine greatest_of_above (r := .royalFlush) (by simp [hs, hroyal])
          (by simp [Holds, hs, hroyal]) fun rank hlt => ?_
        cases rank <;> simp [HandRank.toNat] at hlt
      · cases top with
        | some t =>
          refine greatest_of_above (r := .straightFlush) (by simp_all) (by simp [Holds, hs])
            fun rank hlt => ?_
          cases rank <;> simp_all [Holds, HandRank.toNat]
        | none => exact flush_greatest (by simp [hs]) hs (by simp [Holds]) (by simp [Holds])
    · cases top with
      | some t =>
        refine greatest_of_above (r := .straight) (by simp [hs]) (by simp [Holds])
          fun rank hlt => ?_
        cases rank <;> simp [Holds, hs, HandRank.toNat] at hlt ⊢
      | none =>
        refine greatest_of_above (r := .highCard) (by simp [hs]) trivial fun rank hlt => ?_
        cases rank <;> simp [Holds, hs, HandRank.toNat] at hlt ⊢

/-- For any five different cards, in any order, `evaluateFiveCards` returns the
highest category they satisfy. -/
theorem evaluateFiveCards_greatest (σ : MapOrder) (cards : List Card) (h5 : cards.length = 5)
    (hnd : cards.Nodup) : ∃ rank, evaluateFiveCards σ (toCardValues cards) = .ok rank ∧
      IsGreatest {r | Satisfies cards r} rank := by
  have hlen : (toCardValues cards).length = 5 := (List.length_map _).trans h5
  have hne : cards ≠ [] := List.ne_nil_of_length_eq_add_one h5
  refine ⟨_, evaluateFiveCards_ok σ hlen, ?_⟩
  have hset : {r | Satisfies cards r} = {r | Holds (SameSuit (toCardValues cards))
      (straightTop (toCardValues cards))
      (groups ((toCardValues cards).map CardValue.rank)) r} :=
    Set.ext fun r => satisfies_iff hne r
  rw [rankOfFive_eq_category σ hlen, hset]
  refine category_greatest hlen fun e he => ?_
  -- a group is the cards of one rank
  have hcount := groups_count he
  have hpos := groups_pos _ e he
  rw [hcount] at hpos ⊢
  obtain ⟨r, hr⟩ := exists_rank_of_count hpos (le_refl _)
  rw [← hr, count_rankValue]
  exact count_rank_le_four hnd r

/-- Five to ace, the ace low, in no particular order. -/
theorem evaluateFiveCards_greatest_wheel :
    IsGreatest {r | Satisfies [.ofRankSuit .three .clubs, .ofRankSuit .ace .hearts,
      .ofRankSuit .five .spades, .ofRankSuit .two .clubs, .ofRankSuit .four .diamonds] r}
      .straight := by
  obtain ⟨rank, hok, hgreatest⟩ := evaluateFiveCards_greatest (Shuffle.refl _)
    [.ofRankSuit .three .clubs, .ofRankSuit .ace .hearts, .ofRankSuit .five .spades,
      .ofRankSuit .two .clubs, .ofRankSuit .four .diamonds] (by decide) (by decide)
  obtain rfl : HandRank.straight = rank := Except.ok.inj (Eq.trans (by decide) hok)
  exact hgreatest

end HeadsUp.Core
