import HeadsUp.Core.HandRanking
import Mathlib.Algebra.Order.BigOperators.Group.List

/-!
# Five cards: rank and key by groups of equal ranks

The multiplicities of five ranks are one of the seven partitions of five. In
each of them the evaluator's tests and its key come out in closed form, the
same for every iteration order of the tables and every order of the cards.
-/

namespace HeadsUp.Core
open HeadsUp.Lib

inductive FiveGroups : List (Σ _ : ℤ, ℕ) → Prop
  | five (a : ℤ) : FiveGroups [⟨a, 5⟩]
  | quads {a b : ℤ} (hab : a ≠ b) : FiveGroups [⟨a, 4⟩, ⟨b, 1⟩]
  | full {a b : ℤ} (hab : a ≠ b) : FiveGroups [⟨a, 3⟩, ⟨b, 2⟩]
  | trips {t a b : ℤ} (hta : t ≠ a) (htb : t ≠ b) (hab : b < a) :
      FiveGroups [⟨t, 3⟩, ⟨a, 1⟩, ⟨b, 1⟩]
  | twoPair {a b k : ℤ} (hab : b < a) (hak : a ≠ k) (hbk : b ≠ k) :
      FiveGroups [⟨a, 2⟩, ⟨b, 2⟩, ⟨k, 1⟩]
  | pair {p a b c : ℤ} (hpa : p ≠ a) (hpb : p ≠ b) (hpc : p ≠ c) (hab : b < a) (hbc : c < b) :
      FiveGroups [⟨p, 2⟩, ⟨a, 1⟩, ⟨b, 1⟩, ⟨c, 1⟩]
  | high {a b c d e : ℤ} (hab : b < a) (hbc : c < b) (hcd : d < c) (hde : e < d) :
      FiveGroups [⟨a, 1⟩, ⟨b, 1⟩, ⟨c, 1⟩, ⟨d, 1⟩, ⟨e, 1⟩]

theorem fiveGroups_of_total {g : List (Σ _ : ℤ, ℕ)} (hsum : (g.map fun e => e.2).sum = 5)
    (hpos : ∀ e ∈ g, 0 < e.2) (hsort : g.Pairwise Before) (hkeys : (g.map fun e => e.1).Nodup) :
    FiveGroups g := by
  rcases g with _ | ⟨⟨a, i⟩, _ | ⟨⟨b, j⟩, _ | ⟨⟨c, k⟩, _ | ⟨⟨d, l⟩, _ | ⟨⟨e, m⟩, rest⟩⟩⟩⟩⟩
  · simp at hsum
  · obtain rfl : i = 5 := by simpa using hsum
    exact .five a
  · simp [Before] at hsum hpos hsort hkeys
    obtain ⟨rfl, rfl⟩ | ⟨rfl, rfl⟩ : (i = 4 ∧ j = 1) ∨ (i = 3 ∧ j = 2) := by omega
    · exact .quads hkeys
    · exact .full hkeys
  · simp [Before] at hsum hpos hsort hkeys
    obtain ⟨rfl, rfl, rfl⟩ | ⟨rfl, rfl, rfl⟩ :
        (i = 3 ∧ j = 1 ∧ k = 1) ∨ (i = 2 ∧ j = 2 ∧ k = 1) := by omega
    · exact .trips (by omega) (by omega) (by omega)
    · exact .twoPair (by omega) (by omega) (by omega)
  · simp [Before] at hsum hpos hsort hkeys
    obtain ⟨rfl, rfl, rfl, rfl⟩ : i = 2 ∧ j = 1 ∧ k = 1 ∧ l = 1 := by
      clear hkeys
      omega
    exact .pair (by omega) (by omega) (by omega) (by omega) (by omega)
  · have hrest : rest = [] := by
      cases rest with
      | nil => rfl
      | cons x xs =>
        have hx : 0 < x.2 := hpos x (by simp)
        simp at hsum hpos
        omega
    subst hrest
    simp [Before] at hsum hpos hsort hkeys
    obtain ⟨rfl, rfl, rfl, rfl, rfl⟩ : i = 1 ∧ j = 1 ∧ k = 1 ∧ l = 1 ∧ m = 1 := by
      clear hkeys hsort
      omega
    exact .high (by omega) (by omega) (by omega) (by omega)

theorem fiveGroups (ranks : List ℤ) (h : ranks.length = 5) : FiveGroups (groups ranks) :=
  fiveGroups_of_total ((groups_total ranks).trans h) (groups_pos ranks) (groups_sorted ranks)
    (groups_keys_nodup ranks)

/-! ### Independence of the iteration order -/

theorem classify_perm (ranks : List ℤ) {es es' : List (Σ _ : ℤ, ℕ)} (h : es.Perm es')
    (flush straight : Bool) :
    classify ranks es flush straight = classify ranks es' flush straight := by
  simp only [classify, h.any_eq, h.countP_eq]

theorem kickers_eq {p : (Σ _ : ℤ, ℕ) → Bool} {es g : List (Σ _ : ℤ, ℕ)} (h : es.Perm g)
    {s : List ℤ} (hs : ((g.filter fun e => !p e).map fun e => e.1) = s)
    (hsort : s.Pairwise (· ≥ ·)) : kickers p es = s := by
  refine sortDescending_eq ?_ hsort
  rw [← hs]
  exact (h.filter _).map _

def multiplicities : HandRank → Option (List ℕ)
  | .onePair => some [2, 1, 1, 1]
  | .twoPair => some [2, 2, 1]
  | .threeOfAKind => some [3, 1, 1]
  | .fullHouse => some [3, 2]
  | .fourOfAKind => some [4, 1]
  | _ => none

/-- The key in closed form. -/
def groupKey (ranks : List ℤ) (g : List (Σ _ : ℤ, ℕ)) (rank : HandRank) : List ℤ :=
  match multiplicities rank with
  | some _ => g.map fun e => e.1
  | none => keyOf ranks [] rank

theorem groupKey_of_multiplicities {ranks : List ℤ} {g : List (Σ _ : ℤ, ℕ)} {rank : HandRank}
    {ms : List ℕ} (h : multiplicities rank = some ms) :
    groupKey ranks g rank = g.map fun e => e.1 := by
  simp [groupKey, h]

def Distinct (g : List (Σ _ : ℤ, ℕ)) : Prop := ∀ e ∈ g, e.2 = 1

theorem FiveGroups.high_of_distinct {g : List (Σ _ : ℤ, ℕ)} (hg : FiveGroups g)
    (hd : Distinct g) : ∃ a b c d e : ℤ, g = [⟨a, 1⟩, ⟨b, 1⟩, ⟨c, 1⟩, ⟨d, 1⟩, ⟨e, 1⟩] ∧
      b < a ∧ c < b ∧ d < c ∧ e < d := by
  cases hg with
  | @high a b c d e hab hbc hcd hde => exact ⟨a, b, c, d, e, rfl, hab, hbc, hcd, hde⟩
  | five a => exact absurd (hd ⟨a, 5⟩ (by simp)) (by simp)
  | @quads a => exact absurd (hd ⟨a, 4⟩ (by simp)) (by simp)
  | @full a => exact absurd (hd ⟨a, 3⟩ (by simp)) (by simp)
  | @trips t => exact absurd (hd ⟨t, 3⟩ (by simp)) (by simp)
  | @twoPair a => exact absurd (hd ⟨a, 2⟩ (by simp)) (by simp)
  | @pair p => exact absurd (hd ⟨p, 2⟩ (by simp)) (by simp)

theorem not_straight_of_group {g : List (Σ _ : ℤ, ℕ)} {straight : Bool}
    (hst : straight = true → Distinct g) {e : Σ _ : ℤ, ℕ} (he : e ∈ g) (hne : e.2 ≠ 1) :
    straight = false := by
  cases straight with
  | false => rfl
  | true => exact absurd (hst rfl e he) hne

/-- The rank decides the group sizes and the key, whatever the iteration
order; a straight has five different ranks. -/
theorem classify_groups {ranks : List ℤ} {es g : List (Σ _ : ℤ, ℕ)} (hg : FiveGroups g)
    (hes : es.Perm g) {flush straight : Bool} (hst : straight = true → Distinct g) {rank : HandRank}
    (hrank : classify ranks es flush straight = rank) :
    (∀ ms, multiplicities rank = some ms → g.map (fun e => e.2) = ms) ∧
      keyOf ranks es rank = groupKey ranks g rank := by
  rw [classify_perm ranks hes] at hrank
  -- in each of the seven shapes the loops of the switch find one entry, or sort their finds
  cases hg with
  | five a =>
    obtain rfl := not_straight_of_group hst (e := ⟨a, 5⟩) (by simp) (by simp)
    cases flush <;> simp [classify] at hrank <;> subst hrank <;>
      simp [multiplicities, groupKey, keyOf]
  | @quads a b hab =>
    obtain rfl := not_straight_of_group hst (e := ⟨a, 4⟩) (by simp) (by simp)
    have hfour : rank = .fourOfAKind := by simpa [classify] using hrank.symm
    subst hfour
    have hquad := lastKey_perm (p := fun e => e.2 == 4) (e := ⟨a, 4⟩) hes rfl (-1)
    have hkick := lastKey_perm (p := fun e => e.2 != 4) (e := ⟨b, 1⟩) hes rfl (-1)
    simp [multiplicities, groupKey, keyOf, hquad, hkick]
  | @full a b hab =>
    obtain rfl := not_straight_of_group hst (e := ⟨a, 3⟩) (by simp) (by simp)
    have hfull : rank = .fullHouse := by simpa [classify] using hrank.symm
    subst hfull
    have htrips := lastKey_perm (p := fun e => e.2 == 3) (e := ⟨a, 3⟩) hes rfl (-1)
    have hpair := lastKey_perm (p := fun e => e.2 != 3 && e.2 == 2) (e := ⟨b, 2⟩) hes rfl (-1)
    simp [multiplicities, groupKey, keyOf, htrips, hpair]
  | @trips t a b hta htb hab =>
    obtain rfl := not_straight_of_group hst (e := ⟨t, 3⟩) (by simp) (by simp)
    have htrips := lastKey_perm (p := fun e => e.2 == 3) (e := ⟨t, 3⟩) hes rfl (-1)
    have hkick := kickers_eq (p := fun e => e.2 == 3) hes (s := [a, b]) rfl (by simp; omega)
    cases flush <;> simp [classify] at hrank <;> subst hrank <;>
      simp [multiplicities, groupKey, keyOf, htrips, hkick]
  | @twoPair a b k hab hak hbk =>
    obtain rfl := not_straight_of_group hst (e := ⟨a, 2⟩) (by simp) (by simp)
    have hpairs := kickers_eq (p := fun e => e.2 != 2) hes (s := [a, b]) rfl (by simp; omega)
    have hkick := lastKey_perm (p := fun e => e.2 != 2) (e := ⟨k, 1⟩) hes rfl (-1)
    cases flush <;> simp [classify] at hrank <;> subst hrank <;>
      simp [multiplicities, groupKey, keyOf, hpairs, hkick]
  | @pair p a b c hpa hpb hpc hab hbc =>
    obtain rfl := not_straight_of_group hst (e := ⟨p, 2⟩) (by simp) (by simp)
    have hpair := lastKey_perm (p := fun e => e.2 == 2) (e := ⟨p, 2⟩) hes rfl (-1)
    have hkick := kickers_eq (p := fun e => e.2 == 2) hes (s := [a, b, c]) rfl (by simp; omega)
    cases flush <;> simp [classify] at hrank <;> subst hrank <;>
      simp [multiplicities, groupKey, keyOf, hpair, hkick]
  | high hab hbc hcd hde =>
    cases flush <;> cases straight <;> simp [classify] at hrank <;>
      (try split at hrank) <;> subst hrank <;> simp [multiplicities, groupKey, keyOf]

/-! ### Straights -/

theorem sortedRanks_sorted (cards : List CardValue) :
    (sortedRanks cards).Pairwise (· ≥ ·) := sortDescending_sorted _

theorem sortedRanks_length (cards : List CardValue) :
    (sortedRanks cards).length = cards.length := by
  simp [sortedRanks]

theorem sortedRanks_congr {cards cards' : List CardValue} (h : cards.Perm cards') :
    sortedRanks cards = sortedRanks cards' := sortDescending_congr (h.map _)

theorem isStraight_iff {ranks : List ℤ} (h : ranks.length = 5) (hs : ranks.Pairwise (· ≥ ·)) :
    isStraight ranks = true ↔
      (∃ t, ranks = [t, t - 1, t - 2, t - 3, t - 4]) ∨ ranks = [12, 3, 2, 1, 0] := by
  obtain ⟨a, b, c, d, e, rfl⟩ : ∃ a b c d e, ranks = [a, b, c, d, e] := by
    match ranks, h with
    | [a, b, c, d, e], _ => exact ⟨a, b, c, d, e, rfl⟩
  have hwheel : (12 ∈ [a, b, c, d, e] ∧ 0 ∈ [a, b, c, d, e] ∧ 1 ∈ [a, b, c, d, e] ∧
      2 ∈ [a, b, c, d, e] ∧ 3 ∈ [a, b, c, d, e]) ↔ [a, b, c, d, e] = [12, 3, 2, 1, 0] := by
    constructor
    · intro hh
      obtain ⟨h12, h0, h1, h2, h3⟩ := hh
      have hsub : [12, 3, 2, 1, 0] ⊆ [a, b, c, d, e] := by
        intro x hx
        simp only [List.mem_cons, List.not_mem_nil, or_false] at hx
        rcases hx with rfl | rfl | rfl | rfl | rfl <;> assumption
      have hperm := (List.subperm_of_subset (by decide) hsub).perm_of_length_le (by simp)
      exact hperm.symm.eq_of_pairwise' hs (by decide)
    · intro he
      rw [he]
      decide
  have hdesc : (a = b + 1 ∧ b = c + 1 ∧ c = d + 1 ∧ d = e + 1) ↔
      ∃ t, [a, b, c, d, e] = [t, t - 1, t - 2, t - 3, t - 4] := by
    constructor
    · intro hh
      obtain ⟨rfl, rfl, rfl, rfl⟩ := hh
      exact ⟨e + 1 + 1 + 1 + 1, by simp; omega⟩
    · intro hh
      obtain ⟨t, ht⟩ := hh
      simp only [List.cons.injEq, and_true] at ht
      omega
  rw [← hwheel, ← hdesc]
  simp [isStraight, List.range_succ, and_assoc]

theorem straight_distinct {ranks : List ℤ} (h : ranks.length = 5) (hs : ranks.Pairwise (· ≥ ·))
    (hst : isStraight ranks = true) : Distinct (groups ranks) := by
  have hnd : ranks.Nodup := by
    rcases (isStraight_iff h hs).mp hst with ⟨t, rfl⟩ | rfl
    · simp
      omega
    · decide
  intro e he
  have hle := List.nodup_iff_count_le_one.mp hnd e.1
  have hpos := groups_pos ranks e he
  rw [groups_count he] at hpos ⊢
  omega

/-! ### Rank and key of five cards -/

section Five
variable (σ σ' : MapOrder) {cards cards' : List CardValue}

theorem rankCounts_perm (h : cards.Perm cards') :
    (rankCounts σ cards).Perm (rankCounts σ' cards') := by
  rw [rankCounts, rankCounts, sortedRanks_congr h]
  exact (σ.perm _).trans (σ'.perm _).symm

theorem rankCounts_perm_groups (cards : List CardValue) :
    (rankCounts σ cards).Perm (groups (sortedRanks cards)) :=
  (σ.perm _).trans (groups_perm _).symm

theorem isFlush_congr (h : cards.Perm cards') : isFlush σ cards = isFlush σ' cards' := by
  have hp : (σ.apply (tally (cards.map CardValue.suit)).entries).Perm
      (σ'.apply (tally (cards'.map CardValue.suit)).entries) :=
    (σ.perm _).trans ((tally_perm (h.map _)).trans (σ'.perm _).symm)
  simp only [isFlush, h.length_eq, hp.any_eq]

theorem rankOfFive_congr (h : cards.Perm cards') : rankOfFive σ cards = rankOfFive σ' cards' := by
  rw [rankOfFive, rankOfFive, sortedRanks_congr h, isFlush_congr σ σ' h,
    classify_perm _ (rankCounts_perm σ σ' h)]

theorem rankOfFive_groups (h : cards.length = 5) :
    (∀ ms, multiplicities (rankOfFive σ cards) = some ms →
      (groups (sortedRanks cards)).map (fun e => e.2) = ms) ∧
    getComparisonKey σ cards (rankOfFive σ cards)
      = groupKey (sortedRanks cards) (groups (sortedRanks cards)) (rankOfFive σ cards) := by
  have h5 : (sortedRanks cards).length = 5 := (sortedRanks_length cards).trans h
  exact classify_groups (fiveGroups _ h5) (rankCounts_perm_groups σ cards)
    (straight_distinct h5 (sortedRanks_sorted cards)) rfl

theorem getComparisonKey_congr (h : cards.Perm cards') (h5 : cards.length = 5) :
    getComparisonKey σ cards (rankOfFive σ cards)
      = getComparisonKey σ' cards' (rankOfFive σ' cards') := by
  rw [(rankOfFive_groups σ h5).2, (rankOfFive_groups σ' (h.length_eq ▸ h5)).2,
    sortedRanks_congr h, rankOfFive_congr σ σ' h]

def keyLength : HandRank → ℕ
  | .highCard => 5
  | .onePair => 4
  | .twoPair | .threeOfAKind => 3
  | .fullHouse | .fourOfAKind => 2
  | .straight | .flush | .straightFlush | .royalFlush => 1

theorem getComparisonKey_length (h : cards.length = 5) :
    (getComparisonKey σ cards (rankOfFive σ cards)).length = keyLength (rankOfFive σ cards) := by
  obtain ⟨hms, hkey⟩ := rankOfFive_groups σ h
  have h5 : (sortedRanks cards).length = 5 := (sortedRanks_length cards).trans h
  rw [hkey]
  cases hr : multiplicities (rankOfFive σ cards) with
  | some ms =>
    rw [groupKey_of_multiplicities hr, List.length_map,
      ← List.length_map (fun e : Σ _ : ℤ, ℕ => e.2), hms ms hr]
    revert hr
    cases rankOfFive σ cards <;> simp [multiplicities, keyLength] <;> rintro rfl <;> rfl
  | none =>
    rw [groupKey, hr]
    revert hr
    cases rankOfFive σ cards <;> simp [multiplicities, keyLength, keyOf, h5] <;> split <;> rfl

/-- Rank and key in one list, ordered lexicographically. -/
def handKey (cards : List CardValue) : Key :=
  toKey ((rankOfFive σ cards).toNat :: getComparisonKey σ cards (rankOfFive σ cards))

theorem handKey_congr (h : cards.Perm cards') (h5 : cards.length = 5) :
    handKey σ cards = handKey σ' cards' := by
  rw [handKey, handKey, getComparisonKey_congr σ σ' h h5, rankOfFive_congr σ σ' h]

end Five

end HeadsUp.Core
