import HeadsUp.Core.BestHand

/-!
# The rules of poker, and the evaluator against them

The category and the ranks of five cards by the rules: ranks ordered by
multiplicity and then by rank, an ace-low straight counted from its five. The
evaluator's keys follow this order except for two flushes with the same top
card, which it does not tell apart.
-/

namespace HeadsUp.Core
open HeadsUp.Lib

/-! ### The rules -/

def SameSuit (five : List CardValue) : Prop := ∀ c ∈ five, ∀ d ∈ five, c.suit = d.suit

instance : DecidablePred SameSuit := fun five =>
  inferInstanceAs (Decidable (∀ c ∈ five, ∀ d ∈ five, c.suit = d.suit))

/-- The top rank of five consecutive ranks; the five of ace to five. -/
def straightTop (five : List CardValue) : Option ℤ :=
  match sortDescending (five.map CardValue.rank) with
  | [a, b, c, d, e] =>
    if [a, b, c, d, e] = [12, 3, 2, 1, 0] then some 3
    else if b = a - 1 ∧ c = a - 2 ∧ d = a - 3 ∧ e = a - 4 then some a
    else none
  | _ => none

def sizes (five : List CardValue) : List ℕ := (groups (five.map CardValue.rank)).map fun e => e.2

def category (five : List CardValue) : HandRank :=
  if SameSuit five ∧ straightTop five = some 12 then .royalFlush
  else if SameSuit five ∧ (straightTop five).isSome then .straightFlush
  else if sizes five = [4, 1] then .fourOfAKind
  else if sizes five = [3, 2] then .fullHouse
  else if SameSuit five then .flush
  else if (straightTop five).isSome then .straight
  else if sizes five = [3, 1, 1] then .threeOfAKind
  else if sizes five = [2, 2, 1] then .twoPair
  else if sizes five = [2, 1, 1, 1] then .onePair
  else .highCard

/-- All five ranks by multiplicity and then by rank. -/
def valueRanks (five : List CardValue) : List ℤ :=
  match straightTop five with
  | some t => [t, t - 1, t - 2, t - 3, t - 4]
  | none => expand (groups (five.map CardValue.rank))

def fiveValue (five : List CardValue) : Key :=
  toKey ((category five).toNat :: valueRanks five)

/-- The value of the best choice of five. -/
def bestValue (cards : List Card) : Key :=
  ((List.sublistsLen 5 (toCardValues cards)).argmax fiveValue).elim (toKey []) fiveValue

/-! ### The code's tests -/

section Tests
variable (σ : MapOrder) {five : List CardValue}

theorem isFlush_iff (h5 : five.length = 5) : isFlush σ five = true ↔ SameSuit five := by
  have hmem : ∀ e, e ∈ σ.apply (tally (five.map CardValue.suit)).entries ↔
      (tally (five.map CardValue.suit)).lookup e.1 = some e.2 := fun e =>
    (σ.perm _).mem_iff.trans AList.mem_lookup_iff.symm
  have hlen : (five.map CardValue.suit).length = 5 := by rw [List.length_map, h5]
  simp only [isFlush, h5, lt_irrefl, if_false, List.any_eq_true, decide_eq_true_eq]
  constructor
  · intro hh
    obtain ⟨⟨s, n⟩, he, hn⟩ := hh
    have hc : (five.map CardValue.suit).count s = n := by
      have hl := lookup_tally_getD (five.map CardValue.suit) s
      rw [(hmem _).mp he] at hl
      exact hl.symm
    have hall : ∀ x ∈ five.map CardValue.suit, s = x := by
      rw [← List.count_eq_length]
      have := List.count_le_length (a := s) (l := five.map CardValue.suit)
      simp only at hn
      omega
    intro c hc' d hd
    rw [← hall _ (List.mem_map_of_mem hc'), ← hall _ (List.mem_map_of_mem hd)]
  · intro hs
    obtain ⟨c, cs, rfl⟩ := List.exists_cons_of_length_eq_add_one h5
    have hcount : ((c :: cs).map CardValue.suit).count c.suit = 5 := by
      rw [← hlen, List.count_eq_length]
      intro x hx
      obtain ⟨d, hd, rfl⟩ := List.mem_map.mp hx
      exact hs c (by simp) d hd
    refine ⟨⟨c.suit, 5⟩, (hmem _).mpr ?_, le_refl 5⟩
    rw [lookup_tally, if_pos (by simp), hcount]

theorem straightTop_eq_some {t : ℤ} :
    straightTop five = some t ↔
      sortedRanks five = [12, 3, 2, 1, 0] ∧ t = 3 ∨
        sortedRanks five = [t, t - 1, t - 2, t - 3, t - 4] := by
  rw [sortedRanks]
  unfold straightTop
  split
  · rename_i a b c d e heq
    rw [heq]
    split_ifs with h1 h2
    · simp only [List.cons.injEq, and_true] at h1
      simp only [Option.some.injEq, List.cons.injEq, and_true]
      omega
    · simp only [List.cons.injEq, and_true] at h1
      simp only [Option.some.injEq, List.cons.injEq, and_true]
      omega
    · simp only [List.cons.injEq, and_true] at h1
      simp only [List.cons.injEq, and_true, false_iff]
      omega
  · rename_i hne
    constructor
    · intro h
      cases h
    · intro hh
      rcases hh with ⟨h, -⟩ | h
      · exact absurd h (hne _ _ _ _ _)
      · exact absurd h (hne _ _ _ _ _)

theorem isStraight_iff_straightTop (h5 : five.length = 5) :
    isStraight (sortedRanks five) = true ↔ ∃ t, straightTop five = some t := by
  rw [isStraight_iff ((sortedRanks_length five).trans h5) (sortedRanks_sorted five)]
  constructor
  · intro hh
    rcases hh with ⟨t, ht⟩ | h
    · exact ⟨t, straightTop_eq_some.mpr (.inr ht)⟩
    · exact ⟨3, straightTop_eq_some.mpr (.inl ⟨h, rfl⟩)⟩
  · intro hh
    obtain ⟨t, ht⟩ := hh
    rcases straightTop_eq_some.mp ht with ⟨h, -⟩ | h
    · exact .inr h
    · exact .inl ⟨t, h⟩

theorem royal_iff {t : ℤ} (ht : straightTop five = some t) :
    ((sortedRanks five).getD 0 0 == 12 && (sortedRanks five).getD 4 0 == 8) = true ↔ t = 12 := by
  rcases straightTop_eq_some.mp ht with ⟨h, rfl⟩ | h
  · rw [h]
    decide
  · rw [h]
    simp
    omega

theorem groups_sortedRanks (five : List CardValue) :
    groups (sortedRanks five) = groups (five.map CardValue.rank) :=
  groups_congr (sortDescending_perm _)

theorem rankOfFive_eq_category (h5 : five.length = 5) : rankOfFive σ five = category five := by
  have hlen := (sortedRanks_length five).trans h5
  have hdist := straight_distinct hlen (sortedRanks_sorted five)
  have hstr := isStraight_iff_straightTop h5
  have hes := rankCounts_perm_groups σ five
  have hg := fiveGroups (five.map CardValue.rank) (by rw [List.length_map, h5])
  rw [groups_sortedRanks] at hdist hes
  rw [rankOfFive, classify_perm _ hes]
  unfold category sizes
  simp only [← isFlush_iff σ h5]
  generalize isFlush σ five = flush
  generalize groups (five.map CardValue.rank) = g at hg hdist
  cases ht : straightTop five with
  | some t =>
    have hst : isStraight (sortedRanks five) = true := hstr.mpr ⟨t, ht⟩
    have hroyal := royal_iff ht
    rw [hst]
    obtain ⟨a, b, c, d, e, rfl, -⟩ := hg.high_of_distinct (hdist hst)
    simp only [Bool.and_eq_true, beq_iff_eq] at hroyal
    cases flush
    · simp [classify]
    · simp only [classify, Bool.true_and, Bool.and_eq_true, beq_iff_eq, hroyal]
      simp
  | none =>
    have hst : isStraight (sortedRanks five) = false := by
      rw [← Bool.not_eq_true, hstr, ht]
      simp
    rw [hst]
    cases hg <;> cases flush <;> simp [classify]

end Tests

/-! ### Keys against values -/

/-- The ranks in the order of the rules, from the code's key of a hand that is
not a flush. -/
def ranksOfKey (rank : HandRank) (key : List ℤ) : List ℤ :=
  match rank with
  | .straight | .straightFlush | .royalFlush =>
    key.flatMap fun t => [t, t - 1, t - 2, t - 3, t - 4]
  | rank => match multiplicities rank with
    | some ms => spread ms key
    | none => key

theorem ranksOfKey_lt {rank : HandRank} (hrank : rank ≠ .flush) {xs ys : List ℤ}
    (hx : xs.length = keyLength rank) (hy : ys.length = keyLength rank)
    (h : toKey xs < toKey ys) : toKey (ranksOfKey rank xs) < toKey (ranksOfKey rank ys) := by
  have hstraight : xs.length = 1 → ys.length = 1 →
      toKey (xs.flatMap fun t => [t, t - 1, t - 2, t - 3, t - 4])
        < toKey (ys.flatMap fun t => [t, t - 1, t - 2, t - 3, t - 4]) := by
    intro hx1 hy1
    obtain ⟨t, rfl⟩ := List.length_eq_one_iff.mp hx1
    obtain ⟨u, rfl⟩ := List.length_eq_one_iff.mp hy1
    rcases toKey_cons_lt.mp h with htu | ⟨-, hnil⟩
    · exact toKey_cons_lt.mpr (.inl htu)
    · exact absurd hnil (lt_irrefl _)
  cases rank with
  | flush => exact absurd rfl hrank
  | straight => exact hstraight hx hy
  | straightFlush => exact hstraight hx hy
  | royalFlush => exact hstraight hx hy
  | highCard => exact h
  | onePair => exact (toKey_spread_lt (by decide) hx hy).mpr h
  | twoPair => exact (toKey_spread_lt (by decide) hx hy).mpr h
  | threeOfAKind => exact (toKey_spread_lt (by decide) hx hy).mpr h
  | fullHouse => exact (toKey_spread_lt (by decide) hx hy).mpr h
  | fourOfAKind => exact (toKey_spread_lt (by decide) hx hy).mpr h

theorem spread_groups (g : List (Σ _ : ℤ, ℕ)) :
    spread (g.map fun e => e.2) (g.map fun e => e.1) = expand g := by
  induction g with
  | nil => rfl
  | cons e g ih => rw [List.map_cons, List.map_cons, spread, ih, expand_cons]

theorem expand_of_distinct {ranks : List ℤ} (h : ranks.length = 5)
    (hd : Distinct (groups ranks)) : expand (groups ranks) = sortDescending ranks := by
  refine (sortDescending_eq (expand_groups_perm ranks).symm ?_).symm
  obtain ⟨a, b, c, d, e, hg, hab, hbc, hcd, hde⟩ := (fiveGroups ranks h).high_of_distinct hd
  rw [hg]
  simp
  omega

section Values
variable (σ : MapOrder) {five : List CardValue}

theorem sizes_of_straight {t : ℤ} (h5 : five.length = 5) (ht : straightTop five = some t) :
    sizes five = [1, 1, 1, 1, 1] := by
  have hlen := (sortedRanks_length five).trans h5
  have hd := straight_distinct hlen (sortedRanks_sorted five)
    ((isStraight_iff_straightTop h5).mpr ⟨t, ht⟩)
  rw [groups_sortedRanks] at hd
  obtain ⟨a, b, c, d, e, hg, -⟩ :=
    (fiveGroups (five.map CardValue.rank) (by rw [List.length_map, h5])).high_of_distinct hd
  rw [sizes, hg]
  rfl

theorem valueRanks_of_straight {t : ℤ} (h5 : five.length = 5) (ht : straightTop five = some t) :
    category five ≠ .flush ∧
      valueRanks five = ranksOfKey (category five) (getComparisonKey σ five (category five)) := by
  have hsizes := sizes_of_straight h5 ht
  have hlow : keyOf (sortedRanks five) (rankCounts σ five) .straight = [t] := by
    rcases straightTop_eq_some.mp ht with ⟨h, rfl⟩ | h
    · simp [keyOf, h]
    · simp only [keyOf, h]
      rw [if_neg (by simp; omega)]
      simp
  have hroyal : t = 12 → keyOf (sortedRanks five) (rankCounts σ five) .royalFlush = [t] := by
    rintro rfl
    rcases straightTop_eq_some.mp ht with ⟨-, h⟩ | h
    · exact absurd h (by decide)
    · simp [keyOf, h]
  have hvalue : valueRanks five = [t, t - 1, t - 2, t - 3, t - 4] := by rw [valueRanks, ht]
  rw [hvalue]
  by_cases hs : SameSuit five
  · by_cases h12 : t = 12
    · have hcat : category five = .royalFlush := by simp [category, hs, ht, h12]
      rw [hcat, getComparisonKey, hroyal h12]
      exact ⟨by decide, rfl⟩
    · have hcat : category five = .straightFlush := by simp [category, hs, ht, h12]
      rw [hcat, getComparisonKey]
      exact ⟨by decide, hlow ▸ rfl⟩
  · have hcat : category five = .straight := by simp [category, hs, ht, hsizes]
    rw [hcat, getComparisonKey, hlow]
    exact ⟨by decide, rfl⟩

theorem not_straight_category (ht : straightTop five = none) :
    category five ≠ .straight ∧ category five ≠ .straightFlush ∧ category five ≠ .royalFlush := by
  unfold category
  simp only [ht, Option.isSome_none, reduceCtorEq, Bool.false_eq_true, and_false, if_false]
  split_ifs <;> decide

theorem category_of_multiplicities_none (ht : straightTop five = none) (hr : category five ≠ .flush)
    (hm : multiplicities (category five) = none) : category five = .highCard := by
  obtain ⟨hn1, hn2, hn3⟩ := not_straight_category ht
  generalize category five = r at *
  cases r <;> first | rfl | contradiction

theorem sizes_of_highCard (hcat : category five = .highCard) :
    sizes five ≠ [4, 1] ∧ sizes five ≠ [3, 2] ∧ sizes five ≠ [3, 1, 1] ∧
      sizes five ≠ [2, 2, 1] ∧ sizes five ≠ [2, 1, 1, 1] := by
  unfold category at hcat
  split_ifs at hcat with _ _ hquads hfull _ _ htrips htwo hpair
  exact ⟨hquads, hfull, htrips, htwo, hpair⟩

theorem expand_of_highCard (h5 : five.length = 5) (hcat : category five = .highCard) :
    expand (groups (five.map CardValue.rank)) = sortedRanks five := by
  refine (sortDescending_eq (expand_groups_perm _).symm ?_).symm
  obtain ⟨hquads, hfull, htrips, htwo, hpair⟩ := sizes_of_highCard hcat
  have hg := fiveGroups (five.map CardValue.rank) (by rw [List.length_map, h5])
  unfold sizes at hquads hfull htrips htwo hpair
  generalize groups (five.map CardValue.rank) = g at *
  cases hg with
  | five a => simp [List.replicate_succ]
  | high hab hbc hcd hde =>
    simp
    omega
  | quads => exact absurd rfl hquads
  | full => exact absurd rfl hfull
  | trips => exact absurd rfl htrips
  | twoPair => exact absurd rfl htwo
  | pair => exact absurd rfl hpair

theorem ranksOfKey_of_multiplicities {rank : HandRank} {ms : List ℕ}
    (h : multiplicities rank = some ms) (key : List ℤ) : ranksOfKey rank key = spread ms key := by
  cases rank <;> simp only [multiplicities, Option.some.injEq, reduceCtorEq] at h <;> subst h <;> rfl

/-- The ranks by the rules, recovered from the key of a hand that is not a flush. -/
theorem valueRanks_eq (h5 : five.length = 5) (hr : category five ≠ .flush) :
    valueRanks five = ranksOfKey (category five) (getComparisonKey σ five (category five)) := by
  cases ht : straightTop five with
  | some t => exact (valueRanks_of_straight σ h5 ht).2
  | none =>
    obtain ⟨hms, hkey⟩ := rankOfFive_groups σ h5
    rw [rankOfFive_eq_category σ h5, groups_sortedRanks] at hms hkey
    have hvalue : valueRanks five = expand (groups (five.map CardValue.rank)) := by
      rw [valueRanks, ht]
    rw [hvalue, hkey]
    cases hm : multiplicities (category five) with
    | some ms =>
      rw [groupKey_of_multiplicities hm, ranksOfKey_of_multiplicities hm, ← hms ms hm, spread_groups]
    | none =>
      have hcat := category_of_multiplicities_none ht hr hm
      rw [expand_of_highCard h5 hcat, hcat]
      rfl

theorem handKey_eq (h5 : five.length = 5) :
    handKey σ five
      = toKey ((category five).toNat :: getComparisonKey σ five (category five)) := by
  rw [handKey, rankOfFive_eq_category σ h5]

theorem distinct_of_sameSuit (hnd : five.Nodup) (hs : SameSuit five) :
    Distinct (groups (five.map CardValue.rank)) := by
  have hrank : (five.map CardValue.rank).Nodup := by
    refine hnd.map_on fun c hc d hd h => ?_
    have hsuit := hs c hc d hd
    cases c
    cases d
    simp_all
  intro e he
  have hpos := groups_pos _ e he
  have hle := List.nodup_iff_count_le_one.mp hrank e.1
  rw [groups_count he] at hpos ⊢
  omega

/-- A flush of different cards is worth all its ranks; its key is the first one. -/
theorem values_of_flush (h5 : five.length = 5) (hnd : five.Nodup) (hc : category five = .flush) :
    ∃ t l, fiveValue five = toKey (HandRank.flush.toNat :: t :: l) ∧
      handKey σ five = toKey [HandRank.flush.toNat, t] := by
  have hs : SameSuit five := by
    by_contra hs
    unfold category at hc
    split_ifs at hc
  have ht : straightTop five = none := by
    cases ht : straightTop five with
    | none => rfl
    | some t => exact absurd hc (valueRanks_of_straight σ h5 ht).1
  have hlen : (five.map CardValue.rank).length = 5 := by rw [List.length_map, h5]
  have hexp := expand_of_distinct hlen (distinct_of_sameSuit hnd hs)
  obtain ⟨t, l, hl⟩ := List.exists_cons_of_length_eq_add_one ((sortedRanks_length five).trans h5)
  have hvalue : valueRanks five = t :: l := by
    rw [valueRanks, ht]
    exact hexp.trans hl
  refine ⟨t, l, ?_, ?_⟩
  · rw [fiveValue, hc, hvalue]
  · rw [handKey_eq σ h5, hc, getComparisonKey, keyOf, hl]
    rfl

/-- Two flushes that agree on the top card and not on all of their cards. -/
def SameTopFlush (v w : Key) : Prop :=
  v ≠ w ∧ ∃ t l l', v = toKey (HandRank.flush.toNat :: t :: l) ∧
    w = toKey (HandRank.flush.toNat :: t :: l')

variable {m n : List CardValue}

/-- The code never reverses the order of the rules. -/
theorem fiveValue_lt_of_handKey_lt (hm5 : m.length = 5) (hm : m.Nodup) (hn5 : n.length = 5)
    (hn : n.Nodup) (h : handKey σ m < handKey σ n) : fiveValue m < fiveValue n := by
  by_cases hcat : category m = category n
  · by_cases hf : category n = .flush
    · obtain ⟨t, l, hmv, hmk⟩ := values_of_flush σ hm5 hm (hcat.trans hf)
      obtain ⟨u, k, hnv, hnk⟩ := values_of_flush σ hn5 hn hf
      rw [hmk, hnk, toKey_cons_lt_self, toKey_cons_lt] at h
      rw [hmv, hnv, toKey_cons_lt_self, toKey_cons_lt]
      exact h.imp_right fun hnil => absurd hnil.2 (lt_irrefl _)
    · have hmr := valueRanks_eq σ hm5 (hcat ▸ hf)
      have hnr := valueRanks_eq σ hn5 hf
      have hml := getComparisonKey_length σ hm5
      have hnl := getComparisonKey_length σ hn5
      rw [rankOfFive_eq_category σ hm5, hcat] at hml
      rw [rankOfFive_eq_category σ hn5] at hnl
      rw [handKey_eq σ hm5, handKey_eq σ hn5, hcat, toKey_cons_lt_self] at h
      rw [fiveValue, fiveValue, hmr, hnr, hcat, toKey_cons_lt_self]
      exact ranksOfKey_lt hf hml hnl h
  · have hne : ((category m).toNat : ℤ) ≠ (category n).toNat := fun he =>
      hcat (HandRank.toNat_injective (Int.ofNat_inj.mp he))
    rw [handKey_eq σ hm5, handKey_eq σ hn5, toKey_cons_lt] at h
    rw [fiveValue, fiveValue, toKey_cons_lt]
    exact .inl (h.resolve_right fun he => hne he.1)

/-- It ties different values for two flushes with the same top card only. -/
theorem handKey_eq_iff (hm5 : m.length = 5) (hm : m.Nodup) (hn5 : n.length = 5) (hn : n.Nodup) :
    handKey σ m = handKey σ n ↔
      fiveValue m = fiveValue n ∨ SameTopFlush (fiveValue m) (fiveValue n) := by
  constructor
  · intro hkey
    by_cases hv : fiveValue m = fiveValue n
    · exact .inl hv
    have h := hkey
    rw [handKey_eq σ hm5, handKey_eq σ hn5, toKey_inj, List.cons.injEq] at h
    have hcat : category m = category n := HandRank.toNat_injective (Int.ofNat_inj.mp h.1)
    have hf : category n = .flush := by
      by_contra hf
      rw [fiveValue, fiveValue, valueRanks_eq σ hm5 (hcat ▸ hf), valueRanks_eq σ hn5 hf, h.2,
        hcat] at hv
      exact hv rfl
    obtain ⟨t, l, hmv, hmk⟩ := values_of_flush σ hm5 hm (hcat.trans hf)
    obtain ⟨u, k, hnv, hnk⟩ := values_of_flush σ hn5 hn hf
    rw [hkey, hnk, toKey_inj] at hmk
    obtain rfl : u = t := by simpa using hmk
    exact .inr ⟨hv, u, l, k, hmv, hnv⟩
  · intro hh
    rcases hh with hv | ⟨-, t, l, l', hmv, hnv⟩
    · refine le_antisymm (not_lt.mp fun h => ?_) (not_lt.mp fun h => ?_)
      · exact absurd (fiveValue_lt_of_handKey_lt σ hn5 hn hm5 hm h) (hv ▸ lt_irrefl _)
      · exact absurd (fiveValue_lt_of_handKey_lt σ hm5 hm hn5 hn h) (hv ▸ lt_irrefl _)
    · have hflush : ∀ {c : List CardValue} {ranks : List ℤ},
          fiveValue c = toKey (HandRank.flush.toNat :: ranks) → category c = .flush := by
        intro c ranks h
        rw [fiveValue, toKey_inj, List.cons.injEq] at h
        exact HandRank.toNat_injective (Int.ofNat_inj.mp h.1)
      obtain ⟨u, k, hmv', hmk⟩ := values_of_flush σ hm5 hm (hflush hmv)
      obtain ⟨u', k', hnv', hnk⟩ := values_of_flush σ hn5 hn (hflush hnv)
      rw [hmv', toKey_inj] at hmv
      rw [hnv', toKey_inj] at hnv
      obtain rfl : u = t := by simp only [List.cons.injEq] at hmv; exact hmv.2.1
      obtain rfl : u' = u := by simp only [List.cons.injEq] at hnv; exact hnv.2.1
      rw [hmk, hnk]

end Values

/-! ### Hands of different cards -/

def DistinctCards : Type := {h : PokerCards // h.cards.Nodup}

theorem toCardValue_injective : Function.Injective toCardValue := by
  intro c d h
  simp only [toCardValue, CardValue.mk.injEq, Int.ofNat_inj] at h
  refine Card.eq_of_rank_suit ?_ ?_
  · rw [← Rank.ofFin_toFin c.rank, ← Rank.ofFin_toFin d.rank, Fin.ext h.1]
  · rw [← Suit.ofFin_toFin c.suit, ← Suit.ofFin_toFin d.suit, Fin.ext h.2]

theorem FiveOf.nodup {cards : List Card} (hnd : cards.Nodup) {five : List CardValue}
    (hf : FiveOf cards five) : five.Nodup := by
  obtain ⟨c, hperm, hc⟩ := hf.1
  exact hperm.nodup_iff.mp (hc.nodup (hnd.map toCardValue_injective))

theorem bestValue_spec (h : PokerCards) :
    ∃ m : List CardValue, m.Sublist (toCardValues h.cards) ∧ m.length = 5 ∧
      bestValue h.cards = fiveValue m ∧
      ∀ c : List CardValue, c.Sublist (toCardValues h.cards) → c.length = 5 →
        fiveValue c ≤ fiveValue m := by
  have hmem : (toCardValues h.cards).take 5 ∈ List.sublistsLen 5 (toCardValues h.cards) := by
    have hge := h.five_le
    rw [List.mem_sublistsLen]
    exact ⟨List.take_sublist 5 _, by rw [List.length_take]; omega⟩
  obtain ⟨m, hm⟩ := Option.ne_none_iff_exists'.mp
    (mt List.argmax_eq_none.mp (List.ne_nil_of_mem hmem) :
      (List.sublistsLen 5 (toCardValues h.cards)).argmax fiveValue ≠ none)
  obtain ⟨hsub, h5⟩ := List.mem_sublistsLen.mp (List.argmax_mem hm)
  refine ⟨m, hsub, h5, by rw [bestValue, hm]; rfl, fun c hc hc5 => ?_⟩
  exact List.le_of_mem_argmax (List.mem_sublistsLen.mpr ⟨hc, hc5⟩) hm

/-- The best five by the rules is also one the code finds best. -/
theorem bestValue_isBestKey (σ : MapOrder) (h : DistinctCards) :
    ∃ m : List CardValue, m.length = 5 ∧ m.Nodup ∧ bestValue h.val.cards = fiveValue m ∧
      IsBestKey σ h.val.cards (handKey σ m) := by
  obtain ⟨m, hsub, h5, hbest, hmax⟩ := bestValue_spec h.val
  have hnd : ∀ c : List CardValue, c.Sublist (toCardValues h.val.cards) → c.length = 5 → c.Nodup :=
    fun c hc hc5 => (FiveOf.of_sublist hc hc5).nodup h.property
  refine ⟨m, h5, hnd m hsub h5, hbest, isBestKey_of_sublists σ hsub h5 fun c hc hc5 => ?_⟩
  refine not_lt.mp fun hlt => ?_
  have hgt := fiveValue_lt_of_handKey_lt σ h5 (hnd m hsub h5) hc5 (hnd c hc hc5) hlt
  exact absurd (hmax c hc hc5) (not_le.mpr hgt)

/-- `compare` orders two hands of different cards by the rules exactly when
their best fives are not two flushes that agree on the top card only. -/
theorem compare_poker_iff (σ : MapOrder) (a b : DistinctCards) :
    (∃ x, HandRanking.compare σ a.val.cards b.val.cards = .ok x ∧
      cmp x 0 = cmp (bestValue a.val.cards) (bestValue b.val.cards)) ↔
    ¬SameTopFlush (bestValue a.val.cards) (bestValue b.val.cards) := by
  obtain ⟨m, hm5, hm, hma, hmk⟩ := bestValue_isBestKey σ a
  obtain ⟨n, hn5, hn, hnb, hnk⟩ := bestValue_isBestKey σ b
  obtain ⟨x, hx, hcmp⟩ := compare_spec σ hmk hnk
  have hiff : (∃ y, HandRanking.compare σ a.val.cards b.val.cards = .ok y ∧
      cmp y 0 = cmp (bestValue a.val.cards) (bestValue b.val.cards)) ↔
      cmp (handKey σ m) (handKey σ n) = cmp (fiveValue m) (fiveValue n) := by
    rw [← hcmp, ← hma, ← hnb]
    constructor
    · intro hh
      obtain ⟨y, hy, hyc⟩ := hh
      rw [hx] at hy
      rw [Except.ok.inj hy, hyc]
    · exact fun h => ⟨x, hx, h⟩
  rw [hiff, hma, hnb]
  -- the rules refine the code's order, so only a tie of the code can be wrong
  rcases lt_trichotomy (handKey σ m) (handKey σ n) with h | h | h
  · have hv := fiveValue_lt_of_handKey_lt σ hm5 hm hn5 hn h
    rw [(cmp_eq_lt_iff _ _).mpr h, (cmp_eq_lt_iff _ _).mpr hv, eq_self, true_iff]
    exact fun hs => h.ne ((handKey_eq_iff σ hm5 hm hn5 hn).mpr (.inr hs))
  · rw [h, cmp_self_eq_eq, eq_comm, cmp_eq_eq_iff]
    have htie := (handKey_eq_iff σ hm5 hm hn5 hn).mp h
    exact ⟨fun hv hs => hs.1 hv, fun hs => htie.resolve_right hs⟩
  · have hv := fiveValue_lt_of_handKey_lt σ hn5 hn hm5 hm h
    rw [(cmp_eq_gt_iff _ _).mpr h, (cmp_eq_gt_iff _ _).mpr hv, eq_self, true_iff]
    exact fun hs => h.ne' ((handKey_eq_iff σ hm5 hm hn5 hn).mpr (.inr hs))

/-- The flushes A K Q J 9 and A K Q J 8 are a tie to the code. -/
theorem compare_flush_kickers :
    ∃ nine eight : List Card,
      nine = [.ofRankSuit .ace .hearts, .ofRankSuit .king .hearts, .ofRankSuit .queen .hearts,
        .ofRankSuit .jack .hearts, .ofRankSuit .nine .hearts] ∧
      eight = [.ofRankSuit .ace .hearts, .ofRankSuit .king .hearts, .ofRankSuit .queen .hearts,
        .ofRankSuit .jack .hearts, .ofRankSuit .eight .hearts] ∧
      nine.Nodup ∧ eight.Nodup ∧
      HandRanking.compare (Shuffle.refl _) nine eight = .ok 0 ∧
      cmp (bestValue nine) (bestValue eight) = .gt :=
  ⟨_, _, rfl, rfl, by decide, by decide, by decide, by decide⟩

end HeadsUp.Core
