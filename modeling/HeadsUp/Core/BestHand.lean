import HeadsUp.Core.FiveCards
import Mathlib.Data.Nat.Choose.Bounds

/-!
# The best five of five to seven cards

`evaluateBestFiveCards` ends with five of the cards whose rank and key are the
greatest of all choices of five, so `compare` orders hands by that greatest
value. The value depends on the cards as a multiset only.
-/

namespace HeadsUp.Core
open HeadsUp.Lib

/-! ### The combinations -/

theorem generateCombinations_eq {cards : List CardValue} (h : 5 ≤ cards.length) :
    generateCombinations cards = (List.sublistsLen 5 cards).reverse := by
  have hfuel : cards.length.choose 5 ≤ cards.length ^ 5 := Nat.choose_le_pow _ _
  rw [generateCombinations, combinationLoop_eq h hfuel, Option.getD_some, map_choices_eq]

theorem mem_generateCombinations {cards combo : List CardValue} (h : 5 ≤ cards.length) :
    combo ∈ generateCombinations cards ↔ combo.Sublist cards ∧ combo.length = 5 := by
  rw [generateCombinations_eq h, List.mem_reverse, List.mem_sublistsLen]

theorem generateCombinations_ne_nil {cards : List CardValue} (h : 5 ≤ cards.length) :
    generateCombinations cards ≠ [] := by
  have hmem := (mem_generateCombinations h).mpr
    ⟨List.take_sublist 5 cards, by rw [List.length_take]; omega⟩
  exact List.ne_nil_of_mem hmem

/-! ### The loop -/

section Loop
variable (σ : MapOrder)

theorem evaluateFiveCards_ok {cards : List CardValue} (h : cards.length = 5) :
    evaluateFiveCards σ cards = .ok (rankOfFive σ cards) := by
  simp [evaluateFiveCards, h]

theorem handKey_lt_iff {b c : List CardValue} (hb : b.length = 5) (hc : c.length = 5) :
    handKey σ b < handKey σ c ↔ rankOfFive σ b < rankOfFive σ c ∨
      rankOfFive σ c = rankOfFive σ b ∧
        0 < firstDifference (getComparisonKey σ c (rankOfFive σ c))
          (getComparisonKey σ b (rankOfFive σ c)) := by
  rw [handKey, handKey, toKey_cons_lt, HandRank.lt_iff, Int.ofNat_lt, Int.ofNat_inj]
  refine or_congr_right ?_
  rw [HandRank.toNat_injective.eq_iff, eq_comm]
  refine and_congr_right fun hrank => ?_
  have hlen := getComparisonKey_length σ hb
  rw [← hrank] at hlen ⊢
  rw [firstDifference_pos_iff ((getComparisonKey_length σ hc).trans hlen.symm)]

theorem keepBest_ok {b c : List CardValue} (hb : b.length = 5) (hc : c.length = 5) :
    keepBest σ (rankOfFive σ b, b) c =
      .ok (rankOfFive σ (if handKey σ b < handKey σ c then c else b),
        if handKey σ b < handKey σ c then c else b) := by
  have hlt := handKey_lt_iff σ hb hc
  -- the tests of the loop: higher rank, equal rank with the greater key, neither
  rw [keepBest, evaluateFiveCards_ok σ hc]
  simp only [bind, Except.bind, pure, Except.pure]
  by_cases hr : rankOfFive σ b < rankOfFive σ c
  · rw [if_pos hr, if_pos (hlt.mpr (.inl hr))]
  rw [if_neg hr]
  by_cases he : rankOfFive σ c = rankOfFive σ b
  · rw [if_pos he]
    by_cases hk : 0 < firstDifference (getComparisonKey σ c (rankOfFive σ c))
        (getComparisonKey σ b (rankOfFive σ c))
    · rw [if_pos hk, if_pos (hlt.mpr (.inr ⟨he, hk⟩)), he]
    · rw [if_neg hk, if_neg fun h => (hlt.mp h).elim hr fun hh => hk hh.2]
  · rw [if_neg he, if_neg fun h => (hlt.mp h).elim hr fun hh => he hh.1]

theorem foldlM_keepBest {b : List CardValue} (hb : b.length = 5) (l : List (List CardValue))
    (hl : ∀ c ∈ l, c.length = 5) :
    l.foldlM (keepBest σ) (rankOfFive σ b, b) =
      .ok (rankOfFive σ (l.foldl (fun b c => if handKey σ b < handKey σ c then c else b) b),
        l.foldl (fun b c => if handKey σ b < handKey σ c then c else b) b) := by
  induction l generalizing b with
  | nil => rfl
  | cons c cs ih =>
    have hc : c.length = 5 := hl c (by simp)
    rw [List.foldlM_cons, keepBest_ok σ hb hc]
    refine ih (b := if handKey σ b < handKey σ c then c else b) ?_ fun x hx => hl x (by simp [hx])
    split_ifs
    · exact hc
    · exact hb

theorem keepBest_first {c : List CardValue} (hc : c.length = 5) :
    keepBest σ (.highCard, c) c = .ok (rankOfFive σ c, c) := by
  rw [keepBest, evaluateFiveCards_ok σ hc]
  simp only [bind, Except.bind, pure, Except.pure]
  by_cases hr : HandRank.highCard < rankOfFive σ c
  · rw [if_pos hr]
  · have hle : (rankOfFive σ c).toNat ≤ 0 := HandRank.le_iff.mp (not_lt.mp hr)
    have heq : rankOfFive σ c = .highCard :=
      HandRank.toNat_injective (Nat.le_zero.mp hle)
    rw [if_neg hr, heq]
    split_ifs <;> rfl

end Loop

/-! ### Hands of five to seven cards -/

/-- The lists the evaluator accepts. -/
def PokerCards : Type := {cards : List Card // 5 ≤ cards.length ∧ cards.length ≤ 7}

namespace PokerCards

def cards (h : PokerCards) : List Card := h.val

theorem five_le (h : PokerCards) : 5 ≤ (toCardValues h.cards).length := by
  rw [toCardValues, List.length_map]
  exact h.property.1

theorem le_seven (h : PokerCards) : (toCardValues h.cards).length ≤ 7 := by
  rw [toCardValues, List.length_map]
  exact h.property.2

end PokerCards

def FiveOf (cards : List Card) (five : List CardValue) : Prop :=
  five.Subperm (toCardValues cards) ∧ five.length = 5

theorem FiveOf.of_sublist {cards : List Card} {five : List CardValue}
    (h : five.Sublist (toCardValues cards)) (h5 : five.length = 5) : FiveOf cards five :=
  ⟨h.subperm, h5⟩

theorem FiveOf.congr {cards cards' : List Card} (h : cards.Perm cards') {five : List CardValue}
    (hf : FiveOf cards five) : FiveOf cards' five :=
  ⟨hf.1.trans (h.map toCardValue).subperm, hf.2⟩

theorem FiveOf.mono {cards cards' : List Card} (h : cards.Sublist cards') {five : List CardValue}
    (hf : FiveOf cards five) : FiveOf cards' five :=
  ⟨hf.1.trans (h.map toCardValue).subperm, hf.2⟩

/-- `k` is the value of the best choice of five. -/
def IsBestKey (σ : MapOrder) (cards : List Card) (k : Key) : Prop :=
  IsGreatest {v | ∃ five, FiveOf cards five ∧ v = handKey σ five} k

section Best
variable (σ σ' : MapOrder)

theorem IsBestKey.congr {cards cards' : List Card} (h : cards.Perm cards') {k : Key}
    (hk : IsBestKey σ cards k) : IsBestKey σ' cards' k := by
  have hset : {v | ∃ five, FiveOf cards five ∧ v = handKey σ five}
      = {v | ∃ five, FiveOf cards' five ∧ v = handKey σ' five} := by
    ext v
    constructor
    · intro hh
      obtain ⟨five, hf, rfl⟩ := hh
      exact ⟨five, hf.congr h, handKey_congr σ σ' (List.Perm.refl _) hf.2⟩
    · intro hh
      obtain ⟨five, hf, rfl⟩ := hh
      exact ⟨five, hf.congr h.symm, handKey_congr σ' σ (List.Perm.refl _) hf.2⟩
  rw [IsBestKey, ← hset]
  exact hk

theorem IsBestKey.unique {cards : List Card} {k k' : Key} (h : IsBestKey σ cards k)
    (h' : IsBestKey σ cards k') : k = k' := IsGreatest.unique h h'

theorem IsBestKey.mono {cards cards' : List Card} (h : cards.Sublist cards') {k k' : Key}
    (hk : IsBestKey σ cards k) (hk' : IsBestKey σ cards' k') : k ≤ k' := by
  obtain ⟨five, hf, rfl⟩ := hk.1
  exact hk'.2 ⟨five, hf.mono h, rfl⟩

theorem isBestKey_of_sublists {cards : List Card} {m : List CardValue}
    (hm : m.Sublist (toCardValues cards)) (h5 : m.length = 5)
    (hmax : ∀ c : List CardValue, c.Sublist (toCardValues cards) → c.length = 5 →
      handKey σ c ≤ handKey σ m) : IsBestKey σ cards (handKey σ m) := by
  refine ⟨⟨m, .of_sublist hm h5, rfl⟩, ?_⟩
  intro v hh
  obtain ⟨five, ⟨hsub, hlen⟩, rfl⟩ := hh
  obtain ⟨c, hperm, hc⟩ := hsub
  have hc5 : c.length = 5 := hperm.length_eq.trans hlen
  rw [← handKey_congr σ σ hperm hc5]
  exact hmax c hc hc5

/-- `evaluateBestFiveCards` returns the rank and the cards of a best choice. -/
theorem evaluateBestFiveCards_spec (h : PokerCards) :
    ∃ m, evaluateBestFiveCards σ (toCardValues h.cards) = .ok (rankOfFive σ m, m) ∧
      m.Sublist (toCardValues h.cards) ∧ m.length = 5 ∧
      IsBestKey σ h.cards (handKey σ m) := by
  have hge := h.five_le
  have hle := h.le_seven
  have hsize : ¬((toCardValues h.cards).length < 5 ∨ 7 < (toCardValues h.cards).length) := by
    omega
  rw [evaluateBestFiveCards, if_neg hsize]
  by_cases h5 : (toCardValues h.cards).length = 5
  · rw [if_pos h5, evaluateFiveCards_ok σ h5]
    refine ⟨_, rfl, List.Sublist.refl _, h5, isBestKey_of_sublists σ (List.Sublist.refl _) h5 ?_⟩
    intro c hc hc5
    rw [hc.eq_of_length (hc5.trans h5.symm)]
  · rw [if_neg h5]
    obtain ⟨c, cs, hcs⟩ := List.exists_cons_of_ne_nil (generateCombinations_ne_nil hge)
    have hmem : ∀ x, x ∈ c :: cs ↔ x.Sublist (toCardValues h.cards) ∧ x.length = 5 :=
      fun x => by rw [← hcs, mem_generateCombinations hge]
    have hlen : ∀ x ∈ c :: cs, x.length = 5 := fun x hx => ((hmem x).mp hx).2
    have hc := hlen c (by simp)
    have harg := foldl_better_eq_argmax (handKey σ) c cs
    refine ⟨cs.foldl (fun b c => if handKey σ b < handKey σ c then c else b) c, ?_, ?_⟩
    · simp only [hcs, List.headD_cons, List.foldlM_cons]
      rw [keepBest_first σ hc]
      exact foldlM_keepBest σ hc cs fun x hx => hlen x (by simp [hx])
    · obtain ⟨hsub, hm5⟩ := (hmem _).mp (List.argmax_mem harg.symm)
      refine ⟨hsub, hm5, isBestKey_of_sublists σ hsub hm5 ?_⟩
      intro x hx hx5
      exact List.le_of_mem_argmax ((hmem x).mpr ⟨hx, hx5⟩) harg.symm

def bestKey (cards : List Card) : Key :=
  match evaluateBestFiveCards σ (toCardValues cards) with
  | .ok (_, best) => handKey σ best
  | .error _ => toKey []

theorem bestKey_spec (h : PokerCards) : IsBestKey σ h.cards (bestKey σ h.cards) := by
  obtain ⟨m, hm, -, -, hbest⟩ := evaluateBestFiveCards_spec σ h
  rw [bestKey, hm]
  exact hbest

/-! ### Comparison and evaluation -/

theorem cmp_handKey {m n : List CardValue} (hm : m.length = 5) (hn : n.length = 5) :
    cmp (handKey σ m) (handKey σ n) =
      if rankOfFive σ m ≠ rankOfFive σ n then
        cmp ((rankOfFive σ m).toNat - (rankOfFive σ n).toNat : ℤ) 0
      else cmp (firstDifference (getComparisonKey σ m (rankOfFive σ m))
        (getComparisonKey σ n (rankOfFive σ n))) 0 := by
  rw [handKey, handKey]
  by_cases hr : rankOfFive σ m ≠ rankOfFive σ n
  · have hne : ((rankOfFive σ m).toNat : ℤ) ≠ (rankOfFive σ n).toNat := by
      rw [ne_eq, Int.ofNat_inj, HandRank.toNat_injective.eq_iff]
      exact hr
    rw [if_pos hr, cmp_sub_zero, cmp_cons_of_ne hne]
  · have heq : rankOfFive σ m = rankOfFive σ n := not_not.mp hr
    rw [if_neg hr]
    have hlen : (getComparisonKey σ m (rankOfFive σ m)).length
        = (getComparisonKey σ n (rankOfFive σ n)).length := by
      rw [getComparisonKey_length σ hm, getComparisonKey_length σ hn, heq]
    have hcast : ((rankOfFive σ m).toNat : ℤ) = (rankOfFive σ n).toNat := by rw [heq]
    rw [hcast, cmp_cons_self, cmp_firstDifference hlen]

/-- `compare` has the sign of the order of the best values. -/
theorem compare_spec {a b : PokerCards} {ka kb : Key} (ha : IsBestKey σ a.cards ka)
    (hb : IsBestKey σ b.cards kb) :
    ∃ x, HandRanking.compare σ a.cards b.cards = .ok x ∧ cmp x 0 = cmp ka kb := by
  obtain ⟨m, hm, -, hm5, hmbest⟩ := evaluateBestFiveCards_spec σ a
  obtain ⟨n, hn, -, hn5, hnbest⟩ := evaluateBestFiveCards_spec σ b
  rw [ha.unique σ hmbest, hb.unique σ hnbest, cmp_handKey σ hm5 hn5]
  rw [HandRanking.compare, hm, hn]
  by_cases hr : rankOfFive σ m ≠ rankOfFive σ n
  · refine ⟨_, if_pos hr, ?_⟩
    rw [if_pos hr]
  · refine ⟨_, if_neg hr, ?_⟩
    rw [if_neg hr]

theorem HandRank.highCard_le (r : HandRank) : .highCard ≤ r := Nat.zero_le r.toNat

theorem foldl_max_of_ranks {α : Type*} (f : α → HandRank) {l : List α} (hl : l ≠ []) :
    (∃ c ∈ l, f c = l.foldl (fun best c => if best < f c then f c else best) .highCard) ∧
      ∀ c ∈ l, f c ≤ l.foldl (fun best c => if best < f c then f c else best) .highCard := by
  have harg := foldl_better_eq_argmax id HandRank.highCard (l.map f)
  simp only [List.foldl_map, id_eq] at harg
  have hle : ∀ c ∈ l, f c ≤ l.foldl (fun best c => if best < f c then f c else best) .highCard :=
    fun c hc => List.le_of_mem_argmax (f := id)
      (List.mem_cons_of_mem _ (List.mem_map_of_mem hc)) harg.symm
  refine ⟨?_, hle⟩
  rcases List.mem_cons.mp (List.argmax_mem harg.symm) with hlow | hin
  · obtain ⟨c, cs, rfl⟩ := List.exists_cons_of_ne_nil hl
    refine ⟨c, by simp, le_antisymm (hle c (by simp)) ?_⟩
    rw [hlow]
    exact HandRank.highCard_le _
  · obtain ⟨c, hc, hr⟩ := List.mem_map.mp hin
    exact ⟨c, hc, hr⟩

/-- `evaluate` returns the rank of a choice of five that no choice exceeds. -/
theorem evaluate_spec (h : PokerCards) :
    ∃ r, HandRanking.evaluate σ h.cards = .ok r ∧
      (∃ five, FiveOf h.cards five ∧ rankOfFive σ five = r) ∧
      ∀ five, FiveOf h.cards five → rankOfFive σ five ≤ r := by
  have hge := h.five_le
  have hle := h.le_seven
  have hlen : (toCardValues h.cards).length = h.cards.length := List.length_map _
  have hsize : ¬(h.cards.length < 5 ∨ 7 < h.cards.length) := by omega
  rw [HandRanking.evaluate, if_neg hsize]
  by_cases h5 : h.cards.length = 5
  · have hv5 := hlen.trans h5
    rw [if_pos h5, evaluateFiveCards_ok σ hv5]
    refine ⟨_, rfl, ⟨_, .of_sublist (List.Sublist.refl _) hv5, rfl⟩, ?_⟩
    intro five hh
    obtain ⟨hsub, hf5⟩ := hh
    have hperm := hsub.perm_of_length_le (hv5.trans hf5.symm).le
    rw [rankOfFive_congr σ σ hperm]
  · rw [if_neg h5]
    have hlist : ∀ c ∈ generateCombinations (toCardValues h.cards),
        c.Sublist (toCardValues h.cards) ∧ c.length = 5 :=
      fun c hc => (mem_generateCombinations hge).mp hc
    rw [foldlM_ok (g := fun best c => if best < rankOfFive σ c then rankOfFive σ c else best) _
      fun c hc best => by rw [evaluateFiveCards_ok σ (hlist c hc).2]; rfl]
    have hmax := foldl_max_of_ranks (rankOfFive σ) (generateCombinations_ne_nil hge)
    refine ⟨_, rfl, ?_, ?_⟩
    · obtain ⟨c, hc, hr⟩ := hmax.1
      exact ⟨c, .of_sublist (hlist c hc).1 (hlist c hc).2, hr⟩
    · intro five hh
      obtain ⟨⟨c, hperm, hc⟩, hf5⟩ := hh
      have hc5 := hperm.length_eq.trans hf5
      rw [← rankOfFive_congr σ σ hperm]
      exact hmax.2 c ((mem_generateCombinations hge).mpr ⟨hc, hc5⟩)

end Best

/-! ### The order of hands -/

theorem sign_eq_of_cmp {x y : ℤ} (h : cmp x 0 = cmp y 0) : x.sign = y.sign := by
  rcases lt_trichotomy y 0 with hy | rfl | hy
  · rw [(cmp_eq_lt_iff y 0).mpr hy, cmp_eq_lt_iff] at h
    rw [Int.sign_eq_neg_one_of_neg hy, Int.sign_eq_neg_one_of_neg h]
  · rw [cmp_self_eq_eq, cmp_eq_eq_iff] at h
    rw [h]
  · rw [(cmp_eq_gt_iff y 0).mpr hy, cmp_eq_gt_iff] at h
    rw [Int.sign_eq_one_of_pos hy, Int.sign_eq_one_of_pos h]

theorem nonneg_iff_of_cmp {x : ℤ} {k l : Key} (h : cmp x 0 = cmp k l) : 0 ≤ x ↔ l ≤ k := by
  rw [← not_lt, ← not_lt, ← cmp_eq_lt_iff, ← cmp_eq_lt_iff, h]

theorem pos_iff_of_cmp {x : ℤ} {k l : Key} (h : cmp x 0 = cmp k l) : 0 < x ↔ l < k := by
  rw [← cmp_eq_gt_iff, ← cmp_eq_gt_iff k l, h]

theorem bestKey_lt_of_rank_lt (σ : MapOrder) {a b : PokerCards} {ka kb : Key} {ra rb : HandRank}
    (hka : IsBestKey σ a.cards ka) (hkb : IsBestKey σ b.cards kb)
    (hra : ∃ five, FiveOf a.cards five ∧ rankOfFive σ five = ra)
    (hrb : ∀ five, FiveOf b.cards five → rankOfFive σ five ≤ rb) (h : rb < ra) : kb < ka := by
  obtain ⟨m, hm, rfl⟩ := hra
  obtain ⟨n, hn, rfl⟩ := hkb.1
  refine lt_of_lt_of_le ?_ (hka.2 ⟨m, hm, rfl⟩)
  exact (handKey_lt_iff σ hn.2 hm.2).mpr (.inl ((hrb n hn).trans_lt h))

/-- On lists of five to seven cards `compare` returns, and its signs are those
of a total preorder: antisymmetric, transitive, the same for every order of the
cards and of the tables, in agreement with `evaluate`, and monotone in the cards. -/
theorem compare_totalPreorder (σ : MapOrder) (a b c : PokerCards) :
    ∃ ab ba bc ac : ℤ,
      HandRanking.compare σ a.cards b.cards = .ok ab ∧
      HandRanking.compare σ b.cards a.cards = .ok ba ∧
      HandRanking.compare σ b.cards c.cards = .ok bc ∧
      HandRanking.compare σ a.cards c.cards = .ok ac ∧
      ab.sign = -ba.sign ∧
      (0 ≤ ab → 0 ≤ bc → 0 ≤ ac) ∧
      (∀ (σ' : MapOrder) (a' b' : List Card), a.cards.Perm a' → b.cards.Perm b' →
        ∃ x, HandRanking.compare σ' a' b' = .ok x ∧ x.sign = ab.sign) ∧
      (∃ ra rb, HandRanking.evaluate σ a.cards = .ok ra ∧ HandRanking.evaluate σ b.cards = .ok rb ∧
        (rb < ra → 0 < ab)) ∧
      (a.cards.Sublist b.cards → 0 ≤ ba) := by
  have hka := bestKey_spec σ a
  have hkb := bestKey_spec σ b
  have hkc := bestKey_spec σ c
  obtain ⟨ab, hab, sab⟩ := compare_spec σ hka hkb
  obtain ⟨ba, hba, sba⟩ := compare_spec σ hkb hka
  obtain ⟨bc, hbc, sbc⟩ := compare_spec σ hkb hkc
  obtain ⟨ac, hac, sac⟩ := compare_spec σ hka hkc
  refine ⟨ab, ba, bc, ac, hab, hba, hbc, hac, ?_, ?_, ?_, ?_, ?_⟩
  · have hneg : cmp ab 0 = cmp (-ba) 0 := by
      rw [sab, ← cmp_swap, ← sba, cmp_swap, ← cmp_sub_zero 0 ba, zero_sub]
    rw [sign_eq_of_cmp hneg, Int.sign_neg]
  · intro h1 h2
    rw [nonneg_iff_of_cmp sab] at h1
    rw [nonneg_iff_of_cmp sbc] at h2
    exact (nonneg_iff_of_cmp sac).mpr (h2.trans h1)
  · intro σ' a' b' ha hb
    have hsize : ∀ {l l' : List Card}, l.Perm l' → 5 ≤ l.length ∧ l.length ≤ 7 →
        5 ≤ l'.length ∧ l'.length ≤ 7 := fun hp h => hp.length_eq ▸ h
    obtain ⟨x, hx, sx⟩ := compare_spec σ' (a := ⟨a', hsize ha a.property⟩)
      (b := ⟨b', hsize hb b.property⟩) (hka.congr σ σ' ha) (hkb.congr σ σ' hb)
    exact ⟨x, hx, sign_eq_of_cmp (sx.trans sab.symm)⟩
  · obtain ⟨ra, hra, hra', -⟩ := evaluate_spec σ a
    obtain ⟨rb, hrb, -, hrb'⟩ := evaluate_spec σ b
    refine ⟨ra, rb, hra, hrb, fun h => ?_⟩
    exact (pos_iff_of_cmp sab).mpr (bestKey_lt_of_rank_lt σ hka hkb hra' hrb' h)
  · intro h
    exact (nonneg_iff_of_cmp sba).mpr (hka.mono σ h hkb)

end HeadsUp.Core
