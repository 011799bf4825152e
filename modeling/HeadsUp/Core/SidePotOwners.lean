import HeadsUp.Core.Showdown
import HeadsUp.Core.SidePots
import HeadsUp.Core.HandBets
import HeadsUp.Core.Distribution

/-!
# The owners of the side pots (`core/hand.cpp`, `core/pot.cpp`)

`determineWinners` names one player for the whole hand, the first of the highest
category, and `distributePot` pays him the pots he is eligible for. As long as
`int`s hold what can be won, the pots all find their owners exactly when nobody who
is in a pot has bet more than he has, or has cards as good as his.
-/

namespace HeadsUp.Core
open HeadsUp.Lib

/-- The unfolded players eligible for a pot. -/
def contenders (hand : Hand) (pot : SidePot) : List PlayerRef :=
  (activePlayers hand).filter fun p => pot.eligiblePlayers.contains p

/-- Those of them whose cards no other one's beat. -/
def owners (σ : MapOrder) (heap : Heap) (hand : Hand) (pot : SidePot) : List PlayerRef :=
  (contenders hand pot).filter fun p => (contenders hand pot).all fun q => !beats σ heap hand q p

/-- A hand at showdown with its bets split into side pots. -/
structure SidePotHand (sort : IndexSort) (heap : Heap) (hand : Hand) : Prop where
  nodup : hand.players.Nodup
  board : hand.communityCards.length = 5
  holeCards : ∀ p ∈ activePlayers hand, (heap p).holeCards.length ≤ 2
  bets : ∀ b ∈ hand.playerBets, 0 ≤ b
  pot : hand.pot = 0
  sidePots : Pot.calculateSidePots sort hand.players hand.playerBets = .ok hand.sidePots

/-- What distribution should do: no pot with a contender is left, and each has
gone to its owners, in equal parts. -/
structure FoundOwners (σ : MapOrder) (heap : Heap) (hand : Hand) (r : Heap × Hand) : Prop where
  left : ∀ pot ∈ r.2.sidePots, contenders hand pot = []
  paid : ∃ wons, r.1 = heap.credit (List.sum wons) ∧ List.Forall₂ (fun pot won =>
    FairSplit (paidOut pot.amount (owners σ heap hand pot)) (owners σ heap hand pot) won)
      hand.sidePots wons

def SidePotsFindOwners (σ : MapOrder) (heap : Heap) (hand : Hand) : Prop :=
  ∃ winners r, Poker.determineWinners σ heap hand = .ok winners ∧
    Pot.distributeInts heap hand winners = some r ∧ FoundOwners σ heap hand r

/-- The bets together, and on top of the stack of any player left, are an `int`. -/
structure BetsFit (heap : Heap) (hand : Hand) : Prop where
  above : ∀ p ∈ activePlayers hand, -2 ^ 31 ≤ (heap p).stack ∧
    (heap p).stack + hand.playerBets.sum < 2 ^ 31
  sum : hand.playerBets.sum < 2 ^ 31

/-- The first unfolded player of the highest category beats every other one who
has bet, and none of them has bet more. -/
def FirstCoversOthers (σ : MapOrder) (heap : Heap) (hand : Hand) : Prop :=
  ∀ l₁ p l₂, activePlayers hand = l₁ ++ p :: l₂ →
    (∀ q ∈ l₁, showdownRank σ heap hand q < showdownRank σ heap hand p) →
    (∀ q ∈ l₂, showdownRank σ heap hand q ≤ showdownRank σ heap hand p) →
    ∀ q ∈ activePlayers hand, q ≠ p → 0 < ownBet hand q →
      ownBet hand q ≤ ownBet hand p ∧ beats σ heap hand p q = true

variable {σ : MapOrder} {sort : IndexSort} {heap : Heap} {hand : Hand}

theorem mem_contenders {pot : SidePot} {p : PlayerRef} :
    p ∈ contenders hand pot ↔ p ∈ activePlayers hand ∧ p ∈ pot.eligiblePlayers := by
  rw [contenders, List.mem_filter, List.contains_iff_mem]

theorem mem_owners {pot : SidePot} {p : PlayerRef} : p ∈ owners σ heap hand pot ↔
    p ∈ contenders hand pot ∧ ∀ q ∈ contenders hand pot, ¬beats σ heap hand q p = true := by
  simp [owners, List.mem_filter]

/-! ### The pots -/

/-- A pot is for the players who have bet up to its level. -/
structure PotAt (hand : Hand) (level : ℤ) (pot : SidePot) : Prop where
  positive : 0 < level
  eligible : ∀ p ∈ hand.players, p ∈ pot.eligiblePlayers ↔ level ≤ ownBet hand p
  amount : 0 < pot.amount
  /-- There is a chip for each of them. -/
  enough : (pot.eligiblePlayers.length : ℤ) ≤ pot.amount

namespace SidePotHand

theorem hasCards (h : SidePotHand sort heap hand) :
    ∀ p ∈ activePlayers hand, HasCards heap hand p := by
  intro p hp
  have htwo := h.holeCards p hp
  have hfive := h.board
  rw [HasCards, showdownCards, List.length_append]
  omega

theorem length_eq (h : SidePotHand sort heap hand) :
    hand.players.length = hand.playerBets.length := by
  have hpots := h.sidePots
  rw [Pot.calculateSidePots] at hpots
  split_ifs at hpots with hlen
  exact not_not.mp hlen

theorem potAt_of_layer (h : SidePotHand sort heap hand) {layer : ℤ × ℤ} {pot : SidePot}
    (hmem : layer ∈ betLayers hand.playerBets)
    (hpot : PotOfLayer hand.players hand.playerBets (sort.apply hand.playerBets) layer pot) :
    PotAt hand layer.1 pot where
  positive := (mem_levelsAbove.mp (level_of_mem_layers hmem)).2
  eligible := by
    intro p hp
    have hi : hand.players.idxOf p < hand.players.length := List.idxOf_lt_length_iff.mpr hp
    have hself : hand.players.getD (hand.players.idxOf p) 0 = p := by
      rw [List.getD_eq_getElem _ _ hi, List.getElem_idxOf hi]
    have hiff := hpot.mem_iff (sort.perm _) h.length_eq h.nodup hi
    rwa [hself] at hiff
  amount := hpot.amount_pos (sort.perm _) hmem
  enough := by
    have hheight : 0 < layer.2 := layers_pos (levels_sorted _) layer hmem
    rw [hpot.amount]
    exact le_mul_of_one_le_left (Int.natCast_nonneg _) hheight

theorem exists_level (h : SidePotHand sort heap hand) (hsum : hand.playerBets.sum < 2 ^ 31)
    {pot : SidePot} (hpot : pot ∈ hand.sidePots) : ∃ level, PotAt hand level pot := by
  obtain ⟨hcount, hof⟩ :=
    List.forall₂_iff_get.mp (calculateSidePots_potOfLayer h.bets hsum h.sidePots)
  obtain ⟨k, hk, rfl⟩ := List.getElem_of_mem hpot
  exact ⟨_, h.potAt_of_layer (List.getElem_mem (hcount ▸ hk)) (hof k (hcount ▸ hk) hk)⟩

/-- Whoever has bet is in the pot of the level of his bet. -/
theorem exists_pot (h : SidePotHand sort heap hand) (hsum : hand.playerBets.sum < 2 ^ 31)
    {p : PlayerRef} (hp : p ∈ hand.players) (hbet : 0 < ownBet hand p) :
    ∃ pot ∈ hand.sidePots, PotAt hand (ownBet hand p) pot := by
  have hi : hand.players.idxOf p < hand.playerBets.length := by
    rw [← h.length_eq]
    exact List.idxOf_lt_length_iff.mpr hp
  have hlevel : ownBet hand p ∈ (betLayers hand.playerBets).map Prod.fst := by
    rw [betLayers, layers_map_fst]
    exact mem_levelsAbove.mpr ⟨seatBet_mem hi, hbet⟩
  obtain ⟨layer, hmem, hsame⟩ := List.mem_map.mp hlevel
  obtain ⟨hcount, hof⟩ :=
    List.forall₂_iff_get.mp (calculateSidePots_potOfLayer h.bets hsum h.sidePots)
  obtain ⟨k, hk, rfl⟩ := List.getElem_of_mem hmem
  rw [← hsame]
  exact ⟨_, List.getElem_mem (hcount ▸ hk), h.potAt_of_layer hmem (hof k hk (hcount ▸ hk))⟩

theorem amounts_nonneg (h : SidePotHand sort heap hand) (hsum : hand.playerBets.sum < 2 ^ 31) :
    ∀ pot ∈ hand.sidePots, 0 ≤ pot.amount :=
  calculateSidePots_nonneg h.sidePots h.bets hsum

/-! ### The winner -/

theorem determineWinners_of_split (h : SidePotHand sort heap hand) {l₁ l₂ : List PlayerRef}
    {p : PlayerRef} (hsplit : activePlayers hand = l₁ ++ p :: l₂)
    (hlt : ∀ q ∈ l₁, showdownRank σ heap hand q < showdownRank σ heap hand p)
    (hle : ∀ q ∈ l₂, showdownRank σ heap hand q ≤ showdownRank σ heap hand p) :
    Poker.determineWinners σ heap hand = .ok [p] := by
  by_cases hmany : 2 ≤ (activePlayers hand).length
  · exact determineWinners_eq ⟨hmany, h.hasCards⟩ hsplit hlt hle
  · refine determineWinners_of_single ?_
    rw [hsplit, List.length_append, List.length_cons] at hmany
    have hl₁ : l₁ = [] := List.eq_nil_of_length_eq_zero (by omega)
    have hl₂ : l₂ = [] := List.eq_nil_of_length_eq_zero (by omega)
    rw [hsplit, hl₁, hl₂, List.nil_append]

theorem determineWinners_of_none (hnone : activePlayers hand = []) :
    Poker.determineWinners σ heap hand = .ok [] := by
  rw [Poker.determineWinners, hnone]
  by_cases hplayers : hand.players = []
  · rw [if_pos hplayers]
  · rw [if_neg hplayers, if_neg (by simp), List.mapM_nil]
    rfl

/-! ### When the pots find their owners -/

/-- With nothing in the main pot the winners are paid from the side pots alone. -/
theorem distributed (h : SidePotHand sort heap hand) (hsum : hand.playerBets.sum < 2 ^ 31)
    {winners : List PlayerRef} (hnd : winners.Nodup) :
    (Pot.distributePot heap hand winners).2.sidePots = leftPots winners hand.sidePots ∧
      ∃ wons, (Pot.distributePot heap hand winners).1 = heap.credit (List.sum wons) ∧
        List.Forall₂ (fun pot won => FairSplit (paidOut pot.amount (entitled winners pot))
          (entitled winners pot) won) hand.sidePots wons := by
  have hdist := distributePot_distributed heap hnd h.pot.ge (h.amounts_nonneg hsum)
  obtain ⟨main, sides, hr, hmain, hsides⟩ := hdist.splits
  refine ⟨by rw [hdist.pots], sides, ?_, hsides⟩
  have hzero : paidOut hand.pot winners = 0 := by rw [paidOut, h.pot, ite_self]
  rw [hr, (hzero ▸ hmain : FairSplit 0 winners main).of_zero, zero_add]

/-- Where the winners of each pot are its owners, all is well. -/
theorem foundOwners_of_entitled (h : SidePotHand sort heap hand)
    (hsum : hand.playerBets.sum < 2 ^ 31) {winners : List PlayerRef} (hnd : winners.Nodup)
    (hown : ∀ pot ∈ hand.sidePots, owners σ heap hand pot = entitled winners pot)
    (hleft : ∀ pot ∈ hand.sidePots, entitled winners pot = [] → contenders hand pot = []) :
    FoundOwners σ heap hand (Pot.distributePot heap hand winners) := by
  obtain ⟨hpots, wons, hr, hfair⟩ := h.distributed hsum hnd
  constructor
  · intro pot hpot
    rw [hpots, mem_leftPots] at hpot
    exact hleft pot hpot.1 hpot.2.2
  · refine ⟨wons, hr, ?_⟩
    have hboth := (List.forall₂_and_left _ _).mpr ⟨hown, hfair⟩
    refine hboth.imp fun pot won hh => ?_
    rw [hh.1]
    exact hh.2

theorem contenders_nodup (h : SidePotHand sort heap hand) (pot : SidePot) :
    (contenders hand pot).Nodup :=
  (nodup_activePlayers h.nodup).filter _

theorem owners_nodup (h : SidePotHand sort heap hand) (pot : SidePot) :
    (owners σ heap hand pot).Nodup :=
  (h.contenders_nodup pot).filter _

theorem contender_beats_iff (h : SidePotHand sort heap hand) {pot : SidePot} {p q : PlayerRef}
    (hp : p ∈ contenders hand pot) (hq : q ∈ contenders hand pot) :
    beats σ heap hand p q = true ↔
      bestKey σ (showdownCards heap hand q) < bestKey σ (showdownCards heap hand p) :=
  beats_iff (h.hasCards p (mem_contenders.mp hp).1) (h.hasCards q (mem_contenders.mp hq).1)

theorem owners_single (h : SidePotHand sort heap hand) {pot : SidePot} {p : PlayerRef}
    (hp : p ∈ contenders hand pot)
    (hbeats : ∀ q ∈ contenders hand pot, q ≠ p → beats σ heap hand p q = true) :
    owners σ heap hand pot = [p] := by
  have hmem : ∀ q, q ∈ owners σ heap hand pot ↔ q ∈ [p] := by
    intro q
    rw [mem_owners, List.mem_singleton]
    constructor
    · intro hh
      obtain ⟨hq, hnobody⟩ := hh
      by_contra hne
      exact hnobody p hp (hbeats q hq hne)
    · rintro rfl
      refine ⟨hp, fun r hr => ?_⟩
      rw [h.contender_beats_iff hr hp, not_lt]
      by_cases hsame : r = q
      · rw [hsame]
      · exact ((h.contender_beats_iff hp hr).mp (hbeats r hr hsame)).le
  exact List.perm_singleton.mp
    ((List.perm_ext_iff_of_nodup (h.owners_nodup pot) (List.nodup_singleton p)).mpr hmem)

/-- The best of the contenders own the pot. -/
theorem exists_owner (h : SidePotHand sort heap hand) {pot : SidePot}
    (hne : contenders hand pot ≠ []) : ∃ m, m ∈ owners σ heap hand pot := by
  obtain ⟨l₁, m, l₂, hsplit, hlt, hle⟩ :=
    exists_split (fun q => bestKey σ (showdownCards heap hand q)) hne
  have hm : m ∈ contenders hand pot := by rw [hsplit]; simp
  refine ⟨m, mem_owners.mpr ⟨hm, fun q hq => ?_⟩⟩
  rw [h.contender_beats_iff hq hm, not_lt]
  rw [hsplit, List.mem_append, List.mem_cons] at hq
  rcases hq with hq | rfl | hq
  · exact (hlt q hq).le
  · exact le_refl _
  · exact hle q hq

theorem foundOwners_of_covers (h : SidePotHand sort heap hand)
    (hsum : hand.playerBets.sum < 2 ^ 31) {p : PlayerRef} (hp : p ∈ activePlayers hand)
    (hcovers : ∀ q ∈ activePlayers hand, q ≠ p → 0 < ownBet hand q →
      ownBet hand q ≤ ownBet hand p ∧ beats σ heap hand p q = true) :
    FoundOwners σ heap hand (Pot.distributePot heap hand [p]) := by
  -- whoever contends for a pot has bet, so that the winner contends for it too
  have hin : ∀ pot ∈ hand.sidePots, ∀ q ∈ contenders hand pot, q ≠ p →
      p ∈ contenders hand pot ∧ beats σ heap hand p q = true := by
    intro pot hpot q hq hne
    obtain ⟨level, hat⟩ := h.exists_level hsum hpot
    obtain ⟨hqact, hqel⟩ := mem_contenders.mp hq
    have hreach := (hat.eligible q (activePlayers_mem hqact)).mp hqel
    obtain ⟨hle, hbeats⟩ := hcovers q hqact hne (hat.positive.trans_le hreach)
    exact ⟨mem_contenders.mpr ⟨hp, (hat.eligible p (activePlayers_mem hp)).mpr (hreach.trans hle)⟩,
      hbeats⟩
  have hnone : ∀ pot ∈ hand.sidePots, p ∉ contenders hand pot → contenders hand pot = [] := by
    intro pot hpot hnot
    rw [List.eq_nil_iff_forall_not_mem]
    intro q hq
    by_cases hqp : q = p
    · exact hnot (hqp ▸ hq)
    · exact hnot (hin pot hpot q hq hqp).1
  have hentitled : ∀ pot, entitled [p] pot = if p ∈ contenders hand pot then [p] else [] := by
    intro pot
    simp [entitled, mem_contenders, hp, List.filter_singleton]
  refine h.foundOwners_of_entitled hsum (List.nodup_singleton p) ?_ ?_
  · intro pot hpot
    rw [hentitled]
    split_ifs with hmem
    · exact h.owners_single hmem fun q hq hne => (hin pot hpot q hq hne).2
    · rw [owners, hnone pot hpot hmem, List.filter_nil]
  · intro pot hpot hempty
    rw [hentitled] at hempty
    split_ifs at hempty with hmem
    exact hnone pot hpot hmem

end SidePotHand

/-- Only the code's winner gets chips, and each owner of a pot is due some. -/
theorem FoundOwners.owner_eq (h : SidePotHand sort heap hand)
    (hsum : hand.playerBets.sum < 2 ^ 31) {p : PlayerRef}
    (hf : FoundOwners σ heap hand (Pot.distributePot heap hand [p])) {pot : SidePot}
    (hpot : pot ∈ hand.sidePots) {q : PlayerRef} (hq : q ∈ owners σ heap hand pot) : q = p := by
  by_contra hne
  obtain ⟨wons, hr, hfair⟩ := hf.paid
  have hsame : (Pot.distributePot heap hand [p]).1 q = heap q :=
    (distributePot_distributed heap (List.nodup_singleton p) h.pot.ge
      (h.amounts_nonneg hsum)).others q (by simpa using hne)
  have hnone : (List.sum wons) q = 0 := by
    have hstack := congrArg Player.stack hsame
    rw [hr, credit_stack] at hstack
    omega
  obtain ⟨hcount, hof⟩ := List.forall₂_iff_get.mp hfair
  obtain ⟨k, hk, rfl⟩ := List.getElem_of_mem hpot
  have hwon := hof k hk (hcount ▸ hk)
  have hnonneg : ∀ won ∈ wons, 0 ≤ won q := by
    intro won hmem
    obtain ⟨j, hj, rfl⟩ := List.getElem_of_mem hmem
    exact (hof j (hcount ▸ hj) hj).nonneg q
  have hzero := eq_zero_of_sum_apply hnonneg hnone _ (List.getElem_mem (hcount ▸ hk))
  -- the pot has a chip for each owner
  obtain ⟨level, hat⟩ := h.exists_level hsum hpot
  have hsub : (owners σ heap hand hand.sidePots[k]).length
      ≤ hand.sidePots[k].eligiblePlayers.length := by
    refine ((h.owners_nodup _).subperm fun x hx => ?_).length_le
    exact (mem_contenders.mp (mem_owners.mp hx).1).2
  have hmany : ((owners σ heap hand hand.sidePots[k]).length : ℤ)
      ≤ paidOut hand.sidePots[k].amount (owners σ heap hand hand.sidePots[k]) := by
    rw [paidOut, if_neg (List.ne_nil_of_mem hq)]
    have henough := hat.enough
    omega
  have hpos := FairSplit.pos hwon hmany hq
  exact absurd hzero hpos.ne'

theorem FoundOwners.covers (h : SidePotHand sort heap hand)
    (hsum : hand.playerBets.sum < 2 ^ 31) {p : PlayerRef} (hp : p ∈ activePlayers hand)
    (hf : FoundOwners σ heap hand (Pot.distributePot heap hand [p])) {q : PlayerRef}
    (hq : q ∈ activePlayers hand) (hne : q ≠ p) (hbet : 0 < ownBet hand q) :
    ownBet hand q ≤ ownBet hand p ∧ beats σ heap hand p q = true := by
  obtain ⟨pot, hpot, hat⟩ := h.exists_pot hsum (activePlayers_mem hq) hbet
  have hqin : q ∈ contenders hand pot :=
    mem_contenders.mpr ⟨hq, (hat.eligible q (activePlayers_mem hq)).mpr (le_refl _)⟩
  have hpin : p ∈ contenders hand pot := by
    by_contra hnot
    have hleft : pot ∈ leftPots [p] hand.sidePots := by
      refine mem_leftPots.mpr ⟨hpot, hat.amount, ?_⟩
      have hnotel : p ∉ pot.eligiblePlayers := fun hel => hnot (mem_contenders.mpr ⟨hp, hel⟩)
      simp [entitled, hnotel]
    rw [← (h.distributed hsum (List.nodup_singleton p)).1] at hleft
    rw [hf.left pot hleft] at hqin
    cases hqin
  refine ⟨(hat.eligible p (activePlayers_mem hp)).mp (mem_contenders.mp hpin).2, ?_⟩
  -- the pot has an owner, so he is the code's winner, and nobody else is
  obtain ⟨m, hm⟩ := @SidePotHand.exists_owner σ _ _ _ h _ (List.ne_nil_of_mem hqin)
  obtain rfl := hf.owner_eq h hsum hpot hm
  have hnot : q ∉ owners σ heap hand pot := fun hown => hne (hf.owner_eq h hsum hpot hown)
  rw [mem_owners, not_and] at hnot
  have hbeaten := hnot hqin
  push Not at hbeaten
  obtain ⟨r, hr, hrq⟩ := hbeaten
  have hrm := (mem_owners.mp hm).2 r hr
  rw [h.contender_beats_iff hr hpin, not_lt] at hrm
  exact (h.contender_beats_iff hpin hqin).mpr
    (((h.contender_beats_iff hr hqin).mp hrq).trans_le hrm)

/-- What is won fits. -/
theorem SidePotHand.distributeInts (h : SidePotHand sort heap hand) (hfit : BetsFit heap hand)
    {winners : List PlayerRef} (hnd : winners.Nodup) (hmem : ∀ w ∈ winners, w ∈ activePlayers hand) :
    Pot.distributeInts heap hand winners = some (Pot.distributePot heap hand winners) := by
  have hsides := h.amounts_nonneg hfit.sum
  have hdist := distributePot_distributed heap hnd h.pot.ge hsides
  refine Pot.distributeInts_eq_some_iff.mpr ⟨rfl, fun w hw => ?_⟩
  obtain ⟨hge, hle⟩ := hdist.stack_le h.pot.ge hsides w
  obtain ⟨hlow, hhigh⟩ := hfit.above w (hmem w hw)
  rw [h.pot, calculateSidePots_sum h.sidePots h.bets hfit.sum] at hle
  exact ⟨hlow.trans hge, by omega⟩

/-- The side pots find their owners exactly when the code's one winner has the
best cards and the deepest bet of the players left. -/
theorem sidePotsFindOwners_iff (h : SidePotHand sort heap hand) (hfit : BetsFit heap hand) :
    SidePotsFindOwners σ heap hand ↔ FirstCoversOthers σ heap hand := by
  constructor
  · intro hfound l₁ p l₂ hsplit hlt hle q hq hne hbet
    obtain ⟨winners, r, hwin, hpaid, hf⟩ := hfound
    rw [h.determineWinners_of_split hsplit hlt hle] at hwin
    obtain rfl := Except.ok.inj hwin
    obtain ⟨rfl, -⟩ := Pot.distributeInts_eq_some_iff.mp hpaid
    have hp : p ∈ activePlayers hand := by rw [hsplit]; simp
    exact hf.covers h hfit.sum hp hq hne hbet
  · intro hcovers
    by_cases hnone : activePlayers hand = []
    · refine ⟨[], _, SidePotHand.determineWinners_of_none hnone,
        h.distributeInts hfit List.nodup_nil (by simp), ?_⟩
      have hempty : ∀ pot, contenders hand pot = [] := by
        intro pot
        rw [contenders, hnone, List.filter_nil]
      refine h.foundOwners_of_entitled hfit.sum List.nodup_nil (fun pot _ => ?_)
        fun pot _ _ => hempty pot
      rw [owners, hempty, entitled, List.filter_nil, List.filter_nil]
    · obtain ⟨l₁, p, l₂, hsplit, hlt, hle⟩ := exists_split (showdownRank σ heap hand) hnone
      have hp : p ∈ activePlayers hand := by rw [hsplit]; simp
      exact ⟨[p], _, h.determineWinners_of_split hsplit hlt hle,
        h.distributeInts hfit (List.nodup_singleton p) (by simpa using hp),
        h.foundOwners_of_covers hfit.sum hp (hcovers l₁ p l₂ hsplit hlt hle)⟩

/-! ### Aces against kings -/

def acesKings : Heap :=
  holding [.ofRankSuit .ace .clubs, .ofRankSuit .ace .diamonds]
    [.ofRankSuit .king .clubs, .ofRankSuit .king .diamonds]

/-- The aces have bet more than the kings; a third player has folded. -/
def deepAces : Hand :=
  { riverHand lowBoard with
    players := [0, 1, 2]
    pot := 0
    sidePots := [⟨30, [1, 0, 2]⟩, ⟨40, [0, 2]⟩, ⟨10, [2]⟩]
    playerBets := [30, 10, 40]
    folded := [false, false, true]
    currentBettingRound := .showdown }

theorem sidePotsFindOwners_iff_deepAces :
    SidePotsFindOwners (Shuffle.refl _) acesKings deepAces := by
  have hhand : SidePotHand .stable acesKings deepAces :=
    ⟨by decide, rfl, by decide, by decide, rfl, rfl⟩
  have hactive : activePlayers deepAces = [0, 1] := by decide
  have hfit : BetsFit acesKings deepAces := ⟨by decide, by decide⟩
  refine (sidePotsFindOwners_iff hhand hfit).mpr fun l₁ p l₂ hsplit hlt _ => ?_
  rw [hactive] at hsplit ⊢
  cases l₁ with
  | nil =>
    obtain ⟨rfl, rfl⟩ := List.cons.inj hsplit
    decide +kernel
  | cons a l₁ =>
    -- the kings are no higher category than the aces
    obtain ⟨rfl, hrest⟩ := List.cons.inj hsplit
    have hmem : p ∈ [(1 : PlayerRef)] := by
      rw [hrest]
      simp
    obtain rfl := List.mem_singleton.mp hmem
    have hnot : ¬showdownRank (Shuffle.refl _) acesKings deepAces 0
        < showdownRank (Shuffle.refl _) acesKings deepAces 1 := by decide +kernel
    exact absurd (hlt 0 (by simp)) hnot

/-- The aces are all in for 10: the kings' 30 more are nobody's. -/
def shortAces : Hand :=
  { riverHand lowBoard with
    pot := 0
    sidePots := [⟨20, [0, 1]⟩, ⟨30, [1]⟩]
    playerBets := [10, 40]
    currentBettingRound := .showdown }

theorem sidePots_left_shortAces :
    SidePotHand .stable acesKings shortAces ∧ BetsFit acesKings shortAces ∧
      Poker.determineWinners (Shuffle.refl _) acesKings shortAces = .ok [0] ∧
      (Pot.distributePot acesKings shortAces [0]).2.sidePots = [⟨30, [1]⟩] ∧
      contenders shortAces ⟨30, [1]⟩ = [1] ∧
      ¬SidePotsFindOwners (Shuffle.refl _) acesKings shortAces := by
  have hwin : Poker.determineWinners (Shuffle.refl _) acesKings shortAces = .ok [0] := by
    decide +kernel
  refine ⟨⟨by decide, rfl, by decide, by decide, rfl, rfl⟩, ⟨by decide, by decide⟩, hwin,
    by decide, by decide, ?_⟩
  intro hfound
  obtain ⟨winners, r, hwinners, hpaid, hf⟩ := hfound
  rw [hwin] at hwinners
  obtain rfl := Except.ok.inj hwinners
  obtain ⟨rfl, -⟩ := Pot.distributeInts_eq_some_iff.mp hpaid
  have hnone := hf.left ⟨30, [1]⟩ (by decide)
  cases (by decide : contenders shortAces ⟨30, [1]⟩ ≠ []) hnone

/-- Two bets of 2000000000 make a pot of less than nothing. -/
def hugeBets : Hand :=
  { riverHand lowBoard with
    pot := 0
    sidePots := [⟨-294967296, [0, 1]⟩]
    playerBets := [2000000000, 2000000000]
    currentBettingRound := .showdown }

example :
    SidePotHand .stable acesKings hugeBets ∧
      Poker.determineWinners (Shuffle.refl _) acesKings hugeBets = .ok [0] ∧
      ∃ r, Pot.distributeInts acesKings hugeBets [0] = some r ∧ r.2.sidePots = [] ∧
        (r.1 0).stack = (acesKings 0).stack := by
  refine ⟨⟨by decide, rfl, by decide, by decide, rfl, rfl⟩, by decide +kernel, _,
    Pot.distributeInts_eq_some_iff.mpr ⟨rfl, by decide⟩, by decide, by decide⟩

end HeadsUp.Core
