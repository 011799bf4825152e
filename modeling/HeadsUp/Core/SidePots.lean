import HeadsUp.Lib.Layers
import HeadsUp.Core.Pot
import Mathlib.Algebra.Order.BigOperators.Group.List

/-!
# Side pots are the layers of the bets (`core/pot.cpp`)

`calculateSidePots` skips an index whose bet has the level of the last pot, so
it makes one pot a level, and the indices left at a level are those whose bets
reach it, in the order `std::sort` gave them.
-/

namespace HeadsUp.Core
open HeadsUp.Lib

/-- The distinct positive bets, ascending, each with its height over the last. -/
def betLayers (bets : List ℤ) : List (ℤ × ℤ) := layers 0 (levelsAbove 0 bets)

def seatBet (bets : List ℤ) (i : ℕ) : ℤ := bets.getD i 0

/-- The pot of a layer: its height for each of the indices that reach its level. -/
structure PotOfLayer (players : List PlayerRef) (bets : List ℤ) (indices : List ℕ)
    (layer : ℤ × ℤ) (pot : SidePot) : Prop where
  eligible : pot.eligiblePlayers
    = (indices.filter fun i => decide (layer.1 ≤ seatBet bets i)).map (players.getD · 0)
  amount : pot.amount = layer.2 * pot.eligiblePlayers.length

/-! ### The loop -/

section Loop
variable {players : List PlayerRef} {bets : List ℤ}

theorem PotOfLayer.cons {i : ℕ} {rest : List ℕ} {layer : ℤ × ℤ} {pot : SidePot}
    (hlow : seatBet bets i < layer.1) (h : PotOfLayer players bets rest layer pot) :
    PotOfLayer players bets (i :: rest) layer pot := by
  refine ⟨?_, h.amount⟩
  rw [List.filter_cons_of_neg (by simpa using hlow)]
  exact h.eligible

theorem layered_cons {i : ℕ} {rest : List ℕ} {pots : List SidePot}
    (h : List.Forall₂ (PotOfLayer players bets rest)
      (layers (seatBet bets i) (levelsAbove (seatBet bets i) (rest.map (seatBet bets)))) pots) :
    List.Forall₂ (PotOfLayer players bets (i :: rest))
      (layers (seatBet bets i) (levelsAbove (seatBet bets i) (rest.map (seatBet bets)))) pots := by
  rw [List.forall₂_iff_zip] at h ⊢
  refine ⟨h.1, fun {layer} {pot} hmem => (h.2 hmem).cons ?_⟩
  exact (mem_levelsAbove.mp (level_of_mem_layers (List.of_mem_zip hmem).1)).2

/-- The induction is on the sorted indices: the levels left are those above the
bet of the last pot. -/
theorem sidePotLoop_layered {previousBet : ℤ} {indices : List ℕ}
    (h : Ahead bets previousBet indices) :
    List.Forall₂ (PotOfLayer players bets indices)
      (layers previousBet (levelsAbove previousBet (indices.map (seatBet bets))))
      (sidePotLoop players bets previousBet indices) := by
  induction indices generalizing previousBet with
  | nil =>
    rw [List.map_nil, levelsAbove_nil]
    exact .nil
  | cons i rest ih =>
    have hi : ∀ j ∈ rest, seatBet bets i ≤ seatBet bets j := (List.pairwise_cons.mp h.sorted).1
    have hothers := layered_cons (ih h.tail)
    rw [sidePotLoop, List.map_cons]
    split_ifs with hsame
    · obtain rfl : seatBet bets i = previousBet := hsame
      rw [levelsAbove_skip (le_refl _)]
      exact hothers
    · have hlt : previousBet < seatBet bets i := lt_of_le_of_ne h.le (Ne.symm hsame)
      rw [levelsAbove_cons hlt (by simpa using hi)]
      refine .cons ⟨?_, ?_⟩ hothers
      · have hall : (i :: rest).filter (fun j => decide (seatBet bets i ≤ seatBet bets j))
            = i :: rest := by
          rw [List.filter_eq_self]
          intro j hj
          rcases List.mem_cons.mp hj with rfl | hj
          · simp
          · simpa using hi j hj
        exact congrArg (List.map (players.getD · 0)) hall.symm
      · rw [List.length_map]
        exact h.amount

end Loop

/-! ### The eligible players of a level -/

theorem map_seatBet_range (bets : List ℤ) : (List.range bets.length).map (seatBet bets) = bets := by
  apply List.ext_getElem
  · simp
  · intro i h1 h2
    simp [seatBet, List.getD_eq_getElem?_getD, h2]

theorem zip_eq_map_range {players : List PlayerRef} {bets : List ℤ}
    (hlen : players.length = bets.length) :
    players.zip bets = (List.range bets.length).map fun i => (players.getD i 0, seatBet bets i) := by
  apply List.ext_getElem
  · simp [hlen]
  · intro i h1 h2
    have hi : i < bets.length := by simpa using h2
    simp [seatBet, List.getD_eq_getElem?_getD, hi, hlen]

theorem getEligiblePlayersForPot_eq {players : List PlayerRef} {bets : List ℤ}
    (hlen : players.length = bets.length) (potThreshold : ℤ) :
    Pot.getEligiblePlayersForPot players bets potThreshold
      = .ok (((List.range bets.length).filter fun i => decide (potThreshold ≤ seatBet bets i)).map
        (players.getD · 0)) := by
  rw [Pot.getEligiblePlayersForPot, if_neg (not_not.mpr hlen), zip_eq_map_range hlen,
    List.filter_map, List.map_map]
  rfl

/-! ### The layered split -/

/-- The pots of the layers of `bets`, lowest first. A seat is eligible for the
layers up to its bet; where no player has two seats that is a matter of being
among the eligible players. -/
structure LayeredSplit (players : List PlayerRef) (bets : List ℤ) (pots : List SidePot) :
    Prop where
  positive : ∀ pot ∈ pots, 0 < pot.amount
  total : sidePotSum pots = bets.sum
  layered : List.Forall₂ (fun (layer : ℤ × ℤ) pot =>
    pot.amount = layer.2 * pot.eligiblePlayers.length ∧
      ∃ eligible, Pot.getEligiblePlayersForPot players bets layer.1 = .ok eligible ∧
        pot.eligiblePlayers.Perm eligible) (betLayers bets) pots
  shrink : pots.Pairwise fun p q =>
    (q.eligiblePlayers : Multiset PlayerRef) < (p.eligiblePlayers : Multiset PlayerRef)
  seats : ∀ i < players.length,
    (((betLayers bets).filter fun layer => decide (layer.1 ≤ seatBet bets i)).map Prod.snd).sum
      = seatBet bets i
  own : players.Nodup → ∀ i < players.length,
    ((((betLayers bets).zip pots).filter fun x =>
      decide (players.getD i 0 ∈ x.2.eligiblePlayers)).map fun x => x.1.2).sum = seatBet bets i

section Layered
variable {players : List PlayerRef} {bets : List ℤ}

theorem seatBet_nonneg (hbets : ∀ b ∈ bets, 0 ≤ b) (i : ℕ) : 0 ≤ seatBet bets i :=
  getD_nonneg hbets i

theorem seatBet_mem {i : ℕ} (hi : i < bets.length) : seatBet bets i ∈ bets := by
  rw [seatBet, List.getD_eq_getElem _ _ hi]
  exact List.getElem_mem hi

theorem levels_sorted (bets : List ℤ) : (0 :: levelsAbove 0 bets).Pairwise (· < ·) :=
  List.pairwise_cons.mpr ⟨fun _ hx => (mem_levelsAbove.mp hx).2, levelsAbove_sorted 0 bets⟩

/-- A layer's level is the bet of some seat. -/
theorem exists_seat_of_mem {layer : ℤ × ℤ} (h : layer ∈ betLayers bets) :
    ∃ i < bets.length, seatBet bets i = layer.1 := by
  have hmem := (mem_levelsAbove.mp (level_of_mem_layers h)).1
  obtain ⟨i, hi, hget⟩ := List.getElem_of_mem hmem
  exact ⟨i, hi, by rw [seatBet, List.getD_eq_getElem _ _ hi, hget]⟩

theorem sum_seatLayers (hbets : ∀ b ∈ bets, 0 ≤ b) {i : ℕ} (hi : i < bets.length) :
    (((betLayers bets).filter fun layer => decide (layer.1 ≤ seatBet bets i)).map Prod.snd).sum
      = seatBet bets i := by
  have hlevel : seatBet bets i ∈ 0 :: levelsAbove 0 bets := by
    rcases eq_or_lt_of_le (seatBet_nonneg hbets i) with hzero | hpos
    · rw [← hzero]
      exact List.mem_cons_self
    · exact List.mem_cons_of_mem _ (mem_levelsAbove.mpr ⟨seatBet_mem hi, hpos⟩)
  rw [betLayers, sum_layers_upTo (levels_sorted bets) hlevel, sub_zero]

variable {indices : List ℕ} {layer layer' : ℤ × ℤ} {pot pot' : SidePot}

theorem PotOfLayer.eligible_perm (hidx : indices.Perm (List.range bets.length))
    (h : PotOfLayer players bets indices layer pot) : pot.eligiblePlayers.Perm
      (((List.range bets.length).filter fun i => decide (layer.1 ≤ seatBet bets i)).map
        (players.getD · 0)) := by
  rw [h.eligible]
  exact (hidx.filter _).map _

theorem PotOfLayer.amount_pos (hidx : indices.Perm (List.range bets.length))
    (h : PotOfLayer players bets indices layer pot) (hlayer : layer ∈ betLayers bets) :
    0 < pot.amount := by
  obtain ⟨i, hi, hbet⟩ := exists_seat_of_mem hlayer
  have hmem : i ∈ indices.filter fun i => decide (layer.1 ≤ seatBet bets i) :=
    List.mem_filter.mpr ⟨hidx.mem_iff.mpr (List.mem_range.mpr hi), by simp [hbet]⟩
  have hlen : 0 < pot.eligiblePlayers.length := by
    rw [h.eligible, List.length_map]
    exact List.length_pos_of_mem hmem
  rw [h.amount]
  exact mul_pos (layers_pos (levels_sorted bets) layer hlayer) (by exact_mod_cast hlen)

theorem PotOfLayer.shrink (hidx : indices.Perm (List.range bets.length))
    (h : PotOfLayer players bets indices layer pot)
    (h' : PotOfLayer players bets indices layer' pot') (hlayer : layer ∈ betLayers bets)
    (hlt : layer.1 < layer'.1) :
    (pot'.eligiblePlayers : Multiset PlayerRef) < (pot.eligiblePlayers : Multiset PlayerRef) := by
  obtain ⟨i, hi, hbet⟩ := exists_seat_of_mem hlayer
  have htwice : indices.filter (fun i => decide (layer'.1 ≤ seatBet bets i))
      = (indices.filter fun i => decide (layer.1 ≤ seatBet bets i)).filter
        fun i => decide (layer'.1 ≤ seatBet bets i) := by
    rw [List.filter_filter]
    refine List.filter_congr fun j _ => ?_
    rw [← Bool.decide_and, decide_eq_decide]
    omega
  have hsub : pot'.eligiblePlayers.Sublist pot.eligiblePlayers := by
    rw [h.eligible, h'.eligible, htwice]
    exact List.filter_sublist.map _
  have hshort : pot'.eligiblePlayers.length < pot.eligiblePlayers.length := by
    rw [h.eligible, h'.eligible, htwice, List.length_map, List.length_map,
      List.length_filter_lt_length_iff_exists]
    -- the seat whose bet is the lower level does not reach the higher one
    refine ⟨i, List.mem_filter.mpr ⟨hidx.mem_iff.mpr (List.mem_range.mpr hi), by simp [hbet]⟩, ?_⟩
    simpa [hbet] using hlt
  refine lt_of_le_of_ne (Multiset.coe_le.mpr hsub.subperm) fun hsame => ?_
  have hcard := congrArg Multiset.card hsame
  rw [Multiset.coe_card, Multiset.coe_card] at hcard
  omega

theorem PotOfLayer.mem_iff (hidx : indices.Perm (List.range bets.length))
    (hlen : players.length = bets.length) (hnd : players.Nodup)
    (h : PotOfLayer players bets indices layer pot) {i : ℕ} (hi : i < players.length) :
    players.getD i 0 ∈ pot.eligiblePlayers ↔ layer.1 ≤ seatBet bets i := by
  rw [h.eligible, List.mem_map]
  constructor
  · intro hmem
    obtain ⟨j, hj, hsame⟩ := hmem
    obtain ⟨hjmem, hreach⟩ := List.mem_filter.mp hj
    have hjlt : j < players.length := by
      rw [hlen]
      exact List.mem_range.mp (hidx.mem_iff.mp hjmem)
    rw [List.getD_eq_getElem _ _ hi, List.getD_eq_getElem _ _ hjlt] at hsame
    obtain rfl := (List.Nodup.getElem_inj_iff hnd).mp hsame
    simpa using hreach
  · intro hreach
    exact ⟨i, List.mem_filter.mpr ⟨hidx.mem_iff.mpr (List.mem_range.mpr (hlen ▸ hi)),
      by simpa using hreach⟩, rfl⟩

theorem calculateSidePots_potOfLayer {sort : IndexSort} {pots : List SidePot}
    (hbets : ∀ b ∈ bets, 0 ≤ b) (hsum : bets.sum < 2 ^ 31)
    (hpots : Pot.calculateSidePots sort players bets = .ok pots) :
    List.Forall₂ (PotOfLayer players bets (sort.apply bets)) (betLayers bets) pots := by
  rw [Pot.calculateSidePots] at hpots
  split_ifs at hpots with hlen
  obtain rfl := Except.ok.inj hpots
  have hloop := @sidePotLoop_layered players bets 0 _ (sort.ahead hbets hsum)
  have hbetsPerm : ((sort.apply bets).map (seatBet bets)).Perm bets := by
    have hperm := (sort.perm bets).map (seatBet bets)
    rwa [map_seatBet_range] at hperm
  rwa [levelsAbove_congr 0 hbetsPerm] at hloop

/-- The layers whose pots a player is eligible for are those up to his bet. -/
theorem sum_ownPots {sort : IndexSort} {pots : List SidePot} (hlen : players.length = bets.length)
    (hbets : ∀ b ∈ bets, 0 ≤ b) (hsum : bets.sum < 2 ^ 31)
    (hpots : Pot.calculateSidePots sort players bets = .ok pots)
    (hnd : players.Nodup) {i : ℕ} (hi : i < players.length) :
    ((((betLayers bets).zip pots).filter fun x =>
      decide (players.getD i 0 ∈ x.2.eligiblePlayers)).map fun x => x.1.2).sum
        = seatBet bets i := by
  obtain ⟨hcount, hof⟩ := List.forall₂_iff_zip.mp
    (calculateSidePots_potOfLayer hbets hsum hpots)
  have hfst : ((betLayers bets).zip pots).map Prod.fst = betLayers bets :=
    List.map_fst_zip hcount.le
  have hsame : ((betLayers bets).zip pots).filter
        (fun x => decide (players.getD i 0 ∈ x.2.eligiblePlayers))
      = ((betLayers bets).zip pots).filter fun x => decide (x.1.1 ≤ seatBet bets i) := by
    refine List.filter_congr fun x hx => ?_
    rw [decide_eq_decide]
    exact (hof hx).mem_iff (sort.perm bets) hlen hnd hi
  have hlayers : (betLayers bets).filter (fun layer => decide (layer.1 ≤ seatBet bets i))
      = (((betLayers bets).zip pots).filter fun x =>
        decide (x.1.1 ≤ seatBet bets i)).map Prod.fst := by
    rw [← hfst, List.filter_map]
    rw [hfst]
    rfl
  have hseat := sum_seatLayers hbets (hlen ▸ hi : i < bets.length)
  rw [hlayers, List.map_map] at hseat
  rw [hsame]
  exact hseat

theorem calculateSidePots_layered {sort : IndexSort} {pots : List SidePot}
    (hlen : players.length = bets.length) (hbets : ∀ b ∈ bets, 0 ≤ b) (hsum : bets.sum < 2 ^ 31)
    (hpots : Pot.calculateSidePots sort players bets = .ok pots) :
    LayeredSplit players bets pots := by
  have hperm := sort.perm bets
  obtain ⟨hcount, hof⟩ := List.forall₂_iff_zip.mp
    (calculateSidePots_potOfLayer hbets hsum hpots)
  have hfst : ((betLayers bets).zip pots).map Prod.fst = betLayers bets :=
    List.map_fst_zip hcount.le
  have hsnd : ((betLayers bets).zip pots).map Prod.snd = pots := List.map_snd_zip hcount.ge
  have hlevels : (betLayers bets).Pairwise fun layer layer' => layer.1 < layer'.1 := by
    have hsorted := levelsAbove_sorted 0 bets
    rw [← layers_map_fst 0 (levelsAbove 0 bets)] at hsorted
    exact List.pairwise_map.mp hsorted
  exact {
    positive := by
      intro pot hpot
      rw [← hsnd] at hpot
      obtain ⟨x, hx, rfl⟩ := List.mem_map.mp hpot
      exact (hof hx).amount_pos hperm (List.of_mem_zip hx).1
    total := calculateSidePots_sum hpots hbets hsum
    layered := by
      refine List.forall₂_iff_zip.mpr ⟨hcount, fun {layer} {pot} hmem => ⟨(hof hmem).amount, ?_⟩⟩
      exact ⟨_, getEligiblePlayersForPot_eq hlen layer.1, (hof hmem).eligible_perm hperm⟩
    shrink := by
      rw [← hfst, List.pairwise_map] at hlevels
      rw [← hsnd, List.pairwise_map]
      refine hlevels.imp_of_mem fun {x} {y} hx hy hlt => ?_
      exact (hof hx).shrink hperm (hof hy) (List.of_mem_zip hx).1 hlt
    seats := fun i hi => sum_seatLayers hbets (hlen ▸ hi)
    own := fun hnd i hi => sum_ownPots hlen hbets hsum hpots hnd hi }

end Layered

/-- Two pots that differ in the order of the eligible players at most. -/
def SidePot.Same (pot pot' : SidePot) : Prop :=
  pot.amount = pot'.amount ∧ pot.eligiblePlayers.Perm pot'.eligiblePlayers

theorem PotOfLayer.same {players : List PlayerRef} {bets : List ℤ} {indices indices' : List ℕ}
    {layer : ℤ × ℤ} {pot pot' : SidePot} (hidx : indices.Perm (List.range bets.length))
    (hidx' : indices'.Perm (List.range bets.length))
    (h : PotOfLayer players bets indices layer pot)
    (h' : PotOfLayer players bets indices' layer pot') : pot.Same pot' := by
  have hperm := (h.eligible_perm hidx).trans (h'.eligible_perm hidx').symm
  exact ⟨by rw [h.amount, h'.amount, hperm.length_eq], hperm⟩

/-- For any players and non-negative bets of which an `int` holds the sum the side
pots are the layered split of the bets, and the same one for every order in which
equal bets can be sorted. No amount exceeds the sum of the bets. -/
theorem calculateSidePots_splits (players : List PlayerRef) (bets : List ℤ)
    (hlen : players.length = bets.length) (hbets : ∀ b ∈ bets, 0 ≤ b) (hsum : bets.sum < 2 ^ 31)
    (sort : IndexSort) :
    ∃ pots, Pot.calculateSidePots sort players bets = .ok pots ∧ LayeredSplit players bets pots ∧
      (∀ pot ∈ pots, pot.amount ≤ bets.sum) ∧
      ∀ sort' : IndexSort, ∃ pots', Pot.calculateSidePots sort' players bets = .ok pots' ∧
        List.Forall₂ SidePot.Same pots pots' := by
  have hok : ∀ sort' : IndexSort, Pot.calculateSidePots sort' players bets
      = .ok (sidePotLoop players bets 0 (sort'.apply bets)) := by
    intro sort'
    rw [Pot.calculateSidePots, if_neg (not_not.mpr hlen)]
  have hsplit := calculateSidePots_layered hlen hbets hsum (hok sort)
  refine ⟨_, hok sort, hsplit, ?_, fun sort' => ⟨_, hok sort', ?_⟩⟩
  · intro pot hpot
    rw [← hsplit.total]
    refine List.single_le_sum ?_ _ (List.mem_map_of_mem hpot)
    intro amount hamount
    obtain ⟨other, hother, rfl⟩ := List.mem_map.mp hamount
    exact (hsplit.positive other hother).le
  · obtain ⟨hcount, hone⟩ :=
      List.forall₂_iff_get.mp (calculateSidePots_potOfLayer hbets hsum (hok sort))
    obtain ⟨hcount', htwo⟩ :=
      List.forall₂_iff_get.mp (calculateSidePots_potOfLayer hbets hsum (hok sort'))
    refine List.forall₂_iff_get.mpr ⟨hcount.symm.trans hcount', fun k hk hk' => ?_⟩
    exact (hone k (hcount ▸ hk) hk).same (sort.perm bets) (sort'.perm bets)
      (htwo k (hcount ▸ hk) hk')

/-- A tie at the top, one player without a bet. -/
theorem calculateSidePots_splits_fourPlayers :
    LayeredSplit [5, 6, 7, 8] [6, 0, 2, 6] [⟨6, [7, 5, 8]⟩, ⟨8, [5, 8]⟩] := by
  obtain ⟨pots, hok, hsplit, -⟩ := calculateSidePots_splits [5, 6, 7, 8] [6, 0, 2, 6] rfl
    (by decide) (by decide) .stable
  obtain rfl : [⟨6, [7, 5, 8]⟩, ⟨8, [5, 8]⟩] = pots := Except.ok.inj hok
  exact hsplit

end HeadsUp.Core
