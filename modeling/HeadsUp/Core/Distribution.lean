import HeadsUp.Lib.FairSplit
import HeadsUp.Core.HandRuns
import Mathlib.Algebra.BigOperators.Pi

/-!
# Distribution is a fair split of every pot (`core/pot.cpp`)

The main pot is split among the winners and each side pot among the winners
entitled to it; a pot without any stays where it is. On `int`s this needs that no
winner's stack outgrows one.
-/

namespace HeadsUp.Core
open HeadsUp.Lib

/-- The winners a side pot is paid to, in the order of the list. -/
def entitled (winners : List PlayerRef) (pot : SidePot) : List PlayerRef :=
  winners.filter fun w => pot.eligiblePlayers.contains w

/-- What is paid out of a pot. -/
def paidOut (amount : ℤ) (among : List PlayerRef) : ℤ := if among = [] then 0 else amount

/-! ### The payments of one pot -/

theorem credits_of_not_mem {ps : List (PlayerRef × ℤ)} {p : PlayerRef} (h : p ∉ ps.map Prod.fst) :
    credits ps p = 0 := by
  induction ps with
  | nil => rfl
  | cons x xs ih =>
    obtain ⟨hx, hxs⟩ := not_or.mp (mt List.mem_cons.mpr h)
    show (Pi.single x.1 x.2 : PlayerRef → ℤ) p + credits xs p = 0
    rw [Pi.single_eq_of_ne hx, ih hxs, add_zero]

theorem credits_of_mem {ps : List (PlayerRef × ℤ)} (hnd : (ps.map Prod.fst).Nodup)
    {x : PlayerRef × ℤ} (hx : x ∈ ps) : credits ps x.1 = x.2 := by
  induction ps with
  | nil => cases hx
  | cons y ys ih =>
    obtain ⟨hy, hys⟩ := List.nodup_cons.mp hnd
    show (Pi.single y.1 y.2 : PlayerRef → ℤ) x.1 + credits ys x.1 = x.2
    rcases List.mem_cons.mp hx with rfl | hx
    · rw [Pi.single_eq_same, credits_of_not_mem hy, add_zero]
    · have hne : x.1 ≠ y.1 := by
        intro hsame
        exact hy (hsame ▸ List.mem_map_of_mem hx)
      rw [Pi.single_eq_of_ne hne, ih hys hx, zero_add]

theorem payments_map_fst (amount : ℤ) (winners : List PlayerRef) :
    (payments amount winners).map Prod.fst = winners := by
  rw [payments, List.map_map]
  exact List.zipIdx_map_fst 0 winners

theorem fairSplit_payments {amount : ℤ} {winners : List PlayerRef} (hnd : winners.Nodup)
    (hne : winners ≠ []) (h : 0 ≤ amount) :
    FairSplit amount winners (credits (payments amount winners)) := by
  have hn : 0 < winners.length := List.length_pos_of_ne_nil hne
  refine FairSplit.of_shares (amount / winners.length) (amount % winners.length).toNat ?_ ?_ ?_ ?_
  · intro p hp
    exact credits_of_not_mem (by rwa [payments_map_fst])
  · rw [sum_credits hnd payments_mem, payments_sum h hne]
  · exact credits_nonneg (payments_nonneg h)
  · intro i hi
    have hmem : (winners[i], shareOf amount winners.length i) ∈ payments amount winners :=
      List.mem_map.mpr ⟨(winners[i], i), List.mk_mem_zipIdx_iff_getElem?.mpr
        (List.getElem?_eq_getElem hi), rfl⟩
    have hcredit := credits_of_mem (by rwa [payments_map_fst]) hmem
    rw [hcredit, shareOf_eq h hn]

/-! ### All pots -/

section Distribute
variable {winners : List PlayerRef} (hnd : winners.Nodup)
include hnd

theorem distributeMainPot_fair {pot : ℤ} (h : 0 ≤ pot) (heap : Heap) :
    ∃ won, distributeMainPot winners heap pot
        = (heap.credit won, if winners = [] then pot else 0) ∧
      FairSplit (paidOut pot winners) winners won := by
  rw [distributeMainPot, paidOut]
  by_cases hne : winners = []
  · refine ⟨0, ?_, ?_⟩
    · rw [if_neg (fun hno => hno.1 hne), if_pos hne, credit_zero]
    · rw [if_pos hne]
      exact FairSplit.zero winners
  · rw [if_neg hne, if_neg hne]
    by_cases hpos : 0 < pot
    · refine ⟨_, ?_, fairSplit_payments hnd hne h⟩
      rw [if_pos ⟨hne, hpos⟩, pay_eq_credit (payments_nonneg h)]
    · -- an empty pot is not touched
      obtain rfl : pot = 0 := by omega
      refine ⟨0, ?_, FairSplit.zero winners⟩
      rw [if_neg (fun hno => hpos hno.2), credit_zero]

theorem distributeSidePot_fair {pot : SidePot} (h : 0 ≤ pot.amount) (heap : Heap) :
    ∃ won, distributeSidePot winners heap pot = (heap.credit won,
        if entitled winners pot = [] then pot else { pot with amount := 0 }) ∧
      FairSplit (paidOut pot.amount (entitled winners pot)) (entitled winners pot) won := by
  have hcode : distributeSidePot winners heap pot
      = if pot.amount = 0 then (heap, pot)
        else if entitled winners pot = [] then (heap, pot)
        else (pay heap (payments pot.amount (entitled winners pot)), { pot with amount := 0 }) := rfl
  rw [hcode, paidOut]
  by_cases hzero : pot.amount = 0
  · have hsame : { pot with amount := 0 } = pot := by
      rw [← hzero]
    refine ⟨0, ?_, ?_⟩
    · rw [if_pos hzero, hsame, ite_self, credit_zero]
    · rw [hzero, ite_self]
      exact FairSplit.zero _
  · rw [if_neg hzero]
    by_cases hne : entitled winners pot = []
    · refine ⟨0, ?_, ?_⟩
      · rw [if_pos hne, if_pos hne, credit_zero]
      · rw [if_pos hne]
        exact FairSplit.zero _
    · rw [if_neg hne, if_neg hne, if_neg hne, pay_eq_credit (payments_nonneg h)]
      exact ⟨_, rfl, fairSplit_payments (hnd.filter _) hne h⟩

theorem distributeSidePots_fair {pots : List SidePot} (h : ∀ pot ∈ pots, 0 ≤ pot.amount)
    (heap : Heap) : ∃ wons, distributeSidePots winners heap pots = (heap.credit wons.sum,
        pots.map fun pot => if entitled winners pot = [] then pot else { pot with amount := 0 }) ∧
      List.Forall₂ (fun pot won => FairSplit (paidOut pot.amount (entitled winners pot))
        (entitled winners pot) won) pots wons := by
  induction pots generalizing heap with
  | nil => exact ⟨[], by rw [distributeSidePots, List.sum_nil, credit_zero]; rfl, .nil⟩
  | cons pot rest ih =>
    obtain ⟨won, hwon, hfair⟩ := distributeSidePot_fair hnd (h pot (by simp)) heap
    obtain ⟨wons, hwons, hfairs⟩ := ih (fun x hx => h x (by simp [hx])) (heap.credit won)
    refine ⟨won :: wons, ?_, .cons hfair hfairs⟩
    rw [distributeSidePots, hwon]
    simp only [hwons, credit_credit, List.sum_cons, List.map_cons]

end Distribute

/-- The side pots nobody is entitled to. -/
def leftPots (winners : List PlayerRef) (pots : List SidePot) : List SidePot :=
  pots.filter fun pot => decide (0 < pot.amount ∧ entitled winners pot = [])

theorem mem_leftPots {winners : List PlayerRef} {pots : List SidePot} {pot : SidePot} :
    pot ∈ leftPots winners pots ↔ pot ∈ pots ∧ 0 < pot.amount ∧ entitled winners pot = [] := by
  rw [leftPots, List.mem_filter, decide_eq_true_iff]

theorem filter_paid {winners : List PlayerRef} {pots : List SidePot}
    (h : ∀ pot ∈ pots, 0 ≤ pot.amount) :
    (pots.map fun pot => if entitled winners pot = [] then pot else { pot with amount := 0 }).filter
      (fun pot => pot.amount ≠ 0) = leftPots winners pots := by
  induction pots with
  | nil => rfl
  | cons pot rest ih =>
    have hge := h pot (by simp)
    have hrest := ih fun x hx => h x (by simp [hx])
    rw [List.map_cons, List.filter_cons, hrest, leftPots, leftPots, List.filter_cons]
    by_cases hne : entitled winners pot = []
    · by_cases hzero : pot.amount = 0
      · simp [hne, hzero]
      · have hpos : 0 < pot.amount := by omega
        simp [hne, hzero, hpos]
    · simp [hne]

/-- What distribution among `winners` does to the stacks and the pots. -/
structure Distributed (heap : Heap) (hand : Hand) (winners : List PlayerRef)
    (r : Heap × Hand) : Prop where
  /-- One fair split of the main pot and one of each side pot. -/
  splits : ∃ main sides, r.1 = heap.credit (main + List.sum sides) ∧
    FairSplit (paidOut hand.pot winners) winners main ∧
    List.Forall₂ (fun pot won => FairSplit (paidOut pot.amount (entitled winners pot))
      (entitled winners pot) won) hand.sidePots sides
  pots : r.2 = { hand with
    pot := if winners = [] then hand.pot else 0
    sidePots := leftPots winners hand.sidePots }
  conserved : stackSum r.1 winners - stackSum heap winners
    = hand.pot + sidePotSum hand.sidePots - (r.2.pot + sidePotSum r.2.sidePots)
  others : ∀ p, p ∉ winners → r.1 p = heap p
  nobody : winners = [] → r = (heap, { hand with
    sidePots := hand.sidePots.filter fun pot => decide (0 < pot.amount) })

theorem sum_apply_eq_zero {wons : List (PlayerRef → ℤ)} {p : PlayerRef}
    (h : ∀ won ∈ wons, won p = 0) : wons.sum p = 0 := by
  rw [Pi.list_sum_apply]
  refine List.sum_eq_zero fun x hx => ?_
  obtain ⟨won, hwon, rfl⟩ := List.mem_map.mp hx
  exact h won hwon

theorem eq_zero_of_sum_apply {wons : List (PlayerRef → ℤ)} {p : PlayerRef}
    (h : ∀ won ∈ wons, 0 ≤ won p) (hsum : wons.sum p = 0) : ∀ won ∈ wons, won p = 0 := by
  rw [Pi.list_sum_apply] at hsum
  intro won hwon
  refine List.all_zero_of_le_zero_le_of_sum_eq_zero ?_ hsum (List.mem_map_of_mem hwon)
  intro x hx
  obtain ⟨other, hother, rfl⟩ := List.mem_map.mp hx
  exact h other hother

theorem distributePot_distributed (heap : Heap) {hand : Hand} {winners : List PlayerRef}
    (hnd : winners.Nodup) (hpot : 0 ≤ hand.pot) (hsides : ∀ pot ∈ hand.sidePots, 0 ≤ pot.amount) :
    Distributed heap hand winners (Pot.distributePot heap hand winners) := by
  obtain ⟨main, hmain, hfair⟩ := distributeMainPot_fair hnd hpot heap
  obtain ⟨sides, hdist, hfairs⟩ := distributeSidePots_fair hnd hsides (heap.credit main)
  have hr : Pot.distributePot heap hand winners = (heap.credit (main + sides.sum), { hand with
      pot := if winners = [] then hand.pot else 0
      sidePots := leftPots winners hand.sidePots }) := by
    rw [Pot.distributePot, hmain]
    simp only [hdist, credit_credit, filter_paid hsides]
  have hwon : ∀ p, p ∉ winners → (main + sides.sum) p = 0 := by
    intro p hp
    have hside : ∀ won ∈ sides, won p = 0 := by
      intro won hmem
      obtain ⟨k, hk, rfl⟩ := List.getElem_of_mem hmem
      obtain ⟨hlen, hget⟩ := List.forall₂_iff_get.mp hfairs
      exact (hget k (hlen ▸ hk) hk).others p fun hno => hp (List.mem_filter.mp hno).1
    rw [Pi.add_apply, hfair.others p hp, sum_apply_eq_zero hside, add_zero]
  obtain ⟨htotal, -, -⟩ := distributePot_total hnd (fun _ hw => hw) hpot hsides heap
  refine ⟨⟨main, sides, by rw [hr], hfair, hfairs⟩, by rw [hr], by omega, ?_, ?_⟩
  · intro p hp
    rw [hr]
    show { heap p with stack := (heap p).stack + (main + sides.sum) p } = heap p
    rw [hwon p hp, add_zero]
  · rintro rfl
    have hzero : main + sides.sum = 0 := funext fun p => hwon p List.not_mem_nil
    rw [hr, hzero, credit_zero, if_pos rfl]
    simp [leftPots, entitled]

theorem paidOut_le {amount : ℤ} (h : 0 ≤ amount) (among : List PlayerRef) :
    paidOut amount among ≤ amount := by
  rw [paidOut]
  split_ifs
  · exact h
  · exact le_refl amount

theorem sum_won_le {winners : List PlayerRef} {pots : List SidePot} {wons : List (PlayerRef → ℤ)}
    (hfair : List.Forall₂ (fun pot won => FairSplit (paidOut pot.amount (entitled winners pot))
      (entitled winners pot) won) pots wons) (hpots : ∀ pot ∈ pots, 0 ≤ pot.amount) (p : PlayerRef) :
    0 ≤ wons.sum p ∧ wons.sum p ≤ sidePotSum pots := by
  induction hfair with
  | nil => exact ⟨le_refl 0, le_refl 0⟩
  | @cons pot won pots wons hfirst _ ih =>
    obtain ⟨hge, hle⟩ := ih fun x hx => hpots x (by simp [hx])
    have hone := hfirst.nonneg p
    have hmost := (hfirst.le_amount p).trans (paidOut_le (hpots pot (by simp)) _)
    rw [List.sum_cons, Pi.add_apply]
    simp only [sidePotSum, List.map_cons, List.sum_cons] at hle ⊢
    omega

/-- Nobody loses, and nobody gets more than there is. -/
theorem Distributed.stack_le {heap : Heap} {hand : Hand} {winners : List PlayerRef}
    {r : Heap × Hand} (h : Distributed heap hand winners r) (hpot : 0 ≤ hand.pot)
    (hsides : ∀ pot ∈ hand.sidePots, 0 ≤ pot.amount) (p : PlayerRef) :
    (heap p).stack ≤ (r.1 p).stack ∧
      (r.1 p).stack ≤ (heap p).stack + hand.pot + sidePotSum hand.sidePots := by
  obtain ⟨main, sides, hr, hmain, hfair⟩ := h.splits
  obtain ⟨hge, hle⟩ := sum_won_le hfair hsides p
  have hone := hmain.nonneg p
  have hmost := (hmain.le_amount p).trans (paidOut_le hpot _)
  rw [hr, credit_stack, Pi.add_apply]
  omega

/-- However many pots there are and whoever is eligible for them, distribution
splits every pot fairly among the winners entitled to it, in whole chips and with
none lost; the rest stays. -/
theorem distributePot_fair (heap : Heap) {hand : Hand} {winners : List PlayerRef}
    (hnd : winners.Nodup) (hpot : 0 ≤ hand.pot) (hsides : ∀ pot ∈ hand.sidePots, 0 ≤ pot.amount)
    (hints : ∀ w ∈ winners, -2 ^ 31 ≤ (heap w).stack ∧
      (heap w).stack + hand.pot + sidePotSum hand.sidePots < 2 ^ 31) :
    ∃ r, Pot.distributeInts heap hand winners = some r ∧ Distributed heap hand winners r := by
  have hdist := distributePot_distributed heap hnd hpot hsides
  refine ⟨_, Pot.distributeInts_eq_some_iff.mpr ⟨rfl, fun w hw => ?_⟩, hdist⟩
  obtain ⟨hge, hle⟩ := hdist.stack_le hpot hsides w
  obtain ⟨hlow, hhigh⟩ := hints w hw
  exact ⟨hlow.trans hge, hle.trans_lt hhigh⟩

/-! ### Three winners, two side pots -/

/-- 10 in the middle, one side pot for everybody and one for a player who lost. -/
def threeWayHand : Hand :=
  { freshHand (Deck.new (Shuffle.refl Card)) with
    players := [0, 1, 2, 3]
    pot := 10
    sidePots := [⟨8, [2, 0, 1, 3]⟩, ⟨5, [3]⟩] }

theorem distributePot_fair_threeWay :
    ∃ r, Pot.distributeInts (fun _ => default) threeWayHand [2, 0, 1] = some r ∧
      Distributed (fun _ => default) threeWayHand [2, 0, 1] r :=
  distributePot_fair _ (by decide) (by decide) (by decide) (by decide)

/-- A stack of 400 has no room for the largest pot. -/
theorem distributePot_overflows :
    let heap : Heap := fun _ => { (default : Player) with stack := startingStack }
    let hand := { threeWayHand with pot := 2147483647, sidePots := [] }
    (∀ p, InInt (heap p).stack) ∧ InInt hand.pot ∧ 0 ≤ hand.pot ∧
      ¬∃ r, Pot.distributeInts heap hand [0] = some r ∧ Distributed heap hand [0] r := by
  refine ⟨fun _ => (by decide : InInt startingStack), by decide, by decide, fun hh => ?_⟩
  obtain ⟨r, hr, -⟩ := hh
  have hfits := (Pot.distributeInts_eq_some_iff.mp hr).2 0 (by simp)
  rw [← (Pot.distributeInts_eq_some_iff.mp hr).1] at hfits
  exact absurd hfits (by decide)

/-- The earliest winners have the odd chips: 4 and 3, 3 and 3, 3 and 2. -/
example : (Pot.distributePot (fun _ => default) threeWayHand [2, 0, 1]).2.sidePots = [⟨5, [3]⟩] ∧
    [2, 0, 1, 3].map (fun p =>
      ((Pot.distributePot (fun _ => default) threeWayHand [2, 0, 1]).1 p).stack) = [7, 6, 5, 0] := by
  decide

end HeadsUp.Core
