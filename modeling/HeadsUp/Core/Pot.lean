import HeadsUp.Core.Models
import Mathlib.Algebra.Order.Ring.Int
import Mathlib.Algebra.BigOperators.Pi
import Mathlib.Algebra.BigOperators.Group.List.Lemmas
import Mathlib.Algebra.Order.BigOperators.Group.List
import Mathlib.Data.Int.ModEq
import Mathlib.Tactic.Ring
import Mathlib.Tactic.Linarith

/-!
# Pots (`core/pot.cpp`)

Side pots are built from the bets in ascending order; pots are paid out in
equal shares, the first winners taking the odd chips. Payments are credits, and
a pot that is paid moves exactly its amount. The amount of a side pot is narrowed
to an `int`, a stack that outgrows one is undefined: `distributeInts`.
-/

namespace HeadsUp.Core

/-! ### Building side pots -/

/-- `std::sort` of the indices by bet: ascending, the order of equal bets is
not specified. -/
structure IndexSort where
  apply : List ℤ → List ℕ
  perm : ∀ bets, (apply bets).Perm (List.range bets.length)
  sorted : ∀ bets, (apply bets).Pairwise fun i j => bets.getD i 0 ≤ bets.getD j 0

def IndexSort.stable : IndexSort where
  apply bets := (List.range bets.length).insertionSort fun i j => bets.getD i 0 ≤ bets.getD j 0
  perm bets := List.perm_insertionSort _ _
  sorted bets := by
    have : Std.Total fun i j : ℕ => bets.getD i 0 ≤ bets.getD j 0 := ⟨fun i j => le_total _ _⟩
    have : IsTrans ℕ fun i j : ℕ => bets.getD i 0 ≤ bets.getD j 0 :=
      ⟨fun i j k => le_trans⟩
    exact List.pairwise_insertionSort _ _

/-- The loop over the sorted indices, from the bet of the previous pot. The
amount is computed as a `size_t`. -/
def sidePotLoop (players : List PlayerRef) (bets : List ℤ) : ℤ → List ℕ → List SidePot
  | _, [] => []
  | previousBet, i :: rest =>
    let currentBet := bets.getD i 0
    if currentBet = previousBet then sidePotLoop players bets previousBet rest
    else
      ⟨narrow ((currentBet - previousBet) * (i :: rest).length),
        (i :: rest).map (players.getD · 0)⟩ :: sidePotLoop players bets currentBet rest

namespace Pot

/-- `calculateSidePots`; the assertion compares the two lengths. -/
def calculateSidePots (sort : IndexSort) (players : List PlayerRef) (bets : List ℤ) :
    Except Exn (List SidePot) :=
  if players.length ≠ bets.length then .error (.assertion "players.size() == bets.size()")
  else .ok (sidePotLoop players bets 0 (sort.apply bets))

def getEligiblePlayersForPot (players : List PlayerRef) (bets : List ℤ) (potThreshold : ℤ) :
    Except Exn (List PlayerRef) :=
  if players.length ≠ bets.length then .error (.assertion "players.size() == bets.size()")
  else .ok ((players.zip bets).filter (fun x => decide (potThreshold ≤ x.2)) |>.map Prod.fst)

end Pot

def sidePotSum (pots : List SidePot) : ℤ := (pots.map SidePot.amount).sum

/-- What the loop has ahead of it: ascending bets, together less than an `int`
holds. -/
structure Ahead (bets : List ℤ) (previousBet : ℤ) (indices : List ℕ) : Prop where
  low : ∀ i ∈ indices, previousBet ≤ bets.getD i 0
  sorted : indices.Pairwise fun i j => bets.getD i 0 ≤ bets.getD j 0
  sum : (indices.map fun i => bets.getD i 0).sum - previousBet * indices.length < 2 ^ 31

section Ahead
variable {bets : List ℤ} {previousBet : ℤ} {i : ℕ} {rest : List ℕ}
  (h : Ahead bets previousBet (i :: rest))
include h

theorem Ahead.le : previousBet ≤ bets.getD i 0 := h.low i List.mem_cons_self

theorem Ahead.sum_cons : bets.getD i 0 - previousBet
    + ((rest.map fun j => bets.getD j 0).sum - previousBet * rest.length) < 2 ^ 31 := by
  have hsum := h.sum
  rw [List.map_cons, List.sum_cons, List.length_cons] at hsum
  push_cast at hsum
  linarith

/-- The layer of the next bet is at most all that is left. -/
theorem Ahead.layer_le : (bets.getD i 0 - previousBet) * rest.length
    ≤ (rest.map fun j => bets.getD j 0).sum - previousBet * rest.length := by
  have hall : ∀ x ∈ rest.map fun j => bets.getD j 0, bets.getD i 0 ≤ x := by
    intro x hx
    obtain ⟨j, hj, rfl⟩ := List.mem_map.mp hx
    exact (List.pairwise_cons.mp h.sorted).1 j hj
  have hsum := List.card_nsmul_le_sum _ _ hall
  rw [List.length_map, nsmul_eq_mul] at hsum
  linarith

theorem Ahead.amount : narrow ((bets.getD i 0 - previousBet) * (i :: rest).length)
    = (bets.getD i 0 - previousBet) * (i :: rest).length := by
  have hle := h.le
  have hnonneg : 0 ≤ (bets.getD i 0 - previousBet) * rest.length :=
    mul_nonneg (by omega) (Int.natCast_nonneg _)
  have hlayer := h.layer_le
  have hsum := h.sum_cons
  refine narrow_of_inInt ⟨?_, ?_⟩
  · rw [List.length_cons]
    push_cast
    linarith
  · rw [List.length_cons]
    push_cast
    linarith

theorem Ahead.skip : Ahead bets previousBet rest where
  low := fun j hj => h.low j (List.mem_cons_of_mem _ hj)
  sorted := (List.pairwise_cons.mp h.sorted).2
  sum := by
    have hle := h.le
    have hsum := h.sum_cons
    omega

theorem Ahead.tail : Ahead bets (bets.getD i 0) rest where
  low := (List.pairwise_cons.mp h.sorted).1
  sorted := (List.pairwise_cons.mp h.sorted).2
  sum := by
    have hle := h.le
    have hnonneg : 0 ≤ (bets.getD i 0 - previousBet) * rest.length :=
      mul_nonneg (by omega) (Int.natCast_nonneg _)
    have hsum := h.sum_cons
    linarith

end Ahead

theorem sidePotSum_loop (players : List PlayerRef) {bets : List ℤ} {previousBet : ℤ}
    {indices : List ℕ} (h : Ahead bets previousBet indices) :
    sidePotSum (sidePotLoop players bets previousBet indices)
      = (indices.map fun i => bets.getD i 0).sum - previousBet * indices.length := by
  induction indices generalizing previousBet with
  | nil => simp [sidePotLoop, sidePotSum]
  | cons i rest ih =>
    rw [sidePotLoop]
    split_ifs with hsame
    · rw [ih h.skip, List.map_cons, List.sum_cons, List.length_cons, hsame]
      push_cast
      ring
    · have hrest := ih h.tail
      simp only [sidePotSum, List.map_cons, List.sum_cons, List.length_cons] at hrest ⊢
      rw [hrest, ← List.length_cons (a := i), h.amount, List.length_cons]
      push_cast
      ring

/-- Whatever the bets, the amounts are right up to what `int` cannot hold. -/
theorem sidePotSum_loop_modEq (players : List PlayerRef) (bets : List ℤ) (previousBet : ℤ)
    (indices : List ℕ) : sidePotSum (sidePotLoop players bets previousBet indices)
      ≡ (indices.map fun i => bets.getD i 0).sum - previousBet * indices.length [ZMOD 2 ^ 32] := by
  induction indices generalizing previousBet with
  | nil => simp [sidePotLoop, sidePotSum]
  | cons i rest ih =>
    rw [sidePotLoop]
    simp only [List.map_cons, List.sum_cons, List.length_cons]
    split_ifs with hsame
    · refine (ih previousBet).trans (congrArg (· % 2 ^ 32) ?_)
      rw [hsame]
      push_cast
      ring
    · have hamount : narrow ((bets.getD i 0 - previousBet) * (rest.length + 1 : ℕ))
          ≡ (bets.getD i 0 - previousBet) * (rest.length + 1 : ℕ) [ZMOD 2 ^ 32] :=
        Int.bmod_emod
      refine (hamount.add (ih (bets.getD i 0))).trans (congrArg (· % 2 ^ 32) ?_)
      push_cast
      ring

theorem sum_getD_range (l : List ℤ) : ((List.range l.length).map fun i => l.getD i 0).sum = l.sum := by
  congr 1
  apply List.ext_getElem
  · simp
  · intro i h1 h2
    simp [List.getD_eq_getElem?_getD, h2]

theorem IndexSort.sum_apply (sort : IndexSort) (bets : List ℤ) :
    ((sort.apply bets).map fun i => bets.getD i 0).sum = bets.sum := by
  rw [← sum_getD_range bets]
  exact ((sort.perm bets).map _).sum_eq

theorem getD_nonneg {bets : List ℤ} (hbets : ∀ b ∈ bets, 0 ≤ b) (i : ℕ) : 0 ≤ bets.getD i 0 := by
  rw [List.getD_eq_getElem?_getD]
  cases hb : bets[i]? with
  | none => exact le_refl 0
  | some b => exact hbets b (List.mem_of_getElem? hb)

theorem IndexSort.ahead (sort : IndexSort) {bets : List ℤ} (hbets : ∀ b ∈ bets, 0 ≤ b)
    (hsum : bets.sum < 2 ^ 31) : Ahead bets 0 (sort.apply bets) where
  low := fun i _ => getD_nonneg hbets i
  sorted := sort.sorted bets
  sum := by rwa [sort.sum_apply, zero_mul, sub_zero]

section Calculate
variable {sort : IndexSort} {players : List PlayerRef} {bets : List ℤ} {pots : List SidePot}
  (h : Pot.calculateSidePots sort players bets = .ok pots)
include h

theorem calculateSidePots_sum (hbets : ∀ b ∈ bets, 0 ≤ b) (hsum : bets.sum < 2 ^ 31) :
    sidePotSum pots = bets.sum := by
  rw [Pot.calculateSidePots] at h
  split_ifs at h with hlen
  rw [← Except.ok.inj h, sidePotSum_loop _ (sort.ahead hbets hsum), zero_mul, sub_zero,
    sort.sum_apply]

theorem calculateSidePots_modEq : sidePotSum pots ≡ bets.sum [ZMOD 2 ^ 32] := by
  rw [Pot.calculateSidePots] at h
  split_ifs at h with hlen
  have hloop := sidePotSum_loop_modEq players bets 0 (sort.apply bets)
  rwa [zero_mul, sub_zero, sort.sum_apply, Except.ok.inj h] at hloop

end Calculate

theorem sidePotLoop_nonneg (players : List PlayerRef) {bets : List ℤ} {previousBet : ℤ}
    {indices : List ℕ} (h : Ahead bets previousBet indices) :
    ∀ pot ∈ sidePotLoop players bets previousBet indices, 0 ≤ pot.amount := by
  induction indices generalizing previousBet with
  | nil => simp [sidePotLoop]
  | cons i rest ih =>
    rw [sidePotLoop]
    split_ifs with hsame
    · exact ih h.skip
    · intro pot hpot
      rcases List.mem_cons.mp hpot with rfl | hpot
      · have hle := h.le
        simp only [h.amount]
        exact mul_nonneg (by omega) (Int.natCast_nonneg _)
      · exact ih h.tail pot hpot

theorem calculateSidePots_nonneg {sort : IndexSort} {players : List PlayerRef} {bets : List ℤ}
    {pots : List SidePot} (h : Pot.calculateSidePots sort players bets = .ok pots)
    (hbets : ∀ b ∈ bets, 0 ≤ b) (hsum : bets.sum < 2 ^ 31) : ∀ pot ∈ pots, 0 ≤ pot.amount := by
  rw [Pot.calculateSidePots] at h
  split_ifs at h with hlen
  rw [← Except.ok.inj h]
  exact sidePotLoop_nonneg players (sort.ahead hbets hsum)

/-! ### Paying out -/

namespace Pot

/-- The null check is the caller's: winners are players. -/
def awardPot (heap : Heap) (player : PlayerRef) (amount : ℤ) : Heap :=
  if 0 < amount then heap.credit (Pi.single player amount) else heap

end Pot

/-- The share of the `i`-th of `n` winners. `int` division truncates; as a
`size_t` a negative remainder is above every index. -/
def shareOf (amount : ℤ) (n i : ℕ) : ℤ :=
  amount.tdiv n + if amount.tmod n < 0 ∨ (i : ℤ) < amount.tmod n then 1 else 0

def payments (amount : ℤ) (winners : List PlayerRef) : List (PlayerRef × ℤ) :=
  winners.zipIdx.map fun x => (x.1, shareOf amount winners.length x.2)

def pay (heap : Heap) (ps : List (PlayerRef × ℤ)) : Heap :=
  ps.foldl (fun heap x => Pot.awardPot heap x.1 x.2) heap

/-- One side pot: paid when a winner is eligible. -/
def distributeSidePot (winners : List PlayerRef) (heap : Heap) (pot : SidePot) : Heap × SidePot :=
  let eligibleWinners := winners.filter fun w => pot.eligiblePlayers.contains w
  if pot.amount = 0 then (heap, pot)
  else if eligibleWinners = [] then (heap, pot)
  else (pay heap (payments pot.amount eligibleWinners), { pot with amount := 0 })

def distributeSidePots (winners : List PlayerRef) : Heap → List SidePot → Heap × List SidePot
  | heap, [] => (heap, [])
  | heap, pot :: rest =>
    let first := distributeSidePot winners heap pot
    let others := distributeSidePots winners first.1 rest
    (others.1, first.2 :: others.2)

def distributeMainPot (winners : List PlayerRef) (heap : Heap) (pot : ℤ) : Heap × ℤ :=
  if winners ≠ [] ∧ 0 < pot then (pay heap (payments pot winners), 0) else (heap, pot)

namespace Pot

def distributePot (heap : Heap) (hand : Hand) (winners : List PlayerRef) : Heap × Hand :=
  let main := distributeMainPot winners heap hand.pot
  let sides := distributeSidePots winners main.1 hand.sidePots
  (sides.1, { hand with
    pot := main.2
    sidePots := sides.2.filter fun pot => pot.amount ≠ 0 })

/-- `distributePot` on `int`s, undefined when a winner's stack outgrows them. Only
positive amounts are awarded: a stack that fits in the end has fitted all along. -/
def distributeInts (heap : Heap) (hand : Hand) (winners : List PlayerRef) : Option (Heap × Hand) :=
  let r := distributePot heap hand winners
  if ∀ w ∈ winners, InInt (r.1 w).stack then some r else none

theorem distributeInts_eq_some_iff {heap : Heap} {hand : Hand} {winners : List PlayerRef}
    {r : Heap × Hand} : distributeInts heap hand winners = some r ↔
      distributePot heap hand winners = r ∧ ∀ w ∈ winners, InInt (r.1 w).stack := by
  rw [distributeInts]
  constructor
  · intro h
    split_ifs at h with hfits
    obtain rfl := Option.some.inj h
    exact ⟨rfl, hfits⟩
  · rintro ⟨rfl, hfits⟩
    exact if_pos hfits

end Pot

/-! ### Shares add up -/

theorem sum_map_range_shares (q : ℤ) {n r : ℕ} (h : r ≤ n) :
    ((List.range n).map fun i => q + if i < r then 1 else 0).sum = n * q + r := by
  induction n generalizing r with
  | zero => simp [Nat.le_zero.mp h]
  | succ n ih =>
    rw [List.range_succ, List.map_append, List.sum_append, List.map_singleton, List.sum_singleton]
    rcases Nat.lt_or_ge n r with hlt | hge
    · obtain rfl : r = n + 1 := by omega
      have hcongr : (List.range n).map (fun i => q + if i < n + 1 then (1 : ℤ) else 0)
          = (List.range n).map (fun i => q + if i < n then 1 else 0) :=
        List.map_congr_left fun i hi => by
          have hin := List.mem_range.mp hi
          rw [if_pos hin, if_pos (by omega)]
      rw [hcongr, ih (le_refl n), if_pos (by omega)]
      push_cast
      ring
    · rw [ih hge, if_neg (by omega)]
      push_cast
      ring

theorem shareOf_eq {amount : ℤ} {n : ℕ} (h : 0 ≤ amount) (hn : 0 < n) (i : ℕ) :
    shareOf amount n i = amount / n + if i < (amount % n).toNat then 1 else 0 := by
  have hnz : (0 : ℤ) < n := by exact_mod_cast hn
  have hge := Int.emod_nonneg amount hnz.ne'
  rw [shareOf, Int.tdiv_eq_ediv_of_nonneg h, Int.tmod_eq_emod_of_nonneg h]
  congr 2
  exact propext (by omega)

theorem shareOf_nonneg {amount : ℤ} {n : ℕ} (h : 0 ≤ amount) (hn : 0 < n) (i : ℕ) :
    0 ≤ shareOf amount n i := by
  rw [shareOf_eq h hn]
  have hdiv := Int.ediv_nonneg h (Int.natCast_nonneg n)
  split_ifs <;> omega

theorem payments_sum {amount : ℤ} {winners : List PlayerRef} (h : 0 ≤ amount)
    (hw : winners ≠ []) : ((payments amount winners).map Prod.snd).sum = amount := by
  have hn : 0 < winners.length := List.length_pos_of_ne_nil hw
  have hnz : (0 : ℤ) < winners.length := by exact_mod_cast hn
  have hlt := Int.emod_lt_of_pos amount hnz
  have hge := Int.emod_nonneg amount hnz.ne'
  have hmap : (payments amount winners).map Prod.snd
      = (List.range winners.length).map fun i =>
        amount / winners.length + if i < (amount % winners.length).toNat then 1 else 0 := by
    apply List.ext_getElem
    · simp [payments]
    · intro i h1 h2
      simp [payments, shareOf_eq h hn]
  rw [hmap, sum_map_range_shares _ (by omega), Int.toNat_of_nonneg hge, mul_comm]
  exact Int.ediv_mul_add_emod amount winners.length

theorem payments_nonneg {amount : ℤ} {winners : List PlayerRef} (h : 0 ≤ amount) :
    ∀ x ∈ payments amount winners, 0 ≤ x.2 := by
  intro x hx
  obtain ⟨⟨w, i⟩, hw, rfl⟩ := List.mem_map.mp hx
  have hmem := List.fst_mem_of_mem_zipIdx hw
  exact shareOf_nonneg h (List.length_pos_of_mem hmem) i

theorem payments_mem {amount : ℤ} {winners : List PlayerRef} :
    ∀ x ∈ payments amount winners, x.1 ∈ winners := by
  intro x hx
  obtain ⟨⟨w, i⟩, hw, rfl⟩ := List.mem_map.mp hx
  exact List.fst_mem_of_mem_zipIdx hw

/-! ### Payments are credits -/

theorem awardPot_eq {heap : Heap} {player : PlayerRef} {amount : ℤ} (h : 0 ≤ amount) :
    Pot.awardPot heap player amount = heap.credit (Pi.single player amount) := by
  rw [Pot.awardPot]
  split_ifs with hpos
  · rfl
  · obtain rfl : amount = 0 := by omega
    rw [Pi.single_zero, credit_zero]

def credits (ps : List (PlayerRef × ℤ)) : PlayerRef → ℤ :=
  (ps.map fun x => (Pi.single x.1 x.2 : PlayerRef → ℤ)).sum

theorem pay_eq_credit {ps : List (PlayerRef × ℤ)} (h : ∀ x ∈ ps, 0 ≤ x.2) (heap : Heap) :
    pay heap ps = heap.credit (credits ps) := by
  induction ps generalizing heap with
  | nil => exact (credit_zero heap).symm
  | cons x xs ih =>
    rw [pay, List.foldl_cons, awardPot_eq (h x (by simp))]
    refine (ih (fun y hy => h y (by simp [hy])) _).trans ?_
    rw [credit_credit, credits, credits, List.map_cons, List.sum_cons]

theorem sum_credits {players : List PlayerRef} (hnd : players.Nodup) {ps : List (PlayerRef × ℤ)}
    (hmem : ∀ x ∈ ps, x.1 ∈ players) :
    (players.map (credits ps)).sum = (ps.map Prod.snd).sum := by
  induction ps with
  | nil =>
    show (players.map fun _ => (0 : ℤ)).sum = 0
    simp
  | cons x xs ih =>
    have hsplit : players.map (credits (x :: xs))
        = players.map fun p => (Pi.single x.1 x.2 : PlayerRef → ℤ) p + credits xs p := rfl
    rw [hsplit, List.sum_map_add, sum_map_single hnd (hmem x (by simp)),
      ih fun y hy => hmem y (by simp [hy]), List.map_cons, List.sum_cons]

theorem stackSum_pay {players winners : List PlayerRef} (hnd : players.Nodup)
    (hmem : ∀ w ∈ winners, w ∈ players) (hw : winners ≠ []) {amount : ℤ} (h : 0 ≤ amount)
    (heap : Heap) :
    stackSum (pay heap (payments amount winners)) players = stackSum heap players + amount := by
  rw [pay_eq_credit (payments_nonneg h), stackSum_credit,
    sum_credits hnd fun x hx => hmem x.1 (payments_mem x hx), payments_sum h hw]

/-! ### Distribution -/

section Distribute
variable {players winners : List PlayerRef} (hnd : players.Nodup)
  (hmem : ∀ w ∈ winners, w ∈ players)
include hnd hmem

theorem distributeSidePot_total {pot : SidePot} (h : 0 ≤ pot.amount) (heap : Heap) :
    stackSum (distributeSidePot winners heap pot).1 players
        + (distributeSidePot winners heap pot).2.amount
      = stackSum heap players + pot.amount ∧
    0 ≤ (distributeSidePot winners heap pot).2.amount := by
  rw [distributeSidePot]
  split_ifs with hzero hnone
  · exact ⟨rfl, h⟩
  · exact ⟨rfl, h⟩
  · refine ⟨?_, le_refl 0⟩
    rw [stackSum_pay hnd (fun w hw => hmem w (List.mem_filter.mp hw).1) hnone h, add_zero]

theorem distributeSidePots_total {pots : List SidePot} (h : ∀ pot ∈ pots, 0 ≤ pot.amount)
    (heap : Heap) :
    stackSum (distributeSidePots winners heap pots).1 players
        + sidePotSum (distributeSidePots winners heap pots).2
      = stackSum heap players + sidePotSum pots ∧
    ∀ pot ∈ (distributeSidePots winners heap pots).2, 0 ≤ pot.amount := by
  induction pots generalizing heap with
  | nil => exact ⟨rfl, by simp [distributeSidePots]⟩
  | cons pot rest ih =>
    obtain ⟨hfirst, hge⟩ := distributeSidePot_total hnd hmem (h pot (by simp)) heap
    obtain ⟨hrest, hall⟩ := ih (fun x hx => h x (by simp [hx])) (distributeSidePot winners heap pot).1
    simp only [distributeSidePots, sidePotSum, List.map_cons, List.sum_cons] at hrest ⊢
    refine ⟨by omega, ?_⟩
    intro x hx
    rcases List.mem_cons.mp hx with rfl | hx
    · exact hge
    · exact hall x hx

theorem distributeMainPot_total {pot : ℤ} (h : 0 ≤ pot) (heap : Heap) :
    stackSum (distributeMainPot winners heap pot).1 players + (distributeMainPot winners heap pot).2
      = stackSum heap players + pot ∧ 0 ≤ (distributeMainPot winners heap pot).2 := by
  rw [distributeMainPot]
  split_ifs with hpay
  · exact ⟨by rw [stackSum_pay hnd hmem hpay.1 h, add_zero], le_refl 0⟩
  · exact ⟨rfl, h⟩

end Distribute

theorem sidePotSum_filter_ne_zero (pots : List SidePot) :
    sidePotSum (pots.filter fun pot => pot.amount ≠ 0) = sidePotSum pots := by
  induction pots with
  | nil => rfl
  | cons pot rest ih =>
    rw [List.filter_cons]
    split_ifs with h
    · simp only [sidePotSum, List.map_cons, List.sum_cons] at ih ⊢
      rw [ih]
    · have hzero : pot.amount = 0 := by simpa using h
      simp only [sidePotSum, List.map_cons, List.sum_cons] at ih ⊢
      rw [ih, hzero, zero_add]

/-- Distribution moves chips from the pots to the stacks, whoever wins. -/
theorem distributePot_total {hand : Hand} {players winners : List PlayerRef} (hnd : players.Nodup)
    (hmem : ∀ w ∈ winners, w ∈ players) (hpot : 0 ≤ hand.pot)
    (hside : ∀ pot ∈ hand.sidePots, 0 ≤ pot.amount) (heap : Heap) :
    let r := Pot.distributePot heap hand winners
    stackSum r.1 players + r.2.pot + sidePotSum r.2.sidePots
        = stackSum heap players + hand.pot + sidePotSum hand.sidePots ∧
      0 ≤ r.2.pot ∧ ∀ pot ∈ r.2.sidePots, 0 ≤ pot.amount := by
  obtain ⟨hmain, hge⟩ := distributeMainPot_total hnd hmem hpot heap
  obtain ⟨hsides, hall⟩ := distributeSidePots_total hnd hmem hside
    (distributeMainPot winners heap hand.pot).1
  refine ⟨?_, hge, fun pot hp => hall pot (List.mem_filter.mp hp).1⟩
  simp only [Pot.distributePot, sidePotSum_filter_ne_zero]
  omega

theorem distributePot_pot {hand : Hand} {winners : List PlayerRef} (hw : winners ≠ [])
    (hpot : 0 ≤ hand.pot) (heap : Heap) : (Pot.distributePot heap hand winners).2.pot = 0 := by
  simp only [Pot.distributePot, distributeMainPot]
  split_ifs with h
  · rfl
  · have hle : ¬0 < hand.pot := fun hlt => h ⟨hw, hlt⟩
    omega

/-! ### Nobody pays -/

theorem credits_nonneg {ps : List (PlayerRef × ℤ)} (h : ∀ x ∈ ps, 0 ≤ x.2) (p : PlayerRef) :
    0 ≤ credits ps p := by
  induction ps with
  | nil => exact le_refl 0
  | cons x xs ih =>
    have hx : 0 ≤ (Pi.single x.1 x.2 : PlayerRef → ℤ) p := by
      by_cases hp : p = x.1
      · rw [hp, Pi.single_eq_same]
        exact h x (by simp)
      · rw [Pi.single_eq_of_ne hp]
    exact add_nonneg hx (ih fun y hy => h y (by simp [hy]))

def Heap.Credited (heap heap' : Heap) : Prop :=
  ∃ won, heap' = heap.credit won ∧ ∀ p, 0 ≤ won p

theorem Heap.Credited.refl (heap : Heap) : heap.Credited heap :=
  ⟨0, (credit_zero heap).symm, fun _ => le_refl 0⟩

theorem Heap.Credited.trans {heap heap' heap'' : Heap} (h : heap.Credited heap')
    (h' : heap'.Credited heap'') : heap.Credited heap'' := by
  obtain ⟨won, rfl, hge⟩ := h
  obtain ⟨won', rfl, hge'⟩ := h'
  exact ⟨won + won', credit_credit heap won won', fun p => add_nonneg (hge p) (hge' p)⟩

theorem pay_credited {amount : ℤ} (h : 0 ≤ amount) (winners : List PlayerRef) (heap : Heap) :
    heap.Credited (pay heap (payments amount winners)) :=
  ⟨_, pay_eq_credit (payments_nonneg h) heap, credits_nonneg (payments_nonneg h)⟩

theorem distributeSidePots_credited (winners : List PlayerRef) {pots : List SidePot}
    (h : ∀ pot ∈ pots, 0 ≤ pot.amount) (heap : Heap) :
    heap.Credited (distributeSidePots winners heap pots).1 := by
  induction pots generalizing heap with
  | nil => exact Heap.Credited.refl heap
  | cons pot rest ih =>
    refine Heap.Credited.trans ?_ (ih (fun x hx => h x (by simp [hx])) _)
    rw [distributeSidePot]
    split_ifs
    · exact Heap.Credited.refl heap
    · exact Heap.Credited.refl heap
    · exact pay_credited (h pot (by simp)) _ heap

theorem distributePot_credited {hand : Hand} (winners : List PlayerRef) (hpot : 0 ≤ hand.pot)
    (hside : ∀ pot ∈ hand.sidePots, 0 ≤ pot.amount) (heap : Heap) :
    heap.Credited (Pot.distributePot heap hand winners).1 := by
  refine Heap.Credited.trans ?_ (distributeSidePots_credited winners hside _)
  rw [distributeMainPot]
  split_ifs
  · exact pay_credited hpot winners heap
  · exact Heap.Credited.refl heap

/-- Without winners nothing moves. -/
theorem distributePot_none {hand : Hand} (hsides : hand.sidePots = []) (heap : Heap) :
    Pot.distributePot heap hand [] = (heap, hand) := by
  simp [Pot.distributePot, distributeMainPot, distributeSidePots, hsides]
  rw [← hsides]

/-- A single winner takes the pot. -/
theorem distributePot_single {hand : Hand} (hpot : 0 ≤ hand.pot) (hsides : hand.sidePots = [])
    (heap : Heap) (p : PlayerRef) : Pot.distributePot heap hand [p]
      = (heap.credit (Pi.single p hand.pot), { hand with pot := 0, sidePots := [] }) := by
  have hmain : distributeMainPot [p] heap hand.pot = (heap.credit (Pi.single p hand.pot), 0) := by
    rw [distributeMainPot]
    split_ifs with hpay
    · have hshare : payments hand.pot [p] = [(p, hand.pot)] := by
        have hone := shareOf_eq hpot (by decide : 0 < 1) 0
        simp only [Nat.cast_one, Int.ediv_one, Int.emod_one, Int.toNat_zero, lt_self_iff_false,
          if_false, add_zero] at hone
        simp [payments, hone]
      rw [hshare, pay, List.foldl_cons, List.foldl_nil, awardPot_eq hpot]
    · obtain hzero : hand.pot = 0 := by simp at hpay; omega
      rw [hzero, Pi.single_zero, credit_zero]
  simp [Pot.distributePot, hmain, hsides, distributeSidePots]

end HeadsUp.Core
