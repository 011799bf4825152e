import HeadsUp.Lib.Partial
import HeadsUp.Core.Hand

/-!
# Runs of the hand-level engine

A hand is started and then played by any sequence of actions, rounds, side pot
calculations and distributions. Every operation but one keeps the chips:
`calculateSidePots` fills the side pots from the bets and takes nothing from
the pot, where the bets already are. On `int`s a run ends undefined when an
amount outgrows them.
-/

namespace HeadsUp.Core
open HeadsUp.Lib

structure HandState where
  heap : Heap
  hand : Hand

inductive HandOp where
  | applyAction (player : PlayerRef) (action : String) (amount : ℤ) (now : ℕ)
  | advanceBettingRound
  | calculateSidePots (sort : IndexSort)
  | distributePot (winners : List PlayerRef)

namespace HandOp

/-- Actions are by players of the hand, distributions to some of them. -/
def Among (players : List PlayerRef) : HandOp → Prop
  | .applyAction player _ _ _ => player ∈ players
  | .advanceBettingRound => True
  | .calculateSidePots _ => True
  | .distributePot winners => winners ≠ [] ∧ winners.Nodup ∧ ∀ w ∈ winners, w ∈ players

def apply (s : HandState) : HandOp → HandState × List Exn
  | .applyAction player action amount now =>
    let r := Poker.applyAction s.heap s.hand (some player) action amount now
    (⟨r.2.1, r.2.2⟩, [])
  | .advanceBettingRound =>
    let r := Poker.advanceBettingRound s.hand
    (⟨s.heap, r.2.1⟩, r.2.2.toList)
  | .calculateSidePots sort =>
    -- the assertion fails before anything is written
    match Poker.calculateSidePots sort s.hand with
    | .ok hand => (⟨s.heap, hand⟩, [])
    | .error e => (s, [e])
  | .distributePot winners =>
    let r := Pot.distributePot s.heap s.hand winners
    (⟨r.1, r.2⟩, [])

end HandOp

/-- A default-constructed `Hand`: the vectors are empty. -/
def freshHand (deck : Deck) : Hand where
  id := ""
  table := none
  players := []
  deck := deck
  communityCards := []
  pot := 0
  sidePots := []
  playerBets := []
  folded := []
  currentBettingRound := .preflop
  currentPlayerToAct := none
  minRaise := 0
  history := []
  winners := []
  completedAt := 0

structure HandSetup where
  heap : Heap
  deck : Deck
  smallBlind : PlayerRef
  bigBlind : PlayerRef
  shuffle : Shuffle Card
  uuid : String

namespace HandSetup
variable (setup : HandSetup)

def players : List PlayerRef := [setup.smallBlind, setup.bigBlind]

def start : HandState :=
  let r := Poker.startHand setup.heap (freshHand setup.deck) setup.deck setup.smallBlind
    setup.bigBlind setup.shuffle setup.uuid
  ⟨r.1, r.2.1⟩

def machine : Machine HandState HandOp Exn := ⟨setup.start, HandOp.apply⟩

end HandSetup

namespace HandState

def chips (s : HandState) : ℤ :=
  stackSum s.heap s.hand.players + s.hand.pot + sidePotSum s.hand.sidePots

/-- The amounts that sums are stored in; side pots are narrowed, and the minimum
raise is bounded by a stack. -/
def InInts (s : HandState) : Prop :=
  (∀ p ∈ s.hand.players, InInt (s.heap p).stack) ∧ InInt s.hand.pot ∧
    ∀ b ∈ s.hand.playerBets, InInt b

instance : DecidablePred InInts := fun _ => inferInstanceAs (Decidable (_ ∧ _ ∧ _))

end HandState

/-- The hand on `int`s: a sum that is none is undefined. -/
def HandSetup.intMachine (setup : HandSetup) : Machine (Option HandState) HandOp Empty :=
  setup.machine.within HandState.InInts

/-! ### The invariant -/

structure HandInv (players : List PlayerRef) (s : HandState) : Prop where
  players_eq : s.hand.players = players
  pot : 0 ≤ s.hand.pot
  betsLength : s.hand.playerBets.length = players.length
  bets : ∀ b ∈ s.hand.playerBets, 0 ≤ b
  sides : ∀ pot ∈ s.hand.sidePots, 0 ≤ pot.amount

theorem HandSetup.start_inv (setup : HandSetup) : HandInv setup.players setup.start where
  players_eq := rfl
  pot := le_refl 0
  betsLength := rfl
  bets := by
    intro b hb
    obtain rfl : b = 0 := by simpa [HandSetup.start, Poker.startHand, freshHand, resize] using hb
    exact le_refl 0
  sides := by
    intro pot hpot
    cases hpot

theorem dealCommunityCards_eq (hand : Hand) (count : ℕ) :
    ∃ deck communityCards,
      (dealCommunityCards hand count).1 = { hand with deck, communityCards } := by
  induction count generalizing hand with
  | zero => exact ⟨_, _, rfl⟩
  | succ count ih =>
    rw [dealCommunityCards]
    cases hand.deck.deal with
    | error e => exact ⟨_, _, rfl⟩
    | ok r =>
      obtain ⟨deck, communityCards, h⟩ :=
        ih { hand with deck := r.2, communityCards := hand.communityCards ++ [r.1] }
      exact ⟨deck, communityCards, h⟩

theorem advanceBettingRound_eq (hand : Hand) :
    ∃ currentBettingRound deck communityCards, (Poker.advanceBettingRound hand).2.1
      = { hand with currentBettingRound, deck, communityCards } := by
  unfold Poker.advanceBettingRound Hand.advanceRound
  cases hand.currentBettingRound with
  | showdown => exact ⟨_, _, _, rfl⟩
  | preflop =>
    obtain ⟨deck, cards, h⟩ := dealCommunityCards_eq { hand with currentBettingRound := .flop } 3
    exact ⟨_, deck, cards, h⟩
  | flop =>
    obtain ⟨deck, cards, h⟩ := dealCommunityCards_eq { hand with currentBettingRound := .turn } 1
    exact ⟨_, deck, cards, h⟩
  | turn =>
    obtain ⟨deck, cards, h⟩ := dealCommunityCards_eq { hand with currentBettingRound := .river } 1
    exact ⟨_, deck, cards, h⟩
  | river =>
    obtain ⟨deck, cards, h⟩ := dealCommunityCards_eq { hand with currentBettingRound := .showdown } 0
    exact ⟨_, deck, cards, h⟩

theorem calculateSidePots_ok {s : HandState} {players : List PlayerRef} (h : HandInv players s)
    (sort : IndexSort) : ∃ sidePots,
      Pot.calculateSidePots sort s.hand.players s.hand.playerBets = .ok sidePots ∧
      HandOp.apply s (.calculateSidePots sort) = (⟨s.heap, { s.hand with sidePots }⟩, []) := by
  have hlen : s.hand.players.length = s.hand.playerBets.length := by
    rw [h.players_eq, h.betsLength]
  have hok : Pot.calculateSidePots sort s.hand.players s.hand.playerBets
      = .ok (sidePotLoop s.hand.players s.hand.playerBets 0 (sort.apply s.hand.playerBets)) := by
    simp [Pot.calculateSidePots, hlen]
  refine ⟨_, hok, ?_⟩
  simp only [HandOp.apply, Poker.calculateSidePots, hok]
  rfl

/-! ### One operation -/

section Step
variable {players : List PlayerRef} {s : HandState}

theorem sizeVectors_playerBets (h : HandInv players s) :
    (Poker.sizeVectors s.hand).playerBets = s.hand.playerBets :=
  resize_of_length _ _ (by rw [h.players_eq, h.betsLength])

theorem HandInv.congr (h : HandInv players s) {s' : HandState}
    (hplayers : s'.hand.players = s.hand.players) (hpot : s'.hand.pot = s.hand.pot)
    (hbets : s'.hand.playerBets = s.hand.playerBets) (hsides : s'.hand.sidePots = s.hand.sidePots) :
    HandInv players s' where
  players_eq := hplayers.trans h.players_eq
  pot := hpot ▸ h.pot
  betsLength := hbets ▸ h.betsLength
  bets := hbets ▸ h.bets
  sides := hsides ▸ h.sides

theorem betAction_inv (h : HandInv players s) (hnd : players.Nodup) {p : PlayerRef}
    (hp : p ∈ players) (action : String) {amount : ℤ} (hge : 0 ≤ amount) (now : ℕ) :
    let r := betAction s.heap (Poker.sizeVectors s.hand) p action amount now
    HandInv players ⟨r.1, r.2⟩ ∧ (HandState.mk r.1 r.2).chips = s.chips := by
  have hbets := sizeVectors_playerBets h
  refine ⟨⟨h.players_eq, add_nonneg h.pot hge, ?_, ?_, h.sides⟩, ?_⟩
  · refine (length_addBet_playerBets _ p amount).trans ?_
    exact (congrArg List.length hbets).trans h.betsLength
  · refine addBet_playerBets_nonneg p hge ?_
    intro b hb
    exact h.bets b (hbets ▸ hb)
  · have hsum : (s.hand.players.map (Pi.single p (-amount) : PlayerRef → ℤ)).sum = -amount := by
      rw [h.players_eq]
      exact sum_map_single hnd hp (-amount)
    have hstacks := stackSum_credit s.heap (Pi.single p (-amount)) s.hand.players
    show stackSum (s.heap.credit (Pi.single p (-amount))) s.hand.players
      + (s.hand.pot + amount) + sidePotSum s.hand.sidePots
      = stackSum s.heap s.hand.players + s.hand.pot + sidePotSum s.hand.sidePots
    omega

theorem applyAction_inv (h : HandInv players s) (hnd : players.Nodup) {p : PlayerRef}
    (hp : p ∈ players) (action : String) (amount : ℤ) (now : ℕ) :
    HandInv players (HandOp.apply s (.applyAction p action amount now)).1 ∧
      (HandOp.apply s (.applyAction p action amount now)).1.chips = s.chips := by
  have hbets := sizeVectors_playerBets h
  simp only [HandOp.apply]
  rcases Poker.applyAction_cases s.heap s.hand p action amount now with hr | hr | ⟨hge, -, hr⟩
  · rw [hr]
    exact ⟨h.congr rfl rfl hbets rfl, rfl⟩
  · rw [hr]
    exact ⟨h.congr rfl rfl hbets rfl, rfl⟩
  · rw [hr]
    exact betAction_inv h hnd hp action hge now

theorem advanceBettingRound_inv (h : HandInv players s) :
    HandInv players (HandOp.apply s .advanceBettingRound).1 ∧
      (HandOp.apply s .advanceBettingRound).1.chips = s.chips := by
  obtain ⟨round, deck, cards, hr⟩ := advanceBettingRound_eq s.hand
  simp only [HandOp.apply, hr]
  exact ⟨h.congr rfl rfl rfl rfl, rfl⟩

theorem distributePot_inv (h : HandInv players s) (hnd : players.Nodup) {winners : List PlayerRef}
    (hmem : ∀ w ∈ winners, w ∈ players) :
    HandInv players (HandOp.apply s (.distributePot winners)).1 ∧
      (HandOp.apply s (.distributePot winners)).1.chips = s.chips := by
  have hnd' : s.hand.players.Nodup := h.players_eq.symm ▸ hnd
  have hmem' : ∀ w ∈ winners, w ∈ s.hand.players := h.players_eq.symm ▸ hmem
  obtain ⟨htotal, hpot, hsides⟩ := distributePot_total hnd' hmem' h.pot h.sides s.heap
  exact ⟨⟨h.players_eq, hpot, h.betsLength, h.bets, hsides⟩, htotal⟩

end Step

/-! ### Two stacks -/

def twoStacks : HandSetup where
  heap _ := { (default : Player) with stack := startingStack }
  deck := Deck.new (Shuffle.refl Card)
  smallBlind := 0
  bigBlind := 1
  shuffle := Shuffle.refl Card
  uuid := "0"

end HeadsUp.Core
