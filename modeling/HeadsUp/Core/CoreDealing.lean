import HeadsUp.Core.HandRuns

/-!
# The cards of a hand (`core/hand.cpp`)

`poker::startHand` deals from the copy of the deck the hand keeps, and every
round goes on where the last one stopped: what is dealt is always the front of
that deck. The hand given to `startHand` and the deck may have been used before.
-/

namespace HeadsUp.Core
open HeadsUp.Lib

/-- The cards `deal` has not handed out yet. -/
def Deck.undealt (d : Deck) : List Card := d.cards.drop d.nextCard

def Deck.advance (d : Deck) (count : ℕ) : Deck := ⟨d.cards, d.nextCard + count, d.standard⟩

theorem take_nextCard_advance (d : Deck) (count : ℕ) :
    (d.advance count).cards.take (d.advance count).nextCard
      = d.cards.take d.nextCard ++ d.undealt.take count :=
  List.take_add

/-- The hand a caller starts, in the state he left it, and what he starts it with. -/
structure DealSetup where
  heap : Heap
  hand : Hand
  deck : Deck
  smallBlind : PlayerRef
  bigBlind : PlayerRef
  shuffle : Shuffle Card
  uuid : String

/-- The calls a started hand is played with; `player` may be null. -/
inductive PlayCall where
  | applyAction (player : Option PlayerRef) (action : String) (amount : ℤ) (now : ℕ)
  | advanceBettingRound

def PlayCall.apply (s : HandState) : PlayCall → HandState × List Exn
  | .applyAction player action amount now =>
    let r := Poker.applyAction s.heap s.hand player action amount now
    (⟨r.2.1, r.2.2⟩, [])
  | .advanceBettingRound =>
    let r := Poker.advanceBettingRound s.hand
    (⟨s.heap, r.2.1⟩, r.2.2.toList)

namespace DealSetup
variable (setup : DealSetup)

def players : List PlayerRef := [setup.smallBlind, setup.bigBlind]

def started : Heap × Hand × Option Exn :=
  Poker.startHand setup.heap setup.hand setup.deck setup.smallBlind setup.bigBlind setup.shuffle
    setup.uuid

def start : HandState := ⟨setup.started.1, setup.started.2.1⟩

def machine : Machine HandState PlayCall Exn := ⟨setup.start, PlayCall.apply⟩

end DealSetup

/-! ### What is dealt -/

/-- The number of community cards in a round. -/
def boardSize : BettingRound → ℕ
  | .preflop => 0
  | .flop => 3
  | .turn => 4
  | .river => 5
  | .showdown => 5

theorem boardSize_le (round : BettingRound) : boardSize round ≤ 5 := by
  cases round <;> decide

def heldCards (heap : Heap) (hand : Hand) : List Card :=
  hand.players.flatMap fun p => (heap p).holeCards

/-- The cards in the players' hands, on the board and yet to be dealt. -/
def allCards (heap : Heap) (hand : Hand) : List Card :=
  heldCards heap hand ++ hand.communityCards ++ hand.deck.undealt

/-- What the players hold and the board are the front of the deck. -/
structure DealtFromTop (players : List PlayerRef) (s : HandState) : Prop where
  players_eq : s.hand.players = players
  two : ∀ p ∈ players, (s.heap p).holeCards.length = 2
  board : s.hand.communityCards.length = boardSize s.hand.currentBettingRound
  next : s.hand.deck.nextCard = 2 * players.length + boardSize s.hand.currentBettingRound
  dealt : heldCards s.heap s.hand ++ s.hand.communityCards = s.hand.deck.cards.take s.hand.deck.nextCard

theorem DealtFromTop.perm {players : List PlayerRef} {s : HandState} (h : DealtFromTop players s) :
    (allCards s.heap s.hand).Perm createStandardDeck := by
  rw [allCards, h.dealt, Deck.undealt, List.take_append_drop]
  exact s.hand.deck.standard

/-! ### Dealing -/

theorem dealHoleCards_deck (heap : Heap) (deck : Deck) (players : List PlayerRef)
    (h : deck.nextCard + 2 * players.length ≤ 52) :
    (dealHoleCards heap deck players).2.1 = deck.advance (2 * players.length) := by
  induction players generalizing heap deck with
  | nil => rfl
  | cons q qs ih =>
    simp only [List.length_cons] at h
    rw [dealHoleCards_cons heap deck q qs (by omega), ih _ _ (by simp only; omega)]
    simp only [Deck.advance, List.length_cons, Deck.mk.injEq, true_and]
    omega

theorem dealCommunityCards_deals (hand : Hand) (count : ℕ)
    (h : hand.deck.nextCard + count ≤ 52) :
    dealCommunityCards hand count = ({ hand with
      deck := hand.deck.advance count
      communityCards := hand.communityCards ++ hand.deck.undealt.take count }, none) := by
  induction count generalizing hand with
  | zero => simp [dealCommunityCards, Deck.advance]
  | succ count ih =>
    have hlen := hand.deck.cards_length
    have hnext : hand.deck.nextCard < hand.deck.cards.length := by omega
    rw [dealCommunityCards, Deck.deal_ok _ (by omega)]
    simp only
    rw [ih _ (by simp only; omega), Deck.undealt, Deck.undealt, List.drop_eq_getElem_cons hnext,
      List.take_succ_cons]
    simp [Deck.advance, List.getD_eq_getElem?_getD, hnext, Nat.add_assoc, Nat.add_comm 1]

theorem startHand_dealt (setup : DealSetup) (hne : setup.smallBlind ≠ setup.bigBlind) :
    setup.started.2.2 = none ∧ DealtFromTop setup.players setup.start := by
  have hnd : setup.players.Nodup := by simpa [DealSetup.players] using hne
  have hnext : (setup.deck.shuffle setup.shuffle).nextCard + 2 * setup.players.length ≤ 52 := by
    simp [DealSetup.players]
  obtain ⟨hcards, htwo⟩ := dealHoleCards_cards setup.heap _ hnd hnext
  have hdeck := dealHoleCards_deck setup.heap _ setup.players hnext
  refine ⟨dealHoleCards_ok setup.heap _ setup.players hnext, ?_⟩
  have hstart : setup.start.hand.deck
      = (setup.deck.shuffle setup.shuffle).advance (2 * setup.players.length) := hdeck
  exact {
    players_eq := rfl
    two := htwo
    board := rfl
    next := by
      rw [hstart]
      rfl
    dealt := by
      rw [hstart, take_nextCard_advance, heldCards]
      exact (List.append_nil _).trans hcards }

/-! ### One call -/

section Step
variable {players : List PlayerRef} {s : HandState}

theorem DealtFromTop.congr (h : DealtFromTop players s) {s' : HandState}
    (hplayers : s'.hand.players = s.hand.players)
    (hcards : ∀ p, (s'.heap p).holeCards = (s.heap p).holeCards)
    (hdeck : s'.hand.deck = s.hand.deck)
    (hboard : s'.hand.communityCards = s.hand.communityCards)
    (hround : s'.hand.currentBettingRound = s.hand.currentBettingRound) :
    DealtFromTop players s' where
  players_eq := hplayers.trans h.players_eq
  two := fun p hp => (congrArg List.length (hcards p)).trans (h.two p hp)
  board := by rw [hboard, hround, h.board]
  next := by rw [hdeck, hround, h.next]
  dealt := by
    have hheld : heldCards s'.heap s'.hand = heldCards s.heap s.hand := by
      simp only [heldCards, hplayers, hcards]
    rw [hheld, hboard, hdeck, h.dealt]

/-- No action touches a card. -/
theorem DealtFromTop.applyAction (h : DealtFromTop players s) (player : Option PlayerRef)
    (action : String) (amount : ℤ) (now : ℕ) :
    DealtFromTop players (PlayCall.apply s (.applyAction player action amount now)).1 := by
  cases player with
  | none => exact h.congr rfl (fun _ => rfl) rfl rfl rfl
  | some p =>
    simp only [PlayCall.apply]
    rcases Poker.applyAction_cases s.heap s.hand p action amount now with hr | hr | ⟨-, -, hr⟩
    · rw [hr]
      exact h.congr rfl (fun _ => rfl) rfl rfl rfl
    · rw [hr]
      exact h.congr rfl (fun _ => rfl) rfl rfl rfl
    · rw [hr]
      exact h.congr rfl (fun _ => rfl) rfl rfl rfl

/-- A round that deals `count` cards to the board. -/
theorem DealtFromTop.deals (h : DealtFromTop players s) (hfew : players.length ≤ 2) {count : ℕ}
    {round : BettingRound} (hround : boardSize round = boardSize s.hand.currentBettingRound + count) :
    let r := dealCommunityCards { s.hand with currentBettingRound := round } count
    r.2 = none ∧ DealtFromTop players ⟨s.heap, r.1⟩ := by
  have hle := boardSize_le round
  have hnext := h.next
  have hboard := h.board
  have hlen := s.hand.deck.cards_length
  intro r
  have hr : r = _ := dealCommunityCards_deals { s.hand with currentBettingRound := round } count
    (by simp only; omega)
  rw [hr]
  refine ⟨rfl, ?_⟩
  exact {
    players_eq := h.players_eq
    two := h.two
    board := by
      simp only [List.length_append, List.length_take, Deck.undealt, List.length_drop]
      omega
    next := by
      simp only [Deck.advance]
      omega
    dealt := by
      show heldCards s.heap s.hand ++ (s.hand.communityCards ++ s.hand.deck.undealt.take count) = _
      rw [take_nextCard_advance, ← h.dealt, List.append_assoc] }

/-- A hand at showdown stays as it is; any other deals what its next round lacks. -/
theorem advanceBettingRound_cases (hand : Hand) :
    Poker.advanceBettingRound hand = (false, hand, none) ∨
    ∃ round count, boardSize round = boardSize hand.currentBettingRound + count ∧
      Poker.advanceBettingRound hand
        = (true, dealCommunityCards { hand with currentBettingRound := round } count) := by
  cases hround : hand.currentBettingRound with
  | showdown => exact .inl (by simp [Poker.advanceBettingRound, Hand.advanceRound, hround])
  | preflop => exact .inr ⟨.flop, 3, rfl,
      by simp [Poker.advanceBettingRound, Hand.advanceRound, hround]⟩
  | flop => exact .inr ⟨.turn, 1, rfl,
      by simp [Poker.advanceBettingRound, Hand.advanceRound, hround]⟩
  | turn => exact .inr ⟨.river, 1, rfl,
      by simp [Poker.advanceBettingRound, Hand.advanceRound, hround]⟩
  | river => exact .inr ⟨.showdown, 0, rfl,
      by simp [Poker.advanceBettingRound, Hand.advanceRound, hround]⟩

theorem DealtFromTop.advanceBettingRound (h : DealtFromTop players s) (hfew : players.length ≤ 2) :
    (PlayCall.apply s .advanceBettingRound).2 = [] ∧
      DealtFromTop players (PlayCall.apply s .advanceBettingRound).1 := by
  simp only [PlayCall.apply, Option.toList_eq_nil_iff]
  rcases advanceBettingRound_cases s.hand with hr | ⟨round, count, hround, hr⟩
  · rw [hr]
    exact ⟨rfl, h⟩
  · rw [hr]
    exact h.deals hfew hround

theorem DealtFromTop.apply (h : DealtFromTop players s) (hfew : players.length ≤ 2)
    (call : PlayCall) :
    (PlayCall.apply s call).2 = [] ∧ DealtFromTop players (PlayCall.apply s call).1 := by
  cases call with
  | applyAction player action amount now => exact ⟨rfl, h.applyAction player action amount now⟩
  | advanceBettingRound => exact h.advanceBettingRound hfew

end Step

/-! ### Runs -/

theorem run_dealtFromTop (setup : DealSetup) (hne : setup.smallBlind ≠ setup.bigBlind)
    (calls : List PlayCall) : DealtFromTop setup.players (setup.machine.run calls) :=
  setup.machine.invariant (startHand_dealt setup hne).2
    (fun _ call h => (h.apply (le_refl 2) call).2) calls

/-- However a started hand of two players is played, no deal throws, each player
holds two cards, the board has the cards of its round, and each of the 52 cards
is held, on the board or undealt once. -/
theorem startedHand_cards (setup : DealSetup) (hne : setup.smallBlind ≠ setup.bigBlind)
    (calls : List PlayCall) :
    let s := setup.machine.run calls
    setup.started.2.2 = none ∧ setup.machine.trace calls = [] ∧
      s.hand.players = [setup.smallBlind, setup.bigBlind] ∧
      (∀ p ∈ s.hand.players, (s.heap p).holeCards.length = 2) ∧
      s.hand.communityCards.length = boardSize s.hand.currentBettingRound ∧
      (allCards s.heap s.hand).Perm createStandardDeck := by
  intro s
  have h : DealtFromTop setup.players s := run_dealtFromTop setup hne calls
  have htrace : setup.machine.trace calls = [] := by
    rw [Machine.trace_eq_nil_iff]
    intro pre call _
    exact ((run_dealtFromTop setup hne pre).apply (le_refl 2) call).1
  refine ⟨(startHand_dealt setup hne).1, htrace, h.players_eq, ?_, h.board, h.perm⟩
  intro p hp
  exact h.two p (h.players_eq ▸ hp)

/-- The hand is one that was dealt before, its deck still where it stopped. -/
def dealtAgain : DealSetup where
  heap := twoStacks.start.heap
  hand := twoStacks.start.hand
  deck := twoStacks.start.hand.deck
  smallBlind := 1
  bigBlind := 0
  shuffle := Shuffle.refl Card
  uuid := "1"

/-- A rejected raise and one advance more than there are rounds. -/
def pastShowdown : List PlayCall :=
  [.applyAction (some 1) "raise" 3 0, .advanceBettingRound, .applyAction none "fold" 0 0,
    .advanceBettingRound, .advanceBettingRound, .advanceBettingRound, .advanceBettingRound]

theorem startedHand_cards_pastShowdown :
    let s := dealtAgain.machine.run pastShowdown
    s.hand.currentBettingRound = .showdown ∧ s.hand.communityCards.length = 5 ∧
      (allCards s.heap s.hand).Perm createStandardDeck := by
  obtain ⟨-, -, -, -, hboard, hperm⟩ := startedHand_cards dealtAgain (by decide) pastShowdown
  have hround : (dealtAgain.machine.run pastShowdown).hand.currentBettingRound = .showdown := by
    decide
  refine ⟨hround, ?_, hperm⟩
  rw [hboard, hround]
  rfl

end HeadsUp.Core
