import HeadsUp.Core.Showdown
import HeadsUp.Server.PlayerAction

/-!
# The table manager (`server/table_manager.cpp`)

Seats, the current hand and the players the manager owns. `current_hand_` and
`table_.current_hand` are always set together, so the table holds the hand. Amounts are
integers: a player's own bets stay within his stack, and an `int` holds the pot and the
stack that wins it as long as the two stacks a hand starts with sum to one (`run_fits`).
-/

namespace HeadsUp.Server
open HeadsUp.Core HeadsUp.Lib

structure TableManager where
  table : Table
  players : List PlayerRef
  heap : Heap

namespace TableManager

/-- `&table_`. -/
def ownTable : TableRef := 0

def new : TableManager where
  table := {
    seat1 := none
    seat2 := none
    currentHand := none
    pot := 0
    communityCards := []
    dealerButtonPosition := defaultDealerPosition
    state := .waitingForPlayers }
  players := []
  heap := default

def getPlayer (tm : TableManager) (playerId : String) : Option PlayerRef :=
  tm.players.find? fun p => (tm.heap p).id == playerId

def assignSeat (tm : TableManager) (player : PlayerRef) (seat : ℤ) : Bool × TableManager :=
  if seat ≠ seat1 ∧ seat ≠ seat2 then (false, tm)
  else
    let targetSeat := if seat = seat1 then tm.table.seat1 else tm.table.seat2
    if targetSeat.isSome then (false, tm)
    else if tm.players.any fun p => (tm.heap p).id == (tm.heap player).id then (false, tm)
    else
      (true, {
        table :=
          if seat = seat1 then { tm.table with seat1 := some player }
          else { tm.table with seat2 := some player }
        players := tm.players ++ [player]
        heap := Function.update tm.heap player { tm.heap player with seat } })

def removePlayer (tm : TableManager) (playerId : String) : Bool × TableManager :=
  match tm.getPlayer playerId with
  | none => (false, tm)
  | some player =>
    (true, { tm with
      table :=
        if tm.table.seat1 = some player then { tm.table with seat1 := none }
        else if tm.table.seat2 = some player then { tm.table with seat2 := none }
        else tm.table
      players := tm.players.erase player })

/-- The deck is shuffled by its constructor and once more; the stored hand is a
copy made before the hole cards are dealt. -/
def startHand (tm : TableManager) (uuid : String) (constructed shuffled : Shuffle Card) :
    Bool × TableManager × Option Exn :=
  if !tm.table.isReadyForHand then (false, tm, none)
  else if tm.table.currentHand.isSome then (false, tm, none)
  else
    let hand : Hand := {
      id := "hand_" ++ uuid
      table := some ownTable
      players := tm.table.seat1.toList ++ tm.table.seat2.toList
      deck := (Deck.new constructed).shuffle shuffled
      communityCards := []
      pot := 0
      sidePots := []
      playerBets := []
      folded := []
      currentBettingRound := .preflop
      currentPlayerToAct :=
        if tm.table.dealerButtonPosition = 0 then tm.table.seat2 else tm.table.seat1
      minRaise := bigBlind
      history := []
      winners := []
      completedAt := 0 }
    -- from here on the table has the hand, also when dealing throws
    let stored := { tm.table with currentHand := some hand }
    let dealt := dealHoleCards tm.heap hand.deck hand.players
    match dealt.2.2 with
    | some e => (false, { tm with table := stored, heap := dealt.1 }, some e)
    | none =>
      (true, { tm with
        table := { stored with state := .handInProgress, communityCards := [], pot := 0 }
        heap := dealt.1 }, none)

end TableManager

/-- `topUp` on each of the players; the number is the chips it adds. -/
def topUpAll : Heap → List PlayerRef → Heap × ℤ
  | heap, [] => (heap, 0)
  | heap, p :: rest =>
    let others := topUpAll (Function.update heap p (heap p).topUp) rest
    (others.1, (heap p).topUp.stack - (heap p).stack + others.2)

namespace TableManager

/-- `endHand`, with the chips its top-ups add. -/
def endHand (tm : TableManager) (σ : MapOrder) : TableManager × ℤ × Option Exn :=
  match tm.table.currentHand with
  | none => (tm, 0, none)
  | some hand =>
    match Poker.determineWinners σ tm.heap hand with
    | .error e => (tm, 0, some e)
    | .ok winners =>
      -- the hand is dropped below with whatever pots are left in it
      let paid := Pot.distributePot tm.heap { hand with winners } winners
      let topped := topUpAll paid.1 tm.players
      ({ tm with
        heap := topped.1
        table := { tm.table with
          pot := 0
          currentHand := none
          state := .waitingForPlayers
          communityCards := []
          dealerButtonPosition := (tm.table.dealerButtonPosition + 1).tmod (seat2 + 1) } },
        topped.2, none)

def processPlayerAction (tm : TableManager) (playerId : String) (action : String) (amount : ℤ)
    (now : ℕ) : Bool × TableManager :=
  match tm.table.currentHand with
  | none => (false, tm)
  | some hand =>
    match tm.getPlayer playerId with
    | none => (false, tm)
    | some player =>
      if !PlayerAction.validateAction tm.heap hand player action amount then (false, tm)
      else
        let r := PlayerAction.applyAction tm.heap hand player action amount now
        if !r.1 then (false, tm)
        else
          (true, { tm with
            heap := r.2.1
            table := { tm.table with currentHand := some r.2.2, pot := r.2.2.pot } })

/-! ### Rounds

Nothing calls `advanceBettingRound`. -/

/-- The loop of `dealCommunityCards`: the hand and the table's board. -/
def dealBoard (hand : Hand) (board : List Card) : ℕ → Hand × List Card
  | 0 => (hand, board)
  | count + 1 =>
    if hand.deck.size = 0 then (hand, board)
    else
      match hand.deck.deal with
      | .error _ => (hand, board)
      | .ok (card, deck) =>
        dealBoard { hand with deck, communityCards := hand.communityCards ++ [card] }
          (board ++ [card]) count

def dealCommunityCards (tm : TableManager) : TableManager :=
  match tm.table.currentHand with
  | none => tm
  | some hand =>
    let count := match hand.currentBettingRound with
      | .preflop => 0
      | .flop => 3
      | .turn | .river => 1
      | .showdown => 0
    let dealt := dealBoard hand tm.table.communityCards count
    { tm with table := { tm.table with currentHand := some dealt.1, communityCards := dealt.2 } }

def advanceBettingRound (tm : TableManager) : TableManager :=
  match tm.table.currentHand with
  | none => tm
  | some hand =>
    let advanced := hand.advanceRound
    let tm := { tm with table := { tm.table with currentHand := some advanced.2 } }
    if advanced.1 then tm.dealCommunityCards else tm

/-! ### A hand without flags -/

def seatedTwo : TableManager :=
  let heap : Heap := fun p => { (default : Player) with
    id := if p = 0 then "alice" else "bob"
    stack := startingStack }
  (({ new with heap }.assignSeat 0 seat1).2.assignSeat 1 seat2).2

def called : Bool × TableManager :=
  (seatedTwo.startHand "1" (Shuffle.refl _) (Shuffle.refl _)).2.1.processPlayerAction "bob" "call" 0 0

/-- The hand he leaves has no flags, `isHandComplete` reads two of them and can
find the hand complete with both players in it. -/
theorem isHandComplete_called : called.1 = true ∧ ∃ hand,
    called.2.table.currentHand = some hand ∧ hand.currentBettingRound = .preflop ∧
      hand.folded = [] ∧ foldedReads hand = [0, 1] ∧ activePlayers hand = [0, 1] ∧
      Poker.isHandComplete (fun _ => true) hand = true :=
  ⟨by decide +kernel, called.2.table.currentHand.get (by decide +kernel),
    (Option.some_get _).symm, by decide +kernel, by decide +kernel, by decide +kernel,
    by decide +kernel, by decide +kernel⟩

end TableManager
end HeadsUp.Server
