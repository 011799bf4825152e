import HeadsUp.Core.HandRanking
import HeadsUp.Core.Pot

/-!
# Hands (`core/hand.cpp`)

The hand-level engine. An operation that can throw returns what it had written
by then together with the exception.
-/

namespace HeadsUp.Core
open HeadsUp.Lib

/-! ### Dealing -/

/-- Two cards for each player, the old ones gone before the first is dealt. -/
def dealHoleCards (heap : Heap) (deck : Deck) : List PlayerRef → Heap × Deck × Option Exn
  | [] => (heap, deck, none)
  | p :: rest =>
    let heap := Function.update heap p { heap p with holeCards := [] }
    match deck.deal with
    | .error e => (heap, deck, some e)
    | .ok (c, deck) =>
      let heap := Function.update heap p { heap p with holeCards := [c] }
      match deck.deal with
      | .error e => (heap, deck, some e)
      | .ok (d, deck) =>
        dealHoleCards (Function.update heap p { heap p with holeCards := [c, d] }) deck rest

def dealCommunityCards (hand : Hand) : ℕ → Hand × Option Exn
  | 0 => (hand, none)
  | count + 1 =>
    match hand.deck.deal with
    | .error e => (hand, some e)
    | .ok (c, deck) =>
      dealCommunityCards { hand with deck, communityCards := hand.communityCards ++ [c] } count

def Heap.Dealt (heap heap' : Heap) : Prop :=
  ∀ p, ∃ holeCards, heap' p = { heap p with holeCards }

theorem Heap.Dealt.refl (heap : Heap) : heap.Dealt heap := fun _ => ⟨_, rfl⟩

theorem Heap.Dealt.trans {heap heap' heap'' : Heap} (h : heap.Dealt heap') (h' : heap'.Dealt heap'') :
    heap.Dealt heap'' := by
  intro p
  obtain ⟨cards, hc⟩ := h p
  obtain ⟨cards', hc'⟩ := h' p
  exact ⟨cards', by rw [hc', hc]⟩

theorem Heap.Dealt.update (heap : Heap) (q : PlayerRef) (holeCards : List Card) :
    heap.Dealt (Function.update heap q { heap q with holeCards }) := by
  intro p
  by_cases hpq : p = q
  · subst hpq
    exact ⟨holeCards, Function.update_self ..⟩
  · exact ⟨(heap p).holeCards, Function.update_of_ne hpq ..⟩

theorem Heap.Dealt.stack {heap heap' : Heap} (h : heap.Dealt heap') (p : PlayerRef) :
    (heap' p).stack = (heap p).stack := by
  obtain ⟨cards, hc⟩ := h p
  rw [hc]

theorem dealHoleCards_dealt (heap : Heap) (deck : Deck) (players : List PlayerRef) :
    heap.Dealt (dealHoleCards heap deck players).1 := by
  induction players generalizing heap deck with
  | nil => exact Heap.Dealt.refl heap
  | cons q qs ih =>
    have hclear := Heap.Dealt.update heap q []
    simp only [dealHoleCards]
    cases deck.deal with
    | error e => exact hclear
    | ok first =>
      have hfirst := hclear.trans (Heap.Dealt.update _ q [first.1])
      simp only
      cases first.2.deal with
      | error e => exact hfirst
      | ok second =>
        exact (hfirst.trans (Heap.Dealt.update _ q [first.1, second.1])).trans (ih _ _)

theorem dealHoleCards_ok (heap : Heap) (deck : Deck) (players : List PlayerRef)
    (h : deck.nextCard + 2 * players.length ≤ 52) : (dealHoleCards heap deck players).2.2 = none := by
  induction players generalizing heap deck with
  | nil => rfl
  | cons q qs ih =>
    simp only [List.length_cons] at h
    simp only [dealHoleCards]
    rw [Deck.deal_ok deck (by omega)]
    simp only
    rw [Deck.deal_ok _ (by simp only; omega)]
    exact ih _ _ (by simp only; omega)

theorem dealHoleCards_cons (heap : Heap) (deck : Deck) (q : PlayerRef) (qs : List PlayerRef)
    (h : deck.nextCard + 2 ≤ 52) :
    dealHoleCards heap deck (q :: qs) = dealHoleCards
      (Function.update heap q { heap q with holeCards := [deck.cards.getD deck.nextCard default,
        deck.cards.getD (deck.nextCard + 1) default] })
      ⟨deck.cards, deck.nextCard + 2, deck.standard⟩ qs := by
  simp only [dealHoleCards]
  rw [Deck.deal_ok deck (by omega)]
  simp only
  rw [Deck.deal_ok _ (by simp only; omega)]
  simp only [Function.update_idem, Function.update_self]

theorem dealHoleCards_of_not_mem (heap : Heap) (deck : Deck) {players : List PlayerRef}
    {p : PlayerRef} (hp : p ∉ players) : (dealHoleCards heap deck players).1 p = heap p := by
  induction players generalizing heap deck with
  | nil => rfl
  | cons q qs ih =>
    obtain ⟨hpq, hqs⟩ := not_or.mp (mt List.mem_cons.mpr hp)
    simp only [dealHoleCards]
    cases deck.deal with
    | error e => exact Function.update_of_ne hpq ..
    | ok first =>
      simp only
      cases first.2.deal with
      | error e => simp only [Function.update_of_ne hpq]
      | ok second => simp only [ih _ _ hqs, Function.update_of_ne hpq]

/-- Each player in turn has the next two cards of the deck. -/
theorem dealHoleCards_cards (heap : Heap) (deck : Deck) {players : List PlayerRef}
    (hnd : players.Nodup) (h : deck.nextCard + 2 * players.length ≤ 52) :
    let heap' := (dealHoleCards heap deck players).1
    players.flatMap (fun p => (heap' p).holeCards)
        = (deck.cards.drop deck.nextCard).take (2 * players.length) ∧
      ∀ p ∈ players, (heap' p).holeCards.length = 2 := by
  induction players generalizing heap deck with
  | nil => simp
  | cons q qs ih =>
    obtain ⟨hq, hqs⟩ := List.nodup_cons.mp hnd
    simp only [List.length_cons] at h
    rw [dealHoleCards_cons heap deck q qs (by omega)]
    have hlen := deck.cards_length
    have hfirst : deck.nextCard < deck.cards.length := by omega
    have hsecond : deck.nextCard + 1 < deck.cards.length := by omega
    set dealt : Player := { heap q with
      holeCards := [deck.cards.getD deck.nextCard default,
        deck.cards.getD (deck.nextCard + 1) default] } with hdealt
    set deck' : Deck := ⟨deck.cards, deck.nextCard + 2, deck.standard⟩ with hdeck'
    obtain ⟨hcards, htwo⟩ := ih (Function.update heap q dealt) deck' hqs (by simp only [hdeck']; omega)
    have hself : (dealHoleCards (Function.update heap q dealt) deck' qs).1 q = dealt := by
      rw [dealHoleCards_of_not_mem _ deck' hq, Function.update_self]
    refine ⟨?_, ?_⟩
    · rw [List.flatMap_cons, hcards, hself, List.drop_eq_getElem_cons hfirst,
        List.drop_eq_getElem_cons hsecond, List.length_cons, Nat.mul_succ, List.take_succ_cons,
        List.take_succ_cons]
      simp [hdealt, hdeck', List.getD_eq_getElem?_getD, hfirst, hsecond]
    · intro p hp
      rcases List.mem_cons.mp hp with rfl | hp
      · rw [hself]
        rfl
      · exact htwo p hp

/-! ### Pieces both engines write out -/

/-- The loop that finds the player among the hand's players and marks him. -/
def markFolded (hand : Hand) (player : PlayerRef) : Hand :=
  { hand with
    folded := match hand.players.idxOf? player with
      | some i => hand.folded.set i true
      | none => hand.folded }

def addBet (hand : Hand) (player : PlayerRef) (amount : ℤ) : Hand :=
  { hand with
    playerBets := match hand.players.idxOf? player with
      | some i => hand.playerBets.set i (hand.playerBets.getD i 0 + amount)
      | none => hand.playerBets }

/-- The history entry and, heads-up, the turn. -/
def recordAction (hand : Hand) (player : PlayerRef) (action : String) (amount : ℤ) (now : ℕ) :
    Hand :=
  { hand with
    history := hand.history ++ [⟨player, action, amount, now⟩]
    currentPlayerToAct :=
      if hand.players.length = 2 then
        if hand.currentPlayerToAct = hand.players[0]? then hand.players[1]? else hand.players[0]?
      else hand.currentPlayerToAct }

/-- `players[i]` is active when its flag is missing or unset. -/
def activePlayers (hand : Hand) : List PlayerRef :=
  (hand.players.zipIdx.filter fun x => !hand.folded.getD x.2 false).map Prod.fst

namespace Poker

/-- `poker::startHand`; the dealer is not used and the caller's deck is copied. -/
def startHand (heap : Heap) (hand : Hand) (deck : Deck) (smallBlind bigBlind : PlayerRef)
    (σ : Shuffle Card) (uuid : String) : Heap × Hand × Option Exn :=
  let hand : Hand := {
    id := "hand_" ++ uuid
    table := none
    players := [smallBlind, bigBlind]
    deck := deck.shuffle σ
    communityCards := []
    pot := 0
    sidePots := []
    playerBets := resize hand.playerBets 2 0
    folded := resize hand.folded 2 false
    currentBettingRound := .preflop
    currentPlayerToAct := some smallBlind
    minRaise := Core.bigBlind
    history := []
    winners := []
    completedAt := 0 }
  let dealt := dealHoleCards heap hand.deck hand.players
  (dealt.1, { hand with deck := dealt.2.1 }, dealt.2.2)

def sizeVectors (hand : Hand) : Hand :=
  { hand with
    folded := resize hand.folded hand.players.length false
    playerBets := resize hand.playerBets hand.players.length 0 }

def applyAction (heap : Heap) (hand : Hand) (player : Option PlayerRef) (action : String)
    (amount : ℤ) (now : ℕ) : Bool × Heap × Hand :=
  match player with
  | none => (false, heap, hand)
  | some p =>
    -- also done for an action that is then rejected
    let hand := sizeVectors hand
    if action = "fold" then
      (true, heap, recordAction (markFolded hand p) p action amount now)
    else if action = "call" then
      if amount > (heap p).stack then (false, heap, hand)
      else if amount < 0 then (false, heap, hand)
      else
        let heap := heap.credit (Pi.single p (-amount))
        let hand := addBet { hand with pot := hand.pot + amount } p amount
        (true, heap, recordAction hand p action amount now)
    else if action = "raise" then
      if amount < hand.minRaise then (false, heap, hand)
      else if amount > (heap p).stack then (false, heap, hand)
      else if amount < 0 then (false, heap, hand)
      else
        let heap := heap.credit (Pi.single p (-amount))
        let hand := addBet { hand with pot := hand.pot + amount } p amount
        (true, heap, recordAction { hand with minRaise := amount } p action amount now)
    else (false, heap, hand)

def advanceBettingRound (hand : Hand) : Bool × Hand × Option Exn :=
  let (advanced, hand) := hand.advanceRound
  if advanced then
    let count := match hand.currentBettingRound with
      | .flop => 3
      | .turn | .river => 1
      | _ => 0
    (advanced, dealCommunityCards hand count)
  else (advanced, hand, none)

def calculateSidePots (sort : IndexSort) (hand : Hand) : Except Exn Hand := do
  let pots ← Pot.calculateSidePots sort hand.players hand.playerBets
  pure { hand with sidePots := pots }

def resetHand (hand : Hand) (constructed shuffled : Shuffle Card) : Hand :=
  { hand with
    id := ""
    table := none
    players := []
    deck := (Deck.new constructed).shuffle shuffled
    communityCards := []
    pot := 0
    sidePots := []
    playerBets := []
    folded := []
    currentBettingRound := .preflop
    currentPlayerToAct := none
    minRaise := Core.bigBlind
    history := []
    winners := []
    completedAt := 0 }

end Poker

/-! ### What an action does -/

theorem addBet_playerBets_nonneg {hand : Hand} (player : PlayerRef) {amount : ℤ}
    (h : 0 ≤ amount) (hbets : ∀ b ∈ hand.playerBets, 0 ≤ b) :
    ∀ b ∈ (addBet hand player amount).playerBets, 0 ≤ b := by
  simp only [addBet]
  split
  · rename_i i hi
    intro b hb
    rcases List.mem_or_eq_of_mem_set hb with hb | rfl
    · exact hbets b hb
    · rw [List.getD_eq_getElem?_getD]
      cases hget : hand.playerBets[i]? with
      | none => simpa using h
      | some x =>
        have hx := hbets x (List.mem_of_getElem? hget)
        simp only [Option.getD_some]
        omega
  · exact hbets

theorem length_addBet_playerBets (hand : Hand) (player : PlayerRef) (amount : ℤ) :
    (addBet hand player amount).playerBets.length = hand.playerBets.length := by
  simp only [addBet]
  split
  · exact List.length_set
  · rfl

/-- A bet taken from the stack and put into the pot; a raise also sets the
minimum for the next one. -/
def betAction (heap : Heap) (hand : Hand) (p : PlayerRef) (action : String) (amount : ℤ)
    (now : ℕ) : Heap × Hand :=
  (heap.credit (Pi.single p (-amount)),
    recordAction { addBet { hand with pot := hand.pot + amount } p amount with
      minRaise := if action = "raise" then amount else hand.minRaise } p action amount now)

/-- `poker::applyAction` rejects, folds, or moves a bet the player can pay. -/
theorem Poker.applyAction_cases (heap : Heap) (hand : Hand) (p : PlayerRef) (action : String)
    (amount : ℤ) (now : ℕ) :
    Poker.applyAction heap hand (some p) action amount now = (false, heap, sizeVectors hand) ∨
    Poker.applyAction heap hand (some p) action amount now
      = (true, heap, recordAction (markFolded (sizeVectors hand) p) p action amount now) ∨
    0 ≤ amount ∧ amount ≤ (heap p).stack ∧
      Poker.applyAction heap hand (some p) action amount now
        = (true, betAction heap (sizeVectors hand) p action amount now) := by
  by_cases hfold : action = "fold"
  · exact .inr (.inl (by simp [Poker.applyAction, hfold]))
  by_cases hcall : action = "call"
  · by_cases hover : amount > (heap p).stack
    · exact .inl (by simp [Poker.applyAction, hcall, hover])
    by_cases hneg : amount < 0
    · exact .inl (by simp [Poker.applyAction, hcall, hneg])
    · refine .inr (.inr ⟨by omega, by omega, ?_⟩)
      simp [Poker.applyAction, betAction, addBet, hcall, hover, hneg]
  by_cases hraise : action = "raise"
  · by_cases hmin : amount < hand.minRaise
    · exact .inl (by simp [Poker.applyAction, sizeVectors, hraise, hmin])
    by_cases hover : amount > (heap p).stack
    · exact .inl (by simp [Poker.applyAction, hraise, hover])
    by_cases hneg : amount < 0
    · exact .inl (by simp [Poker.applyAction, hraise, hneg])
    · refine .inr (.inr ⟨by omega, by omega, ?_⟩)
      simp [Poker.applyAction, betAction, addBet, sizeVectors, hraise, hmin, hover, hneg]
  · exact .inl (by simp [Poker.applyAction, hfold, hcall, hraise])

/-! ### Completion -/

/-- `folded_size` of `isHandComplete`: set to the number of players whenever it
differs from it. -/
def foldedSize (hand : Hand) : ℕ :=
  if hand.folded.length ≠ hand.players.length then hand.players.length else hand.folded.length

/-- The indices at which `isHandComplete` reads `folded`. -/
def foldedReads (hand : Hand) : List ℕ :=
  if hand.currentBettingRound = .showdown then []
  else (List.range hand.players.length).filter fun i => decide (i < foldedSize hand)

/-- A read of `folded`; past the end it finds whatever `memory` holds there. -/
def readFolded (memory : ℕ → Bool) (hand : Hand) (i : ℕ) : Bool :=
  if h : i < hand.folded.length then hand.folded[i] else memory i

namespace Poker

def isHandComplete (memory : ℕ → Bool) (hand : Hand) : Bool :=
  if hand.currentBettingRound = .showdown then true
  else
    decide (((List.range hand.players.length).countP fun i =>
      decide (i ≥ foldedSize hand) || !readFolded memory hand i) ≤ 1)

end Poker

theorem foldedSize_eq (hand : Hand) : foldedSize hand = hand.players.length := by
  rw [foldedSize]
  split_ifs with h
  · rfl
  · exact not_not.mp h

theorem mem_foldedReads {hand : Hand} (h : hand.currentBettingRound ≠ .showdown) {i : ℕ} :
    i ∈ foldedReads hand ↔ i < hand.players.length := by
  rw [foldedReads, if_neg h, foldedSize_eq]
  simp

theorem nodup_activePlayers {hand : Hand} (hnd : hand.players.Nodup) :
    (activePlayers hand).Nodup := by
  refine hnd.sublist ?_
  have hsub := (List.filter_sublist (p := fun x : PlayerRef × ℕ => !hand.folded.getD x.2 false)
    (l := hand.players.zipIdx)).map Prod.fst
  rwa [List.zipIdx_map_fst] at hsub

theorem length_activePlayers (hand : Hand) :
    (activePlayers hand).length
      = (List.range hand.players.length).countP fun i => !hand.folded.getD i false := by
  rw [activePlayers, List.length_map, List.countP_eq_length_filter]
  have hidx : List.range hand.players.length = hand.players.zipIdx.map Prod.snd := by
    rw [List.zipIdx_map_snd, List.range_eq_range']
  rw [hidx, List.filter_map, List.length_map]
  rfl

theorem readFolded_of_lt {memory : ℕ → Bool} {hand : Hand} {i : ℕ} (h : i < hand.folded.length) :
    readFolded memory hand i = hand.folded.getD i false := by
  simp [readFolded, h]

theorem isHandComplete_eq {hand : Hand} {memory : ℕ → Bool}
    (h : ∀ i < hand.players.length, readFolded memory hand i = hand.folded.getD i false)
    (hround : hand.currentBettingRound ≠ .showdown) :
    Poker.isHandComplete memory hand = decide ((activePlayers hand).length ≤ 1) := by
  rw [Poker.isHandComplete, if_neg hround, length_activePlayers]
  congr 2
  refine List.countP_congr fun i hi => ?_
  have hi' := List.mem_range.mp hi
  rw [foldedSize_eq, h i hi']
  simp
  omega

theorem readFolded_false (hand : Hand) (i : ℕ) :
    readFolded (fun _ => false) hand i = hand.folded.getD i false := by
  by_cases h : i < hand.folded.length
  · exact readFolded_of_lt h
  · rw [readFolded, dif_neg h, List.getD_eq_default _ _ (not_lt.mp h)]

/-- `isHandComplete` stays inside `folded` and agrees with the active players
exactly at showdown and when every player has his flag; else it reads past the
end. -/
theorem isHandComplete_iff (hand : Hand) :
    ((∀ i ∈ foldedReads hand, i < hand.folded.length) ∧
      ∀ memory, Poker.isHandComplete memory hand = true ↔
        hand.currentBettingRound = .showdown ∨ (activePlayers hand).length ≤ 1) ↔
    hand.currentBettingRound = .showdown ∨ hand.players.length ≤ hand.folded.length := by
  by_cases hround : hand.currentBettingRound = .showdown
  · simp [Poker.isHandComplete, foldedReads, hround]
  · constructor
    · intro hh
      obtain ⟨hreads, -⟩ := hh
      refine .inr (not_lt.mp fun hlt => ?_)
      exact absurd (hreads _ ((mem_foldedReads hround).mpr hlt)) (lt_irrefl _)
    · intro h
      have hlen := h.resolve_left hround
      refine ⟨fun i hi => ((mem_foldedReads hround).mp hi).trans_le hlen, fun memory => ?_⟩
      rw [isHandComplete_eq (fun i hi => readFolded_of_lt (hi.trans_le hlen)) hround,
        decide_eq_true_eq, or_iff_right hround]

end HeadsUp.Core
