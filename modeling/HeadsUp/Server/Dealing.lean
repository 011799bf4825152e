import HeadsUp.Core.CoreDealing
import HeadsUp.Server.TableRuns

/-!
# The cards of a hand on the server

`startHand` stores a copy of its hand and then deals from the one it keeps: the
stored deck still has the cards the players hold.
-/

namespace HeadsUp.Server
open HeadsUp.Core HeadsUp.Lib

namespace TableManager

/-- Each of the 52 cards of a hand in progress is somewhere once. -/
def EachCardOnce (tm : TableManager) : Prop :=
  ∀ hand, tm.table.currentHand = some hand → (allCards tm.heap hand).Perm createStandardDeck

/-- The next round of a hand in progress deals no card a player holds. -/
def BoardIsNew (tm : TableManager) : Prop :=
  ∀ hand hand', tm.table.currentHand = some hand →
    tm.advanceBettingRound.table.currentHand = some hand' →
    ∀ card ∈ hand'.communityCards, card ∉ heldCards tm.heap hand

/-- The players hold the first four cards of a deck that was not dealt from. -/
def HoldTop (heap : Heap) (hand : Hand) : Prop :=
  hand.deck.nextCard = 0 ∧ heldCards heap hand = hand.deck.cards.take 4

theorem HoldTop.congr {heap heap' : Heap} {hand hand' : Hand} (h : HoldTop heap hand)
    (hcards : ∀ p, (heap' p).holeCards = (heap p).holeCards) (hdeck : hand'.deck = hand.deck)
    (hplayers : hand'.players = hand.players) : HoldTop heap' hand' := by
  simpa only [HoldTop, heldCards, hcards, hdeck, hplayers] using h

theorem does_holdTop {tm tm' : TableManager} (h : TableRep tm) {op : TableOp}
    {outs : List TableOut} (hdoes : Does tm op tm' outs)
    (htop : ∀ hand, tm.table.currentHand = some hand → HoldTop tm.heap hand) :
    ∀ hand, tm'.table.currentHand = some hand → HoldTop tm'.heap hand := by
  cases hdoes with
  | fails | idle => exact htop
  | @seats player _ _ heap _ hothers hself hseat =>
    intro hand hhand
    have hhand' : tm.table.currentHand = some hand := by
      rcases hseat with ⟨-, -, rfl⟩ | ⟨-, -, rfl⟩ <;> exact hhand
    refine (htop hand hhand').congr (fun p => ?_) rfl rfl
    by_cases hp : p = player
    · subst hp
      simp only [hself]
    · simp only [hothers p hp]
  | removes _ htable =>
    intro hand hhand
    have hhand' : tm.table.currentHand = some hand := by
      rcases htable with ⟨-, rfl⟩ | ⟨-, -, rfl⟩ | ⟨-, -, rfl⟩ <;> exact hhand
    exact htop hand hhand'
  | @starts uuid constructed shuffled p q heap hone htwo _ hheap =>
    rintro _ ⟨⟩
    have hnd : [p, q].Nodup := by simpa using h.seats_ne hone htwo
    have hcards := (dealHoleCards_cards tm.heap ((Deck.new constructed).shuffle shuffled) hnd
      (by simp)).1
    refine ⟨rfl, ?_⟩
    rw [heldCards, firstHand_players hone htwo]
    subst hheap
    exact hcards
  | acts hhand _ happly =>
    rintro _ ⟨⟩
    obtain ⟨hplayers, hdeck, -⟩ := applyAction_hand happly
    exact (htop _ hhand).congr (fun p => (applyAction_same happly p).2.2) hdeck hplayers
  | ends =>
    intro hand hno
    cases hno

theorem run_holdTop (objects : Heap) (ops : List TableOp) :
    ∀ hand, ((machine objects).run ops).table.currentHand = some hand →
      HoldTop ((machine objects).run ops).heap hand :=
  ((machine objects).invariant (I := fun tm => TableRep tm ∧
      ∀ hand, tm.table.currentHand = some hand → HoldTop tm.heap hand)
    ⟨TableRep.init objects, fun _ hno => by cases hno⟩
    (fun tm op h => ⟨h.1.does (step_does tm op), does_holdTop h.1 (step_does tm op) h.2⟩) ops).2

/-! ### Every hand deals cards twice -/

theorem length_allCards {heap : Heap} {hand : Hand} (htop : HoldTop heap hand)
    (hboard : hand.communityCards = []) : (allCards heap hand).length = 56 := by
  obtain ⟨hnext, hcards⟩ := htop
  simp [allCards, Deck.undealt, hcards, hboard, hnext, hand.deck.cards_length]

theorem dealBoard_communityCards (hand : Hand) (board : List Card) {count : ℕ}
    (h : hand.deck.nextCard + count ≤ 52) :
    (dealBoard hand board count).1.communityCards
      = hand.communityCards ++ (hand.deck.cards.drop hand.deck.nextCard).take count := by
  induction count generalizing hand board with
  | zero => simp [dealBoard]
  | succ count ih =>
    have hlen := hand.deck.cards_length
    have hnext : hand.deck.nextCard < hand.deck.cards.length := by omega
    have hsize : hand.deck.size ≠ 0 := by
      rw [Deck.size]
      omega
    rw [dealBoard, if_neg hsize, Deck.deal_ok _ (by omega)]
    simp only
    rw [ih _ _ (by simp only; omega), List.drop_eq_getElem_cons hnext, List.take_succ_cons]
    simp [List.getD_eq_getElem?_getD, hnext]

theorem advanceBettingRound_flop {tm : TableManager} {hand : Hand}
    (hhand : tm.table.currentHand = some hand) (hplay : InPlay hand)
    (htop : HoldTop tm.heap hand) :
    ∃ hand', tm.advanceBettingRound.table.currentHand = some hand' ∧
      hand'.communityCards = hand.deck.cards.take 3 := by
  obtain ⟨hnext, -⟩ := htop
  have hflop : hand.advanceRound = (true, { hand with currentBettingRound := .flop }) := by
    rw [Hand.advanceRound, hplay.playing.round]
  refine ⟨_, by simp only [advanceBettingRound, hhand, hflop, if_true, dealCommunityCards]; rfl, ?_⟩
  rw [dealBoard_communityCards _ _ (by simp only [hnext]; decide)]
  simp [hplay.noBoard, hnext]

theorem not_eachCardOnce {tm : TableManager} {hand : Hand}
    (hhand : tm.table.currentHand = some hand) (hplay : InPlay hand)
    (htop : HoldTop tm.heap hand) : ¬EachCardOnce tm := by
  intro honce
  have hlen := (honce hand hhand).length_eq
  rw [length_allCards htop hplay.noBoard, createStandardDeck_length] at hlen
  omega

theorem not_boardIsNew {tm : TableManager} {hand : Hand}
    (hhand : tm.table.currentHand = some hand) (hplay : InPlay hand)
    (htop : HoldTop tm.heap hand) : ¬BoardIsNew tm := by
  intro hnew
  obtain ⟨hand', hhand', hboard⟩ := advanceBettingRound_flop hhand hplay htop
  have hlen := hand.deck.cards_length
  have hfirst : 0 < hand.deck.cards.length := by omega
  have hmem : ∀ n, 0 < n → hand.deck.cards[0] ∈ hand.deck.cards.take n := by
    intro n hn
    exact List.mem_take_iff_getElem.mpr ⟨0, by omega, rfl⟩
  refine hnew hand hand' hhand hhand' hand.deck.cards[0] ?_ ?_
  · rw [hboard]
    exact hmem 3 (by decide)
  · rw [htop.2]
    exact hmem 4 (by decide)

/-- Whatever the shuffle, no hand in progress has each card once, and none has a
flop of new cards. -/
theorem dealsOnce_iff (objects : Heap) (ops : List TableOp) :
    let tm := (machine objects).run ops
    (EachCardOnce tm ↔ tm.table.currentHand = none) ∧
      (BoardIsNew tm ↔ tm.table.currentHand = none) := by
  intro tm
  have hrep : TableRep tm := run_rep objects ops
  have htop := run_holdTop objects ops
  cases hhand : tm.table.currentHand with
  | none =>
    refine ⟨iff_of_true ?_ rfl, iff_of_true ?_ rfl⟩
    · intro hand hsome
      rw [hhand] at hsome
      cases hsome
    · intro hand hand' hsome
      rw [hhand] at hsome
      cases hsome
  | some hand =>
    have hplay := hrep.hand hand hhand
    exact ⟨iff_of_false (not_eachCardOnce hhand hplay (htop hand hhand)) (by simp),
      iff_of_false (not_boardIsNew hhand hplay (htop hand hhand)) (by simp)⟩

/-- Bob's first hand with Alice, from an unshuffled deck: the flop has both of
her cards and one of his. -/
theorem dealsOnce_twoSeated :
    let tm := (machine twoObjects).run twoSeated
    ∃ hand hand', tm.table.currentHand = some hand ∧
      ¬(allCards tm.heap hand).Perm createStandardDeck ∧
      tm.advanceBettingRound.table.currentHand = some hand' ∧
      ∀ card ∈ hand'.communityCards, card ∈ heldCards tm.heap hand := by
  intro tm
  refine ⟨tm.table.currentHand.get (by decide +kernel),
    tm.advanceBettingRound.table.currentHand.get (by decide +kernel), (Option.some_get _).symm, ?_,
    (Option.some_get _).symm, by decide +kernel⟩
  intro hperm
  have hlen := hperm.length_eq
  revert hlen
  decide +kernel

end TableManager
end HeadsUp.Server
