import HeadsUp.Core.HandBets
import HeadsUp.Server.Betting

/-!
# The two action engines

The server plays a hand with `player_action::applyAction`, the tests of whole
hands with `poker::applyAction`. What the first accepts the second does too,
and they leave the same hand.
-/

namespace HeadsUp.Server
open HeadsUp.Core HeadsUp.Lib

/-- An entry of the history without its time. -/
def untimed (entry : ActionHistory) : PlayerRef × String × ℤ :=
  (entry.player, entry.action, entry.amount)

/-- Two hands after an action: a missing bet is 0 and a missing flag unset. -/
structure SameHand (hand hand' : Hand) : Prop where
  pot : hand.pot = hand'.pot
  minRaise : hand.minRaise = hand'.minRaise
  turn : hand.currentPlayerToAct = hand'.currentPlayerToAct
  history : hand.history.map untimed = hand'.history.map untimed
  bets : ∀ i, hand.playerBets.getD i 0 = hand'.playerBets.getD i 0
  folded : ∀ i, hand.folded.getD i false = hand'.folded.getD i false

theorem SameHand.recordAction {hand hand' : Hand} (h : SameHand hand hand')
    (hplayers : hand.players = hand'.players) (player : PlayerRef) (action : String) (amount : ℤ)
    (now now' : ℕ) : SameHand (recordAction hand player action amount now)
      (recordAction hand' player action amount now') where
  pot := h.pot
  minRaise := h.minRaise
  turn := by simp only [Core.recordAction, hplayers, h.turn]
  history := by
    simp only [Core.recordAction, List.map_append, h.history]
    rfl
  bets := h.bets
  folded := h.folded

section Sizes
variable {hand : Hand} (hbets : hand.playerBets.length ≤ hand.players.length)
  (hfolded : hand.folded.length ≤ hand.players.length)

include hbets hfolded in
/-- The core engine's padding shows in no seat. -/
theorem sameHand_sizeVectors : SameHand hand (Poker.sizeVectors hand) :=
  ⟨rfl, rfl, rfl, rfl, fun i => (getD_resize _ _ hbets i).symm,
    fun i => (getD_resize _ _ hfolded i).symm⟩

include hbets hfolded in
theorem sameHand_fold {player : PlayerRef} {i : ℕ} (hi : hand.players.idxOf? player = some i) :
    SameHand (PlayerAction.foldSeat hand player) (markFolded (Poker.sizeVectors hand) player) := by
  have hsame := sameHand_sizeVectors hbets hfolded
  have hlt : i < (Poker.sizeVectors hand).folded.length := by
    obtain ⟨hlt, -⟩ := List.idxOf?_eq_some_iff.mp hi
    simpa [Poker.sizeVectors] using hlt
  have hcore := @getD_markFolded (Poker.sizeVectors hand) player i hi hlt
  refine ⟨rfl, rfl, rfl, rfl, hsame.bets, fun j => ?_⟩
  rw [getD_foldSeat hi, hcore, hsame.folded]

include hbets hfolded in
theorem sameHand_bet {player : PlayerRef} {i : ℕ} (hi : hand.players.idxOf? player = some i)
    (heap : Heap) (action : String) (amount : ℤ) (now now' : ℕ) :
    SameHand (recordAction (PlayerAction.placeBet heap hand player action amount).2 player action
        amount now)
      (betAction heap (Poker.sizeVectors hand) player action amount now').2 := by
  have hsame := sameHand_sizeVectors hbets hfolded
  have hlt : i < (Poker.sizeVectors hand).playerBets.length := by
    obtain ⟨hlt, -⟩ := List.idxOf?_eq_some_iff.mp hi
    simpa [Poker.sizeVectors] using hlt
  have hserver : ∀ j, (PlayerAction.placeBet heap hand player action amount).2.playerBets.getD j 0
      = hand.playerBets.getD j 0 + if j = i then amount else 0 :=
    @getD_betSeat { hand with
      pot := hand.pot + amount
      minRaise := if action = "raise" then amount else hand.minRaise } player i hi amount
  have hcore := @getD_addBet { Poker.sizeVectors hand with pot := hand.pot + amount } player i hi
    hlt amount
  have hplaced : SameHand (PlayerAction.placeBet heap hand player action amount).2
      { addBet { Poker.sizeVectors hand with pot := hand.pot + amount } player amount with
        minRaise := if action = "raise" then amount else hand.minRaise } := by
    refine ⟨rfl, rfl, rfl, rfl, fun j => ?_, hsame.folded⟩
    rw [hserver, hsame.bets]
    exact (hcore j).symm
  exact hplaced.recordAction rfl player action amount now now'

end Sizes

/-- The engines return the same, with the same stacks and the same hand. -/
structure Agrees (r r' : Bool × Heap × Hand) : Prop where
  returned : r.1 = r'.1
  heap : r.2.1 = r'.2.1
  hand : SameHand r.2.2 r'.2.2

/-- Whatever the server's engine accepts the core engine does with the same
effect, and the server's rejects a core action of the player on turn only when
he cannot act or folds with an amount. -/
theorem engines_agree (heap : Heap) (hand : Hand)
    (hbets : hand.playerBets.length ≤ hand.players.length)
    (hfolded : hand.folded.length ≤ hand.players.length) (player : PlayerRef)
    (hstack : 0 ≤ (heap player).stack) (action : String) (amount : ℤ) (now now' : ℕ) :
    ((PlayerAction.applyAction heap hand player action amount now).1 = true →
      Agrees (PlayerAction.applyAction heap hand player action amount now)
        (Poker.applyAction heap hand (some player) action amount now')) ∧
    ((Poker.applyAction heap hand (some player) action amount now').1 = true →
      hand.currentPlayerToAct = some player → PlayerAction.canAct heap hand player = true →
      (action = "fold" → amount = 0) →
      (PlayerAction.applyAction heap hand player action amount now).1 = true) := by
  constructor
  · intro hok
    obtain ⟨hcan, -, hact⟩ := PlayerAction.applyAction_cases (Prod.ext hok rfl)
    obtain ⟨-, i, hi, -⟩ := PlayerAction.canAct_iff.mp hcan
    rcases hact with ⟨rfl, rfl, hheap, hhand⟩ | ⟨hact, hge, hle, hheap, hhand⟩
    · have hcore : Poker.applyAction heap hand (some player) "fold" 0 now' = (true, heap,
          recordAction (markFolded (Poker.sizeVectors hand) player) player "fold" 0 now') := by
        simp [Poker.applyAction]
      rw [hcore]
      refine ⟨hok, hheap, ?_⟩
      rw [hhand]
      exact (sameHand_fold hbets hfolded hi).recordAction rfl ..
    · have haccepted : (Poker.applyAction heap hand (some player) action amount now').1 = true :=
        Poker.applyAction_iff.mpr (.inr ⟨hact, hge, hle⟩)
      have hnot : action ≠ "fold" := by
        rcases hact with rfl | ⟨rfl, -⟩ <;> decide
      obtain ⟨-, -, -, -, hcore⟩ :=
        (Poker.applyAction_accepts haccepted).resolve_left fun hfold => hnot hfold.1
      rw [hcore]
      refine ⟨hok, hheap, ?_⟩
      rw [hhand]
      exact sameHand_bet hbets hfolded hi heap action amount now now'
  · intro hok hturn hcan hzero
    have hvalid : PlayerAction.validateAction heap hand player action amount = true := by
      rw [PlayerAction.validateAction_iff]
      refine ⟨hcan, hturn, hstack, ?_⟩
      rcases Poker.applyAction_iff.mp hok with hfold | ⟨hcall | ⟨hraise, hmin⟩, hge, hle⟩
      · exact .inl ⟨hfold, hzero hfold⟩
      · exact .inr (.inl ⟨hcall, hge, hle⟩)
      · exact .inr (.inr ⟨hraise, hge, hmin, hle⟩)
    obtain ⟨heap', hand', happly⟩ := PlayerAction.applyAction_of_valid hvalid now
    rw [happly]

/-! ### A raise -/

def raising : Hand := { freshHand (Deck.new (Shuffle.refl Card)) with
  players := [0, 1]
  folded := [false]
  currentPlayerToAct := some 0
  minRaise := bigBlind }

theorem engines_agree_raising :
    ((PlayerAction.applyAction twoStacks.heap raising 0 "raise" 10 1).1 = true →
      Agrees (PlayerAction.applyAction twoStacks.heap raising 0 "raise" 10 1)
        (Poker.applyAction twoStacks.heap raising (some 0) "raise" 10 2)) ∧
    ((Poker.applyAction twoStacks.heap raising (some 0) "raise" 10 2).1 = true →
      raising.currentPlayerToAct = some 0 →
      PlayerAction.canAct twoStacks.heap raising 0 = true → ("raise" = "fold" → (10 : ℤ) = 0) →
      (PlayerAction.applyAction twoStacks.heap raising 0 "raise" 10 1).1 = true) :=
  engines_agree twoStacks.heap raising (by decide) (by decide) 0
    (by decide : (0 : ℤ) ≤ startingStack) "raise" 10 1 2

end HeadsUp.Server
