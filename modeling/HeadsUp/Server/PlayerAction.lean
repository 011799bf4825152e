import HeadsUp.Core.Hand

/-!
# Player actions on the server (`server/player_action.cpp`)

The server's own engine. It checks more than the hand-level one and grows
`folded` and `player_bets` only up to the acting seat.
-/

namespace HeadsUp.Server
open HeadsUp.Core

/-- `if (v.size() <= i) v.resize(i + 1, d)`. -/
def growTo {α : Type*} (l : List α) (i : ℕ) (d : α) : List α :=
  if l.length ≤ i then resize l (i + 1) d else l

namespace PlayerAction

def canAct (heap : Heap) (hand : Hand) (player : PlayerRef) : Bool :=
  if (heap player).connectionStatus ≠ .connected then false
  else if (heap player).isSittingOut then false
  else
    match hand.players.idxOf? player with
    | some i => !hand.folded.getD i false
    | none => false

def validateAction (heap : Heap) (hand : Hand) (player : PlayerRef) (action : String)
    (amount : ℤ) : Bool :=
  if !canAct heap hand player then false
  else if action ≠ "fold" ∧ action ≠ "call" ∧ action ≠ "raise" then false
  else if amount < 0 then false
  else if action = "fold" ∧ amount ≠ 0 then false
  else if (heap player).stack < 0 then false
  else if (action = "call" ∨ action = "raise") ∧ amount > (heap player).stack then false
  else if action = "raise" ∧ amount < hand.minRaise then false
  else if hand.currentPlayerToAct ≠ some player then false
  else true

/-- The fold branch. -/
def foldSeat (hand : Hand) (player : PlayerRef) : Hand :=
  { hand with
    folded := match hand.players.idxOf? player with
      | some i => (growTo hand.folded i false).set i true
      | none => hand.folded }

def betSeat (hand : Hand) (player : PlayerRef) (amount : ℤ) : Hand :=
  { hand with
    playerBets := match hand.players.idxOf? player with
      | some i => (growTo hand.playerBets i 0).set i (hand.playerBets.getD i 0 + amount)
      | none => hand.playerBets }

/-- The call and raise branches: stack and pot, for a raise `min_raise`, then
the bet. -/
def placeBet (heap : Heap) (hand : Hand) (player : PlayerRef) (action : String) (amount : ℤ) :
    Heap × Hand :=
  (heap.credit (Pi.single player (-amount)),
    betSeat { hand with
      pot := hand.pot + amount
      minRaise := if action = "raise" then amount else hand.minRaise } player amount)

def applyAction (heap : Heap) (hand : Hand) (player : PlayerRef) (action : String)
    (amount : ℤ) (now : ℕ) : Bool × Heap × Hand :=
  if !validateAction heap hand player action amount then (false, heap, hand)
  else
    let acted :=
      if action = "fold" then (heap, foldSeat hand player)
      else placeBet heap hand player action amount
    (true, acted.1, recordAction acted.2 player action amount now)

/-! ### What is accepted -/

theorem canAct_iff {heap : Heap} {hand : Hand} {player : PlayerRef} :
    canAct heap hand player = true ↔ (heap player).canAct = true ∧
      ∃ i, hand.players.idxOf? player = some i ∧ hand.folded.getD i false = false := by
  unfold canAct Player.canAct
  cases hand.players.idxOf? player with
  | none => simp
  | some i =>
    cases (heap player).isSittingOut <;> simp

theorem validateAction_iff {heap : Heap} {hand : Hand} {player : PlayerRef} {action : String}
    {amount : ℤ} :
    validateAction heap hand player action amount = true ↔
      canAct heap hand player = true ∧ hand.currentPlayerToAct = some player ∧
        0 ≤ (heap player).stack ∧
        (action = "fold" ∧ amount = 0 ∨
          action = "call" ∧ 0 ≤ amount ∧ amount ≤ (heap player).stack ∨
          action = "raise" ∧ 0 ≤ amount ∧ hand.minRaise ≤ amount ∧
            amount ≤ (heap player).stack) := by
  unfold validateAction
  cases canAct heap hand player with
  | false => simp
  | true =>
    by_cases hfold : action = "fold"
    · simp only [hfold, Bool.not_true, Bool.false_eq_true, if_false]
      grind
    by_cases hcall : action = "call"
    · simp only [hcall, Bool.not_true, Bool.false_eq_true, if_false]
      grind
    by_cases hraise : action = "raise"
    · simp only [hraise, Bool.not_true, Bool.false_eq_true, if_false]
      grind
    · simp [hfold, hcall, hraise]

theorem applyAction_of_valid {heap : Heap} {hand : Hand} {player : PlayerRef} {action : String}
    {amount : ℤ} (h : validateAction heap hand player action amount = true) (now : ℕ) :
    ∃ heap' hand', applyAction heap hand player action amount now = (true, heap', hand') :=
  ⟨_, _, by rw [applyAction, if_neg (by simp [h])]⟩

theorem valid_of_applyAction {heap heap' : Heap} {hand hand' : Hand} {player : PlayerRef}
    {action : String} {amount : ℤ} {now : ℕ}
    (h : applyAction heap hand player action amount now = (true, heap', hand')) :
    validateAction heap hand player action amount = true := by
  by_contra hno
  rw [applyAction, if_pos (by simp [hno])] at h
  cases h

/-- An accepted action folds or moves a bet within the stack to the pot. -/
theorem applyAction_cases {heap heap' : Heap} {hand hand' : Hand} {player : PlayerRef}
    {action : String} {amount : ℤ} {now : ℕ}
    (h : applyAction heap hand player action amount now = (true, heap', hand')) :
    canAct heap hand player = true ∧ hand.currentPlayerToAct = some player ∧
      (action = "fold" ∧ amount = 0 ∧ heap' = heap ∧
          hand' = recordAction (foldSeat hand player) player action amount now ∨
        (action = "call" ∨ action = "raise" ∧ hand.minRaise ≤ amount) ∧
          0 ≤ amount ∧ amount ≤ (heap player).stack ∧
          heap' = (placeBet heap hand player action amount).1 ∧
          hand' = recordAction (placeBet heap hand player action amount).2 player action amount
            now) := by
  have hok := valid_of_applyAction h
  obtain ⟨hcan, hturn, -, hact⟩ := validateAction_iff.mp hok
  rw [applyAction, if_neg (by simp [hok])] at h
  simp only [Prod.mk.injEq, true_and] at h
  obtain ⟨rfl, rfl⟩ := h
  refine ⟨hcan, hturn, ?_⟩
  rcases hact with ⟨rfl, hzero⟩ | ⟨rfl, hge, hle⟩ | ⟨rfl, hge, hmin, hle⟩
  · exact .inl ⟨rfl, hzero, rfl, rfl⟩
  · exact .inr ⟨.inl rfl, hge, hle, rfl, rfl⟩
  · exact .inr ⟨.inr ⟨rfl, hmin⟩, hge, hle, rfl, rfl⟩

end PlayerAction
end HeadsUp.Server
