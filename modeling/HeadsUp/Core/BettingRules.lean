import HeadsUp.Core.Models

/-!
# The betting rules (`core/betting_rules.cpp`)

The stand-alone judge of a betting round. The server does not ask it. A pot or a
minimum raise that outgrows an `int` is undefined.
-/

namespace HeadsUp.Core

inductive Action where
  | fold | call | raise
  deriving DecidableEq, Repr

structure BettingState where
  currentBet : ℤ
  minRaise : ℤ
  pot : ℤ
  deriving DecidableEq, Repr

namespace BettingRules

def foldedBet : ℤ := -1

def isValidAction (action : Action) (amount : ℤ) (round : BettingState) (playerStack : ℤ) : Bool :=
  match action with
  | .fold => amount == 0
  | .call => amount == round.currentBet && decide (amount ≤ playerStack)
  | .raise =>
    decide (round.minRaise ≤ amount) && decide (amount ≤ playerStack) &&
      decide (round.currentBet < amount)

def calculateMinRaise (currentBet bigBlind : ℤ) : Option ℤ :=
  if currentBet = 0 then some bigBlind else intSum currentBet bigBlind

def applyAction (action : Action) (amount : ℤ) (round : BettingState) : Option BettingState :=
  match action with
  | .fold => some round
  | .call => do
    let pot ← intSum round.pot amount
    some { round with pot }
  | .raise => do
    let pot ← intSum round.pot amount
    let minRaise ← calculateMinRaise amount bigBlind
    some { currentBet := amount, minRaise, pot }

def isRoundComplete (hasActed : List Bool) (bets : List ℤ) (currentBet : ℤ) : Bool :=
  if hasActed.length ≠ bets.length then false
  else if !hasActed.all id then false
  else bets.all fun bet => bet == currentBet || bet == foldedBet

theorem isValidAction_call {amount playerStack : ℤ} {round : BettingState} :
    isValidAction .call amount round playerStack = true ↔
      amount = round.currentBet ∧ amount ≤ playerStack := by
  simp [isValidAction]

theorem isValidAction_raise {amount playerStack : ℤ} {round : BettingState} :
    isValidAction .raise amount round playerStack = true ↔
      round.minRaise ≤ amount ∧ amount ≤ playerStack ∧ round.currentBet < amount := by
  simp [isValidAction, and_assoc]

end BettingRules
end HeadsUp.Core
