import HeadsUp.Core.Card
import Mathlib.Algebra.Order.Group.Int

/-!
# The random strategy (`client/random_strategy.cpp`)

The two distributions are sources of numbers in their ranges; which number
comes is up to the generator.
-/

namespace HeadsUp.Client
open HeadsUp.Core

/-- What the generator yields: an index into a non-empty vector, a number of a
non-empty range. -/
structure Dice where
  index : (n : ℕ) → 0 < n → Fin n
  between : (a b : ℤ) → a ≤ b → { x : ℤ // a ≤ x ∧ x ≤ b }

/-- The dice that show index `i`, as far as there is one, and the lower ends. -/
def Dice.facing (i : ℕ) : Dice where
  index := fun n h => ⟨min i (n - 1), by omega⟩
  between := fun a _ h => ⟨a, le_refl a, h⟩

namespace RandomStrategy

def chooseAction (dice : Dice) (possibleActions : List String)
    (callAmount minRaise maxRaise : ℤ) : Except Exn (String × ℤ) :=
  if h : 0 < possibleActions.length then
    let action := possibleActions.get (dice.index possibleActions.length h)
    if action = "raise" then
      if hrange : minRaise ≤ maxRaise then .ok (action, dice.between minRaise maxRaise hrange)
      else .error (.invalidArgument "min_raise cannot exceed max_raise")
    else if action = "call" then .ok (action, callAmount)
    else if action = "fold" then .ok (action, 0)
    else .error (.runtimeError ("unknown action: " ++ action))
  else .error (.invalidArgument "possible_actions must not be empty")

inductive Answer (callAmount minRaise maxRaise : ℤ) : String → ℤ → Prop where
  | fold : Answer callAmount minRaise maxRaise "fold" 0
  | call : Answer callAmount minRaise maxRaise "call" callAmount
  | raise {x : ℤ} : minRaise ≤ x → x ≤ maxRaise → Answer callAmount minRaise maxRaise "raise" x

theorem chooseAction_ok {minRaise maxRaise : ℤ} (h : minRaise ≤ maxRaise) (dice : Dice)
    (callAmount : ℤ) :
    ∃ action amount, chooseAction dice ["fold", "call", "raise"] callAmount minRaise maxRaise
        = .ok (action, amount) ∧ Answer callAmount minRaise maxRaise action amount := by
  have hlen : 0 < ["fold", "call", "raise"].length := by decide
  obtain ⟨hlo, hhi⟩ := (dice.between minRaise maxRaise h).2
  simp only [chooseAction, dif_pos hlen, dif_pos h]
  match dice.index ["fold", "call", "raise"].length hlen with
  | 0 => exact ⟨_, _, rfl, .fold⟩
  | 1 => exact ⟨_, _, rfl, .call⟩
  | 2 => exact ⟨_, _, rfl, .raise hlo hhi⟩

theorem chooseAction_call (callAmount minRaise maxRaise : ℤ) :
    chooseAction (.facing 1) ["fold", "call", "raise"] callAmount minRaise maxRaise
      = .ok ("call", callAmount) := rfl

theorem chooseAction_raise (callAmount minRaise maxRaise : ℤ) :
    chooseAction (.facing 2) ["fold", "call", "raise"] callAmount minRaise maxRaise
      = if minRaise ≤ maxRaise then .ok ("raise", minRaise)
        else .error (.invalidArgument "min_raise cannot exceed max_raise") := rfl

end RandomStrategy
end HeadsUp.Client
