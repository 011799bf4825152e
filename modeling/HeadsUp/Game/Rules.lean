import HeadsUp.Core.Models
import HeadsUp.Lib.Simulation

/-!
# The game the server plays

One table with two chairs and at most one hand, told in ids and chips alone. It has
no sessions, messages, timers or cards: a player asks for something, and the rules
grant it or nothing happens.
-/

namespace HeadsUp.Game
open HeadsUp.Core HeadsUp.Lib

structure Chair where
  id : String
  stack : ℤ
  connected : Bool
  sittingOut : Bool
  deriving DecidableEq, Repr

/-- A hand in progress. -/
structure Deal where
  id : String
  turn : String
  pot : ℤ
  minRaise : ℤ
  deriving DecidableEq, Repr

structure Play where
  first : Option Chair
  second : Option Chair
  deal : Option Deal
  deriving DecidableEq, Repr

inductive Ask where
  | sits (id uuid : String)
  | acts (id handId action : String) (amount : ℤ)
  | tops (id : String)
  | leaves (id : String)
  | returns (id : String)
  | sitsOut (id : String)
  deriving DecidableEq, Repr

namespace Chair

def new (id : String) : Chair := ⟨id, startingStack, true, false⟩

def topUp (c : Chair) : Chair :=
  if c.stack < topUpThreshold then { c with stack := targetStack } else c

def win (c : Chair) (pot : ℤ) : Chair := { c with stack := c.stack + pot }
def pay (c : Chair) (amount : ℤ) : Chair := { c with stack := c.stack - amount }
def leave (c : Chair) : Chair := { c with connected := false, sittingOut := false }
def back (c : Chair) : Chair := { c with connected := true, sittingOut := false }
def sitOut (c : Chair) : Chair := { c with sittingOut := true }

/-- What the player may do on his turn. -/
def Allows (c : Chair) (deal : Deal) (action : String) (amount : ℤ) : Prop :=
  c.connected = true ∧ c.sittingOut = false ∧
    (action = "fold" ∧ amount = 0 ∨
      (action = "call" ∨ action = "raise" ∧ deal.minRaise ≤ amount) ∧
        0 ≤ amount ∧ amount ≤ c.stack)

instance (c : Chair) (deal : Deal) (action : String) (amount : ℤ) :
    Decidable (c.Allows deal action amount) := inferInstanceAs (Decidable (_ ∧ _))

end Chair

namespace Play

def chairs (g : Play) : List Chair := g.first.toList ++ g.second.toList

def change (g : Play) (f : Chair → Chair) : Play :=
  { g with first := g.first.map f, second := g.second.map f }

def changeOne (g : Play) (id : String) (f : Chair → Chair) : Play :=
  g.change fun c => if c.id = id then f c else c

/-- The second player begins. -/
def start (g : Play) (uuid : String) : Play :=
  match g.first, g.second with
  | some _, some q => { g with deal := some ⟨"hand_" ++ uuid, q.id, 0, bigBlind⟩ }
  | _, _ => g

def sit (g : Play) (id uuid : String) : Play :=
  if ∃ c ∈ g.chairs, c.id = id then g
  else
    match g.first, g.second with
    | none, _ => { g with first := some (.new id) }.start uuid
    | some _, none => { g with second := some (.new id) }.start uuid
    | some _, some _ => g

def otherThan (g : Play) (id : String) : String :=
  ((g.chairs.find? fun c => c.id ≠ id).map Chair.id).getD id

/-- The other player gets the pot, and both are topped up. -/
def fold (g : Play) (deal : Deal) : Play :=
  { g.change fun c => (if c.id = deal.turn then c else c.win deal.pot).topUp with deal := none }

def bet (g : Play) (deal : Deal) (action : String) (amount : ℤ) : Play :=
  { g.changeOne deal.turn fun c => c.pay amount with
    deal := some { deal with
      turn := g.otherThan deal.turn
      pot := deal.pot + amount
      minRaise := if action = "raise" then amount else deal.minRaise } }

def act (g : Play) (id handId action : String) (amount : ℤ) : Play :=
  match g.deal with
  | none => g
  | some deal =>
    if deal.id = handId ∧ deal.turn = id ∧
        ∃ c ∈ g.chairs, c.id = id ∧ c.Allows deal action amount then
      if action = "fold" then g.fold deal else g.bet deal action amount
    else g

theorem act_eq {g : Play} {deal : Deal} (hdeal : g.deal = some deal) (id handId action : String)
    (amount : ℤ) : g.act id handId action amount
      = if deal.id = handId ∧ deal.turn = id ∧
          ∃ c ∈ g.chairs, c.id = id ∧ c.Allows deal action amount then
        if action = "fold" then g.fold deal else g.bet deal action amount
      else g := by
  rw [act, hdeal]

def next (g : Play) : Ask → Play
  | .sits id uuid => g.sit id uuid
  | .acts id handId action amount => g.act id handId action amount
  | .tops id => g.changeOne id Chair.topUp
  | .leaves id => g.changeOne id Chair.leave
  | .returns id => g.changeOne id Chair.back
  | .sitsOut id => g.changeOne id Chair.sitOut

end Play

def rules : Machine Play Ask Empty := ⟨⟨none, none, none⟩, fun g a => (g.next a, [])⟩

end HeadsUp.Game
