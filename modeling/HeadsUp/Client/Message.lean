import HeadsUp.Common.Json

/-!
# Client messages (`client/client.cpp`)

The three messages a bot sends.
-/

namespace HeadsUp.Client
open HeadsUp.Common

inductive Message where
  | join (name : String)
  | action (handId chosen : String) (amount : ℤ)
  | topUp
  deriving DecidableEq, Repr

namespace Message

def type : Message → String
  | .join _ => "join"
  | .action _ _ _ => "action"
  | .topUp => "top_up"

def payload : Message → Json
  | .join name => .object [("name", .string name)]
  | .action handId chosen amount => .object [
      ("hand_id", .string handId),
      ("action", .string chosen),
      ("amount", .ofInt amount)]
  | .topUp => .null

def toJson (m : Message) : Json := .typed m.type m.payload

end Message
end HeadsUp.Client
