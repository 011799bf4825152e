import HeadsUp.Client.Message
import HeadsUp.Client.RandomStrategy

/-!
# The bot (`client/client.cpp`, `client/stack_management.cpp`)

`Client::run` reads one message after the other: the welcome, the answer to its
join, then the game. Where it returns, breaks or throws the client is closed.
-/

namespace HeadsUp.Client
open HeadsUp.Core HeadsUp.Common

namespace StackManagement

def bigBlind : ℤ := 4
def topUpThresholdBB : ℤ := 5
def shouldTopUp (currentStack : ℤ) : Bool := decide (currentStack < topUpThresholdBB * bigBlind)

end StackManagement

/-- Where `Client::run` stands. -/
inductive Phase where
  | awaitsWelcome | awaitsJoinAck | playing | closed
  deriving DecidableEq, Repr

end HeadsUp.Client

namespace HeadsUp
open HeadsUp.Client

structure Client where
  name : String
  playerId : String
  stack : ℤ
  phase : Phase
  deriving DecidableEq, Repr

end HeadsUp

namespace HeadsUp.Client
open HeadsUp.Core HeadsUp.Common

def new (name : String) : Client := ⟨name, "", 0, .awaitsWelcome⟩

def close (client : Client) : Client := { client with phase := .closed }

/-! ### Reading -/

/-- `json.at("type")`, when it is a string. -/
def typeOf (json : Json) : Option String := ((json.get "type").bind Json.getString).toOption

def payloadField (json : Json) (key : String) : Option Json :=
  ((json.get "payload").bind (Json.get key)).toOption

def payloadString (json : Json) (key : String) : Option String :=
  (payloadField json key).bind fun j => j.getString.toOption

def payloadInt (undef : Int32) (json : Json) (key : String) : Option ℤ :=
  (payloadField json key).bind fun j => (j.getInt undef).toOption

/-! ### Joining -/

def onWelcome (client : Client) (json : Json) : Client × List Message :=
  if typeOf json ≠ some "welcome" then (client.close, [])
  else
    match payloadString json "player_id" with
    | none => (client.close, [])
    | some playerId => ({ client with playerId, phase := .awaitsJoinAck }, [.join client.name])

def onJoinAck (client : Client) (undef : Int32) (json : Json) : Client × List Message :=
  if typeOf json ≠ some "join_ack" then (client.close, [])
  else
    match payloadInt undef json "seat" with
    | none => (client.close, [])
    | some _ => ({ client with phase := .playing }, [])

/-! ### Playing -/

/-- The answer to `action_request`; `none` where a field is missing or has the
wrong type or the strategy throws. -/
def answer (dice : Dice) (undef : Int32) (json : Json) : Option Message := do
  let handId ← payloadString json "hand_id"
  let possibleActions ← payloadField json "possible_actions"
  let callAmount ← payloadInt undef json "call_amount"
  let minRaise ← payloadInt undef json "min_raise"
  let maxRaise ← payloadInt undef json "max_raise"
  let actions ← possibleActions.elements.mapM fun action => action.getString.toOption
  let chosen ← (RandomStrategy.chooseAction dice actions callAmount minRaise maxRaise).toOption
  pure (.action handId chosen.1 chosen.2)

def onActionRequest (client : Client) (dice : Dice) (undef : Int32) (json : Json) :
    Client × List Message :=
  match answer dice undef json with
  | some message => (client, [message])
  | none => (client.close, [])

def onHandCompleted (client : Client) (undef : Int32) (json : Json) : Client × List Message :=
  match payloadField json "updated_stacks" with
  | none => (client.close, [])
  | some updatedStacks =>
    if !updatedStacks.contains client.playerId then (client, [])
    else
      match ((updatedStacks.get client.playerId).bind (Json.getInt undef)).toOption with
      | none => (client.close, [])
      | some stack =>
        ({ client with stack }, if StackManagement.shouldTopUp stack then [.topUp] else [])

def onTopUpAck (client : Client) (undef : Int32) (json : Json) : Client × List Message :=
  match payloadInt undef json "new_stack" with
  | some stack => ({ client with stack }, [])
  | none => (client.close, [])

def onPlaying (client : Client) (dice : Dice) (undef : Int32) (json : Json) :
    Client × List Message :=
  match typeOf json with
  | none => (client.close, [])
  | some type =>
    if type = "hand_started" then (client, [])
    else if type = "action_request" then client.onActionRequest dice undef json
    else if type = "action_applied" then (client, [])
    else if type = "hand_completed" then client.onHandCompleted undef json
    else if type = "top_up_ack" then client.onTopUpAck undef json
    -- the loop is left on any error message
    else if type = "error" then (client.close, [])
    else (client, [])

def onMessage (client : Client) (dice : Dice) (undef : Int32) (json : Json) :
    Client × List Message :=
  match client.phase with
  | .awaitsWelcome => client.onWelcome json
  | .awaitsJoinAck => client.onJoinAck undef json
  | .playing => client.onPlaying dice undef json
  | .closed => (client, [])

/-! ### What it writes -/

theorem onPlaying_silent (client : Client) (dice : Dice) (undef : Int32) {json : Json}
    (hrequest : typeOf json ≠ some "action_request")
    (hcompleted : typeOf json ≠ some "hand_completed") :
    (client.onPlaying dice undef json).2 = [] := by
  unfold onPlaying
  cases htype : typeOf json with
  | none => rfl
  | some type =>
    have hrequest' : type ≠ "action_request" := fun h => hrequest (htype.trans (congrArg some h))
    have hcompleted' : type ≠ "hand_completed" :=
      fun h => hcompleted (htype.trans (congrArg some h))
    simp only [hrequest', hcompleted', if_false]
    split_ifs
    · rfl
    · rfl
    · unfold onTopUpAck
      split <;> rfl
    · rfl
    · rfl

theorem onMessage_joins (client : Client) (dice : Dice) (undef : Int32) {json : Json}
    (hrequest : typeOf json ≠ some "action_request")
    (hcompleted : typeOf json ≠ some "hand_completed") :
    ∀ m ∈ (client.onMessage dice undef json).2, m = .join client.name := by
  unfold onMessage
  cases client.phase with
  | awaitsWelcome =>
    simp only [onWelcome]
    split_ifs
    · simp
    · split <;> simp
  | awaitsJoinAck =>
    simp only [onJoinAck]
    split_ifs
    · simp
    · split <;> simp
  | playing => simp [onPlaying_silent client dice undef hrequest hcompleted]
  | closed => simp

end HeadsUp.Client
