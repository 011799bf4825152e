import HeadsUp.Common.Json
import HeadsUp.Core.Models

/-!
# Server messages (`server/game_session.cpp`)

Every message the server sends, with its payload, and the JSON it is dumped to.
-/

namespace HeadsUp.Server
open HeadsUp.Core HeadsUp.Common

/-- An entry of `players` in `hand_started`. -/
structure DealtPlayer where
  playerId : String
  stack : ℤ
  holeCards : List String
  deriving DecidableEq, Repr

structure ActionRequest where
  handId : String
  possibleActions : List String
  callAmount : ℤ
  minRaise : ℤ
  maxRaise : ℤ
  timeoutMs : ℤ
  deriving DecidableEq, Repr

structure HandStarted where
  handId : String
  players : List DealtPlayer
  smallBlind : ℤ
  bigBlind : ℤ
  dealerPosition : ℤ
  currentPlayerToAct : String
  minRaise : ℤ
  deriving DecidableEq, Repr

structure ActionApplied where
  handId : String
  playerId : String
  action : String
  amount : ℤ
  newStack : ℤ
  pot : ℤ
  nextPlayerToAct : String
  deriving DecidableEq, Repr

/-- Winners with what they won; `pot_distribution` repeats them. -/
structure HandCompleted where
  handId : String
  winners : List (String × ℤ)
  updatedStacks : List (String × ℤ)
  deriving DecidableEq, Repr

inductive Message where
  | welcome (playerId : String)
  | error (code message : String)
  | joinAck (playerId : String) (seat : ℤ)
  | handStarted (payload : HandStarted)
  | actionRequest (payload : ActionRequest)
  | actionApplied (payload : ActionApplied)
  | handCompleted (payload : HandCompleted)
  | playerDisconnected (playerId : String) (remainingGraceTimeMs : ℤ)
  | playerRemoved (playerId : String) (seat : ℤ)
  | playerReconnected (playerId : String)
  | pong
  | topUpAck (playerId : String) (newStack : ℤ)
  deriving DecidableEq, Repr

namespace Message

def type : Message → String
  | .welcome _ => "welcome"
  | .error _ _ => "error"
  | .joinAck _ _ => "join_ack"
  | .handStarted _ => "hand_started"
  | .actionRequest _ => "action_request"
  | .actionApplied _ => "action_applied"
  | .handCompleted _ => "hand_completed"
  | .playerDisconnected _ _ => "player_disconnected"
  | .playerRemoved _ _ => "player_removed"
  | .playerReconnected _ => "player_reconnected"
  | .pong => "pong"
  | .topUpAck _ _ => "top_up_ack"

def payload : Message → Json
  | .welcome playerId => .object [
      ("player_id", .string playerId),
      ("table", .object [
        ("seat_1", .null),
        ("seat_2", .null),
        ("current_hand", .null),
        ("pot", .ofInt 0),
        ("community_cards", .array []),
        ("dealer_button_position", .ofInt defaultDealerPosition)])]
  | .error code message => .object [
      ("code", .string code),
      ("message", .string message)]
  | .joinAck playerId seat => .object [
      ("player_id", .string playerId),
      ("seat", .ofInt seat)]
  | .handStarted payload => .object [
      ("hand_id", .string payload.handId),
      ("players", .array (payload.players.map fun p => .object [
        ("player_id", .string p.playerId),
        ("stack", .ofInt p.stack),
        ("hole_cards", .array (p.holeCards.map .string))])),
      ("small_blind", .ofInt payload.smallBlind),
      ("big_blind", .ofInt payload.bigBlind),
      ("dealer_position", .ofInt payload.dealerPosition),
      ("current_player_to_act", .string payload.currentPlayerToAct),
      ("min_raise", .ofInt payload.minRaise)]
  | .actionRequest payload => .object [
      ("hand_id", .string payload.handId),
      ("possible_actions", .array (payload.possibleActions.map .string)),
      ("call_amount", .ofInt payload.callAmount),
      ("min_raise", .ofInt payload.minRaise),
      ("max_raise", .ofInt payload.maxRaise),
      ("timeout_ms", .ofInt payload.timeoutMs)]
  | .actionApplied payload => .object [
      ("hand_id", .string payload.handId),
      ("player_id", .string payload.playerId),
      ("action", .string payload.action),
      ("amount", .ofInt payload.amount),
      ("new_stack", .ofInt payload.newStack),
      ("pot", .ofInt payload.pot),
      ("next_player_to_act", .string payload.nextPlayerToAct)]
  | .handCompleted payload => .object [
      ("hand_id", .string payload.handId),
      ("winners", .array (payload.winners.map fun w => .object [
        ("player_id", .string w.1),
        ("amount_won", .ofInt w.2),
        ("hand_rank", .string "unknown")])),
      ("pot_distribution", .array (payload.winners.map fun w => .object [
        ("pot_index", .ofInt 0),
        ("winner_id", .string w.1),
        ("amount", .ofInt w.2)])),
      ("updated_stacks", .object (payload.updatedStacks.map fun x => (x.1, .ofInt x.2)))]
  | .playerDisconnected playerId remaining => .object [
      ("player_id", .string playerId),
      ("remaining_grace_time_ms", .ofInt remaining)]
  | .playerRemoved playerId seat => .object [
      ("player_id", .string playerId),
      ("seat", .ofInt seat)]
  | .playerReconnected playerId => .object [
      ("player_id", .string playerId)]
  | .pong => .null
  | .topUpAck playerId newStack => .object [
      ("player_id", .string playerId),
      ("new_stack", .ofInt newStack)]

def toJson (m : Message) : Json := .typed m.type m.payload

end Message
end HeadsUp.Server
