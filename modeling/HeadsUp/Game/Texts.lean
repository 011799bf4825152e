import HeadsUp.Common.JsonText
import HeadsUp.Client.Client
import HeadsUp.Server.Moves

/-!
# What each side makes of the other's messages

A message is read from its text field by field. Both sides read in it exactly
what was written, as long as the numbers are those of an `int`.
-/

namespace HeadsUp.Game
open HeadsUp.Core HeadsUp.Common HeadsUp.Server HeadsUp.Server.GameSession

/-! ### The wire -/

/-- The texts of messages, as the library's `dump` writes and its `parse` reads them. -/
structure Wire where
  serverText : Server.Message → String
  clientText : Client.Message → String
  parse : String → Option Json
  parse_server : ∀ m, ∃ j, parse (serverText m) = some j ∧ m.toJson.Reread j
  parse_client : ∀ m, ∃ j, parse (clientText m) = some j ∧ m.toJson.Reread j
  parse_empty : parse "" = none

theorem Wire.serverText_ne (w : Wire) (m : Server.Message) : w.serverText m ≠ "" := by
  intro hempty
  obtain ⟨j, hparse, -⟩ := w.parse_server m
  rw [hempty, w.parse_empty] at hparse
  cases hparse

theorem plain_server (m : Server.Message) : m.toJson.Plain := by
  cases m <;>
    simp [Server.Message.toJson, Server.Message.payload, Json.typed, -List.mem_map,
      List.forall_mem_map]

theorem plain_client (m : Client.Message) : m.toJson.Plain := by
  cases m <;> simp [Client.Message.toJson, Client.Message.payload, Json.typed]

/-- JSON's own texts. -/
def Wire.json : Wire where
  serverText m := m.toJson.text
  clientText m := m.toJson.text
  parse := Json.parse
  parse_server m := Json.exists_parse_text (plain_server m)
  parse_client m := Json.exists_parse_text (plain_client m)
  parse_empty := rfl

/-! ### The client reads -/

section Client
open HeadsUp.Client

variable {j j' : Json} (h : j.Reread j')
include h

theorem typeOf_reread : typeOf j' = typeOf j := by
  rw [typeOf, typeOf, h.bind_get fun _ _ hv => hv.getString]

theorem payloadField_reread (key : String) :
    Option.Rel Json.Reread (payloadField j key) (payloadField j' key) := by
  unfold payloadField
  rcases h.get "payload" with ⟨payload, payload', hp, hp', hread⟩ | ⟨e, he, he'⟩
  · rw [hp, hp']
    rcases hread.get key with ⟨v, v', hv, hv', hread⟩ | ⟨e, he, he'⟩
    · simp only [Except.bind, hv, hv']
      exact .some hread
    · simp only [Except.bind, he, he']
      exact .none
  · rw [he, he']
    exact .none

/-- What reads a field in the same way reads the same. -/
theorem bind_payloadField {β : Type*} {f : Json → Option β}
    (hf : ∀ v v', Json.Reread v v' → f v' = f v) (key : String) :
    (payloadField j' key).bind f = (payloadField j key).bind f := by
  have hfield := payloadField_reread h key
  generalize payloadField j key = v, payloadField j' key = v' at hfield ⊢
  cases hfield with
  | none => rfl
  | some hv => exact hf _ _ hv

theorem payloadString_reread (key : String) : payloadString j' key = payloadString j key :=
  bind_payloadField h (fun _ _ hv => congrArg Except.toOption hv.getString) key

theorem payloadInt_reread (undef : Int32) (key : String) :
    payloadInt undef j' key = payloadInt undef j key :=
  bind_payloadField h (fun _ _ hv => congrArg Except.toOption (hv.getInt undef)) key

omit h in
theorem mapM_reread {β : Type} {f : Json → Option β} (hf : ∀ v v', Json.Reread v v' → f v' = f v)
    {elements elements' : List Json} (h : List.Forall₂ Json.Reread elements elements') :
    elements'.mapM f = elements.mapM f := by
  induction h with
  | nil => rfl
  | cons hv _ ih => rw [List.mapM_cons, List.mapM_cons, hf _ _ hv, ih]

theorem onHandCompleted_reread (client : HeadsUp.Client) (undef : Int32) :
    client.onHandCompleted undef j' = client.onHandCompleted undef j := by
  have hfield := payloadField_reread h "updated_stacks"
  unfold HeadsUp.Client.onHandCompleted
  generalize payloadField j "updated_stacks" = v, payloadField j' "updated_stacks" = v' at hfield ⊢
  cases hfield with
  | none => rfl
  | some hv =>
    simp only [hv.contains, hv.bind_get fun _ _ hw => hw.getInt undef]

variable (hactions : ∀ members, payloadField j "possible_actions" ≠ some (.object members))
include hactions

theorem answer_reread (dice : Dice) (undef : Int32) :
    answer dice undef j' = answer dice undef j := by
  have hfield := payloadField_reread h "possible_actions"
  simp only [answer, payloadString_reread h, payloadInt_reread h]
  generalize payloadField j "possible_actions" = v, payloadField j' "possible_actions" = v'
    at hfield hactions ⊢
  cases hfield with
  | none => rfl
  | some hv =>
    have hread := mapM_reread (f := fun action => action.getString.toOption)
      (fun _ _ hw => congrArg Except.toOption hw.getString)
      (hv.elements fun members heq => hactions members (congrArg some heq))
    simp only [Option.bind_eq_bind, Option.bind_some, hread]

theorem onMessage_reread (client : HeadsUp.Client) (dice : Dice) (undef : Int32) :
    client.onMessage dice undef j' = client.onMessage dice undef j := by
  simp only [HeadsUp.Client.onMessage, HeadsUp.Client.onWelcome, HeadsUp.Client.onJoinAck,
    HeadsUp.Client.onPlaying, HeadsUp.Client.onActionRequest, HeadsUp.Client.onTopUpAck,
    typeOf_reread h, payloadString_reread h, payloadInt_reread h, answer_reread h hactions,
    onHandCompleted_reread h]

end Client

/-! ### The server reads -/

section Server
variable (s : GameSession) {j j' : Json} (h : j.Reread j') (session : SessionId) (c : Choices)
include h

theorem readString_reread (key : String) : readString j' key = readString j key := by
  rw [readString, readString, h.bind_get fun _ _ hv => hv.getString]

theorem readInt_reread (undef : Int32) (key : String) :
    readInt undef j' key = readInt undef j key := by
  rw [readInt, readInt, h.bind_get fun _ _ hv => hv.getInt undef]

theorem joinFields_reread : joinFields j' = joinFields j := by
  simp only [joinFields, h.contains, readString_reread h]

theorem actionFields_reread : actionFields j' c = actionFields j c := by
  simp only [actionFields, h.contains, readString_reread h, readInt_reread h]

theorem dispatch_reread : s.dispatch j' session c = s.dispatch j session c := by
  simp only [dispatch, h.contains, readString_reread h]
  rcases h.get "payload" with ⟨payload, payload', hp, hp', hread⟩ | ⟨e, he, he'⟩
  · rw [hp, hp']
    cases readString j "type" with
    | error e => rfl
    | ok type =>
      simp only [handleJoin, handleAction, joinFields_reread hread, actionFields_reread hread]
  · simp only [he, he']

theorem step_reread : s.step (.message session (some j') c)
    = s.step (.message session (some j) c) := by
  simp only [step, handleMessage, dispatch_reread s h]

end Server

/-! ### Numbers -/

theorem read_inInt {n : ℤ} (h : InInt n) (undef : Int32) : (Json.ofInt n).getInt undef = .ok n :=
  Json.getInt_ofInt h.1 h.2 undef

/-- The numbers of a message that a bot reads. -/
def numbersRead : Server.Message → List ℤ
  | .joinAck _ seat => [seat]
  | .actionRequest request => [request.callAmount, request.minRaise, request.maxRaise]
  | .handCompleted payload => payload.updatedStacks.map Prod.snd
  | .topUpAck _ newStack => [newStack]
  | _ => []

/-- The numbers of a message that a bot writes. -/
def numbersWritten : Client.Message → List ℤ
  | .action _ _ amount => [amount]
  | _ => []

/-! ### The protocol without its texts -/

/-- What a bot does on a message, whatever its text. -/
def receive (client : HeadsUp.Client) (dice : Client.Dice) (m : Server.Message) :
    HeadsUp.Client × List Client.Message :=
  match client.phase, m with
  | .awaitsWelcome, .welcome playerId =>
    ({ client with playerId, phase := .awaitsJoinAck }, [.join client.name])
  | .awaitsJoinAck, .joinAck _ _ => ({ client with phase := .playing }, [])
  | .playing, .actionRequest request =>
    match Client.RandomStrategy.chooseAction dice request.possibleActions request.callAmount
        request.minRaise request.maxRaise with
    | .ok chosen => (client, [.action request.handId chosen.1 chosen.2])
    | .error _ => (client.close, [])
  | .playing, .handCompleted payload =>
    match payload.updatedStacks.lookup client.playerId with
    | none => (client, [])
    | some stack =>
      ({ client with stack }, if Client.StackManagement.shouldTopUp stack then [.topUp] else [])
  | .playing, .topUpAck _ newStack => ({ client with stack := newStack }, [])
  | .playing, .error _ _ => (client.close, [])
  | .playing, _ => (client, [])
  | .closed, _ => (client, [])
  | _, _ => (client.close, [])

/-- What the server does on a message of a bot. -/
def serve (s : GameSession) (m : Client.Message) (session : SessionId) (c : Choices) : Outcome :=
  match m with
  | .join name =>
    if name = "" then s.reject session "invalid_input" "Player name cannot be empty"
    else s.joinAsNew name session c
  | .action handId action amount =>
    if action ≠ "fold" ∧ action ≠ "call" ∧ action ≠ "raise" then
      s.reject session "invalid_action" "Action must be fold, call, or raise"
    else if amount < 0 then s.reject session "invalid_amount" "Amount cannot be negative"
    else if amount > startingStack * 10 then
      s.reject session "invalid_amount" "Amount exceeds maximum allowed"
    else s.performAction handId action amount session c
  | .topUp => s.handleTopUp session

section Reads
open HeadsUp.Client

theorem typeOf_toJson (m : Server.Message) : typeOf m.toJson = some m.type := rfl

theorem payloadField_toJson {m : Server.Message} {members : List (String × Json)}
    (hpayload : m.payload = .object members) (key : String) :
    payloadField m.toJson key = members.lookup key := by
  have hget : m.toJson.get "payload" = .ok (.object members) := hpayload ▸ rfl
  rw [payloadField, hget]
  simp only [Except.bind, Json.get]
  cases members.lookup key <;> rfl

/-- The actions to choose from come as an array. -/
theorem possibleActions_toJson (m : Server.Message) (members : List (String × Json)) :
    payloadField m.toJson "possible_actions" ≠ some (.object members) := by
  cases m with
  | pong => exact nofun
  | _ =>
    rw [payloadField_toJson rfl]
    simp [List.lookup_cons]

theorem payloadInt_toJson {m : Server.Message} (key : String) {n : ℤ}
    (hfield : payloadField m.toJson key = some (.ofInt n)) (hn : InInt n) (undef : Int32) :
    payloadInt undef m.toJson key = some n := by
  rw [payloadInt, hfield, Option.bind_some, read_inInt hn]
  rfl

theorem mapM_getString (actions : List String) :
    (actions.map Json.string).mapM (fun action => action.getString.toOption) = some actions := by
  induction actions with
  | nil => rfl
  | cons action actions ih =>
    rw [List.map_cons, List.mapM_cons, ih]
    rfl

theorem onActionRequest_toJson (client : HeadsUp.Client) (dice : Dice) (undef : Int32)
    {request : ActionRequest} (hcall : InInt request.callAmount) (hmin : InInt request.minRaise)
    (hmax : InInt request.maxRaise) :
    client.onActionRequest dice undef (Server.Message.actionRequest request).toJson
      = match RandomStrategy.chooseAction dice request.possibleActions request.callAmount
          request.minRaise request.maxRaise with
        | .ok chosen => (client, [.action request.handId chosen.1 chosen.2])
        | .error _ => (client.close, []) := by
  have hfield := payloadField_toJson (m := .actionRequest request) rfl
  have hhand : payloadString (Server.Message.actionRequest request).toJson "hand_id"
      = some request.handId := by
    rw [payloadString, hfield]
    rfl
  have hactions : payloadField (Server.Message.actionRequest request).toJson "possible_actions"
      = some (.array (request.possibleActions.map .string)) := by
    rw [hfield]
    rfl
  have hcall' := payloadInt_toJson "call_amount" (by rw [hfield]; rfl) hcall undef
  have hmin' := payloadInt_toJson "min_raise" (by rw [hfield]; rfl) hmin undef
  have hmax' := payloadInt_toJson "max_raise" (by rw [hfield]; rfl) hmax undef
  have hread : (Json.array (request.possibleActions.map .string)).elements.mapM
      (fun action => action.getString.toOption) = some request.possibleActions :=
    mapM_getString request.possibleActions
  simp only [HeadsUp.Client.onActionRequest, answer, hhand, hactions, hcall', hmin', hmax', hread,
    Option.bind_eq_bind, Option.bind_some]
  cases RandomStrategy.chooseAction dice request.possibleActions request.callAmount
    request.minRaise request.maxRaise <;> rfl

theorem onHandCompleted_toJson (client : HeadsUp.Client) (undef : Int32) {payload : HandCompleted}
    (hnumbers : ∀ n ∈ payload.updatedStacks.map Prod.snd, InInt n) :
    client.onHandCompleted undef (Server.Message.handCompleted payload).toJson
      = match payload.updatedStacks.lookup client.playerId with
        | none => (client, [])
        | some stack =>
          ({ client with stack }, if StackManagement.shouldTopUp stack then [.topUp] else []) := by
  have hfield := payloadField_toJson (m := .handCompleted payload) rfl "updated_stacks"
  have hlookup : (payload.updatedStacks.map fun x => (x.1, Json.ofInt x.2)).lookup client.playerId
      = (payload.updatedStacks.lookup client.playerId).map Json.ofInt := by
    induction payload.updatedStacks with
    | nil => rfl
    | cons x rest ih =>
      obtain ⟨name, stack⟩ := x
      simp only [List.map_cons, List.lookup_cons, ih]
      cases client.playerId == name <;> rfl
  have hread : payloadField (Server.Message.handCompleted payload).toJson "updated_stacks"
      = some (.object (payload.updatedStacks.map fun x => (x.1, .ofInt x.2))) := hfield
  simp only [HeadsUp.Client.onHandCompleted, hread, Json.contains, Json.get, hlookup]
  cases hown : payload.updatedStacks.lookup client.playerId with
  | none => rfl
  | some stack =>
    have hin : InInt stack := by
      obtain ⟨l₁, l₂, hsplit, -⟩ := List.lookup_eq_some_iff.mp hown
      exact hnumbers stack (by simp [hsplit])
    simp [Except.bind, read_inInt hin, Except.toOption]

end Reads

theorem onMessage_toJson (client : HeadsUp.Client) (dice : Client.Dice) (undef : Int32)
    {m : Server.Message} (hnumbers : ∀ n ∈ numbersRead m, InInt n) :
    client.onMessage dice undef m.toJson = receive client dice m := by
  have htype := typeOf_toJson m
  cases hphase : client.phase with
  | closed => simp [HeadsUp.Client.onMessage, receive, hphase]
  | awaitsWelcome =>
    simp only [HeadsUp.Client.onMessage, hphase, HeadsUp.Client.onWelcome, htype]
    cases m with
    | welcome playerId =>
      have hid : Client.payloadString (Server.Message.welcome playerId).toJson "player_id"
          = some playerId := by
        rw [Client.payloadString, payloadField_toJson rfl]
        rfl
      simp [receive, hphase, hid, Server.Message.type]
    | _ => simp [receive, hphase, Server.Message.type]
  | awaitsJoinAck =>
    simp only [HeadsUp.Client.onMessage, hphase, HeadsUp.Client.onJoinAck, htype]
    cases m with
    | joinAck playerId seat =>
      have hseat := payloadInt_toJson (m := .joinAck playerId seat) "seat"
        (by rw [payloadField_toJson rfl]; rfl) (hnumbers seat (by simp [numbersRead])) undef
      simp [receive, hphase, hseat, Server.Message.type]
    | _ => simp [receive, hphase, Server.Message.type]
  | playing =>
    simp only [HeadsUp.Client.onMessage, hphase, HeadsUp.Client.onPlaying, htype]
    cases m with
    | actionRequest request =>
      simp only [numbersRead, List.mem_cons, List.not_mem_nil, or_false, forall_eq_or_imp,
        forall_eq] at hnumbers
      obtain ⟨hcall, hmin, hmax⟩ := hnumbers
      simp only [receive, hphase, Server.Message.type, String.reduceEq, if_true, if_false]
      exact onActionRequest_toJson client dice undef hcall hmin hmax
    | handCompleted payload =>
      simp only [receive, hphase, Server.Message.type, String.reduceEq, if_true, if_false,
        onHandCompleted_toJson client undef hnumbers]
    | topUpAck playerId newStack =>
      have hstack := payloadInt_toJson (m := .topUpAck playerId newStack) "new_stack"
        (by rw [payloadField_toJson rfl]; rfl) (hnumbers newStack (by simp [numbersRead])) undef
      simp [receive, hphase, Server.Message.type, HeadsUp.Client.onTopUpAck, hstack]
    | _ => simp [receive, hphase, Server.Message.type]

/-- A bot does on a text what it does on the message. -/
theorem onMessage_receive (w : Wire) (client : HeadsUp.Client) (dice : Client.Dice)
    (undef : Int32) {m : Server.Message} (hnumbers : ∀ n ∈ numbersRead m, InInt n) :
    ∃ j, w.parse (w.serverText m) = some j ∧
      client.onMessage dice undef j = receive client dice m := by
  obtain ⟨j, hparse, hreread⟩ := w.parse_server m
  refine ⟨j, hparse, ?_⟩
  rw [onMessage_reread hreread (possibleActions_toJson m), onMessage_toJson client dice undef hnumbers]

def firstRequest : ActionRequest := ⟨"hand_1", ["fold", "call", "raise"], 0, 4, 400, 30000⟩

theorem onMessage_receive_request :
    ∃ j, Wire.json.parse (Wire.json.serverText (.actionRequest firstRequest)) = some j ∧
      (⟨"Bob", "bob", 400, .playing⟩ : HeadsUp.Client).onMessage (.facing 1) 0 j
        = receive ⟨"Bob", "bob", 400, .playing⟩ (.facing 1) (.actionRequest firstRequest) :=
  onMessage_receive .json _ (.facing 1) 0 (by decide)

theorem dispatch_toJson (s : GameSession) {m : Client.Message}
    (hnumbers : ∀ n ∈ numbersWritten m, InInt n) (session : SessionId) (c : Choices) :
    s.dispatch m.toJson session c = serve s m session c := by
  cases m with
  | join name =>
    by_cases hname : name = ""
    · subst hname
      rfl
    · have hfields : joinFields (Client.Message.join name).payload = .ok (name, "") := by
        simp [joinFields, Client.Message.payload, Json.contains, readString, Json.get,
          Json.getString, Except.bind, Except.mapError, hname, bind, pure, Except.pure]
      have hpayload : payloadOf (Client.Message.join name).toJson "join"
          = some (Client.Message.join name).payload := rfl
      simp only [dispatch_of_payload hpayload, if_true, handleJoin, hfields, absentPlayer, serve,
        if_neg hname]
  | action handId action amount =>
    have hpayload : payloadOf (Client.Message.action handId action amount).toJson "action"
        = some (Client.Message.action handId action amount).payload := rfl
    have hamount : readInt c.undefInt (Client.Message.action handId action amount).payload "amount"
        = .ok amount := by
      have hread := read_inInt (hnumbers amount (by simp [numbersWritten])) c.undefInt
      have hget : (Client.Message.action handId action amount).payload.get "amount"
          = .ok (.ofInt amount) := rfl
      rw [readInt, hget, Except.bind, hread]
      rfl
    have hhand : readString (Client.Message.action handId action amount).payload "hand_id"
        = .ok handId := rfl
    have haction : readString (Client.Message.action handId action amount).payload "action"
        = .ok action := rfl
    have hall : (!(Client.Message.action handId action amount).payload.contains "hand_id" ||
        !(Client.Message.action handId action amount).payload.contains "action" ||
        !(Client.Message.action handId action amount).payload.contains "amount") = false := rfl
    simp only [dispatch_of_payload hpayload, String.reduceEq, if_false, if_true, handleAction,
      actionFields, hall, Bool.false_eq_true, hhand, haction, hamount, serve, bind, Except.bind]
    split_ifs <;> rfl
  | topUp =>
    have hpayload : payloadOf Client.Message.topUp.toJson "top_up"
        = some Client.Message.topUp.payload := rfl
    simp only [dispatch_of_payload hpayload, String.reduceEq, if_false, if_true, serve]

/-- The server does on a text what it does on the message. -/
theorem dispatch_serve (w : Wire) (s : GameSession) {m : Client.Message}
    (hnumbers : ∀ n ∈ numbersWritten m, InInt n) (session : SessionId) (c : Choices) :
    ∃ j, w.parse (w.clientText m) = some j ∧ s.dispatch j session c = serve s m session c := by
  obtain ⟨j, hparse, hreread⟩ := w.parse_client m
  refine ⟨j, hparse, ?_⟩
  rw [dispatch_reread s hreread, dispatch_toJson s hnumbers]

theorem dispatch_serve_raise :
    ∃ j, Wire.json.parse (Wire.json.clientText (.action "hand_1" "raise" 2000)) = some j ∧
      (GameSession.new ⟨30000, 60000⟩).dispatch j 0 (.plain "1")
        = serve (.new ⟨30000, 60000⟩) (.action "hand_1" "raise" 2000) 0 (.plain "1") :=
  dispatch_serve .json _ (by decide) 0 (.plain "1")

end HeadsUp.Game
