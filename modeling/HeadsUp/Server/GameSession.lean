import HeadsUp.Lib.Machine
import HeadsUp.Server.ConnectionManager
import HeadsUp.Server.Message
import HeadsUp.Server.TableManager

/-!
# The game session (`server/game_session.cpp`, `server/player_state.cpp`)

Connections, messages, disconnects and timers are the events of one machine; it
emits what it sends. A handler first checks, which changes nothing and may end
in an error reply or an exception, and then acts. What the code reads from
outside comes with the event: the clock, fresh ids, shuffles and the iteration
order of the hash tables. The callback the constructor binds to the session is
taken as bound, and a missing entry of `folded` reads as not folded. Amounts are
integers: an event brings 800 chips at the most, so that an `int` holds every amount
for the first 2684354 events (`numbers_small`).
-/

namespace HeadsUp.Server
open HeadsUp.Core HeadsUp.Common HeadsUp.Lib

abbrev SessionId := ℕ

structure Config where
  disconnectGraceTimeMs : ℤ
  removalTimeoutMs : ℤ

/-- What an event leaves to chance. -/
structure Choices where
  now : ℕ
  uuid : String
  constructed : Shuffle Card
  shuffled : Shuffle Card
  tables : MapOrder
  sessions : Shuffle SessionId
  undefInt : Int32

def Choices.plain (uuid : String) : Choices where
  now := 0
  uuid := uuid
  constructed := Shuffle.refl _
  shuffled := Shuffle.refl _
  tables := Shuffle.refl _
  sessions := Shuffle.refl _
  undefInt := 0

structure GameSession where
  tableManager : TableManager
  playerSessions : AList fun _ : String => SessionId
  sessionToPlayer : AList fun _ : SessionId => String
  connections : ConnectionManager
  config : Config
  nextRef : PlayerRef

/-- Messages sent, and for the accounts the seats filled and chips topped up. -/
inductive Effect where
  | send (session : SessionId) (message : Message)
  | seated (player : PlayerRef)
  | toppedUp (amount : ℤ)
  deriving DecidableEq, Repr

/-- What a handler did before it returned or threw. -/
structure Outcome where
  state : GameSession
  effects : List Effect
  thrown : Option Exn

/-- How a check ends a handler. -/
inductive Stop where
  | reply (code message : String)
  | throw (e : Exn)

namespace GameSession

def new (config : Config) : GameSession where
  tableManager := .new
  playerSessions := ∅
  sessionToPlayer := ∅
  connections := .new
  config := config
  nextRef := 0

/-- `isHandComplete` with missing flags read as unset. -/
def isHandComplete (hand : Hand) : Bool := Poker.isHandComplete (fun _ => false) hand

/-! ### Sending -/

def broadcastJson (s : GameSession) (c : Choices) (message : Message) : List Effect :=
  (c.sessions.apply (s.playerSessions.entries.map fun e => e.2)).map fun session =>
    .send session message

def reject (s : GameSession) (session : SessionId) (code message : String) : Outcome :=
  ⟨s, [.send session (.error code message)], none⟩

def stop (s : GameSession) (session : SessionId) : Stop → Outcome
  | .reply code message => s.reject session code message
  | .throw e => ⟨s, [], some e⟩

def idOf (s : GameSession) (player : Option PlayerRef) : String :=
  match player with
  | some p => (s.tableManager.heap p).id
  | none => ""

def broadcastHandStarted (s : GameSession) (c : Choices) : List Effect :=
  match s.tableManager.table.currentHand with
  | none => []
  | some hand => s.broadcastJson c (.handStarted {
      handId := hand.id
      players := hand.players.map fun p =>
        ⟨(s.tableManager.heap p).id, (s.tableManager.heap p).stack,
          (s.tableManager.heap p).holeCards.map Card.toString⟩
      smallBlind := smallBlind
      bigBlind := bigBlind
      dealerPosition := s.tableManager.table.dealerButtonPosition
      currentPlayerToAct := s.idOf hand.currentPlayerToAct
      minRaise := hand.minRaise })

def maxBet (hand : Hand) : ℤ :=
  ((List.range hand.players.length).map fun i => hand.playerBets.getD i 0).foldl max 0

/-- The last bet at a seat held by a player with that id. -/
def betOf (heap : Heap) (hand : Hand) (playerId : String) : ℤ :=
  hand.players.zipIdx.foldl (fun bet x =>
    if x.2 < hand.playerBets.length ∧ (heap x.1).id = playerId then hand.playerBets.getD x.2 0
    else bet) 0

def actionRequest (s : GameSession) (playerId : String) : Option ActionRequest :=
  match s.tableManager.table.currentHand, s.tableManager.getPlayer playerId with
  | some hand, some player => some {
      handId := hand.id
      possibleActions := ["fold", "call", "raise"]
      callAmount := maxBet hand - betOf s.tableManager.heap hand playerId
      minRaise := hand.minRaise
      maxRaise := (s.tableManager.heap player).stack
      timeoutMs := actionTimeoutMs }
  | _, _ => none

def sendActionRequest (s : GameSession) (playerId : String) : List Effect :=
  match s.actionRequest playerId, s.playerSessions.lookup playerId with
  | some request, some session => [.send session (.actionRequest request)]
  | _, _ => []

def broadcastActionApplied (s : GameSession) (c : Choices) (playerId action : String)
    (amount : ℤ) : List Effect :=
  match s.tableManager.table.currentHand, s.tableManager.getPlayer playerId with
  | some hand, some player => s.broadcastJson c (.actionApplied {
      handId := hand.id
      playerId := playerId
      action := action
      amount := amount
      newStack := (s.tableManager.heap player).stack
      pot := hand.pot
      nextPlayerToAct := s.idOf hand.currentPlayerToAct })
  | _, _ => []

/-- `amount_won` of each winner: an equal share of all pots, odd chips first. -/
def amountsWon (totalPot : ℤ) (winners : List PlayerRef) : List (PlayerRef × ℤ) :=
  if winners ≠ [] ∧ 0 < totalPot then
    let remainder := totalPot % winners.length
    let share := (totalPot - remainder) / winners.length
    winners.zipIdx.map fun x => (x.1, share + if (x.2 : ℤ) < remainder then 1 else 0)
  else []

def broadcastHandCompleted (s : GameSession) (c : Choices) : Except Exn (List Effect) :=
  match s.tableManager.table.currentHand with
  | none => .ok []
  | some hand => do
    let winners ←
      if hand.winners = [] then Poker.determineWinners c.tables s.tableManager.heap hand
      else pure hand.winners
    let heap := s.tableManager.heap
    pure (s.broadcastJson c (.handCompleted {
      handId := hand.id
      winners := (amountsWon (hand.pot + sidePotSum hand.sidePots) winners).map fun x =>
        ((heap x.1).id, x.2)
      updatedStacks := hand.players.map fun p => ((heap p).id, (heap p).stack) }))

def broadcastPlayerRemoved (s : GameSession) (c : Choices) (playerId : String) : List Effect :=
  match s.tableManager.getPlayer playerId with
  | none => []
  | some player =>
    s.broadcastJson c (.playerRemoved playerId (s.tableManager.heap player).seat)

/-! ### Sessions -/

def registerSession (s : GameSession) (playerId : String) (session : SessionId) : GameSession :=
  { s with
    playerSessions := s.playerSessions.insert playerId session
    sessionToPlayer := s.sessionToPlayer.insert session playerId }

def removeSession (s : GameSession) (playerId : String) : GameSession :=
  match s.playerSessions.lookup playerId with
  | none => s
  | some session =>
    { s with
      playerSessions := s.playerSessions.erase playerId
      sessionToPlayer := s.sessionToPlayer.erase session }

def sendWelcome (s : GameSession) (session : SessionId) (playerId : String) : Outcome :=
  ⟨s.registerSession playerId session, [.send session (.welcome playerId)], none⟩

def updatePlayer (s : GameSession) (player : PlayerRef) (f : Player → Player) : GameSession :=
  { s with tableManager := { s.tableManager with
      heap := Function.update s.tableManager.heap player (f (s.tableManager.heap player)) } }

end GameSession

namespace PlayerStateManager

def onDisconnect (s : GameSession) (player : PlayerRef) (now : ℕ) : GameSession :=
  let playerId := (s.tableManager.heap player).id
  let s := s.updatePlayer player fun p => { p with
    connectionStatus := .disconnected, disconnectedAt := some now, isSittingOut := false }
  { s with
    connections := s.connections.startGraceTimer playerId s.config.disconnectGraceTimeMs
      (.graceTimerExpired playerId) }

def onReconnect (s : GameSession) (player : PlayerRef) : GameSession :=
  let s := { s with connections := s.connections.cancelTimers (s.tableManager.heap player).id }
  s.updatePlayer player fun p => { p with
    connectionStatus := .connected, disconnectedAt := none, isSittingOut := false }

def onGraceTimerExpired (s : GameSession) (playerId : String) : GameSession :=
  let s := match s.tableManager.getPlayer playerId with
    | some player => s.updatePlayer player fun p => { p with isSittingOut := true }
    | none => s
  { s with
    connections := s.connections.startRemovalTimer playerId s.config.removalTimeoutMs
      (.playerRemoved playerId) }

/-- Nothing calls it: the removal timer gets the callback itself. -/
def onRemovalTimerExpired (s : GameSession) (c : Choices) (playerId : String) :
    GameSession × List Effect :=
  let s := { s with tableManager := (s.tableManager.removePlayer playerId).2 }
  (s, s.broadcastPlayerRemoved c playerId)

end PlayerStateManager

namespace GameSession

def onDisconnect (s : GameSession) (session : SessionId) (c : Choices) : Outcome :=
  match s.sessionToPlayer.lookup session with
  | none => ⟨s, [], none⟩
  | some playerId =>
    let s := s.removeSession playerId
    match s.tableManager.getPlayer playerId with
    | none => ⟨s, [], none⟩
    | some player =>
      let s := PlayerStateManager.onDisconnect s player c.now
      ⟨s, s.broadcastJson c (.playerDisconnected playerId s.config.disconnectGraceTimeMs), none⟩

/-! ### Reading fields -/

def readString (payload : Json) (key : String) : Except Stop String :=
  ((payload.get key).bind Json.getString).mapError .throw

def readInt (undef : Int32) (payload : Json) (key : String) : Except Stop ℤ :=
  ((payload.get key).bind (Json.getInt undef)).mapError .throw

/-! ### Join -/

/-- The name and the id to reconnect to, empty when there is none. -/
def joinFields (payload : Json) : Except Stop (String × String) :=
  if !payload.contains "name" then .error (.reply "invalid_input" "Missing 'name' field")
  else do
    let name ← readString payload "name"
    if name = "" then .error (.reply "invalid_input" "Player name cannot be empty")
    else do
      let provided ← if payload.contains "player_id" then readString payload "player_id" else pure ""
      pure (name, provided)

def absentPlayer (s : GameSession) (provided : String) : Option PlayerRef :=
  if provided = "" then none
  else
    match s.tableManager.getPlayer provided with
    | none => none
    | some player =>
      if (s.tableManager.heap player).connectionStatus = .disconnected ∨
          (s.tableManager.heap player).connectionStatus = .reconnecting then some player
      else none

/-- The edits of the two maps: the session leaves its old player. -/
def moveSession (s : GameSession) (playerId : String) (session : SessionId) : GameSession :=
  let s := match s.sessionToPlayer.lookup session with
    | none => s
    | some old =>
      { s with
        playerSessions := s.playerSessions.erase old
        sessionToPlayer := s.sessionToPlayer.erase session }
  s.registerSession playerId session

def reconnect (s : GameSession) (player : PlayerRef) (playerId : String) (session : SessionId)
    (c : Choices) : Outcome :=
  match s.playerSessions.lookup playerId with
  | some other =>
    if other ≠ session then
      s.reject session "player_already_connected" "Player already connected with another session"
    else reconnected
  | none => reconnected
where
  reconnected : Outcome :=
    let s := s.moveSession playerId session
    let s := { s with connections := s.connections.cancelTimers playerId }
    let s := PlayerStateManager.onReconnect s player
    ⟨s, s.broadcastJson c (.playerReconnected playerId) ++
      [.send session (.joinAck playerId (s.tableManager.heap player).seat)], none⟩

def newPlayer (playerId name : String) (seat : ℤ) : Player where
  id := playerId
  name := name
  stack := startingStack
  seat := seat
  holeCards := []
  connectionStatus := .connected
  lastActionTimestamp := 0
  disconnectedAt := none
  isSittingOut := false

/-- The first hand starts as soon as both seats are taken. -/
def startWhenReady (s : GameSession) (c : Choices) (acked : List Effect) : Outcome :=
  if !s.tableManager.table.isReadyForHand then ⟨s, acked, none⟩
  else
    let started := s.tableManager.startHand c.uuid c.constructed c.shuffled
    let s := { s with tableManager := started.2.1 }
    match started.2.2 with
    | some e => ⟨s, acked, some e⟩
    | none =>
      if started.1 then ⟨s, acked ++ s.broadcastHandStarted c, none⟩ else ⟨s, acked, none⟩

def seatNewPlayer (s : GameSession) (playerId name : String) (seat : ℤ) (session : SessionId)
    (c : Choices) : Outcome :=
  let player := s.nextRef
  let created := s.updatePlayer player fun _ => newPlayer playerId name seat
  let assigned := created.tableManager.assignSeat player seat
  if !assigned.1 then s.reject session "seat_unavailable" "Seat assignment failed"
  else
    startWhenReady { s with tableManager := assigned.2, nextRef := player + 1 } c
      [.seated player, .send session (.joinAck playerId seat)]

/-- A join that does not reconnect. -/
def joinAsNew (s : GameSession) (name : String) (session : SessionId) (c : Choices) : Outcome :=
  match s.sessionToPlayer.lookup session with
  | none => s.reject session "unauthorized" "Player not registered"
  | some playerId =>
    match s.tableManager.getPlayer playerId with
    | some existing =>
      ⟨s, [.send session (.joinAck playerId (s.tableManager.heap existing).seat)], none⟩
    | none =>
      if s.tableManager.table.seat1 = none then s.seatNewPlayer playerId name seat1 session c
      else if s.tableManager.table.seat2 = none then s.seatNewPlayer playerId name seat2 session c
      else s.reject session "table_full" "No empty seats available"

def handleJoin (s : GameSession) (payload : Json) (session : SessionId) (c : Choices) : Outcome :=
  match joinFields payload with
  | .error e => s.stop session e
  | .ok (name, provided) =>
    match s.absentPlayer provided with
    | some player => s.reconnect player provided session c
    | none => s.joinAsNew name session c

/-! ### Action -/

/-- The fields of an action message, with the checks made on them alone. -/
def actionFields (payload : Json) (c : Choices) : Except Stop (String × String × ℤ) :=
  if !payload.contains "hand_id" || !payload.contains "action" || !payload.contains "amount" then
    .error (.reply "invalid_input" "Missing required fields (hand_id, action, amount)")
  else do
    let handId ← readString payload "hand_id"
    let action ← readString payload "action"
    let amount ← readInt c.undefInt payload "amount"
    if action ≠ "fold" ∧ action ≠ "call" ∧ action ≠ "raise" then
      .error (.reply "invalid_action" "Action must be fold, call, or raise")
    else if amount < 0 then .error (.reply "invalid_amount" "Amount cannot be negative")
    else if amount > startingStack * 10 then
      .error (.reply "invalid_amount" "Amount exceeds maximum allowed")
    else pure (handId, action, amount)

/-- The request to the player on turn and, when the hand is complete, its end. -/
def afterAction (s : GameSession) (c : Choices) (applied : List Effect) : Outcome :=
  match s.tableManager.table.currentHand with
  | none => ⟨s, applied, none⟩
  | some hand =>
    -- the request goes out before the hand is tested for completion
    let requested := match hand.currentPlayerToAct with
      | some player => s.sendActionRequest (s.tableManager.heap player).id
      | none => []
    if !isHandComplete hand then ⟨s, applied ++ requested, none⟩
    else
      match s.broadcastHandCompleted c with
      | .error e => ⟨s, applied ++ requested, some e⟩
      | .ok completed =>
        let ended := s.tableManager.endHand c.tables
        ⟨{ s with tableManager := ended.1 },
          applied ++ requested ++ completed ++ [.toppedUp ended.2.1], ended.2.2⟩

/-- An action message past its field checks. -/
def performAction (s : GameSession) (handId action : String) (amount : ℤ) (session : SessionId)
    (c : Choices) : Outcome :=
  match s.sessionToPlayer.lookup session with
  | none => s.reject session "unauthorized" "Player not registered"
  | some playerId =>
    match s.tableManager.table.currentHand with
    | none => s.reject session "invalid_hand" "No active hand or hand mismatch"
    | some hand =>
      if hand.id ≠ handId then
        s.reject session "invalid_hand" "No active hand or hand mismatch"
      else
        let processed := s.tableManager.processPlayerAction playerId action amount c.now
        if !processed.1 then s.reject session "invalid_action" "Action not allowed"
        else
          let s := { s with tableManager := processed.2 }
          s.afterAction c (s.broadcastActionApplied c playerId action amount)

def handleAction (s : GameSession) (payload : Json) (session : SessionId) (c : Choices) : Outcome :=
  match actionFields payload c with
  | .error e => s.stop session e
  | .ok (handId, action, amount) => s.performAction handId action amount session c

/-! ### Ping and top-up -/

def handlePing (s : GameSession) (session : SessionId) : Outcome :=
  ⟨s, [.send session .pong], none⟩

def handleTopUp (s : GameSession) (session : SessionId) : Outcome :=
  match s.sessionToPlayer.lookup session with
  | none => s.reject session "unauthorized" "Player not registered"
  | some playerId =>
    match s.tableManager.getPlayer playerId with
    | none => s.reject session "player_not_found" "Player not seated at table"
    | some player =>
      -- whether a hand is in progress is not asked
      let before := s.tableManager.heap player
      ⟨s.updatePlayer player Player.topUp,
        [.toppedUp (before.topUp.stack - before.stack),
          .send session (.topUpAck playerId before.topUp.stack)], none⟩

/-! ### Messages -/

/-- The handler a parsed message selects. -/
def dispatch (s : GameSession) (json : Json) (session : SessionId) (c : Choices) : Outcome :=
  if !json.contains "type" then s.reject session "invalid_json" "Missing 'type' field"
  else if !json.contains "payload" then s.reject session "invalid_json" "Missing 'payload' field"
  else
    match readString json "type", json.get "payload" with
    | .ok type, .ok payload =>
      if type = "join" then s.handleJoin payload session c
      else if type = "action" then s.handleAction payload session c
      else if type = "ping" then s.handlePing session
      else if type = "top_up" then s.handleTopUp session
      else s.reject session "invalid_message_type" "Unknown message type"
    | .error e, _ => s.stop session e
    | _, .error e => ⟨s, [], some e⟩

/-- The `catch` clauses of `handleMessage`. -/
def caught (outcome : Outcome) (session : SessionId) : GameSession × List Effect :=
  match outcome.thrown with
  | none => (outcome.state, outcome.effects)
  | some .json => (outcome.state,
      outcome.effects ++ [.send session (.error "invalid_json" "Failed to parse JSON")])
  | some _ => (outcome.state,
      outcome.effects ++ [.send session (.error "internal_error" "Internal server error")])

/-- `none` stands for a text the parser rejects. -/
def handleMessage (s : GameSession) (message : Option Json) (session : SessionId) (c : Choices) :
    GameSession × List Effect :=
  match message with
  | none => caught ⟨s, [], some .json⟩ session
  | some json => caught (s.dispatch json session c) session

end GameSession

/-! ### The machine -/

inductive Event where
  | connect (session : SessionId) (playerId : String)
  | message (session : SessionId) (text : Option Json) (c : Choices)
  | disconnect (session : SessionId) (c : Choices)
  | timerExpires (i : ℕ)
  | timerRuns (i : ℕ) (c : Choices)

namespace GameSession

def onTimer (s : GameSession) (c : Choices) : TimerCallback → GameSession × List Effect
  | .graceTimerExpired playerId => (PlayerStateManager.onGraceTimerExpired s playerId, [])
  | .playerRemoved playerId => (s, s.broadcastPlayerRemoved c playerId)

def step (s : GameSession) : Event → GameSession × List Effect
  | .connect session playerId =>
    let r := s.sendWelcome session playerId
    (r.state, r.effects)
  | .message session text c => s.handleMessage text session c
  | .disconnect session c =>
    let r := s.onDisconnect session c
    (r.state, r.effects)
  | .timerExpires i => ({ s with connections := s.connections.expire i }, [])
  | .timerRuns i c =>
    let taken := s.connections.take i
    let s := { s with connections := taken.2 }
    match taken.1 with
    | none => (s, [])
    | some callback => s.onTimer c callback

def machine (config : Config) : Machine GameSession Event Effect := ⟨new config, step⟩

/-! ### What a message reaches -/

/-- The messages that reach `handleTopUp`. -/
def asksTopUp (json : Json) : Bool :=
  match readString json "type", json.get "payload" with
  | .ok type, .ok _ => type == "top_up"
  | _, _ => false

theorem asksTopUp_eq_false {json : Json}
    (hno : json.contains "type" = false ∨ json.contains "payload" = false) :
    asksTopUp json = false := by
  unfold asksTopUp
  cases htype : json.get "type" with
  | error e => simp [readString, htype, Except.bind, Except.mapError]
  | ok type =>
    cases hpayload : json.get "payload" with
    | error e => split <;> simp_all
    | ok payload =>
      rw [Json.contains_of_get htype, Json.contains_of_get hpayload] at hno
      simp at hno

/-- The payload of a message of that type. -/
def payloadOf (json : Json) (type : String) : Option Json :=
  match readString json "type", json.get "payload" with
  | .ok t, .ok payload => if t = type then some payload else none
  | _, _ => none

theorem payloadOf_eq_some {json payload : Json} {type : String} :
    payloadOf json type = some payload ↔
      readString json "type" = .ok type ∧ json.get "payload" = .ok payload := by
  unfold payloadOf
  cases readString json "type" with
  | error e => simp
  | ok t =>
    cases json.get "payload" with
    | error e => simp
    | ok p => simp

theorem dispatch_of_payload {json payload : Json} {type : String}
    (h : payloadOf json type = some payload) (s : GameSession) (session : SessionId) (c : Choices) :
    s.dispatch json session c =
      if type = "join" then s.handleJoin payload session c
      else if type = "action" then s.handleAction payload session c
      else if type = "ping" then s.handlePing session
      else if type = "top_up" then s.handleTopUp session
      else s.reject session "invalid_message_type" "Unknown message type" := by
  obtain ⟨htype, hpayload⟩ := payloadOf_eq_some.mp h
  have hget : ∃ t, json.get "type" = .ok t := by
    cases hget : json.get "type" with
    | error e => simp [readString, hget, Except.bind, Except.mapError] at htype
    | ok t => exact ⟨t, rfl⟩
  obtain ⟨t, hget⟩ := hget
  simp only [dispatch, Json.contains_of_get hget, Json.contains_of_get hpayload, htype, hpayload,
    Bool.not_true, Bool.false_eq_true, if_false]

theorem dispatch_cases (s : GameSession) (json : Json) (session : SessionId) (c : Choices) :
    asksTopUp json = true ∧ s.dispatch json session c = s.handleTopUp session ∨
    asksTopUp json = false ∧
      ((∃ payload, payloadOf json "join" = some payload ∧
          s.dispatch json session c = s.handleJoin payload session c) ∨
        (∃ payload, payloadOf json "action" = some payload ∧
          s.dispatch json session c = s.handleAction payload session c) ∨
        s.dispatch json session c = s.handlePing session ∨
        ∃ e, s.dispatch json session c = s.stop session e) := by
  by_cases hno : json.contains "type" = false ∨ json.contains "payload" = false
  · refine .inr ⟨asksTopUp_eq_false hno, .inr (.inr (.inr ?_))⟩
    rw [dispatch]
    cases htype : json.contains "type" with
    | false => exact ⟨.reply _ _, rfl⟩
    | true =>
      rw [hno.resolve_left (by simp [htype])]
      exact ⟨.reply _ _, rfl⟩
  obtain ⟨htype, hpayload⟩ := not_or.mp hno
  rw [dispatch, if_neg (by simpa using htype), if_neg (by simpa using hpayload), asksTopUp]
  cases hread : readString json "type" with
  | error e => exact .inr ⟨rfl, .inr (.inr (.inr ⟨e, rfl⟩))⟩
  | ok type =>
    cases hget : json.get "payload" with
    | error e => exact .inr ⟨rfl, .inr (.inr (.inr ⟨.throw e, rfl⟩))⟩
    | ok payload =>
      have hparts := payloadOf_eq_some.mpr ⟨hread, hget⟩
      by_cases hjoin : type = "join"
      · exact .inr ⟨by simp [hjoin], .inl ⟨payload, hjoin ▸ hparts, if_pos hjoin⟩⟩
      by_cases haction : type = "action"
      · exact .inr ⟨by simp [haction], .inr (.inl ⟨payload, haction ▸ hparts, by simp [haction]⟩)⟩
      by_cases hping : type = "ping"
      · exact .inr ⟨by simp [hping], .inr (.inr (.inl (by simp [hping])))⟩
      by_cases htop : type = "top_up"
      · exact .inl ⟨by simp [htop], by simp [htop]⟩
      · refine .inr ⟨by simp [htop], .inr (.inr (.inr
          ⟨.reply "invalid_message_type" "Unknown message type", ?_⟩))⟩
        simp only [hjoin, haction, hping, htop, if_false]
        rfl

theorem caught_state (outcome : Outcome) (session : SessionId) :
    (caught outcome session).1 = outcome.state := by
  unfold caught
  split <;> rfl

end GameSession
end HeadsUp.Server
