import HeadsUp.Client.Client
import HeadsUp.Server.Accounting

/-!
# The server and two bots

Two bots and the server exchange messages over reliable channels that keep the
order; nobody disconnects. A bot writes some time after it has read, the server
answers at once.
-/

namespace HeadsUp.Game
open HeadsUp.Core HeadsUp.Common HeadsUp.Lib HeadsUp.Server HeadsUp.Server.GameSession

/-- The bots; a bot's session has its number. -/
abbrev Bot := Fin 2

structure BotGame where
  server : GameSession
  bots : Bot → Client
  connected : Bot → Bool
  toServer : Bot → List Client.Message
  toBot : Bot → List Server.Message
  /-- What a bot has decided to write. -/
  writing : Bot → List Client.Message

inductive GameEvent where
  | connects (i : Bot) (playerId : String)
  | serverReads (i : Bot) (c : Choices)
  | botReads (i : Bot) (dice : Client.Dice) (undef : Int32)
  | botWrites (i : Bot)

def messagesFor (session : SessionId) (effects : List Effect) : List Server.Message :=
  effects.filterMap fun
    | .send receiver message => if receiver = session then some message else none
    | _ => none

namespace BotGame

def new (config : Config) (names : Bot → String) : BotGame where
  server := .new config
  bots := fun i => .new (names i)
  connected := fun _ => false
  toServer := fun _ => []
  toBot := fun _ => []
  writing := fun _ => []

def serve (g : BotGame) (e : Event) : BotGame :=
  let r := g.server.step e
  { g with server := r.1, toBot := fun i => g.toBot i ++ messagesFor i.val r.2 }

def step (g : BotGame) : GameEvent → BotGame
  -- a bot connects once
  | .connects i playerId =>
    if g.connected i then g
    else { g with connected := Function.update g.connected i true }.serve (.connect i.val playerId)
  | .serverReads i c =>
    match g.toServer i with
    | [] => g
    | m :: rest =>
      { g with toServer := Function.update g.toServer i rest }.serve
        (.message i.val (some m.toJson) c)
  -- `Client::run` reads the next message after it has written its answer
  | .botReads i dice undef =>
    match g.writing i, g.toBot i with
    | [], m :: rest =>
      let r := (g.bots i).onMessage dice undef m.toJson
      { g with
        bots := Function.update g.bots i r.1
        toBot := Function.update g.toBot i rest
        writing := Function.update g.writing i r.2 }
    | _, _ => g
  | .botWrites i =>
    match g.writing i with
    | [] => g
    | m :: rest => { g with
        writing := Function.update g.writing i rest
        toServer := Function.update g.toServer i (g.toServer i ++ [m]) }

def machine (config : Config) (names : Bot → String) : Machine BotGame GameEvent Empty :=
  ⟨new config names, fun g e => (g.step e, [])⟩

end BotGame

/-- An action of the hand is asked of the player on turn: the request is on its
way to his client, or the client is about to answer it, or its answer is on its
way to the server. -/
def Outstanding (g : BotGame) (hand : Hand) : Prop :=
  ∃ p i, hand.currentPlayerToAct = some p ∧
    g.server.playerSessions.lookup (g.server.tableManager.heap p).id = some (Fin.val i) ∧
    ((∃ request, .actionRequest request ∈ g.toBot i ∧ request.handId = hand.id) ∨
      (∃ action amount, .action hand.id action amount ∈ g.writing i) ∨
      ∃ action amount, .action hand.id action amount ∈ g.toServer i)

/-- The game waits on somebody. -/
def AsksSomebody (g : BotGame) : Prop :=
  ∀ hand, g.server.hand = some hand → isHandComplete hand = false → Outstanding g hand

/-! ### Messages that ask nothing -/

/-- Neither a request nor the end of a hand. -/
def Calm : Server.Message → Prop
  | .actionRequest _ => False
  | .handCompleted _ => False
  | _ => True

theorem Calm.typeOf {m : Server.Message} (h : Calm m) :
    Client.typeOf m.toJson ≠ some "action_request" ∧
      Client.typeOf m.toJson ≠ some "hand_completed" := by
  have htype : Client.typeOf m.toJson = some m.type := rfl
  rw [htype]
  cases m with
  | actionRequest request => exact h.elim
  | handCompleted payload => exact h.elim
  | _ => simp [Message.type]

def CalmEffects (effects : List Effect) : Prop :=
  ∀ session message, .send session message ∈ effects → Calm message

theorem CalmEffects.single {session : SessionId} {message : Server.Message} (h : Calm message) :
    CalmEffects [.send session message] := by
  intro to' m hm
  obtain ⟨-, rfl⟩ := Effect.send.inj (List.mem_singleton.mp hm)
  exact h

theorem CalmEffects.append {effects effects' : List Effect} (h : CalmEffects effects)
    (h' : CalmEffects effects') : CalmEffects (effects ++ effects') :=
  fun session message hm => (List.mem_append.mp hm).elim (h session message) (h' session message)

theorem CalmEffects.messagesFor {effects : List Effect} (h : CalmEffects effects)
    (session : SessionId) : ∀ m ∈ messagesFor session effects, Calm m := by
  intro m hm
  obtain ⟨e, he, heq⟩ := List.mem_filterMap.mp hm
  cases e with
  | send receiver message =>
    simp only at heq
    split_ifs at heq
    obtain rfl := Option.some.inj heq
    exact h receiver message he
  | _ => cases heq

theorem broadcastJson_calm (s : GameSession) (c : Choices) {message : Server.Message}
    (h : Calm message) : CalmEffects (s.broadcastJson c message) := by
  intro session m hm
  obtain ⟨receiver, -, heq⟩ := List.mem_map.mp hm
  obtain ⟨-, rfl⟩ := Effect.send.inj heq
  exact h

/-! ### The server's part -/

/-- A table with two players has a hand in progress. -/
def HandStarts (s : GameSession) : Prop :=
  s.tableManager.table.seat1.isSome = true → s.tableManager.table.seat2.isSome = true →
    s.hand.isSome = true

theorem startWhenReady_starts {s : GameSession} (h : TableInv Unfolded s.tableManager s.nextRef)
    (hnone : s.hand = none)
    (hfew : ∀ p ∈ s.tableManager.players, (s.tableManager.heap p).stack ≤ startingStack)
    (c : Choices) {acked : List Effect} (hacked : CalmEffects acked) :
    HandStarts (s.startWhenReady c acked).state ∧
      CalmEffects (s.startWhenReady c acked).effects := by
  unfold startWhenReady
  by_cases hready : s.tableManager.table.isReadyForHand = true
  · obtain ⟨tm', hstart, hsome, -, -⟩ := h.startHand hready hnone hfew c.uuid c.constructed c.shuffled
    simp only [hready, hstart, Bool.not_true, Bool.false_eq_true, if_false, if_true]
    refine ⟨fun _ _ => hsome, hacked.append ?_⟩
    unfold broadcastHandStarted
    split
    · exact fun session message hm => by cases hm
    · exact broadcastJson_calm _ c trivial
  · rw [if_pos (by simp [hready])]
    refine ⟨fun h1 h2 => ?_, hacked⟩
    have hidle := h.idle hnone
    simp only at h1 h2
    simp [Table.isReadyForHand, hidle, h1, h2] at hready

theorem reject_starts {s : GameSession} (hstarts : HandStarts s) (session : SessionId)
    (code message : String) :
    HandStarts (s.reject session code message).state ∧
      CalmEffects (s.reject session code message).effects :=
  ⟨hstarts, .single trivial⟩

theorem seatNewPlayer_starts {s : GameSession} (h : TableInv Unfolded s.tableManager s.nextRef)
    (hstarts : HandStarts s) (playerId name : String) (seat : ℤ) (session : SessionId)
    (c : Choices) :
    HandStarts (s.seatNewPlayer playerId name seat session c).state ∧
      CalmEffects (s.seatNewPlayer playerId name seat session c).effects := by
  rcases seatNewPlayer_cases h playerId name seat session c with
    heq | ⟨s', -, hinv, hnone, hfew, -, heq⟩
  · rw [heq]
    exact reject_starts hstarts session _ _
  · have hacked : CalmEffects [.seated s.nextRef, .send session (.joinAck playerId seat)] := by
      intro receiver m hm
      obtain ⟨-, rfl⟩ : receiver = session ∧ m = .joinAck playerId seat := by simpa using hm
      trivial
    rw [heq]
    exact startWhenReady_starts hinv hnone hfew c hacked

theorem joinAsNew_starts {s : GameSession} (h : TableInv Unfolded s.tableManager s.nextRef)
    (hstarts : HandStarts s) (name : String) (session : SessionId) (c : Choices) :
    HandStarts (s.joinAsNew name session c).state ∧
      CalmEffects (s.joinAsNew name session c).effects := by
  unfold joinAsNew
  split
  · exact reject_starts hstarts session _ _
  · split
    · exact ⟨hstarts, .single trivial⟩
    · split
      · exact seatNewPlayer_starts h hstarts _ _ _ _ c
      · split
        · exact seatNewPlayer_starts h hstarts _ _ _ _ c
        · exact reject_starts hstarts session _ _

theorem dispatch_join (s : GameSession) (name : String) (session : SessionId) (c : Choices) :
    s.dispatch (Client.Message.join name).toJson session c =
      if name = "" then s.reject session "invalid_input" "Player name cannot be empty"
      else s.joinAsNew name session c := by
  have htype : readString (Client.Message.join name).toJson "type" = .ok "join" := rfl
  have hpayload : (Client.Message.join name).toJson.get "payload"
      = .ok (.object [("name", .string name)]) := rfl
  have hjoin : s.dispatch (Client.Message.join name).toJson session c
      = s.handleJoin (.object [("name", .string name)]) session c := by
    simp only [dispatch, htype, hpayload]
    rfl
  rw [hjoin, handleJoin]
  by_cases hname : name = ""
  · subst hname
    rfl
  · have hfields : joinFields (.object [("name", .string name)]) = .ok (name, "") := by
      simp [joinFields, readString, Json.contains, Json.get, Json.getString, Except.bind, hname,
        Except.mapError, bind, pure, Except.pure]
    rw [hfields, if_neg hname]
    rfl

theorem join_starts {s : GameSession} (h : TableInv Unfolded s.tableManager s.nextRef)
    (hstarts : HandStarts s) (name : String) (session : SessionId) (c : Choices) :
    HandStarts (s.step (.message session (some (Client.Message.join name).toJson) c)).1 ∧
      CalmEffects (s.step (.message session (some (Client.Message.join name).toJson) c)).2 := by
  have hjoin : HandStarts (s.dispatch (Client.Message.join name).toJson session c).state ∧
      CalmEffects (s.dispatch (Client.Message.join name).toJson session c).effects := by
    rw [dispatch_join]
    split_ifs
    · exact reject_starts hstarts session _ _
    · exact joinAsNew_starts h hstarts name session c
  simp only [GameSession.step, handleMessage, caught_state]
  refine ⟨hjoin.1, ?_⟩
  unfold caught
  split
  · exact hjoin.2
  · exact hjoin.2.append (.single trivial)
  · exact hjoin.2.append (.single trivial)

/-! ### The invariant of the system -/

/-- Nothing asks for an action and nothing but joins is written. -/
structure Quiet (g : BotGame) : Prop where
  table : TableInv Unfolded g.server.tableManager g.server.nextRef
  starts : HandStarts g.server
  toBot : ∀ i, ∀ m ∈ g.toBot i, Calm m
  writing : ∀ i, ∀ m ∈ g.writing i, ∃ name, m = .join name
  toServer : ∀ i, ∀ m ∈ g.toServer i, ∃ name, m = .join name

theorem Quiet.new (config : Config) (names : Bot → String) : Quiet (.new config names) where
  table := TableInv.new
  starts := fun h => by cases h
  toBot := by simp [BotGame.new]
  writing := by simp [BotGame.new]
  toServer := by simp [BotGame.new]

theorem forall_update {β : Type*} {P : β → Prop} {f : Bot → List β} (h : ∀ i, ∀ m ∈ f i, P m)
    (i : Bot) {l : List β} (hl : ∀ m ∈ l, P m) : ∀ j, ∀ m ∈ Function.update f i l j, P m := by
  intro j
  by_cases hj : j = i
  · subst hj
    rw [Function.update_self]
    exact hl
  · rw [Function.update_of_ne hj]
    exact h j

theorem Quiet.serve {g : BotGame} (h : Quiet g) {e : Event}
    (hserved : HandStarts (g.server.step e).1 ∧ CalmEffects (g.server.step e).2) :
    Quiet (g.serve e) where
  table := (step_accounted h.table e).inv
  starts := hserved.1
  toBot := by
    intro i m hm
    rcases List.mem_append.mp hm with hm | hm
    · exact h.toBot i m hm
    · exact hserved.2.messagesFor i.val m hm
  writing := h.writing
  toServer := h.toServer

theorem Quiet.step {g : BotGame} (h : Quiet g) (e : GameEvent) : Quiet (g.step e) := by
  cases e with
  | connects i playerId =>
    simp only [BotGame.step]
    split_ifs
    · exact h
    · have hwelcome : CalmEffects [.send i.val (.welcome playerId)] := .single trivial
      exact Quiet.serve (g := { g with connected := Function.update g.connected i true })
        ⟨h.table, h.starts, h.toBot, h.writing, h.toServer⟩ ⟨h.starts, hwelcome⟩
  | serverReads i c =>
    simp only [BotGame.step]
    split
    · exact h
    · rename_i m rest hchannel
      obtain ⟨name, rfl⟩ := h.toServer i m (by simp [hchannel])
      have hrest := forall_update h.toServer i fun m hm => h.toServer i m (by
        rw [hchannel]
        exact List.mem_cons_of_mem _ hm)
      exact Quiet.serve (g := { g with toServer := Function.update g.toServer i rest })
        ⟨h.table, h.starts, h.toBot, h.writing, hrest⟩ (join_starts h.table h.starts name i.val c)
  | botReads i dice undef =>
    simp only [BotGame.step]
    split
    · rename_i m rest _ hchannel
      obtain ⟨hrequest, hcompleted⟩ := (h.toBot i m (by simp [hchannel])).typeOf
      refine ⟨h.table, h.starts, ?_, ?_, h.toServer⟩
      · exact forall_update h.toBot i fun m hm => h.toBot i m (by simp [hchannel, hm])
      · exact forall_update h.writing i fun m hm =>
          ⟨_, Client.onMessage_joins (g.bots i) dice undef hrequest hcompleted m hm⟩
    · exact h
  | botWrites i =>
    simp only [BotGame.step]
    split
    · exact h
    · rename_i m rest hwriting
      refine ⟨h.table, h.starts, h.toBot, ?_, ?_⟩
      · exact forall_update h.writing i fun m hm => h.writing i m (by simp [hwriting, hm])
      · refine forall_update h.toServer i fun m' hm' => ?_
        rcases List.mem_append.mp hm' with hm' | hm'
        · exact h.toServer i m' hm'
        · exact h.writing i m' (by simp [hwriting, List.mem_singleton.mp hm'])

theorem run_quiet (config : Config) (names : Bot → String) (es : List GameEvent) :
    Quiet ((BotGame.machine config names).run es) :=
  (BotGame.machine config names).invariant (I := Quiet) (Quiet.new config names)
    (fun _ e h => h.step e) es

theorem Quiet.not_outstanding {g : BotGame} (h : Quiet g) (hand : Hand) : ¬Outstanding g hand := by
  intro hh
  obtain ⟨p, i, -, -, ⟨request, hm, -⟩ | ⟨action, amount, hm⟩ | ⟨action, amount, hm⟩⟩ := hh
  · exact h.toBot i _ hm
  · obtain ⟨name, hname⟩ := h.writing i _ hm
    cases hname
  · obtain ⟨name, hname⟩ := h.toServer i _ hm
    cases hname

/-- As soon as both bots have their seats the game waits on nobody: their hand
is in progress, is not complete, and nothing asks for an action. -/
theorem asksSomebody_iff (config : Config) (names : Bot → String) (es : List GameEvent) :
    let g := (BotGame.machine config names).run es
    AsksSomebody g ↔ ¬(g.server.tableManager.table.seat1.isSome = true ∧
      g.server.tableManager.table.seat2.isSome = true) := by
  intro g
  have hquiet : Quiet g := run_quiet config names es
  constructor
  · intro hasks hh
    -- the hand has both players in it, so it is not complete
    obtain ⟨h1, h2⟩ := hh
    obtain ⟨hand, hhand⟩ := Option.isSome_iff_exists.mp (hquiet.starts h1 h2)
    obtain ⟨hplay, hun⟩ := hquiet.table.playing hand hhand
    obtain ⟨p, q, hpq, -⟩ := hplay.two
    refine hquiet.not_outstanding hand (hasks hand hhand ?_)
    rw [isHandComplete_playing hplay, hun.activePlayers hpq]
    rfl
  · intro hfew hand hhand
    have hcurrent : g.server.tableManager.table.currentHand.isSome = true := by
      show g.server.hand.isSome = true
      rw [hhand]
      rfl
    exact absurd (hquiet.table.both hcurrent) hfew

def joining : List GameEvent :=
  let reads (i : Bot) : GameEvent := .botReads i (.facing 0) 0
  [.connects 0 "alice", .connects 1 "bob", reads 0, .botWrites 0, reads 1, .botWrites 1,
    .serverReads 0 (.plain "1"), .serverReads 1 (.plain "1"), reads 0, reads 0, reads 1, reads 1]

def joinedGame : BotGame :=
  (BotGame.machine ⟨30000, 60000⟩ fun i => if i = 0 then "Alice" else "Bob").run joining

/-- Both play, every message has been read, and the hand waits on nobody. -/
theorem asksSomebody_joined : (∀ i, (joinedGame.bots i).phase = .playing ∧
    joinedGame.toBot i = [] ∧ joinedGame.writing i = [] ∧ joinedGame.toServer i = []) ∧
      ¬AsksSomebody joinedGame := by
  have hread : ∀ i, (joinedGame.bots i).phase = .playing ∧ joinedGame.toBot i = [] ∧
      joinedGame.writing i = [] ∧ joinedGame.toServer i = [] := by decide +kernel
  refine ⟨hread, fun hasks => ?_⟩
  obtain ⟨p, i, -, -, hout⟩ := hasks (joinedGame.server.hand.get (by decide +kernel))
    (Option.some_get _).symm (by decide +kernel)
  obtain ⟨-, hbot, hwriting, hserver⟩ := hread i
  simp [hbot, hwriting, hserver] at hout

end HeadsUp.Game
