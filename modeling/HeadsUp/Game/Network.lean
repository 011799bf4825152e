import HeadsUp.Lib.Simulation
import HeadsUp.Game.Bots
import HeadsUp.Game.Texts
import HeadsUp.Server.WebSocketSession

/-!
# The server and two bots over their sockets

What the server sends goes through the write queue of the session and is read
by the bot when the write has completed. The texts are those of the JSON library.
The channels of `BotGame` are what this comes to, whatever the order in which
handlers run, also when a write fails or a session locks its mutex twice.
-/

namespace HeadsUp.Game
open HeadsUp.Core HeadsUp.Common HeadsUp.Lib HeadsUp.Server HeadsUp.Server.GameSession

structure NetGame where
  server : GameSession
  sockets : Bot → WebSocketSession
  bots : Bot → Client
  connected : Bot → Bool
  toServer : Bot → List String
  /-- Texts whose write has completed. -/
  toBot : Bot → List String
  writing : Bot → List Client.Message

inductive NetEvent where
  | connects (i : Bot) (playerId : String)
  | serverReads (i : Bot) (c : Choices)
  | postedRuns (i : Bot)
  | writeCompletes (i : Bot) (ec : Bool)
  | botReads (i : Bot) (dice : Client.Dice) (undef : Int32)
  | botWrites (i : Bot)

/-- What a completion puts on the wire. -/
def delivered (socket : WebSocketSession) (ec : Bool) : List String :=
  match socket.writeQueueMutex, socket.inFlight with
  | .free, message :: _ => if ec then [] else [message]
  | _, _ => []

def sendAll (socket : WebSocketSession) (texts : List String) : WebSocketSession :=
  texts.foldl WebSocketSession.send socket

namespace NetGame

def new (config : Config) (names : Bot → String) : NetGame where
  server := .new config
  sockets := fun _ => .new
  bots := fun i => .new (names i)
  connected := fun _ => false
  toServer := fun _ => []
  toBot := fun _ => []
  writing := fun _ => []

variable (w : Wire)

def serve (n : NetGame) (e : Event) : NetGame :=
  let r := n.server.step e
  { n with
    server := r.1
    sockets := fun i => sendAll (n.sockets i) ((messagesFor i.val r.2).map w.serverText) }

def step (n : NetGame) : NetEvent → NetGame
  | .connects i playerId =>
    if n.connected i then n
    else { n with connected := Function.update n.connected i true }.serve w (.connect i.val playerId)
  | .serverReads i c =>
    match n.toServer i with
    | [] => n
    | text :: rest =>
      { n with toServer := Function.update n.toServer i rest }.serve w
        (.message i.val (w.parse text) c)
  | .postedRuns i =>
    { n with sockets := Function.update n.sockets i ((n.sockets i).step .postedRuns).1 }
  | .writeCompletes i ec =>
    { n with
      sockets := Function.update n.sockets i ((n.sockets i).step (.writeCompletes ec)).1
      toBot := Function.update n.toBot i (n.toBot i ++ delivered (n.sockets i) ec) }
  | .botReads i dice undef =>
    match n.writing i, n.toBot i with
    | [], text :: rest =>
      let r := match w.parse text with
        | some json => (n.bots i).onMessage dice undef json
        | none => ((n.bots i).close, [])
      { n with
        bots := Function.update n.bots i r.1
        toBot := Function.update n.toBot i rest
        writing := Function.update n.writing i r.2 }
    | _, _ => n
  | .botWrites i =>
    match n.writing i with
    | [] => n
    | m :: rest => { n with
        writing := Function.update n.writing i rest
        toServer := Function.update n.toServer i (n.toServer i ++ [w.clientText m]) }

def machine (config : Config) (names : Bot → String) : Machine NetGame NetEvent Empty :=
  ⟨new config names, fun n e => (n.step w e, [])⟩

end NetGame

/-! ### What a session has yet to write -/

/-- The front of the queue stays there until its write has completed. -/
def unwritten (socket : WebSocketSession) : List String := socket.writeQueue ++ socket.posted

section Socket
variable {socket : WebSocketSession}

theorem unwritten_send {text : String} (h : text ≠ "") :
    unwritten (socket.send text) = unwritten socket ++ [text] := by
  rw [WebSocketSession.send, if_neg h]
  exact (List.append_assoc _ _ _).symm

theorem unwritten_sendAll {texts : List String} (h : ∀ text ∈ texts, text ≠ "") :
    unwritten (sendAll socket texts) = unwritten socket ++ texts := by
  induction texts generalizing socket with
  | nil => exact (List.append_nil _).symm
  | cons text texts ih =>
    have hrest := @ih (socket.send text) fun x hx => h x (by simp [hx])
    rw [unwritten_send (h text (by simp)), List.append_assoc] at hrest
    exact hrest

theorem send_writeInv (h : socket.writeQueueMutex = .free → WebSocketSession.WriteInv socket)
    (text : String) : (socket.send text).writeQueueMutex = .free →
      WebSocketSession.WriteInv (socket.send text) :=
  WebSocketSession.step_inv h (.send text)

theorem sendAll_writeInv (h : socket.writeQueueMutex = .free → WebSocketSession.WriteInv socket)
    (texts : List String) : (sendAll socket texts).writeQueueMutex = .free →
      WebSocketSession.WriteInv (sendAll socket texts) := by
  induction texts generalizing socket with
  | nil => exact h
  | cons text texts ih => exact ih (send_writeInv h text)

/-- A handler that runs moves a message from the posted ones to the queue. -/
theorem unwritten_postedRuns : unwritten (socket.step .postedRuns).1 = unwritten socket := by
  cases hmutex : socket.writeQueueMutex with
  | held => simp [WebSocketSession.step, hmutex]
  | free =>
    cases hposted : socket.posted with
    | nil => simp [WebSocketSession.step, hposted]
    | cons text rest =>
      rw [WebSocketSession.step_postedRuns hmutex hposted,
        WebSocketSession.onPosted_free (by exact hmutex)]
      simp [WebSocketSession.left, unwritten, hposted]

/-- A completed write takes the front message off the queue and puts it on the wire. -/
theorem unwritten_writeCompletes
    (h : socket.writeQueueMutex = .free → WebSocketSession.WriteInv socket) (ec : Bool) :
    delivered socket ec ++ unwritten (socket.step (.writeCompletes ec)).1 = unwritten socket := by
  cases hmutex : socket.writeQueueMutex with
  | held => simp [WebSocketSession.step, delivered, hmutex]
  | free =>
    have hinv := h hmutex
    cases hflight : socket.inFlight with
    | nil => simp [WebSocketSession.step, delivered, hmutex, hflight]
    | cons text rest =>
      rw [WebSocketSession.step_writeCompletes hmutex hflight]
      cases ec with
      | true =>
        simp [WebSocketSession.onWrite, WebSocketSession.left, delivered, hmutex, hflight, unwritten,
          pure, Except.pure]
      | false =>
        obtain ⟨others, hqueue⟩ : ∃ others, socket.writeQueue = text :: others := by
          have hfront := hinv.inFlight
          rw [hflight] at hfront
          cases hq : socket.writeQueue with
          | nil =>
            split_ifs at hfront
            simp [hq] at hfront
          | cons first others =>
            rw [hq] at hfront
            split_ifs at hfront
            · obtain ⟨rfl, -⟩ := List.cons.inj hfront
              exact ⟨others, rfl⟩
        have hdelivered : delivered socket false = [text] := by simp [delivered, hmutex, hflight]
        rw [hdelivered]
        by_cases hmany : 2 ≤ socket.writeQueue.length
        · rw [WebSocketSession.onWrite_many (by exact hmutex) (by exact hmany)]
          simp [WebSocketSession.left, unwritten, hqueue]
        · have hnil : others = [] := by
            rw [hqueue, List.length_cons] at hmany
            exact List.eq_nil_of_length_eq_zero (by omega)
          rw [WebSocketSession.onWrite_few (by exact hmutex) (by simp only; omega)]
          simp [WebSocketSession.left, unwritten, hqueue, hnil]

end Socket

/-! ### The channels -/

/-- The channel to a bot holds what is on the wire and what its session has yet
to write. -/
structure Carries (w : Wire) (n : NetGame) (g : BotGame) : Prop where
  server : n.server = g.server
  bots : n.bots = g.bots
  connected : n.connected = g.connected
  writing : n.writing = g.writing
  toServer : ∀ i, n.toServer i = (g.toServer i).map w.clientText
  toBot : ∀ i, n.toBot i ++ unwritten (n.sockets i) = (g.toBot i).map w.serverText
  sockets : ∀ i, (n.sockets i).writeQueueMutex = .free →
    WebSocketSession.WriteInv (n.sockets i)

section Step
variable {w : Wire} {n : NetGame} {g : BotGame}

theorem Carries.new (w : Wire) (config : Config) (names : Bot → String) :
    Carries w (.new config names) (.new config names) where
  server := rfl
  bots := rfl
  connected := rfl
  writing := rfl
  toServer := fun _ => rfl
  toBot := fun _ => rfl
  sockets := fun _ => WebSocketSession.run_inv []

theorem Carries.serve (h : Carries w n g) {e e' : Event}
    (hsame : g.server.step e = g.server.step e') : Carries w (n.serve w e) (g.serve e') where
  server := by
    simp only [NetGame.serve, BotGame.serve, h.server, hsame]
  bots := h.bots
  connected := h.connected
  writing := h.writing
  toServer := h.toServer
  toBot := by
    intro i
    have htexts : ∀ text ∈ (messagesFor i.val (g.server.step e).2).map w.serverText, text ≠ "" := by
      intro text htext
      obtain ⟨m, -, rfl⟩ := List.mem_map.mp htext
      exact w.serverText_ne m
    simp only [NetGame.serve, BotGame.serve, h.server, ← hsame, List.map_append]
    rw [unwritten_sendAll htexts, ← List.append_assoc, h.toBot i]
  sockets := fun i => sendAll_writeInv (h.sockets i) _

theorem Carries.connects (h : Carries w n g) (i : Bot) (playerId : String) :
    Carries w (n.step w (.connects i playerId)) (g.step (.connects i playerId)) := by
  simp only [NetGame.step, BotGame.step, h.connected]
  split_ifs with hconnected
  · exact h
  · refine Carries.serve ?_ rfl
    exact ⟨h.server, h.bots, rfl, h.writing, h.toServer, h.toBot, h.sockets⟩

theorem Carries.serverReads (h : Carries w n g) (i : Bot) (c : Choices) :
    Carries w (n.step w (.serverReads i c)) (g.step (.serverReads i c)) := by
  have hi := h.toServer i
  cases hread : g.toServer i with
  | nil =>
    rw [hread, List.map_nil] at hi
    simpa only [NetGame.step, BotGame.step, hi, hread] using h
  | cons m rest =>
    rw [hread, List.map_cons] at hi
    obtain ⟨j, hparse, hreread⟩ := w.parse_client m
    simp only [NetGame.step, BotGame.step, hi, hread, hparse]
    refine Carries.serve ?_ (step_reread g.server hreread i.val c)
    refine ⟨h.server, h.bots, h.connected, h.writing, fun j => ?_, h.toBot, h.sockets⟩
    by_cases hj : j = i
    · subst hj
      simp
    · simpa [Function.update_of_ne hj] using h.toServer j

theorem Carries.postedRuns (h : Carries w n g) (i : Bot) :
    Carries w (n.step w (.postedRuns i)) g := by
  refine ⟨h.server, h.bots, h.connected, h.writing, h.toServer, fun j => ?_, fun j => ?_⟩
  · by_cases hj : j = i
    · subst hj
      simpa [NetGame.step, unwritten_postedRuns] using h.toBot j
    · simpa [NetGame.step, Function.update_of_ne hj] using h.toBot j
  · by_cases hj : j = i
    · subst hj
      simpa [NetGame.step] using WebSocketSession.step_inv (h.sockets j) .postedRuns
    · simpa [NetGame.step, Function.update_of_ne hj] using h.sockets j

theorem Carries.writeCompletes (h : Carries w n g) (i : Bot) (ec : Bool) :
    Carries w (n.step w (.writeCompletes i ec)) g := by
  refine ⟨h.server, h.bots, h.connected, h.writing, h.toServer, fun j => ?_, fun j => ?_⟩
  · by_cases hj : j = i
    · subst hj
      simpa [NetGame.step, unwritten_writeCompletes (h.sockets j) ec] using h.toBot j
    · simpa [NetGame.step, Function.update_of_ne hj] using h.toBot j
  · by_cases hj : j = i
    · subst hj
      simpa [NetGame.step] using WebSocketSession.step_inv (h.sockets j) (.writeCompletes ec)
    · simpa [NetGame.step, Function.update_of_ne hj] using h.sockets j

/-- A bot that finds nothing on its wire does not read, although its channel may
hold a message that is not written yet. -/
theorem Carries.botReads (h : Carries w n g) (i : Bot) (dice : Client.Dice) (undef : Int32) :
    Carries w (n.step w (.botReads i dice undef)) g ∨
      Carries w (n.step w (.botReads i dice undef)) (g.step (.botReads i dice undef)) := by
  have hi := h.toBot i
  cases hwire : n.toBot i with
  | nil =>
    left
    simp only [NetGame.step, hwire]
    split <;> first | exact h | contradiction
  | cons text rest =>
    cases hwriting : n.writing i with
    | cons m others =>
      left
      simp only [NetGame.step, hwriting, hwire]
      exact h
    | nil =>
      right
      rw [hwire, List.cons_append] at hi
      obtain ⟨m, later, hchannel, rfl, hlater⟩ := List.map_eq_cons_iff.mp hi.symm
      have hwriting' : g.writing i = [] := h.writing ▸ hwriting
      obtain ⟨j, hparse, hreread⟩ := w.parse_server m
      simp only [NetGame.step, BotGame.step, hwriting, hwire, hwriting', hchannel, hparse, h.bots,
        h.writing, onMessage_reread hreread (possibleActions_toJson m)]
      refine ⟨h.server, rfl, h.connected, rfl, h.toServer, fun j => ?_, h.sockets⟩
      by_cases hj : j = i
      · subst hj
        simpa using hlater.symm
      · simpa [Function.update_of_ne hj] using h.toBot j

theorem Carries.botWrites (h : Carries w n g) (i : Bot) :
    Carries w (n.step w (.botWrites i)) (g.step (.botWrites i)) := by
  cases hwriting : g.writing i with
  | nil => simpa only [NetGame.step, BotGame.step, h.writing, hwriting] using h
  | cons m rest =>
    simp only [NetGame.step, BotGame.step, h.writing, hwriting]
    refine ⟨h.server, h.bots, h.connected, rfl, fun j => ?_, h.toBot, h.sockets⟩
    by_cases hj : j = i
    · subst hj
      simp [h.toServer j]
    · simpa [Function.update_of_ne hj] using h.toServer j

end Step

theorem network_simulates (w : Wire) (config : Config) (names : Bot → String) :
    (NetGame.machine w config names).Simulates (BotGame.machine config names) (Carries w) where
  init := Carries.new w config names
  step := by
    intro n g e h
    cases e with
    | connects i playerId => exact .inr ⟨.connects i playerId, h.connects i playerId⟩
    | serverReads i c => exact .inr ⟨.serverReads i c, h.serverReads i c⟩
    | postedRuns i => exact .inl (h.postedRuns i)
    | writeCompletes i ec => exact .inl (h.writeCompletes i ec)
    | botReads i dice undef =>
      exact (h.botReads i dice undef).imp_right fun hr => ⟨.botReads i dice undef, hr⟩
    | botWrites i => exact .inr ⟨.botWrites i, h.botWrites i⟩

/-- Every run over the write queues is a run over channels that lose nothing and
keep the order: the same server, the same bots, and each bot reads a prefix of
what it was sent. -/
theorem network_refines (w : Wire) (config : Config) (names : Bot → String)
    (es : List NetEvent) : ∃ gs : List GameEvent, gs.length ≤ es.length ∧
      Carries w ((NetGame.machine w config names).run es)
        ((BotGame.machine config names).run gs) :=
  (network_simulates w config names).run es

/-- A bot connects, reads its welcome and joins. -/
def connectAndJoin (i : Bot) (playerId : String) : List NetEvent :=
  [.connects i playerId, .postedRuns i, .writeCompletes i false, .botReads i (.facing 1) 0,
    .botWrites i]

theorem network_refines_aliceJoins : ∃ gs : List GameEvent,
    gs.length ≤ (connectAndJoin 0 "alice").length ∧
      Carries .json
        ((NetGame.machine .json ⟨30000, 60000⟩ fun _ => "Alice").run (connectAndJoin 0 "alice"))
        ((BotGame.machine ⟨30000, 60000⟩ fun _ => "Alice").run gs) :=
  network_refines .json ⟨30000, 60000⟩ (fun _ => "Alice") (connectAndJoin 0 "alice")

/-- So over the sockets, too, nobody is ever asked to act: the bots have only
their joins to send. -/
theorem network_quiet (w : Wire) (config : Config) (names : Bot → String) (es : List NetEvent) :
    let n := (NetGame.machine w config names).run es
    (∀ i, ∀ text ∈ n.toServer i, ∃ name, text = w.clientText (.join name)) ∧
      ∀ i, ∀ text ∈ n.toBot i ++ unwritten (n.sockets i), ∃ m, Calm m ∧ text = w.serverText m := by
  refine (network_simulates w config names).transfer (run_quiet config names)
    (Q := fun n => (∀ i, ∀ text ∈ n.toServer i, ∃ name, text = w.clientText (.join name)) ∧
      ∀ i, ∀ text ∈ n.toBot i ++ unwritten (n.sockets i), ∃ m, Calm m ∧ text = w.serverText m)
    (fun n g hcarries hquiet => ⟨fun i text htext => ?_, fun i text htext => ?_⟩) es
  · rw [hcarries.toServer i] at htext
    obtain ⟨m, hm, rfl⟩ := List.mem_map.mp htext
    obtain ⟨name, rfl⟩ := hquiet.toServer i m hm
    exact ⟨name, rfl⟩
  · rw [hcarries.toBot i] at htext
    obtain ⟨m, hm, rfl⟩ := List.mem_map.mp htext
    exact ⟨m, hquiet.toBot i m hm, rfl⟩

theorem network_quiet_aliceJoins :
    let n :=
      (NetGame.machine .json ⟨30000, 60000⟩ fun _ => "Alice").run (connectAndJoin 0 "alice")
    (∀ i, ∀ text ∈ n.toServer i, ∃ name, text = Wire.json.clientText (.join name)) ∧
      ∀ i, ∀ text ∈ n.toBot i ++ unwritten (n.sockets i),
        ∃ m, Calm m ∧ text = Wire.json.serverText m :=
  network_quiet .json ⟨30000, 60000⟩ (fun _ => "Alice") (connectAndJoin 0 "alice")

example :
    let n :=
      (NetGame.machine .json ⟨30000, 60000⟩ fun _ => "Alice").run (connectAndJoin 0 "alice")
    n.toServer 0 = ["\x7b\"payload\":\x7b\"name\":\"Alice\"\x7d,\"type\":\"join\"\x7d"] := by
  decide +kernel

end HeadsUp.Game
