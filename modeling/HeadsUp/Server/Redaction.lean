import HeadsUp.Server.Dealing
import HeadsUp.Server.Waiting

/-!
# The game without its cards

Hole cards and the deck struck out of a state. The handlers do the same on what
is left, with the one exception of the message that starts a hand.
-/

namespace HeadsUp.Core
open HeadsUp.Lib

def Player.redact (p : Player) : Player := { p with holeCards := [] }
def Heap.redact (heap : Heap) : Heap := fun p => (heap p).redact
def Hand.redact (hand : Hand) : Hand := { hand with deck := Deck.new (Shuffle.refl _) }

def Table.redact (table : Table) : Table :=
  { table with currentHand := table.currentHand.map Hand.redact }

theorem redact_update (heap : Heap) (p : PlayerRef) (x : Player) :
    Heap.redact (Function.update heap p x) = Function.update heap.redact p x.redact := by
  funext q
  by_cases hq : q = p
  · rw [Heap.redact, hq, Function.update_self, Function.update_self]
  · rw [Heap.redact, Function.update_of_ne hq, Function.update_of_ne hq, Heap.redact]

theorem Heap.Dealt.redact {heap heap' : Heap} (h : heap.Dealt heap') :
    heap'.redact = heap.redact := by
  funext p
  obtain ⟨cards, hc⟩ := h p
  rw [Heap.redact, Heap.redact, hc]
  rfl

theorem redact_topUp (x : Player) : x.topUp.redact = x.redact.topUp := by
  unfold Player.topUp
  split_ifs with h h' h'
  · rfl
  · exact absurd h h'
  · exact absurd h' h
  · rfl

end HeadsUp.Core

namespace HeadsUp.Server
open HeadsUp.Core HeadsUp.Common HeadsUp.Lib

/-! ### The table manager -/

theorem applyAction_redact (heap : Heap) (hand : Hand) (player : PlayerRef) (action : String)
    (amount : ℤ) (now : ℕ) :
    PlayerAction.applyAction heap.redact hand.redact player action amount now
      = ((PlayerAction.applyAction heap hand player action amount now).1,
        (PlayerAction.applyAction heap hand player action amount now).2.1.redact,
        (PlayerAction.applyAction heap hand player action amount now).2.2.redact) := by
  have hvalid : PlayerAction.validateAction heap.redact hand.redact player action amount
      = PlayerAction.validateAction heap hand player action amount := rfl
  unfold PlayerAction.applyAction
  rw [hvalid]
  split_ifs <;> rfl

theorem Playing.redact {players : List PlayerRef} {hand : Hand} (h : Playing players hand) :
    Playing players hand.redact :=
  ⟨h.two, h.pot, h.bets, h.minRaise, h.sidePots, h.round, h.winners, h.turn⟩

theorem topUpAll_redact (heap : Heap) (players : List PlayerRef) :
    topUpAll heap.redact players = ((topUpAll heap players).1.redact, (topUpAll heap players).2) := by
  induction players generalizing heap with
  | nil => rfl
  | cons p rest ih =>
    have hstack : (heap.redact p).topUp.stack = (heap p).topUp.stack :=
      (congrArg Player.stack (redact_topUp (heap p))).symm
    have hheap : Function.update heap.redact p (heap.redact p).topUp
        = Heap.redact (Function.update heap p (heap p).topUp) := by
      rw [redact_update, redact_topUp]
      rfl
    simp only [topUpAll, hheap, ih, hstack]
    rfl

namespace TableManager

def redact (tm : TableManager) : TableManager :=
  { tm with table := tm.table.redact, heap := tm.heap.redact }

theorem redact_none {tm : TableManager} (h : tm.table.currentHand = none) :
    tm.redact.table.currentHand = none := by
  rw [redact, Table.redact, h]
  rfl

theorem redact_some {tm : TableManager} {hand : Hand} (h : tm.table.currentHand = some hand) :
    tm.redact.table.currentHand = some hand.redact := by
  rw [redact, Table.redact, h]
  rfl

theorem getPlayer_redact (tm : TableManager) (playerId : String) :
    tm.redact.getPlayer playerId = tm.getPlayer playerId := rfl

theorem assignSeat_redact (tm : TableManager) (player : PlayerRef) (seat : ℤ) :
    tm.redact.assignSeat player seat
      = ((tm.assignSeat player seat).1, (tm.assignSeat player seat).2.redact) := by
  have hheap : Function.update tm.redact.heap player { tm.redact.heap player with seat }
      = Heap.redact (Function.update tm.heap player { tm.heap player with seat }) := by
    rw [redact_update]
    rfl
  have hany : (tm.redact.players.any fun p => (tm.redact.heap p).id == (tm.redact.heap player).id)
      = tm.players.any fun p => (tm.heap p).id == (tm.heap player).id := rfl
  have htarget : (if seat = seat1 then tm.redact.table.seat1 else tm.redact.table.seat2)
      = if seat = seat1 then tm.table.seat1 else tm.table.seat2 := rfl
  simp only [assignSeat, hany, htarget, hheap]
  split_ifs <;> rfl

theorem processPlayerAction_redact (tm : TableManager) (playerId action : String) (amount : ℤ)
    (now : ℕ) :
    tm.redact.processPlayerAction playerId action amount now
      = ((tm.processPlayerAction playerId action amount now).1,
        (tm.processPlayerAction playerId action amount now).2.redact) := by
  have hvalid : ∀ hand player,
      PlayerAction.validateAction tm.redact.heap (Hand.redact hand) player action amount
        = PlayerAction.validateAction tm.heap hand player action amount := fun _ _ => rfl
  have happly : ∀ hand player, PlayerAction.applyAction tm.redact.heap (Hand.redact hand) player
      action amount now = _ := fun hand player => applyAction_redact tm.heap hand player action amount now
  unfold processPlayerAction
  cases hhand : tm.table.currentHand with
  | none => rw [redact_none hhand]
  | some hand =>
    rw [redact_some hhand]
    simp only [getPlayer_redact]
    cases tm.getPlayer playerId with
    | none => rfl
    | some player =>
      simp only [hvalid, happly]
      split_ifs <;> rfl

/-- The end of a hand that one player is left in. -/
theorem endHand_redact (tm : TableManager) (tables : MapOrder) {hand : Hand} {p : PlayerRef}
    (hhand : tm.table.currentHand = some hand) (hplay : Playing tm.players hand)
    (hone : activePlayers hand = [p]) :
    tm.redact.endHand tables
      = ((tm.endHand tables).1.redact, (tm.endHand tables).2) := by
  have hsome := redact_some hhand
  have hwin : Poker.determineWinners tables tm.heap hand = .ok [p] :=
    determineWinners_of_single hone
  have hwin' : Poker.determineWinners tables tm.redact.heap hand.redact = .ok [p] :=
    @determineWinners_of_single _ _ hand.redact _ hone
  have hpaid := @distributePot_single { hand with winners := [p] } hplay.pot hplay.sidePots tm.heap p
  have hpaid' := @distributePot_single { hand.redact with winners := [p] } hplay.pot hplay.sidePots
    tm.redact.heap p
  have htopped : topUpAll (tm.redact.heap.credit (Pi.single p hand.redact.pot)) tm.redact.players
      = _ := topUpAll_redact (tm.heap.credit (Pi.single p hand.pot)) tm.players
  simp only [endHand, hhand, hsome, hwin, hwin', hpaid, hpaid', htopped]
  rfl

end TableManager

/-! ### Sessions -/

/-- The choices without the shuffles of the deck. -/
def Choices.redact (c : Choices) : Choices :=
  { c with constructed := Shuffle.refl _, shuffled := Shuffle.refl _ }

/-- The deck a hand is dealt from. -/
def Choices.deck (c : Choices) : Deck := (Deck.new c.constructed).shuffle c.shuffled

def Event.redact : Event → Event
  | .connect session playerId => .connect session playerId
  | .message session text c => .message session text c.redact
  | .disconnect session c => .disconnect session c.redact
  | .timerExpires i => .timerExpires i
  | .timerRuns i c => .timerRuns i c.redact

def GameSession.redact (s : GameSession) : GameSession :=
  { s with tableManager := s.tableManager.redact }

def Outcome.redact (o : Outcome) : Outcome := { o with state := o.state.redact }

namespace GameSession

@[simp] theorem redact_tableManager (s : GameSession) :
    s.redact.tableManager = s.tableManager.redact := rfl
@[simp] theorem redact_playerSessions (s : GameSession) :
    s.redact.playerSessions = s.playerSessions := rfl
@[simp] theorem redact_sessionToPlayer (s : GameSession) :
    s.redact.sessionToPlayer = s.sessionToPlayer := rfl

theorem redact_redact (s : GameSession) : s.redact.redact = s.redact := by
  have hhand : (s.tableManager.table.currentHand.map Hand.redact).map Hand.redact
      = s.tableManager.table.currentHand.map Hand.redact := by
    rw [Option.map_map]
    rfl
  simp only [redact, TableManager.redact, Table.redact, hhand]
  rfl

theorem updatePlayer_redact (s : GameSession) (player : PlayerRef) (f : Player → Player)
    (hf : ∀ x, (f x).redact = f x.redact) :
    s.redact.updatePlayer player f = (s.updatePlayer player f).redact := by
  have hheap : Function.update s.redact.tableManager.heap player
      (f (s.redact.tableManager.heap player))
      = Heap.redact (Function.update s.tableManager.heap player (f (s.tableManager.heap player))) := by
    rw [redact_update, hf]
    rfl
  simp only [updatePlayer, hheap]
  rfl

variable {s : GameSession}

/-! ### What does not touch the cards -/

theorem handleTopUp_redact (s : GameSession) (session : SessionId) :
    s.redact.handleTopUp session = (s.handleTopUp session).redact := by
  unfold handleTopUp
  simp only [redact_sessionToPlayer]
  cases s.sessionToPlayer.lookup session with
  | none => rfl
  | some playerId =>
    simp only [redact_tableManager, TableManager.getPlayer_redact]
    cases s.tableManager.getPlayer playerId with
    | none => rfl
    | some player =>
      have hstack : (s.tableManager.redact.heap player).topUp.stack
          = (s.tableManager.heap player).topUp.stack :=
        (congrArg Player.stack (redact_topUp (s.tableManager.heap player))).symm
      simp only [updatePlayer_redact s player Player.topUp redact_topUp, hstack]
      rfl

theorem onReconnect_redact (s : GameSession) (player : PlayerRef) :
    PlayerStateManager.onReconnect s.redact player
      = (PlayerStateManager.onReconnect s player).redact := by
  exact updatePlayer_redact { s with
    connections := s.connections.cancelTimers (s.tableManager.heap player).id } player (fun p =>
      { p with connectionStatus := .connected, disconnectedAt := none, isSittingOut := false })
    fun _ => rfl

theorem reconnect_redact (s : GameSession) (player : PlayerRef) (playerId : String)
    (session : SessionId) (c : Choices) :
    s.redact.reconnect player playerId session c.redact
      = (s.reconnect player playerId session c).redact := by
  have hmoved : reconnect.reconnected s.redact player playerId session c.redact
      = (reconnect.reconnected s player playerId session c).redact := by
    have hmove : s.redact.moveSession playerId session = (s.moveSession playerId session).redact := by
      unfold moveSession
      simp only [redact_sessionToPlayer]
      cases s.sessionToPlayer.lookup session <;> rfl
    have hback := onReconnect_redact
      { s.moveSession playerId session with
        connections := (s.moveSession playerId session).connections.cancelTimers playerId } player
    simp only [redact] at hback hmove
    simp only [reconnect.reconnected, redact, hmove, hback]
    rfl
  unfold reconnect
  simp only [redact_playerSessions]
  cases s.playerSessions.lookup playerId with
  | none => exact hmoved
  | some other =>
    simp only
    split_ifs
    · rfl
    · exact hmoved

theorem onDisconnect_redact (s : GameSession) (session : SessionId) (c : Choices) :
    s.redact.onDisconnect session c.redact = (s.onDisconnect session c).redact := by
  unfold onDisconnect
  simp only [redact_sessionToPlayer]
  cases s.sessionToPlayer.lookup session with
  | none => rfl
  | some playerId =>
    have hremove : s.redact.removeSession playerId = (s.removeSession playerId).redact := by
      unfold removeSession
      simp only [redact_playerSessions]
      cases s.playerSessions.lookup playerId <;> rfl
    simp only [hremove, redact_tableManager, TableManager.getPlayer_redact]
    cases (s.removeSession playerId).tableManager.getPlayer playerId with
    | none => rfl
    | some player =>
      have hleft : PlayerStateManager.onDisconnect (s.removeSession playerId).redact player c.now
          = (PlayerStateManager.onDisconnect (s.removeSession playerId) player c.now).redact := by
        have hupdated := updatePlayer_redact (s.removeSession playerId) player
          (fun p => { p with
            connectionStatus := .disconnected, disconnectedAt := some c.now, isSittingOut := false })
          fun _ => rfl
        simp only [PlayerStateManager.onDisconnect, hupdated]
        rfl
      simp only [show c.redact.now = c.now from rfl, hleft]
      rfl

theorem onTimer_redact (s : GameSession) (c : Choices) (callback : TimerCallback) :
    s.redact.onTimer c.redact callback
      = ((s.onTimer c callback).1.redact, (s.onTimer c callback).2) := by
  cases callback with
  | playerRemoved playerId =>
    simp only [onTimer, broadcastPlayerRemoved, redact_tableManager, TableManager.getPlayer_redact]
    cases s.tableManager.getPlayer playerId <;> rfl
  | graceTimerExpired playerId =>
    simp only [onTimer, PlayerStateManager.onGraceTimerExpired, redact_tableManager,
      TableManager.getPlayer_redact]
    cases s.tableManager.getPlayer playerId with
    | none => rfl
    | some player =>
      simp only [updatePlayer_redact s player (fun p => { p with isSittingOut := true })
        fun _ => rfl]
      rfl

/-! ### Actions -/

theorem sendActionRequest_redact (s : GameSession) (playerId : String) :
    s.redact.sendActionRequest playerId = s.sendActionRequest playerId := by
  have hrequest : s.redact.actionRequest playerId = s.actionRequest playerId := by
    unfold actionRequest
    simp only [redact_tableManager, TableManager.getPlayer_redact]
    cases hhand : s.tableManager.table.currentHand with
    | none => rw [TableManager.redact_none hhand]
    | some hand =>
      rw [TableManager.redact_some hhand]
      cases s.tableManager.getPlayer playerId <;> rfl
  unfold sendActionRequest
  rw [hrequest]
  rfl

theorem broadcastActionApplied_redact (s : GameSession) (c : Choices) (playerId action : String)
    (amount : ℤ) : s.redact.broadcastActionApplied c.redact playerId action amount
      = s.broadcastActionApplied c playerId action amount := by
  unfold broadcastActionApplied
  simp only [redact_tableManager, TableManager.getPlayer_redact]
  cases hhand : s.tableManager.table.currentHand with
  | none => rw [TableManager.redact_none hhand]
  | some hand =>
    rw [TableManager.redact_some hhand]
    cases s.tableManager.getPlayer playerId <;> rfl

theorem afterAction_redact (h : TableInv Contested s.tableManager s.nextRef) (c : Choices)
    (applied : List Effect) :
    s.redact.afterAction c.redact applied = (s.afterAction c applied).redact := by
  cases hhand : s.tableManager.table.currentHand with
  | none =>
    simp only [afterAction, redact_tableManager, hhand, TableManager.redact_none hhand]
    rfl
  | some hand =>
    have hsome : s.redact.tableManager.table.currentHand = some hand.redact :=
      TableManager.redact_some hhand
    obtain ⟨hplay, hcon⟩ := h.playing hand hhand
    obtain ⟨turn, -, hturn⟩ := hplay.turn
    have hturn' : hand.redact.currentPlayerToAct = some turn := hturn
    have hid : (s.redact.tableManager.heap turn).id = (s.tableManager.heap turn).id := rfl
    have hcomplete : isHandComplete hand.redact = isHandComplete hand := rfl
    by_cases hfew : (activePlayers hand).length ≤ 1
    · obtain ⟨p, -, hone⟩ := hcon.single hplay hfew
      have hcompleted := broadcastHandCompleted_eq hplay hhand hone c
      have hcompleted' := broadcastHandCompleted_eq (s := s.redact) hplay.redact hsome hone c.redact
      have hended := s.tableManager.endHand_redact c.tables hhand hplay hone
      have htables : s.redact.tableManager.endHand c.redact.tables = _ := hended
      simp only [afterAction, hhand, hsome, hturn, hturn', hid, sendActionRequest_redact,
        hcomplete, hcompleted, hcompleted', htables]
      split_ifs <;> rfl
    · simp only [afterAction, hhand, hsome, hturn, hturn', hid, sendActionRequest_redact,
        hcomplete, isHandComplete_playing hplay, hfew, decide_false, Bool.not_false, if_true]
      rfl

theorem handleAction_redact (h : TableInv Unfolded s.tableManager s.nextRef) (payload : Json)
    (session : SessionId) (c : Choices) :
    s.redact.handleAction payload session c.redact = (s.handleAction payload session c).redact := by
  unfold handleAction
  simp only [show actionFields payload c.redact = actionFields payload c from rfl]
  cases actionFields payload c with
  | error e => cases e <;> rfl
  | ok fields =>
    obtain ⟨handId, action, amount⟩ := fields
    simp only [performAction, redact_sessionToPlayer]
    cases s.sessionToPlayer.lookup session with
    | none => rfl
    | some playerId =>
      cases hhand : s.tableManager.table.currentHand with
      | none =>
        simp only [redact_tableManager, TableManager.redact_none hhand]
        rfl
      | some hand =>
        have hprocessed := s.tableManager.processPlayerAction_redact playerId action amount c.now
        have hid : hand.redact.id = hand.id := rfl
        simp only [redact_tableManager, TableManager.redact_some hhand, hid,
          show c.redact.now = c.now from rfl, hprocessed]
        split_ifs with hmismatch hok
        · rfl
        · rfl
        · have hok' : (s.tableManager.processPlayerAction playerId action amount c.now).1 = true := by
            simpa using hok
          have hinv := (h.processPlayerAction hok').1
          have happlied := broadcastActionApplied_redact { s with tableManager :=
            (s.tableManager.processPlayerAction playerId action amount c.now).2 } c playerId action
            amount
          exact (congrArg _ happlied).trans (afterAction_redact (s := { s with tableManager := _ })
            hinv c _)

/-! ### Joins -/

/-- The two players of the hand hold the first four cards of the deck. -/
def HoldDealt (c : Choices) (s : GameSession) : Prop :=
  ∃ hand p q, s.hand = some hand ∧ hand.players = [p, q] ∧
    (s.tableManager.heap p).holeCards.length = 2 ∧ (s.tableManager.heap q).holeCards.length = 2 ∧
    (s.tableManager.heap p).holeCards ++ (s.tableManager.heap q).holeCards = c.deck.cards.take 4

/-- What a handler comes to with and without the cards: the same, but for those
of a hand that it starts. -/
inductive Redacts (s : GameSession) (c : Choices) : Outcome → Outcome → Prop
  | same (o : Outcome) (hstays : s.hand = none → o.state.hand = none) : Redacts s c o o.redact
  | starts {s' t' : GameSession} {acked : List Effect} (hnone : s.hand = none)
      (hdealt : HoldDealt c s') (hstate : t'.redact = s'.redact) :
      Redacts s c ⟨s', acked ++ s'.broadcastHandStarted c, none⟩
        ⟨t', acked ++ t'.broadcastHandStarted c.redact, none⟩

theorem startHand_redact (h : TableInv Unfolded s.tableManager s.nextRef)
    (hready : s.tableManager.table.isReadyForHand = true) (hnone : s.hand = none) (c : Choices) :
    ∃ tm tm', s.tableManager.startHand c.uuid c.constructed c.shuffled = (true, tm, none) ∧
      s.tableManager.redact.startHand c.uuid c.redact.constructed c.redact.shuffled
        = (true, tm', none) ∧
      HoldDealt c { s with tableManager := tm } ∧ tm'.redact = tm.redact := by
  obtain ⟨h1, h2⟩ := isReadyForHand_seats hready
  obtain ⟨p, q, hp, hq, hperm⟩ := h.pair h1 h2
  have hnd : [p, q].Nodup := hperm.nodup_iff.mpr h.nodup
  have hstart := startHand_eq hready hnone hp hq c.uuid c.constructed c.shuffled
  have hstart' := @startHand_eq s.tableManager.redact hready
    (TableManager.redact_none hnone) p q hp hq c.uuid c.redact.constructed c.redact.shuffled
  refine ⟨_, _, hstart, hstart', ?_, ?_⟩
  · obtain ⟨hcards, hlen⟩ := dealHoleCards_cards s.tableManager.heap c.deck hnd (by simp [Choices.deck])
    refine ⟨_, p, q, rfl, TableManager.firstHand_players hp hq _ _, hlen p (by simp),
      hlen q (by simp), ?_⟩
    simpa [Choices.deck] using hcards
  · have hdealt := (dealHoleCards_dealt s.tableManager.heap c.deck [p, q]).redact
    have hdealt' := (dealHoleCards_dealt s.tableManager.redact.heap c.redact.deck [p, q]).redact
    simp only [Choices.deck] at hdealt hdealt'
    simp only [TableManager.redact] at hdealt' ⊢
    rw [hdealt, hdealt']
    rfl

theorem startWhenReady_redact (h : TableInv Unfolded s.tableManager s.nextRef)
    (hnone : s.hand = none) {s₀ : GameSession} (hnone₀ : s₀.hand = none) (c : Choices)
    (acked : List Effect) :
    Redacts s₀ c (s.startWhenReady c acked) (s.redact.startWhenReady c.redact acked) := by
  by_cases hready : s.tableManager.table.isReadyForHand = true
  · obtain ⟨tm, tm', hstart, hstart', hdealt, hstate⟩ := startHand_redact h hready hnone c
    have hready' : s.tableManager.redact.table.isReadyForHand = true := hready
    simp only [startWhenReady, hready, hready', hstart, Bool.not_true, Bool.false_eq_true, if_false,
      if_true, show c.redact.uuid = c.uuid from rfl, redact_tableManager, hstart']
    refine @Redacts.starts _ _ { s with tableManager := tm } _ _ hnone₀ hdealt ?_
    simp only [redact, hstate]
  · have hready' : ¬s.tableManager.redact.table.isReadyForHand = true := hready
    simp only [startWhenReady, redact_tableManager, hready, hready', Bool.not_false, if_true]
    exact .same _ fun _ => hnone

theorem seatNewPlayer_redact (h : TableInv Unfolded s.tableManager s.nextRef)
    (playerId name : String) (seat : ℤ) (session : SessionId) (c : Choices) :
    Redacts s c (s.seatNewPlayer playerId name seat session c)
      (s.redact.seatNewPlayer playerId name seat session c.redact) := by
  set created := s.updatePlayer s.nextRef fun _ => newPlayer playerId name seat with hcreated
  have hassigned : (s.redact.updatePlayer s.redact.nextRef
      fun _ => newPlayer playerId name seat).tableManager.assignSeat s.redact.nextRef seat = _ :=
    (congrArg (fun t => t.tableManager.assignSeat s.nextRef seat)
      (updatePlayer_redact s s.nextRef (fun _ => newPlayer playerId name seat) fun _ => rfl)).trans
      (created.tableManager.assignSeat_redact s.nextRef seat)
  have hinv : TableInv Unfolded created.tableManager s.nextRef := by
    refine (h.congr_heap _ (le_refl s.nextRef) fun p hp => ?_).1
    rw [Function.update_of_ne (h.fresh p hp).ne]
    exact ⟨rfl, rfl⟩
  simp only [seatNewPlayer, ← hcreated, hassigned]
  by_cases hok : (created.tableManager.assignSeat s.nextRef seat).1 = true
  · have hstack : (created.tableManager.heap s.nextRef).stack = startingStack := by
      rw [hcreated]
      simp [updatePlayer, newPlayer]
    obtain ⟨hnone, hinv', hnone', -⟩ := hinv.assignSeat hstack hok
    simp only [hok, Bool.not_true, Bool.false_eq_true, if_false]
    have hidle : s.hand = none := hnone
    exact startWhenReady_redact (s := { s with tableManager := _, nextRef := _ }) hinv' hnone' hidle
      c _
  · simp only [hok, Bool.not_false, if_true]
    exact .same _ id

theorem reconnect_hand (s : GameSession) (player : PlayerRef) (playerId : String)
    (session : SessionId) (c : Choices) :
    (s.reconnect player playerId session c).state.hand = s.hand := by
  have hmoved := congrArg Table.currentHand (reconnected_kept (s := s) player playerId session c).2
  unfold reconnect
  split
  · split
    · rfl
    · exact hmoved
  · exact hmoved

theorem handleJoin_redact (h : TableInv Unfolded s.tableManager s.nextRef) (payload : Json)
    (session : SessionId) (c : Choices) :
    Redacts s c (s.handleJoin payload session c)
      (s.redact.handleJoin payload session c.redact) := by
  unfold handleJoin
  cases joinFields payload with
  | error e => cases e <;> exact .same _ id
  | ok fields =>
    obtain ⟨name, provided⟩ := fields
    have habsent : s.redact.absentPlayer provided = s.absentPlayer provided := rfl
    simp only [habsent]
    cases s.absentPlayer provided with
    | some player =>
      simp only [reconnect_redact]
      exact .same _ fun hnone => (reconnect_hand s player provided session c).trans hnone
    | none =>
      simp only [joinAsNew, redact_sessionToPlayer, redact_tableManager]
      cases s.sessionToPlayer.lookup session with
      | none => exact .same _ id
      | some playerId =>
        simp only [TableManager.getPlayer_redact]
        cases s.tableManager.getPlayer playerId with
        | some existing => exact .same _ id
        | none =>
          simp only [show s.tableManager.redact.table.seat1 = s.tableManager.table.seat1 from rfl,
            show s.tableManager.redact.table.seat2 = s.tableManager.table.seat2 from rfl]
          by_cases hone : s.tableManager.table.seat1 = none
          · simp only [hone, if_true]
            exact seatNewPlayer_redact h playerId name seat1 session c
          by_cases htwo : s.tableManager.table.seat2 = none
          · simp only [hone, htwo, if_true, if_false]
            exact seatNewPlayer_redact h playerId name seat2 session c
          · simp only [hone, htwo, if_false]
            exact .same _ id

/-! ### Steps -/

/-- The same for a step. -/
inductive StepRedacts (s : GameSession) :
    Event → GameSession × List Effect → GameSession × List Effect → Prop
  | same {e : Event} (after : GameSession × List Effect)
      (hstays : s.hand = none → after.1.hand = none) : StepRedacts s e after (after.1.redact, after.2)
  | starts {session : SessionId} {json : Json} {c : Choices} {s' t' : GameSession}
      {acked : List Effect} (hnone : s.hand = none) (hdealt : HoldDealt c s')
      (hstate : t'.redact = s'.redact) :
      StepRedacts s (.message session (some json) c) (s', acked ++ s'.broadcastHandStarted c)
        (t', acked ++ t'.broadcastHandStarted c.redact)

theorem caught_redact (o : Outcome) (session : SessionId) :
    caught o.redact session = ((caught o session).1.redact, (caught o session).2) := by
  obtain ⟨state, effects, thrown⟩ := o
  cases thrown with
  | none => rfl
  | some e => cases e <;> rfl

theorem handleAction_idle (hnone : s.hand = none) (payload : Json) (session : SessionId)
    (c : Choices) : (s.handleAction payload session c).state = s := by
  have hcurrent : s.tableManager.table.currentHand = none := hnone
  unfold handleAction
  split
  · rename_i e _
    cases e <;> rfl
  · simp only [performAction, hcurrent]
    split <;> rfl

theorem handleTopUp_hand (s : GameSession) (session : SessionId) :
    (s.handleTopUp session).state.hand = s.hand := by
  unfold handleTopUp
  split
  · rfl
  · split <;> rfl

theorem dispatch_redact (h : TableInv Unfolded s.tableManager s.nextRef) (json : Json)
    (session : SessionId) (c : Choices) :
    Redacts s c (s.dispatch json session c) (s.redact.dispatch json session c.redact) := by
  unfold dispatch
  split_ifs
  · exact .same _ id
  · exact .same _ id
  · cases readString json "type" with
    | error e => cases e <;> exact .same _ id
    | ok type =>
      cases json.get "payload" with
      | error e => exact .same _ id
      | ok payload =>
        simp only
        split_ifs
        · exact handleJoin_redact h payload session c
        · rw [handleAction_redact h]
          refine .same _ fun hnone => ?_
          rw [handleAction_idle hnone]
          exact hnone
        · exact .same _ id
        · rw [handleTopUp_redact]
          exact .same _ (handleTopUp_hand s session).trans
        · exact .same _ id

theorem step_redact (h : TableInv Unfolded s.tableManager s.nextRef) (e : Event) :
    StepRedacts s e (s.step e) (s.redact.step e.redact) := by
  have hstays : (∀ session json c, e ≠ .message session (some json) c) → s.hand = none →
      (s.step e).1.hand = none := by
    intro hno hnone
    by_contra hhand
    obtain ⟨session, json, c, -, -, -, heq, -⟩ :=
      (step_moves h e).starts hnone (Option.isSome_iff_ne_none.mpr hhand)
    exact hno session json c heq
  cases e with
  | connect session playerId => exact .same _ id
  | message session text c =>
    cases text with
    | none => exact .same _ id
    | some json =>
      have hdispatch := dispatch_redact h json session c
      simp only [Event.redact, step, handleMessage]
      generalize s.dispatch json session c = o at hdispatch
      generalize s.redact.dispatch json session c.redact = o' at hdispatch
      cases hdispatch with
      | same _ hsame =>
        rw [caught_redact]
        refine .same _ fun hnone => ?_
        rw [caught_state]
        exact hsame hnone
      | starts hnone hdealt hstate => exact .starts hnone hdealt hstate
  | disconnect session c =>
    have hsame := hstays (by rintro _ _ _ ⟨⟩)
    simp only [Event.redact, step, onDisconnect_redact] at hsame ⊢
    exact .same (_, _) hsame
  | timerExpires i => exact .same _ id
  | timerRuns i c =>
    have hsame := hstays (by rintro _ _ _ ⟨⟩)
    have htaken : ({ s.redact with connections := (s.connections.take i).2 } : GameSession)
        = ({ s with connections := (s.connections.take i).2 } : GameSession).redact := rfl
    simp only [Event.redact, step, show s.redact.connections = s.connections from rfl, htaken]
      at hsame ⊢
    cases hcallback : (s.connections.take i).1 with
    | none => exact .same (_, _) id
    | some callback =>
      simp only [hcallback] at hsame
      simp only [onTimer_redact]
      exact .same _ hsame

theorem StepRedacts.cases {e : Event} {after after' : GameSession × List Effect}
    (h : StepRedacts s e after after') :
    after' = (after.1.redact, after.2) ∧ (s.hand = none → after.1.hand = none) ∨
    ∃ session json c acked, e = .message session (some json) c ∧ s.hand = none ∧
      HoldDealt c after.1 ∧ after.2 = acked ++ after.1.broadcastHandStarted c ∧
      after'.2 = acked ++ after'.1.broadcastHandStarted c.redact := by
  cases h with
  | same _ hstays => exact .inl ⟨rfl, hstays⟩
  | @starts session json c s' t' acked hnone hdealt hstate =>
    exact .inr ⟨session, json, c, acked, rfl, hnone, hdealt, rfl, rfl⟩

theorem StepRedacts.state {e : Event} {after after' : GameSession × List Effect}
    (h : StepRedacts s e after after') : after'.1.redact = after.1.redact := by
  cases h with
  | same after => exact redact_redact after.1
  | starts _ _ hstate => exact hstate

end GameSession
end HeadsUp.Server
