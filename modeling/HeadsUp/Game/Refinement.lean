import HeadsUp.Game.Rules
import HeadsUp.Server.Announcements
import HeadsUp.Server.Replay

/-!
# The server plays by the rules

Seen through its seats and its hand the server is the game of `Game.Rules`: each
event asks for one thing at the most, on behalf of the player its session is
registered for, and the table becomes what the rules make of it.
-/

namespace HeadsUp.Game
open HeadsUp.Core HeadsUp.Common HeadsUp.Lib HeadsUp.Server HeadsUp.Server.GameSession

/-! ### The image of a state -/

def chairOf (x : Player) : Chair :=
  ⟨x.id, x.stack, decide (x.connectionStatus = .connected), x.isSittingOut⟩

@[simp] theorem chairOf_id (x : Player) : (chairOf x).id = x.id := rfl

def dealOf (heap : Heap) (hand : Hand) : Deal :=
  ⟨hand.id, hand.currentPlayerToAct.elim "" fun p => (heap p).id, hand.pot, hand.minRaise⟩

def playOf (s : GameSession) : Play where
  first := s.tableManager.table.seat1.map fun p => chairOf (s.tableManager.heap p)
  second := s.tableManager.table.seat2.map fun p => chairOf (s.tableManager.heap p)
  deal := s.hand.map (dealOf s.tableManager.heap)

/-- What an event asks for, read off the message and the session maps. -/
def askOf (s : GameSession) : Event → Option Ask
  | .message session (some json) c =>
    match joinOf json with
    | some (_, provided) =>
      match s.absentPlayer provided with
      | some _ =>
        if ∀ other ∈ s.playerSessions.lookup provided, other = session then some (.returns provided)
        else none
      | none => (s.sessionToPlayer.lookup session).map fun id => .sits id c.uuid
    | none =>
      match actionOf json c with
      | some (handId, action, amount) =>
        (s.sessionToPlayer.lookup session).map fun id => .acts id handId action amount
      | none => if asksTopUp json then (s.sessionToPlayer.lookup session).map .tops else none
  | .disconnect session _ => (s.sessionToPlayer.lookup session).map .leaves
  | .timerRuns i _ =>
    match (s.connections.take i).1 with
    | some (.graceTimerExpired id) => some (.sitsOut id)
    | _ => none
  | _ => none

variable {s s' : GameSession}

/-! ### Seats and chairs -/

theorem playOf_congr (htable : s'.tableManager.table = s.tableManager.table)
    (hheap : s'.tableManager.heap = s.tableManager.heap) : playOf s' = playOf s := by
  simp only [playOf, GameSession.hand, htable, hheap]

section Seats
variable {Ok : Hand → Prop} (h : TableInv Ok s.tableManager s.nextRef)
include h

theorem id_eq_iff {playerId : String} {player p : PlayerRef}
    (hget : s.tableManager.getPlayer playerId = some player) (hp : p ∈ s.tableManager.players) :
    (s.tableManager.heap p).id = playerId ↔ p = player := by
  obtain ⟨hplayer, hid⟩ := getPlayer_mem hget
  constructor
  · intro hsame
    exact Option.some.inj ((hsame ▸ h.getPlayer hp).symm.trans hget)
  · rintro rfl
    exact hid

/-- Replacing a player replaces his chair. -/
theorem playOf_update {playerId : String} {player : PlayerRef} {x : Player} {f : Chair → Chair}
    (hget : s.tableManager.getPlayer playerId = some player)
    (hx : chairOf x = f (chairOf (s.tableManager.heap player))) (hid : x.id = playerId)
    (htable : s'.tableManager.table = s.tableManager.table)
    (hheap : s'.tableManager.heap = Function.update s.tableManager.heap player x) :
    playOf s' = (playOf s).changeOne playerId f := by
  have hchair : ∀ p ∈ s.tableManager.players, chairOf (s'.tableManager.heap p)
      = if (chairOf (s.tableManager.heap p)).id = playerId then f (chairOf (s.tableManager.heap p))
        else chairOf (s.tableManager.heap p) := by
    intro p hp
    have hiff : (chairOf (s.tableManager.heap p)).id = playerId ↔ p = player := id_eq_iff h hget hp
    rw [hheap]
    by_cases hsame : p = player
    · rw [if_pos (hiff.mpr hsame), hsame, Function.update_self, hx]
    · rw [if_neg fun hh => hsame (hiff.mp hh), Function.update_of_ne hsame]
  have hids : ∀ p, (s'.tableManager.heap p).id = (s.tableManager.heap p).id := by
    intro p
    rw [hheap]
    by_cases hsame : p = player
    · rw [hsame, Function.update_self, hid, (getPlayer_mem hget).2]
    · rw [Function.update_of_ne hsame]
  have hseat : ∀ seat : Option PlayerRef, (∀ p, seat = some p → p ∈ s.tableManager.players) →
      seat.map (fun p => chairOf (s'.tableManager.heap p))
        = (seat.map fun p => chairOf (s.tableManager.heap p)).map fun c =>
          if c.id = playerId then f c else c := by
    intro seat hmem
    cases seat with
    | none => rfl
    | some p => exact congrArg some (hchair p (hmem p rfl))
  have hdeal : s'.hand.map (dealOf s'.tableManager.heap)
      = s.hand.map (dealOf s.tableManager.heap) := by
    have hhand : s'.hand = s.hand := congrArg Table.currentHand htable
    rw [hhand]
    exact Option.map_congr fun hand _ => by simp only [dealOf, hids]
  rw [playOf, hdeal, htable, hseat _ fun p hp => h.mem_players_iff.mpr (.inl hp),
    hseat _ fun p hp => h.mem_players_iff.mpr (.inr hp)]
  rfl

/-- Who has no seat has no chair. -/
theorem playOf_nobody {playerId : String} (hget : s.tableManager.getPlayer playerId = none)
    (f : Chair → Chair) : (playOf s).changeOne playerId f = playOf s := by
  have hseat : ∀ seat : Option PlayerRef, (∀ p, seat = some p → p ∈ s.tableManager.players) →
      (seat.map fun p => chairOf (s.tableManager.heap p)).map (fun c =>
        if c.id = playerId then f c else c) = seat.map fun p => chairOf (s.tableManager.heap p) := by
    intro seat hmem
    cases seat with
    | none => rfl
    | some p =>
      have hne := getPlayer_eq_none_iff.mp hget p (hmem p rfl)
      simp [hne]
  rw [Play.changeOne, Play.change]
  simp only [playOf]
  rw [hseat _ fun p hp => h.mem_players_iff.mpr (.inl hp),
    hseat _ fun p hp => h.mem_players_iff.mpr (.inr hp)]

theorem mem_chairs {c : Chair} : c ∈ (playOf s).chairs ↔
    ∃ p ∈ s.tableManager.players, chairOf (s.tableManager.heap p) = c := by
  simp only [Play.chairs, playOf, List.mem_append, Option.mem_toList, Option.map_eq_some_iff,
    h.mem_players_iff]
  constructor
  · intro hh
    rcases hh with ⟨p, hp, heq⟩ | ⟨p, hp, heq⟩
    · exact ⟨p, .inl hp, heq⟩
    · exact ⟨p, .inr hp, heq⟩
  · intro hh
    obtain ⟨p, hp | hp, heq⟩ := hh
    · exact .inl ⟨p, hp, heq⟩
    · exact .inr ⟨p, hp, heq⟩

end Seats

/-! ### Presence and top-ups -/

theorem chairOf_topUp (x : Player) : chairOf x.topUp = (chairOf x).topUp := by
  unfold Player.topUp Chair.topUp Player.needsTopUp chairOf
  by_cases hless : x.stack < topUpThreshold <;> simp [hless]

section Presence
variable (h : TableInv Unfolded s.tableManager s.nextRef)
include h

theorem tops_plays {session : SessionId} {playerId : String}
    (hsession : s.sessionToPlayer.lookup session = some playerId) :
    playOf (s.handleTopUp session).state = (playOf s).changeOne playerId Chair.topUp := by
  cases hget : s.tableManager.getPlayer playerId with
  | none =>
    rw [playOf_nobody h hget]
    simp only [handleTopUp, hsession, hget]
    rfl
  | some player =>
    have hid : (s.tableManager.heap player).topUp.id = playerId := by
      rw [← (getPlayer_mem hget).2]
      exact congrArg Presence.id (presence_topUp _)
    simp only [handleTopUp, hsession, hget]
    exact playOf_update h hget (chairOf_topUp _) hid rfl rfl

theorem leaves_plays {session : SessionId} {playerId : String}
    (hsession : s.sessionToPlayer.lookup session = some playerId) (c : Choices) :
    playOf (s.onDisconnect session c).state = (playOf s).changeOne playerId Chair.leave := by
  obtain ⟨htable, -⟩ := removeSession_tableManager s playerId
  cases hget : s.tableManager.getPlayer playerId with
  | none =>
    rw [playOf_nobody h hget]
    simp only [onDisconnect, hsession, htable, hget]
    exact playOf_congr (by rw [htable]) (by rw [htable])
  | some player =>
    simp only [onDisconnect, hsession, htable, hget]
    refine playOf_update h hget (x := { s.tableManager.heap player with
      connectionStatus := .disconnected, disconnectedAt := some c.now, isSittingOut := false })
      rfl (getPlayer_mem hget).2 ?_ ?_
    · simp only [PlayerStateManager.onDisconnect, updatePlayer, htable]
    · simp only [PlayerStateManager.onDisconnect, updatePlayer, htable]

theorem sitsOut_plays (playerId : String) :
    playOf (PlayerStateManager.onGraceTimerExpired s playerId)
      = (playOf s).changeOne playerId Chair.sitOut := by
  cases hget : s.tableManager.getPlayer playerId with
  | none =>
    rw [playOf_nobody h hget]
    simp only [PlayerStateManager.onGraceTimerExpired, hget]
    rfl
  | some player =>
    simp only [PlayerStateManager.onGraceTimerExpired, hget]
    exact playOf_update h hget (x := { s.tableManager.heap player with isSittingOut := true })
      rfl (getPlayer_mem hget).2 rfl rfl

theorem returns_plays {player : PlayerRef} {provided : String}
    (habsent : s.absentPlayer provided = some player) (session : SessionId) (c : Choices) :
    playOf (reconnect.reconnected s player provided session c).state
      = (playOf s).changeOne provided Chair.back := by
  obtain ⟨-, hget, -⟩ := absentPlayer_eq_some.mp habsent
  obtain ⟨htable, -⟩ := moveSession_tableManager s provided session
  refine playOf_update h hget (x := { s.tableManager.heap player with
    connectionStatus := .connected, disconnectedAt := none, isSittingOut := false })
    rfl (getPlayer_mem hget).2 ?_ ?_
  · simp only [reconnect.reconnected, PlayerStateManager.onReconnect, updatePlayer, htable]
  · simp only [reconnect.reconnected, PlayerStateManager.onReconnect, updatePlayer, htable]

end Presence

/-! ### Joins -/

theorem chairOf_dealt {heap heap' : Heap} (h : heap.Dealt heap') (p : PlayerRef) :
    chairOf (heap' p) = chairOf (heap p) := by
  obtain ⟨cards, hc⟩ := h p
  rw [hc]
  rfl

theorem startWhenReady_plays (hwait : s.tableManager.table.state = .waitingForPlayers)
    (hnone : s.hand = none) {p q : PlayerRef} (hone : s.tableManager.table.seat1 = some p)
    (htwo : s.tableManager.table.seat2 = some q)
    (hdealer : s.tableManager.table.dealerButtonPosition = 0) (c : Choices)
    (acked : List Effect) :
    playOf (s.startWhenReady c acked).state = (playOf s).start c.uuid := by
  have hready : s.tableManager.table.isReadyForHand = true := by
    simp only [Table.isReadyForHand, hwait, hone, htwo]
    rfl
  have hstart := startHand_eq hready hnone hone htwo c.uuid c.constructed c.shuffled
  have hdealt := dealHoleCards_dealt s.tableManager.heap
    ((Deck.new c.constructed).shuffle c.shuffled) [p, q]
  have hchair := chairOf_dealt hdealt
  have hid : ∀ r, ((dealHoleCards s.tableManager.heap
      ((Deck.new c.constructed).shuffle c.shuffled) [p, q]).1 r).id = (s.tableManager.heap r).id :=
    fun r => congrArg Chair.id (hchair r)
  simp only [startWhenReady, hready, hstart, Bool.not_true, Bool.false_eq_true, if_false, if_true]
  simp only [playOf, GameSession.hand, Play.start, hone, htwo, Option.map_some, hchair, dealOf,
    firstHand, hdealer, if_true, Option.elim_some, hid, chairOf_id]

section Joins
variable (h : TableInv Unfolded s.tableManager s.nextRef)
include h

/-- The state in which the new player has sat down. -/
theorem seatNewPlayer_sits {playerId : String} (hnew : s.tableManager.getPlayer playerId = none)
    (name : String) {seat : ℤ}
    (hseat : seat = seat1 ∧ s.tableManager.table.seat1 = none ∨
      seat = seat2 ∧ s.tableManager.table.seat2 = none) (session : SessionId) (c : Choices) :
    ∃ (s₁ : GameSession) (acked : List Effect),
      s.seatNewPlayer playerId name seat session c = s₁.startWhenReady c acked ∧
      s₁.tableManager.table = (if seat = seat1
        then { s.tableManager.table with seat1 := some s.nextRef }
        else { s.tableManager.table with seat2 := some s.nextRef }) ∧
      (∀ p ∈ s.tableManager.players, s₁.tableManager.heap p = s.tableManager.heap p) ∧
      chairOf (s₁.tableManager.heap s.nextRef) = .new playerId := by
  have hok := assignSeat_new h hnew name hseat
  have hdiff : ¬seat2 = seat1 := by decide
  obtain ⟨-, table, heap, htm, hothers, hself, htable⟩ := assignSeat_cases hok
  refine ⟨{ s with
    tableManager := ⟨table, s.tableManager.players ++ [s.nextRef], heap⟩
    nextRef := s.nextRef + 1 }, [.seated s.nextRef, .send session (.joinAck playerId seat)],
    ?_, ?_, fun p hp => ?_, ?_⟩
  · simp only [seatNewPlayer, hok, htm, Bool.not_true, Bool.false_eq_true, if_false]
    rfl
  · rcases htable with ⟨rfl, -, rfl⟩ | ⟨rfl, -, rfl⟩
    · rw [if_pos rfl]
      rfl
    · rw [if_neg hdiff]
      rfl
  · have hne : p ≠ s.nextRef := (h.fresh p hp).ne
    exact (hothers p hne).trans (Function.update_of_ne hne ..)
  · show chairOf (heap s.nextRef) = _
    rw [hself]
    simp [updatePlayer, newPlayer, chairOf, Chair.new]

theorem sits_plays (horder : SeatOrder s.tableManager.table) {session : SessionId}
    {playerId : String} (hsession : s.sessionToPlayer.lookup session = some playerId)
    (name : String) (c : Choices) :
    playOf (s.joinAsNew name session c).state = (playOf s).sit playerId c.uuid := by
  have hmem : (∃ x ∈ (playOf s).chairs, x.id = playerId) ↔
      ∃ p ∈ s.tableManager.players, (s.tableManager.heap p).id = playerId := by
    simp only [mem_chairs h]
    constructor
    · rintro ⟨_, ⟨p, hp, rfl⟩, hid⟩
      exact ⟨p, hp, hid⟩
    · rintro ⟨p, hp, hid⟩
      exact ⟨_, ⟨p, hp, rfl⟩, hid⟩
  cases hget : s.tableManager.getPlayer playerId with
  | some existing =>
    obtain ⟨hp, hid⟩ := getPlayer_mem hget
    rw [Play.sit, if_pos (hmem.mpr ⟨existing, hp, hid⟩)]
    simp only [joinAsNew, hsession, hget]
  | none =>
    have hnot : ¬∃ x ∈ (playOf s).chairs, x.id = playerId := by
      rw [hmem]
      rintro ⟨p, hp, hid⟩
      exact getPlayer_eq_none_iff.mp hget p hp hid
    rw [Play.sit, if_neg hnot]
    cases hone : s.tableManager.table.seat1 with
    | none =>
      have htwo := horder.first hone
      have hnone : s.tableManager.table.currentHand = none := (h.of_free_seat (.inl hone)).1
      obtain ⟨s₁, acked, heq, htable, -, hchair⟩ :=
        seatNewPlayer_sits h hget name (.inl ⟨rfl, hone⟩) session c
      rw [if_pos rfl] at htable
      have hwaits := startWhenReady_waits (s := s₁) (by rw [htable]; exact htwo) c acked
      simp only [joinAsNew, hsession, hget, hone, if_true, heq, hwaits]
      simp only [playOf, GameSession.hand, htable, hone, htwo, hnone, Option.map_some,
        Option.map_none, hchair, Play.start]
    | some p =>
      cases htwo : s.tableManager.table.seat2 with
      | some q =>
        simp only [joinAsNew, hsession, hget, hone, htwo, reduceCtorEq, if_false]
        show playOf s = _
        simp only [playOf, hone, htwo, Option.map_some]
      | none =>
        have hnone : s.tableManager.table.currentHand = none := (h.of_free_seat (.inr htwo)).1
        have hp := h.mem_players_iff.mpr (.inl hone)
        obtain ⟨s₁, acked, heq, htable, hothers, hchair⟩ :=
          seatNewPlayer_sits h hget name (.inr ⟨rfl, htwo⟩) session c
        rw [if_neg (by decide)] at htable
        have hstarts := startWhenReady_plays (s := s₁) (p := p) (q := s.nextRef)
          (by rw [htable]; exact h.idle hnone) (by rw [GameSession.hand, htable]; exact hnone)
          (by rw [htable]; exact hone) (by rw [htable]) (by rw [htable]; exact horder.dealer htwo)
          c acked
        simp only [joinAsNew, hsession, hget, hone, htwo, reduceCtorEq, if_false, if_true, heq]
        rw [hstarts]
        simp only [playOf, GameSession.hand, htable, hone, htwo, hnone, Option.map_some,
          Option.map_none, hchair, hothers p hp]

end Joins

/-! ### Actions -/

theorem other_spec {players : List PlayerRef} {hand : Hand} (hplay : Playing players hand)
    {player : PlayerRef} (hmem : player ∈ hand.players) :
    ∃ other ∈ hand.players, otherPlayer hand.players player = some other ∧ other ≠ player ∧
      ∀ r ∈ hand.players, r ≠ player → r = other := by
  obtain ⟨p, q, hpq, hne, -⟩ := hplay.two
  rw [hpq] at hmem ⊢
  rcases List.mem_pair.mp hmem with rfl | rfl
  · exact ⟨q, by simp, by simp [otherPlayer, hne.symm], hne.symm, by simp⟩
  · exact ⟨p, by simp, by simp [otherPlayer, hne], hne, by simp⟩

section Allowed
variable (h : TableInv Unfolded s.tableManager s.nextRef) {hand : Hand} (hhand : s.hand = some hand)
include h hhand

/-- The rules allow what the server validates. -/
theorem allowed_iff {playerId action : String} {amount : ℤ} :
    ((dealOf s.tableManager.heap hand).turn = playerId ∧ ∃ x ∈ (playOf s).chairs, x.id = playerId ∧
      x.Allows (dealOf s.tableManager.heap hand) action amount) ↔
    ∃ player, s.tableManager.getPlayer playerId = some player ∧
      PlayerAction.validateAction s.tableManager.heap hand player action amount = true := by
  obtain ⟨hplay, hun⟩ := h.playing hand hhand
  obtain ⟨turn, hmem, hturn⟩ := hplay.turn
  have hturn' : (dealOf s.tableManager.heap hand).turn = (s.tableManager.heap turn).id := by
    rw [dealOf, hturn]
    rfl
  have hcan : (s.tableManager.heap turn).canAct = true ↔
      (chairOf (s.tableManager.heap turn)).connected = true ∧
        (chairOf (s.tableManager.heap turn)).sittingOut = false := by
    simp [Player.canAct, chairOf]
  have hidx : ∃ i, hand.players.idxOf? turn = some i ∧ hand.folded.getD i false = false :=
    (Contested.onTurn (.inl hun) hplay hturn)
  have hsolvent := h.solvent turn (hplay.mem turn hmem)
  have hstack : (chairOf (s.tableManager.heap turn)).stack = (s.tableManager.heap turn).stack := rfl
  have hmin : (dealOf s.tableManager.heap hand).minRaise = hand.minRaise := rfl
  have hget := h.getPlayer (hplay.mem turn hmem)
  rw [hturn']
  constructor
  · intro hh
    obtain ⟨rfl, x, hx, hid, hconn, hsits, hact⟩ := hh
    obtain ⟨p, hp, rfl⟩ := (mem_chairs h).mp hx
    obtain rfl : p = turn := (id_eq_iff h hget hp).mp hid
    refine ⟨p, hget, PlayerAction.validateAction_iff.mpr
      ⟨PlayerAction.canAct_iff.mpr ⟨hcan.mpr ⟨hconn, hsits⟩, hidx⟩, hturn, hsolvent, ?_⟩⟩
    rw [hmin, hstack] at hact
    rcases hact with hfold | ⟨rfl | ⟨rfl, hle⟩, hge, hpay⟩
    · exact .inl hfold
    · exact .inr (.inl ⟨rfl, hge, hpay⟩)
    · exact .inr (.inr ⟨rfl, hge, hle, hpay⟩)
  · intro hh
    obtain ⟨player, hplayer, hvalid⟩ := hh
    obtain ⟨hcan', hturn'', -, hact⟩ := PlayerAction.validateAction_iff.mp hvalid
    obtain rfl := Option.some.inj (hturn.symm.trans hturn'')
    obtain ⟨hp, hid⟩ := getPlayer_mem hplayer
    obtain ⟨hconn, hsits⟩ := hcan.mp (PlayerAction.canAct_iff.mp hcan').1
    refine ⟨hid, _, (mem_chairs h).mpr ⟨turn, hp, rfl⟩, hid, hconn, hsits, ?_⟩
    rw [hmin, hstack]
    rcases hact with hfold | ⟨rfl, hge, hpay⟩ | ⟨rfl, hge, hle, hpay⟩
    · exact .inl hfold
    · exact .inr ⟨.inl rfl, hge, hpay⟩
    · exact .inr ⟨.inr ⟨rfl, hle⟩, hge, hpay⟩

/-- In a hand both seats are taken, by its players. -/
theorem chairs_of_hand : ∃ p q, s.tableManager.table.seat1 = some p ∧
    s.tableManager.table.seat2 = some q ∧ p ∈ hand.players ∧ q ∈ hand.players ∧ p ≠ q := by
  obtain ⟨hone, htwo⟩ := h.both (Option.isSome_iff_exists.mpr ⟨hand, hhand⟩)
  obtain ⟨p, q, hp, hq, hpair⟩ := h.pair hone htwo
  have hperm := hpair.trans (h.hand_players hhand).symm
  have hnd := hperm.nodup_iff.mpr (h.playing hand hhand).1.nodup
  exact ⟨p, q, hp, hq, hperm.mem_iff.mp (by simp), hperm.mem_iff.mp (by simp), by simpa using hnd⟩

theorem otherThan_turn {player other : PlayerRef} (hplayer : player ∈ hand.players)
    (hother : other ∈ hand.players) (hne : other ≠ player) :
    (playOf s).otherThan (s.tableManager.heap player).id = (s.tableManager.heap other).id := by
  obtain ⟨hplay, -⟩ := h.playing hand hhand
  have hget := h.getPlayer (hplay.mem player hplayer)
  have hid : ∀ r ∈ hand.players,
      ((s.tableManager.heap r).id = (s.tableManager.heap player).id ↔ r = player) :=
    fun r hr => id_eq_iff h hget (hplay.mem r hr)
  obtain ⟨first, hfirst, -, hne', honly⟩ := other_spec hplay hplayer
  obtain rfl := honly other hother hne
  obtain ⟨p, q, hp, hq, hpmem, hqmem, hpq⟩ := chairs_of_hand h hhand
  simp only [Play.otherThan, Play.chairs, playOf, hp, hq, Option.map_some, Option.toList_some,
    List.singleton_append]
  by_cases hsame : p = player
  · have hqother : q = other := honly q hqmem fun hqp => hpq (hsame.trans hqp.symm)
    have hother' := (hid other hother).not.mpr hne
    simp [hsame, hqother, hother']
  · have hpother : p = other := honly p hpmem hsame
    have hother' := (hid other hother).not.mpr hne
    simp [hpother, hother']

end Allowed

/-! ### The end of a hand -/

theorem chairOf_credit (heap : Heap) (player : PlayerRef) (amount : ℤ) (p : PlayerRef) :
    chairOf (heap.credit (Pi.single player amount) p)
      = if p = player then (chairOf (heap p)).win amount else chairOf (heap p) := by
  by_cases hp : p = player
  · rw [if_pos hp, hp]
    simp only [Heap.credit, Pi.single_eq_same, chairOf, Chair.win]
  · rw [if_neg hp]
    simp only [Heap.credit, Pi.single_eq_of_ne hp, add_zero, chairOf]

section Ends
variable (h : TableInv Contested s.tableManager s.nextRef) {hand : Hand}
  (hhand : s.hand = some hand)
include h hhand

/-- The hand goes on, or who is left in it takes the pot and all are topped up. -/
theorem afterAction_state (c : Choices) (applied : List Effect) :
    (s.afterAction c applied).state = if (activePlayers hand).length ≤ 1
      then { s with tableManager := (s.tableManager.endHand c.tables).1 } else s := by
  have hcurrent : s.tableManager.table.currentHand = some hand := hhand
  obtain ⟨hplay, -⟩ := h.playing hand hhand
  obtain ⟨turn, -, hturn⟩ := hplay.turn
  simp only [afterAction, hcurrent, hturn, isHandComplete_playing hplay]
  by_cases hfew : (activePlayers hand).length ≤ 1
  · obtain ⟨completed, hcompleted⟩ := broadcastHandCompleted_ok h hcurrent hfew c
    simp only [hfew, hcompleted, decide_true, Bool.not_true, Bool.false_eq_true, if_false, if_true]
  · simp only [hfew, decide_false, Bool.not_false, if_true, if_false]

theorem endHand_plays {winner : PlayerRef} (hone : activePlayers hand = [winner]) (σ : MapOrder) :
    let ended := (s.tableManager.endHand σ).1
    ended.table.seat1 = s.tableManager.table.seat1 ∧
      ended.table.seat2 = s.tableManager.table.seat2 ∧ ended.table.currentHand = none ∧
      ∀ p ∈ s.tableManager.players, chairOf (ended.heap p) =
        (if p = winner then (chairOf (s.tableManager.heap p)).win hand.pot
          else chairOf (s.tableManager.heap p)).topUp := by
  have hcurrent : s.tableManager.table.currentHand = some hand := hhand
  obtain ⟨hplay, -⟩ := h.playing hand hhand
  have hwin : Poker.determineWinners σ s.tableManager.heap hand = .ok [winner] :=
    determineWinners_of_single hone
  have hpaid := @distributePot_single { hand with winners := [winner] } hplay.pot hplay.sidePots
    s.tableManager.heap winner
  simp only [TableManager.endHand, hcurrent, hwin, hpaid, true_and]
  intro p hp
  rw [topUpAll_apply h.nodup, if_pos hp, chairOf_topUp, chairOf_credit]

end Ends

/-! ### An accepted action -/

def played (s : GameSession) (heap : Heap) (hand : Hand) : GameSession :=
  { s with tableManager := { s.tableManager with
      heap
      table := { s.tableManager.table with currentHand := some hand, pot := hand.pot } } }

section Acted
variable (h : TableInv Unfolded s.tableManager s.nextRef) {hand hand' : Hand}
  (hhand : s.hand = some hand) {heap : Heap} {player : PlayerRef} {action : String} {amount : ℤ}
  {now : ℕ} (happly : PlayerAction.applyAction s.tableManager.heap hand player action amount now
    = (true, heap, hand'))
include h hhand happly

theorem played_inv : TableInv Contested (played s heap hand').tableManager s.nextRef := by
  have hcan := (PlayerAction.applyAction_cases happly).2.1
  obtain ⟨hplay, -⟩ := h.playing hand hhand
  obtain ⟨turn, hmem, hturn⟩ := hplay.turn
  obtain rfl := Option.some.inj (hturn.symm.trans hcan)
  obtain ⟨heap₁, hand₁, happly₁, hyes⟩ := accepted_of_valid hhand
    (h.getPlayer (hplay.mem turn hmem)) (PlayerAction.valid_of_applyAction happly) now
  obtain ⟨rfl, rfl⟩ := Prod.mk.inj (Prod.mk.inj (happly.symm.trans happly₁)).2
  have hinv := (h.processPlayerAction (by rw [hyes])).1
  rw [hyes] at hinv
  exact hinv

theorem played_turn : ∃ other ∈ hand.players, player ∈ hand.players ∧ other ≠ player ∧
    hand.currentPlayerToAct = some player ∧ hand'.currentPlayerToAct = some other ∧
    ∀ r ∈ hand.players, r ≠ player → r = other := by
  obtain ⟨hplay, -⟩ := h.playing hand hhand
  have hcan := (PlayerAction.applyAction_cases happly).2.1
  obtain ⟨turn, hmem, hturn⟩ := hplay.turn
  obtain rfl := Option.some.inj (hturn.symm.trans hcan)
  obtain ⟨other, hother, -, hne, honly⟩ := other_spec hplay hmem
  exact ⟨other, hother, hmem, hne, hturn, (applied_turn hplay happly other).mpr ⟨hother, hne⟩,
    honly⟩

theorem fold_plays (hfold : action = "fold") (c : Choices) (applied : List Effect) :
    playOf ((played s heap hand').afterAction c applied).state
      = (playOf s).fold (dealOf s.tableManager.heap hand) := by
  obtain ⟨hplay, hun⟩ := h.playing hand hhand
  have hinv := played_inv h hhand happly
  obtain ⟨other, hother, hplayer, hne, hturn, hnext, honly⟩ := played_turn h hhand happly
  have hfew := (applied_ends hplay happly hun).mpr hfold
  obtain ⟨hplay', hcon⟩ := hinv.playing hand' rfl
  have hone : activePlayers hand' = [other] := by
    rcases hcon with hun' | ⟨winner, hwon, hone⟩
    · obtain ⟨a, b, hab, -⟩ := hplay'.two
      simp [hun'.activePlayers hab] at hfew
    · rw [hone, Option.some.inj (hnext.symm.trans hwon)]
  obtain ⟨hseat1, hseat2, hnone, hchair⟩ := endHand_plays hinv rfl hone c.tables
  have hsame : heap = s.tableManager.heap ∧ hand'.pot = hand.pot := by
    rcases (PlayerAction.applyAction_cases happly).2.2 with ⟨-, -, rfl, rfl⟩ | ⟨hbet, -⟩
    · exact ⟨rfl, rfl⟩
    · rcases hbet with rfl | ⟨rfl, -⟩ <;> exact absurd hfold (by decide)
  obtain ⟨rfl, hpot⟩ := hsame
  obtain ⟨p, q, hp, hq, hpmem, hqmem, hpq⟩ := chairs_of_hand h hhand
  have hget := h.getPlayer (hplay.mem player hplayer)
  have hwins : ∀ r ∈ hand.players,
      chairOf (((played s s.tableManager.heap hand').tableManager.endHand c.tables).1.heap r)
        = (if (chairOf (s.tableManager.heap r)).id = (s.tableManager.heap player).id
            then chairOf (s.tableManager.heap r)
            else (chairOf (s.tableManager.heap r)).win hand.pot).topUp := by
    intro r hr
    have hid : (chairOf (s.tableManager.heap r)).id = (s.tableManager.heap player).id
        ↔ r = player := id_eq_iff h hget (hplay.mem r hr)
    rw [hchair r (hplay.mem r hr), hpot]
    by_cases hrp : r = player
    · rw [if_pos (hid.mpr hrp), if_neg fun hro => hne (hro.symm.trans hrp)]
      rfl
    · rw [if_neg fun hh => hrp (hid.mp hh), if_pos (honly r hr hrp)]
      rfl
  have hp' : (played s s.tableManager.heap hand').tableManager.table.seat1 = some p := hp
  have hq' : (played s s.tableManager.heap hand').tableManager.table.seat2 = some q := hq
  rw [afterAction_state hinv rfl, if_pos hfew]
  simp only [playOf, GameSession.hand, hseat1, hseat2, hnone, hp', hq', hp, hq, Option.map_some,
    Option.map_none, hwins p hpmem, hwins q hqmem, Play.fold, Play.change, dealOf, hturn,
    Option.elim_some]

theorem bet_plays (hbet : action ≠ "fold") (c : Choices) (applied : List Effect) :
    playOf ((played s heap hand').afterAction c applied).state
      = (playOf s).bet (dealOf s.tableManager.heap hand) action amount := by
  obtain ⟨hplay, hun⟩ := h.playing hand hhand
  have hinv := played_inv h hhand happly
  obtain ⟨other, hother, hplayer, hne, hturn, hnext, honly⟩ := played_turn h hhand happly
  have hmany := (applied_ends hplay happly hun).not.mpr hbet
  have hids : ∀ r, (heap r).id = (s.tableManager.heap r).id :=
    fun r => congrArg Presence.id (applyAction_presence happly r)
  obtain ⟨p, q, hp, hq, hpmem, hqmem, hpq⟩ := chairs_of_hand h hhand
  have hget := h.getPlayer (hplay.mem player hplayer)
  have hdeal : dealOf heap hand' = { dealOf s.tableManager.heap hand with
      turn := (s.tableManager.heap other).id
      pot := hand.pot + amount
      minRaise := if action = "raise" then amount else hand.minRaise } := by
    have hturn' : (dealOf heap hand').turn = (s.tableManager.heap other).id := by
      rw [dealOf, hnext, Option.elim_some, hids]
    rcases (PlayerAction.applyAction_cases happly).2.2 with ⟨hfold, -⟩ | ⟨-, -, -, -, rfl⟩
    · exact absurd hfold hbet
    · rw [← hturn']
      rfl
  have hpays : ∀ r ∈ hand.players, chairOf (heap r)
      = if (chairOf (s.tableManager.heap r)).id = (s.tableManager.heap player).id
        then (chairOf (s.tableManager.heap r)).pay amount else chairOf (s.tableManager.heap r) := by
    intro r hr
    have hid : (chairOf (s.tableManager.heap r)).id = (s.tableManager.heap player).id
        ↔ r = player := id_eq_iff h hget (hplay.mem r hr)
    rcases (PlayerAction.applyAction_cases happly).2.2 with ⟨hfold, -⟩ | ⟨-, -, -, rfl, -⟩
    · exact absurd hfold hbet
    · rw [PlayerAction.placeBet, chairOf_credit]
      by_cases hrp : r = player
      · rw [if_pos hrp, if_pos (hid.mpr hrp), Chair.win, Chair.pay, sub_eq_add_neg]
      · rw [if_neg hrp, if_neg fun hh => hrp (hid.mp hh)]
  rw [afterAction_state hinv rfl, if_neg hmany]
  have hon : (dealOf s.tableManager.heap hand).turn = (s.tableManager.heap player).id := by
    rw [dealOf, hturn, Option.elim_some]
  rw [Play.bet, hon, otherThan_turn h hhand hplayer hother hne]
  simp only [playOf, played, GameSession.hand, hp, hq, Option.map_some, hpays p hpmem,
    hpays q hqmem, hdeal, Play.changeOne, Play.change]
  rfl

end Acted

theorem acts_plays (h : TableInv Unfolded s.tableManager s.nextRef) {session : SessionId}
    {playerId : String} (hsession : s.sessionToPlayer.lookup session = some playerId)
    (handId action : String) (amount : ℤ) (c : Choices) :
    playOf (s.performAction handId action amount session c).state
      = (playOf s).act playerId handId action amount := by
  cases hhand : s.hand with
  | none =>
    have hcurrent : s.tableManager.table.currentHand = none := hhand
    have hdeal : (playOf s).deal = none := by simp only [playOf, hhand, Option.map_none]
    simp only [performAction, hsession, hcurrent, Play.act, hdeal]
    rfl
  | some hand =>
    have hcurrent : s.tableManager.table.currentHand = some hand := hhand
    have hdeal : (playOf s).deal = some (dealOf s.tableManager.heap hand) := by
      simp only [playOf, hhand, Option.map_some]
    by_cases hid : hand.id = handId
    · have hallowed := @allowed_iff s h hand hhand playerId action amount
      by_cases hvalid : ∃ player, s.tableManager.getPlayer playerId = some player ∧
          PlayerAction.validateAction s.tableManager.heap hand player action amount = true
      · obtain ⟨player, hget, hok⟩ := hvalid
        obtain ⟨heap, hand', happly, hyes⟩ := accepted_of_valid hcurrent hget hok c.now
        have hrun : ∃ applied, s.performAction handId action amount session c
            = (played s heap hand').afterAction c applied := by
          simp only [performAction, hsession, hcurrent, hid, hyes, ne_eq, not_true_eq_false,
            Bool.not_true, Bool.false_eq_true, if_false]
          exact ⟨_, rfl⟩
        obtain ⟨applied, hrun⟩ := hrun
        rw [hrun, Play.act_eq hdeal, if_pos ⟨hid, hallowed.mpr ⟨player, hget, hok⟩⟩]
        by_cases hfold : action = "fold"
        · rw [if_pos hfold]
          exact fold_plays h hhand happly hfold c applied
        · rw [if_neg hfold]
          exact bet_plays h hhand happly hfold c applied
      · have hno : (s.tableManager.processPlayerAction playerId action amount c.now).1 = false := by
          rw [← Bool.not_eq_true, processPlayerAction_iff]
          rintro ⟨hand₁, player, hhand₁, hget, hok⟩
          obtain rfl := Option.some.inj (hcurrent.symm.trans hhand₁)
          exact hvalid ⟨player, hget, hok⟩
        rw [Play.act_eq hdeal, if_neg fun hh => hvalid (hallowed.mp hh.2)]
        simp only [performAction, hsession, hcurrent, hid, hno, ne_eq, not_true_eq_false,
          Bool.not_false, if_true, if_false]
        rfl
    · have hid' : ¬(dealOf s.tableManager.heap hand).id = handId := hid
      simp only [performAction, hsession, hcurrent, Play.act, hdeal, ne_eq, hid, hid',
        not_false_eq_true, if_true, false_and, if_false]
      rfl

/-! ### Steps -/

theorem payloadOf_unique {json payload payload' : Json} {type type' : String}
    (h : payloadOf json type = some payload) (h' : payloadOf json type' = some payload') :
    type = type' ∧ payload = payload' := by
  obtain ⟨htype, hpayload⟩ := payloadOf_eq_some.mp h
  obtain ⟨htype', hpayload'⟩ := payloadOf_eq_some.mp h'
  rw [htype] at htype'
  rw [hpayload] at hpayload'
  exact ⟨Except.ok.inj htype', Except.ok.inj hpayload'⟩

theorem asksTopUp_iff {json : Json} :
    asksTopUp json = true ↔ ∃ payload, payloadOf json "top_up" = some payload := by
  simp only [payloadOf_eq_some]
  unfold asksTopUp
  cases readString json "type" with
  | error e => simp
  | ok type =>
    cases json.get "payload" with
    | error e => simp
    | ok payload => simp

theorem join_plays (h : TableInv Unfolded s.tableManager s.nextRef)
    (horder : SeatOrder s.tableManager.table) {json payload : Json} {name provided : String}
    (hpayload : payloadOf json "join" = some payload)
    (hfields : joinFields payload = .ok (name, provided)) (session : SessionId) (c : Choices) :
    playOf (s.handleJoin payload session c).state
      = (askOf s (.message session (some json) c)).elim (playOf s) (playOf s).next := by
  have hjoin : joinOf json = some (name, provided) :=
    joinOf_eq_some.mpr ⟨payload, hpayload, hfields⟩
  cases habsent : s.absentPlayer provided with
  | some player =>
    by_cases hfree : ∀ other ∈ s.playerSessions.lookup provided, other = session
    · have heq := reconnect_eq hfree player c
      simp only [handleJoin, hfields, habsent, heq, askOf, hjoin]
      rw [if_pos hfree]
      exact returns_plays h habsent session c
    · have hask := hfree
      push Not at hfree
      obtain ⟨other, hother, hne⟩ := hfree
      simp only [askOf, hjoin, habsent, if_neg hask]
      rw [Option.mem_def] at hother
      simp only [handleJoin, hfields, habsent, reconnect, hother, hne, ne_eq, not_false_eq_true,
        if_true]
      rfl
  | none =>
    simp only [handleJoin, hfields, habsent, askOf, hjoin]
    cases hsession : s.sessionToPlayer.lookup session with
    | none =>
      simp only [joinAsNew, hsession]
      rfl
    | some playerId => exact sits_plays h horder hsession name c

/-- A message does what it asks for. -/
theorem dispatch_plays (h : TableInv Unfolded s.tableManager s.nextRef)
    (horder : SeatOrder s.tableManager.table) (json : Json) (session : SessionId) (c : Choices) :
    playOf (s.dispatch json session c).state
      = (askOf s (.message session (some json) c)).elim (playOf s) (playOf s).next := by
  have hstays : ∀ e, (s.stop session e).state = s := by
    intro e
    cases e <;> rfl
  cases hj : payloadOf json "join" with
  | some payload =>
    have hact : actionOf json c = none := by
      rw [actionOf, Option.bind_eq_none_iff]
      intro payload' ha
      exact absurd (payloadOf_unique hj ha).1 (by decide)
    have htop : asksTopUp json = false := by
      rw [← Bool.not_eq_true, asksTopUp_iff]
      rintro ⟨payload', ht⟩
      exact absurd (payloadOf_unique hj ht).1 (by decide)
    rw [dispatch_of_payload hj, if_pos rfl]
    cases hfields : joinFields payload with
    | ok fields => exact join_plays h horder hj hfields session c
    | error e =>
      have hjoin : joinOf json = none := by
        rw [joinOf, hj, Option.bind_some, hfields]
        rfl
      simp only [handleJoin, hfields, askOf, hjoin, hact, htop, hstays]
      rfl
  | none =>
    have hjoin : joinOf json = none := by rw [joinOf, hj, Option.bind_none]
    cases ha : payloadOf json "action" with
    | some payload =>
      have htop : asksTopUp json = false := by
        rw [← Bool.not_eq_true, asksTopUp_iff]
        rintro ⟨payload', ht⟩
        exact absurd (payloadOf_unique ha ht).1 (by decide)
      rw [dispatch_of_payload ha, if_neg (by decide), if_pos rfl]
      cases hfields : actionFields payload c with
      | error e =>
        have hact : actionOf json c = none := by
          rw [actionOf, ha, Option.bind_some, hfields]
          rfl
        simp only [handleAction, hfields, askOf, hjoin, hact, htop, hstays]
        rfl
      | ok fields =>
        obtain ⟨handId, action, amount⟩ := fields
        have hact : actionOf json c = some (handId, action, amount) :=
          actionOf_eq_some.mpr ⟨payload, ha, hfields⟩
        simp only [handleAction, hfields, askOf, hjoin, hact]
        cases hsession : s.sessionToPlayer.lookup session with
        | none =>
          simp only [performAction, hsession]
          rfl
        | some playerId => exact acts_plays h hsession handId action amount c
    | none =>
      have hact : actionOf json c = none := by rw [actionOf, ha, Option.bind_none]
      simp only [askOf, hjoin, hact]
      rcases dispatch_cases s json session c with
        ⟨htop, heq⟩ | ⟨htop, ⟨payload, hp, -⟩ | ⟨payload, hp, -⟩ | heq | ⟨e, heq⟩⟩
      · rw [heq, if_pos htop]
        cases hsession : s.sessionToPlayer.lookup session with
        | none =>
          simp only [handleTopUp, hsession]
          rfl
        | some playerId => exact tops_plays h hsession
      · cases hj.symm.trans hp
      · cases ha.symm.trans hp
      · rw [heq, htop]
        rfl
      · rw [heq, htop, hstays]
        rfl

theorem step_plays (h : TableInv Unfolded s.tableManager s.nextRef)
    (horder : SeatOrder s.tableManager.table) (e : Event) :
    playOf (s.step e).1 = (askOf s e).elim (playOf s) (playOf s).next := by
  cases e with
  | connect session playerId => rfl
  | message session text c =>
    cases text with
    | none =>
      simp only [step, handleMessage, caught_state]
      rfl
    | some json =>
      simp only [step, handleMessage, caught_state]
      exact dispatch_plays h horder json session c
  | disconnect session c =>
    simp only [step, askOf]
    cases hsession : s.sessionToPlayer.lookup session with
    | none =>
      simp only [onDisconnect, hsession]
      rfl
    | some playerId => exact leaves_plays h hsession c
  | timerExpires i => rfl
  | timerRuns i c =>
    simp only [step, askOf]
    cases htaken : (s.connections.take i).1 with
    | none => rfl
    | some callback =>
      cases callback with
      | graceTimerExpired playerId =>
        exact sitsOut_plays (s := { s with connections := (s.connections.take i).2 }) h playerId
      | playerRemoved playerId => rfl

/-- After any events the table stands as the rules have it after what the events
asked for, and nothing else decides it. -/
theorem plays_by_the_rules (config : Config) (es : List Event) :
    playOf ((machine config).run es) = rules.run ((machine config).labels askOf es) :=
  (machine config).abs_run rules askOf rfl
    (fun es e => step_plays (run_inv config es) (run_seatOrder config es) e) es

end HeadsUp.Game
