import HeadsUp.Server.TableStakes

/-!
# What an event can do

Each event of a game session makes one of a few moves. The move says who is
seated and present afterwards, what became of the session maps, the timers and
the hand; the invariants of the later modules are cases on it.
-/

namespace HeadsUp.Server
open HeadsUp.Core HeadsUp.Common HeadsUp.Lib

/-! ### Presence -/

/-- What the disconnection code reads and writes of a player. -/
structure Presence where
  id : String
  connectionStatus : ConnectionStatus
  disconnectedAt : Option ℕ
  isSittingOut : Bool
  deriving DecidableEq, Repr

def presence (x : Player) : Presence :=
  ⟨x.id, x.connectionStatus, x.disconnectedAt, x.isSittingOut⟩

theorem presence_topUp (x : Player) : presence x.topUp = presence x := by
  unfold Player.topUp
  split_ifs <;> rfl

theorem Credited.presence {heap heap' : Heap} (h : heap.Credited heap') (p : PlayerRef) :
    Server.presence (heap' p) = Server.presence (heap p) := by
  obtain ⟨won, rfl, -⟩ := h
  rfl

theorem Dealt.presence {heap heap' : Heap} (h : heap.Dealt heap') (p : PlayerRef) :
    Server.presence (heap' p) = Server.presence (heap p) := by
  obtain ⟨cards, hc⟩ := h p
  rw [hc]
  rfl

theorem applyAction_presence {heap heap' : Heap} {hand hand' : Hand} {player : PlayerRef}
    {action : String} {amount : ℤ} {now : ℕ}
    (happly : PlayerAction.applyAction heap hand player action amount now = (true, heap', hand'))
    (p : PlayerRef) : presence (heap' p) = presence (heap p) := by
  obtain ⟨-, -, hact⟩ := PlayerAction.applyAction_cases happly
  rcases hact with ⟨-, -, rfl, -⟩ | ⟨-, -, -, rfl, -⟩ <;> rfl

theorem presence_update (heap : Heap) (player : PlayerRef) (x : Player) (p : PlayerRef) :
    presence (Function.update heap player x p)
      = if p = player then presence x else presence (heap p) := by
  by_cases hp : p = player
  · rw [if_pos hp, hp, Function.update_self]
  · rw [if_neg hp, Function.update_of_ne hp]

namespace GameSession

/-- The players, their presence, the maps and the timers stay. -/
structure Rests (s s' : GameSession) : Prop where
  players : s'.tableManager.players = s.tableManager.players
  presence : ∀ p, presence (s'.tableManager.heap p) = presence (s.tableManager.heap p)
  seats : s'.tableManager.table.seat1 = s.tableManager.table.seat1 ∧
    s'.tableManager.table.seat2 = s.tableManager.table.seat2
  sessions : SameSessions s s'
  connections : s'.connections = s.connections

theorem Rests.refl (s : GameSession) : Rests s s :=
  ⟨rfl, fun _ => rfl, ⟨rfl, rfl⟩, ⟨rfl, rfl⟩, rfl⟩

/-! ### What a message asks for -/

/-- The name and the id a join message gives, past the checks on it alone. -/
def joinOf (json : Json) : Option (String × String) :=
  (payloadOf json "join").bind fun payload => (joinFields payload).toOption

def actionOf (json : Json) (c : Choices) : Option (String × String × ℤ) :=
  (payloadOf json "action").bind fun payload => (actionFields payload c).toOption

theorem toOption_eq_some {ε α : Type*} {x : Except ε α} {a : α} :
    x.toOption = some a ↔ x = .ok a := by
  cases x <;> simp [Except.toOption]

theorem joinOf_eq_some {json : Json} {fields : String × String} :
    joinOf json = some fields ↔
      ∃ payload, payloadOf json "join" = some payload ∧ joinFields payload = .ok fields := by
  simp only [joinOf, Option.bind_eq_some_iff, toOption_eq_some]

theorem actionOf_eq_some {json : Json} {c : Choices} {fields : String × String × ℤ} :
    actionOf json c = some fields ↔
      ∃ payload, payloadOf json "action" = some payload ∧ actionFields payload c = .ok fields := by
  simp only [actionOf, Option.bind_eq_some_iff, toOption_eq_some]

/-! ### Moves -/

/-- A new player has taken the first free seat; the hand that may have started
is the first. -/
structure Seats (s s' : GameSession) (playerId : String) : Prop where
  players : s'.tableManager.players = s.tableManager.players ++ [s.nextRef]
  others : ∀ p, p ≠ s.nextRef →
    presence (s'.tableManager.heap p) = presence (s.tableManager.heap p)
  player : presence (s'.tableManager.heap s.nextRef) = ⟨playerId, .connected, none, false⟩
  seats : s.tableManager.table.seat1 = none ∧ s'.tableManager.table.seat1 = some s.nextRef ∧
      s'.tableManager.table.seat2 = s.tableManager.table.seat2 ∨
    s.tableManager.table.seat1 ≠ none ∧ s.tableManager.table.seat2 = none ∧
      s'.tableManager.table.seat1 = s.tableManager.table.seat1 ∧
      s'.tableManager.table.seat2 = some s.nextRef
  dealer : s'.tableManager.table.dealerButtonPosition = s.tableManager.table.dealerButtonPosition
  hand : ∀ hand, s'.hand = some hand → s'.tableManager.table.seat2.isSome = true ∧
    hand.currentPlayerToAct = if s.tableManager.table.dealerButtonPosition = 0
      then s'.tableManager.table.seat2 else s'.tableManager.table.seat1
  sessions : SameSessions s s'
  connections : s'.connections = s.connections

inductive Moves (s : GameSession) : Event → GameSession → Prop
  | welcomes (session : SessionId) (playerId : String) :
      Moves s (.connect session playerId) (s.registerSession playerId session)
  | rests {session : SessionId} {text : Option Json} {c : Choices} {s' : GameSession}
      (hrests : Rests s s') (htable : s'.tableManager.table = s.tableManager.table) :
      Moves s (.message session text c) s'
  | acts {session : SessionId} {json : Json} {c : Choices} {s' : GameSession}
      {handId action : String} {amount : ℤ} {playerId : String} {hand hand' : Hand}
      {player : PlayerRef} {heap : Heap}
      (haction : actionOf json c = some (handId, action, amount))
      (hsession : s.sessionToPlayer.lookup session = some playerId)
      (hhand : s.hand = some hand) (hid : hand.id = handId)
      (hget : s.tableManager.getPlayer playerId = some player)
      (happly : PlayerAction.applyAction s.tableManager.heap hand player action amount c.now
        = (true, heap, hand'))
      (hrests : Rests s s')
      (hafter : s'.hand = if (activePlayers hand').length ≤ 1 then none else some hand') :
      Moves s (.message session (some json) c) s'
  | seats {session : SessionId} {json : Json} {c : Choices} {s' : GameSession}
      {name provided playerId : String} (hjoin : joinOf json = some (name, provided))
      (habsent : s.absentPlayer provided = none)
      (hsession : s.sessionToPlayer.lookup session = some playerId)
      (hnew : s.tableManager.getPlayer playerId = none) (hseats : Seats s s' playerId) :
      Moves s (.message session (some json) c) s'
  | takes {session : SessionId} {json : Json} {c : Choices} {name provided : String}
      {player : PlayerRef} (hjoin : joinOf json = some (name, provided))
      (habsent : s.absentPlayer provided = some player)
      (hfree : ∀ other, s.playerSessions.lookup provided = some other → other = session) :
      Moves s (.message session (some json) c)
        (reconnect.reconnected s player provided session c).state
  | ignores {session : SessionId} {c : Choices}
      (hsession : s.sessionToPlayer.lookup session = none) : Moves s (.disconnect session c) s
  | drops {session : SessionId} {c : Choices} {playerId : String}
      (hsession : s.sessionToPlayer.lookup session = some playerId)
      (hget : s.tableManager.getPlayer playerId = none) :
      Moves s (.disconnect session c) (s.removeSession playerId)
  | leaves {session : SessionId} {c : Choices} {playerId : String} {player : PlayerRef}
      (hsession : s.sessionToPlayer.lookup session = some playerId)
      (hget : s.tableManager.getPlayer playerId = some player) :
      Moves s (.disconnect session c)
        (PlayerStateManager.onDisconnect (s.removeSession playerId) player c.now)
  | expires (i : ℕ) : Moves s (.timerExpires i) { s with connections := s.connections.expire i }
  | waits {i : ℕ} {c : Choices} (hnone : s.connections.ready[i]? = none) : Moves s (.timerRuns i c) s
  | runs {i : ℕ} {c : Choices} {callback : TimerCallback}
      (hready : s.connections.ready[i]? = some callback) :
      Moves s (.timerRuns i c)
        (onTimer { s with connections := (s.connections.take i).2 } c callback).1

variable {s : GameSession}

theorem Seats.getPlayer_ne_none {s' : GameSession} {playerId : String}
    (hseats : Seats s s' playerId) : s'.tableManager.getPlayer playerId ≠ none := by
  rw [Ne, getPlayer_eq_none_iff]
  intro hno
  refine hno s.nextRef ?_ (congrArg Presence.id hseats.player)
  rw [hseats.players]
  exact List.mem_append_right _ (List.mem_singleton_self _)

theorem disconnect_moves (session : SessionId) (c : Choices) :
    Moves s (.disconnect session c) (s.onDisconnect session c).state := by
  unfold onDisconnect
  cases hsession : s.sessionToPlayer.lookup session with
  | none => exact .ignores hsession
  | some playerId =>
    simp only [(removeSession_tableManager s playerId).1]
    cases hget : s.tableManager.getPlayer playerId with
    | none => exact .drops hsession hget
    | some player => exact .leaves hsession hget

theorem timerRuns_moves (i : ℕ) (c : Choices) :
    Moves s (.timerRuns i c) (s.step (.timerRuns i c)).1 := by
  cases hready : s.connections.ready[i]? with
  | none =>
    have hsame : (s.step (.timerRuns i c)).1 = s := by
      have hlen : s.connections.ready.length ≤ i := List.getElem?_eq_none_iff.mp hready
      simp only [step, ConnectionManager.take, hready, List.eraseIdx_of_length_le hlen]
    rw [hsame]
    exact .waits hready
  | some callback =>
    have hmove := Moves.runs (c := c) hready
    simpa only [step, ConnectionManager.take, hready] using hmove

theorem stop_rests (session : SessionId) (text : Option Json) (c : Choices) (e : Stop) :
    Moves s (.message session text c) (s.stop session e).state := by
  cases e <;> exact .rests (Rests.refl s) rfl

theorem topUp_moves (session : SessionId) (text : Option Json) (c : Choices) :
    Moves s (.message session text c) (s.handleTopUp session).state := by
  unfold handleTopUp
  split
  · exact .rests (Rests.refl s) rfl
  · split
    · exact .rests (Rests.refl s) rfl
    · rename_i player _
      have hpresence : ∀ p, presence ((s.updatePlayer player Player.topUp).tableManager.heap p)
          = presence (s.tableManager.heap p) := by
        intro p
        apply (presence_update s.tableManager.heap player _ p).trans
        rw [presence_topUp]
        split_ifs with hp
        · rw [hp]
        · rfl
      exact .rests ⟨rfl, hpresence, ⟨rfl, rfl⟩, ⟨rfl, rfl⟩, rfl⟩ rfl

/-! ### Actions -/

theorem Rests.trans {s s' s'' : GameSession} (h : Rests s s') (h' : Rests s' s'') : Rests s s'' where
  players := h'.players.trans h.players
  presence := fun p => (h'.presence p).trans (h.presence p)
  seats := ⟨h'.seats.1.trans h.seats.1, h'.seats.2.trans h.seats.2⟩
  sessions := ⟨h'.sessions.1.trans h.sessions.1, h'.sessions.2.trans h.sessions.2⟩
  connections := h'.connections.trans h.connections

theorem afterAction_rests (h : TableInv Contested s.tableManager s.nextRef) {hand : Hand}
    (hhand : s.hand = some hand) (c : Choices) (applied : List Effect) :
    Rests s (s.afterAction c applied).state ∧ (s.afterAction c applied).state.hand
      = if (activePlayers hand).length ≤ 1 then none else some hand := by
  have hcurrent : s.tableManager.table.currentHand = some hand := hhand
  obtain ⟨hplay, hcon⟩ := h.playing hand hcurrent
  unfold afterAction
  simp only [hcurrent, isHandComplete_playing hplay]
  by_cases hfew : (activePlayers hand).length ≤ 1
  · obtain ⟨completed, hcompleted⟩ := broadcastHandCompleted_ok h hcurrent hfew c
    obtain ⟨p, -, hone⟩ := hcon.single hplay hfew
    have hwin : Poker.determineWinners c.tables s.tableManager.heap hand = .ok [p] :=
      determineWinners_of_single hone
    have hcredited := endHand_credited h.nodup hplay.pot hplay.sidePots s.tableManager.heap [p]
    simp only [hfew, hcompleted, decide_true, Bool.not_true, Bool.false_eq_true, if_false, if_true,
      TableManager.endHand, hcurrent, hwin]
    exact ⟨⟨rfl, Credited.presence hcredited, ⟨rfl, rfl⟩, ⟨rfl, rfl⟩, rfl⟩, rfl⟩
  · simp only [hfew, decide_false, Bool.not_false, if_true, if_false]
    exact ⟨Rests.refl s, hhand⟩

theorem performAction_rests (h : TableInv Unfolded s.tableManager s.nextRef)
    {handId action playerId : String} {amount : ℤ} {hand after : Hand} {heap : Heap}
    {player : PlayerRef} {session : SessionId} {c : Choices}
    (hsession : s.sessionToPlayer.lookup session = some playerId) (hhand : s.hand = some hand)
    (hid : hand.id = handId)
    (happly : PlayerAction.applyAction s.tableManager.heap hand player action amount c.now
      = (true, heap, after))
    (hyes : s.tableManager.processPlayerAction playerId action amount c.now
      = (true, { s.tableManager with
          heap := heap
          table := { s.tableManager.table with currentHand := some after, pot := after.pot } })) :
    let s' := (s.performAction handId action amount session c).state
    Rests s s' ∧ s'.hand = if (activePlayers after).length ≤ 1 then none else some after := by
  have hcurrent : s.tableManager.table.currentHand = some hand := hhand
  have hinv := (h.processPlayerAction (by rw [hyes])).1
  rw [hyes] at hinv
  simp only [performAction, hsession, hcurrent, hyes, hid, ne_eq, not_true_eq_false, if_false,
    Bool.not_true, Bool.false_eq_true]
  obtain ⟨hrests, hafter⟩ := afterAction_rests (s := { s with tableManager := _ }) hinv rfl c
    (broadcastActionApplied _ c playerId action amount)
  have hacted : Rests s { s with tableManager := { s.tableManager with
      heap := heap
      table := { s.tableManager.table with currentHand := some after, pot := after.pot } } } :=
    ⟨rfl, applyAction_presence happly, ⟨rfl, rfl⟩, ⟨rfl, rfl⟩, rfl⟩
  exact ⟨hacted.trans hrests, hafter⟩

theorem action_moves (h : TableInv Unfolded s.tableManager s.nextRef) {json payload : Json}
    (hpayload : payloadOf json "action" = some payload) (session : SessionId) (c : Choices) :
    Moves s (.message session (some json) c) (s.handleAction payload session c).state := by
  unfold handleAction
  cases hfields : actionFields payload c with
  | error e => exact stop_rests session _ c e
  | ok fields =>
    obtain ⟨handId, action, amount⟩ := fields
    have haction : actionOf json c = some (handId, action, amount) :=
      actionOf_eq_some.mpr ⟨payload, hpayload, hfields⟩
    simp only
    cases hsession : s.sessionToPlayer.lookup session with
    | none =>
      simp only [performAction, hsession]
      exact .rests (Rests.refl s) rfl
    | some playerId =>
      cases hhand : s.tableManager.table.currentHand with
      | none =>
        simp only [performAction, hsession, hhand]
        exact .rests (Rests.refl s) rfl
      | some hand =>
        by_cases hid : hand.id = handId
        swap
        · simp only [performAction, hsession, hhand, ne_eq, hid, not_false_eq_true, if_true]
          exact .rests (Rests.refl s) rfl
        rcases processPlayerAction_cases s.tableManager playerId action amount c.now with
          hno | ⟨hand', player, heap, after, hhand', hget, happly, hyes⟩
        · simp only [performAction, hsession, hhand, hid, hno, ne_eq, not_true_eq_false, if_false,
            Bool.not_false, if_true]
          exact .rests (Rests.refl s) rfl
        · obtain rfl := Option.some.inj (hhand.symm.trans hhand')
          obtain ⟨hrests, hafter⟩ := performAction_rests h hsession hhand hid happly hyes
          exact .acts haction hsession hhand hid hget happly hrests hafter

theorem step_act (h : TableInv Unfolded s.tableManager s.nextRef) {json : Json}
    {action playerId : String} {amount : ℤ} {hand : Hand} {player : PlayerRef}
    {session : SessionId} {c : Choices} (hhand : s.hand = some hand)
    (haction : actionOf json c = some (hand.id, action, amount))
    (hsession : s.sessionToPlayer.lookup session = some playerId)
    (hget : s.tableManager.getPlayer playerId = some player)
    (hvalid : PlayerAction.validateAction s.tableManager.heap hand player action amount = true) :
    let s' := (s.step (.message session (some json) c)).1
    ∃ heap after, PlayerAction.applyAction s.tableManager.heap hand player action amount c.now
        = (true, heap, after) ∧ Rests s s' ∧
      s'.hand = if (activePlayers after).length ≤ 1 then none else some after := by
  obtain ⟨payload, hpayload, hfields⟩ := actionOf_eq_some.mp haction
  obtain ⟨heap, after, happly, hyes⟩ := accepted_of_valid hhand hget hvalid c.now
  obtain ⟨hrests, hafter⟩ := performAction_rests h hsession hhand rfl happly hyes
  refine ⟨heap, after, happly, ?_⟩
  simp only [step, handleMessage, caught_state, dispatch_of_payload hpayload, handleAction,
    hfields, if_true, String.reduceEq, if_false]
  exact ⟨hrests, hafter⟩

/-! ### Joins -/

theorem startWhenReady_rests (hnone : s.hand = none) (c : Choices) (acked : List Effect) :
    let s' := (s.startWhenReady c acked).state
    Rests s s' ∧
      s'.tableManager.table.dealerButtonPosition = s.tableManager.table.dealerButtonPosition ∧
      ∀ hand, s'.hand = some hand → s.tableManager.table.seat2.isSome = true ∧
        hand.currentPlayerToAct = if s.tableManager.table.dealerButtonPosition = 0
          then s.tableManager.table.seat2 else s.tableManager.table.seat1 := by
  intro s'
  by_cases hready : s.tableManager.table.isReadyForHand = true
  · obtain ⟨h1, h2⟩ := isReadyForHand_seats hready
    obtain ⟨p, hp⟩ := Option.isSome_iff_exists.mp h1
    obtain ⟨q, hq⟩ := Option.isSome_iff_exists.mp h2
    have hstart := startHand_eq hready hnone hp hq c.uuid c.constructed c.shuffled
    have hs' : s' = { s with
        tableManager := (s.tableManager.startHand c.uuid c.constructed c.shuffled).2.1 } := by
      simp only [s', startWhenReady, hready, hstart, Bool.not_true, Bool.false_eq_true, if_false,
        if_true]
    rw [hs', hstart]
    refine ⟨⟨rfl, Dealt.presence (dealHoleCards_dealt _ _ _), ⟨rfl, rfl⟩, ⟨rfl, rfl⟩, rfl⟩, rfl, ?_⟩
    intro hand hhand
    obtain rfl := Option.some.inj hhand
    exact ⟨h2, rfl⟩
  · have hs' : s' = s := by
      simp only [s', startWhenReady, hready, Bool.not_false, if_true]
    rw [hs']
    refine ⟨Rests.refl s, rfl, fun hand hhand => ?_⟩
    rw [hnone] at hhand
    cases hhand

theorem seatNewPlayer_moves (h : TableInv Unfolded s.tableManager s.nextRef)
    (playerId name : String) {seat : ℤ}
    (hseat : seat = seat1 ∧ s.tableManager.table.seat1 = none ∨
      seat = seat2 ∧ s.tableManager.table.seat1 ≠ none ∧ s.tableManager.table.seat2 = none)
    (session : SessionId) (c : Choices) :
    (s.seatNewPlayer playerId name seat session c).state = s ∨
      Seats s (s.seatNewPlayer playerId name seat session c).state playerId := by
  have hfree := hseat.imp And.right fun hh => hh.2.2
  have hnone := (h.of_free_seat hfree).1
  unfold seatNewPlayer
  simp only
  set created := s.updatePlayer s.nextRef fun _ => newPlayer playerId name seat with hcreated
  by_cases hok : (created.tableManager.assignSeat s.nextRef seat).1 = true
  swap
  · simp only [hok, Bool.not_false, if_true]
    exact .inl rfl
  simp only [hok, Bool.not_true, Bool.false_eq_true, if_false]
  obtain ⟨-, table, heap, htm, hothers, hself, htable⟩ := assignSeat_cases hok
  rw [htm]
  set s₁ : GameSession := { s with
    tableManager := ⟨table, created.tableManager.players ++ [s.nextRef], heap⟩
    nextRef := s.nextRef + 1 } with hs₁
  have hnone₁ : s₁.hand = none := by
    rcases htable with ⟨-, -, rfl⟩ | ⟨-, -, rfl⟩ <;> exact hnone
  obtain ⟨hrests, hdealer, hhand⟩ := startWhenReady_rests hnone₁ c
    [.seated s.nextRef, .send session (.joinAck playerId seat)]
  set s' := (s₁.startWhenReady c [.seated s.nextRef, .send session (.joinAck playerId seat)]).state
  have hdealer₁ : s₁.tableManager.table.dealerButtonPosition
      = s.tableManager.table.dealerButtonPosition := by
    rcases htable with ⟨-, -, rfl⟩ | ⟨-, -, rfl⟩ <;> rfl
  refine .inr ⟨hrests.players, fun p hp => ?_, ?_, ?_, hdealer.trans hdealer₁, ?_, hrests.sessions,
    hrests.connections⟩
  · have hheap : heap p = s.tableManager.heap p :=
      (hothers p hp).trans (Function.update_of_ne hp ..)
    exact (hrests.presence p).trans (congrArg presence hheap)
  · have hplayer : presence (heap s.nextRef) = ⟨playerId, .connected, none, false⟩ := by
      rw [hself]
      simp [hcreated, updatePlayer, newPlayer, presence]
    exact (hrests.presence _).trans hplayer
  · rw [hrests.seats.1, hrests.seats.2]
    have hdiff : ¬seat1 = seat2 := by decide
    rcases htable with ⟨rfl, -, rfl⟩ | ⟨rfl, -, rfl⟩
    · exact .inl ⟨(hseat.resolve_right fun hh => hdiff hh.1).2, rfl, rfl⟩
    · obtain ⟨-, hone, htwo⟩ := hseat.resolve_left fun hh => hdiff hh.1.symm
      exact .inr ⟨hone, htwo, rfl, rfl⟩
  · rw [hrests.seats.1, hrests.seats.2, ← hdealer₁]
    exact hhand

theorem joinAsNew_moves (h : TableInv Unfolded s.tableManager s.nextRef) {json : Json}
    {name provided : String} (hjoin : joinOf json = some (name, provided))
    (habsent : s.absentPlayer provided = none) (session : SessionId) (c : Choices) :
    Moves s (.message session (some json) c) (s.joinAsNew name session c).state := by
  have hrests : Moves s (.message session (some json) c) s := .rests (Rests.refl s) rfl
  unfold joinAsNew
  cases hsession : s.sessionToPlayer.lookup session with
  | none => exact hrests
  | some playerId =>
    simp only
    cases hnew : s.tableManager.getPlayer playerId with
    | some existing => exact hrests
    | none =>
      have hseated : ∀ seat, (seat = seat1 ∧ s.tableManager.table.seat1 = none ∨
          seat = seat2 ∧ s.tableManager.table.seat1 ≠ none ∧ s.tableManager.table.seat2 = none) →
          Moves s (.message session (some json) c)
            (s.seatNewPlayer playerId name seat session c).state := by
        intro seat hseat
        rcases seatNewPlayer_moves h playerId name hseat session c with hsame | hseats
        · rw [hsame]
          exact hrests
        · exact .seats hjoin habsent hsession hnew hseats
      simp only
      by_cases hone : s.tableManager.table.seat1 = none
      · rw [if_pos hone]
        exact hseated seat1 (.inl ⟨rfl, hone⟩)
      rw [if_neg hone]
      by_cases htwo : s.tableManager.table.seat2 = none
      · rw [if_pos htwo]
        exact hseated seat2 (.inr ⟨rfl, hone, htwo⟩)
      · rw [if_neg htwo]
        exact hrests

theorem reconnect_eq {provided : String} {session : SessionId}
    (hfree : ∀ other, s.playerSessions.lookup provided = some other → other = session)
    (player : PlayerRef) (c : Choices) :
    s.reconnect player provided session c = reconnect.reconnected s player provided session c := by
  unfold reconnect
  cases hother : s.playerSessions.lookup provided with
  | none => rfl
  | some other => simp only [hfree other hother, ne_eq, not_true_eq_false, if_false]

theorem join_moves (h : TableInv Unfolded s.tableManager s.nextRef) {json payload : Json}
    (hpayload : payloadOf json "join" = some payload) (session : SessionId) (c : Choices) :
    Moves s (.message session (some json) c) (s.handleJoin payload session c).state := by
  unfold handleJoin
  cases hfields : joinFields payload with
  | error e => exact stop_rests session _ c e
  | ok fields =>
    obtain ⟨name, provided⟩ := fields
    have hjoin : joinOf json = some (name, provided) :=
      joinOf_eq_some.mpr ⟨payload, hpayload, hfields⟩
    simp only
    cases habsent : s.absentPlayer provided with
    | none => exact joinAsNew_moves h hjoin habsent session c
    | some player =>
      simp only
      by_cases hfree : ∀ other, s.playerSessions.lookup provided = some other → other = session
      · rw [reconnect_eq hfree]
        exact .takes hjoin habsent hfree
      · -- another session has the player
        push Not at hfree
        obtain ⟨other, hother, hne⟩ := hfree
        simp only [reconnect, hother, ne_eq, hne, not_false_eq_true, if_true]
        exact .rests (Rests.refl s) rfl

theorem step_moves (h : TableInv Unfolded s.tableManager s.nextRef) (e : Event) :
    Moves s e (s.step e).1 := by
  cases e with
  | connect session playerId => exact .welcomes session playerId
  | message session text c =>
    cases text with
    | none =>
      simp only [step, handleMessage, caught_state]
      exact .rests (Rests.refl s) rfl
    | some json =>
      simp only [step, handleMessage, caught_state]
      rcases dispatch_cases s json session c with
        ⟨-, heq⟩ | ⟨-, ⟨payload, hpayload, heq⟩ | ⟨payload, hpayload, heq⟩ | heq | ⟨e, heq⟩⟩
      · exact heq ▸ topUp_moves session _ c
      · exact heq ▸ join_moves h hpayload session c
      · exact heq ▸ action_moves h hpayload session c
      · exact heq ▸ .rests (Rests.refl s) rfl
      · exact heq ▸ stop_rests session _ c e
  | disconnect session c => exact disconnect_moves session c
  | timerExpires i => exact .expires i
  | timerRuns i c => exact timerRuns_moves i c

/-! ### What the moves do to a player -/

theorem absentPlayer_eq_some {provided : String} {player : PlayerRef} :
    s.absentPlayer provided = some player ↔ provided ≠ "" ∧
      s.tableManager.getPlayer provided = some player ∧
      (s.tableManager.heap player).connectionStatus ≠ .connected := by
  unfold absentPlayer
  by_cases hempty : provided = ""
  · simp [hempty]
  rw [if_neg hempty]
  cases hget : s.tableManager.getPlayer provided with
  | none => simp
  | some q =>
    have hstatus : (s.tableManager.heap q).connectionStatus = .disconnected ∨
        (s.tableManager.heap q).connectionStatus = .reconnecting ↔
        (s.tableManager.heap q).connectionStatus ≠ .connected := by
      cases (s.tableManager.heap q).connectionStatus <;> simp
    simp only [hstatus]
    by_cases hne : (s.tableManager.heap q).connectionStatus = .connected
    · rw [if_neg (not_not.mpr hne)]
      refine iff_of_false (by simp) fun h => h.2.2 ?_
      rw [← Option.some.inj h.2.1]
      exact hne
    · rw [if_pos hne]
      refine ⟨fun h => ?_, fun h => h.2.1⟩
      obtain rfl := Option.some.inj h
      exact ⟨hempty, rfl, hne⟩

/-- A join that names an absent player reconnects him, unless another session
has him. -/
theorem step_reconnect {json : Json} {name provided : String} {player : PlayerRef}
    {session : SessionId} (hjoin : joinOf json = some (name, provided))
    (habsent : s.absentPlayer provided = some player)
    (hfree : ∀ other, s.playerSessions.lookup provided = some other → other = session)
    (c : Choices) : (s.step (.message session (some json) c)).1
      = (reconnect.reconnected s player provided session c).state := by
  obtain ⟨payload, hpayload, hfields⟩ := joinOf_eq_some.mp hjoin
  simp only [step, handleMessage, caught_state, dispatch_of_payload hpayload, if_true, handleJoin,
    hfields, habsent, reconnect_eq hfree]

theorem reconnected_presence (player : PlayerRef) (provided : String) (session : SessionId)
    (c : Choices) (p : PlayerRef) :
    presence ((reconnect.reconnected s player provided session c).state.tableManager.heap p)
      = if p = player then ⟨(s.tableManager.heap player).id, .connected, none, false⟩
        else presence (s.tableManager.heap p) := by
  simp only [reconnect.reconnected, PlayerStateManager.onReconnect, updatePlayer,
    (moveSession_tableManager _ _ _).1, presence_update]
  rfl

theorem reconnected_kept (player : PlayerRef) (provided : String) (session : SessionId)
    (c : Choices) :
    let tm := (reconnect.reconnected s player provided session c).state.tableManager
    tm.players = s.tableManager.players ∧ tm.table = s.tableManager.table := by
  show (s.moveSession provided session).tableManager.players = _ ∧
    (s.moveSession provided session).tableManager.table = _
  rw [(moveSession_tableManager s provided session).1]
  exact ⟨rfl, rfl⟩

theorem reconnected_id (player : PlayerRef) (provided : String) (session : SessionId)
    (c : Choices) (p : PlayerRef) :
    ((reconnect.reconnected s player provided session c).state.tableManager.heap p).id
      = (s.tableManager.heap p).id := by
  apply (congrArg Presence.id (reconnected_presence player provided session c p)).trans
  by_cases hp : p = player
  · rw [if_pos hp, hp]
  · rw [if_neg hp]
    rfl

theorem onDisconnect_presence (player : PlayerRef) (playerId : String) (now : ℕ) (p : PlayerRef) :
    presence ((PlayerStateManager.onDisconnect (s.removeSession playerId) player
        now).tableManager.heap p)
      = if p = player then ⟨(s.tableManager.heap player).id, .disconnected, some now, false⟩
        else presence (s.tableManager.heap p) := by
  simp only [PlayerStateManager.onDisconnect, updatePlayer, (removeSession_tableManager s _).1,
    presence_update]
  rfl

theorem onDisconnect_kept (player : PlayerRef) (playerId : String) (now : ℕ) :
    let tm := (PlayerStateManager.onDisconnect (s.removeSession playerId) player now).tableManager
    tm.players = s.tableManager.players ∧ tm.table = s.tableManager.table := by
  show (s.removeSession playerId).tableManager.players = _ ∧
    (s.removeSession playerId).tableManager.table = _
  rw [(removeSession_tableManager s playerId).1]
  exact ⟨rfl, rfl⟩

theorem onDisconnect_id (player : PlayerRef) (playerId : String) (now : ℕ) (p : PlayerRef) :
    ((PlayerStateManager.onDisconnect (s.removeSession playerId) player now).tableManager.heap p).id
      = (s.tableManager.heap p).id := by
  apply (congrArg Presence.id (onDisconnect_presence player playerId now p)).trans
  by_cases hp : p = player
  · rw [if_pos hp, hp]
  · rw [if_neg hp]
    rfl

theorem onGraceTimerExpired_kept (s : GameSession) (playerId : String) :
    let tm := (PlayerStateManager.onGraceTimerExpired s playerId).tableManager
    tm.players = s.tableManager.players ∧ tm.table = s.tableManager.table := by
  unfold PlayerStateManager.onGraceTimerExpired
  split <;> exact ⟨rfl, rfl⟩

theorem onGraceTimerExpired_presence (playerId : String) (p : PlayerRef) :
    presence ((PlayerStateManager.onGraceTimerExpired s playerId).tableManager.heap p)
      = if s.tableManager.getPlayer playerId = some p
        then { presence (s.tableManager.heap p) with isSittingOut := true }
        else presence (s.tableManager.heap p) := by
  unfold PlayerStateManager.onGraceTimerExpired
  cases s.tableManager.getPlayer playerId with
  | none => simp
  | some player =>
    simp only [updatePlayer, presence_update, Option.some.injEq]
    by_cases hp : p = player
    · rw [if_pos hp, if_pos hp.symm, hp]
      rfl
    · rw [if_neg hp, if_neg (Ne.symm hp)]

theorem onGraceTimerExpired_id (playerId : String) (p : PlayerRef) :
    ((PlayerStateManager.onGraceTimerExpired s playerId).tableManager.heap p).id
      = (s.tableManager.heap p).id := by
  apply (congrArg Presence.id (onGraceTimerExpired_presence playerId p)).trans
  split_ifs <;> rfl

theorem run_moves (config : Config) (es : List Event) (e : Event) :
    Moves ((machine config).run es) e ((machine config).next ((machine config).run es) e) :=
  step_moves (run_inv config es) e

end GameSession
end HeadsUp.Server
