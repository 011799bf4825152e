import HeadsUp.Server.Completion
import HeadsUp.Server.Privacy

/-!
# Who hears of an event

A message has one reply, to the session it came from, unless it takes a seat
back, starts a hand or acts in one: then everybody in `player_sessions_` is told,
as of a player who loses his session or is announced removed.
-/

namespace HeadsUp.Server
open HeadsUp.Core HeadsUp.Common HeadsUp.Lib

namespace GameSession

def OfType (text : Option Json) (type : String) : Prop :=
  ∃ json, text = some json ∧ readString json "type" = .ok type

/-- A message of the session with a valid action of its player. -/
structure Acts (s : GameSession) (session : SessionId) (json : Json) (c : Choices)
    (action : String) (amount : ℤ) (player : PlayerRef) (hand : Hand) : Prop where
  message : actionOf json c = some (hand.id, action, amount)
  current : s.hand = some hand
  registered : ∃ playerId, s.sessionToPlayer.lookup session = some playerId ∧
    s.tableManager.getPlayer playerId = some player
  valid : PlayerAction.validateAction s.tableManager.heap hand player action amount = true

/-- The events that are broadcast. -/
inductive Announces (s : GameSession) : Event → Prop
  | acts {session : SessionId} {json : Json} {c : Choices} {action : String} {amount : ℤ}
      {player : PlayerRef} {hand : Hand} (hacts : Acts s session json c action amount player hand) :
      Announces s (.message session (some json) c)
  | starts {session : SessionId} {json : Json} {c : Choices}
      (hsecond : SecondJoins s session json) : Announces s (.message session (some json) c)
  | takes {session : SessionId} {json : Json} {c : Choices} {name provided : String}
      {player : PlayerRef} (hjoin : joinOf json = some (name, provided))
      (habsent : s.absentPlayer provided = some player)
      (hfree : ∀ other, s.playerSessions.lookup provided = some other → other = session) :
      Announces s (.message session (some json) c)
  | leaves {session : SessionId} {c : Choices} {playerId : String} {player : PlayerRef}
      (hsession : s.sessionToPlayer.lookup session = some playerId)
      (hget : s.tableManager.getPlayer playerId = some player) :
      Announces s (.disconnect session c)
  | removes {i : ℕ} {c : Choices} {playerId : String} {player : PlayerRef}
      (hready : s.connections.ready[i]? = some (.playerRemoved playerId))
      (hget : s.tableManager.getPlayer playerId = some player) : Announces s (.timerRuns i c)

/-- The replies to a message that is not broadcast. -/
inductive Replies (s : GameSession) (session : SessionId) (c : Choices) (text : Option Json) :
    Message → Prop
  | error {code message : String} (hcode : code ≠ "invalid_hand") :
      Replies s session c text (.error code message)
  | invalidHand {json payload : Json} {handId action : String} {amount : ℤ} {playerId : String}
      (htext : text = some json) (hpayload : payloadOf json "action" = some payload)
      (hfields : actionFields payload c = .ok (handId, action, amount))
      (hsession : s.sessionToPlayer.lookup session = some playerId)
      (hother : ∀ hand, s.hand = some hand → hand.id ≠ handId) :
      Replies s session c text (.error "invalid_hand" "No active hand or hand mismatch")
  | joinAck {playerId : String} {seat : ℤ} (htype : OfType text "join") :
      Replies s session c text (.joinAck playerId seat)
  | pong (htype : OfType text "ping") : Replies s session c text .pong
  | topUpAck {playerId : String} {newStack : ℤ} (htype : OfType text "top_up") :
      Replies s session c text (.topUpAck playerId newStack)

/-- Effects that no session hears. -/
def Silent (effects : List Effect) : Prop :=
  ∀ e ∈ effects, ∀ session message, e ≠ .send session message

/-- One reply, and nothing else to be heard. -/
def Answered (s : GameSession) (session : SessionId) (c : Choices) (text : Option Json)
    (effects : List Effect) : Prop :=
  ∃ silent reply, effects = silent ++ [.send session reply] ∧ Silent silent ∧
    Replies s session c text reply

variable {s s' : GameSession} {session : SessionId} {c : Choices} {text : Option Json} {json : Json}

/-! ### Errors -/

/-- The ends of a handler other than the mismatch of hands. -/
def Stop.Plain : Stop → Prop
  | .reply code _ => code ≠ "invalid_hand"
  | .throw _ => True

theorem answered_single {reply : Message} (h : Replies s session c text reply) :
    Answered s session c text [.send session reply] :=
  ⟨[], reply, rfl, fun _ hno => (List.not_mem_nil hno).elim, h⟩

theorem answered_stop {e : Stop} (h : Stop.Plain e) :
    Answered s session c text (caught (s.stop session e) session).2 := by
  cases e with
  | reply code message => exact answered_single (.error h)
  | throw e => cases e <;> exact answered_single (.error (by decide))

theorem throw_plain {α : Type*} {x : Except Exn α} {e : Stop}
    (h : x.mapError .throw = .error e) : Stop.Plain e := by
  cases x with
  | ok a => cases h
  | error x =>
    obtain rfl := Except.error.inj h
    trivial

theorem readString_plain {payload : Json} {key : String} {e : Stop}
    (h : readString payload key = .error e) : Stop.Plain e := throw_plain h

theorem error_of_bind {α β : Type} {x : Except Stop α} {f : α → Except Stop β} {e : Stop}
    (h : (x >>= f) = .error e) : x = .error e ∨ ∃ a, x = .ok a ∧ f a = .error e := by
  cases x with
  | error x =>
    obtain rfl := Except.error.inj (h : Except.error x = Except.error e)
    exact .inl rfl
  | ok a => exact .inr ⟨a, rfl, h⟩

theorem reply_plain {α : Type*} {code message : String} {e : Stop}
    (h : (.error (.reply code message) : Except Stop α) = .error e)
    (hcode : code ≠ "invalid_hand") : Stop.Plain e := by
  obtain rfl := Except.error.inj h
  exact hcode

theorem joinFields_plain {payload : Json} {e : Stop} (h : joinFields payload = .error e) :
    Stop.Plain e := by
  unfold joinFields at h
  split at h
  · exact reply_plain h (by decide)
  rcases error_of_bind h with hname | ⟨name, -, h⟩
  · exact readString_plain hname
  split at h
  · exact reply_plain h (by decide)
  dsimp only at h
  split at h
  · rcases error_of_bind h with hid | ⟨provided, -, h⟩
    · exact readString_plain hid
    · cases h
  · cases h

theorem actionFields_plain {payload : Json} {e : Stop} (h : actionFields payload c = .error e) :
    Stop.Plain e := by
  unfold actionFields at h
  split at h
  · exact reply_plain h (by decide)
  rcases error_of_bind h with hhand | ⟨handId, -, h⟩
  · exact readString_plain hhand
  rcases error_of_bind h with haction | ⟨action, -, h⟩
  · exact readString_plain haction
  rcases error_of_bind h with hamount | ⟨amount, -, h⟩
  · exact throw_plain hamount
  split_ifs at h
  · exact reply_plain h (by decide)
  · exact reply_plain h (by decide)
  · exact reply_plain h (by decide)
  · cases h

/-! ### Messages with one reply -/

theorem answered_reject {code message : String} (hcode : code ≠ "invalid_hand") :
    Answered s session c text (caught (s.reject session code message) session).2 :=
  answered_stop (e := .reply code message) hcode

theorem silent_single {e : Effect} (h : ∀ session message, e ≠ .send session message) :
    Silent [e] := by
  intro e' he'
  rw [List.mem_singleton.mp he']
  exact h

theorem handleTopUp_answered (htype : OfType text "top_up") :
    Answered s session c text (caught (s.handleTopUp session) session).2 := by
  unfold handleTopUp
  split
  · exact answered_reject (by decide)
  · split
    · exact answered_reject (by decide)
    · exact ⟨[.toppedUp _], _, rfl, silent_single (by simp), .topUpAck htype⟩

theorem handleAction_answered {payload : Json} (hpayload : payloadOf json "action" = some payload)
    (hquiet : ¬Announces s (.message session (some json) c)) :
    Answered s session c (some json) (caught (s.handleAction payload session c) session).2 := by
  unfold handleAction
  cases hfields : actionFields payload c with
  | error e => exact answered_stop (actionFields_plain hfields)
  | ok fields =>
    obtain ⟨handId, action, amount⟩ := fields
    simp only [performAction]
    cases hsession : s.sessionToPlayer.lookup session with
    | none => exact answered_reject (by decide)
    | some playerId =>
      have hmismatch : (∀ hand, s.hand = some hand → hand.id ≠ handId) →
          Answered s session c (some json) (caught (s.reject session "invalid_hand"
            "No active hand or hand mismatch") session).2 := fun hother =>
        answered_single (.invalidHand rfl hpayload hfields hsession hother)
      cases hhand : s.tableManager.table.currentHand with
      | none =>
        refine hmismatch fun hand hsome => ?_
        cases hhand.symm.trans hsome
      | some hand =>
        by_cases hid : hand.id = handId
        swap
        · simp only [ne_eq, hid, not_false_eq_true, if_true]
          refine hmismatch fun hand' hsome => ?_
          obtain rfl := Option.some.inj (hhand.symm.trans hsome)
          exact hid
        rcases processPlayerAction_cases s.tableManager playerId action amount c.now with
          hno | ⟨hand', player, heap, after, hhand', hget, happly, -⟩
        · simp only [ne_eq, hid, not_true_eq_false, if_false, hno, Bool.not_false, if_true]
          exact answered_reject (by decide)
        · obtain rfl := Option.some.inj (hhand.symm.trans hhand')
          have haction : actionOf json c = some (hand.id, action, amount) :=
            actionOf_eq_some.mpr ⟨payload, hpayload, hid ▸ hfields⟩
          exact absurd (.acts ⟨haction, hhand, ⟨playerId, hsession, hget⟩,
            PlayerAction.valid_of_applyAction happly⟩) hquiet

theorem startWhenReady_waits (hfree : s.tableManager.table.seat2 = none) (c : Choices)
    (acked : List Effect) : s.startWhenReady c acked = ⟨s, acked, none⟩ := by
  have hnot : s.tableManager.table.isReadyForHand = false := by
    rw [← Bool.not_eq_true]
    intro hready
    obtain ⟨-, htwo⟩ := isReadyForHand_seats hready
    rw [hfree] at htwo
    cases htwo
  rw [startWhenReady, hnot]
  rfl

/-- The first player to sit down has his seat acknowledged and no hand. -/
theorem seatNewPlayer_first (htwo : s.tableManager.table.seat2 = none)
    (htype : OfType text "join") (playerId name : String) :
    Answered s session c text
      (caught (s.seatNewPlayer playerId name seat1 session c) session).2 := by
  unfold seatNewPlayer
  simp only
  set created := s.updatePlayer s.nextRef fun _ => newPlayer playerId name seat1 with hcreated
  by_cases hok : (created.tableManager.assignSeat s.nextRef seat1).1 = true
  swap
  · simp only [hok, Bool.not_false, if_true]
    exact answered_reject (by decide)
  simp only [hok, Bool.not_true, Bool.false_eq_true, if_false]
  obtain ⟨-, table, heap, htm, -, -, htable⟩ := assignSeat_cases hok
  have hfree : (created.tableManager.assignSeat s.nextRef seat1).2.table.seat2 = none := by
    rw [htm]
    rcases htable with ⟨-, -, rfl⟩ | ⟨hseat, -, -⟩
    · exact htwo
    · exact absurd hseat (by decide)
  rw [startWhenReady_waits (s := { s with
    tableManager := (created.tableManager.assignSeat s.nextRef seat1).2
    nextRef := s.nextRef + 1 }) hfree]
  exact ⟨[.seated s.nextRef], _, rfl, silent_single (by simp), .joinAck htype⟩

theorem joinAsNew_answered (horder : SeatOrder s.tableManager.table)
    (htype : OfType text "join") (name : String)
    (hsecond : ∀ playerId, s.sessionToPlayer.lookup session = some playerId →
      s.tableManager.getPlayer playerId = none → s.tableManager.table.seat1 ≠ none →
      s.tableManager.table.seat2 ≠ none) :
    Answered s session c text (caught (s.joinAsNew name session c) session).2 := by
  unfold joinAsNew
  cases hsession : s.sessionToPlayer.lookup session with
  | none => exact answered_reject (by decide)
  | some playerId =>
    simp only
    cases hnew : s.tableManager.getPlayer playerId with
    | some existing => exact answered_single (.joinAck htype)
    | none =>
      simp only
      by_cases hone : s.tableManager.table.seat1 = none
      · rw [if_pos hone]
        exact seatNewPlayer_first (horder.first hone) htype playerId name
      · rw [if_neg hone, if_neg (hsecond playerId hsession hnew hone)]
        exact answered_reject (by decide)

theorem handleJoin_answered (horder : SeatOrder s.tableManager.table) {payload : Json}
    (hpayload : payloadOf json "join" = some payload)
    (hquiet : ¬Announces s (.message session (some json) c)) :
    Answered s session c (some json) (caught (s.handleJoin payload session c) session).2 := by
  unfold handleJoin
  cases hfields : joinFields payload with
  | error e => exact answered_stop (joinFields_plain hfields)
  | ok fields =>
    obtain ⟨name, provided⟩ := fields
    have hjoin : joinOf json = some (name, provided) :=
      joinOf_eq_some.mpr ⟨payload, hpayload, hfields⟩
    simp only
    cases habsent : s.absentPlayer provided with
    | some player =>
      by_cases hfree : ∀ other, s.playerSessions.lookup provided = some other → other = session
      · exact absurd (.takes hjoin habsent hfree) hquiet
      · push Not at hfree
        obtain ⟨other, hother, hne⟩ := hfree
        simp only [reconnect, hother, ne_eq, hne, not_false_eq_true, if_true]
        exact answered_reject (by decide)
    | none =>
      refine joinAsNew_answered horder ⟨json, rfl, (payloadOf_eq_some.mp hpayload).1⟩ name ?_
      intro playerId hsession hnew hone htwo
      exact hquiet (.starts ⟨name, provided, playerId, hjoin, habsent, hsession, hnew, hone, htwo⟩)

theorem message_answered (horder : SeatOrder s.tableManager.table)
    (hquiet : ¬Announces s (.message session text c)) :
    Answered s session c text (s.step (.message session text c)).2 := by
  cases text with
  | none => exact answered_single (.error (by decide))
  | some json =>
    simp only [step, handleMessage, dispatch]
    split
    · exact answered_reject (by decide)
    split
    · exact answered_reject (by decide)
    split
    · rename_i type payload htype hpayload
      have hparts : payloadOf json type = some payload := payloadOf_eq_some.mpr ⟨htype, hpayload⟩
      split
      · rename_i hjoin
        exact handleJoin_answered horder (hjoin ▸ hparts) hquiet
      split
      · rename_i haction
        exact handleAction_answered (haction ▸ hparts) hquiet
      split
      · rename_i hping
        exact answered_single (.pong ⟨json, rfl, hping ▸ htype⟩)
      split
      · rename_i htop
        exact handleTopUp_answered ⟨json, rfl, htop ▸ htype⟩
      · exact answered_reject (by decide)
    · rename_i htype
      exact answered_stop (readString_plain htype)
    · exact answered_stop (e := .throw _) trivial

/-! ### Messages that are broadcast -/

theorem broadcastJson_congr (h : s'.playerSessions = s.playerSessions) (c : Choices)
    (message : Message) : s'.broadcastJson c message = s.broadcastJson c message := by
  rw [broadcastJson, broadcastJson, h]

/-- What follows the request: the end of the hand if this is it. -/
inductive Ending (s : GameSession) (c : Choices) (hand : Hand) : List Effect → Prop
  | goesOn (hmany : 1 < (activePlayers hand).length) : Ending s c hand []
  | ends {completed : HandCompleted} {amount : ℤ} (hfew : (activePlayers hand).length ≤ 1)
      (hcompleted : completed.handId = hand.id) :
      Ending s c hand (s.broadcastJson c (.handCompleted completed) ++ [.toppedUp amount])

/-- The action, the request to the player now on turn if a session is his, and
the end of the hand if this is it. -/
structure ActionSent (s : GameSession) (c : Choices) (heap : Heap) (hand' : Hand)
    (effects : List Effect) : Prop where
  sent : ∃ applied other request tail,
    effects = s.broadcastJson c (.actionApplied applied) ++
      (s.playerSessions.lookup (heap other).id).toList.map
        (fun listener => .send listener (.actionRequest request)) ++ tail ∧
    hand'.currentPlayerToAct = some other ∧
    (applied.handId = hand'.id ∧ request.handId = hand'.id) ∧ Ending s c hand' tail

theorem sendActionRequest_eq {playerId : String} {request : ActionRequest}
    (hrequest : s.actionRequest playerId = some request) : s.sendActionRequest playerId
      = (s.playerSessions.lookup playerId).toList.map
        fun listener => .send listener (.actionRequest request) := by
  rw [sendActionRequest, hrequest]
  cases s.playerSessions.lookup playerId <;> rfl

theorem afterAction_sent (h : TableInv Contested s.tableManager s.nextRef) {hand : Hand}
    (hhand : s.hand = some hand) {playerId action : String} {player : PlayerRef} {amount : ℤ}
    (hget : s.tableManager.getPlayer playerId = some player) (c : Choices) :
    ActionSent s c s.tableManager.heap hand
      (s.afterAction c (s.broadcastActionApplied c playerId action amount)).effects := by
  have hcurrent : s.tableManager.table.currentHand = some hand := hhand
  obtain ⟨hplay, hcon⟩ := h.playing hand hhand
  obtain ⟨turn, hmem, hturn⟩ := hplay.turn
  obtain ⟨request, hrequest, hid⟩ : ∃ request,
      s.actionRequest (s.tableManager.heap turn).id = some request ∧ request.handId = hand.id := by
    simp only [actionRequest, hcurrent, h.getPlayer (hplay.mem turn hmem)]
    exact ⟨_, rfl, rfl⟩
  obtain ⟨applied, happlied, hid'⟩ : ∃ applied, s.broadcastActionApplied c playerId action amount
      = s.broadcastJson c (.actionApplied applied) ∧ applied.handId = hand.id := by
    simp only [broadcastActionApplied, hcurrent, hget]
    exact ⟨_, rfl, rfl⟩
  have hasked := sendActionRequest_eq hrequest
  constructor
  unfold afterAction
  simp only [hcurrent, hturn, isHandComplete_playing hplay, happlied, hasked]
  by_cases hfew : (activePlayers hand).length ≤ 1
  · obtain ⟨p, -, hone⟩ := hcon.single hplay hfew
    have hcompleted := broadcastHandCompleted_eq hplay hcurrent hone c
    simp only [hfew, hcompleted, decide_true, Bool.not_true, Bool.false_eq_true, if_false]
    exact ⟨applied, turn, request, _, List.append_assoc _ _ _, rfl, ⟨hid', hid⟩, .ends hfew rfl⟩
  · simp only [hfew, decide_false, Bool.not_false, if_true]
    exact ⟨applied, turn, request, [], (List.append_nil _).symm, rfl, ⟨hid', hid⟩,
      .goesOn (by omega)⟩

theorem step_acts (h : TableInv Unfolded s.tableManager s.nextRef) {action : String} {amount : ℤ}
    {hand : Hand} {player : PlayerRef} (hacts : Acts s session json c action amount player hand) :
    ∃ heap hand', PlayerAction.applyAction s.tableManager.heap hand player action amount c.now
        = (true, heap, hand') ∧
      ActionSent s c s.tableManager.heap hand' (s.step (.message session (some json) c)).2 := by
  obtain ⟨haction, hhand, ⟨playerId, hsession, hget⟩, hvalid⟩ := hacts
  obtain ⟨payload, hpayload, hfields⟩ := actionOf_eq_some.mp haction
  obtain ⟨heap, hand', happly, hyes⟩ := accepted_of_valid hhand hget hvalid c.now
  obtain ⟨heq, -⟩ := handleAction_accepted h hfields hsession hhand rfl hyes
  have hinv := (h.processPlayerAction (by rw [hyes])).1
  rw [hyes] at hinv
  have hids : ∀ p, (heap p).id = (s.tableManager.heap p).id :=
    fun p => congrArg Presence.id (applyAction_presence happly p)
  have hget' : ({ s.tableManager with
      heap := heap
      table := { s.tableManager.table with currentHand := some hand', pot := hand'.pot } } :
        TableManager).getPlayer playerId = some player := by
    rw [← hget]
    simp only [TableManager.getPlayer, hids]
  have hsent := (@afterAction_sent { s with tableManager := _ } hinv _ rfl playerId action player
    amount hget' c).sent
  refine ⟨heap, hand', happly, ?_⟩
  rw [step_action hpayload, heq]
  obtain ⟨applied, other, request, tail, heffects, hturn, hhandId, htail⟩ := hsent
  refine ⟨applied, other, request, tail, ?_, hturn, hhandId, ?_⟩
  · rw [heffects, ← hids other]
    rfl
  · cases htail with
    | goesOn hmany => exact .goesOn hmany
    | ends hfew hcompleted => exact .ends hfew hcompleted

theorem startWhenReady_sent (hnone : s.hand = none) (c : Choices) (acked : List Effect)
    (hstarts : (s.startWhenReady c acked).state.hand.isSome = true) :
    (s.startWhenReady c acked).thrown = none ∧ (s.startWhenReady c acked).effects
      = acked ++ (s.startWhenReady c acked).state.broadcastHandStarted c := by
  by_cases hready : s.tableManager.table.isReadyForHand = true
  · obtain ⟨hone, htwo⟩ := isReadyForHand_seats hready
    obtain ⟨p, hp⟩ := Option.isSome_iff_exists.mp hone
    obtain ⟨q, hq⟩ := Option.isSome_iff_exists.mp htwo
    have hstart := startHand_eq hready hnone hp hq c.uuid c.constructed c.shuffled
    simp only [startWhenReady, hready, hstart, Bool.not_true, Bool.false_eq_true, if_false, if_true,
      and_self]
  · rw [startWhenReady, if_pos (by simp [hready]), hnone] at hstarts
    cases hstarts

/-- The second player is seated, then the hand is started and announced. -/
theorem step_begins (h : TableInv Unfolded s.tableManager s.nextRef)
    (hsecond : SecondJoins s session json) (c : Choices) :
    let s' := (s.step (.message session (some json) c)).1
    ∃ (t : GameSession) (acked : List Effect) (playerId : String),
      t.hand = none ∧ s' = (t.startWhenReady c acked).state ∧ s'.hand.isSome = true ∧
      s'.playerSessions = s.playerSessions ∧
      (s.step (.message session (some json) c)).2
        = [.seated s.nextRef, .send session (.joinAck playerId seat2)] ++
          s'.broadcastHandStarted c := by
  obtain ⟨name, provided, playerId, hjoin, habsent, hsession, hnew, hone, htwo⟩ := hsecond
  obtain ⟨payload, hpayload, hfields⟩ := joinOf_eq_some.mp hjoin
  have hstarts := seatNewPlayer_starts h hnew hone htwo name session c
  simp only [step, handleMessage, dispatch_of_payload hpayload, if_true, handleJoin,
    hfields, habsent, joinAsNew, hsession, hnew, if_neg hone, if_pos htwo]
  have hsame := (seatNewPlayer_sessions s playerId name seat2 session c).1
  rcases seatNewPlayer_cases h playerId name seat2 session c with
    heq | ⟨t, hnone, -, hnone', -, -, heq⟩
  · rw [heq] at hstarts
    obtain ⟨hnone, -⟩ := h.of_free_seat (.inr htwo)
    have hhand : (s.reject session "seat_unavailable" "Seat assignment failed").state.hand = none :=
      hnone
    rw [hhand] at hstarts
    cases hstarts
  · rw [heq] at hstarts hsame ⊢
    obtain ⟨hthrown, heffects⟩ := startWhenReady_sent hnone' c _ hstarts
    simp only [caught, hthrown, heffects]
    exact ⟨t, _, playerId, hnone', rfl, hstarts, hsame, rfl⟩

theorem step_starts (h : TableInv Unfolded s.tableManager s.nextRef)
    (hsecond : SecondJoins s session json) (c : Choices) : ∃ player playerId seat started,
      (s.step (.message session (some json) c)).2
        = [.seated player, .send session (.joinAck playerId seat)] ++
          s.broadcastJson c (.handStarted started) := by
  obtain ⟨-, -, playerId, -, -, hstarts, hsame, heffects⟩ := step_begins h hsecond c
  obtain ⟨hand, hhand⟩ := Option.isSome_iff_exists.mp hstarts
  rw [broadcastHandStarted_eq hhand, broadcastJson_congr hsame] at heffects
  exact ⟨_, playerId, seat2, _, heffects⟩

theorem step_takes {name provided : String} {player : PlayerRef}
    (hjoin : joinOf json = some (name, provided)) (habsent : s.absentPlayer provided = some player)
    (hfree : ∀ other, s.playerSessions.lookup provided = some other → other = session)
    (c : Choices) : ∃ seat, (s.step (.message session (some json) c)).2
      = (s.moveSession provided session).broadcastJson c (.playerReconnected provided) ++
        [.send session (.joinAck provided seat)] := by
  obtain ⟨payload, hpayload, hfields⟩ := joinOf_eq_some.mp hjoin
  simp only [step, handleMessage, dispatch_of_payload hpayload, if_true, handleJoin, hfields,
    habsent, reconnect_eq hfree]
  exact ⟨_, rfl⟩

theorem step_leaves {playerId : String} {player : PlayerRef}
    (hsession : s.sessionToPlayer.lookup session = some playerId)
    (hget : s.tableManager.getPlayer playerId = some player) (c : Choices) :
    (s.step (.disconnect session c)).2 = (s.removeSession playerId).broadcastJson c
      (.playerDisconnected playerId s.config.disconnectGraceTimeMs) := by
  have hget' : (s.removeSession playerId).tableManager.getPlayer playerId = some player := by
    rw [(removeSession_tableManager s playerId).1]
    exact hget
  have hconfig : (s.removeSession playerId).config = s.config := by
    unfold GameSession.removeSession
    split <;> rfl
  simp only [step, onDisconnect, hsession, hget']
  rw [← hconfig]
  rfl

/-! ### Events nobody hears of -/

theorem step_quiet_disconnect (hquiet : ¬Announces s (.disconnect session c)) :
    (s.step (.disconnect session c)).2 = [] := by
  simp only [step, onDisconnect]
  cases hsession : s.sessionToPlayer.lookup session with
  | none => rfl
  | some playerId =>
    simp only
    have hmanager := (removeSession_tableManager s playerId).1
    cases hget : (s.removeSession playerId).tableManager.getPlayer playerId with
    | none => rfl
    | some player => exact absurd (.leaves hsession (hmanager ▸ hget)) hquiet

theorem step_quiet_timer {i : ℕ} (hquiet : ¬Announces s (.timerRuns i c)) :
    (s.step (.timerRuns i c)).2 = [] := by
  cases hready : s.connections.ready[i]? with
  | none => simp only [step, ConnectionManager.take, hready]
  | some callback =>
    rw [step_timerRuns hready]
    cases callback with
    | graceTimerExpired playerId => rfl
    | playerRemoved playerId =>
      simp only [onTimer, broadcastPlayerRemoved]
      cases hget : s.tableManager.getPlayer playerId with
      | none => rfl
      | some player => exact absurd (.removes hready hget) hquiet

/-! ### Who hears -/

def Listens (s : GameSession) (listener : SessionId) : Prop :=
  ∃ playerId, s.playerSessions.lookup playerId = some listener

theorem heard_eq_nil_iff {listener : SessionId} {effects : List Effect} :
    heard listener effects = [] ↔ ∀ message, .send listener message ∉ effects := by
  rw [heard, List.filterMap_eq_nil_iff]
  constructor
  · intro hall message hmem
    have hno := hall _ hmem
    simp at hno
  · intro hnone e he
    cases e with
    | send session message =>
      simp only
      rw [if_neg]
      rintro rfl
      exact hnone message he
    | _ => rfl

theorem Silent.heard {effects : List Effect} (h : Silent effects) (listener : SessionId) :
    heard listener effects = [] :=
  heard_eq_nil_iff.mpr fun message hmem => h _ hmem listener message rfl

theorem listens_iff_entry {listener : SessionId} :
    s.Listens listener ↔ ∃ entry ∈ s.playerSessions.entries, entry.2 = listener := by
  constructor
  · intro hh
    obtain ⟨playerId, hl⟩ := hh
    exact ⟨⟨playerId, listener⟩, AList.mem_lookup_iff.mp hl, rfl⟩
  · intro hh
    obtain ⟨entry, hentry, rfl⟩ := hh
    exact ⟨entry.1, AList.mem_lookup_iff.mpr hentry⟩

theorem heard_broadcastJson_ne_nil {listener : SessionId} {message : Message} :
    heard listener (s.broadcastJson c message) ≠ [] ↔ s.Listens listener := by
  rw [Ne, heard_eq_nil_iff, listens_iff_entry]
  push Not
  constructor
  · intro hh
    obtain ⟨other, hmem⟩ := hh
    obtain ⟨entry, hentry, heq⟩ := (mem_broadcastJson c message _).mp hmem
    exact ⟨entry, hentry, (Effect.send.inj heq).1.symm⟩
  · intro hh
    obtain ⟨entry, hentry, rfl⟩ := hh
    exact ⟨message, (mem_broadcastJson c message _).mpr ⟨entry, hentry, rfl⟩⟩

theorem heard_send_ne {listener : SessionId} (hother : session ≠ listener) (message : Message) :
    heard listener [.send session message] = [] := by
  simp [heard, hother]

theorem heard_send_self (message : Message) :
    heard session [.send session message] = [message] := by
  simp [heard]

theorem heard_answered {effects : List Effect} (h : Answered s session c text effects) :
    ∃ reply, Replies s session c text reply ∧ heard session effects = [reply] ∧
      ∀ listener, session ≠ listener → heard listener effects = [] := by
  obtain ⟨silent, reply, rfl, hsilent, hreply⟩ := h
  refine ⟨reply, hreply, ?_, fun listener hother => ?_⟩
  · rw [heard_append, hsilent.heard, heard_send_self, List.nil_append]
  · rw [heard_append, hsilent.heard, heard_send_ne hother, List.append_nil]

/-- A session that another one's reconnection leaves alone. -/
theorem listens_moveSession (h : Inverse s.playerSessions s.sessionToPlayer) {provided : String}
    (hfree : ∀ other, s.playerSessions.lookup provided = some other → other = session)
    {listener : SessionId} (hother : session ≠ listener) :
    (s.moveSession provided session).Listens listener ↔ s.Listens listener := by
  refine exists_congr fun playerId => ?_
  rw [moveSession_lookup]
  split_ifs with hself hold
  · subst hself
    refine iff_of_false (fun hh => hother (Option.some.inj hh)) ?_
    intro hh
    exact hother (hfree listener hh).symm
  · refine iff_of_false (by simp) ?_
    intro hh
    have hsame := (h playerId session).mpr hold
    exact hother (Option.some.inj (hsame.symm.trans hh))
  · rfl

theorem listens_removeSession (h : Inverse s.playerSessions s.sessionToPlayer) {playerId : String}
    (hsession : s.sessionToPlayer.lookup session = some playerId) {listener : SessionId}
    (hother : session ≠ listener) :
    (s.removeSession playerId).Listens listener ↔ s.Listens listener := by
  refine exists_congr fun other => ?_
  rw [removeSession_lookup]
  split_ifs with hself
  · subst hself
    refine iff_of_false (by simp) ?_
    intro hh
    have hsame := (h other session).mpr hsession
    exact hother (Option.some.inj (hsame.symm.trans hh))
  · rfl

theorem ActionSent.heard_ne_nil {heap : Heap} {hand : Hand} {effects : List Effect}
    (h : ActionSent s c heap hand effects) {listener : SessionId} :
    heard listener effects ≠ [] ↔ s.Listens listener := by
  obtain ⟨applied, turn, request, tail, rfl, -, -, htail⟩ := h.sent
  rw [heard_append, heard_append]
  constructor
  · intro hheard
    by_contra hnot
    have hnone : ∀ message, heard listener (s.broadcastJson c message) = [] := fun message =>
      not_not.mp (mt heard_broadcastJson_ne_nil.mp hnot)
    apply hheard
    rw [hnone, List.nil_append, List.append_eq_nil_iff]
    constructor
    · cases hl : s.playerSessions.lookup (heap turn).id with
      | none => rfl
      | some session =>
        refine heard_send_ne ?_ _
        rintro rfl
        exact hnot ⟨_, hl⟩
    · cases htail with
      | goesOn => rfl
      | ends =>
        rw [heard_append, hnone, Silent.heard (silent_single (by simp))]
        rfl
  · intro hlistens hnone
    obtain ⟨hboth, -⟩ := List.append_eq_nil_iff.mp hnone
    exact heard_broadcastJson_ne_nil.mpr hlistens (List.append_eq_nil_iff.mp hboth).1

/-- Everybody registered hears of an announced event, and nobody else but the
session it came from. -/
theorem heard_announced (h : TableInv Unfolded s.tableManager s.nextRef)
    (hinverse : Inverse s.playerSessions s.sessionToPlayer) {e : Event} (ha : Announces s e)
    {listener : SessionId} (hother : e.session ≠ some listener) :
    heard listener (s.step e).2 ≠ [] ↔ s.Listens listener := by
  have hne : ∀ {session}, e.session = some session → session ≠ listener := by
    rintro session hsession rfl
    exact hother hsession
  cases ha with
  | acts hacts =>
    obtain ⟨heap, hand', -, hsent⟩ := step_acts h hacts
    exact hsent.heard_ne_nil
  | @starts session _ c hsecond =>
    obtain ⟨player, playerId, seat, started, heffects⟩ := step_starts h hsecond c
    have hself : session ≠ listener := hne rfl
    have hacked : heard listener [.seated player, .send session (.joinAck playerId seat)] = [] := by
      simp [heard, hself]
    rw [heffects, heard_append, hacked, List.nil_append]
    exact heard_broadcastJson_ne_nil
  | @takes session _ c _ _ _ hjoin habsent hfree =>
    obtain ⟨seat, heffects⟩ := step_takes hjoin habsent hfree c
    have hself : session ≠ listener := hne rfl
    rw [heffects, heard_append, heard_send_ne hself, List.append_nil, heard_broadcastJson_ne_nil]
    exact listens_moveSession hinverse hfree hself
  | @leaves session c _ _ hsession hget =>
    rw [step_leaves hsession hget, heard_broadcastJson_ne_nil]
    exact listens_removeSession hinverse hsession (hne rfl)
  | @removes i c _ _ hready hget =>
    rw [(removalRuns hready hget c).2]
    exact heard_broadcastJson_ne_nil

/-- Of the other events only the session they came from hears. -/
theorem heard_quiet (horder : SeatOrder s.tableManager.table) {e : Event} (hquiet : ¬Announces s e)
    {listener : SessionId} (hother : e.session ≠ some listener) :
    heard listener (s.step e).2 = [] := by
  have hne : ∀ {session}, e.session = some session → session ≠ listener := by
    rintro session hsession rfl
    exact hother hsession
  cases e with
  | connect session playerId => exact heard_send_ne (hne rfl) _
  | message session text c =>
    obtain ⟨_, -, -, hothers⟩ := heard_answered (message_answered horder hquiet)
    exact hothers listener (hne rfl)
  | disconnect session c =>
    rw [step_quiet_disconnect hquiet]
    rfl
  | timerExpires i => rfl
  | timerRuns i c =>
    rw [step_quiet_timer hquiet]
    rfl

end GameSession
end HeadsUp.Server
