import HeadsUp.Server.Announcements
import HeadsUp.Server.Payout

/-!
# The requests of an action

`handleAction` asks the next player before it looks whether the hand is over,
and after a fold the turn has passed to the player who is left. He answers for a
hand that is gone; every other request is for the player on turn of the hand.
-/

namespace HeadsUp.Server
open HeadsUp.Core HeadsUp.Common HeadsUp.Lib

/-! ### The requests to a session -/

def requestsTo (session : SessionId) (effects : List Effect) : List ActionRequest :=
  (heard session effects).filterMap fun
    | .actionRequest request => some request
    | _ => none

theorem requestsTo_append (session : SessionId) (effects effects' : List Effect) :
    requestsTo session (effects ++ effects')
      = requestsTo session effects ++ requestsTo session effects' := by
  rw [requestsTo, heard_append, List.filterMap_append]
  rfl

theorem mem_heard {session : SessionId} {effects : List Effect} {message : Message} :
    message ∈ heard session effects ↔ .send session message ∈ effects := by
  rw [heard, List.mem_filterMap]
  constructor
  · intro hh
    obtain ⟨e, he, hsome⟩ := hh
    cases e with
    | send listener sent =>
      simp only at hsome
      split_ifs at hsome with hself
      obtain rfl := Option.some.inj hsome
      exact hself ▸ he
    | seated => cases hsome
    | toppedUp => cases hsome
  · intro hmem
    exact ⟨_, hmem, if_pos rfl⟩

theorem mem_requestsTo {session : SessionId} {effects : List Effect} {request : ActionRequest} :
    request ∈ requestsTo session effects ↔ .send session (.actionRequest request) ∈ effects := by
  rw [requestsTo, List.mem_filterMap, ← mem_heard]
  constructor
  · intro hh
    obtain ⟨message, hmem, hsome⟩ := hh
    cases message <;> cases hsome
    exact hmem
  · intro hmem
    exact ⟨_, hmem, rfl⟩

theorem applied_id {heap heap' : Heap} {hand hand' : Hand} {player : PlayerRef} {action : String}
    {amount : ℤ} {now : ℕ}
    (happly : PlayerAction.applyAction heap hand player action amount now = (true, heap', hand')) :
    hand'.id = hand.id := by
  obtain ⟨-, -, hact⟩ := PlayerAction.applyAction_cases happly
  rcases hact with ⟨-, -, -, rfl⟩ | ⟨-, -, -, -, rfl⟩ <;> rfl

namespace GameSession
variable {s s' : GameSession} {session listener : SessionId} {c : Choices} {json : Json}

theorem broadcastJson_send {message other : Message}
    (hmem : .send listener other ∈ s.broadcastJson c message) : other = message := by
  obtain ⟨entry, -, heq⟩ := (mem_broadcastJson c message _).mp hmem
  exact (Effect.send.inj heq).2

/-! ### Where requests and errors come from -/

theorem answered_mem {text : Option Json} {effects : List Effect} {message : Message}
    (h : Answered s session c text effects) (hmem : .send listener message ∈ effects) :
    session = listener ∧ Replies s session c text message := by
  obtain ⟨silent, reply, rfl, hsilent, hreply⟩ := h
  rw [List.mem_append, List.mem_singleton] at hmem
  rcases hmem with hmem | heq
  · exact absurd rfl (hsilent _ hmem listener message)
  · obtain ⟨rfl, rfl⟩ := Effect.send.inj heq
    exact ⟨rfl, hreply⟩

/-- Neither a request nor an error. -/
def Informs : Message → Prop
  | .actionRequest _ => False
  | .error _ _ => False
  | _ => True

theorem informs_of_broadcast {message other : Message}
    (hmem : .send listener other ∈ s.broadcastJson c message) (hinforms : Informs message) :
    Informs other :=
  broadcastJson_send hmem ▸ hinforms

theorem ActionSent.informs {heap : Heap} {hand : Hand} {effects : List Effect}
    (h : ActionSent s c heap hand effects) {message : Message}
    (hmem : .send listener message ∈ effects) :
    Informs message ∨ ∃ request, message = .actionRequest request := by
  obtain ⟨applied, other, request, tail, rfl, -, -, htail⟩ := h.sent
  rw [List.mem_append, List.mem_append] at hmem
  rcases hmem with (happlied | hasked) | hcompleted
  · exact .inl (informs_of_broadcast happlied trivial)
  · obtain ⟨session, -, heq⟩ := List.mem_map.mp hasked
    exact .inr ⟨request, (Effect.send.inj heq).2.symm⟩
  · cases htail with
    | goesOn => cases hcompleted
    | ends =>
      rw [List.mem_append] at hcompleted
      rcases hcompleted with hcompleted | htopped
      · exact .inl (informs_of_broadcast hcompleted trivial)
      · simp at htopped

/-- What is sent at a broadcast event is no error, and only an action asks
somebody. -/
theorem informs_of_announced (h : TableInv Unfolded s.tableManager s.nextRef) {e : Event}
    (ha : Announces s e) {message : Message} (hmem : .send listener message ∈ (s.step e).2) :
    Informs message ∨ (∃ request, message = .actionRequest request) ∧
      ∃ session json c action amount player hand, e = .message session (some json) c ∧
        Acts s session json c action amount player hand := by
  cases ha with
  | acts hacts =>
    obtain ⟨_, _, -, hsent⟩ := step_acts h hacts
    exact (hsent.informs hmem).imp_right fun hasked => ⟨hasked, _, _, _, _, _, _, _, rfl, hacts⟩
  | @starts session _ c hsecond =>
    obtain ⟨player, playerId, seat, started, heffects⟩ := step_starts h hsecond c
    rw [heffects, List.mem_append] at hmem
    rcases hmem with hacked | hstarted
    · obtain ⟨-, rfl⟩ : listener = session ∧ message = .joinAck playerId seat := by
        simpa using hacked
      exact .inl trivial
    · exact .inl (informs_of_broadcast hstarted trivial)
  | @takes session _ c _ _ _ hjoin habsent hfree =>
    obtain ⟨seat, heffects⟩ := step_takes hjoin habsent hfree c
    rw [heffects, List.mem_append, List.mem_singleton] at hmem
    rcases hmem with htold | hacked
    · exact .inl (informs_of_broadcast htold trivial)
    · obtain ⟨-, rfl⟩ := Effect.send.inj hacked
      exact .inl trivial
  | @leaves session c _ _ hsession hget =>
    rw [step_leaves hsession hget] at hmem
    exact .inl (informs_of_broadcast hmem trivial)
  | @removes i c _ _ hready hget =>
    rw [(removalRuns hready hget c).2] at hmem
    exact .inl (informs_of_broadcast hmem trivial)

theorem message_of_quiet (horder : SeatOrder s.tableManager.table) {e : Event}
    (hquiet : ¬Announces s e) {message : Message} (hmem : .send listener message ∈ (s.step e).2) :
    (∃ playerId, e = .connect listener playerId ∧ message = .welcome playerId) ∨
      ∃ text c, e = .message listener text c ∧ Replies s listener c text message := by
  cases e with
  | connect session playerId =>
    obtain ⟨rfl, rfl⟩ := Effect.send.inj (List.mem_singleton.mp hmem)
    exact .inl ⟨playerId, rfl, rfl⟩
  | message session text c =>
    obtain ⟨rfl, hreply⟩ := answered_mem (message_answered horder hquiet) hmem
    exact .inr ⟨text, c, rfl, hreply⟩
  | disconnect session c =>
    rw [step_quiet_disconnect hquiet] at hmem
    cases hmem
  | timerExpires i => cases hmem
  | timerRuns i c =>
    rw [step_quiet_timer hquiet] at hmem
    cases hmem

theorem request_sent (h : TableInv Unfolded s.tableManager s.nextRef)
    (horder : SeatOrder s.tableManager.table) {e : Event} {request : ActionRequest}
    (hmem : .send listener (.actionRequest request) ∈ (s.step e).2) :
    ∃ session json c action amount player hand, e = .message session (some json) c ∧
      Acts s session json c action amount player hand := by
  by_cases ha : Announces s e
  · rcases informs_of_announced h ha hmem with hno | ⟨-, hacts⟩
    · exact hno.elim
    · exact hacts
  · rcases message_of_quiet horder ha hmem with ⟨_, -, heq⟩ | ⟨_, _, -, hreply⟩
    · cases heq
    · cases hreply

/-- An error is the reply to a message. -/
theorem error_sent (h : TableInv Unfolded s.tableManager s.nextRef)
    (horder : SeatOrder s.tableManager.table) {e : Event} {code text : String}
    (hmem : .send listener (.error code text) ∈ (s.step e).2) :
    ∃ json c, e = .message listener json c ∧ Replies s listener c json (.error code text) := by
  by_cases ha : Announces s e
  · rcases informs_of_announced h ha hmem with hno | ⟨⟨_, heq⟩, -⟩
    · exact hno.elim
    · cases heq
  · rcases message_of_quiet horder ha hmem with ⟨_, -, heq⟩ | hreply
    · cases heq
    · exact hreply

theorem ActionSent.request_iff {heap : Heap} {hand : Hand} {effects : List Effect}
    (h : ActionSent s c heap hand effects) : ∃ other request,
      hand.currentPlayerToAct = some other ∧ request.handId = hand.id ∧
      ∀ listener, requestsTo listener effects
        = if s.playerSessions.lookup (heap other).id = some listener then [request] else [] := by
  obtain ⟨applied, other, request, tail, rfl, hturn, ⟨-, hid⟩, htail⟩ := h.sent
  refine ⟨other, request, hturn, hid, fun listener => ?_⟩
  have hnone : ∀ message, (∀ request, message ≠ .actionRequest request) →
      requestsTo listener (s.broadcastJson c message) = [] := by
    intro message hother
    rw [List.eq_nil_iff_forall_not_mem]
    intro request hmem
    exact hother request (broadcastJson_send (mem_requestsTo.mp hmem)).symm
  have htail : requestsTo listener tail = [] := by
    cases htail with
    | goesOn => rfl
    | ends =>
      rw [requestsTo_append, hnone _ (by simp), requestsTo, Silent.heard (silent_single (by simp))]
      rfl
  rw [requestsTo_append, requestsTo_append, hnone _ (by simp), htail, List.nil_append,
    List.append_nil]
  cases hl : s.playerSessions.lookup (heap other).id with
  | none => simp [requestsTo, heard]
  | some session =>
    by_cases hself : session = listener
    · simp [requestsTo, heard, hself]
    · simp [requestsTo, heard, hself]

/-! ### One action -/

/-- The other player is on turn after an action and asked if a session is his. -/
structure Asks (s : GameSession) (player : PlayerRef) (hand hand' : Hand) (effects : List Effect)
    (other : PlayerRef) (request : ActionRequest) : Prop where
  opponent : other ∈ hand.players ∧ other ≠ player
  turn : hand'.currentPlayerToAct = some other
  handId : request.handId = hand.id
  requests : ∀ listener, requestsTo listener effects
    = if s.playerSessions.lookup (s.tableManager.heap other).id = some listener then [request]
      else []

theorem Acts.asks (h : TableInv Unfolded s.tableManager s.nextRef) {action : String} {amount : ℤ}
    {player : PlayerRef} {hand : Hand} (hacts : Acts s session json c action amount player hand) :
    ∃ heap hand' other request, PlayerAction.applyAction s.tableManager.heap hand player action
        amount c.now = (true, heap, hand') ∧
      Asks s player hand hand' (s.step (.message session (some json) c)).2 other request := by
  obtain ⟨heap, hand', happly, hsent⟩ := step_acts h hacts
  obtain ⟨other, request, hturn, hid, hrequests⟩ := hsent.request_iff
  have hother := (applied_turn (h.playing hand hacts.current).1 happly other).mp hturn
  exact ⟨heap, hand', other, request, happly, hother, hturn, hid.trans (applied_id happly),
    hrequests⟩

theorem Asks.request_iff {player other : PlayerRef} {hand hand' : Hand} {effects : List Effect}
    {request : ActionRequest} (h : Asks s player hand hand' effects other request)
    {sent : ActionRequest} : .send listener (.actionRequest sent) ∈ effects ↔
      s.playerSessions.lookup (s.tableManager.heap other).id = some listener ∧ sent = request := by
  rw [← mem_requestsTo, h.requests]
  split_ifs with hl
  · simp [hl]
  · simp [hl]

/-- The action of an accepted message, and the table it leaves. -/
theorem Accepts.acts {payload : Json} {player : PlayerRef} {tm : TableManager} {hand' : Hand}
    (hpayload : payloadOf json "action" = some payload)
    (haccepts : s.Accepts payload session c player tm)
    (hhand' : tm.table.currentHand = some hand') : ∃ action amount hand,
      Acts s session json c action amount player hand ∧
      PlayerAction.applyAction s.tableManager.heap hand player action amount c.now
        = (true, tm.heap, hand') := by
  obtain ⟨handId, action, amount, playerId, hand, hfields, hsession, hhand, rfl, hget, hyes⟩ :=
    haccepts
  obtain ⟨player', heap, after, hget', happly, rfl⟩ := applied_of_accepted hhand hyes
  obtain rfl := Option.some.inj (hget.symm.trans hget')
  obtain rfl := Option.some.inj hhand'
  exact ⟨action, amount, hand, ⟨actionOf_eq_some.mpr ⟨payload, hpayload, hfields⟩, hhand,
    ⟨playerId, hsession, hget⟩, PlayerAction.valid_of_applyAction happly⟩, happly⟩

theorem Acts.accepted {action : String} {amount : ℤ} {player : PlayerRef} {hand hand' : Hand}
    {heap : Heap} (hacts : Acts s session json c action amount player hand)
    (happly : PlayerAction.applyAction s.tableManager.heap hand player action amount c.now
      = (true, heap, hand')) : ∃ payload tm, payloadOf json "action" = some payload ∧
      s.Accepts payload session c player tm ∧ tm.table.currentHand = some hand' ∧
      tm.heap = heap := by
  obtain ⟨haction, hhand, ⟨playerId, hsession, hget⟩, hvalid⟩ := hacts
  obtain ⟨payload, hpayload, hfields⟩ := actionOf_eq_some.mp haction
  obtain ⟨heap', after, happly', hyes⟩ := accepted_of_valid hhand hget hvalid c.now
  obtain ⟨rfl, rfl⟩ := Prod.mk.inj (Prod.mk.inj (happly.symm.trans happly')).2
  exact ⟨payload, _, hpayload, ⟨hand.id, action, amount, playerId, hand, hfields, hsession, hhand,
    rfl, hget, hyes⟩, rfl, rfl⟩

/-- No request goes with an action that completes the hand, and every request
names the hand that goes on and asks a player who is left in it. -/
structure RequestsLive (s : GameSession) (e : Event) : Prop where
  finished : ∀ session json c payload player tm hand, e = .message session (some json) c →
    payloadOf json "action" = some payload → s.Accepts payload session c player tm →
    tm.table.currentHand = some hand → isHandComplete hand = true →
    ∀ listener request, .send listener (.actionRequest request) ∉ (s.step e).2
  live : ∀ listener request, .send listener (.actionRequest request) ∈ (s.step e).2 →
    ∃ session json c payload player tm hand other, e = .message session (some json) c ∧
      payloadOf json "action" = some payload ∧ s.Accepts payload session c player tm ∧
      tm.table.currentHand = some hand ∧ isHandComplete hand = false ∧
      request.handId = hand.id ∧ other ∈ activePlayers hand ∧
      s.playerSessions.lookup (tm.heap other).id = some listener

/-- A valid fold while a session is registered for the other player. -/
def FoldsAsked (s : GameSession) (e : Event) : Prop :=
  ∃ session json c amount player hand other, e = .message session (some json) c ∧
    Acts s session json c "fold" amount player hand ∧ other ∈ hand.players ∧ other ≠ player ∧
    (s.playerSessions.lookup (s.tableManager.heap other).id).isSome = true

/-- The hand an action leaves is complete after a fold only. -/
theorem Acts.leaves (h : TableInv Unfolded s.tableManager s.nextRef) {action : String} {amount : ℤ}
    {player : PlayerRef} {hand hand' : Hand} {heap : Heap}
    (hacts : Acts s session json c action amount player hand)
    (happly : PlayerAction.applyAction s.tableManager.heap hand player action amount c.now
      = (true, heap, hand')) : Playing s.tableManager.players hand' ∧
      (isHandComplete hand' = true ↔ action = "fold") := by
  obtain ⟨-, hhand, ⟨playerId, -, hget⟩, hvalid⟩ := hacts
  obtain ⟨heap', after, happly', hyes⟩ := accepted_of_valid hhand hget hvalid c.now
  obtain ⟨rfl, rfl⟩ := Prod.mk.inj (Prod.mk.inj (happly.symm.trans happly')).2
  obtain ⟨hplay, -, hcomplete, -⟩ := accepted_hand h hhand rfl hyes
  exact ⟨hplay, hcomplete⟩

theorem active_of_incomplete {hand : Hand} (hincomplete : isHandComplete hand = false)
    {players : List PlayerRef} (hplay : Playing players hand) :
    activePlayers hand = hand.players := by
  rw [isHandComplete_playing hplay, decide_eq_false_iff_not] at hincomplete
  exact activePlayers_of_many hplay hincomplete

theorem request_of_fold (h : TableInv Unfolded s.tableManager s.nextRef) {e : Event}
    (hfolds : FoldsAsked s e) : ¬RequestsLive s e := by
  obtain ⟨session, json, c, amount, player, hand, other, rfl, hacts, hmem, hne, hsome⟩ := hfolds
  obtain ⟨listener, hlistener⟩ := Option.isSome_iff_exists.mp hsome
  obtain ⟨heap, hand', turn, request, happly, hasks⟩ := hacts.asks h
  obtain ⟨payload, tm, hpayload, haccepts, hhand', -⟩ := hacts.accepted happly
  have hturn := (applied_turn (h.playing hand hacts.current).1 happly other).mpr ⟨hmem, hne⟩
  obtain rfl := Option.some.inj (hturn.symm.trans hasks.turn)
  intro hlive
  exact hlive.finished session json c payload player tm hand' rfl hpayload haccepts hhand'
    ((hacts.leaves h happly).2.mpr rfl) listener request (hasks.request_iff.mpr ⟨hlistener, rfl⟩)

theorem not_fold_of_request (h : TableInv Unfolded s.tableManager s.nextRef) {action : String}
    {amount : ℤ} {player : PlayerRef} {hand : Hand} {request : ActionRequest}
    (hno : ¬FoldsAsked s (.message session (some json) c))
    (hacts : Acts s session json c action amount player hand)
    (hsent : .send listener (.actionRequest request) ∈
      (s.step (.message session (some json) c)).2) : action ≠ "fold" := by
  rintro rfl
  obtain ⟨heap, hand', other, asked, -, hasks⟩ := hacts.asks h
  obtain ⟨hlistener, -⟩ := hasks.request_iff.mp hsent
  exact hno ⟨session, json, c, amount, player, hand, other, rfl, hacts, hasks.opponent.1,
    hasks.opponent.2, Option.isSome_iff_exists.mpr ⟨listener, hlistener⟩⟩

/-- A step is right unless it is such a fold. -/
theorem requestsLive_iff (h : TableInv Unfolded s.tableManager s.nextRef)
    (horder : SeatOrder s.tableManager.table) (e : Event) :
    RequestsLive s e ↔ ¬FoldsAsked s e := by
  constructor
  · exact fun hlive hfolds => request_of_fold h hfolds hlive
  · intro hno
    constructor
    · rintro session json c payload player tm hand' rfl hpayload haccepts hhand' hcomplete listener
        request hsent
      obtain ⟨action, amount, hand, hacts, happly⟩ := Accepts.acts hpayload haccepts hhand'
      exact not_fold_of_request h hno hacts hsent ((hacts.leaves h happly).2.mp hcomplete)
    · intro listener request hsent
      obtain ⟨session, json, c, action, amount, player, hand, rfl, hacts⟩ :=
        request_sent h horder hsent
      obtain ⟨heap, hand', other, asked, happly, hasks⟩ := hacts.asks h
      obtain ⟨payload, tm, hpayload, haccepts, hhand', rfl⟩ := hacts.accepted happly
      obtain ⟨hplay', hcomplete⟩ := hacts.leaves h happly
      have hincomplete : isHandComplete hand' = false := by
        rw [← Bool.not_eq_true, hcomplete]
        exact not_fold_of_request h hno hacts hsent
      obtain ⟨hlistener, rfl⟩ := hasks.request_iff.mp hsent
      refine ⟨session, json, c, payload, player, tm, hand', other, rfl, hpayload, haccepts, hhand',
        hincomplete, hasks.handId.trans (applied_id happly).symm, ?_, ?_⟩
      · rw [active_of_incomplete hincomplete hplay', (TableManager.applyAction_hand happly).1]
        exact hasks.opponent.1
      · have hid : (tm.heap other).id = (s.tableManager.heap other).id :=
          congrArg Presence.id (applyAction_presence happly other)
        rw [hid]
        exact hlistener

end GameSession
end HeadsUp.Server
