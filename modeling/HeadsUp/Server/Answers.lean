import HeadsUp.Server.Requests

/-!
# Bots and the requests they answer

A bot joins by its name and then answers one request after the other. As long as
the hand it is asked about goes on, at most one request waits for it, and that
one is for the player on turn.
-/

namespace HeadsUp.Server
open HeadsUp.Core HeadsUp.Common HeadsUp.Lib

/-- An action message of the session, well-formed or not. -/
def Event.isActionOf (session : SessionId) : Event → Bool
  | .message other (some json) _ => other = session && (GameSession.payloadOf json "action").isSome
  | _ => false

def actionsOf (session : SessionId) (es : List Event) : ℕ := es.countP (Event.isActionOf session)

theorem actionsOf_concat (session : SessionId) (es : List Event) (e : Event) :
    actionsOf session (es ++ [e])
      = actionsOf session es + if e.isActionOf session then 1 else 0 := by
  rw [actionsOf, List.countP_append, List.countP_singleton]
  rfl

namespace GameSession
variable {s s' : GameSession} {session : SessionId} {c : Choices} {json : Json}

/-! ### Bots -/

/-- The session joins by its name alone, and each of its actions answers the
next request it was sent. -/
def AnswersRequests (config : Config) (session : SessionId) (es : List Event) : Prop :=
  ∀ pre json c, pre ++ [.message session (some json) c] <+: es →
    (∀ name provided, joinOf json = some (name, provided) → provided = "") ∧
    ∀ payload, payloadOf json "action" = some payload → ∃ request,
      (requestsTo session ((machine config).trace pre))[actionsOf session pre]? = some request ∧
      readString payload "hand_id" = .ok request.handId

/-- The requests have been answered, or all but the last, and that one is for
the hand in progress and its player on turn. -/
def Settled (s : GameSession) (requests : List ActionRequest) (answers : ℕ) (playerId : String) :
    Prop :=
  requests.length ≤ answers ∨ ∃ old request hand p, requests = old ++ [request] ∧
    old.length = answers ∧ s.hand = some hand ∧ hand.id = request.handId ∧
    hand.currentPlayerToAct = some p ∧ (s.tableManager.heap p).id = playerId

/-- What has been asked of a session so far. -/
structure Pending (config : Config) (session : SessionId) (pre : List Event) (s : GameSession) :
    Prop where
  unseen : (∀ e ∈ pre, e.session ≠ some session) →
    requestsTo session ((machine config).trace pre) = []
  settled : ∀ playerId, s.sessionToPlayer.lookup session = some playerId →
    Settled s (requestsTo session ((machine config).trace pre)) (actionsOf session pre) playerId

/-- The hand and the ids stay when no action is accepted. -/
theorem Moves.keeps (h : TableInv Unfolded s.tableManager s.nextRef) {e : Event}
    (hmove : Moves s e s') {hand : Hand} (hhand : s.hand = some hand)
    (hno : ∀ session json c action amount player hand, e = .message session (some json) c →
      ¬Acts s session json c action amount player hand) :
    s'.hand = some hand ∧ ∀ p, (s'.tableManager.heap p).id = (s.tableManager.heap p).id := by
  -- nobody takes a seat during a hand
  have hfull : ∀ playerId, ¬Seats s s' playerId := by
    intro playerId hseats
    have hfree := hseats.seats.imp And.left fun hh => hh.2.1
    cases (h.of_free_seat hfree).1.symm.trans hhand
  have hsame : s'.tableManager.table = s.tableManager.table → s'.hand = some hand := fun htable =>
    (congrArg Table.currentHand htable).trans hhand
  constructor
  · cases hmove with
    | welcomes => exact hhand
    | rests _ htable => exact hsame htable
    | acts haction hsession hhand' hid hget happly =>
      subst hid
      exact (hno _ _ _ _ _ _ _ rfl ⟨haction, hhand', ⟨_, hsession, hget⟩,
        PlayerAction.valid_of_applyAction happly⟩).elim
    | seats _ _ _ _ hseats => exact absurd hseats (hfull _)
    | takes => exact hsame (reconnected_kept _ _ _ _).2
    | ignores => exact hhand
    | @drops _ _ playerId =>
      exact hsame (congrArg TableManager.table (removeSession_tableManager s playerId).1)
    | leaves => exact hsame (onDisconnect_kept _ _ _).2
    | expires => exact hhand
    | waits => exact hhand
    | runs => exact hsame (onTimer_table _ _)
  · rcases hmove.ids with ⟨-, hids⟩ | ⟨_, _, _, _, _, playerId, -, -, -, hseats⟩
    · exact hids
    · exact absurd hseats (hfull playerId)

/-! ### Questions and answers in turn -/

/-- Only the session of the player on turn acts. -/
theorem Acts.session_eq (hinverse : Inverse s.playerSessions s.sessionToPlayer) {other : SessionId}
    {action : String} {amount : ℤ} {player p : PlayerRef} {hand hand' : Hand}
    (hacts : Acts s other json c action amount player hand) (hhand : s.hand = some hand')
    (hturn : hand'.currentPlayerToAct = some p)
    (hl : s.sessionToPlayer.lookup session = some (s.tableManager.heap p).id) :
    other = session := by
  obtain ⟨-, hhand', ⟨playerId, hsession, hget⟩, hvalid⟩ := hacts
  obtain rfl := Option.some.inj (hhand'.symm.trans hhand)
  obtain ⟨-, hactor, -⟩ := PlayerAction.validateAction_iff.mp hvalid
  obtain rfl := Option.some.inj (hactor.symm.trans hturn)
  obtain ⟨-, rfl⟩ := getPlayer_mem hget
  exact hinverse.symm.left_unique hsession hl

/-- Another session's action leaves this one's player on turn and asks him. -/
inductive Questions (s : GameSession) (listener : SessionId) (request : ActionRequest) :
    Event → Prop
  | acts {session : SessionId} {json : Json} {c : Choices} {action : String} {amount : ℤ}
      {player other : PlayerRef} {hand hand' : Hand} {heap : Heap} (hother : session ≠ listener)
      (hacts : Acts s session json c action amount player hand)
      (happly : PlayerAction.applyAction s.tableManager.heap hand player action amount c.now
        = (true, heap, hand'))
      (hasks : Asks s player hand hand' (s.step (.message session (some json) c)).2 other request)
      (hlistener : s.playerSessions.lookup (s.tableManager.heap other).id = some listener) :
      Questions s listener request (.message session (some json) c)

/-- The request, if any, comes from the message of another session. -/
theorem requestsTo_step (h : TableInv Unfolded s.tableManager s.nextRef)
    (horder : SeatOrder s.tableManager.table)
    (hinverse : Inverse s.playerSessions s.sessionToPlayer) (e : Event) (listener : SessionId) :
    requestsTo listener (s.step e).2 = [] ∨
      ∃ request, requestsTo listener (s.step e).2 = [request] ∧ Questions s listener request e := by
  by_cases hnone : requestsTo listener (s.step e).2 = []
  · exact .inl hnone
  obtain ⟨sent, hsent⟩ := List.exists_mem_of_ne_nil _ hnone
  obtain ⟨session, json, c, action, amount, player, hand, rfl, hacts⟩ :=
    request_sent h horder (mem_requestsTo.mp hsent)
  obtain ⟨heap, hand', other, request, happly, hasks⟩ := hacts.asks h
  obtain ⟨hlistener, rfl⟩ := hasks.request_iff.mp (mem_requestsTo.mp hsent)
  have hother : session ≠ listener := by
    rintro rfl
    obtain ⟨playerId, hsession, hget⟩ := hacts.registered
    obtain rfl := Option.some.inj (((hinverse _ _).mp hlistener).symm.trans hsession)
    have hmem := (h.playing hand hacts.current).1.mem other hasks.opponent.1
    exact hasks.opponent.2 (Option.some.inj ((h.getPlayer hmem).symm.trans hget))
  exact .inr ⟨sent, (hasks.requests listener).trans (if_pos hlistener),
    .acts hother hacts happly hasks hlistener⟩

theorem Settled.length_le {requests : List ActionRequest} {answers : ℕ} {playerId : String}
    (h : Settled s requests answers playerId) : requests.length ≤ answers + 1 := by
  rcases h with hle | ⟨old, request, _, _, rfl, rfl, -⟩
  · exact hle.trans (Nat.le_succ answers)
  · rw [List.length_append, List.length_singleton]

theorem Acts.isActionOf {action : String} {amount : ℤ} {player : PlayerRef} {hand : Hand}
    (hacts : Acts s session json c action amount player hand) (other : SessionId) :
    (Event.message session (some json) c).isActionOf other = decide (session = other) := by
  obtain ⟨payload, hpayload, -⟩ := actionOf_eq_some.mp hacts.message
  simp [Event.isActionOf, hpayload]

/-- What the other player's action leaves: the hand, with the player asked on turn. -/
theorem Asks.turn_after (h : TableInv Unfolded s.tableManager s.nextRef) {action : String}
    {amount : ℤ} {player other : PlayerRef} {hand hand' : Hand} {heap : Heap}
    {request : ActionRequest} (hacts : Acts s session json c action amount player hand)
    (happly : PlayerAction.applyAction s.tableManager.heap hand player action amount c.now
      = (true, heap, hand'))
    (hasks : Asks s player hand hand' (s.step (.message session (some json) c)).2 other request)
    (hfold : action ≠ "fold") :
    let s' := (s.step (.message session (some json) c)).1
    s'.hand = some hand' ∧ hand'.id = request.handId ∧ hand'.currentPlayerToAct = some other ∧
      (s'.tableManager.heap other).id = (s.tableManager.heap other).id := by
  obtain ⟨haction, hhand, ⟨playerId, hsession, hget⟩, hvalid⟩ := hacts
  obtain ⟨heap', after, happly', hrests, hafter⟩ := step_act h hhand haction hsession hget hvalid
  obtain ⟨-, rfl⟩ := Prod.mk.inj (Prod.mk.inj (happly.symm.trans happly')).2
  obtain ⟨hplay, hun⟩ := h.playing hand hhand
  rw [if_neg (mt (applied_ends hplay happly hun).mp hfold)] at hafter
  exact ⟨hafter, (applied_id happly).trans hasks.handId.symm, hasks.turn,
    congrArg Presence.id (hrests.presence other)⟩

section Step
variable {config : Config} {pre : List Event} {e : Event}
  (h : TableInv Unfolded s.tableManager s.nextRef) (hpaired : Paired pre s)
  (horder : SeatOrder s.tableManager.table)
include h hpaired

/-- The player on turn is this session's, and only it acts for him. -/
theorem Settled.unasked {requests : List ActionRequest} {answers : ℕ} {playerId : String}
    (hsettled : Settled s requests answers playerId)
    (hl : s.sessionToPlayer.lookup session = some playerId) :
    Settled (s.step e).1 requests (answers + if e.isActionOf session then 1 else 0) playerId := by
  by_cases hown : e.isActionOf session = true
  · rw [if_pos hown]
    exact .inl hsettled.length_le
  rw [if_neg hown, add_zero]
  rcases hsettled with hle | ⟨old, request, hand, p, hrequests, hlen, hhand, hid, hturn, rfl⟩
  · exact .inl hle
  have hquiet : ∀ other json c action amount player hand, e = .message other (some json) c →
      ¬Acts s other json c action amount player hand := by
    rintro other json c action amount player hand' rfl hacts
    obtain rfl := hacts.session_eq hpaired.inverse hhand hturn hl
    rw [hacts.isActionOf, decide_eq_true_eq] at hown
    exact hown rfl
  obtain ⟨hhand', hids⟩ := (step_moves h e).keeps h hhand hquiet
  exact .inr ⟨old, request, hand, p, hrequests, hlen, hhand', hid, hturn, hids p⟩

/-- The other player was on turn, so that no request waited. -/
theorem Settled.asked {requests : List ActionRequest} {answers : ℕ} {playerId : String}
    {request : ActionRequest} (hsettled : Settled s requests answers playerId)
    (hl : s.sessionToPlayer.lookup session = some playerId)
    (hquestions : Questions s session request e) (hno : ¬FoldsAsked s e) :
    Settled (s.step e).1 (requests ++ [request])
      (answers + if e.isActionOf session then 1 else 0) playerId := by
  cases hquestions with
  | @acts other json c action amount player turn hand hand' heap hother hacts happly hasks
      hlistener =>
    obtain rfl := Option.some.inj (((hpaired.inverse _ _).mp hlistener).symm.trans hl)
    have hcount : (Event.message other (some json) c).isActionOf session = false := by
      rw [hacts.isActionOf, decide_eq_false_iff_not]
      exact hother
    rw [hcount, if_neg Bool.false_ne_true, add_zero]
    rcases hsettled with hle | ⟨_, _, _, p, -, -, hhand, -, hturn, hp⟩
    swap
    · exact absurd (hacts.session_eq hpaired.inverse hhand hturn (hp ▸ hl)) hother
    have hfold : action ≠ "fold" :=
      not_fold_of_request h hno hacts (hasks.request_iff.mpr ⟨hlistener, rfl⟩)
    obtain ⟨hhand', hid, hturn, hsame⟩ := hasks.turn_after h hacts happly hfold
    rcases Nat.lt_or_eq_of_le hle with hlt | heq
    · refine .inl ?_
      rw [List.length_append, List.length_singleton]
      exact hlt
    · exact .inr ⟨requests, request, hand', turn, rfl, heq, hhand', hid, hturn, hsame⟩

include horder

/-- The invariant of a session that has a player before and after the step. -/
theorem Settled.step {requests : List ActionRequest} {answers : ℕ} {playerId : String}
    (hsettled : Settled s requests answers playerId)
    (hl : s.sessionToPlayer.lookup session = some playerId) (hno : ¬FoldsAsked s e) :
    Settled (s.step e).1 (requests ++ requestsTo session (s.step e).2)
      (answers + if e.isActionOf session then 1 else 0) playerId := by
  rcases requestsTo_step h horder hpaired.inverse e session with hnil | ⟨request, hone, hquestions⟩
  · rw [hnil, List.append_nil]
    exact hsettled.unasked h hpaired hl
  · rw [hone]
    exact hsettled.asked h hpaired hl hquestions hno

/-- Nobody asks a session before it is welcomed. -/
theorem requestsTo_unseen (hunseen : ∀ e ∈ pre, e.session ≠ some session) :
    requestsTo session (s.step e).2 = [] := by
  rcases requestsTo_step h horder hpaired.inverse e session with hnil | ⟨request, -, hquestions⟩
  · exact hnil
  · cases hquestions with
    | acts _ _ _ _ hlistener =>
      obtain ⟨⟨e', he', hsession⟩, -⟩ :=
        hpaired.seen session _ ((hpaired.inverse _ _).mp hlistener)
      exact absurd hsession (hunseen e' he')

end Step

/-! ### Runs -/

theorem trace_requests (config : Config) (session : SessionId) (pre : List Event) (e : Event) :
    requestsTo session ((machine config).trace (pre ++ [e]))
      = requestsTo session ((machine config).trace pre) ++
        requestsTo session (((machine config).run pre).step e).2 := by
  rw [Machine.trace_concat, requestsTo_append]
  rfl

theorem Pending.concat {config : Config} {pre : List Event} {e : Event}
    (hpending : Pending config session pre ((machine config).run pre))
    (hsessions : FreshSessions (pre ++ [e])) (hids : FreshIds pre)
    (hname : ∀ json c name provided, e = .message session (some json) c →
      joinOf json = some (name, provided) → provided = "")
    (hno : ¬FoldsAsked ((machine config).run pre) e) :
    Pending config session (pre ++ [e]) ((machine config).run (pre ++ [e])) := by
  obtain ⟨hbefore, hfirst⟩ := freshSessions_concat.mp hsessions
  have h := run_inv config pre
  have horder := run_seatOrder config pre
  have hpaired := run_paired config hbefore hids
  constructor
  · intro hunseen
    have hpre : ∀ e' ∈ pre, e'.session ≠ some session := fun e' he' => hunseen e' (by simp [he'])
    rw [trace_requests, hpending.unseen hpre, requestsTo_unseen h hpaired horder hpre]
    rfl
  · intro playerId hl
    rw [Machine.run_concat] at hl ⊢
    rw [trace_requests, actionsOf_concat]
    by_cases hwelcomed : e.welcomed = some session
    · have hpre : ∀ e' ∈ pre, e'.session ≠ some session := fun e' he' =>
        hwelcomed ▸ hfirst e' he' (by rw [hwelcomed]; rfl)
      rw [hpending.unseen hpre, requestsTo_unseen h hpaired horder hpre]
      exact .inl (Nat.zero_le _)
    · have hl := (run_moves config pre e).mapped hwelcomed (fun json c name provided he hjoin => by
        rw [hname json c name provided he hjoin]
        rfl) hl
      exact (hpending.settled playerId hl).step h hpaired horder hl hno

/-- An answer names the hand in progress. -/
theorem Pending.no_mismatch {config : Config} {pre : List Event} {e : Event}
    (hpending : Pending config session pre ((machine config).run pre))
    (hanswers : ∀ json c payload, e = .message session (some json) c →
      payloadOf json "action" = some payload → ∃ request,
        (requestsTo session ((machine config).trace pre))[actionsOf session pre]? = some request ∧
        readString payload "hand_id" = .ok request.handId) (text : String) :
    .send session (.error "invalid_hand" text) ∉ (((machine config).run pre).step e).2 := by
  intro hsent
  obtain ⟨_, c, rfl, hreply⟩ := error_sent (run_inv config pre) (run_seatOrder config pre) hsent
  cases hreply with
  | error hcode => exact hcode rfl
  | @invalidHand json payload handId action amount playerId htext hpayload hfields hl hother =>
    subst htext
    obtain ⟨request, hnext, hnamed⟩ := hanswers json c payload rfl hpayload
    obtain ⟨hread, -⟩ := actionFields_reads hfields
    obtain rfl := Except.ok.inj (hnamed.symm.trans hread)
    rcases hpending.settled playerId hl with
      hle | ⟨old, last, hand, p, hrequests, hlen, hhand, hid, -⟩
    · rw [List.getElem?_eq_none hle] at hnext
      cases hnext
    · rw [hrequests, ← hlen, List.getElem?_concat_length] at hnext
      obtain rfl := Option.some.inj hnext
      exact hother hand hhand hid

theorem run_pending {config : Config} {es : List Event} (hsessions : FreshSessions es)
    (hids : FreshIds es) (hno : (machine config).EveryStep (fun s e => ¬FoldsAsked s e) es)
    (hbot : AnswersRequests config session es) :
    Pending config session es ((machine config).run es) := by
  induction es using List.reverseRecOn with
  | nil => exact ⟨fun _ => rfl, fun playerId hl => nomatch hl⟩
  | append_singleton es e ih =>
    obtain ⟨hall, hlast⟩ := ((machine config).everyStep_concat _ es e).mp hno
    obtain ⟨hids', -⟩ := freshIds_concat.mp hids
    have hpending := ih (freshSessions_concat.mp hsessions).1 hids' hall fun pre json c hpre =>
      hbot pre json c (hpre.trans (List.prefix_append es [e]))
    refine hpending.concat hsessions hids' ?_ hlast
    rintro json c name provided rfl
    exact (hbot es json c (List.prefix_refl _)).1 name provided

/-- In a run every request is live, and a session that answers its requests is
never told of a wrong hand, exactly when nobody folds while the other player has
a session. -/
theorem run_requests_iff (config : Config) {es : List Event} (hsessions : FreshSessions es)
    (hids : FreshIds es) :
    ((machine config).EveryStep RequestsLive es ∧ ∀ session, AnswersRequests config session es →
      ∀ text, .send session (.error "invalid_hand" text) ∉ (machine config).trace es) ↔
      (machine config).EveryStep (fun s e => ¬FoldsAsked s e) es := by
  have hsteps : (machine config).EveryStep RequestsLive es ↔
      (machine config).EveryStep (fun s e => ¬FoldsAsked s e) es :=
    (machine config).everyStep_congr
      (fun pre e => requestsLive_iff (run_inv config pre) (run_seatOrder config pre) e) es
  constructor
  · exact fun hh => hsteps.mp hh.1
  · intro hno
    refine ⟨hsteps.mpr hno, fun session hbot text hmem => ?_⟩
    obtain ⟨pre, e, hpre, hsent⟩ := (machine config).mem_trace_iff.mp hmem
    have hbefore : pre <+: es := (List.prefix_append pre [e]).trans hpre
    have hpending := run_pending (hsessions.of_prefix hbefore) (hids.of_prefix hbefore)
      (fun pre' x hx => hno pre' x (hx.trans hbefore))
      fun pre' json c hx => hbot pre' json c (hx.trans hbefore)
    refine hpending.no_mismatch ?_ text hsent
    rintro json c payload rfl
    exact (hbot pre json c hpre).2 payload

/-! ### Alice is asked for a hand that is over -/

theorem answersRequests_nil (config : Config) (session : SessionId) :
    AnswersRequests config session [] := by
  intro pre json c hpre
  simp at hpre

theorem answersRequests_concat {config : Config} {es : List Event} {e : Event}
    (hbot : AnswersRequests config session es)
    (hlast : ∀ json c, e = .message session (some json) c →
      (∀ name provided, joinOf json = some (name, provided) → provided = "") ∧
      ∀ payload, payloadOf json "action" = some payload → ∃ request,
        (requestsTo session ((machine config).trace es))[actionsOf session es]? = some request ∧
        readString payload "hand_id" = .ok request.handId) :
    AnswersRequests config session (es ++ [e]) := by
  intro pre json c hpre
  rcases List.prefix_concat_iff.mp hpre with heq | hpre
  · obtain ⟨rfl, he⟩ := List.append_inj' heq rfl
    exact hlast json c (List.singleton_inj.mp he).symm
  · exact hbot pre json c hpre

/-- Every request is live as long as nobody folds. -/
theorem run_requests_bobCalls : (machine ⟨30000, 60000⟩).EveryStep RequestsLive bobCalls := by
  refine ((run_requests_iff ⟨30000, 60000⟩ (by decide) (by decide)).mpr ?_).1
  rintro pre e hpre ⟨session, json, c, amount, player, hand, other, rfl, hacts, -⟩
  have hmem : .message session (some json) c ∈ bobCalls := hpre.subset (by simp)
  have hmessage := hacts.message
  simp only [bobCalls, bothJoined, sent, List.cons_append, List.nil_append, List.mem_cons,
    List.not_mem_nil, or_false, reduceCtorEq, false_or, Event.message.injEq, Option.some.injEq]
    at hmem
  rcases hmem with ⟨-, rfl, rfl⟩ | ⟨-, rfl, rfl⟩ | ⟨-, rfl, rfl⟩
  · cases hmessage
  · cases hmessage
  · have hfold : ((actionOf (Client.Message.action "hand_1" "call" 100).toJson (.plain "1")).map
        fun fields => fields.2.1) = some "fold" :=
      congrArg (Option.map fun fields => fields.2.1) hmessage
    exact absurd hfold (by decide +kernel)

def bobFolds : List Event := bothJoined ++ [sent 1 (.action "hand_1" "fold" 0)]

def aliceAnswers : Event := sent 0 (.action "hand_1" "call" 0)

theorem answersRequests_aliceAnswers :
    AnswersRequests ⟨30000, 60000⟩ 0 (bobFolds ++ [aliceAnswers]) := by
  have hquiet : ∀ es e, AnswersRequests ⟨30000, 60000⟩ 0 es →
      (∀ json c, e ≠ .message 0 (some json) c) → AnswersRequests ⟨30000, 60000⟩ 0 (es ++ [e]) :=
    fun es e hbot hno => answersRequests_concat hbot fun json c he => (hno json c he).elim
  have hwelcomed : AnswersRequests ⟨30000, 60000⟩ 0 [.connect 0 "alice", .connect 1 "bob"] :=
    hquiet [.connect 0 "alice"] _ (hquiet [] _ (answersRequests_nil _ 0) (by simp)) (by simp)
  have hjoined : AnswersRequests ⟨30000, 60000⟩ 0
      [.connect 0 "alice", .connect 1 "bob", sent 0 (.join "Alice")] := by
    refine answersRequests_concat hwelcomed ?_
    intro json c he
    cases he
    refine ⟨fun name provided hjoin => ?_, fun payload hpayload => ?_⟩
    · cases hjoin
      rfl
    · cases hpayload
  have hfolded : AnswersRequests ⟨30000, 60000⟩ 0 bobFolds :=
    hquiet bothJoined _ (hquiet _ _ hjoined (by simp [sent])) (by simp [sent])
  refine answersRequests_concat hfolded ?_
  intro json c he
  cases he
  refine ⟨fun name provided hjoin => ?_, fun payload hpayload => ?_⟩
  · cases hjoin
  · cases hpayload
    refine ⟨{
      handId := "hand_1"
      possibleActions := ["fold", "call", "raise"]
      callAmount := 0
      minRaise := 4
      maxRaise := 400
      timeoutMs := 30000 }, by decide +kernel, rfl⟩

/-- Alice is asked for the hand Bob has folded, and her answer is an error. -/
theorem run_requests_aliceAnswers :
    FreshSessions (bobFolds ++ [aliceAnswers]) ∧ FreshIds (bobFolds ++ [aliceAnswers]) ∧
      ¬(machine ⟨30000, 60000⟩).EveryStep RequestsLive bobFolds ∧
      AnswersRequests ⟨30000, 60000⟩ 0 (bobFolds ++ [aliceAnswers]) ∧
      .send 0 (.error "invalid_hand" "No active hand or hand mismatch") ∈
        (machine ⟨30000, 60000⟩).trace (bobFolds ++ [aliceAnswers]) := by
  refine ⟨by decide, by decide, ?_, answersRequests_aliceAnswers, by decide +kernel⟩
  intro hlive
  have hlast := hlive bothJoined (sent 1 (.action "hand_1" "fold" 0)) (List.prefix_refl _)
  have hstate := run_inv ⟨30000, 60000⟩ bothJoined
  rw [requestsLive_iff hstate (run_seatOrder _ _)] at hlast
  refine hlast ⟨1, _, _, 0, 1, _, 0, rfl, ⟨?_, (Option.some_get (by decide +kernel)).symm,
    ⟨"bob", by decide +kernel, by decide +kernel⟩, by decide +kernel⟩, by decide +kernel,
    by decide +kernel, by decide +kernel⟩
  decide +kernel

end GameSession
end HeadsUp.Server
