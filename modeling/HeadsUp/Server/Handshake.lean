import HeadsUp.Server.Requests

/-!
# The first messages of a session

`sendWelcome` adds a session to `player_sessions_` before its client has joined,
so that every broadcast reaches it; the client takes the next message for the
answer to its join.
-/

namespace HeadsUp.Server
open HeadsUp.Core HeadsUp.Common HeadsUp.Lib

namespace GameSession
variable {s s' : GameSession} {session : SessionId} {c : Choices} {json : Json}
  {text : Option Json} {es : List Event}

/-- The session has been welcomed and no join has come from it. -/
structure Awaits (es : List Event) (session : SessionId) : Prop where
  welcomed : ∃ playerId, .connect session playerId ∈ es
  joins : ∀ text c, .message session text c ∈ es → ¬OfType text "join"

def AnswersJoin : Message → Prop
  | .joinAck _ _ => True
  | .error _ _ => True
  | _ => False

/-- Until its join a session hears its welcome only, and at its join the reply
comes first. -/
structure Handshakes (config : Config) (es : List Event) : Prop where
  welcome : ∀ session pre, pre <+: es → Awaits pre session → ∃ playerId,
    .connect session playerId ∈ pre ∧
      heard session ((machine config).trace pre) = [.welcome playerId]
  reply : ∀ session pre text c, pre ++ [.message session text c] <+: es → Awaits pre session →
    OfType text "join" → ∃ reply rest,
      heard session (((machine config).run pre).step (.message session text c)).2 = reply :: rest ∧
        AnswersJoin reply

/-- A session that awaits the answer to its join hears something else: of what
another one does, of another message of its own, or of its own reconnection. -/
def Intrudes (config : Config) (es : List Event) (e : Event) : Prop :=
  ∃ session, Awaits es session ∧
    ((e.session ≠ some session ∧ Announces ((machine config).run es) e ∧
        ((machine config).run es).Listens session) ∨
      (∃ text c, e = .message session text c ∧ ¬OfType text "join") ∨
      ∃ json c name provided player, e = .message session (some json) c ∧
        joinOf json = some (name, provided) ∧
        ((machine config).run es).absentPlayer provided = some player ∧
        ∀ other, ((machine config).run es).playerSessions.lookup provided = some other →
          other = session)

/-! ### Awaiting -/

theorem joinOf_type {name provided : String} (hjoin : joinOf json = some (name, provided)) :
    OfType (some json) "join" := by
  obtain ⟨payload, hpayload, -⟩ := joinOf_eq_some.mp hjoin
  exact ⟨json, rfl, (payloadOf_eq_some.mp hpayload).1⟩

theorem OfType.unique {type type' : String} (h : OfType text type) (h' : OfType text type') :
    type = type' := by
  obtain ⟨json, rfl, htype⟩ := h
  obtain ⟨_, heq, htype'⟩ := h'
  obtain rfl := Option.some.inj heq
  exact Except.ok.inj (htype.symm.trans htype')

/-- A session awaits its join from its welcome on. -/
theorem Awaits.cases {e : Event} (hsessions : FreshSessions (es ++ [e]))
    (h : Awaits (es ++ [e]) session) :
    (∃ playerId, e = .connect session playerId ∧ ∀ e' ∈ es, e'.session ≠ some session) ∨
      Awaits es session ∧ e.welcomed ≠ some session ∧
        ∀ text c, e = .message session text c → ¬OfType text "join" := by
  obtain ⟨⟨playerId, hmem⟩, hno⟩ := h
  obtain ⟨-, hfirst⟩ := freshSessions_concat.mp hsessions
  rw [List.mem_append, List.mem_singleton] at hmem
  rcases hmem with hmem | rfl
  · have hjoins : ∀ text c, .message session text c ∈ es → ¬OfType text "join" :=
      fun text c hm => hno text c (List.mem_append_left _ hm)
    refine .inr ⟨⟨⟨playerId, hmem⟩, hjoins⟩, ?_, ?_⟩
    · intro hwelcomed
      exact hfirst _ hmem (by rw [hwelcomed]; rfl) hwelcomed.symm
    · rintro text c rfl
      exact hno text c (by simp)
  · exact .inl ⟨playerId, rfl, fun e' he' => hfirst e' he' rfl⟩

theorem Awaits.concat {e : Event} (h : Awaits es session)
    (hno : ∀ text c, e = .message session text c → ¬OfType text "join") :
    Awaits (es ++ [e]) session := by
  obtain ⟨⟨playerId, hmem⟩, hjoins⟩ := h
  refine ⟨⟨playerId, List.mem_append_left _ hmem⟩, fun text c hm => ?_⟩
  rw [List.mem_append, List.mem_singleton] at hm
  rcases hm with hm | hm
  · exact hjoins text c hm
  · exact hno text c hm.symm

/-- The id of a session that awaits its join is not a player's yet. -/
theorem run_unseated (config : Config) (hsessions : FreshSessions es) (hids : FreshIds es)
    (h : Awaits es session) {playerId : String}
    (hl : ((machine config).run es).sessionToPlayer.lookup session = some playerId) :
    ((machine config).run es).tableManager.getPlayer playerId = none := by
  induction es using List.reverseRecOn generalizing playerId with
  | nil => cases hl
  | append_singleton es e ih =>
    have hbefore := (freshSessions_concat.mp hsessions).1
    obtain ⟨hids', hnew⟩ := freshIds_concat.mp hids
    have hpaired := run_paired config hbefore hids'
    rw [Machine.run_concat] at hl ⊢
    rcases h.cases hsessions with ⟨given, rfl, -⟩ | ⟨hawaits, hwelcomed, hno⟩
    · -- a new id is nobody's
      obtain rfl : given = playerId := Option.some.inj ((AList.lookup_insert _).symm.trans hl)
      refine getPlayer_eq_none_iff.mpr fun p hp hsame => ?_
      have hid : (((machine config).run es).tableManager.heap p).id = given := hsame
      exact hnew given rfl (hid ▸ hpaired.ids p hp)
    · have hmove := run_moves config es e
      have hl := hmove.mapped hwelcomed
        (fun json c _ _ he hjoin => absurd (joinOf_type hjoin) (hno _ c he)) hl
      have hnone := getPlayer_eq_none_iff.mp (ih hbefore hids' hawaits hl)
      refine getPlayer_eq_none_iff.mpr fun p hp => ?_
      rcases hmove.ids with ⟨hplayers, hsame⟩ | ⟨other, json, c, _, _, seated, he, hjoin, hsession,
        hseats⟩
      · rw [hplayers] at hp
        rw [hsame]
        exact hnone p hp
      · rw [hseats.players, List.mem_append, List.mem_singleton] at hp
        by_cases hfresh : p = ((machine config).run es).nextRef
        · rw [hfresh]
          have hid : _ = seated := congrArg Presence.id hseats.player
          intro hsame
          obtain rfl := hid.symm.trans hsame
          obtain rfl := hpaired.inverse.symm.left_unique hsession hl
          exact hno _ c he (joinOf_type hjoin)
        · have hother := congrArg Presence.id (hseats.others p hfresh)
          exact fun hsame => hnone p (hp.resolve_right hfresh) (hother.symm.trans hsame)

/-! ### Hearing -/

theorem heard_of_not_listens (h : TableInv Unfolded s.tableManager s.nextRef)
    (horder : SeatOrder s.tableManager.table)
    (hinverse : Inverse s.playerSessions s.sessionToPlayer) {e : Event}
    (hother : e.session ≠ some session) (hno : Announces s e → ¬s.Listens session) :
    heard session (s.step e).2 = [] := by
  by_cases ha : Announces s e
  · exact not_not.mp (mt (heard_announced h hinverse ha hother).mp (hno ha))
  · exact heard_quiet horder ha hother

/-- Whatever a session says is answered. -/
theorem heard_own_message (h : TableInv Unfolded s.tableManager s.nextRef)
    (horder : SeatOrder s.tableManager.table)
    (hinverse : Inverse s.playerSessions s.sessionToPlayer) (text : Option Json) (c : Choices) :
    heard session (s.step (.message session text c)).2 ≠ [] := by
  by_cases ha : Announces s (.message session text c)
  · cases ha with
    | acts hacts =>
      obtain ⟨heap, hand', -, hsent⟩ := step_acts h hacts
      obtain ⟨playerId, hsession, -⟩ := hacts.registered
      exact hsent.heard_ne_nil.mpr ⟨playerId, (hinverse _ _).mpr hsession⟩
    | starts hsecond =>
      obtain ⟨player, playerId, seat, started, heffects⟩ := step_starts h hsecond c
      rw [heffects]
      simp [heard]
    | takes hjoin habsent hfree =>
      obtain ⟨seat, heffects⟩ := step_takes hjoin habsent hfree c
      rw [heffects, heard_append, heard_send_self]
      simp
  · obtain ⟨reply, -, hreply, -⟩ := heard_answered (message_answered horder ha)
    rw [hreply]
    exact List.cons_ne_nil _ _

/-- A session that nothing has come from has heard nothing. -/
theorem run_unheard (config : Config) (hsessions : FreshSessions es) (hids : FreshIds es)
    (hunseen : ∀ e ∈ es, e.session ≠ some session) :
    heard session ((machine config).trace es) = [] := by
  induction es using List.reverseRecOn with
  | nil => rfl
  | append_singleton es e ih =>
    have hbefore := (freshSessions_concat.mp hsessions).1
    have hids' := (freshIds_concat.mp hids).1
    have hpaired := run_paired config hbefore hids'
    have hes : ∀ e ∈ es, e.session ≠ some session := fun e he => hunseen e (by simp [he])
    rw [Machine.trace_concat, heard_append, ih hbefore hids' hes]
    refine heard_of_not_listens (run_inv config es) (run_seatOrder config es) hpaired.inverse
      (hunseen e (by simp)) ?_
    rintro - ⟨playerId, hl⟩
    obtain ⟨⟨e', he', hsession⟩, -⟩ := hpaired.seen session playerId ((hpaired.inverse _ _).mp hl)
    exact hes e' he' hsession

/-- Nothing reaches a session that awaits its join, unless it intrudes. -/
theorem run_awaits (config : Config) (hsessions : FreshSessions es) (hids : FreshIds es) {e : Event}
    (h : Awaits es session) (hwelcomed : e.welcomed ≠ some session)
    (hjoin : ∀ text c, e = .message session text c → ¬OfType text "join")
    (hno : ¬Intrudes config es e) :
    heard session (((machine config).run es).step e).2 = [] := by
  have hpaired := run_paired config hsessions hids
  by_cases hown : e.session = some session
  swap
  · exact heard_of_not_listens (run_inv config es) (run_seatOrder config es) hpaired.inverse hown
      fun ha hlistens => hno ⟨session, h, .inl ⟨hown, ha, hlistens⟩⟩
  cases e with
  | connect other playerId => exact absurd hown hwelcomed
  | message other text c =>
    obtain rfl := Option.some.inj hown
    exact absurd ⟨other, h, .inr (.inl ⟨text, c, rfl, hjoin text c rfl⟩)⟩ hno
  | disconnect other c =>
    obtain rfl := Option.some.inj hown
    rw [step_quiet_disconnect]
    · rfl
    · intro ha
      cases ha with
      | leaves hsession hget =>
        cases (run_unseated config hsessions hids h hsession).symm.trans hget
  | timerExpires i => cases hown
  | timerRuns i c => cases hown

/-! ### The reply to a join -/

theorem heard_join (h : TableInv Unfolded s.tableManager s.nextRef)
    (horder : SeatOrder s.tableManager.table) (htype : OfType text "join")
    (hno : ∀ json name provided player, text = some json → joinOf json = some (name, provided) →
      s.absentPlayer provided = some player →
      ¬∀ other, s.playerSessions.lookup provided = some other → other = session) (c : Choices) :
    ∃ reply rest, heard session (s.step (.message session text c)).2 = reply :: rest ∧
      AnswersJoin reply := by
  by_cases ha : Announces s (.message session text c)
  · cases ha with
    | acts hacts =>
      obtain ⟨payload, hpayload, -⟩ := actionOf_eq_some.mp hacts.message
      exact absurd (htype.unique ⟨_, rfl, (payloadOf_eq_some.mp hpayload).1⟩) (by decide)
    | starts hsecond =>
      obtain ⟨player, playerId, seat, started, heffects⟩ := step_starts h hsecond c
      refine ⟨.joinAck playerId seat, heard session (s.broadcastJson c (.handStarted started)), ?_,
        trivial⟩
      rw [heffects, heard_append]
      simp [heard]
    | takes hjoin habsent hfree => exact absurd hfree (hno _ _ _ _ rfl hjoin habsent)
  · obtain ⟨reply, hreply, hheard, -⟩ := heard_answered (message_answered horder ha)
    refine ⟨reply, [], hheard, ?_⟩
    cases hreply with
    | error => trivial
    | invalidHand => trivial
    | joinAck => trivial
    | pong hping => exact absurd (htype.unique hping) (by decide)
    | topUpAck htop => exact absurd (htype.unique htop) (by decide)

/-- Who takes a player's place hears of it before the answer. -/
theorem heard_takes {name provided : String} {player : PlayerRef}
    (hjoin : joinOf json = some (name, provided)) (habsent : s.absentPlayer provided = some player)
    (hfree : ∀ other, s.playerSessions.lookup provided = some other → other = session)
    (c : Choices) : ∃ rest, heard session (s.step (.message session (some json) c)).2
      = .playerReconnected provided :: rest := by
  obtain ⟨seat, heffects⟩ := step_takes hjoin habsent hfree c
  have hlistens : (s.moveSession provided session).Listens session :=
    ⟨provided, by rw [moveSession_lookup, if_pos rfl]⟩
  rw [heffects, heard_append]
  cases hheard : heard session
      ((s.moveSession provided session).broadcastJson c (.playerReconnected provided)) with
  | nil => exact absurd hheard (heard_broadcastJson_ne_nil.mpr hlistens)
  | cons message rest =>
    have hmem : message ∈ heard session
        ((s.moveSession provided session).broadcastJson c (.playerReconnected provided)) := by
      rw [hheard]
      exact List.mem_cons_self
    rw [broadcastJson_send (mem_heard.mp hmem)]
    exact ⟨_, rfl⟩

/-! ### Runs -/

theorem run_welcome (config : Config) (hsessions : FreshSessions es) (hids : FreshIds es)
    (hno : ∀ pre e, pre ++ [e] <+: es → ¬Intrudes config pre e) (h : Awaits es session) :
    ∃ playerId, .connect session playerId ∈ es ∧
      heard session ((machine config).trace es) = [.welcome playerId] := by
  induction es using List.reverseRecOn with
  | nil =>
    obtain ⟨playerId, hmem⟩ := h.welcomed
    cases hmem
  | append_singleton es e ih =>
    have hbefore := (freshSessions_concat.mp hsessions).1
    have hids' := (freshIds_concat.mp hids).1
    rw [Machine.trace_concat, heard_append]
    rcases h.cases hsessions with ⟨playerId, rfl, hunseen⟩ | ⟨hawaits, hwelcomed, hjoin⟩
    · rw [run_unheard config hbefore hids' hunseen]
      exact ⟨playerId, by simp, heard_send_self _⟩
    · have hpre : ∀ pre x, pre ++ [x] <+: es → ¬Intrudes config pre x :=
        fun pre x hx => hno pre x (hx.trans (List.prefix_append es [e]))
      obtain ⟨playerId, hmem, hheard⟩ := ih hbefore hids' hpre hawaits
      refine ⟨playerId, List.mem_append_left _ hmem, ?_⟩
      have hquiet := run_awaits config hbefore hids' hawaits hwelcomed hjoin
        (hno es e (List.prefix_refl _))
      rw [hheard]
      exact congrArg ([Message.welcome playerId] ++ ·) hquiet

/-- A session that hears its welcome only is not told of this event. -/
theorem Handshakes.silent {config : Config} {pre : List Event} {e : Event}
    (h : Handshakes config es) (hpre : pre ++ [e] <+: es) (hawaits : Awaits pre session)
    (hjoin : ∀ text c, e = .message session text c → ¬OfType text "join") :
    heard session (((machine config).run pre).step e).2 = [] := by
  obtain ⟨playerId, -, hbefore⟩ :=
    h.welcome session pre ((List.prefix_append pre [e]).trans hpre) hawaits
  obtain ⟨playerId', -, hafter⟩ := h.welcome session (pre ++ [e]) hpre (hawaits.concat hjoin)
  rw [Machine.trace_concat, heard_append, hbefore] at hafter
  exact (List.cons.inj hafter).2

/-- In a run no handshake is interrupted exactly when nothing intrudes on a
session that awaits the answer to its join. -/
theorem handshakes_iff (config : Config) (hsessions : FreshSessions es) (hids : FreshIds es) :
    Handshakes config es ↔ ∀ pre e, pre ++ [e] <+: es → ¬Intrudes config pre e := by
  have hfresh : ∀ pre, pre <+: es → FreshSessions pre ∧ FreshIds pre := fun pre hpre =>
    ⟨hsessions.of_prefix hpre, hids.of_prefix hpre⟩
  constructor
  · rintro h pre e hpre ⟨session, hawaits, hcases⟩
    obtain ⟨hsessions', hids'⟩ := hfresh pre ((List.prefix_append pre [e]).trans hpre)
    have hinv := run_inv config pre
    have horder := run_seatOrder config pre
    have hinverse := (run_paired config hsessions' hids').inverse
    rcases hcases with ⟨hother, ha, hlistens⟩ | ⟨text, c, rfl, htype⟩ |
      ⟨json, c, name, provided, player, rfl, hjoin, habsent, hfree⟩
    · refine (heard_announced hinv hinverse ha hother).mpr hlistens (h.silent hpre hawaits ?_)
      rintro text c rfl
      exact absurd rfl hother
    · refine heard_own_message hinv horder hinverse text c (h.silent hpre hawaits ?_)
      rintro _ _ heq
      cases heq
      exact htype
    · obtain ⟨reply, rest, hheard, hreply⟩ :=
        h.reply session pre (some json) c hpre hawaits (joinOf_type hjoin)
      obtain ⟨rest', htold⟩ := heard_takes hjoin habsent hfree c
      rw [htold] at hheard
      obtain ⟨rfl, -⟩ := List.cons.inj hheard
      exact hreply
  · intro hno
    constructor
    · intro session pre hpre hawaits
      obtain ⟨hsessions', hids'⟩ := hfresh pre hpre
      exact run_welcome config hsessions' hids' (fun pre' e hx => hno pre' e (hx.trans hpre))
        hawaits
    · intro session pre text c hpre hawaits htype
      refine heard_join (run_inv config pre) (run_seatOrder config pre) htype ?_ c
      rintro json name provided player rfl hjoin habsent hfree
      exact hno pre _ hpre ⟨session, hawaits,
        .inr (.inr ⟨json, c, name, provided, player, rfl, hjoin, habsent, hfree⟩)⟩

def aliceJoins : List Event := [.connect 0 "alice", sent 0 (.join "Alice")]

theorem handshakes_aliceJoins : Handshakes ⟨30000, 60000⟩ aliceJoins := by
  refine (handshakes_iff ⟨30000, 60000⟩ (by decide) (by decide)).mpr ?_
  rintro pre e hpre ⟨session, ⟨⟨playerId, hmem⟩, -⟩, hcases⟩
  have hevents : pre ++ [e] = [] ++ [.connect 0 "alice"] ∨
      pre ++ [e] = [.connect 0 "alice"] ++ [sent 0 (.join "Alice")] := by
    rcases List.prefix_concat_iff.mp
      (show pre ++ [e] <+: [.connect 0 "alice"] ++ [sent 0 (.join "Alice")] from hpre) with h | h
    · exact .inr h
    · rcases List.prefix_concat_iff.mp (show pre ++ [e] <+: [] ++ [.connect 0 "alice"] from h) with
        h | h
      · exact .inl h
      · simp at h
  rcases hevents with heq | heq
  · obtain ⟨rfl, -⟩ := List.append_inj' heq rfl
    cases hmem
  obtain ⟨rfl, he⟩ := List.append_inj' heq rfl
  obtain rfl := List.singleton_inj.mp he
  obtain ⟨rfl, rfl⟩ : session = 0 ∧ playerId = "alice" := by simpa using hmem
  rcases hcases with ⟨hother, -⟩ | ⟨text, c, heq, htype⟩ |
    ⟨json, c, name, provided, player, heq, hjoin, habsent, -⟩
  · exact hother rfl
  · cases heq
    exact htype ⟨_, rfl, rfl⟩
  · cases heq
    cases hjoin
    cases habsent

/-- Alice leaves while Bob has not joined yet. -/
def aliceLeaves : List Event :=
  [.connect 0 "alice", .connect 1 "bob", sent 0 (.join "Alice"), .disconnect 0 (.plain "1")]

theorem handshakes_aliceLeaves : FreshSessions aliceLeaves ∧ FreshIds aliceLeaves ∧
    heard 1 ((machine ⟨30000, 60000⟩).trace aliceLeaves)
      = [.welcome "bob", .playerDisconnected "alice" 30000] ∧
    ¬Handshakes ⟨30000, 60000⟩ aliceLeaves := by
  have hheard : heard 1 ((machine ⟨30000, 60000⟩).trace aliceLeaves)
      = [.welcome "bob", .playerDisconnected "alice" 30000] := by decide +kernel
  refine ⟨by decide, by decide, hheard, fun h => ?_⟩
  have hawaits : Awaits aliceLeaves 1 :=
    ⟨⟨"bob", by simp [aliceLeaves]⟩, by simp [aliceLeaves, sent]⟩
  obtain ⟨playerId, -, halone⟩ := h.welcome 1 aliceLeaves (List.prefix_refl _) hawaits
  rw [hheard] at halone
  cases halone

end GameSession
end HeadsUp.Server
