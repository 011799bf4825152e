import HeadsUp.Server.Spectators
import HeadsUp.Server.Waiting

/-!
# Messages delivered twice

A client that does not know whether its message came through may send it again:
the second one is answered to it alone and changes nothing. What goes with a
message (the clock, ids, shuffles) may differ, but the platform has to convert
a number too large for an `int` to the same one.
-/

namespace HeadsUp.Server
open HeadsUp.Core HeadsUp.Common HeadsUp.Lib

/-- The second list is the first with messages of these sessions delivered again. -/
inductive Retries (again : SessionId → Bool) : List Event → List Event → Prop
  | nil : Retries again [] []
  | event {es es' : List Event} (e : Event) (h : Retries again es es') :
      Retries again (es ++ [e]) (es' ++ [e])
  | retry {es es' : List Event} {session : SessionId} {text : Option Json} {c c' : Choices}
      (h : Retries again (es ++ [.message session text c]) es') (hagain : again session = true)
      (hundef : c'.undefInt = c.undefInt) :
      Retries again (es ++ [.message session text c]) (es' ++ [.message session text c'])

namespace GameSession

/-- Nothing changes, and nobody but the session is told anything. -/
def Echoes (s : GameSession) (session : SessionId) (o : Outcome) : Prop :=
  o.state = s ∧ ∀ listener, listener ≠ session → heard listener o.effects = []

variable {s s' : GameSession} {session : SessionId} {c c' : Choices}

theorem reject_echoes (s : GameSession) (session : SessionId) (code message : String) :
    Echoes s session (s.reject session code message) :=
  ⟨rfl, fun _ hl => heard_send_ne hl.symm _⟩

theorem stop_echoes (s : GameSession) (session : SessionId) (e : Stop) :
    Echoes s session (s.stop session e) := by
  cases e with
  | reply code message => exact reject_echoes s session code message
  | throw e => exact ⟨rfl, fun _ _ => rfl⟩

theorem Echoes.caught {o : Outcome} (h : Echoes s session o) :
    (caught o session).1 = s ∧
      ∀ listener, listener ≠ session → heard listener (caught o session).2 = [] := by
  refine ⟨(caught_state o session).trans h.1, fun listener hl => ?_⟩
  have hreply : ∀ message, heard listener (o.effects ++ [.send session message]) = [] := by
    intro message
    rw [heard_append, h.2 listener hl, heard_send_ne hl.symm, List.append_nil]
  unfold GameSession.caught
  split
  · exact h.2 listener hl
  · exact hreply _
  · exact hreply _

/-! ### Joins -/

/-- A session whose player has a seat is told of it. -/
theorem joinAsNew_echoes (hseated : ¬Watches s session) (name : String) (c : Choices) :
    Echoes s session (s.joinAsNew name session c) := by
  simp only [Watches, Option.mem_def, not_forall] at hseated
  obtain ⟨playerId, hsession, hget⟩ := hseated
  obtain ⟨existing, hget⟩ := Option.ne_none_iff_exists'.mp hget
  simp only [joinAsNew, hsession, hget]
  exact ⟨rfl, fun _ hl => heard_send_ne hl.symm _⟩

/-- Who has just come back is not absent. -/
theorem reconnected_absent (h : TableInv Unfolded s.tableManager s.nextRef) {provided : String}
    {player : PlayerRef} (hget : s.tableManager.getPlayer provided = some player)
    (session : SessionId) (c : Choices) :
    (reconnect.reconnected s player provided session c).state.absentPlayer provided = none := by
  rw [Option.eq_none_iff_forall_ne_some]
  intro q habsent
  obtain ⟨-, hget', hstatus⟩ := absentPlayer_eq_some.mp habsent
  obtain ⟨hmem, hid⟩ := getPlayer_mem hget'
  rw [(reconnected_kept player provided session c).1] at hmem
  rw [reconnected_id] at hid
  have hq := h.getPlayer hmem
  rw [hid, hget] at hq
  obtain rfl := Option.some.inj hq
  have hpresence := reconnected_presence (s := s) player provided session c player
  rw [if_pos rfl] at hpresence
  exact hstatus (congrArg Presence.connectionStatus hpresence)

theorem Seats.absent (h : TableInv Unfolded s.tableManager s.nextRef) {playerId : String}
    (hseats : Seats s s' playerId) {provided : String} (habsent : s.absentPlayer provided = none) :
    s'.absentPlayer provided = none := by
  rw [Option.eq_none_iff_forall_ne_some] at habsent ⊢
  intro q habsent'
  obtain ⟨hne, hget, hstatus⟩ := absentPlayer_eq_some.mp habsent'
  obtain ⟨hmem, hid⟩ := getPlayer_mem hget
  by_cases hnew : q = s.nextRef
  · rw [hnew] at hstatus
    exact hstatus (congrArg Presence.connectionStatus hseats.player)
  · have hpresence := hseats.others q hnew
    rw [hseats.players] at hmem
    have hold : q ∈ s.tableManager.players :=
      (List.mem_append.mp hmem).resolve_right fun hlast => hnew (List.mem_singleton.mp hlast)
    have hid' : (s.tableManager.heap q).id = provided :=
      (congrArg Presence.id hpresence).symm.trans hid
    refine habsent q (absentPlayer_eq_some.mpr ⟨hne, hid' ▸ h.getPlayer hold, fun hconnected => ?_⟩)
    exact hstatus ((congrArg Presence.connectionStatus hpresence).trans hconnected)

/-- A new player takes the free seat, whatever goes with his message. -/
theorem seatNewPlayer_seats (h : TableInv Unfolded s.tableManager s.nextRef) {playerId : String}
    (hnew : s.tableManager.getPlayer playerId = none) (name : String) {seat : ℤ}
    (hseat : seat = seat1 ∧ s.tableManager.table.seat1 = none ∨
      seat = seat2 ∧ s.tableManager.table.seat1 ≠ none ∧ s.tableManager.table.seat2 = none)
    (session : SessionId) (c : Choices) :
    Seats s (s.seatNewPlayer playerId name seat session c).state playerId := by
  refine (seatNewPlayer_moves h playerId name hseat session c).resolve_left fun hsame => ?_
  have hfree : seat = seat1 ∧ s.tableManager.table.seat1 = none ∨
      seat = seat2 ∧ s.tableManager.table.seat2 = none :=
    hseat.imp_right fun hh => ⟨hh.1, hh.2.2⟩
  have hnone := (h.of_free_seat (hfree.imp And.right And.right)).1
  have hok := assignSeat_new h hnew name hfree
  obtain ⟨-, table, heap, htm, -, -, htable⟩ := assignSeat_cases hok
  have hhand : table.currentHand = none := by
    rcases htable with ⟨-, -, rfl⟩ | ⟨-, -, rfl⟩ <;> exact hnone
  have hrests := (startWhenReady_rests (s := { s with
    tableManager := ⟨table, s.tableManager.players ++ [s.nextRef], heap⟩
    nextRef := s.nextRef + 1 }) hhand c [.seated s.nextRef, .send session (.joinAck playerId seat)]).1
  have hplayers : (s.seatNewPlayer playerId name seat session c).state.tableManager.players
      = s.tableManager.players ++ [s.nextRef] := by
    simp only [seatNewPlayer, hok, Bool.not_true, Bool.false_eq_true, if_false, htm]
    exact hrests.players
  rw [hsame] at hplayers
  simp at hplayers

theorem joinAsNew_cases (h : TableInv Unfolded s.tableManager s.nextRef) (session : SessionId)
    (name : String) : (∀ c, Echoes s session (s.joinAsNew name session c)) ∨
      ∃ playerId, s.sessionToPlayer.lookup session = some playerId ∧
        ∀ c, Seats s (s.joinAsNew name session c).state playerId := by
  cases hsession : s.sessionToPlayer.lookup session with
  | none =>
    simp only [joinAsNew, hsession]
    exact .inl fun _ => reject_echoes s session _ _
  | some playerId =>
    cases hnew : s.tableManager.getPlayer playerId with
    | some existing =>
      refine .inl (joinAsNew_echoes (fun hwatches => ?_) name)
      cases hnew.symm.trans (hwatches playerId hsession)
    | none =>
      simp only [joinAsNew, hsession, hnew]
      by_cases hone : s.tableManager.table.seat1 = none
      · simp only [if_pos hone]
        exact .inr ⟨playerId, rfl, seatNewPlayer_seats h hnew name (.inl ⟨rfl, hone⟩) session⟩
      · by_cases htwo : s.tableManager.table.seat2 = none
        · simp only [if_neg hone, if_pos htwo]
          exact .inr ⟨playerId, rfl, seatNewPlayer_seats h hnew name (.inr ⟨rfl, hone, htwo⟩) session⟩
        · simp only [if_neg hone, if_neg htwo]
          exact .inl fun _ => reject_echoes s session _ _

theorem handleJoin_retry (h : TableInv Unfolded s.tableManager s.nextRef) (payload : Json) :
    let s' := (s.handleJoin payload session c).state
    Echoes s' session (s'.handleJoin payload session c') := by
  unfold handleJoin
  cases joinFields payload with
  | error e =>
    rw [(stop_echoes s session e).1]
    exact stop_echoes s session e
  | ok fields =>
    obtain ⟨name, provided⟩ := fields
    simp only
    cases habsent : s.absentPlayer provided with
    | some player =>
      obtain ⟨-, hget, -⟩ := absentPlayer_eq_some.mp habsent
      by_cases hfree : ∀ other, s.playerSessions.lookup provided = some other → other = session
      · simp only [reconnect_eq hfree, reconnected_absent h hget]
        exact joinAsNew_echoes (reconnected_watches hget session c) name c'
      · push Not at hfree
        obtain ⟨other, hother, hne⟩ := hfree
        have hrejected : ∀ c, s.reconnect player provided session c = s.reject session
            "player_already_connected" "Player already connected with another session" := by
          intro c
          simp only [reconnect, hother, ne_eq, hne, not_false_eq_true, if_true]
        simp only [hrejected, reject, habsent]
        exact reject_echoes s session _ _
    | none =>
      simp only
      rcases joinAsNew_cases h session name with hechoes | ⟨playerId, hsession, hseats⟩
      · rw [(hechoes c).1, habsent]
        exact hechoes c'
      · rw [(hseats c).absent h habsent]
        refine joinAsNew_echoes (fun hwatches => ?_) name c'
        refine (hseats c).getPlayer_ne_none (hwatches playerId ?_)
        rw [(hseats c).sessions.2]
        exact hsession

/-! ### Actions -/

theorem actionFields_congr (hundef : c'.undefInt = c.undefInt) (payload : Json) :
    actionFields payload c' = actionFields payload c := by
  simp only [actionFields, hundef]

/-- The player of the session may make this move. -/
def MayMove (s : GameSession) (session : SessionId) (handId action : String) (amount : ℤ) : Prop :=
  ∃ playerId hand player, s.sessionToPlayer.lookup session = some playerId ∧
    s.hand = some hand ∧ hand.id = handId ∧ s.tableManager.getPlayer playerId = some player ∧
    PlayerAction.validateAction s.tableManager.heap hand player action amount = true

theorem performAction_echoes {handId action : String} {amount : ℤ}
    (hno : ¬MayMove s session handId action amount) (c : Choices) :
    Echoes s session (s.performAction handId action amount session c) := by
  unfold performAction
  cases hsession : s.sessionToPlayer.lookup session with
  | none => exact reject_echoes s session _ _
  | some playerId =>
    cases hhand : s.tableManager.table.currentHand with
    | none => exact reject_echoes s session _ _
    | some hand =>
      by_cases hid : hand.id = handId
      · have hrefused : (s.tableManager.processPlayerAction playerId action amount c.now).1
            = false := by
          rw [← Bool.not_eq_true, processPlayerAction_iff]
          rintro ⟨hand', player, hhand', hget, hvalid⟩
          obtain rfl := Option.some.inj (hhand.symm.trans hhand')
          exact hno ⟨playerId, hand, player, hsession, hhand, hid, hget, hvalid⟩
        simp only [ne_eq, hid, not_true_eq_false, if_false, hrefused, Bool.not_false, if_true]
        exact reject_echoes s session _ _
      · simp only [ne_eq, hid, not_false_eq_true, if_true]
        exact reject_echoes s session _ _

/-- After his move it is the other one's turn, or there is no hand. -/
theorem performAction_moved (h : TableInv Unfolded s.tableManager s.nextRef)
    {handId action : String} {amount : ℤ} (hmay : MayMove s session handId action amount)
    (c : Choices) (action' : String) (amount' : ℤ) :
    ¬MayMove (s.performAction handId action amount session c).state session handId action'
      amount' := by
  obtain ⟨playerId, hand, player, hsession, hhand, hid, hget, hvalid⟩ := hmay
  obtain ⟨heap, after, happly, hyes⟩ := accepted_of_valid hhand hget hvalid c.now
  obtain ⟨hrests, hafter⟩ := performAction_rests h hsession hhand hid happly hyes
  rintro ⟨playerId', hand', player', hsession', hhand', -, hget', hvalid'⟩
  rw [hrests.sessions.2, hsession] at hsession'
  obtain rfl := Option.some.inj hsession'
  obtain ⟨hmem, hplayer⟩ := getPlayer_mem hget'
  rw [hrests.players] at hmem
  have hid' : (s.tableManager.heap player').id = playerId :=
    (congrArg Presence.id (hrests.presence player')).symm.trans hplayer
  have hsame := h.getPlayer hmem
  rw [hid', hget] at hsame
  obtain rfl := Option.some.inj hsame
  rw [hafter] at hhand'
  split_ifs at hhand'
  obtain rfl := Option.some.inj hhand'
  obtain ⟨-, hturn, -⟩ := PlayerAction.validateAction_iff.mp hvalid'
  exact ((applied_turn (h.playing hand hhand).1 happly player).mp hturn).2 rfl

theorem handleAction_retry (h : TableInv Unfolded s.tableManager s.nextRef)
    (hundef : c'.undefInt = c.undefInt) (payload : Json) :
    let s' := (s.handleAction payload session c).state
    Echoes s' session (s'.handleAction payload session c') := by
  simp only [handleAction, actionFields_congr hundef]
  cases actionFields payload c with
  | error e =>
    simp only
    rw [(stop_echoes s session e).1]
    exact stop_echoes s session e
  | ok fields =>
    obtain ⟨handId, action, amount⟩ := fields
    simp only
    by_cases hmay : MayMove s session handId action amount
    · exact performAction_echoes (performAction_moved h hmay c action amount) c'
    · rw [(performAction_echoes hmay c).1]
      exact performAction_echoes hmay c'

/-! ### Top-ups -/

theorem topUp_topUp (x : Player) : x.topUp.topUp = x.topUp := by
  unfold Player.topUp Player.needsTopUp
  by_cases hless : x.stack < topUpThreshold
  · have henough : ¬targetStack < topUpThreshold := by decide
    simp [hless, henough]
  · simp [hless]

theorem handleTopUp_again {playerId : String} {player : PlayerRef}
    (hsession : s.sessionToPlayer.lookup session = some playerId)
    (hget : s.tableManager.getPlayer playerId = some player)
    (henough : (s.tableManager.heap player).topUp = s.tableManager.heap player) :
    Echoes s session (s.handleTopUp session) := by
  have hheap : Function.update s.tableManager.heap player (s.tableManager.heap player).topUp
      = s.tableManager.heap := by
    rw [henough, Function.update_eq_self]
  simp only [handleTopUp, hsession, hget]
  refine ⟨by rw [updatePlayer, hheap], fun listener hl => ?_⟩
  rw [← List.singleton_append, heard_append, heard_send_ne hl.symm]
  rfl

theorem handleTopUp_retry :
    let s' := (s.handleTopUp session).state
    Echoes s' session (s'.handleTopUp session) := by
  show Echoes (s.handleTopUp session).state session ((s.handleTopUp session).state.handleTopUp session)
  cases hsession : s.sessionToPlayer.lookup session with
  | none =>
    simp only [handleTopUp, reject, hsession]
    exact reject_echoes s session _ _
  | some playerId =>
    cases hget : s.tableManager.getPlayer playerId with
    | none =>
      simp only [handleTopUp, reject, hsession, hget]
      exact reject_echoes s session _ _
    | some player =>
      have hstate : (s.handleTopUp session).state = s.updatePlayer player Player.topUp := by
        simp only [handleTopUp, hsession, hget]
      rw [hstate]
      set s' := s.updatePlayer player Player.topUp
      have hself : s'.tableManager.heap player = (s.tableManager.heap player).topUp :=
        Function.update_self ..
      have hids : ∀ p, (s'.tableManager.heap p).id = (s.tableManager.heap p).id := by
        intro p
        by_cases hp : p = player
        · rw [hp, hself]
          exact congrArg Presence.id (presence_topUp _)
        · exact congrArg Player.id (Function.update_of_ne hp ..)
      have hget' : s'.tableManager.getPlayer playerId = some player := by
        rw [← hget]
        simp only [TableManager.getPlayer, hids]
        rfl
      exact handleTopUp_again hsession hget' (by rw [hself, topUp_topUp])

/-! ### Any message -/

theorem dispatch_retry (h : TableInv Unfolded s.tableManager s.nextRef)
    (hundef : c'.undefInt = c.undefInt) (json : Json) :
    let s' := (s.dispatch json session c).state
    Echoes s' session (s'.dispatch json session c') := by
  unfold dispatch
  split
  · exact reject_echoes s session _ _
  split
  · exact reject_echoes s session _ _
  split
  · split
    · exact handleJoin_retry h _
    split
    · exact handleAction_retry h hundef _
    split
    · exact ⟨rfl, fun _ hl => heard_send_ne hl.symm _⟩
    split
    · exact handleTopUp_retry
    · exact reject_echoes s session _ _
  · rw [(stop_echoes s session _).1]
    exact stop_echoes s session _
  · exact ⟨rfl, fun _ _ => rfl⟩

theorem step_retry (h : TableInv Unfolded s.tableManager s.nextRef) (session : SessionId)
    (text : Option Json) (hundef : c'.undefInt = c.undefInt) :
    let s' := (s.step (.message session text c)).1
    (s'.step (.message session text c')).1 = s' ∧ ∀ listener, listener ≠ session →
      heard listener (s'.step (.message session text c')).2 = [] := by
  cases text with
  | none => exact ⟨rfl, fun _ hl => heard_send_ne hl.symm _⟩
  | some json =>
    have hechoes := (@dispatch_retry s session c c' h hundef json).caught
    simp only [step, handleMessage]
    rw [caught_state (s.dispatch json session c)]
    exact hechoes

/-- Messages delivered again leave no trace but the answers to them. -/
theorem retries_are_safe (config : Config) {again : SessionId → Bool} {es es' : List Event}
    (h : Retries again es es') : (machine config).run es' = (machine config).run es ∧
      ∀ listener, again listener = false →
        heard listener ((machine config).trace es') = heard listener ((machine config).trace es) := by
  induction h with
  | nil => exact ⟨rfl, fun _ _ => rfl⟩
  | event e _ ih =>
    obtain ⟨hrun, hheard⟩ := ih
    refine ⟨by rw [Machine.run_concat, Machine.run_concat, hrun], fun listener hl => ?_⟩
    rw [Machine.trace_concat, Machine.trace_concat, heard_append, heard_append, hheard listener hl,
      hrun]
  | @retry es es' session text c c' _ hagain hundef ih =>
    obtain ⟨hrun, hheard⟩ := ih
    obtain ⟨hsame, hquiet⟩ := step_retry (run_inv config es) session text hundef
    rw [Machine.run_concat] at hrun
    refine ⟨?_, fun listener hl => ?_⟩
    · rw [Machine.run_concat, Machine.run_concat, hrun]
      exact hsame
    · have hother : listener ≠ session := by
        rintro rfl
        rw [hagain] at hl
        cases hl
      rw [← hheard listener hl, Machine.trace_concat, heard_append, hrun]
      exact (congrArg _ (hquiet listener hother)).trans (List.append_nil _)

/-- Bob's join comes twice, and the second one starts no other hand. -/
def bobAgain : List Event := bothJoined ++ [sent 1 (.join "Bob")]

theorem retries_are_safe_bobAgain :
    (machine ⟨30000, 60000⟩).run bobAgain = (machine ⟨30000, 60000⟩).run bothJoined ∧
      ∀ listener, decide (listener = 1) = false →
        heard listener ((machine ⟨30000, 60000⟩).trace bobAgain)
          = heard listener ((machine ⟨30000, 60000⟩).trace bothJoined) :=
  retries_are_safe ⟨30000, 60000⟩
    (.retry (.event _ (.event _ (.event _ (.event _ .nil)))) rfl rfl)

end GameSession
end HeadsUp.Server
