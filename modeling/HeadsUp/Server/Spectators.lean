import HeadsUp.Server.Announcements
import HeadsUp.Server.SessionMaps

/-!
# Spectators

A session none of whose players ever gets a seat is a spectator's. Without the
spectators' events the table plays the same, and everybody else hears the same.
-/

namespace HeadsUp.Server
open HeadsUp.Core HeadsUp.Common HeadsUp.Lib

def without (spectator : SessionId → Bool) (es : List Event) : List Event :=
  es.filter fun e => !e.session.any spectator

namespace GameSession

/-- The player of the session, if any, has no seat. -/
def Watches (s : GameSession) (session : SessionId) : Prop :=
  ∀ playerId ∈ s.sessionToPlayer.lookup session, s.tableManager.getPlayer playerId = none

instance (s : GameSession) (session : SessionId) : Decidable (Watches s session) :=
  inferInstanceAs (Decidable (∀ playerId ∈ _, _))

/-- No spectator has a seat. -/
def Unseated (spectator : SessionId → Bool) (s : GameSession) : Prop :=
  ∀ session, spectator session = true → Watches s session

/-- `t` is `s` without the spectators. -/
structure Alongside (spectator : SessionId → Bool) (s t : GameSession) : Prop where
  tableManager : t.tableManager = s.tableManager
  connections : t.connections = s.connections
  config : t.config = s.config
  nextRef : t.nextRef = s.nextRef
  players : ∀ playerId session, t.playerSessions.lookup playerId = some session ↔
    s.playerSessions.lookup playerId = some session ∧ spectator session = false

/-- Who is no spectator hears the same. -/
def SameHeard (spectator : SessionId → Bool) (effects effects' : List Effect) : Prop :=
  ∀ listener, spectator listener = false → heard listener effects' = heard listener effects

structure Alike (spectator : SessionId → Bool) (o o' : Outcome) : Prop where
  state : Alongside spectator o.state o'.state
  thrown : o'.thrown = o.thrown
  heard : SameHeard spectator o.effects o'.effects

variable {spectator : SessionId → Bool} {s t : GameSession} {session : SessionId}

theorem SameHeard.refl (effects : List Effect) : SameHeard spectator effects effects :=
  fun _ _ => rfl

theorem SameHeard.append {effects effects' more more' : List Effect}
    (h : SameHeard spectator effects effects') (hmore : SameHeard spectator more more') :
    SameHeard spectator (effects ++ more) (effects' ++ more') := by
  intro listener hl
  rw [heard_append, heard_append, h listener hl, hmore listener hl]

/-! ### What is sent -/

section Sends
variable (h : Alongside spectator s t) (c : Choices)
include h

theorem broadcastJson_alike (message : Message) :
    SameHeard spectator (s.broadcastJson c message) (t.broadcastJson c message) := by
  intro listener hl
  rw [heard_broadcastJson, heard_broadcastJson, count_values_congr (b := listener)]
  intro playerId
  rw [h.players, and_iff_left hl]

theorem idOf_alike (player : Option PlayerRef) : t.idOf player = s.idOf player := by
  cases player with
  | none => rfl
  | some p => rw [idOf, idOf, h.tableManager]

theorem broadcastHandStarted_alike :
    SameHeard spectator (s.broadcastHandStarted c) (t.broadcastHandStarted c) := by
  simp only [broadcastHandStarted, h.tableManager, idOf_alike h]
  cases s.tableManager.table.currentHand with
  | none => exact .refl _
  | some hand => exact broadcastJson_alike h c _

theorem broadcastActionApplied_alike (playerId action : String) (amount : ℤ) :
    SameHeard spectator (s.broadcastActionApplied c playerId action amount)
      (t.broadcastActionApplied c playerId action amount) := by
  simp only [broadcastActionApplied, h.tableManager, idOf_alike h]
  split
  · exact broadcastJson_alike h c _
  · exact .refl _

theorem broadcastPlayerRemoved_alike (playerId : String) :
    SameHeard spectator (s.broadcastPlayerRemoved c playerId)
      (t.broadcastPlayerRemoved c playerId) := by
  simp only [broadcastPlayerRemoved, h.tableManager]
  split
  · exact .refl _
  · exact broadcastJson_alike h c _

omit c in
theorem sendActionRequest_alike (playerId : String) :
    SameHeard spectator (s.sendActionRequest playerId) (t.sendActionRequest playerId) := by
  intro listener hl
  have hrequest : t.actionRequest playerId = s.actionRequest playerId := by
    rw [actionRequest, actionRequest, h.tableManager]
  have hother : ∀ session, s.playerSessions.lookup playerId = some session →
      spectator session = true → t.playerSessions.lookup playerId = none := by
    intro session hs hspec
    rw [Option.eq_none_iff_forall_ne_some]
    intro session' ht
    obtain ⟨hs', hspec'⟩ := (h.players _ _).mp ht
    obtain rfl := Option.some.inj (hs.symm.trans hs')
    rw [hspec] at hspec'
    cases hspec'
  simp only [sendActionRequest, hrequest]
  cases s.actionRequest playerId with
  | none => rfl
  | some request =>
    cases hs : s.playerSessions.lookup playerId with
    | none =>
      have ht : t.playerSessions.lookup playerId = none := by
        rw [Option.eq_none_iff_forall_ne_some]
        intro session ht
        rw [((h.players _ _).mp ht).1] at hs
        cases hs
      rw [ht]
    | some session =>
      by_cases hspec : spectator session = true
      · rw [hother session hs hspec]
        refine (heard_send_ne ?_ _).symm
        rintro rfl
        rw [hspec] at hl
        cases hl
      · rw [(h.players _ _).mpr ⟨hs, by simpa using hspec⟩]

end Sends

/-! ### Handlers -/

theorem Alongside.withTable (h : Alongside spectator s t) (tm : TableManager) :
    Alongside spectator { s with tableManager := tm } { t with tableManager := tm } :=
  ⟨rfl, h.connections, h.config, h.nextRef, h.players⟩

theorem Alongside.same (h : Alongside spectator s t) (effects : List Effect) (thrown : Option Exn) :
    Alike spectator ⟨s, effects, thrown⟩ ⟨t, effects, thrown⟩ := ⟨h, rfl, .refl _⟩

section Handlers
variable (h : Alongside spectator s t)
include h

theorem stop_alike (session : SessionId) (e : Stop) :
    Alike spectator (s.stop session e) (t.stop session e) := by
  cases e <;> exact h.same _ _

theorem startWhenReady_alike (c : Choices) (acked : List Effect) :
    Alike spectator (s.startWhenReady c acked) (t.startWhenReady c acked) := by
  have hstarted := h.withTable (s.tableManager.startHand c.uuid c.constructed c.shuffled).2.1
  simp only [startWhenReady, h.tableManager]
  split_ifs
  · exact h.same _ _
  · cases (s.tableManager.startHand c.uuid c.constructed c.shuffled).2.2 with
    | some e => exact hstarted.same _ _
    | none =>
      exact ⟨hstarted, rfl, (SameHeard.refl acked).append (broadcastHandStarted_alike hstarted c)⟩
  · cases (s.tableManager.startHand c.uuid c.constructed c.shuffled).2.2 with
    | some e => exact hstarted.same _ _
    | none => exact hstarted.same _ _

theorem seatNewPlayer_alike (playerId name : String) (seat : ℤ) (session : SessionId)
    (c : Choices) : Alike spectator (s.seatNewPlayer playerId name seat session c)
      (t.seatNewPlayer playerId name seat session c) := by
  have hcreated : (t.updatePlayer s.nextRef fun _ => newPlayer playerId name seat).tableManager
      = (s.updatePlayer s.nextRef fun _ => newPlayer playerId name seat).tableManager := by
    simp only [updatePlayer, h.tableManager]
  have hseated : ∀ tm, Alongside spectator
      { s with tableManager := tm, nextRef := s.nextRef + 1 }
      { t with tableManager := tm, nextRef := s.nextRef + 1 } :=
    fun _ => ⟨rfl, h.connections, h.config, rfl, h.players⟩
  simp only [seatNewPlayer, h.nextRef, hcreated]
  split_ifs
  · exact h.same _ _
  · exact startWhenReady_alike (hseated _) c _

theorem joinAsNew_alike
    (hsession : t.sessionToPlayer.lookup session = s.sessionToPlayer.lookup session)
    (name : String) (c : Choices) :
    Alike spectator (s.joinAsNew name session c) (t.joinAsNew name session c) := by
  simp only [joinAsNew, hsession, h.tableManager]
  split
  · exact h.same _ _
  · split
    · exact h.same _ _
    · split_ifs
      · exact seatNewPlayer_alike h _ _ _ session c
      · exact seatNewPlayer_alike h _ _ _ session c
      · exact h.same _ _

theorem broadcastHandCompleted_alike (c : Choices) :
    (∃ e, s.broadcastHandCompleted c = .error e ∧ t.broadcastHandCompleted c = .error e) ∨
    ∃ effects effects', s.broadcastHandCompleted c = .ok effects ∧
      t.broadcastHandCompleted c = .ok effects' ∧ SameHeard spectator effects effects' := by
  simp only [broadcastHandCompleted, h.tableManager]
  cases s.tableManager.table.currentHand with
  | none => exact .inr ⟨_, _, rfl, rfl, .refl _⟩
  | some hand =>
    by_cases hwon : hand.winners = []
    · simp only [hwon, if_true]
      cases Poker.determineWinners c.tables s.tableManager.heap hand with
      | error e => exact .inl ⟨e, rfl, rfl⟩
      | ok winners => exact .inr ⟨_, _, rfl, rfl, broadcastJson_alike h c _⟩
    · simp only [hwon, if_false]
      exact .inr ⟨_, _, rfl, rfl, broadcastJson_alike h c _⟩

theorem request_alike (turn : Option PlayerRef) : SameHeard spectator
    (match turn with
      | some player => s.sendActionRequest (s.tableManager.heap player).id
      | none => [])
    (match turn with
      | some player => t.sendActionRequest (s.tableManager.heap player).id
      | none => []) := by
  cases turn with
  | none => exact .refl _
  | some player => exact sendActionRequest_alike h _

theorem afterAction_alike (c : Choices) {applied applied' : List Effect}
    (happlied : SameHeard spectator applied applied') :
    Alike spectator (s.afterAction c applied) (t.afterAction c applied') := by
  simp only [afterAction, h.tableManager]
  cases s.tableManager.table.currentHand with
  | none => exact ⟨h, rfl, happlied⟩
  | some hand =>
    have heard := happlied.append (request_alike h hand.currentPlayerToAct)
    simp only
    split_ifs
    · exact ⟨h, rfl, heard⟩
    · rcases broadcastHandCompleted_alike h c with
        ⟨e, hs, ht⟩ | ⟨effects, effects', hs, ht, heffects⟩
      · rw [hs, ht]
        exact ⟨h, rfl, heard⟩
      · rw [hs, ht]
        refine ⟨⟨rfl, h.connections, h.config, h.nextRef, h.players⟩, rfl, ?_⟩
        exact (heard.append heffects).append (.refl _)

theorem performAction_alike
    (hsession : t.sessionToPlayer.lookup session = s.sessionToPlayer.lookup session)
    (handId action : String) (amount : ℤ) (c : Choices) :
    Alike spectator (s.performAction handId action amount session c)
      (t.performAction handId action amount session c) := by
  simp only [performAction, hsession, h.tableManager]
  split
  · exact h.same _ _
  · split
    · exact h.same _ _
    · rename_i playerId _ _ _ _
      have hacted := h.withTable
        (s.tableManager.processPlayerAction playerId action amount c.now).2
      split_ifs
      · exact h.same _ _
      · exact h.same _ _
      · exact afterAction_alike hacted c (broadcastActionApplied_alike hacted c _ _ _)

theorem handleAction_alike
    (hsession : t.sessionToPlayer.lookup session = s.sessionToPlayer.lookup session)
    (payload : Json) (c : Choices) :
    Alike spectator (s.handleAction payload session c) (t.handleAction payload session c) := by
  unfold handleAction
  cases actionFields payload c with
  | error e => exact stop_alike h session e
  | ok fields => exact performAction_alike h hsession _ _ _ c

theorem handleTopUp_alike
    (hsession : t.sessionToPlayer.lookup session = s.sessionToPlayer.lookup session) :
    Alike spectator (s.handleTopUp session) (t.handleTopUp session) := by
  simp only [handleTopUp, hsession, h.tableManager, updatePlayer]
  split
  · exact h.same _ _
  · split
    · exact h.same _ _
    · exact ⟨⟨rfl, h.connections, h.config, h.nextRef, h.players⟩, rfl, .refl _⟩

end Handlers

/-! ### Handlers that edit the maps -/

theorem Alongside.edit {s' t' : GameSession} (h : Alongside spectator s t)
    (hs : s'.tableManager = s.tableManager ∧ s'.connections = s.connections ∧
      s'.config = s.config ∧ s'.nextRef = s.nextRef)
    (ht : t'.tableManager = t.tableManager ∧ t'.connections = t.connections ∧
      t'.config = t.config ∧ t'.nextRef = t.nextRef)
    (hplayers : ∀ playerId session, t'.playerSessions.lookup playerId = some session ↔
      s'.playerSessions.lookup playerId = some session ∧ spectator session = false) :
    Alongside spectator s' t' where
  tableManager := by rw [ht.1, hs.1, h.tableManager]
  connections := by rw [ht.2.1, hs.2.1, h.connections]
  config := by rw [ht.2.2.1, hs.2.2.1, h.config]
  nextRef := by rw [ht.2.2.2, hs.2.2.2, h.nextRef]
  players := hplayers

theorem removeSession_rest (s : GameSession) (playerId : String) :
    (s.removeSession playerId).tableManager = s.tableManager ∧
      (s.removeSession playerId).connections = s.connections ∧
      (s.removeSession playerId).config = s.config ∧
      (s.removeSession playerId).nextRef = s.nextRef := by
  unfold removeSession
  split <;> exact ⟨rfl, rfl, rfl, rfl⟩

theorem moveSession_rest (s : GameSession) (playerId : String) (session : SessionId) :
    (s.moveSession playerId session).tableManager = s.tableManager ∧
      (s.moveSession playerId session).connections = s.connections ∧
      (s.moveSession playerId session).config = s.config ∧
      (s.moveSession playerId session).nextRef = s.nextRef := by
  unfold moveSession registerSession
  split <;> exact ⟨rfl, rfl, rfl, rfl⟩

theorem Alongside.removeSession (h : Alongside spectator s t) (playerId : String) :
    Alongside spectator (s.removeSession playerId) (t.removeSession playerId) := by
  apply h.edit (removeSession_rest s playerId) (removeSession_rest t playerId)
  intro other session
  rw [removeSession_lookup, removeSession_lookup]
  by_cases hother : other = playerId
  · simp [hother]
  · rw [if_neg hother, if_neg hother]
    exact h.players other session

theorem Alongside.register (h : Alongside spectator s t) (playerId : String)
    (hspec : spectator session = false) :
    Alongside spectator (s.registerSession playerId session)
      (t.registerSession playerId session) := by
  refine ⟨h.tableManager, h.connections, h.config, h.nextRef, fun other session' => ?_⟩
  show (t.playerSessions.insert playerId session).lookup other = some session' ↔
    (s.playerSessions.insert playerId session).lookup other = some session' ∧ _
  by_cases hother : other = playerId
  · rw [hother, AList.lookup_insert, AList.lookup_insert]
    constructor
    · rintro ⟨⟩
      exact ⟨rfl, hspec⟩
    · exact And.left
  · rw [AList.lookup_insert_ne hother, AList.lookup_insert_ne hother]
    exact h.players other session'

theorem Alongside.moveSession (h : Alongside spectator s t)
    (hsession : t.sessionToPlayer.lookup session = s.sessionToPlayer.lookup session)
    (playerId : String) (hspec : spectator session = false) :
    Alongside spectator (s.moveSession playerId session) (t.moveSession playerId session) := by
  apply h.edit (moveSession_rest s playerId session) (moveSession_rest t playerId session)
  intro other session'
  rw [moveSession_lookup, moveSession_lookup, hsession]
  by_cases hother : other = playerId
  · rw [if_pos hother, if_pos hother]
    constructor
    · rintro ⟨⟩
      exact ⟨rfl, hspec⟩
    · exact And.left
  · rw [if_neg hother, if_neg hother]
    by_cases hold : s.sessionToPlayer.lookup session = some other
    · simp [hold]
    · rw [if_neg hold, if_neg hold]
      exact h.players other session'

section Presence
variable (h : Alongside spectator s t)
include h

theorem onReconnect_alike (player : PlayerRef) (playerId : String) :
    Alongside spectator
      (PlayerStateManager.onReconnect { s with connections := s.connections.cancelTimers playerId }
        player)
      (PlayerStateManager.onReconnect { t with connections := t.connections.cancelTimers playerId }
        player) := by
  simp only [PlayerStateManager.onReconnect, updatePlayer, h.tableManager, h.connections]
  exact ⟨rfl, rfl, h.config, h.nextRef, h.players⟩

theorem onGraceTimerExpired_alike (playerId : String) :
    Alongside spectator (PlayerStateManager.onGraceTimerExpired s playerId)
      (PlayerStateManager.onGraceTimerExpired t playerId) := by
  simp only [PlayerStateManager.onGraceTimerExpired, updatePlayer, h.tableManager]
  split
  · simp only [h.connections, h.config]
    exact ⟨rfl, rfl, rfl, h.nextRef, h.players⟩
  · simp only [h.connections, h.config]
    exact ⟨h.tableManager, rfl, rfl, h.nextRef, h.players⟩

theorem onTimer_alike (c : Choices) (callback : TimerCallback) :
    Alongside spectator (s.onTimer c callback).1 (t.onTimer c callback).1 ∧
      SameHeard spectator (s.onTimer c callback).2 (t.onTimer c callback).2 := by
  cases callback with
  | graceTimerExpired playerId => exact ⟨onGraceTimerExpired_alike h playerId, .refl _⟩
  | playerRemoved playerId => exact ⟨h, broadcastPlayerRemoved_alike h c playerId⟩

theorem onDisconnect_alike
    (hsession : t.sessionToPlayer.lookup session = s.sessionToPlayer.lookup session)
    (c : Choices) : Alike spectator (s.onDisconnect session c) (t.onDisconnect session c) := by
  simp only [onDisconnect, hsession]
  cases s.sessionToPlayer.lookup session with
  | none => exact h.same _ _
  | some playerId =>
    have hremoved := h.removeSession playerId
    simp only [hremoved.tableManager]
    cases (s.removeSession playerId).tableManager.getPlayer playerId with
    | none => exact hremoved.same _ _
    | some player =>
      have hgone : Alongside spectator
          (PlayerStateManager.onDisconnect (s.removeSession playerId) player c.now)
          (PlayerStateManager.onDisconnect (t.removeSession playerId) player c.now) := by
        simp only [PlayerStateManager.onDisconnect, updatePlayer, hremoved.tableManager,
          hremoved.connections, hremoved.config]
        exact ⟨rfl, rfl, rfl, hremoved.nextRef, hremoved.players⟩
      refine ⟨hgone, rfl, ?_⟩
      simp only [hgone.config]
      exact broadcastJson_alike hgone c _

end Presence

/-! ### Events of the others -/

section Others
variable (h : Alongside spectator s t) (hs : Inverse s.playerSessions s.sessionToPlayer)
  (ht : Inverse t.playerSessions t.sessionToPlayer)
include h hs ht

theorem session_alike (hspec : spectator session = false) :
    t.sessionToPlayer.lookup session = s.sessionToPlayer.lookup session := by
  apply Option.ext
  intro playerId
  rw [← ht, ← hs, h.players, and_iff_left hspec]

omit ht in
/-- The session of a seated player is no spectator's. -/
theorem seated_alike (hun : Unseated spectator s) {playerId : String} {player : PlayerRef}
    (hget : s.tableManager.getPlayer playerId = some player) :
    t.playerSessions.lookup playerId = s.playerSessions.lookup playerId := by
  apply Option.ext
  intro session
  rw [h.players]
  constructor
  · exact And.left
  · intro hl
    refine ⟨hl, ?_⟩
    rw [← Bool.not_eq_true]
    intro hspec
    rw [hun session hspec playerId ((hs _ _).mp hl)] at hget
    cases hget

theorem reconnect_alike (hun : Unseated spectator s) (hspec : spectator session = false)
    {provided : String} {player : PlayerRef}
    (hget : s.tableManager.getPlayer provided = some player) (c : Choices) :
    Alike spectator (s.reconnect player provided session c)
      (t.reconnect player provided session c) := by
  have hback := onReconnect_alike (h.moveSession (session_alike h hs ht hspec) provided hspec)
    player provided
  have hreconnected : Alike spectator (reconnect.reconnected s player provided session c)
      (reconnect.reconnected t player provided session c) := by
    refine ⟨hback, rfl, (broadcastJson_alike hback c _).append ?_⟩
    rw [hback.tableManager]
    exact .refl _
  simp only [reconnect, seated_alike h hs hun hget]
  split
  · split_ifs
    · exact h.same _ _
    · exact hreconnected
  · exact hreconnected

theorem handleJoin_alike (hun : Unseated spectator s) (hspec : spectator session = false)
    (payload : Json) (c : Choices) :
    Alike spectator (s.handleJoin payload session c) (t.handleJoin payload session c) := by
  unfold handleJoin
  cases joinFields payload with
  | error e => exact stop_alike h session e
  | ok fields =>
    have habsent : t.absentPlayer fields.2 = s.absentPlayer fields.2 := by
      rw [absentPlayer, absentPlayer, h.tableManager]
    simp only [habsent]
    cases habs : s.absentPlayer fields.2 with
    | none => exact joinAsNew_alike h (session_alike h hs ht hspec) _ c
    | some player =>
      exact reconnect_alike h hs ht hun hspec (absentPlayer_eq_some.mp habs).2.1 c

theorem dispatch_alike (hun : Unseated spectator s) (hspec : spectator session = false)
    (json : Json) (c : Choices) :
    Alike spectator (s.dispatch json session c) (t.dispatch json session c) := by
  have hsession := session_alike h hs ht hspec
  unfold dispatch
  split_ifs
  · exact h.same _ _
  · exact h.same _ _
  · cases readString json "type" with
    | error e => exact stop_alike h session e
    | ok type =>
      cases json.get "payload" with
      | error e => exact h.same _ _
      | ok payload =>
        simp only
        split_ifs
        · exact handleJoin_alike h hs ht hun hspec payload c
        · exact handleAction_alike h hsession payload c
        · exact h.same _ _
        · exact handleTopUp_alike h hsession
        · exact h.same _ _

omit h hs ht in
theorem caught_alike {o o' : Outcome} (h : Alike spectator o o') (session : SessionId) :
    Alongside spectator (caught o session).1 (caught o' session).1 ∧
      SameHeard spectator (caught o session).2 (caught o' session).2 := by
  rw [caught_state, caught_state]
  refine ⟨h.state, ?_⟩
  unfold caught
  rw [h.thrown]
  split
  · exact h.heard
  · exact h.heard.append (.refl _)
  · exact h.heard.append (.refl _)

/-- An event of anybody but a spectator does the same with and without them. -/
theorem step_alike (hun : Unseated spectator s) {e : Event}
    (hspec : ∀ session, e.session = some session → spectator session = false) :
    Alongside spectator (s.step e).1 (t.step e).1 ∧
      SameHeard spectator (s.step e).2 (t.step e).2 := by
  cases e with
  | connect session playerId => exact ⟨h.register playerId (hspec session rfl), .refl _⟩
  | message session text c =>
    cases text with
    | none => exact caught_alike (h.same _ _) session
    | some json =>
      exact caught_alike (dispatch_alike h hs ht hun (hspec session rfl) json c) session
  | disconnect session c =>
    have hgone := onDisconnect_alike h (session_alike h hs ht (hspec session rfl)) c
    exact ⟨hgone.state, hgone.heard⟩
  | timerExpires i =>
    refine ⟨⟨h.tableManager, ?_, h.config, h.nextRef, h.players⟩, .refl _⟩
    rw [GameSession.step, GameSession.step, h.connections]
  | timerRuns i c =>
    have htaken : Alongside spectator { s with connections := (s.connections.take i).2 }
        { t with connections := (s.connections.take i).2 } :=
      ⟨h.tableManager, rfl, h.config, h.nextRef, h.players⟩
    simp only [GameSession.step, h.connections]
    cases (s.connections.take i).1 with
    | none => exact ⟨htaken, .refl _⟩
    | some callback => exact onTimer_alike htaken c callback

end Others

/-! ### Events of the spectators -/

theorem reconnected_watches {provided : String} {player : PlayerRef}
    (hget : s.tableManager.getPlayer provided = some player) (session : SessionId) (c : Choices) :
    ¬Watches (reconnect.reconnected s player provided session c).state session := by
  intro hno
  obtain ⟨hmem, hid⟩ := getPlayer_mem hget
  have hl : (reconnect.reconnected s player provided session c).state.sessionToPlayer.lookup session
      = some provided := by
    simp only [reconnect.reconnected, PlayerStateManager.onReconnect, updatePlayer, moveSession,
      registerSession]
    split <;> exact AList.lookup_insert _
  refine getPlayer_eq_none_iff.mp (hno provided hl) player ?_ ?_
  · rw [(reconnected_kept player provided session c).1]
    exact hmem
  · rw [reconnected_id]
    exact hid

section Watching
variable (h : TableInv Unfolded s.tableManager s.nextRef) (hbefore : Watches s session)
  (c : Choices)
include h hbefore

omit hbefore in
theorem seatNewPlayer_watches {playerId : String}
    (hsession : s.sessionToPlayer.lookup session = some playerId) (name : String) {seat : ℤ}
    (hseat : seat = seat1 ∧ s.tableManager.table.seat1 = none ∨
      seat = seat2 ∧ s.tableManager.table.seat1 ≠ none ∧ s.tableManager.table.seat2 = none)
    (hafter : Watches (s.seatNewPlayer playerId name seat session c).state session) :
    (s.seatNewPlayer playerId name seat session c).state = s := by
  refine (seatNewPlayer_moves h playerId name hseat session c).resolve_right ?_
  intro hseats
  refine hseats.getPlayer_ne_none (hafter playerId ?_)
  rw [hseats.sessions.2]
  exact hsession

theorem handleJoin_watches (payload : Json)
    (hafter : Watches (s.handleJoin payload session c).state session) :
    (s.handleJoin payload session c).state = s := by
  unfold handleJoin at hafter ⊢
  cases hfields : joinFields payload with
  | error e => cases e <;> rfl
  | ok fields =>
    simp only [hfields] at hafter ⊢
    cases habsent : s.absentPlayer fields.2 with
    | some player =>
      have hget := (absentPlayer_eq_some.mp habsent).2.1
      simp only [habsent] at hafter
      unfold reconnect at hafter ⊢
      cases hother : s.playerSessions.lookup fields.2 with
      | none =>
        simp only [hother] at hafter
        exact absurd hafter (reconnected_watches hget session c)
      | some other =>
        by_cases hne : other ≠ session
        · simp only [if_pos hne]
          rfl
        · simp only [hother, hne, if_false] at hafter
          exact absurd hafter (reconnected_watches hget session c)
    | none =>
      simp only [habsent, joinAsNew] at hafter ⊢
      cases hsession : s.sessionToPlayer.lookup session with
      | none => rfl
      | some playerId =>
        have hnew := hbefore playerId hsession
        simp only [hsession, hnew] at hafter ⊢
        by_cases hone : s.tableManager.table.seat1 = none
        · simp only [hone, if_true] at hafter ⊢
          exact seatNewPlayer_watches h c hsession _ (.inl ⟨rfl, hone⟩) hafter
        by_cases htwo : s.tableManager.table.seat2 = none
        · simp only [hone, htwo, if_true, if_false] at hafter ⊢
          exact seatNewPlayer_watches h c hsession _ (.inr ⟨rfl, hone, htwo⟩) hafter
        · simp only [hone, htwo, if_false]
          rfl

omit h in
theorem handleAction_watches (payload : Json) : (s.handleAction payload session c).state = s := by
  unfold handleAction
  split
  · rename_i e _
    cases e <;> rfl
  · unfold performAction
    cases hsession : s.sessionToPlayer.lookup session with
    | none => rfl
    | some playerId =>
      have hno : ∀ action amount,
          (s.tableManager.processPlayerAction playerId action amount c.now).1 = false := by
        intro action amount
        rw [← Bool.not_eq_true, processPlayerAction_iff]
        rintro ⟨_, player, -, hget, -⟩
        rw [hbefore playerId hsession] at hget
        cases hget
      simp only [hno, Bool.not_false, if_true]
      split
      · rfl
      · split_ifs <;> rfl

omit h in
theorem handleTopUp_watches : (s.handleTopUp session).state = s := by
  unfold handleTopUp
  cases hsession : s.sessionToPlayer.lookup session with
  | none => rfl
  | some playerId =>
    simp only [hbefore playerId hsession]
    rfl

/-- A message of a session that watches before and after it changes nothing. -/
theorem message_watches (text : Option Json)
    (hafter : Watches (s.step (.message session text c)).1 session) :
    (s.step (.message session text c)).1 = s := by
  cases text with
  | none =>
    simp only [step, handleMessage, caught_state]
  | some json =>
    simp only [step, handleMessage, caught_state] at hafter ⊢
    rcases dispatch_cases s json session c with
      ⟨-, heq⟩ | ⟨-, ⟨payload, -, heq⟩ | ⟨payload, -, heq⟩ | heq | ⟨e, heq⟩⟩
    · rw [heq, handleTopUp_watches hbefore]
    · rw [heq] at hafter ⊢
      exact handleJoin_watches h hbefore c payload hafter
    · rw [heq, handleAction_watches hbefore]
    · rw [heq]
      rfl
    · rw [heq]
      cases e <;> rfl

end Watching

/-- Nobody else hears of the events of a session that watches before and after. -/
theorem watches_quiet (h : TableInv Unfolded s.tableManager s.nextRef)
    (horder : SeatOrder s.tableManager.table) {e : Event} (hfrom : e.session = some session)
    (hbefore : Watches s session) (hafter : Watches (s.step e).1 session) : ¬Announces s e := by
  intro hannounces
  cases hannounces with
  | acts hacts =>
    obtain rfl := Option.some.inj hfrom
    obtain ⟨playerId, hsession, hget⟩ := hacts.registered
    rw [hbefore playerId hsession] at hget
    cases hget
  | @starts _ json c hsecond =>
    obtain rfl := Option.some.inj hfrom
    obtain ⟨hnone, hsome⟩ := (secondJoins_iff h horder _ json c).mp hsecond
    rw [message_watches h hbefore c (some json) hafter, hnone] at hsome
    cases hsome
  | takes hjoin habsent hfree =>
    obtain rfl := Option.some.inj hfrom
    rw [step_reconnect hjoin habsent hfree] at hafter
    exact reconnected_watches (absentPlayer_eq_some.mp habsent).2.1 _ _ hafter
  | leaves hsession hget =>
    obtain rfl := Option.some.inj hfrom
    rw [hbefore _ hsession] at hget
    cases hget
  | removes => cases hfrom

/-- An event of a spectator is lost on the others. -/
theorem step_spectates (h : TableInv Unfolded s.tableManager s.nextRef)
    (halong : Alongside spectator s t) (hs : Inverse s.playerSessions s.sessionToPlayer) {e : Event}
    (hspec : spectator session = true) (hfrom : e.session = some session)
    (hfresh : ∀ playerId ∈ e.welcomedId, s.playerSessions.lookup playerId = none)
    (hbefore : Watches s session) (hafter : Watches (s.step e).1 session) :
    Alongside spectator (s.step e).1 t := by
  have hout : ∀ {other : SessionId}, spectator other = false → other ≠ session := by
    rintro other hno rfl
    rw [hspec] at hno
    cases hno
  cases e with
  | connect session' playerId =>
    obtain rfl := Option.some.inj hfrom
    refine ⟨halong.tableManager, halong.connections, halong.config, halong.nextRef,
      fun other session => ?_⟩
    show _ ↔ (s.playerSessions.insert playerId session').lookup other = some session ∧ _
    rw [halong.players]
    by_cases hother : other = playerId
    · rw [hother, AList.lookup_insert, hfresh playerId rfl]
      simp only [reduceCtorEq, false_and, Option.some.injEq, false_iff, not_and]
      rintro rfl hno
      exact hout hno rfl
    · rw [AList.lookup_insert_ne hother]
  | message session' text c =>
    obtain rfl := Option.some.inj hfrom
    rw [message_watches h hbefore c text hafter]
    exact halong
  | disconnect session' c =>
    obtain rfl := Option.some.inj hfrom
    cases hsession : s.sessionToPlayer.lookup session' with
    | none =>
      simp only [GameSession.step, onDisconnect, hsession]
      exact halong
    | some playerId =>
      obtain ⟨htable, -⟩ := removeSession_rest s playerId
      have hgone : (s.step (.disconnect session' c)).1 = s.removeSession playerId := by
        simp only [GameSession.step, onDisconnect, hsession, htable, hbefore playerId hsession]
      rw [hgone]
      apply halong.edit (removeSession_rest s playerId) ⟨rfl, rfl, rfl, rfl⟩
      intro other session
      rw [removeSession_lookup, halong.players]
      by_cases hother : other = playerId
      · rw [if_pos hother, hother, (hs _ _).mpr hsession]
        simp only [Option.some.injEq, reduceCtorEq, false_and, iff_false, not_and]
        rintro rfl hno
        exact hout hno rfl
      · rw [if_neg hother]
  | timerExpires i => cases hfrom
  | timerRuns i c => cases hfrom

/-! ### Runs -/

theorem without_concat (spectator : SessionId → Bool) (es : List Event) (e : Event) :
    without spectator (es ++ [e])
      = without spectator es ++ if e.session.any spectator = true then [] else [e] := by
  rw [without, List.filter_append, List.filter_singleton]
  cases e.session.any spectator <;> rfl

theorem without_fresh (spectator : SessionId → Bool) {es : List Event}
    (hsessions : FreshSessions es) (hids : FreshIds es) :
    FreshSessions (without spectator es) ∧ FreshIds (without spectator es) := by
  have hsub : (without spectator es).Sublist es := List.filter_sublist
  exact ⟨hsessions.sublist hsub, hids.sublist (hsub.filterMap _)⟩

/-- A run and the same run without its spectators come to the same table, and who
is no spectator hears the same in both. -/
theorem spectators_unseen (config : Config) {es : List Event} (hsessions : FreshSessions es)
    (hids : FreshIds es)
    (hun : ∀ pre, pre <+: es → Unseated spectator ((machine config).run pre)) :
    Alongside spectator ((machine config).run es)
        ((machine config).run (without spectator es)) ∧
      SameHeard spectator ((machine config).trace es)
        ((machine config).trace (without spectator es)) := by
  induction es using List.reverseRecOn with
  | nil => exact ⟨⟨rfl, rfl, rfl, rfl, fun _ _ => by simp [without, machine, new]⟩, .refl _⟩
  | append_singleton es e ih =>
    have hpre := List.prefix_append es [e]
    have hs := run_paired config (hsessions.of_prefix hpre) (hids.of_prefix hpre)
    obtain ⟨hsessions', hids'⟩ := without_fresh spectator
      (hsessions.of_prefix hpre) (hids.of_prefix hpre)
    have ht := run_paired config hsessions' hids'
    obtain ⟨halong, hheard⟩ := ih (hsessions.of_prefix hpre) (hids.of_prefix hpre)
      fun pre hp => hun pre (hp.trans hpre)
    have hbefore := hun es hpre
    have hafter := hun _ (List.prefix_refl _)
    rw [Machine.run_concat] at hafter
    rw [without_concat, Machine.run_concat, Machine.trace_concat]
    by_cases hspec : e.session.any spectator = true
    · obtain ⟨session, hfrom, hyes⟩ : ∃ session, e.session = some session ∧
          spectator session = true := by simpa [Option.any_eq_true] using hspec
      have hwatched := hbefore session hyes
      have hwatches := hafter session hyes
      have hfresh : ∀ playerId ∈ e.welcomedId,
          ((machine config).run es).playerSessions.lookup playerId = none := by
        intro playerId hid
        rw [Option.eq_none_iff_forall_ne_some]
        intro other hl
        exact (freshIds_concat.mp hids).2 playerId hid
          (hs.seen other playerId ((hs.inverse _ _).mp hl)).2
      rw [if_pos hspec, List.append_nil]
      refine ⟨step_spectates (run_inv config es) halong hs.inverse hyes hfrom hfresh hwatched
        hwatches, fun listener hl => ?_⟩
      have hother : e.session ≠ some listener := by
        rw [hfrom]
        rintro ⟨⟩
        rw [hyes] at hl
        cases hl
      have hquiet := watches_quiet (run_inv config es) (run_seatOrder config es) hfrom hwatched
        hwatches
      have hlost : heard listener ((machine config).emits ((machine config).run es) e) = [] :=
        heard_quiet (run_seatOrder config es) hquiet hother
      rw [heard_append, hlost, List.append_nil]
      exact hheard listener hl
    · rw [if_neg hspec, Machine.run_concat, Machine.trace_concat]
      have hothers : ∀ session, e.session = some session → spectator session = false := by
        intro session hfrom
        rw [hfrom] at hspec
        simpa using hspec
      obtain ⟨hstep, hsame⟩ := step_alike halong hs.inverse ht.inverse hbefore hothers
      exact ⟨hstep, hheard.append hsame⟩

def carolWatches : List Event :=
  bothJoined ++ [.connect 2 "carol", sent 2 (.join "Carol"), sent 1 (.action "hand_1" "call" 4),
    sent 2 (.action "hand_1" "fold" 0), sent 2 .topUp, .disconnect 2 (.plain "1")]

theorem spectators_unseen_carolWatches :
    Alongside (· == 2) ((machine ⟨30000, 60000⟩).run carolWatches)
        ((machine ⟨30000, 60000⟩).run (without (· == 2) carolWatches)) ∧
      SameHeard (· == 2) ((machine ⟨30000, 60000⟩).trace carolWatches)
        ((machine ⟨30000, 60000⟩).trace (without (· == 2) carolWatches)) :=
  spectators_unseen ⟨30000, 60000⟩ (by decide) (by decide) (by
    have hwatches : ∀ pre ∈ carolWatches.inits,
        Watches ((machine ⟨30000, 60000⟩).run pre) 2 := by decide +kernel
    intro pre hpre session hspec
    rw [beq_iff_eq.mp hspec]
    exact hwatches pre ((List.mem_inits _ _).mpr hpre))

end GameSession
end HeadsUp.Server
