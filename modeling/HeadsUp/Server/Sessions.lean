import HeadsUp.Client.Message
import HeadsUp.Server.GameSession

/-!
# Sessions and players

The two maps of the game session agree in one direction: the session a player
is sent to is registered to him. This needs that a session is welcomed once,
before anything comes from it.
-/

namespace HeadsUp.Server
open HeadsUp.Core HeadsUp.Common HeadsUp.Lib

def Event.session : Event → Option SessionId
  | .connect session _ => some session
  | .message session _ _ => some session
  | .disconnect session _ => some session
  | .timerExpires _ => none
  | .timerRuns _ _ => none

def Event.welcomed : Event → Option SessionId
  | .connect session _ => some session
  | _ => none

/-- Nothing comes from a session before it is welcomed. -/
def FreshSessions (es : List Event) : Prop :=
  es.Pairwise fun e e' => e'.welcomed.isSome = true → e.session ≠ e'.welcomed

instance (es : List Event) : Decidable (FreshSessions es) :=
  inferInstanceAs (Decidable (es.Pairwise _))

theorem FreshSessions.of_prefix {pre es : List Event} (h : FreshSessions es) (hpre : pre <+: es) :
    FreshSessions pre := h.sublist hpre.sublist

theorem freshSessions_concat {es : List Event} {e : Event} :
    FreshSessions (es ++ [e]) ↔
      FreshSessions es ∧ ∀ e' ∈ es, e.welcomed.isSome = true → e'.session ≠ e.welcomed := by
  simp [FreshSessions, List.pairwise_append]

namespace GameSession

/-- Each player's session is registered to him and has been seen. -/
def Registered (seen : SessionId → Prop) (s : GameSession) : Prop :=
  ∀ playerId session, s.playerSessions.lookup playerId = some session →
    s.sessionToPlayer.lookup session = some playerId ∧ seen session

def SameSessions (s s' : GameSession) : Prop :=
  s'.playerSessions = s.playerSessions ∧ s'.sessionToPlayer = s.sessionToPlayer

variable {s s' : GameSession} {seen : SessionId → Prop}

theorem Registered.congr (h : Registered seen s) (hsame : SameSessions s s') :
    Registered seen s' := by
  obtain ⟨hplayers, hsessions⟩ := hsame
  intro playerId session hl
  rw [hplayers] at hl
  rw [hsessions]
  exact h playerId session hl

theorem Registered.mono {seen' : SessionId → Prop} (h : Registered seen s)
    (hseen : ∀ session, seen session → seen' session) : Registered seen' s :=
  fun playerId session hl => (h playerId session hl).imp_right (hseen session)

/-! ### The three edits -/

theorem Registered.register (h : Registered seen s) {playerId : String} {session : SessionId}
    (hseen : seen session) (hfree : ∀ other, s.playerSessions.lookup other ≠ some session) :
    Registered seen (s.registerSession playerId session) := by
  intro other session' hl
  change (s.playerSessions.insert playerId session).lookup other = some session' at hl
  show (s.sessionToPlayer.insert session playerId).lookup session' = some other ∧ seen session'
  by_cases hother : other = playerId
  · subst hother
    rw [AList.lookup_insert] at hl
    obtain rfl := Option.some.inj hl
    exact ⟨AList.lookup_insert _, hseen⟩
  · rw [AList.lookup_insert_ne hother] at hl
    have hne : session' ≠ session := by
      rintro rfl
      exact hfree other hl
    rw [AList.lookup_insert_ne hne]
    exact h other session' hl

theorem Registered.drop (h : Registered seen s) {playerId : String} {session : SessionId}
    (hsession : s.sessionToPlayer.lookup session = some playerId) :
    Registered seen { s with
      playerSessions := s.playerSessions.erase playerId
      sessionToPlayer := s.sessionToPlayer.erase session } := by
  intro other session' hl
  change (s.playerSessions.erase playerId).lookup other = some session' at hl
  show (s.sessionToPlayer.erase session).lookup session' = some other ∧ seen session'
  have hother : other ≠ playerId := by
    rintro rfl
    rw [AList.lookup_erase] at hl
    cases hl
  rw [AList.lookup_erase_ne hother] at hl
  obtain ⟨hback, hseen⟩ := h other session' hl
  have hne : session' ≠ session := by
    rintro rfl
    exact hother (Option.some.inj (hback.symm.trans hsession))
  rw [AList.lookup_erase_ne hne]
  exact ⟨hback, hseen⟩

theorem Registered.removeSession (h : Registered seen s) (playerId : String) :
    Registered seen (s.removeSession playerId) := by
  unfold GameSession.removeSession
  split
  · exact h
  · rename_i session hl
    exact h.drop (h playerId session hl).1

theorem Registered.moveSession (h : Registered seen s) (playerId : String) {session : SessionId}
    (hseen : seen session) : Registered seen (s.moveSession playerId session) := by
  unfold GameSession.moveSession
  cases hold : s.sessionToPlayer.lookup session with
  | none =>
    -- an unregistered session is nobody's
    refine h.register hseen fun other hl => ?_
    rw [(h other session hl).1] at hold
    cases hold
  | some old =>
    have hdropped := h.drop hold
    refine hdropped.register hseen fun other hl => ?_
    have hback := (hdropped other session hl).1
    rw [AList.lookup_erase] at hback
    cases hback

/-! ### Handlers that leave the maps alone -/

theorem stop_sessions (s : GameSession) (session : SessionId) (e : Stop) :
    SameSessions s (s.stop session e).state := by
  cases e <;> exact ⟨rfl, rfl⟩

theorem startWhenReady_sessions (s : GameSession) (c : Choices) (acked : List Effect) :
    SameSessions s (s.startWhenReady c acked).state := by
  unfold startWhenReady
  split
  · exact ⟨rfl, rfl⟩
  · simp only
    split
    · exact ⟨rfl, rfl⟩
    · split <;> exact ⟨rfl, rfl⟩

theorem seatNewPlayer_sessions (s : GameSession) (playerId name : String) (seat : ℤ)
    (session : SessionId) (c : Choices) :
    SameSessions s (s.seatNewPlayer playerId name seat session c).state := by
  unfold seatNewPlayer
  simp only
  split
  · exact ⟨rfl, rfl⟩
  · exact startWhenReady_sessions _ c _

theorem joinAsNew_sessions (s : GameSession) (name : String) (session : SessionId) (c : Choices) :
    SameSessions s (s.joinAsNew name session c).state := by
  unfold joinAsNew
  split
  · exact ⟨rfl, rfl⟩
  · split
    · exact ⟨rfl, rfl⟩
    · split
      · exact seatNewPlayer_sessions s _ _ _ _ c
      · split
        · exact seatNewPlayer_sessions s _ _ _ _ c
        · exact ⟨rfl, rfl⟩

theorem afterAction_sessions (s : GameSession) (c : Choices) (applied : List Effect) :
    SameSessions s (s.afterAction c applied).state := by
  unfold afterAction
  split
  · exact ⟨rfl, rfl⟩
  · simp only
    split
    · exact ⟨rfl, rfl⟩
    · split <;> exact ⟨rfl, rfl⟩

theorem handleAction_sessions (s : GameSession) (payload : Json) (session : SessionId)
    (c : Choices) : SameSessions s (s.handleAction payload session c).state := by
  unfold handleAction
  split
  · exact stop_sessions s session _
  · unfold performAction
    split
    · exact ⟨rfl, rfl⟩
    · split
      · exact ⟨rfl, rfl⟩
      · split
        · exact ⟨rfl, rfl⟩
        · simp only
          split
          · exact ⟨rfl, rfl⟩
          · exact afterAction_sessions _ c _

theorem handleTopUp_sessions (s : GameSession) (session : SessionId) :
    SameSessions s (s.handleTopUp session).state := by
  unfold handleTopUp
  split
  · exact ⟨rfl, rfl⟩
  · split <;> exact ⟨rfl, rfl⟩

theorem onTimer_sessions (s : GameSession) (c : Choices) (callback : TimerCallback) :
    SameSessions s (s.onTimer c callback).1 := by
  cases callback with
  | graceTimerExpired playerId =>
    simp only [onTimer, PlayerStateManager.onGraceTimerExpired]
    split <;> exact ⟨rfl, rfl⟩
  | playerRemoved playerId => exact ⟨rfl, rfl⟩

/-! ### Runs -/

theorem Registered.reconnect (h : Registered seen s) {session : SessionId} (hseen : seen session)
    (player : PlayerRef) (playerId : String) (c : Choices) :
    Registered seen (s.reconnect player playerId session c).state := by
  have hmoved : Registered seen (reconnect.reconnected s player playerId session c).state :=
    (h.moveSession playerId hseen).congr ⟨rfl, rfl⟩
  unfold GameSession.reconnect
  split
  · split
    · exact h
    · exact hmoved
  · exact hmoved

theorem Registered.dispatch (h : Registered seen s) {session : SessionId} (hseen : seen session)
    (json : Json) (c : Choices) : Registered seen (s.dispatch json session c).state := by
  rcases dispatch_cases s json session c with
    ⟨-, heq⟩ | ⟨-, ⟨payload, -, heq⟩ | ⟨payload, -, heq⟩ | heq | ⟨e, heq⟩⟩
  · rw [heq]
    exact h.congr (handleTopUp_sessions s session)
  · rw [heq, handleJoin]
    split
    · exact h.congr (stop_sessions s session _)
    · split
      · exact h.reconnect hseen _ _ c
      · exact h.congr (joinAsNew_sessions s _ session c)
  · rw [heq]
    exact h.congr (handleAction_sessions s payload session c)
  · rw [heq]
    exact h
  · rw [heq]
    exact h.congr (stop_sessions s session e)

theorem Registered.step (h : Registered seen s) {e : Event}
    (hseen : ∀ session, e.session = some session → seen session)
    (hfree : ∀ session playerId, e = .connect session playerId →
      ∀ other, s.playerSessions.lookup other ≠ some session) :
    Registered seen (s.step e).1 := by
  cases e with
  | connect session playerId => exact h.register (hseen session rfl) (hfree session playerId rfl)
  | message session text c =>
    cases text with
    | none =>
      have hsame : SameSessions s (caught ⟨s, [], some .json⟩ session).1 := by
        rw [caught_state]
        exact ⟨rfl, rfl⟩
      exact h.congr hsame
    | some json =>
      simp only [GameSession.step, handleMessage, caught_state]
      exact h.dispatch (hseen session rfl) json c
  | disconnect session c =>
    simp only [GameSession.step, onDisconnect]
    split
    · exact h
    · rename_i playerId _
      have hremoved := h.removeSession playerId
      split
      · exact hremoved
      · exact hremoved.congr ⟨rfl, rfl⟩
  | timerExpires i => exact h
  | timerRuns i c =>
    simp only [GameSession.step]
    split
    · exact h
    · exact (h.congr ⟨rfl, rfl⟩).congr (onTimer_sessions _ c _)

/-- In a run that welcomes new sessions only, a player's session is his. -/
theorem run_registered (config : Config) {es : List Event} (hfresh : FreshSessions es) :
    Registered (fun session => ∃ e ∈ es, e.session = some session) ((machine config).run es) := by
  refine (machine config).invariant_of_ok FreshSessions
    (fun _ _ h => (freshSessions_concat.mp h).1)
    (fun es s => Registered (fun session => ∃ e ∈ es, e.session = some session) s) ?_ ?_ es hfresh
  · intro playerId session hl
    cases hl
  · intro es e hfresh h
    refine (h.mono ?_).step ?_ ?_
    · intro session hh
      obtain ⟨e', he', hsession⟩ := hh
      exact ⟨e', by simp [he'], hsession⟩
    · intro session hsession
      exact ⟨e, by simp, hsession⟩
    · rintro session playerId rfl other hl
      obtain ⟨e', he', hsession⟩ := (h other session hl).2
      exact (freshSessions_concat.mp hfresh).2 e' he' rfl hsession

/-! ### Two bots at the table -/

def sent (session : SessionId) (message : Client.Message) : Event :=
  .message session (some message.toJson) (.plain "1")

/-- Two bots are welcomed and join; Bob is on turn. -/
def bothJoined : List Event :=
  [.connect 0 "alice", .connect 1 "bob", sent 0 (.join "Alice"), sent 1 (.join "Bob")]

end GameSession
end HeadsUp.Server
