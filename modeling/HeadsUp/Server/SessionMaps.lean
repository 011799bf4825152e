import HeadsUp.Lib.Pairing
import HeadsUp.Server.Moves

/-!
# The session maps

`player_sessions_` and `session_to_player_` are kept inverse to each other by
every edit, when ids are fresh and a session is welcomed once and first.
-/

namespace HeadsUp.Server
open HeadsUp.Core HeadsUp.Common HeadsUp.Lib

def Event.welcomedId : Event → Option String
  | .connect _ playerId => some playerId
  | _ => none

def welcomedIds (es : List Event) : List String := es.filterMap Event.welcomedId

def FreshIds (es : List Event) : Prop := (welcomedIds es).Nodup

instance (es : List Event) : Decidable (FreshIds es) :=
  inferInstanceAs (Decidable (welcomedIds es).Nodup)

theorem FreshIds.of_prefix {pre es : List Event} (h : FreshIds es) (hpre : pre <+: es) :
    FreshIds pre := h.sublist (hpre.sublist.filterMap _)

theorem welcomedIds_concat (es : List Event) (e : Event) :
    welcomedIds (es ++ [e]) = welcomedIds es ++ e.welcomedId.toList := by
  rw [welcomedIds, List.filterMap_append, List.filterMap_cons]
  cases e.welcomedId <;> rfl

theorem freshIds_concat {es : List Event} {e : Event} :
    FreshIds (es ++ [e]) ↔ FreshIds es ∧ ∀ playerId ∈ e.welcomedId, playerId ∉ welcomedIds es := by
  rw [FreshIds, welcomedIds_concat, FreshIds]
  cases e.welcomedId with
  | none => simp
  | some playerId =>
    simp only [Option.toList_some, List.nodup_append, List.nodup_singleton, List.mem_singleton,
      forall_eq, true_and, Option.mem_def, Option.some.injEq, forall_eq']
    refine and_congr_right fun _ => ⟨fun h hmem => h _ hmem rfl, fun h id hmem heq => h (heq ▸ hmem)⟩

namespace GameSession

/-- The maps are inverse and hold what was welcomed: sessions seen and ids given
out. -/
structure Paired (es : List Event) (s : GameSession) : Prop where
  inverse : Inverse s.playerSessions s.sessionToPlayer
  seen : ∀ session playerId, s.sessionToPlayer.lookup session = some playerId →
    (∃ e ∈ es, e.session = some session) ∧ playerId ∈ welcomedIds es
  ids : ∀ p ∈ s.tableManager.players, (s.tableManager.heap p).id ∈ welcomedIds es

variable {s s' : GameSession} {es : List Event}

theorem Paired.new (config : Config) : Paired [] (new config) where
  inverse := Inverse.empty
  seen := by
    intro session playerId hl
    cases hl
  ids := by
    intro p hp
    cases hp

theorem Paired.concat (h : Paired es s) (e : Event) : Paired (es ++ [e]) s where
  inverse := h.inverse
  seen := by
    intro session playerId hl
    obtain ⟨⟨e', he', hsession⟩, hid⟩ := h.seen session playerId hl
    rw [welcomedIds_concat]
    exact ⟨⟨e', by simp [he'], hsession⟩, List.mem_append_left _ hid⟩
  ids := by
    intro p hp
    rw [welcomedIds_concat]
    exact List.mem_append_left _ (h.ids p hp)

theorem Paired.congr (h : Paired es s) (hsame : SameSessions s s')
    (hids : ∀ p ∈ s'.tableManager.players, (s'.tableManager.heap p).id ∈ welcomedIds es) :
    Paired es s' := by
  obtain ⟨hplayers, hsessions⟩ := hsame
  refine ⟨?_, ?_, hids⟩
  · rw [hplayers, hsessions]
    exact h.inverse
  · rw [hsessions]
    exact h.seen

/-! ### Edits -/

theorem Paired.removeSession (h : Paired es s) (playerId : String) :
    Paired es (s.removeSession playerId) := by
  unfold GameSession.removeSession
  cases hl : s.playerSessions.lookup playerId with
  | none => exact h
  | some session =>
    refine ⟨h.inverse.erase hl, fun session' playerId' hl' => ?_, h.ids⟩
    have hne : session' ≠ session := by
      rintro rfl
      rw [AList.lookup_erase] at hl'
      cases hl'
    rw [AList.lookup_erase_ne hne] at hl'
    exact h.seen session' playerId' hl'

theorem Paired.register (h : Paired es s) {playerId : String} {session : SessionId}
    (hplayer : s.playerSessions.lookup playerId = none)
    (hfree : s.sessionToPlayer.lookup session = none)
    (hseen : (∃ e ∈ es, e.session = some session) ∧ playerId ∈ welcomedIds es) :
    Paired es (s.registerSession playerId session) := by
  refine ⟨h.inverse.insert hplayer hfree, fun session' playerId' hl => ?_, h.ids⟩
  by_cases hne : session' = session
  · subst hne
    change (s.sessionToPlayer.insert session' playerId).lookup session' = _ at hl
    rw [AList.lookup_insert] at hl
    obtain rfl := Option.some.inj hl
    exact hseen
  · change (s.sessionToPlayer.insert session playerId).lookup session' = _ at hl
    rw [AList.lookup_insert_ne hne] at hl
    exact h.seen session' playerId' hl

/-- The edits of a reconnection, to a player that no other session has. -/
theorem Paired.moveSession (h : Paired es s) {playerId : String} {session : SessionId}
    (hfree : ∀ other, s.playerSessions.lookup playerId = some other → other = session)
    (hseen : (∃ e ∈ es, e.session = some session) ∧ playerId ∈ welcomedIds es) :
    Paired es (s.moveSession playerId session) := by
  unfold GameSession.moveSession
  have hnone : s.sessionToPlayer.lookup session ≠ some playerId →
      s.playerSessions.lookup playerId = none := by
    intro hne
    cases hl : s.playerSessions.lookup playerId with
    | none => rfl
    | some other =>
      obtain rfl := hfree other hl
      exact absurd ((h.inverse playerId other).mp hl) hne
  cases hold : s.sessionToPlayer.lookup session with
  | none => exact h.register (hnone (by simp [hold])) hold hseen
  | some old =>
    -- the pair of the session goes first, and with it the player's when he is its player
    have hpair := (h.inverse old session).mpr hold
    have hdropped := h.removeSession old
    simp only [GameSession.removeSession, hpair] at hdropped
    refine hdropped.register ?_ (AList.lookup_erase _ _) hseen
    by_cases hsame : playerId = old
    · rw [hsame]
      exact AList.lookup_erase _ _
    · refine (AList.lookup_erase_ne hsame).trans (hnone ?_)
      rw [hold]
      exact fun hh => hsame (Option.some.inj hh).symm

/-! ### The session of a player after an edit -/

theorem removeSession_lookup (s : GameSession) (playerId other : String) :
    (s.removeSession playerId).playerSessions.lookup other
      = if other = playerId then none else s.playerSessions.lookup other := by
  unfold GameSession.removeSession
  by_cases hother : other = playerId
  · rw [if_pos hother, hother]
    cases hl : s.playerSessions.lookup playerId with
    | none => exact hl
    | some session => exact AList.lookup_erase _ _
  · rw [if_neg hother]
    split
    · rfl
    · exact AList.lookup_erase_ne hother

theorem moveSession_lookup (s : GameSession) (playerId : String) (session : SessionId)
    (other : String) : (s.moveSession playerId session).playerSessions.lookup other
      = if other = playerId then some session
        else if s.sessionToPlayer.lookup session = some other then none
        else s.playerSessions.lookup other := by
  unfold GameSession.moveSession
  by_cases hother : other = playerId
  · rw [if_pos hother, hother]
    exact AList.lookup_insert _
  rw [if_neg hother]
  apply (AList.lookup_insert_ne hother).trans
  cases hold : s.sessionToPlayer.lookup session with
  | none => rfl
  | some old =>
    by_cases hsame : other = old
    · rw [if_pos (congrArg some hsame.symm), hsame]
      exact AList.lookup_erase _ _
    · rw [if_neg fun hh => hsame (Option.some.inj hh).symm]
      exact AList.lookup_erase_ne hsame

/-! ### Events -/

theorem Paired.congr_players (h : Paired es s) (hsame : SameSessions s s')
    (hplayers : s'.tableManager.players = s.tableManager.players)
    (hids : ∀ p, (s'.tableManager.heap p).id = (s.tableManager.heap p).id) : Paired es s' := by
  refine h.congr hsame fun p hp => ?_
  rw [hplayers] at hp
  rw [hids]
  exact h.ids p hp

theorem Paired.rests (h : Paired es s) (hrests : Rests s s') : Paired es s' :=
  h.congr_players hrests.sessions hrests.players fun p => congrArg Presence.id (hrests.presence p)

theorem Paired.seats (h : Paired es s) {playerId : String} (hid : playerId ∈ welcomedIds es)
    (hseats : Seats s s' playerId) : Paired es s' := by
  refine h.congr hseats.sessions fun p hp => ?_
  by_cases hnew : p = s.nextRef
  · have hself : (s'.tableManager.heap p).id = playerId := by
      rw [hnew]
      exact congrArg Presence.id hseats.player
    rw [hself]
    exact hid
  · have hother : (s'.tableManager.heap p).id = (s.tableManager.heap p).id :=
      congrArg Presence.id (hseats.others p hnew)
    rw [hseats.players, List.mem_append, List.mem_singleton] at hp
    rw [hother]
    exact h.ids p (hp.resolve_right hnew)

theorem Paired.takes (h : Paired es s) {provided : String} {player : PlayerRef}
    {session : SessionId} (hseen : ∃ e ∈ es, e.session = some session)
    (habsent : s.absentPlayer provided = some player)
    (hfree : ∀ other, s.playerSessions.lookup provided = some other → other = session)
    (c : Choices) : Paired es (reconnect.reconnected s player provided session c).state := by
  obtain ⟨-, hget, -⟩ := absentPlayer_eq_some.mp habsent
  obtain ⟨hmem, hid⟩ := getPlayer_mem hget
  have hmoved := h.moveSession hfree ⟨hseen, hid ▸ h.ids player hmem⟩
  refine hmoved.congr_players ⟨rfl, rfl⟩ rfl fun p => ?_
  rw [(moveSession_tableManager s provided session).1]
  exact reconnected_id player provided session c p

theorem Paired.leaves (h : Paired es s) (playerId : String) (player : PlayerRef) (now : ℕ) :
    Paired es (PlayerStateManager.onDisconnect (s.removeSession playerId) player now) := by
  refine (h.removeSession playerId).congr_players ⟨rfl, rfl⟩ rfl fun p => ?_
  rw [(removeSession_tableManager s playerId).1]
  exact onDisconnect_id player playerId now p

theorem Paired.runs (h : Paired es s) (c : Choices) (callback : TimerCallback) :
    Paired es (s.onTimer c callback).1 := by
  cases callback with
  | playerRemoved playerId => exact h
  | graceTimerExpired playerId =>
    exact h.congr_players (onTimer_sessions s c _) (onGraceTimerExpired_kept s playerId).1
      (onGraceTimerExpired_id playerId)

theorem Paired.moves (h : Paired es s) {e : Event} (hsessions : FreshSessions (es ++ [e]))
    (hids : FreshIds (es ++ [e])) (hmove : Moves s e s') : Paired (es ++ [e]) s' := by
  have hnow := h.concat e
  have hseen : ∀ session, e.session = some session →
      ∃ e' ∈ es ++ [e], e'.session = some session := fun session hsession => ⟨e, by simp, hsession⟩
  cases hmove with
  | welcomes session playerId =>
    have hplayer : s.playerSessions.lookup playerId = none := by
      cases hl : s.playerSessions.lookup playerId with
      | none => rfl
      | some other =>
        have hgiven := (h.seen other playerId ((h.inverse playerId other).mp hl)).2
        exact absurd hgiven ((freshIds_concat.mp hids).2 playerId rfl)
    have hfree : s.sessionToPlayer.lookup session = none := by
      cases hl : s.sessionToPlayer.lookup session with
      | none => rfl
      | some other =>
        obtain ⟨e', he', hsession⟩ := (h.seen session other hl).1
        exact absurd hsession ((freshSessions_concat.mp hsessions).2 e' he' rfl)
    have hid : playerId ∈ welcomedIds (es ++ [.connect session playerId]) := by
      simp [welcomedIds, Event.welcomedId]
    exact hnow.register hplayer hfree ⟨hseen session rfl, hid⟩
  | rests hrests => exact hnow.rests hrests
  | acts _ _ _ _ _ _ hrests => exact hnow.rests hrests
  | seats _ _ hsession _ hseats => exact hnow.seats (hnow.seen _ _ hsession).2 hseats
  | takes _ habsent hfree => exact hnow.takes (hseen _ rfl) habsent hfree _
  | ignores => exact hnow
  | drops => exact hnow.removeSession _
  | leaves => exact hnow.leaves _ _ _
  | expires i => exact hnow.congr_players ⟨rfl, rfl⟩ rfl fun _ => rfl
  | waits => exact hnow
  | runs _ =>
    refine Paired.runs ?_ _ _
    exact hnow.congr_players ⟨rfl, rfl⟩ rfl fun _ => rfl

/-! ### Sessions without a player -/

theorem removeSession_unmapped {session : SessionId} (playerId : String)
    (hnone : s.sessionToPlayer.lookup session = none) :
    (s.removeSession playerId).sessionToPlayer.lookup session = none := by
  unfold GameSession.removeSession
  split
  · exact hnone
  · rename_i other _
    by_cases hother : session = other
    · rw [hother]
      exact AList.lookup_erase _ _
    · exact (AList.lookup_erase_ne hother).trans hnone

theorem moveSession_unmapped {session other : SessionId} (hother : session ≠ other)
    (playerId : String) (hnone : s.sessionToPlayer.lookup session = none) :
    (s.moveSession playerId other).sessionToPlayer.lookup session = none := by
  unfold GameSession.moveSession
  apply (AList.lookup_insert_ne hother).trans
  split
  · exact hnone
  · exact (AList.lookup_erase_ne hother).trans hnone

/-- Only a session's own messages give it a player again. -/
theorem Moves.unmapped {e : Event} (hmove : Moves s e s') {session : SessionId}
    (hconnect : e.welcomed ≠ some session) (hmessage : ∀ text c, e ≠ .message session text c)
    (hnone : s.sessionToPlayer.lookup session = none) :
    s'.sessionToPlayer.lookup session = none := by
  have hsame : ∀ {s₁ s₂ : GameSession}, SameSessions s₁ s₂ →
      s₁.sessionToPlayer.lookup session = none → s₂.sessionToPlayer.lookup session = none := by
    intro s₁ s₂ hsame hnone
    rw [hsame.2]
    exact hnone
  cases hmove with
  | welcomes other playerId =>
    have hne : session ≠ other := fun hh => hconnect (congrArg some hh.symm)
    exact (AList.lookup_insert_ne hne).trans hnone
  | rests hrests => exact hsame hrests.sessions hnone
  | acts _ _ _ _ _ _ hrests => exact hsame hrests.sessions hnone
  | seats _ _ _ _ hseats => exact hsame hseats.sessions hnone
  | @takes other json c =>
    have hne : session ≠ other := by
      rintro rfl
      exact hmessage _ c rfl
    exact moveSession_unmapped hne _ hnone
  | ignores => exact hnone
  | drops => exact removeSession_unmapped _ hnone
  | leaves => exact removeSession_unmapped _ hnone
  | expires => exact hnone
  | waits => exact hnone
  | runs _ => exact hsame (onTimer_sessions _ _ _) hnone

theorem lookup_of_erase {sessions : AList fun _ : SessionId => String} {session other : SessionId}
    {playerId : String} (hl : (sessions.erase other).lookup session = some playerId) :
    sessions.lookup session = some playerId := by
  have hne : session ≠ other := by
    rintro rfl
    rw [AList.lookup_erase] at hl
    cases hl
  rw [← hl]
  exact (AList.lookup_erase_ne hne).symm

theorem removeSession_mapped {session : SessionId} {playerId other : String}
    (hl : (s.removeSession other).sessionToPlayer.lookup session = some playerId) :
    s.sessionToPlayer.lookup session = some playerId := by
  unfold GameSession.removeSession at hl
  split at hl
  · exact hl
  · exact lookup_of_erase hl

/-- A session gets a player when it is welcomed or reconnects. -/
theorem Moves.mapped {e : Event} (hmove : Moves s e s') {session : SessionId} {playerId : String}
    (hconnect : e.welcomed ≠ some session)
    (htakes : ∀ json c name provided, e = .message session (some json) c →
      joinOf json = some (name, provided) → s.absentPlayer provided = none)
    (hl : s'.sessionToPlayer.lookup session = some playerId) :
    s.sessionToPlayer.lookup session = some playerId := by
  cases hmove with
  | welcomes other playerId =>
    have hne : session ≠ other := fun hh => hconnect (congrArg some hh.symm)
    exact (AList.lookup_insert_ne hne).symm.trans hl
  | rests hrests => exact hrests.sessions.2 ▸ hl
  | acts _ _ _ _ _ _ hrests => exact hrests.sessions.2 ▸ hl
  | seats _ _ _ _ hseats => exact hseats.sessions.2 ▸ hl
  | @takes other json c name provided player hjoin habsent =>
    have hne : session ≠ other := by
      rintro rfl
      cases (htakes json c name provided rfl hjoin).symm.trans habsent
    change (s.moveSession provided other).sessionToPlayer.lookup session = _ at hl
    unfold GameSession.moveSession at hl
    have hl := (AList.lookup_insert_ne hne).symm.trans hl
    split at hl
    · exact hl
    · exact lookup_of_erase hl
  | ignores => exact hl
  | drops => exact removeSession_mapped hl
  | leaves => exact removeSession_mapped hl
  | expires => exact hl
  | waits => exact hl
  | @runs i c callback hready =>
    rw [(onTimer_sessions _ c callback).2] at hl
    exact hl

theorem onDisconnect_unmapped (h : Inverse s.playerSessions s.sessionToPlayer)
    (session : SessionId) (c : Choices) :
    (s.step (.disconnect session c)).1.sessionToPlayer.lookup session = none := by
  cases hl : s.sessionToPlayer.lookup session with
  | none => simp only [step, onDisconnect, hl]
  | some playerId =>
    have hremoved : (s.removeSession playerId).sessionToPlayer.lookup session = none := by
      simp only [GameSession.removeSession, (h playerId session).mpr hl]
      exact AList.lookup_erase _ _
    simp only [step, onDisconnect, hl]
    split <;> exact hremoved

theorem disconnect_ignored {session : SessionId} (hnone : s.sessionToPlayer.lookup session = none)
    (c : Choices) : s.step (.disconnect session c) = (s, []) := by
  simp only [step, onDisconnect, hnone]

end GameSession

/-! ### Runs with direct calls of `removeSession` -/

inductive SessionEvent where
  | event (e : Event)
  | removeSession (playerId : String)

def eventsOf (es : List SessionEvent) : List Event :=
  es.filterMap fun
    | .event e => some e
    | .removeSession _ => none

theorem eventsOf_event (es : List SessionEvent) (e : Event) :
    eventsOf (es ++ [.event e]) = eventsOf es ++ [e] := by
  simp [eventsOf]

theorem eventsOf_removeSession (es : List SessionEvent) (playerId : String) :
    eventsOf (es ++ [.removeSession playerId]) = eventsOf es := by
  simp [eventsOf]

namespace GameSession

def sessionStep (s : GameSession) : SessionEvent → GameSession × List Effect
  | .event e => s.step e
  | .removeSession playerId => (s.removeSession playerId, [])

def sessionMachine (config : Config) : Machine GameSession SessionEvent Effect :=
  ⟨new config, sessionStep⟩

theorem sessionMachine_run (config : Config) (es : List Event) :
    (sessionMachine config).run (es.map .event) = (machine config).run es := by
  simp only [Machine.run, List.foldl_map]
  rfl

theorem sessionRun_inv (config : Config) (es : List SessionEvent) :
    let s := (sessionMachine config).run es
    TableInv Unfolded s.tableManager s.nextRef := by
  refine (sessionMachine config).invariant
    (I := fun s => TableInv Unfolded s.tableManager s.nextRef) TableInv.new ?_ es
  intro s e h
  cases e with
  | event e => exact (step_accounted h e).inv
  | removeSession playerId =>
    obtain ⟨htable, hnext⟩ := removeSession_tableManager s playerId
    simp only [Machine.next, sessionMachine, sessionStep, htable, hnext]
    exact h

/-- Each session is welcomed once and first, and no id is given out twice. -/
def Fresh (es : List SessionEvent) : Prop := FreshSessions (eventsOf es) ∧ FreshIds (eventsOf es)

theorem Fresh.of_concat {es : List SessionEvent} {e : SessionEvent} (h : Fresh (es ++ [e])) :
    Fresh es := by
  cases e with
  | event e =>
    rw [Fresh, eventsOf_event] at h
    exact ⟨(freshSessions_concat.mp h.1).1, (freshIds_concat.mp h.2).1⟩
  | removeSession playerId =>
    rw [Fresh, eventsOf_removeSession] at h
    exact h

theorem Fresh.of_append {es later : List SessionEvent} (h : Fresh (es ++ later)) : Fresh es := by
  induction later using List.reverseRecOn with
  | nil =>
    rw [List.append_nil] at h
    exact h
  | append_singleton later e ih =>
    rw [← List.append_assoc] at h
    exact ih h.of_concat

theorem sessionRun_paired (config : Config) {es : List SessionEvent} (hfresh : Fresh es) :
    Paired (eventsOf es) ((sessionMachine config).run es) := by
  refine (sessionMachine config).invariant_of_ok Fresh (fun _ _ h => h.of_concat)
    (fun es s => Paired (eventsOf es) s) (Paired.new config) ?_ es hfresh
  intro es e hfresh h
  cases e with
  | event e =>
    rw [Fresh, eventsOf_event] at hfresh
    rw [eventsOf_event]
    exact h.moves hfresh.1 hfresh.2 (step_moves (sessionRun_inv config es) e)
  | removeSession playerId =>
    rw [eventsOf_removeSession]
    exact h.removeSession playerId

theorem run_paired (config : Config) {es : List Event} (hsessions : FreshSessions es)
    (hids : FreshIds es) : Paired es ((machine config).run es) := by
  have hevents : eventsOf (es.map .event) = es := by
    simp [eventsOf, List.filterMap_map]
  have hfresh : Fresh (es.map .event) := by
    rw [Fresh, hevents]
    exact ⟨hsessions, hids⟩
  have h := sessionRun_paired config hfresh
  rw [hevents, sessionMachine_run] at h
  exact h

theorem stays_unmapped (config : Config) {es later : List SessionEvent} {session : SessionId}
    (hfresh : Fresh (es ++ later)) (hseen : ∃ e ∈ eventsOf es, e.session = some session)
    (hnone : ((sessionMachine config).run es).sessionToPlayer.lookup session = none)
    (hsilent : ∀ text c, SessionEvent.event (.message session text c) ∉ later) :
    ((sessionMachine config).run (es ++ later)).sessionToPlayer.lookup session = none := by
  induction later using List.reverseRecOn with
  | nil =>
    rw [List.append_nil]
    exact hnone
  | append_singleton later e ih =>
    rw [← List.append_assoc] at hfresh ⊢
    have hnow := ih hfresh.of_concat fun text c hmem => hsilent text c (by simp [hmem])
    rw [Machine.run_concat]
    cases e with
    | removeSession playerId => exact removeSession_unmapped playerId hnow
    | event e =>
      obtain ⟨e', he', hsession⟩ := hseen
      have hmem : e' ∈ eventsOf (es ++ later) := by
        simp only [eventsOf, List.filterMap_append, List.mem_append]
        exact .inl he'
      refine (step_moves (sessionRun_inv config (es ++ later)) e).unmapped ?_ ?_ hnow
      · intro hwelcomed
        rw [Fresh, eventsOf_event] at hfresh
        have hne := (freshSessions_concat.mp hfresh.1).2 e' hmem (by simp [hwelcomed])
        exact hne (hsession.trans hwelcomed.symm)
      · rintro text c rfl
        exact hsilent text c (by simp)

/-- The maps stay inverse to each other. Disconnecting a session that no player
has changes nothing, however often and whatever its player did since. -/
theorem sessions_inverse (config : Config) (es : List SessionEvent)
    (hsessions : FreshSessions (eventsOf es)) (hids : FreshIds (eventsOf es)) :
    let s := (sessionMachine config).run es
    (∀ playerId session, s.playerSessions.lookup playerId = some session ↔
      s.sessionToPlayer.lookup session = some playerId) ∧
    (∀ session p q, s.playerSessions.lookup p = some session →
      s.playerSessions.lookup q = some session → p = q) ∧
    (∀ playerId a b, s.sessionToPlayer.lookup a = some playerId →
      s.sessionToPlayer.lookup b = some playerId → a = b) ∧
    (∀ session c, (∀ playerId, s.playerSessions.lookup playerId ≠ some session) →
      s.step (.disconnect session c) = (s, [])) ∧
    ∀ pre later session c c', es = pre ++ .event (.disconnect session c) :: later →
      (∀ text d, SessionEvent.event (.message session text d) ∉ later) →
      s.step (.disconnect session c') = (s, []) := by
  intro s
  have hfresh : Fresh es := ⟨hsessions, hids⟩
  have hinverse : Inverse s.playerSessions s.sessionToPlayer :=
    (sessionRun_paired config hfresh).inverse
  refine ⟨hinverse, fun session p q hp hq => hinverse.left_unique hp hq,
    fun playerId a b ha hb => hinverse.symm.left_unique ha hb, fun session c hno => ?_, ?_⟩
  · exact disconnect_ignored (hinverse.lookup_eq_none_iff.mpr hno) c
  · intro pre later session c c' hes hsilent
    have hsplit : es = (pre ++ [.event (.disconnect session c)]) ++ later := by simp [hes]
    have hprefix : Fresh pre := (hes ▸ hfresh : Fresh (pre ++ _)).of_append
    have hgone : ((sessionMachine config).run
        (pre ++ [.event (.disconnect session c)])).sessionToPlayer.lookup session = none := by
      rw [Machine.run_concat]
      exact onDisconnect_unmapped (sessionRun_paired config hprefix).inverse session c
    refine disconnect_ignored ?_ c'
    simp only [s, hsplit]
    refine stays_unmapped config (hsplit ▸ hfresh) ⟨.disconnect session c, ?_, rfl⟩ hgone hsilent
    simp [eventsOf_event]

def reclaim (session : SessionId) (name playerId : String) : Event :=
  .message session (some (.typed "join" (.object [
    ("name", .string name), ("player_id", .string playerId)]))) (.plain "1")

/-- Bob is back on another session when his first one disconnects again. -/
theorem sessions_inverse_late :
    let es := (bothJoined ++ [.disconnect 1 (.plain "1"), .connect 2 "carol",
      reclaim 2 "Bob" "bob"]).map SessionEvent.event
    let s := (sessionMachine ⟨30000, 60000⟩).run es
    s.playerSessions.lookup "bob" = some 2 ∧ s.step (.disconnect 1 (.plain "1")) = (s, []) := by
  intro es s
  refine ⟨rfl, ?_⟩
  refine (sessions_inverse ⟨30000, 60000⟩ es (by decide) (by decide)).2.2.2.2
    (bothJoined.map .event) [.event (.connect 2 "carol"), .event (reclaim 2 "Bob" "bob")] 1
    (.plain "1") (.plain "1") rfl ?_
  intro text d hmem
  simp [reclaim] at hmem

end GameSession
end HeadsUp.Server
