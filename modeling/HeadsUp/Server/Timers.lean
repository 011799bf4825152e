import HeadsUp.Server.SessionMaps

/-!
# Timers of absent players

A pending wait is the one its player's timer holds, so that cancelling his
timers leaves him none. Grace and removal timers are started alike, on the timer
of their kind. A handler that is already queued is not cancelled, and it does not
ask whether its player is back.
-/

namespace HeadsUp.Server
open HeadsUp.Core HeadsUp.Common HeadsUp.Lib

def TimerCallback.playerId : TimerCallback → String
  | .graceTimerExpired playerId => playerId
  | .playerRemoved playerId => playerId

inductive TimerKind where
  | grace | removal
  deriving DecidableEq, Repr

def TimerCallback.kind : TimerCallback → TimerKind
  | .graceTimerExpired _ => .grace
  | .playerRemoved _ => .removal

namespace PlayerTimers

def ofKind (timers : PlayerTimers) : TimerKind → Option ℕ
  | .grace => timers.graceTimer
  | .removal => timers.removalTimer

def withTimer (timers : PlayerTimers) (timer : ℕ) : TimerKind → PlayerTimers
  | .grace => { timers with graceTimer := some timer }
  | .removal => { timers with removalTimer := some timer }

theorem ofKind_withTimer (timers : PlayerTimers) (timer : ℕ) (kind k : TimerKind) :
    (timers.withTimer timer kind).ofKind k = if k = kind then some timer else timers.ofKind k := by
  cases kind <;> cases k <;> rfl

theorem ofKind_none (kind : TimerKind) : (⟨none, none⟩ : PlayerTimers).ofKind kind = none := by
  cases kind <;> rfl

theorem mem_of_kind {timers : PlayerTimers} {t : ℕ} {kind : TimerKind}
    (h : timers.ofKind kind = some t) :
    t ∈ timers.graceTimer.toList ++ timers.removalTimer.toList := by
  cases kind <;> simp only [ofKind] at h <;> simp [h]

end PlayerTimers

namespace ConnectionManager

def timerOf (cm : ConnectionManager) (playerId : String) (kind : TimerKind) : Option ℕ :=
  (cm.timersOf playerId).ofKind kind

/-- `w` is put on the timer of `playerId` of this kind, the one he has or a new one. -/
structure Starts (cm cm' : ConnectionManager) (playerId : String) (kind : TimerKind) (w : Wait) :
    Prop where
  timer : cm.timerOf playerId kind = some w.timer ∨
    cm.timerOf playerId kind = none ∧ w.timer = cm.nextTimer
  next : cm.nextTimer ≤ cm'.nextTimer
  bound : cm.timerOf playerId kind = none → w.timer < cm'.nextTimer
  pending : cm'.pending = cm.pending.filter (fun x => x.timer ≠ w.timer) ++ [w]
  ready : cm'.ready = cm.ready
  timerOf : ∀ p k, cm'.timerOf p k
    = if p = playerId ∧ k = kind then some w.timer else cm.timerOf p k

/-- What `startGraceTimer` and `startRemovalTimer` share, whatever the callback. -/
def startTimer (cm : ConnectionManager) (playerId : String) (kind : TimerKind) (afterMs : ℤ)
    (onExpiry : TimerCallback) : ConnectionManager :=
  let timers := cm.timersOf playerId
  match timers.ofKind kind with
  | none =>
    let timer := cm.nextTimer
    { cm with
      timers := cm.timers.insert playerId (timers.withTimer timer kind)
      nextTimer := timer + 1 }.wait timer afterMs onExpiry
  | some timer => (cm.cancel timer).wait timer afterMs onExpiry

theorem startGraceTimer_eq (cm : ConnectionManager) (playerId : String) (ms : ℤ)
    (onExpiry : TimerCallback) :
    cm.startGraceTimer playerId ms onExpiry = cm.startTimer playerId .grace ms onExpiry := rfl

theorem startRemovalTimer_eq (cm : ConnectionManager) (playerId : String) (ms : ℤ)
    (onExpiry : TimerCallback) :
    cm.startRemovalTimer playerId ms onExpiry = cm.startTimer playerId .removal ms onExpiry := rfl

theorem timerOf_insert (timers : AList fun _ : String => PlayerTimers) (playerId : String)
    (timer next : ℕ) (kind : TimerKind) (pending : List Wait) (ready : List TimerCallback)
    (p : String) (k : TimerKind) :
    ConnectionManager.timerOf ⟨timers.insert playerId
        (((timers.lookup playerId).getD ⟨none, none⟩).withTimer timer kind), next, pending, ready⟩ p k
      = if p = playerId ∧ k = kind then some timer
        else ((timers.lookup p).getD ⟨none, none⟩).ofKind k := by
  by_cases hp : p = playerId
  · subst hp
    simp only [timerOf, timersOf, AList.lookup_insert, Option.getD_some, true_and,
      PlayerTimers.ofKind_withTimer]
  · simp only [timerOf, timersOf, AList.lookup_insert_ne hp, hp, false_and, if_false]

theorem startTimer_starts (cm : ConnectionManager) (playerId : String) (kind : TimerKind) (ms : ℤ)
    (onExpiry : TimerCallback) : ∃ timer,
      Starts cm (cm.startTimer playerId kind ms onExpiry) playerId kind ⟨timer, onExpiry, ms⟩ := by
  cases htimer : (cm.timersOf playerId).ofKind kind with
  | none =>
    have hstarted : cm.startTimer playerId kind ms onExpiry = { cm with
        timers := cm.timers.insert playerId ((cm.timersOf playerId).withTimer cm.nextTimer kind)
        nextTimer := cm.nextTimer + 1 }.wait cm.nextTimer ms onExpiry := by
      simp only [startTimer, htimer]
    rw [hstarted]
    exact ⟨cm.nextTimer, .inr ⟨htimer, rfl⟩, Nat.le_succ _, fun _ => Nat.lt_succ_self _, rfl, rfl,
      fun p k => timerOf_insert _ _ _ _ _ _ _ p k⟩
  | some timer =>
    have hstarted : cm.startTimer playerId kind ms onExpiry
        = (cm.cancel timer).wait timer ms onExpiry := by
      simp only [startTimer, htimer]
    rw [hstarted]
    refine ⟨timer, .inl htimer, le_refl _, ?_, ?_, rfl, ?_⟩
    · intro hnone
      rw [timerOf, htimer] at hnone
      cases hnone
    · simp only [wait, cancel, List.filter_filter, Bool.and_self]
    · intro p k
      split_ifs with hself
      · obtain ⟨rfl, rfl⟩ := hself
        exact htimer
      · rfl

variable {cm cm' : ConnectionManager}

/-- A pending wait is the one of its player's timer. -/
def Timed (cm : ConnectionManager) : Prop :=
  ∀ w ∈ cm.pending, cm.timerOf w.callback.playerId w.callback.kind = some w.timer

theorem Timed.starts (h : Timed cm) {playerId : String} {kind : TimerKind} {w : Wait}
    (hs : Starts cm cm' playerId kind w) (hid : w.callback.playerId = playerId)
    (hkind : w.callback.kind = kind) : Timed cm' := by
  intro x hx
  rw [hs.pending, List.mem_append, List.mem_singleton, List.mem_filter] at hx
  rw [hs.timerOf]
  rcases hx with ⟨hold, hne⟩ | rfl
  · have hne : x.timer ≠ w.timer := by simpa using hne
    have htimed := h x hold
    split_ifs with hself
    · -- the wait of this very timer is cancelled
      rw [hself.1, hself.2] at htimed
      rcases hs.timer with hsame | ⟨hnone, -⟩
      · exact absurd (Option.some.inj (htimed.symm.trans hsame)) hne
      · cases htimed.symm.trans hnone
    · exact htimed
  · rw [if_pos ⟨hid, hkind⟩]

theorem foldl_cancel (timers : List ℕ) (cm : ConnectionManager) :
    timers.foldl cancel cm = { cm with pending := cm.pending.filter fun w => w.timer ∉ timers } := by
  induction timers generalizing cm with
  | nil => simp
  | cons timer timers ih =>
    rw [List.foldl_cons, ih]
    simp only [cancel, List.filter_filter, List.mem_cons, not_or, Bool.decide_and, Bool.and_comm]

theorem cancelTimers_of_lookup {playerId : String} {timers : PlayerTimers}
    (hl : cm.timers.lookup playerId = some timers) :
    cm.cancelTimers playerId = { cm with
      timers := cm.timers.erase playerId
      pending := cm.pending.filter fun w =>
        w.timer ∉ timers.graceTimer.toList ++ timers.removalTimer.toList } := by
  simp only [cancelTimers, hl, foldl_cancel]

theorem cancelTimers_ready (playerId : String) : (cm.cancelTimers playerId).ready = cm.ready := by
  cases hl : cm.timers.lookup playerId with
  | none => simp only [cancelTimers, hl]
  | some timers => rw [cancelTimers_of_lookup hl]

theorem mem_cancelTimers {playerId : String} {w : Wait}
    (hw : w ∈ (cm.cancelTimers playerId).pending) : w ∈ cm.pending := by
  cases hl : cm.timers.lookup playerId with
  | none =>
    simp only [cancelTimers, hl] at hw
    exact hw
  | some timers =>
    rw [cancelTimers_of_lookup hl] at hw
    exact (List.mem_filter.mp hw).1

/-- Nothing is pending for a player whose timers were cancelled. -/
theorem Timed.cancelled (h : Timed cm) {playerId : String} {w : Wait}
    (hw : w ∈ (cm.cancelTimers playerId).pending) : w.callback.playerId ≠ playerId := by
  intro hid
  have htimed := h w (mem_cancelTimers hw)
  rw [hid, timerOf, timersOf] at htimed
  cases hl : cm.timers.lookup playerId with
  | none =>
    rw [hl, Option.getD_none, PlayerTimers.ofKind_none] at htimed
    cases htimed
  | some timers =>
    rw [hl, Option.getD_some] at htimed
    rw [cancelTimers_of_lookup hl, List.mem_filter, decide_eq_true_iff] at hw
    exact hw.2 (PlayerTimers.mem_of_kind htimed)

theorem Timed.cancelTimers (h : Timed cm) (playerId : String) :
    Timed (cm.cancelTimers playerId) := by
  intro w hw
  have hne := h.cancelled hw
  have htimed := h w (mem_cancelTimers hw)
  cases hl : cm.timers.lookup playerId with
  | none =>
    simp only [ConnectionManager.cancelTimers, hl]
    exact htimed
  | some timers =>
    rw [cancelTimers_of_lookup hl]
    simp only [timerOf, timersOf, AList.lookup_erase_ne hne]
    exact htimed

theorem mem_expire {i : ℕ} {w : Wait} (hw : w ∈ (cm.expire i).pending) : w ∈ cm.pending := by
  unfold expire at hw
  split at hw
  · exact hw
  · exact List.mem_of_mem_eraseIdx hw

theorem mem_expire_ready {i : ℕ} {callback : TimerCallback}
    (hc : callback ∈ (cm.expire i).ready) :
    callback ∈ cm.ready ∨ ∃ w ∈ cm.pending, w.callback = callback := by
  unfold expire at hc
  split at hc
  · exact .inl hc
  · rename_i w hw
    rcases List.mem_append.mp hc with hc | hc
    · exact .inl hc
    · exact .inr ⟨w, List.mem_of_getElem? hw, (List.mem_singleton.mp hc).symm⟩

theorem Timed.expire (h : Timed cm) (i : ℕ) : Timed (cm.expire i) := by
  intro w hw
  have htimers : (cm.expire i).timers = cm.timers := by
    unfold ConnectionManager.expire
    split <;> rfl
  rw [timerOf, timersOf, htimers]
  exact h w (mem_expire hw)

end ConnectionManager

namespace GameSession
open ConnectionManager

/-- Timers run for seated players only. -/
structure Watched (s : GameSession) : Prop where
  timed : Timed s.connections
  pending : ∀ w ∈ s.connections.pending, ∃ p ∈ s.tableManager.players,
    (s.tableManager.heap p).id = w.callback.playerId
  ready : ∀ callback ∈ s.connections.ready, ∃ p ∈ s.tableManager.players,
    (s.tableManager.heap p).id = callback.playerId

variable {s s' : GameSession}

def Stays (s s' : GameSession) : Prop :=
  ∀ p ∈ s.tableManager.players, p ∈ s'.tableManager.players ∧
    (s'.tableManager.heap p).id = (s.tableManager.heap p).id

theorem Rests.stays (hrests : Rests s s') : Stays s s' := by
  intro p hp
  rw [hrests.players]
  exact ⟨hp, congrArg Presence.id (hrests.presence p)⟩

theorem Seats.stays {playerId : String} (hseats : Seats s s' playerId)
    (hinv : TableInv Unfolded s.tableManager s.nextRef) : Stays s s' := by
  intro p hp
  rw [hseats.players]
  exact ⟨List.mem_append_left _ hp,
    congrArg Presence.id (hseats.others p (hinv.fresh p hp).ne)⟩

theorem Watched.new (config : Config) : Watched (new config) where
  timed := by
    intro w hw
    cases hw
  pending := by
    intro w hw
    cases hw
  ready := by
    intro callback hc
    cases hc

theorem Watched.congr (h : Watched s) (hstays : Stays s s') (htimed : Timed s'.connections)
    (hpending : ∀ w ∈ s'.connections.pending, w ∈ s.connections.pending ∨
      ∃ p ∈ s.tableManager.players, (s.tableManager.heap p).id = w.callback.playerId)
    (hready : ∀ callback ∈ s'.connections.ready, callback ∈ s.connections.ready ∨
      ∃ w ∈ s.connections.pending, w.callback = callback) : Watched s' := by
  have hseated : ∀ {playerId : String},
      (∃ p ∈ s.tableManager.players, (s.tableManager.heap p).id = playerId) →
      ∃ p ∈ s'.tableManager.players, (s'.tableManager.heap p).id = playerId := by
    intro playerId hh
    obtain ⟨p, hp, hid⟩ := hh
    obtain ⟨hp', hid'⟩ := hstays p hp
    exact ⟨p, hp', hid'.trans hid⟩
  refine ⟨htimed, fun w hw => hseated ?_, fun callback hc => hseated ?_⟩
  · exact (hpending w hw).elim (h.pending w) id
  · rcases hready callback hc with hc | ⟨w, hw, rfl⟩
    · exact h.ready callback hc
    · exact h.pending w hw

theorem Watched.same (h : Watched s) (hstays : Stays s s')
    (hsame : s'.connections = s.connections) : Watched s' := by
  refine h.congr hstays ?_ ?_ ?_ <;> rw [hsame]
  · exact h.timed
  · exact fun w hw => .inl hw
  · exact fun callback hc => .inl hc

theorem Watched.starts (h : Watched s) (hstays : Stays s s') {playerId : String}
    {kind : TimerKind} {afterMs : ℤ} {onExpiry : TimerCallback}
    (hstart : s'.connections = s.connections.startTimer playerId kind afterMs onExpiry)
    (hid : onExpiry.playerId = playerId) (hkind : onExpiry.kind = kind)
    (hseated : ∃ p ∈ s.tableManager.players, (s.tableManager.heap p).id = playerId) :
    Watched s' := by
  obtain ⟨timer, hs⟩ := startTimer_starts s.connections playerId kind afterMs onExpiry
  rw [← hstart] at hs
  refine h.congr hstays (h.timed.starts hs hid hkind) (fun w hw => ?_) fun callback hc => ?_
  · rw [hs.pending, List.mem_append, List.mem_filter, List.mem_singleton] at hw
    rcases hw with ⟨hw, -⟩ | rfl
    · exact .inl hw
    · exact .inr (hid ▸ hseated)
  · rw [hs.ready] at hc
    exact .inl hc

/-! ### The moves that start and cancel timers -/

theorem reconnected_connections {player : PlayerRef} {provided : String}
    (hid : (s.tableManager.heap player).id = provided) (session : SessionId) (c : Choices) :
    (reconnect.reconnected s player provided session c).state.connections
      = (s.connections.cancelTimers provided).cancelTimers provided := by
  have hmoved : (s.moveSession provided session).connections = s.connections := by
    unfold moveSession
    split <;> rfl
  simp only [reconnect.reconnected, PlayerStateManager.onReconnect, updatePlayer, hmoved,
    (moveSession_tableManager s provided session).1, hid]

theorem reconnected_stays (player : PlayerRef) (provided : String) (session : SessionId)
    (c : Choices) : Stays s (reconnect.reconnected s player provided session c).state := by
  intro p hp
  rw [(reconnected_kept player provided session c).1]
  exact ⟨hp, reconnected_id player provided session c p⟩

theorem removeSession_connections (s : GameSession) (playerId : String) :
    (s.removeSession playerId).connections = s.connections ∧
      (s.removeSession playerId).config = s.config := by
  unfold removeSession
  split <;> exact ⟨rfl, rfl⟩

theorem onDisconnect_connections {player : PlayerRef} {playerId : String}
    (hid : (s.tableManager.heap player).id = playerId) (now : ℕ) :
    (PlayerStateManager.onDisconnect (s.removeSession playerId) player now).connections
      = s.connections.startTimer playerId .grace s.config.disconnectGraceTimeMs
          (.graceTimerExpired playerId) := by
  simp only [PlayerStateManager.onDisconnect, updatePlayer,
    (removeSession_tableManager s playerId).1, hid, removeSession_connections s playerId,
    startGraceTimer_eq]

theorem onDisconnect_stays (player : PlayerRef) (playerId : String) (now : ℕ) :
    Stays s (PlayerStateManager.onDisconnect (s.removeSession playerId) player now) := by
  intro p hp
  rw [(onDisconnect_kept player playerId now).1]
  exact ⟨hp, onDisconnect_id player playerId now p⟩

theorem onGraceTimerExpired_connections (playerId : String) :
    (PlayerStateManager.onGraceTimerExpired s playerId).connections
      = s.connections.startTimer playerId .removal s.config.removalTimeoutMs
          (.playerRemoved playerId) := by
  unfold PlayerStateManager.onGraceTimerExpired
  split <;> exact startRemovalTimer_eq _ _ _ _

theorem onGraceTimerExpired_stays (playerId : String) :
    Stays s (PlayerStateManager.onGraceTimerExpired s playerId) := by
  intro p hp
  rw [(onGraceTimerExpired_kept s playerId).1]
  exact ⟨hp, onGraceTimerExpired_id playerId p⟩

theorem Watched.moves (h : Watched s) (hinv : TableInv Unfolded s.tableManager s.nextRef)
    {e : Event} (hmove : Moves s e s') : Watched s' := by
  have hsame : ∀ s' : GameSession, s'.tableManager = s.tableManager →
      s'.connections = s.connections → Watched s' := by
    intro s' htable hconnections
    refine h.same (fun p hp => ?_) hconnections
    rw [htable]
    exact ⟨hp, rfl⟩
  cases hmove with
  | welcomes => exact hsame _ rfl rfl
  | rests hrests => exact h.same hrests.stays hrests.connections
  | acts _ _ _ _ _ _ hrests => exact h.same hrests.stays hrests.connections
  | seats _ _ _ _ hseats => exact h.same (hseats.stays hinv) hseats.connections
  | @takes session json c name provided player _ habsent =>
    obtain ⟨-, hid⟩ := getPlayer_mem (absentPlayer_eq_some.mp habsent).2.1
    have hconnections := reconnected_connections hid session c
    refine h.congr (reconnected_stays player provided session c) ?_ ?_ ?_ <;> rw [hconnections]
    · exact (h.timed.cancelTimers provided).cancelTimers provided
    · exact fun w hw => .inl (mem_cancelTimers (mem_cancelTimers hw))
    · intro callback hc
      rw [cancelTimers_ready, cancelTimers_ready] at hc
      exact .inl hc
  | ignores => exact h
  | @drops session c playerId =>
    exact hsame _ (removeSession_tableManager s playerId).1 (removeSession_connections s playerId).1
  | @leaves session c playerId player _ hget =>
    obtain ⟨hmem, hid⟩ := getPlayer_mem hget
    exact h.starts (onDisconnect_stays player playerId c.now)
      (onDisconnect_connections hid c.now) rfl rfl ⟨player, hmem, hid⟩
  | expires i =>
    exact h.congr (fun p hp => ⟨hp, rfl⟩) (h.timed.expire i) (fun w hw => .inl (mem_expire hw))
      fun callback hc => mem_expire_ready hc
  | waits => exact h
  | @runs i c callback hready =>
    have htaken : Watched { s with connections := (s.connections.take i).2 } :=
      ⟨h.timed, h.pending, fun callback hc => h.ready callback (List.mem_of_mem_eraseIdx hc)⟩
    have hseated := h.ready callback (List.mem_of_getElem? hready)
    cases callback with
    | playerRemoved playerId => exact htaken
    | graceTimerExpired playerId =>
      exact htaken.starts (onGraceTimerExpired_stays playerId)
        (onGraceTimerExpired_connections playerId) rfl rfl hseated

theorem run_watched (config : Config) (es : List Event) : Watched ((machine config).run es) := by
  induction es using List.reverseRecOn with
  | nil => exact Watched.new config
  | append_singleton es e ih =>
    rw [Machine.run_concat]
    exact ih.moves (run_inv config es) (run_moves config es e)

/-! ### Players who are back -/

/-- A connected player is not sitting out and nothing is pending that removes
him. -/
def InGame (cm : ConnectionManager) (x : Presence) : Prop :=
  x.connectionStatus = .connected → x.isSittingOut = false ∧ x.disconnectedAt = none ∧
    ∀ w ∈ cm.pending, w.callback ≠ .playerRemoved x.id

instance (cm : ConnectionManager) (x : Presence) : Decidable (InGame cm x) :=
  inferInstanceAs (Decidable (_ → _))

def AllInGame (s : GameSession) : Prop :=
  ∀ p ∈ s.tableManager.players, InGame s.connections (presence (s.tableManager.heap p))

instance (s : GameSession) : Decidable (AllInGame s) :=
  inferInstanceAs (Decidable (∀ p ∈ s.tableManager.players, _))

/-- The grace handler of a player runs who is connected again. -/
def RunsLate (s : GameSession) (e : Event) : Prop :=
  ∃ i c playerId p, e = .timerRuns i c ∧
    s.connections.ready[i]? = some (.graceTimerExpired playerId) ∧
    s.tableManager.getPlayer playerId = some p ∧
    (s.tableManager.heap p).connectionStatus = .connected

theorem InGame.mono {cm cm' : ConnectionManager} {x : Presence} (h : InGame cm x)
    (hpending : ∀ w ∈ cm'.pending, w.callback = .playerRemoved x.id → w ∈ cm.pending) :
    InGame cm' x := by
  intro hconnected
  obtain ⟨hsitting, hleft, hno⟩ := h hconnected
  exact ⟨hsitting, hleft, fun w hw hremoves => hno w (hpending w hw hremoves) hremoves⟩

theorem mem_startTimer {cm : ConnectionManager} {playerId : String} {kind : TimerKind} {afterMs : ℤ}
    {onExpiry : TimerCallback} {w : Wait}
    (hw : w ∈ (cm.startTimer playerId kind afterMs onExpiry).pending) :
    w ∈ cm.pending ∨ w.callback = onExpiry := by
  obtain ⟨timer, hs⟩ := startTimer_starts cm playerId kind afterMs onExpiry
  rw [hs.pending, List.mem_append, List.mem_filter, List.mem_singleton] at hw
  rcases hw with ⟨hw, -⟩ | rfl
  · exact .inl hw
  · exact .inr rfl

theorem AllInGame.rests (h : AllInGame s) (hrests : Rests s s') : AllInGame s' := by
  intro p hp
  rw [hrests.players] at hp
  rw [hrests.presence, hrests.connections]
  exact h p hp

theorem AllInGame.seats (h : AllInGame s) (hwatched : Watched s) {playerId : String}
    (hnew : s.tableManager.getPlayer playerId = none) (hseats : Seats s s' playerId) :
    AllInGame s' := by
  intro p hp
  rw [hseats.connections]
  by_cases hself : p = s.nextRef
  · rw [hself, hseats.player]
    refine fun _ => ⟨rfl, rfl, fun w hw hremoves => ?_⟩
    -- no timer of the new player has ever started
    obtain ⟨q, hq, hid⟩ := hwatched.pending w hw
    rw [hremoves] at hid
    have hno := List.find?_eq_none.mp hnew q hq
    exact hno (decide_eq_true hid)
  · rw [hseats.others p hself]
    rw [hseats.players, List.mem_append, List.mem_singleton] at hp
    exact h p (hp.resolve_right hself)

theorem AllInGame.takes (h : AllInGame s) (hwatched : Watched s) {player : PlayerRef}
    {provided : String} (hid : (s.tableManager.heap player).id = provided) (session : SessionId)
    (c : Choices) : AllInGame (reconnect.reconnected s player provided session c).state := by
  intro p hp
  rw [reconnected_presence, reconnected_connections hid]
  by_cases hself : p = player
  · rw [if_pos hself]
    refine fun _ => ⟨rfl, rfl, fun w hw hremoves => ?_⟩
    apply (hwatched.timed.cancelTimers provided).cancelled hw
    rw [hremoves]
    exact hid
  · rw [if_neg hself]
    rw [(reconnected_kept player provided session c).1] at hp
    exact (h p hp).mono fun w hw _ => mem_cancelTimers (mem_cancelTimers hw)

theorem AllInGame.leaves (h : AllInGame s) {player : PlayerRef} {playerId : String}
    (hid : (s.tableManager.heap player).id = playerId) (now : ℕ) :
    AllInGame (PlayerStateManager.onDisconnect (s.removeSession playerId) player now) := by
  intro p hp
  rw [onDisconnect_presence, onDisconnect_connections hid]
  by_cases hself : p = player
  · rw [if_pos hself]
    intro hconnected
    cases hconnected
  · rw [if_neg hself]
    rw [(onDisconnect_kept player playerId now).1] at hp
    refine (h p hp).mono fun w hw hremoves => (mem_startTimer hw).resolve_right fun hgrace => ?_
    cases hgrace.symm.trans hremoves

theorem AllInGame.expires (h : AllInGame s)
    (hinv : TableInv Unfolded s.tableManager s.nextRef) {playerId : String}
    (haway : ∀ p, s.tableManager.getPlayer playerId = some p →
      (s.tableManager.heap p).connectionStatus ≠ .connected) :
    AllInGame (PlayerStateManager.onGraceTimerExpired s playerId) := by
  intro p hp
  rw [(onGraceTimerExpired_kept s playerId).1] at hp
  rw [onGraceTimerExpired_presence, onGraceTimerExpired_connections]
  by_cases hget : s.tableManager.getPlayer playerId = some p
  · rw [if_pos hget]
    exact fun hconnected => absurd hconnected (haway p hget)
  · rw [if_neg hget]
    refine (h p hp).mono fun w hw hremoves => (mem_startTimer hw).resolve_right fun hremoval => ?_
    obtain rfl := TimerCallback.playerRemoved.inj (hremoval.symm.trans hremoves)
    exact hget (hinv.getPlayer hp)

theorem AllInGame.moves (h : AllInGame s) (hwatched : Watched s)
    (hinv : TableInv Unfolded s.tableManager s.nextRef) {e : Event} (hmove : Moves s e s')
    (hno : ¬RunsLate s e) : AllInGame s' := by
  cases hmove with
  | welcomes => exact h
  | rests hrests => exact h.rests hrests
  | acts _ _ _ _ _ _ hrests => exact h.rests hrests
  | seats _ _ _ hnew hseats => exact h.seats hwatched hnew hseats
  | takes _ habsent =>
    exact h.takes hwatched (getPlayer_mem (absentPlayer_eq_some.mp habsent).2.1).2 _ _
  | ignores => exact h
  | @drops session c playerId =>
    intro p hp
    have hmanager := (removeSession_tableManager s playerId).1
    rw [hmanager] at hp
    rw [hmanager, (removeSession_connections s playerId).1]
    exact h p hp
  | leaves _ hget => exact h.leaves (getPlayer_mem hget).2 _
  | expires i => exact fun p hp => (h p hp).mono fun w hw _ => mem_expire hw
  | waits => exact h
  | @runs i c callback hready =>
    cases callback with
    | playerRemoved playerId => exact h
    | graceTimerExpired playerId =>
      have htaken : AllInGame { s with connections := (s.connections.take i).2 } := h
      exact htaken.expires hinv fun p hget hconnected =>
        hno ⟨i, c, playerId, p, rfl, hready, hget, hconnected⟩

theorem AllInGame.late {e : Event} (hlate : RunsLate s e) : ¬AllInGame (s.step e).1 := by
  obtain ⟨i, c, playerId, p, rfl, hready, hget, hconnected⟩ := hlate
  have hmem := (getPlayer_mem hget).1
  have hstep : (s.step (.timerRuns i c)).1 = PlayerStateManager.onGraceTimerExpired
      { s with connections := (s.connections.take i).2 } playerId := by
    simp only [step, ConnectionManager.take, hready, onTimer]
  intro hafter
  rw [hstep] at hafter
  have hp := hafter p (by rw [(onGraceTimerExpired_kept _ playerId).1]; exact hmem)
  rw [onGraceTimerExpired_presence, if_pos hget] at hp
  cases (hp hconnected).1

/-- Connected players stay in the game exactly when no grace handler runs for
a player who is back. -/
theorem allInGame_iff (config : Config) (es : List Event) :
    (∀ pre, pre <+: es → AllInGame ((machine config).run pre)) ↔
      (machine config).EveryStep (fun s e => ¬RunsLate s e) es := by
  refine (machine config).always_iff (fun p hp => nomatch hp) es fun pre e _ h => ⟨?_, ?_⟩
  · exact fun hafter hlate => AllInGame.late hlate hafter
  · exact h.moves (run_watched config pre) (run_inv config pre) (run_moves config pre e)

/-- Bob is back on another session when the queued handler of his grace timer
runs. -/
def bobBack : List Event := bothJoined ++ [.disconnect 1 (.plain "1"), .timerExpires 0,
  .connect 2 "carol", reclaim 2 "Bob" "bob", .timerRuns 0 (.plain "1")]

theorem allInGame_bobBack : ¬AllInGame ((machine ⟨30000, 60000⟩).run bobBack) := by decide

end GameSession
end HeadsUp.Server
