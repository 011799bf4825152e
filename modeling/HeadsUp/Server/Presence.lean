import HeadsUp.Server.SessionMaps

/-!
# Connected players and their sessions

A seated player is connected exactly while a session is his, as long as no
session that has a seated player takes the place of another.
-/

namespace HeadsUp.Server
open HeadsUp.Core HeadsUp.Common HeadsUp.Lib

namespace GameSession

/-- A seated player is connected exactly while a session can act for him. -/
def Reachable (s : GameSession) : Prop :=
  ∀ p ∈ s.tableManager.players, (s.tableManager.heap p).connectionStatus = .connected ↔
    (s.playerSessions.lookup (s.tableManager.heap p).id).isSome = true

instance (s : GameSession) : Decidable (Reachable s) :=
  inferInstanceAs (Decidable (∀ p ∈ s.tableManager.players, _))

/-- A join message that names an absent player, from a session whose own player
is seated. -/
def TakesFromSeated (s : GameSession) (e : Event) : Prop :=
  ∃ session json c name provided player old, e = .message session (some json) c ∧
    joinOf json = some (name, provided) ∧ s.absentPlayer provided = some player ∧
    s.sessionToPlayer.lookup session = some old ∧ (s.tableManager.getPlayer old).isSome = true

variable {s s' : GameSession} {es : List Event}

theorem reachable_of_presence {p : PlayerRef} {x : Presence}
    (hpresence : presence (s.tableManager.heap p) = x)
    (hx : x.connectionStatus = .connected ↔ (s.playerSessions.lookup x.id).isSome = true) :
    (s.tableManager.heap p).connectionStatus = .connected ↔
      (s.playerSessions.lookup (s.tableManager.heap p).id).isSome = true := by
  subst hpresence
  exact hx

theorem Reachable.keeps (h : Reachable s) {p : PlayerRef} (hp : p ∈ s.tableManager.players)
    (hpresence : presence (s'.tableManager.heap p) = presence (s.tableManager.heap p))
    (hlookup : s'.playerSessions.lookup (s.tableManager.heap p).id
      = s.playerSessions.lookup (s.tableManager.heap p).id) :
    (s'.tableManager.heap p).connectionStatus = .connected ↔
      (s'.playerSessions.lookup (s'.tableManager.heap p).id).isSome = true := by
  apply reachable_of_presence hpresence
  simp only [presence, hlookup]
  exact h p hp

theorem Reachable.rests (h : Reachable s) (hrests : Rests s s') : Reachable s' := by
  intro p hp
  rw [hrests.players] at hp
  exact h.keeps hp (hrests.presence p) (by rw [hrests.sessions.1])

theorem Reachable.no_session (h : Reachable s) {provided : String} {player : PlayerRef}
    (habsent : s.absentPlayer provided = some player) :
    s.playerSessions.lookup provided = none := by
  obtain ⟨-, hget, hstatus⟩ := absentPlayer_eq_some.mp habsent
  obtain ⟨hmem, hid⟩ := getPlayer_mem hget
  cases hl : s.playerSessions.lookup provided with
  | none => rfl
  | some session =>
    rw [← hid] at hl
    exact absurd ((h player hmem).mpr (by rw [hl]; rfl)) hstatus

theorem Reachable.seats (h : Reachable s) {playerId : String} (hseats : Seats s s' playerId)
    (hsome : (s.playerSessions.lookup playerId).isSome = true) : Reachable s' := by
  intro p hp
  by_cases hnew : p = s.nextRef
  · subst hnew
    refine reachable_of_presence hseats.player (iff_of_true rfl ?_)
    rw [hseats.sessions.1]
    exact hsome
  · rw [hseats.players, List.mem_append, List.mem_singleton] at hp
    exact h.keeps (hp.resolve_right hnew) (hseats.others p hnew) (by rw [hseats.sessions.1])

theorem id_ne_of_getPlayer (hinv : TableInv Unfolded s.tableManager s.nextRef) {playerId : String}
    {player p : PlayerRef} (hget : s.tableManager.getPlayer playerId = some player)
    (hp : p ∈ s.tableManager.players) (hne : p ≠ player) :
    (s.tableManager.heap p).id ≠ playerId := by
  intro hsame
  have hother := hinv.getPlayer hp
  rw [hsame, hget] at hother
  exact hne (Option.some.inj hother).symm

/-- The other players keep their sessions if the session had no seated player. -/
theorem Reachable.takes (h : Reachable s) {provided : String} {player : PlayerRef}
    {session : SessionId} (hinv : TableInv Unfolded s.tableManager s.nextRef)
    (hget : s.tableManager.getPlayer provided = some player)
    (hold : ∀ old, s.sessionToPlayer.lookup session = some old →
      s.tableManager.getPlayer old = none) (c : Choices) :
    Reachable (reconnect.reconnected s player provided session c).state := by
  obtain ⟨-, hid⟩ := getPlayer_mem hget
  intro p hp
  rw [(reconnected_kept player provided session c).1] at hp
  have hpresence := reconnected_presence (s := s) player provided session c p
  have hlookup := moveSession_lookup s provided session (s.tableManager.heap p).id
  by_cases hself : p = player
  · subst hself
    rw [if_pos rfl] at hpresence
    rw [if_pos hid] at hlookup
    exact reachable_of_presence hpresence
      (iff_of_true rfl (Option.isSome_iff_exists.mpr ⟨session, hlookup⟩))
  · rw [if_neg hself] at hpresence
    have hkept : s.sessionToPlayer.lookup session ≠ some (s.tableManager.heap p).id := by
      intro hsession
      have hnone := hold _ hsession
      rw [hinv.getPlayer hp] at hnone
      cases hnone
    rw [if_neg (id_ne_of_getPlayer hinv hget hp hself), if_neg hkept] at hlookup
    exact h.keeps hp hpresence hlookup

theorem Reachable.leaves (h : Reachable s) {playerId : String} {player : PlayerRef}
    (hinv : TableInv Unfolded s.tableManager s.nextRef)
    (hget : s.tableManager.getPlayer playerId = some player) (now : ℕ) :
    Reachable (PlayerStateManager.onDisconnect (s.removeSession playerId) player now) := by
  obtain ⟨-, hid⟩ := getPlayer_mem hget
  intro p hp
  rw [(onDisconnect_kept player playerId now).1] at hp
  have hpresence := onDisconnect_presence (s := s) player playerId now p
  have hlookup := removeSession_lookup s playerId (s.tableManager.heap p).id
  by_cases hself : p = player
  · subst hself
    rw [if_pos rfl] at hpresence
    rw [if_pos hid] at hlookup
    refine reachable_of_presence hpresence (iff_of_false (by simp) ?_)
    intro hsome
    obtain ⟨session, hsession⟩ := Option.isSome_iff_exists.mp hsome
    cases hlookup.symm.trans hsession
  · rw [if_neg hself] at hpresence
    rw [if_neg (id_ne_of_getPlayer hinv hget hp hself)] at hlookup
    exact h.keeps hp hpresence hlookup

theorem Reachable.drops (h : Reachable s) {playerId : String}
    (hinv : TableInv Unfolded s.tableManager s.nextRef)
    (hget : s.tableManager.getPlayer playerId = none) : Reachable (s.removeSession playerId) := by
  have hmanager := (removeSession_tableManager s playerId).1
  intro p hp
  rw [hmanager] at hp
  apply h.keeps hp (by rw [hmanager])
  have hne : (s.tableManager.heap p).id ≠ playerId := by
    intro hsame
    have hsome := hinv.getPlayer hp
    rw [hsame, hget] at hsome
    cases hsome
  rw [removeSession_lookup, if_neg hne]

theorem Reachable.runs (h : Reachable s) (c : Choices) (callback : TimerCallback) :
    Reachable (s.onTimer c callback).1 := by
  cases callback with
  | playerRemoved playerId => exact h
  | graceTimerExpired playerId =>
    intro p hp
    rw [onTimer, (onGraceTimerExpired_kept s playerId).1] at hp
    refine reachable_of_presence (onGraceTimerExpired_presence playerId p) ?_
    rw [(onTimer_sessions s c (.graceTimerExpired playerId)).1]
    by_cases hget : s.tableManager.getPlayer playerId = some p
    · rw [if_pos hget]
      exact h p hp
    · rw [if_neg hget]
      exact h p hp

/-! ### Steps -/

theorem Reachable.moves (h : Reachable s) (hpaired : Paired es s)
    (hinv : TableInv Unfolded s.tableManager s.nextRef) {e : Event} (hids : FreshIds (es ++ [e]))
    (hmove : Moves s e s') (hno : ¬TakesFromSeated s e) : Reachable s' := by
  cases hmove with
  | welcomes session playerId =>
    intro p hp
    refine h.keeps hp rfl (AList.lookup_insert_ne ?_)
    intro hsame
    have hgiven := hpaired.ids p hp
    rw [hsame] at hgiven
    exact (freshIds_concat.mp hids).2 playerId rfl hgiven
  | rests hrests => exact h.rests hrests
  | acts _ _ _ _ _ _ hrests => exact h.rests hrests
  | seats _ _ hsession _ hseats =>
    apply h.seats hseats
    rw [(hpaired.inverse _ _).mpr hsession]
    rfl
  | takes hjoin habsent =>
    refine h.takes hinv (absentPlayer_eq_some.mp habsent).2.1 (fun old hold => ?_) _
    cases hget : s.tableManager.getPlayer old with
    | none => rfl
    | some q => exact absurd ⟨_, _, _, _, _, _, old, rfl, hjoin, habsent, hold, by simp [hget]⟩ hno
  | ignores => exact h
  | drops _ hget => exact h.drops hinv hget
  | leaves _ hget => exact h.leaves hinv hget _
  | expires => exact h
  | waits => exact h
  | runs _ =>
    refine Reachable.runs ?_ _ _
    exact h

theorem Reachable.taken (h : Reachable s) (hpaired : Paired es s) {e : Event}
    (hbad : TakesFromSeated s e) : ¬Reachable (s.step e).1 := by
  obtain ⟨session, json, c, name, provided, player, old, rfl, hjoin, habsent, hold, hsome⟩ := hbad
  obtain ⟨q, hq⟩ := Option.isSome_iff_exists.mp hsome
  obtain ⟨hmem, hid⟩ := getPlayer_mem hq
  have hnone := h.no_session habsent
  obtain ⟨-, hget, hstatus⟩ := absentPlayer_eq_some.mp habsent
  have hsession : s.playerSessions.lookup (s.tableManager.heap q).id = some session := by
    rw [hid]
    exact (hpaired.inverse old session).mpr hold
  have hconnected := (h q hmem).mpr (Option.isSome_iff_exists.mpr ⟨session, hsession⟩)
  have hother : q ≠ player := by
    rintro rfl
    exact hstatus hconnected
  have hne : (s.tableManager.heap q).id ≠ provided := by
    intro hsame
    rw [hsame, hnone] at hsession
    cases hsession
  rw [step_reconnect hjoin habsent (by simp [hnone])]
  intro hafter
  have hmem' : q ∈ (reconnect.reconnected s player provided session c).state.tableManager.players := by
    rw [(reconnected_kept player provided session c).1]
    exact hmem
  have hpresence := reconnected_presence (s := s) player provided session c q
  rw [if_neg hother] at hpresence
  have hstatus' := (congrArg Presence.connectionStatus hpresence).trans hconnected
  obtain ⟨other, hlookup⟩ := Option.isSome_iff_exists.mp ((hafter q hmem').mp hstatus')
  have hlost := moveSession_lookup s provided session (s.tableManager.heap q).id
  rw [if_neg hne, if_pos (hid ▸ hold)] at hlost
  rw [reconnected_id] at hlookup
  cases hlost.symm.trans hlookup

/-! ### Runs -/

/-- Every seated player stays reachable exactly when no session that has a
seated player reconnects to another. -/
theorem reachable_iff (config : Config) (es : List Event) (hsessions : FreshSessions es)
    (hids : FreshIds es) :
    (∀ pre, pre <+: es → Reachable ((machine config).run pre)) ↔
      (machine config).EveryStep (fun s e => ¬TakesFromSeated s e) es := by
  refine (machine config).always_iff (fun p hp => nomatch hp) es fun pre e hpre h => ?_
  have hfresh : FreshSessions (pre ++ [e]) ∧ FreshIds (pre ++ [e]) :=
    ⟨hsessions.of_prefix hpre, hids.of_prefix hpre⟩
  have hpaired : Paired pre ((machine config).run pre) :=
    run_paired config (freshSessions_concat.mp hfresh.1).1 (freshIds_concat.mp hfresh.2).1
  constructor
  · exact fun hafter hbad => h.taken hpaired hbad hafter
  · exact h.moves hpaired (run_inv config pre) hfresh.2 (run_moves config pre e)

/-- Bob's session closes and Alice's joins with his id. -/
def aliceLeft : List Event :=
  bothJoined ++ [.disconnect 1 (.plain "1"), reclaim 0 "Alice" "bob"]

theorem reachable_aliceLeft :
    FreshSessions aliceLeft ∧ FreshIds aliceLeft ∧
      ¬Reachable ((machine ⟨30000, 60000⟩).run aliceLeft) ∧
      ((machine ⟨30000, 60000⟩).run aliceLeft).connections.hasActiveTimers "alice" = false :=
  ⟨by decide, by decide, by decide, rfl⟩

theorem reachable_iff_aliceLeft :
    ¬(machine ⟨30000, 60000⟩).EveryStep (fun s e => ¬TakesFromSeated s e) aliceLeft := by
  intro h
  have hsafe := (reachable_iff ⟨30000, 60000⟩ aliceLeft (by decide) (by decide)).mpr h
  exact absurd (hsafe aliceLeft (List.prefix_refl _)) (by decide)

end GameSession
end HeadsUp.Server
