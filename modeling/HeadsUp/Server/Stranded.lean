import HeadsUp.Common.Uuid
import HeadsUp.Server.Absence
import HeadsUp.Server.Answers
import HeadsUp.Server.Presence

/-!
# A hand that cannot end

A session that reconnects to an absent player leaves its own one connected and
without a session: nobody can act for him, and because he is connected nobody can
reconnect to him. A hand with such a player on turn never ends; any other hand
can be ended.
-/

namespace HeadsUp.Server
open HeadsUp.Core HeadsUp.Common HeadsUp.Lib

namespace GameSession
variable {s s' : GameSession} {es : List Event} {p : PlayerRef}

/-- Connected, and no session is his. -/
def Stranded (s : GameSession) (p : PlayerRef) : Prop :=
  (s.tableManager.heap p).connectionStatus = .connected ∧
    s.playerSessions.lookup (s.tableManager.heap p).id = none

instance (s : GameSession) (p : PlayerRef) : Decidable (Stranded s p) :=
  inferInstanceAs (Decidable (_ ∧ _))

/-! ### Stranded for good -/

theorem Stranded.keeps (h : Stranded s p)
    (hpresence : presence (s'.tableManager.heap p) = presence (s.tableManager.heap p))
    (hlookup : s'.playerSessions.lookup (s.tableManager.heap p).id = none) : Stranded s' p := by
  have hid : (s'.tableManager.heap p).id = (s.tableManager.heap p).id :=
    congrArg Presence.id hpresence
  refine ⟨(congrArg Presence.connectionStatus hpresence).trans h.1, ?_⟩
  rw [hid]
  exact hlookup

theorem Stranded.runs (h : Stranded s p) (c : Choices) (callback : TimerCallback) :
    Stranded (s.onTimer c callback).1 p := by
  cases callback with
  | playerRemoved playerId => exact h
  | graceTimerExpired playerId =>
    have hpresence := onGraceTimerExpired_presence (s := s) playerId p
    refine ⟨(congrArg Presence.connectionStatus hpresence).trans ?_, ?_⟩
    · split_ifs <;> exact h.1
    · rw [(onTimer_sessions s c (.graceTimerExpired playerId)).1, onTimer, onGraceTimerExpired_id]
      exact h.2

theorem Stranded.moves (h : Stranded s p) (hp : p ∈ s.tableManager.players)
    (hinv : TableInv Unfolded s.tableManager s.nextRef) (hpaired : Paired es s) {e : Event}
    (hids : FreshIds (es ++ [e])) (hmove : Moves s e s') : Stranded s' p := by
  obtain ⟨hstatus, hnone⟩ := h
  have hstranded : Stranded s p := ⟨hstatus, hnone⟩
  cases hmove with
  | welcomes session playerId =>
    refine hstranded.keeps rfl ((AList.lookup_insert_ne ?_).trans hnone)
    intro hsame
    have hgiven := hpaired.ids p hp
    rw [hsame] at hgiven
    exact (freshIds_concat.mp hids).2 playerId rfl hgiven
  | rests hrests => exact hstranded.keeps (hrests.presence p) (hrests.sessions.1 ▸ hnone)
  | acts _ _ _ _ _ _ hrests => exact hstranded.keeps (hrests.presence p) (hrests.sessions.1 ▸ hnone)
  | seats _ _ _ _ hseats =>
    exact hstranded.keeps (hseats.others p (hinv.fresh p hp).ne) (hseats.sessions.1 ▸ hnone)
  | @takes session json c name provided player hjoin habsent =>
    obtain ⟨-, hget, haway⟩ := absentPlayer_eq_some.mp habsent
    have hother : p ≠ player := by
      rintro rfl
      exact haway hstatus
    have hpresence := reconnected_presence (s := s) player provided session c p
    rw [if_neg hother] at hpresence
    have hlookup := moveSession_lookup s provided session (s.tableManager.heap p).id
    rw [if_neg (id_ne_of_getPlayer hinv hget hp hother), hnone, ite_self] at hlookup
    exact hstranded.keeps hpresence hlookup
  | ignores => exact hstranded
  | @drops session c playerId =>
    have hmanager := (removeSession_tableManager s playerId).1
    refine hstranded.keeps (by rw [hmanager]) ?_
    rw [removeSession_lookup, hnone, ite_self]
  | @leaves session c playerId player hsession hget =>
    have hother : p ≠ player := by
      rintro rfl
      rw [(getPlayer_mem hget).2, (hpaired.inverse _ _).mpr hsession] at hnone
      cases hnone
    have hpresence := onDisconnect_presence (s := s) player playerId c.now p
    rw [if_neg hother] at hpresence
    refine hstranded.keeps hpresence ?_
    have hlookup := removeSession_lookup s playerId (s.tableManager.heap p).id
    rw [hnone, ite_self] at hlookup
    exact hlookup
  | expires => exact hstranded
  | waits => exact hstranded
  | runs =>
    refine Stranded.runs ?_ _ _
    exact hstranded

/-- Nobody acts in a hand that waits for him. -/
theorem Stranded.no_action (h : Stranded s p) (hpaired : Paired es s) {hand : Hand}
    (hhand : s.hand = some hand) (hturn : hand.currentPlayerToAct = some p) (session : SessionId)
    (json : Json) (c : Choices) (action : String) (amount : ℤ) (player : PlayerRef)
    (hand' : Hand) : ¬Acts s session json c action amount player hand' := by
  intro hacts
  obtain ⟨-, hcurrent, ⟨playerId, hsession, hget⟩, hvalid⟩ := hacts
  obtain rfl := Option.some.inj (hhand.symm.trans hcurrent)
  have hplayer := (PlayerAction.validateAction_iff.mp hvalid).2.1
  obtain rfl := Option.some.inj (hturn.symm.trans hplayer)
  have hnone := h.2
  rw [(getPlayer_mem hget).2, (hpaired.inverse _ _).mpr hsession] at hnone
  cases hnone

theorem stranded_forever (config : Config) {later : List Event}
    (hsessions : FreshSessions (es ++ later)) (hids : FreshIds (es ++ later)) {hand : Hand}
    (hhand : ((machine config).run es).hand = some hand)
    (hturn : hand.currentPlayerToAct = some p) (hstranded : Stranded ((machine config).run es) p) :
    ((machine config).run (es ++ later)).hand = some hand ∧
      Stranded ((machine config).run (es ++ later)) p := by
  induction later using List.reverseRecOn with
  | nil => rw [List.append_nil]; exact ⟨hhand, hstranded⟩
  | append_singleton later e ih =>
    rw [← List.append_assoc] at hsessions hids ⊢
    have hpre : es ++ later <+: es ++ later ++ [e] := List.prefix_append _ _
    obtain ⟨hhand', hstranded'⟩ := ih (hsessions.of_prefix hpre) (hids.of_prefix hpre)
    have hpaired := run_paired config (hsessions.of_prefix hpre) (hids.of_prefix hpre)
    have hinv := run_inv config (es ++ later)
    have hmove := run_moves config (es ++ later) e
    obtain ⟨hplay, -⟩ := hinv.playing hand hhand'
    obtain ⟨q, hq, hturn'⟩ := hplay.turn
    obtain rfl := Option.some.inj (hturn.symm.trans hturn')
    rw [Machine.run_concat]
    refine ⟨(hmove.keeps hinv hhand' ?_).1, hstranded'.moves (hplay.mem p hq) hinv hpaired hids hmove⟩
    intro session json c action amount player hand' _
    exact hstranded'.no_action hpaired hhand' hturn session json c action amount player hand'

/-! ### Everybody else can be made to fold -/

theorem exists_fresh_session (es : List Event) : ∃ session, ∀ e ∈ es, e.session ≠ some session := by
  refine ⟨(es.filterMap Event.session).sum + 1, fun e he heq => ?_⟩
  have hmem : (es.filterMap Event.session).sum + 1 ∈ es.filterMap Event.session :=
    List.mem_filterMap.mpr ⟨e, he, heq⟩
  have hle := List.single_le_sum (fun x _ => Nat.zero_le x) _ hmem
  omega

theorem exists_fresh_id (ids : List String) : ∃ playerId, playerId ∉ ids := by
  refine ⟨String.ofList (List.replicate ((ids.map String.length).sum + 1) 'x'), fun hmem => ?_⟩
  have hle := List.single_le_sum (fun x _ => Nat.zero_le x) _
    (List.mem_map_of_mem (f := String.length) hmem)
  rw [String.length_ofList, List.length_replicate] at hle
  omega

theorem joinOf_reclaim {playerId : String} :
    joinOf (.typed "join" (.object [("name", .string "back"), ("player_id", .string playerId)]))
      = some ("back", playerId) := by
  have hpayload : payloadOf (.typed "join" (.object [("name", .string "back"),
      ("player_id", .string playerId)])) "join"
        = some (.object [("name", .string "back"), ("player_id", .string playerId)]) := rfl
  refine joinOf_eq_some.mpr ⟨_, hpayload, ?_⟩
  simp [joinFields, readString, Json.contains, Json.get, Json.getString, Except.bind,
    Except.mapError, bind, pure, Except.pure, List.lookup_cons]

theorem actionOf_fold (handId : String) (c : Choices) :
    actionOf (Client.Message.action handId "fold" 0).toJson c = some (handId, "fold", 0) := by
  have hpayload : payloadOf (Client.Message.action handId "fold" 0).toJson "action"
      = some (Client.Message.action handId "fold" 0).payload := rfl
  have hamount : (Json.ofInt 0).getInt c.undefInt = .ok 0 := rfl
  refine actionOf_eq_some.mpr ⟨_, hpayload, ?_⟩
  simp [actionFields, readString, readInt, Client.Message.payload, Json.contains, Json.get,
    Json.getString, hamount, Except.bind, Except.mapError, bind, pure, Except.pure,
    List.lookup_cons, startingStack]

theorem step_disconnect {session : SessionId} {playerId : String}
    (hsession : s.sessionToPlayer.lookup session = some playerId)
    (hget : s.tableManager.getPlayer playerId = some p) (c : Choices) :
    (s.step (.disconnect session c)).1
      = PlayerStateManager.onDisconnect (s.removeSession playerId) p c.now := by
  simp only [step, onDisconnect, hsession, (removeSession_tableManager s playerId).1, hget]

/-- The player on turn folds from the session that is his. -/
theorem step_folds (h : TableInv Unfolded s.tableManager s.nextRef) {hand : Hand}
    (hhand : s.hand = some hand) (hturn : hand.currentPlayerToAct = some p)
    (hstatus : (s.tableManager.heap p).connectionStatus = .connected)
    (hsits : (s.tableManager.heap p).isSittingOut = false) {session : SessionId}
    (hsession : s.sessionToPlayer.lookup session = some (s.tableManager.heap p).id) :
    (s.step (sent session (.action hand.id "fold" 0))).1.hand = none := by
  obtain ⟨hplay, hun⟩ := h.playing hand hhand
  obtain ⟨q, hq, hturn'⟩ := hplay.turn
  obtain rfl := Option.some.inj (hturn.symm.trans hturn')
  have hmem := hplay.mem p hq
  obtain ⟨i, hi⟩ : ∃ i, hand.players.idxOf? p = some i := by
    rw [← Option.isSome_iff_exists, List.isSome_idxOf?]
    exact hq
  have hcan : PlayerAction.canAct s.tableManager.heap hand p = true := by
    refine PlayerAction.canAct_iff.mpr ⟨?_, i, hi, hun i⟩
    simp [Player.canAct, hstatus, hsits]
  have hvalid : PlayerAction.validateAction s.tableManager.heap hand p "fold" 0 = true :=
    PlayerAction.validateAction_iff.mpr ⟨hcan, hturn, h.solvent p hmem, .inl ⟨rfl, rfl⟩⟩
  obtain ⟨heap, after, happly, -, hafter⟩ := step_act h hhand (actionOf_fold hand.id (.plain "1"))
    hsession (h.getPlayer hmem) hvalid
  rw [if_pos ((applied_ends hplay happly hun).mpr rfl)] at hafter
  exact hafter

/-- A player who is away comes back on a new session and folds. -/
theorem ends_of_away (config : Config) (hsessions : FreshSessions es) (hids : FreshIds es)
    {hand : Hand} (hhand : ((machine config).run es).hand = some hand)
    (hturn : hand.currentPlayerToAct = some p)
    (hid : (((machine config).run es).tableManager.heap p).id ≠ "")
    (haway : (((machine config).run es).tableManager.heap p).connectionStatus ≠ .connected)
    (hnone : ((machine config).run es).playerSessions.lookup
      (((machine config).run es).tableManager.heap p).id = none) :
    ∃ later, FreshSessions (es ++ later) ∧ FreshIds (es ++ later) ∧
      ((machine config).run (es ++ later)).hand = none := by
  obtain ⟨session, hfresh⟩ := exists_fresh_session es
  obtain ⟨newId, hnew⟩ := exists_fresh_id (welcomedIds es)
  set s := (machine config).run es with hs
  have hinv : TableInv Unfolded s.tableManager s.nextRef := run_inv config es
  have hpaired : Paired es s := run_paired config hsessions hids
  obtain ⟨hplay, -⟩ := hinv.playing hand hhand
  obtain ⟨q, hq, hturn'⟩ := hplay.turn
  obtain rfl := Option.some.inj (hturn.symm.trans hturn')
  have hmem := hplay.mem p hq
  set playerId := (s.tableManager.heap p).id
  have hne : playerId ≠ newId := fun heq => hnew (heq ▸ hpaired.ids p hmem)
  -- the new session is welcomed and claims the player
  let welcome : Event := .connect session newId
  let back : Event := .message session (some (.typed "join" (.object [("name", .string "back"),
    ("player_id", .string playerId)]))) (.plain "1")
  let folds : Event := sent session (.action hand.id "fold" 0)
  have hwelcomed : (machine config).run (es ++ [welcome]) = s.registerSession newId session := by
    rw [Machine.run_concat, ← hs]
    rfl
  have habsent : (s.registerSession newId session).absentPlayer playerId = some p :=
    absentPlayer_eq_some.mpr ⟨hid, hinv.getPlayer hmem, haway⟩
  have hfree : (s.registerSession newId session).playerSessions.lookup playerId = none :=
    (AList.lookup_insert_ne hne).trans hnone
  have hback : (machine config).run (es ++ [welcome] ++ [back])
      = (reconnect.reconnected (s.registerSession newId session) p playerId session
          (.plain "1")).state := by
    rw [Machine.run_concat, hwelcomed]
    exact step_reconnect joinOf_reclaim habsent (by simp [hfree]) (.plain "1")
  set s₂ := (machine config).run (es ++ [welcome] ++ [back])
  have hpresence : presence (s₂.tableManager.heap p) = ⟨playerId, .connected, none, false⟩ := by
    rw [hback, reconnected_presence, if_pos rfl]
    rfl
  have hhand₂ : s₂.hand = some hand := by
    rw [hback, GameSession.hand, (reconnected_kept _ _ _ _).2]
    exact hhand
  have hsession₂ : s₂.sessionToPlayer.lookup session = some (s₂.tableManager.heap p).id := by
    rw [show (s₂.tableManager.heap p).id = playerId from congrArg Presence.id hpresence, hback]
    exact AList.lookup_insert _
  have hfolds : ((machine config).run (es ++ [welcome] ++ [back] ++ [folds])).hand = none := by
    rw [Machine.run_concat]
    exact step_folds (run_inv config (es ++ [welcome] ++ [back])) hhand₂ hturn
      (congrArg Presence.connectionStatus hpresence) (congrArg Presence.isSittingOut hpresence)
      hsession₂
  refine ⟨[welcome, back, folds], ?_, ?_, by simpa using hfolds⟩
  · rw [show es ++ [welcome, back, folds] = es ++ [welcome] ++ [back] ++ [folds] by simp]
    refine freshSessions_concat.mpr ⟨freshSessions_concat.mpr ⟨freshSessions_concat.mpr
      ⟨hsessions, fun e he _ => hfresh e he⟩, ?_⟩, ?_⟩
    · intro e _ hwelcome
      cases hwelcome
    · intro e _ hwelcome
      cases hwelcome
  · rw [show es ++ [welcome, back, folds] = es ++ [welcome] ++ [back] ++ [folds] by simp]
    refine freshIds_concat.mpr ⟨freshIds_concat.mpr ⟨freshIds_concat.mpr ⟨hids, ?_⟩, ?_⟩, ?_⟩
    · intro id hmem'
      obtain rfl := Option.some.inj hmem'
      exact hnew
    · intro id hmem'
      cases hmem'
    · intro id hmem'
      cases hmem'

/-- The ids `generate` draws are never empty, and fresh unless their printed bits
repeat. -/
theorem drawn_ids {draws : List Draws} (hdrawn : welcomedIds es = draws.map Uuid.generate) :
    "" ∉ welcomedIds es ∧ (FreshIds es ↔ (draws.map Uuid.fields).Nodup) := by
  constructor
  · rw [hdrawn]
    intro hmem
    obtain ⟨x, -, hempty⟩ := List.mem_map.mp hmem
    have hprint := congrArg String.toList hempty
    rw [Uuid.generate_toList] at hprint
    simp [Uuid.print] at hprint
  · simp only [FreshIds, hdrawn, List.Nodup, List.pairwise_map, ne_eq, Uuid.generate_eq_iff]

/-- A hand in progress can still be ended, by some events to come, exactly when
the player on turn is not stranded; otherwise it stays as it is whatever comes. -/
theorem hand_endable_iff (config : Config) (hsessions : FreshSessions es) (hids : FreshIds es)
    (hnonempty : "" ∉ welcomedIds es) {hand : Hand}
    (hhand : ((machine config).run es).hand = some hand)
    (hturn : hand.currentPlayerToAct = some p) :
    ((∃ later, FreshSessions (es ++ later) ∧ FreshIds (es ++ later) ∧
        ((machine config).run (es ++ later)).hand = none) ↔
          ¬Stranded ((machine config).run es) p) ∧
      (Stranded ((machine config).run es) p → ∀ later, FreshSessions (es ++ later) →
        FreshIds (es ++ later) → ((machine config).run (es ++ later)).hand = some hand) := by
  have hstays : Stranded ((machine config).run es) p → ∀ later, FreshSessions (es ++ later) →
      FreshIds (es ++ later) → ((machine config).run (es ++ later)).hand = some hand :=
    fun hstranded later hsessions' hids' =>
      (stranded_forever config hsessions' hids' hhand hturn hstranded).1
  refine ⟨⟨?_, ?_⟩, hstays⟩
  · intro hh hstranded
    obtain ⟨later, hsessions', hids', hended⟩ := hh
    cases hended.symm.trans (hstays hstranded later hsessions' hids')
  · intro hnot
    have hinv := run_inv config es
    have hpaired := run_paired config hsessions hids
    obtain ⟨hplay, -⟩ := hinv.playing hand hhand
    obtain ⟨q, hq, hturn'⟩ := hplay.turn
    obtain rfl := Option.some.inj (hturn.symm.trans hturn')
    have hmem := hplay.mem p hq
    have hid : (((machine config).run es).tableManager.heap p).id ≠ "" :=
      fun hempty => hnonempty (hempty ▸ hpaired.ids p hmem)
    cases hl : ((machine config).run es).playerSessions.lookup
        (((machine config).run es).tableManager.heap p).id with
    | none => exact ends_of_away config hsessions hids hhand hturn hid (fun hh => hnot ⟨hh, hl⟩) hl
    | some session =>
      -- he leaves his session first
      let leaves : Event := .disconnect session (.plain "1")
      have hsession := (hpaired.inverse _ _).mp hl
      have hleft : (machine config).run (es ++ [leaves])
          = PlayerStateManager.onDisconnect (((machine config).run es).removeSession
              (((machine config).run es).tableManager.heap p).id) p 0 := by
        rw [Machine.run_concat]
        exact step_disconnect hsession (hinv.getPlayer hmem) (.plain "1")
      have hpresence := onDisconnect_presence (s := (machine config).run es) p
        (((machine config).run es).tableManager.heap p).id 0 p
      rw [if_pos rfl, ← hleft] at hpresence
      have hid' : (((machine config).run (es ++ [leaves])).tableManager.heap p).id
          = (((machine config).run es).tableManager.heap p).id := congrArg Presence.id hpresence
      have hstatus : (((machine config).run (es ++ [leaves])).tableManager.heap p).connectionStatus
          = .disconnected := congrArg Presence.connectionStatus hpresence
      have hhand' : ((machine config).run (es ++ [leaves])).hand = some hand := by
        rw [hleft, GameSession.hand, (onDisconnect_kept _ _ _).2]
        exact hhand
      have hgone : ((machine config).run (es ++ [leaves])).playerSessions.lookup
          (((machine config).run (es ++ [leaves])).tableManager.heap p).id = none := by
        rw [hid', hleft]
        exact (removeSession_lookup _ _ _).trans (if_pos rfl)
      have hsessions' : FreshSessions (es ++ [leaves]) :=
        freshSessions_concat.mpr ⟨hsessions, fun e _ hh => by cases hh⟩
      have hids' : FreshIds (es ++ [leaves]) :=
        freshIds_concat.mpr ⟨hids, fun id hh => by cases hh⟩
      obtain ⟨later, hsessions'', hids'', hended⟩ := ends_of_away config hsessions' hids' hhand'
        hturn (by rwa [hid']) (by rw [hstatus]; decide) hgone
      exact ⟨leaves :: later, by simpa using hsessions'', by simpa using hids'',
        by simpa using hended⟩

def joinedHand : Hand := ((machine ⟨30000, 60000⟩).run bothJoined).hand.get (by decide +kernel)

theorem hand_endable_iff_bothJoined :
    ((∃ later, FreshSessions (bothJoined ++ later) ∧ FreshIds (bothJoined ++ later) ∧
        ((machine ⟨30000, 60000⟩).run (bothJoined ++ later)).hand = none) ↔
          ¬Stranded ((machine ⟨30000, 60000⟩).run bothJoined) 1) ∧
      (Stranded ((machine ⟨30000, 60000⟩).run bothJoined) 1 → ∀ later,
        FreshSessions (bothJoined ++ later) → FreshIds (bothJoined ++ later) →
          ((machine ⟨30000, 60000⟩).run (bothJoined ++ later)).hand = some joinedHand) :=
  hand_endable_iff ⟨30000, 60000⟩ (by decide) (by decide) (by decide) (Option.some_get _).symm
    (by decide +kernel : joinedHand.currentPlayerToAct = some 1)

end GameSession
end HeadsUp.Server
