import HeadsUp.Server.Betting
import HeadsUp.Server.Timers

/-!
# The hand and the seat of an absent player

The handler of the grace timer sets a flag of the player and leaves the hand to
itself, the handler of the removal timer announces a removal that nobody makes.
-/

namespace HeadsUp.Server
open HeadsUp.Core HeadsUp.Common HeadsUp.Lib

/-! ### The turn after an action -/

section Applied
variable {players : List PlayerRef} {heap heap' : Heap} {hand hand' : Hand} {player : PlayerRef}
  {action : String} {amount : ℤ} {now : ℕ} (hplay : Playing players hand)
  (happly : PlayerAction.applyAction heap hand player action amount now = (true, heap', hand'))
include hplay happly

theorem applied_turn (other : PlayerRef) :
    hand'.currentPlayerToAct = some other ↔ other ∈ hand.players ∧ other ≠ player := by
  obtain ⟨-, hturn, hact⟩ := PlayerAction.applyAction_cases happly
  obtain ⟨p, q, hpq, hne, -, -⟩ := hplay.two
  obtain ⟨t, ht, hturn'⟩ := hplay.turn
  obtain rfl : t = player := Option.some.inj (hturn'.symm.trans hturn)
  have hnext : hand'.currentPlayerToAct = if t = p then some q else some p := by
    rcases hact with ⟨-, -, -, rfl⟩ | ⟨-, -, -, -, rfl⟩ <;>
      simp only [recordAction, PlayerAction.foldSeat, PlayerAction.placeBet, PlayerAction.betSeat,
        hpq, hturn, List.length_cons, List.length_nil, List.getElem?_cons_zero,
        List.getElem?_cons_succ, Option.some.injEq, if_true]
  rw [hpq, List.mem_pair] at ht
  rw [hnext, hpq, List.mem_pair]
  rcases ht with rfl | rfl
  · rw [if_pos rfl, Option.some.injEq]
    grind
  · rw [if_neg hne.symm, Option.some.injEq]
    grind

theorem applied_ends (hun : Unfolded hand) :
    (activePlayers hand').length ≤ 1 ↔ action = "fold" := by
  obtain ⟨-, hturn, hact⟩ := PlayerAction.applyAction_cases happly
  rcases hact with ⟨rfl, -, -, hfolded⟩ | ⟨haction, hge, -, -, hbet⟩
  · refine iff_of_true ?_ rfl
    by_contra hmany
    obtain ⟨hplay', hcon⟩ := hplay.fold hun hturn "fold" amount now
    rw [← hfolded] at hplay' hcon
    obtain ⟨p, q, hpq, -⟩ := hplay'.two
    obtain ⟨t, ht, hturn'⟩ := hplay.turn
    obtain rfl : t = player := Option.some.inj (hturn'.symm.trans hturn)
    have hplayers := (TableManager.applyAction_hand happly).1
    have hin : t ∈ activePlayers hand' := by
      rw [(hcon.unfolded hmany).activePlayers hpq, ← hpq, hplayers]
      exact ht
    exact ((applied_active happly hplay.nodup t).mp hin).2 ⟨rfl, rfl⟩
  · have hfold : action ≠ "fold" := by
      rcases haction with rfl | ⟨rfl, -⟩ <;> decide
    refine iff_of_false ?_ hfold
    obtain ⟨hplay', hun'⟩ := hplay.bet hun hge heap player action now
    rw [← hbet] at hplay' hun'
    obtain ⟨p, q, hpq, -⟩ := hplay'.two
    simp [hun'.activePlayers hpq]

end Applied

namespace GameSession

variable {s s' : GameSession}

/-! ### The table stays -/

theorem onTimer_table (c : Choices) (callback : TimerCallback) :
    (s.onTimer c callback).1.tableManager.table = s.tableManager.table := by
  cases callback with
  | playerRemoved playerId => rfl
  | graceTimerExpired playerId => exact (onGraceTimerExpired_kept s playerId).2

/-- It stays unless an action is accepted or a new player takes a seat. -/
theorem Moves.table {e : Event} (hmove : Moves s e s') :
    s'.tableManager.table = s.tableManager.table ∨
    (∃ hand, s.hand = some hand ∧ Rests s s') ∨
    ∃ session json c name provided playerId, e = .message session (some json) c ∧
      joinOf json = some (name, provided) ∧ s.absentPlayer provided = none ∧
      s.sessionToPlayer.lookup session = some playerId ∧
      s.tableManager.getPlayer playerId = none ∧ Seats s s' playerId := by
  cases hmove with
  | welcomes => exact .inl rfl
  | rests _ htable => exact .inl htable
  | acts _ _ hhand _ _ _ hrests => exact .inr (.inl ⟨_, hhand, hrests⟩)
  | seats hjoin habsent hsession hnew hseats =>
    exact .inr (.inr ⟨_, _, _, _, _, _, rfl, hjoin, habsent, hsession, hnew, hseats⟩)
  | takes => exact .inl (reconnected_kept _ _ _ _).2
  | ignores => exact .inl rfl
  | drops => exact .inl (congrArg TableManager.table (removeSession_tableManager s _).1)
  | leaves => exact .inl (onDisconnect_kept _ _ _).2
  | expires => exact .inl rfl
  | waits => exact .inl rfl
  | runs => exact .inl (onTimer_table _ _)

/-- The players and their ids stay unless a new player takes a seat. -/
theorem Moves.ids {e : Event} (hmove : Moves s e s') :
    (s'.tableManager.players = s.tableManager.players ∧
      ∀ p, (s'.tableManager.heap p).id = (s.tableManager.heap p).id) ∨
    ∃ session json c name provided playerId, e = .message session (some json) c ∧
      joinOf json = some (name, provided) ∧ s.sessionToPlayer.lookup session = some playerId ∧
      Seats s s' playerId := by
  cases hmove with
  | welcomes => exact .inl ⟨rfl, fun _ => rfl⟩
  | rests hrests => exact .inl ⟨hrests.players, fun p => congrArg Presence.id (hrests.presence p)⟩
  | acts _ _ _ _ _ _ hrests =>
    exact .inl ⟨hrests.players, fun p => congrArg Presence.id (hrests.presence p)⟩
  | seats hjoin _ hsession _ hseats => exact .inr ⟨_, _, _, _, _, _, rfl, hjoin, hsession, hseats⟩
  | takes => exact .inl ⟨(reconnected_kept _ _ _ _).1, reconnected_id _ _ _ _⟩
  | ignores => exact .inl ⟨rfl, fun _ => rfl⟩
  | @drops _ _ playerId =>
    rw [(removeSession_tableManager s playerId).1]
    exact .inl ⟨rfl, fun _ => rfl⟩
  | leaves => exact .inl ⟨(onDisconnect_kept _ _ _).1, onDisconnect_id _ _ _⟩
  | expires => exact .inl ⟨rfl, fun _ => rfl⟩
  | waits => exact .inl ⟨rfl, fun _ => rfl⟩
  | @runs i c callback =>
    cases callback with
    | playerRemoved playerId => exact .inl ⟨rfl, fun _ => rfl⟩
    | graceTimerExpired playerId =>
      exact .inl ⟨(onGraceTimerExpired_kept _ _).1, onGraceTimerExpired_id playerId⟩

/-! ### The first hand -/

/-- Seat 1 is filled first, and the dealer button has not moved before both are. -/
structure SeatOrder (table : Table) : Prop where
  first : table.seat1 = none → table.seat2 = none
  dealer : table.seat2 = none → table.dealerButtonPosition = 0

theorem SeatOrder.first_isSome {table : Table} (h : SeatOrder table)
    (hfull : table.seat2.isSome = true) : table.seat1.isSome = true := by
  cases hone : table.seat1 with
  | none =>
    rw [h.first hone] at hfull
    cases hfull
  | some p => rfl

theorem SeatOrder.moves (h : SeatOrder s.tableManager.table)
    (hinv : TableInv Unfolded s.tableManager s.nextRef) {e : Event} (hmove : Moves s e s') :
    SeatOrder s'.tableManager.table := by
  rcases hmove.table with htable | ⟨hand, hhand, hrests⟩ | ⟨_, _, _, _, _, _, -, -, -, -, -, hseats⟩
  · exact htable ▸ h
  · -- both seats are taken during a hand
    obtain ⟨hone, htwo⟩ := hinv.both (Option.isSome_iff_exists.mpr ⟨hand, hhand⟩)
    refine ⟨fun hno => ?_, fun hno => ?_⟩
    · rw [← hrests.seats.1, hno] at hone
      cases hone
    · rw [← hrests.seats.2, hno] at htwo
      cases htwo
  · rcases hseats.seats with ⟨-, hone, htwo⟩ | ⟨hone, -, hone', htwo⟩
    · refine ⟨fun hno => ?_, fun hno => ?_⟩
      · rw [hone] at hno
        cases hno
      · rw [hseats.dealer]
        exact h.dealer (htwo ▸ hno)
    · refine ⟨fun hno => absurd (hone' ▸ hno) hone, fun hno => ?_⟩
      rw [htwo] at hno
      cases hno

theorem run_seatOrder (config : Config) (es : List Event) :
    SeatOrder ((machine config).run es).tableManager.table := by
  induction es using List.reverseRecOn with
  | nil => exact ⟨fun _ => rfl, fun _ => rfl⟩
  | append_singleton es e ih =>
    rw [Machine.run_concat]
    exact ih.moves (run_inv config es) (run_moves config es e)

theorem Seats.turn {playerId : String} (hseats : Seats s s' playerId)
    (horder : SeatOrder s.tableManager.table) {hand : Hand} (hhand : s'.hand = some hand) :
    hand.currentPlayerToAct = some s.nextRef := by
  obtain ⟨hsome, hturn⟩ := hseats.hand hand hhand
  rcases hseats.seats with ⟨hnone, -, htwo⟩ | ⟨-, hnone, -, htwo⟩
  · rw [htwo, horder.first hnone] at hsome
    cases hsome
  · rw [hturn, if_pos (horder.dealer hnone), htwo]

/-! ### Folding an absent player -/

/-- After the grace handler of a hand player who is still away he has folded. -/
def FoldsAbsent (s : GameSession) (e : Event) : Prop :=
  ∀ i c playerId p hand, e = .timerRuns i c →
    s.connections.ready[i]? = some (.graceTimerExpired playerId) →
    s.tableManager.getPlayer playerId = some p →
    (s.tableManager.heap p).connectionStatus = .disconnected →
    s.hand = some hand → p ∈ hand.players →
    ∀ hand', (s.step e).1.hand = some hand' →
      p ∉ activePlayers hand' ∧ isHandComplete hand' = true

def TurnInGame (s : GameSession) : Prop :=
  ∀ hand p, s.hand = some hand → hand.currentPlayerToAct = some p →
    (s.tableManager.heap p).isSittingOut = false

/-- A grace handler runs for a hand player who is away or on turn. -/
def GraceRunsInHand (s : GameSession) (e : Event) : Prop :=
  ∃ i c playerId p hand, e = .timerRuns i c ∧
    s.connections.ready[i]? = some (.graceTimerExpired playerId) ∧
    s.tableManager.getPlayer playerId = some p ∧ s.hand = some hand ∧ p ∈ hand.players ∧
    ((s.tableManager.heap p).connectionStatus = .disconnected ∨ hand.currentPlayerToAct = some p)

/-- A valid call or raise passes the turn to a player who sits out. -/
def PassesToAbsent (s : GameSession) (e : Event) : Prop :=
  ∃ session json c playerId player hand action amount other, e = .message session (some json) c ∧
    s.hand = some hand ∧ actionOf json c = some (hand.id, action, amount) ∧
    s.sessionToPlayer.lookup session = some playerId ∧
    s.tableManager.getPlayer playerId = some player ∧
    PlayerAction.validateAction s.tableManager.heap hand player action amount = true ∧
    action ≠ "fold" ∧ other ∈ hand.players ∧ other ≠ player ∧
    (s.tableManager.heap other).isSittingOut = true

theorem TurnInGame.congr (h : TurnInGame s)
    (htable : s'.tableManager.table = s.tableManager.table)
    (hkept : ∀ p, (s.tableManager.heap p).isSittingOut = false →
      (s'.tableManager.heap p).isSittingOut = false) : TurnInGame s' := by
  intro hand p hhand hturn
  refine hkept p (h hand p ?_ hturn)
  rw [GameSession.hand, ← htable]
  exact hhand

theorem isSittingOut_congr {x y : Player} (h : presence x = presence y) :
    x.isSittingOut = y.isSittingOut := congrArg Presence.isSittingOut h

theorem step_timerRuns {i : ℕ} {callback : TimerCallback}
    (hready : s.connections.ready[i]? = some callback) (c : Choices) :
    s.step (.timerRuns i c)
      = { s with connections := (s.connections.take i).2 }.onTimer c callback := by
  simp only [step, ConnectionManager.take, hready]

theorem graceRuns {i : ℕ} {playerId : String}
    (hready : s.connections.ready[i]? = some (.graceTimerExpired playerId)) (c : Choices) :
    let s' := (s.step (.timerRuns i c)).1
    s'.hand = s.hand ∧ ∀ p, s.tableManager.getPlayer playerId = some p →
      (s'.tableManager.heap p).isSittingOut = true := by
  intro s'
  have hs' : s' = _ := congrArg Prod.fst (step_timerRuns hready c)
  rw [hs']
  refine ⟨congrArg Table.currentHand (onTimer_table c _), fun p hget => ?_⟩
  have hpresence := onGraceTimerExpired_presence
    (s := { s with connections := (s.connections.take i).2 }) playerId p
  rw [if_pos hget] at hpresence
  exact congrArg Presence.isSittingOut hpresence

theorem absence_of_graceRunsInHand (hinv : TableInv Unfolded s.tableManager s.nextRef) {e : Event}
    (hbad : GraceRunsInHand s e) : ¬(FoldsAbsent s e ∧ TurnInGame (s.step e).1) := by
  obtain ⟨i, c, playerId, p, hand, rfl, hready, hget, hhand, hmem, haway⟩ := hbad
  obtain ⟨hkept, hsits⟩ := graceRuns hready c
  have hafter : (s.step (.timerRuns i c)).1.hand = some hand := hkept.trans hhand
  intro hh
  obtain ⟨hfolds, hturn⟩ := hh
  rcases haway with haway | honturn
  · obtain ⟨hplay, hun⟩ := hinv.playing hand hhand
    obtain ⟨a, b, hab, -⟩ := hplay.two
    have hno := (hfolds i c playerId p hand rfl hready hget haway hhand hmem hand hafter).1
    rw [hun.activePlayers hab, ← hab] at hno
    exact hno hmem
  · have hin := hturn hand p hafter honturn
    rw [hsits p hget] at hin
    cases hin

theorem absence_of_passesToAbsent (hinv : TableInv Unfolded s.tableManager s.nextRef) {e : Event}
    (hbad : PassesToAbsent s e) : ¬TurnInGame (s.step e).1 := by
  obtain ⟨session, json, c, playerId, player, hand, action, amount, other, rfl, hhand, haction,
    hsession, hget, hvalid, hfold, hmem, hne, hsits⟩ := hbad
  obtain ⟨heap, after, happly, hrests, hafter⟩ :=
    step_act hinv hhand haction hsession hget hvalid
  obtain ⟨hplay, hun⟩ := hinv.playing hand hhand
  rw [if_neg (mt (applied_ends hplay happly hun).mp hfold)] at hafter
  intro hturn
  have hin := hturn after other hafter ((applied_turn hplay happly other).mpr ⟨hmem, hne⟩)
  rw [isSittingOut_congr (hrests.presence other), hsits] at hin
  cases hin

/-- After an action that does not fold the player on turn is the other one. -/
theorem TurnInGame.acts (hinv : TableInv Unfolded s.tableManager s.nextRef) {session : SessionId}
    {json : Json} {c : Choices} {action playerId : String} {amount : ℤ} {hand after : Hand}
    {player : PlayerRef} {heap : Heap} (haction : actionOf json c = some (hand.id, action, amount))
    (hsession : s.sessionToPlayer.lookup session = some playerId) (hhand : s.hand = some hand)
    (hget : s.tableManager.getPlayer playerId = some player)
    (happly : PlayerAction.applyAction s.tableManager.heap hand player action amount c.now
      = (true, heap, after)) (hrests : Rests s s')
    (hafter : s'.hand = if (activePlayers after).length ≤ 1 then none else some after)
    (hpass : ¬PassesToAbsent s (.message session (some json) c)) : TurnInGame s' := by
  intro hand' other hhand' hturn
  obtain ⟨hplay, hun⟩ := hinv.playing hand hhand
  by_cases hfold : action = "fold"
  · rw [hhand', if_pos ((applied_ends hplay happly hun).mpr hfold)] at hafter
    cases hafter
  rw [hhand', if_neg (mt (applied_ends hplay happly hun).mp hfold)] at hafter
  obtain rfl := Option.some.inj hafter
  obtain ⟨hmem, hne⟩ := (applied_turn hplay happly other).mp hturn
  rw [isSittingOut_congr (hrests.presence other), ← Bool.not_eq_true]
  intro hsits
  exact hpass ⟨session, json, c, playerId, player, hand, action, amount, other, rfl, hhand, haction,
    hsession, hget, PlayerAction.valid_of_applyAction happly, hfold, hmem, hne, hsits⟩

/-- The grace handler of a player who is not on turn. -/
theorem TurnInGame.graceRuns (h : TurnInGame s)
    (hinv : TableInv Unfolded s.tableManager s.nextRef) {i : ℕ} {c : Choices} {playerId : String}
    (hready : s.connections.ready[i]? = some (.graceTimerExpired playerId))
    (hgrace : ¬GraceRunsInHand s (.timerRuns i c)) :
    TurnInGame (({ s with connections := (s.connections.take i).2 } : GameSession).onTimer c
      (.graceTimerExpired playerId)).1 := by
  intro hand p hhand hturn
  have htable := onTimer_table (s := { s with connections := (s.connections.take i).2 }) c
    (.graceTimerExpired playerId)
  have hbefore : s.hand = some hand := (congrArg Table.currentHand htable).symm.trans hhand
  have hpresence := onGraceTimerExpired_presence
    (s := { s with connections := (s.connections.take i).2 }) playerId p
  have hother : s.tableManager.getPlayer playerId ≠ some p := by
    intro hget
    obtain ⟨hplay, -⟩ := hinv.playing hand hbefore
    obtain ⟨t, ht, hturn'⟩ := hplay.turn
    obtain rfl := Option.some.inj (hturn'.symm.trans hturn)
    exact hgrace ⟨i, c, playerId, t, hand, rfl, hready, hget, hbefore, ht, .inr hturn⟩
  rw [if_neg hother] at hpresence
  exact (congrArg Presence.isSittingOut hpresence).trans (h hand p hbefore hturn)

theorem TurnInGame.moves (h : TurnInGame s) (hinv : TableInv Unfolded s.tableManager s.nextRef)
    (horder : SeatOrder s.tableManager.table) {e : Event} (hmove : Moves s e s')
    (hgrace : ¬GraceRunsInHand s e) (hpass : ¬PassesToAbsent s e) : TurnInGame s' := by
  cases hmove with
  | welcomes => exact h
  | rests hrests htable =>
    exact h.congr htable fun p hp => (isSittingOut_congr (hrests.presence p)).trans hp
  | acts haction hsession hhand hid hget happly hrests hafter =>
    subst hid
    exact TurnInGame.acts hinv haction hsession hhand hget happly hrests hafter hpass
  | seats _ _ _ _ hseats =>
    intro hand p hhand hturn
    obtain rfl := Option.some.inj ((hseats.turn horder hhand).symm.trans hturn)
    exact congrArg Presence.isSittingOut hseats.player
  | takes =>
    refine h.congr (reconnected_kept _ _ _ _).2 fun p hp => ?_
    apply (congrArg Presence.isSittingOut (reconnected_presence _ _ _ _ p)).trans
    split_ifs
    · rfl
    · exact hp
  | ignores => exact h
  | @drops _ _ playerId =>
    have hmanager := (removeSession_tableManager s playerId).1
    refine h.congr (congrArg TableManager.table hmanager) fun p hp => ?_
    rw [hmanager]
    exact hp
  | leaves =>
    refine h.congr (onDisconnect_kept _ _ _).2 fun p hp => ?_
    apply (congrArg Presence.isSittingOut (onDisconnect_presence _ _ _ p)).trans
    split_ifs
    · rfl
    · exact hp
  | expires => exact h
  | waits => exact h
  | @runs i c callback hready =>
    cases callback with
    | playerRemoved => exact h
    | graceTimerExpired playerId => exact h.graceRuns hinv hready hgrace

/-- Absent players are folded and never on turn exactly when no grace handler
runs for a hand player who is away or on turn, and no bet passes the turn to one
who sits out. -/
theorem absentFolded_iff (config : Config) (es : List Event) :
    ((machine config).EveryStep FoldsAbsent es ∧
        ∀ pre, pre <+: es → TurnInGame ((machine config).run pre)) ↔
      (machine config).EveryStep (fun s e => ¬GraceRunsInHand s e ∧ ¬PassesToAbsent s e) es := by
  refine (machine config).safe_iff (fun hand p hhand => nomatch hhand) es fun pre e _ h => ?_
  have hinv := run_inv config pre
  constructor
  · intro hh
    exact ⟨fun hbad => absence_of_graceRunsInHand hinv hbad hh,
      fun hbad => absence_of_passesToAbsent hinv hbad hh.2⟩
  · intro hh
    obtain ⟨hgrace, hpass⟩ := hh
    refine ⟨?_, h.moves hinv (run_seatOrder config pre) (run_moves config pre e) hgrace hpass⟩
    intro i c playerId p hand heq hready hget haway hhand hmem
    exact absurd ⟨i, c, playerId, p, hand, heq, hready, hget, hhand, hmem, .inl haway⟩ hgrace

/-- Bob is on turn, his session closes and his grace timer expires. -/
def bobAway : List Event :=
  bothJoined ++ [.disconnect 1 (.plain "1"), .timerExpires 0, .timerRuns 0 (.plain "1")]

theorem absentFolded_bobAway :
    ¬(machine ⟨30000, 60000⟩).EveryStep FoldsAbsent bobAway ∧
      ¬TurnInGame ((machine ⟨30000, 60000⟩).run bobAway) := by
  constructor
  · intro h
    have hfolds := h (bothJoined ++ [.disconnect 1 (.plain "1"), .timerExpires 0])
      (.timerRuns 0 (.plain "1")) (List.prefix_refl _) 0 (.plain "1") "bob" 1 _ rfl rfl rfl rfl rfl
      (by decide) _ rfl
    exact absurd hfolds.1 (by decide)
  · intro h
    have hin := h _ 1 rfl rfl
    exact absurd hin (by decide)

/-! ### Freeing the seat of an absent player

The removal timer gets the announcement itself as its callback. The handler that
frees the seat has no caller, and the two together would not do either: once the
player is gone there is nobody to announce (`onRemovalTimerExpired_silent`). -/

/-- After the removal handler of a player who is still away his seat is free and
the removal announced once. -/
def RemovalFrees (s : GameSession) (e : Event) : Prop :=
  ∀ i c playerId p, e = .timerRuns i c →
    s.connections.ready[i]? = some (.playerRemoved playerId) →
    s.tableManager.getPlayer playerId = some p →
    (s.tableManager.heap p).connectionStatus ≠ .connected →
    let after := s.step e
    p ∉ after.1.tableManager.players ∧
      after.1.tableManager.table.seat1 ≠ some p ∧ after.1.tableManager.table.seat2 ≠ some p ∧
      (after.1.tableManager.table.seat1 = none ∨ after.1.tableManager.table.seat2 = none) ∧
      after.2 = s.broadcastJson c (.playerRemoved playerId (s.tableManager.heap p).seat)

/-- The removal handler of a player runs who is away. -/
def RemovalRuns (s : GameSession) (e : Event) : Prop :=
  ∃ i c playerId p, e = .timerRuns i c ∧
    s.connections.ready[i]? = some (.playerRemoved playerId) ∧
    s.tableManager.getPlayer playerId = some p ∧
    (s.tableManager.heap p).connectionStatus ≠ .connected

theorem removalRuns {i : ℕ} {playerId : String} {p : PlayerRef}
    (hready : s.connections.ready[i]? = some (.playerRemoved playerId))
    (hget : s.tableManager.getPlayer playerId = some p) (c : Choices) :
    let after := s.step (.timerRuns i c)
    after.1.tableManager = s.tableManager ∧
      after.2 = s.broadcastJson c (.playerRemoved playerId (s.tableManager.heap p).seat) := by
  rw [step_timerRuns hready]
  refine ⟨rfl, ?_⟩
  simp only [onTimer, broadcastPlayerRemoved, hget]
  rfl

theorem not_removalFrees {e : Event} (hruns : RemovalRuns s e) : ¬RemovalFrees s e := by
  obtain ⟨i, c, playerId, p, rfl, hready, hget, haway⟩ := hruns
  intro hfrees
  apply (hfrees i c playerId p rfl hready hget haway).1
  rw [(removalRuns hready hget c).1]
  exact (getPlayer_mem hget).1

/-- No removal handler of an absent player frees his seat. -/
theorem removalFrees_iff (config : Config) (es : List Event) :
    (machine config).EveryStep RemovalFrees es ↔
      (machine config).EveryStep (fun s e => ¬RemovalRuns s e) es := by
  refine (machine config).everyStep_congr (fun pre e => ⟨?_, ?_⟩) es
  · exact fun hfrees hruns => not_removalFrees hruns hfrees
  · intro hno i c playerId p heq hready hget haway
    exact absurd ⟨i, c, playerId, p, heq, hready, hget, haway⟩ hno

/-- The handler that would free the seat announces nothing: the announcement
looks for the player it has just removed. -/
theorem onRemovalTimerExpired_silent (hinv : TableInv Unfolded s.tableManager s.nextRef)
    {playerId : String} {p : PlayerRef} (hget : s.tableManager.getPlayer playerId = some p)
    (c : Choices) :
    let after := PlayerStateManager.onRemovalTimerExpired s c playerId
    p ∉ after.1.tableManager.players ∧ after.2 = [] := by
  obtain ⟨hplayers, -⟩ := TableManager.removePlayer_of_getPlayer hget
  have hheap : (s.tableManager.removePlayer playerId).2.heap = s.tableManager.heap := by
    simp only [TableManager.removePlayer, hget]
  have hnone : (s.tableManager.removePlayer playerId).2.getPlayer playerId = none := by
    refine List.find?_eq_none.mpr fun q hq => ?_
    rw [hplayers] at hq
    rw [hheap, beq_iff_eq]
    intro hid
    have hother := hinv.getPlayer (List.mem_of_mem_erase hq)
    rw [hid, hget] at hother
    obtain rfl := Option.some.inj hother
    exact hinv.nodup.not_mem_erase hq
  refine ⟨?_, ?_⟩
  · simp only [PlayerStateManager.onRemovalTimerExpired, hplayers]
    exact hinv.nodup.not_mem_erase
  · simp only [PlayerStateManager.onRemovalTimerExpired, broadcastPlayerRemoved, hnone]

/-- Bob never comes back. -/
def bobGone : List Event := bobAway ++ [.timerExpires 0]

theorem removalFrees_bobGone :
    let s := (machine ⟨30000, 60000⟩).run bobGone
    let after := s.step (.timerRuns 0 (.plain "1"))
    after.2 = [.send 0 (.playerRemoved "bob" 1)] ∧
      after.1.tableManager.table.seat2 = some 1 ∧
      ¬RemovalFrees s (.timerRuns 0 (.plain "1")) := by
  refine ⟨by decide, by decide, fun h => ?_⟩
  have hfrees := h 0 (.plain "1") "bob" 1 rfl rfl rfl (by decide)
  exact absurd hfrees.1 (by decide)

end GameSession
end HeadsUp.Server
