import HeadsUp.Server.Absence
import HeadsUp.Server.TableRuns

/-!
# Waiting for players

A hand starts when the second seat is taken and at no other time, whether the
two players are there or not.
-/

namespace HeadsUp.Server
open HeadsUp.Core HeadsUp.Common HeadsUp.Lib

/-! ### The table manager of a session -/

namespace TableManager

theorem TableRep.operates {tm : TableManager} (h : TableRep tm) (op : TableOp) :
    TableRep (tm.stepOp op).1 := h.does (step_does tm op)

theorem TableRep.startHand {tm : TableManager} (h : TableRep tm) (uuid : String)
    (constructed shuffled : Shuffle Card) :
    TableRep (tm.startHand uuid constructed shuffled).2.1 := by
  have hstep := h.operates (.startHand uuid constructed shuffled)
  simp only [stepOp] at hstep
  split at hstep <;> exact hstep

theorem TableRep.endHand {tm : TableManager} (h : TableRep tm) (tables : MapOrder) :
    TableRep (tm.endHand tables).1 := by
  have hstep := h.operates (.endHand tables)
  simp only [stepOp] at hstep
  split at hstep <;> exact hstep

theorem TableRep.updates {tm : TableManager} (h : TableRep tm) (player : PlayerRef) {x : Player}
    (hid : x.id = (tm.heap player).id) (hseat : x.seat = (tm.heap player).seat) :
    TableRep { tm with heap := Function.update tm.heap player x } := by
  refine h.congr_heap fun p _ => ?_
  by_cases hp : p = player
  · rw [hp, Function.update_self]
    exact ⟨hid, hseat⟩
  · rw [Function.update_of_ne hp]
    exact ⟨rfl, rfl⟩

theorem TableRep.inProgress_iff {tm : TableManager} (h : TableRep tm) :
    tm.table.state = .handInProgress ↔ tm.table.currentHand.isSome = true := by
  rw [h.state]
  split_ifs with hhand <;> simp [hhand]

end TableManager

namespace GameSession
open TableManager (TableRep)

variable {s s' : GameSession}

theorem startWhenReady_tableRep (h : TableRep s.tableManager) (c : Choices)
    (acked : List Effect) : TableRep (s.startWhenReady c acked).state.tableManager := by
  unfold startWhenReady
  have hstarted := h.startHand c.uuid c.constructed c.shuffled
  split
  · exact h
  · simp only
    split
    · exact hstarted
    · split <;> exact hstarted

theorem joinAsNew_tableRep (h : TableRep s.tableManager)
    (hinv : TableInv Unfolded s.tableManager s.nextRef) (name : String) (session : SessionId)
    (c : Choices) : TableRep (s.joinAsNew name session c).state.tableManager := by
  have hseated : ∀ playerId seat,
      TableRep (s.seatNewPlayer playerId name seat session c).state.tableManager := by
    intro playerId seat
    have hcreated : TableRep (s.updatePlayer s.nextRef fun _ =>
        newPlayer playerId name seat).tableManager := by
      refine h.congr_heap fun p hp => ?_
      rw [Function.update_of_ne (hinv.fresh p hp).ne]
      exact ⟨rfl, rfl⟩
    unfold seatNewPlayer
    simp only
    split
    · exact h
    · exact startWhenReady_tableRep (hcreated.operates (.assignSeat s.nextRef seat)) c _
  unfold joinAsNew
  split
  · exact h
  · split
    · exact h
    · split
      · exact hseated _ _
      · split
        · exact hseated _ _
        · exact h

theorem handleJoin_tableRep (h : TableRep s.tableManager)
    (hinv : TableInv Unfolded s.tableManager s.nextRef) (payload : Json) (session : SessionId)
    (c : Choices) : TableRep (s.handleJoin payload session c).state.tableManager := by
  have hmoved : ∀ player provided,
      TableRep (reconnect.reconnected s player provided session c).state.tableManager := by
    intro player provided
    have hkept : TableRep (s.moveSession provided session).tableManager := by
      rw [(moveSession_tableManager s provided session).1]
      exact h
    exact hkept.updates player rfl rfl
  unfold handleJoin
  split
  · rename_i e _
    cases e <;> exact h
  · split
    · unfold reconnect
      split
      · split
        · exact h
        · exact hmoved _ _
      · exact hmoved _ _
    · exact joinAsNew_tableRep h hinv _ session c

theorem handleAction_tableRep (h : TableRep s.tableManager) (payload : Json)
    (session : SessionId) (c : Choices) :
    TableRep (s.handleAction payload session c).state.tableManager := by
  have hafter : ∀ {s : GameSession} (applied : List Effect), TableRep s.tableManager →
      TableRep (s.afterAction c applied).state.tableManager := by
    intro s applied h
    unfold afterAction
    split
    · exact h
    · simp only
      split
      · exact h
      · split
        · exact h
        · exact h.endHand c.tables
  unfold handleAction
  split
  · rename_i e _
    cases e <;> exact h
  · rename_i handId action amount _
    unfold performAction
    split
    · exact h
    · rename_i playerId _
      split
      · exact h
      · split
        · exact h
        · simp only
          split
          · exact h
          · exact hafter _ (h.operates (.processPlayerAction playerId action amount c.now))

/-- A session calls the operations of its table manager and otherwise leaves ids
and seats alone. -/
theorem step_tableRep (h : TableRep s.tableManager)
    (hinv : TableInv Unfolded s.tableManager s.nextRef) (e : Event) :
    TableRep (s.step e).1.tableManager := by
  cases e with
  | connect session playerId => exact h
  | message session text c =>
    cases text with
    | none => exact h
    | some json =>
      simp only [step, handleMessage, caught_state]
      rcases dispatch_cases s json session c with
        ⟨-, heq⟩ | ⟨-, ⟨payload, -, heq⟩ | ⟨payload, -, heq⟩ | heq | ⟨e, heq⟩⟩
      · rw [heq, handleTopUp]
        split
        · exact h
        · split
          · exact h
          · refine h.updates _ ?_ ?_ <;> unfold Player.topUp <;> split <;> rfl
      · rw [heq]
        exact handleJoin_tableRep h hinv payload session c
      · rw [heq]
        exact handleAction_tableRep h payload session c
      · rw [heq]
        exact h
      · rw [heq]
        cases e <;> exact h
  | disconnect session c =>
    simp only [step, onDisconnect]
    split
    · exact h
    · rename_i playerId _
      have hremoved : TableRep (s.removeSession playerId).tableManager := by
        rw [(removeSession_tableManager s playerId).1]
        exact h
      split
      · exact hremoved
      · exact hremoved.updates _ rfl rfl
  | timerExpires i => exact h
  | timerRuns i c =>
    simp only [step]
    split
    · exact h
    · rename_i callback _
      cases callback with
      | playerRemoved => exact h
      | graceTimerExpired playerId =>
        show TableRep (PlayerStateManager.onGraceTimerExpired _ playerId).tableManager
        unfold PlayerStateManager.onGraceTimerExpired
        simp only
        split
        · exact h.updates _ rfl rfl
        · exact h

theorem run_tableRep (config : Config) (es : List Event) :
    TableRep ((machine config).run es).tableManager := by
  induction es using List.reverseRecOn with
  | nil => exact TableRep.init _
  | append_singleton es e ih =>
    rw [Machine.run_concat]
    exact step_tableRep ih (run_inv config es) e

/-! ### The start of a hand -/

theorem startWhenReady_starts (hwait : s.tableManager.table.state = .waitingForPlayers)
    (hnone : s.hand = none) (hone : s.tableManager.table.seat1.isSome = true)
    (htwo : s.tableManager.table.seat2.isSome = true) (c : Choices) (acked : List Effect) :
    (s.startWhenReady c acked).state.hand.isSome = true := by
  have hready : s.tableManager.table.isReadyForHand = true := by
    simp only [Table.isReadyForHand, hwait, hone, htwo]
    rfl
  obtain ⟨p, hp⟩ := Option.isSome_iff_exists.mp hone
  obtain ⟨q, hq⟩ := Option.isSome_iff_exists.mp htwo
  have hstart := startHand_eq hready hnone hp hq c.uuid c.constructed c.shuffled
  simp only [startWhenReady, hready, hstart, Bool.not_true, Bool.false_eq_true, if_false, if_true]
  rfl

/-- A new player's seat is granted. -/
theorem assignSeat_new (h : TableInv Unfolded s.tableManager s.nextRef) {playerId : String}
    (hnew : s.tableManager.getPlayer playerId = none) (name : String) {seat : ℤ}
    (hseat : seat = seat1 ∧ s.tableManager.table.seat1 = none ∨
      seat = seat2 ∧ s.tableManager.table.seat2 = none) :
    ((s.updatePlayer s.nextRef fun _ => newPlayer playerId name seat).tableManager.assignSeat
      s.nextRef seat).1 = true := by
  set created := s.updatePlayer s.nextRef fun _ => newPlayer playerId name seat with hcreated
  have hids : (created.tableManager.players.any fun p => (created.tableManager.heap p).id
      == (created.tableManager.heap s.nextRef).id) = false := by
    rw [List.any_eq_false]
    intro p hp
    have hold : (created.tableManager.heap p).id = (s.tableManager.heap p).id :=
      congrArg Player.id (Function.update_of_ne (h.fresh p hp).ne ..)
    have hself : (created.tableManager.heap s.nextRef).id = playerId := by
      rw [hcreated]
      simp [updatePlayer, newPlayer]
    rw [hold, hself]
    exact List.find?_eq_none.mp hnew p hp
  have hdiff : ¬seat2 = seat1 := by decide
  rcases hseat with ⟨rfl, hfree⟩ | ⟨rfl, hfree⟩
  · have hfree' : created.tableManager.table.seat1 = none := hfree
    simp [TableManager.assignSeat, hfree', hids]
  · have hfree' : created.tableManager.table.seat2 = none := hfree
    simp [TableManager.assignSeat, hfree', hids, hdiff]

theorem seatNewPlayer_starts (h : TableInv Unfolded s.tableManager s.nextRef) {playerId : String}
    (hnew : s.tableManager.getPlayer playerId = none)
    (hone : s.tableManager.table.seat1 ≠ none) (htwo : s.tableManager.table.seat2 = none)
    (name : String) (session : SessionId) (c : Choices) :
    (s.seatNewPlayer playerId name seat2 session c).state.hand.isSome = true := by
  set created := s.updatePlayer s.nextRef fun _ => newPlayer playerId name seat2 with hcreated
  have hids : (s.tableManager.players.any fun p => (created.tableManager.heap p).id
      == (created.tableManager.heap s.nextRef).id) = false := by
    rw [List.any_eq_false]
    intro p hp
    have hold : (created.tableManager.heap p).id = (s.tableManager.heap p).id :=
      congrArg Player.id (Function.update_of_ne (h.fresh p hp).ne ..)
    have hself : (created.tableManager.heap s.nextRef).id = playerId := by
      rw [hcreated]
      simp [updatePlayer, newPlayer]
    rw [hold, hself]
    exact List.find?_eq_none.mp hnew p hp
  have hassigned : created.tableManager.assignSeat s.nextRef seat2 = (true, {
      table := { s.tableManager.table with seat2 := some s.nextRef }
      players := s.tableManager.players ++ [s.nextRef]
      heap := Function.update created.tableManager.heap s.nextRef
        { created.tableManager.heap s.nextRef with seat := seat2 } }) := by
    have hdiff : ¬seat2 = seat1 := by decide
    have hfree : created.tableManager.table.seat2 = none := htwo
    simp only [TableManager.assignSeat, hdiff, hfree, ne_eq, not_true_eq_false, and_false,
      if_false, Option.isSome_none, Bool.false_eq_true]
    rw [if_neg (by rw [Bool.not_eq_true]; exact hids)]
    rfl
  obtain ⟨hnone, -⟩ := h.of_free_seat (.inr htwo)
  simp only [seatNewPlayer, ← hcreated, hassigned, Bool.not_true, Bool.false_eq_true, if_false]
  refine startWhenReady_starts ?_ ?_ ?_ rfl c _
  · exact h.idle hnone
  · exact hnone
  · exact Option.isSome_iff_ne_none.mpr hone

/-- A new player who takes the second seat starts a hand. -/
theorem step_seats (h : TableInv Unfolded s.tableManager s.nextRef) {json : Json}
    {name provided playerId : String} {session : SessionId}
    (hjoin : joinOf json = some (name, provided)) (habsent : s.absentPlayer provided = none)
    (hsession : s.sessionToPlayer.lookup session = some playerId)
    (hnew : s.tableManager.getPlayer playerId = none)
    (hone : s.tableManager.table.seat1 ≠ none) (htwo : s.tableManager.table.seat2 = none)
    (c : Choices) :
    let s' := (s.step (.message session (some json) c)).1
    Seats s s' playerId ∧ s'.hand.isSome = true := by
  obtain ⟨payload, hpayload, hfields⟩ := joinOf_eq_some.mp hjoin
  have hstarts := seatNewPlayer_starts h hnew hone htwo name session c
  simp only [step, handleMessage, caught_state, dispatch_of_payload hpayload, if_true, handleJoin,
    hfields, habsent, joinAsNew, hsession, hnew, if_neg hone, if_pos htwo]
  refine ⟨?_, hstarts⟩
  rcases seatNewPlayer_moves h playerId name (.inr ⟨rfl, hone, htwo⟩) session c with hsame | hseats
  · obtain ⟨hnone, -⟩ := h.of_free_seat (.inr htwo)
    rw [hsame, GameSession.hand, hnone] at hstarts
    cases hstarts
  · exact hseats

/-- Only such a join starts a hand. -/
theorem Moves.starts {e : Event} (hmove : Moves s e s') (hnone : s.hand = none)
    (hsome : s'.hand.isSome = true) : ∃ session json c name provided playerId,
      e = .message session (some json) c ∧ joinOf json = some (name, provided) ∧
        s.absentPlayer provided = none ∧ s.sessionToPlayer.lookup session = some playerId ∧
        s.tableManager.getPlayer playerId = none ∧ Seats s s' playerId := by
  rcases hmove.table with htable | ⟨hand, hhand, -⟩ | hseats
  · rw [GameSession.hand, htable, show s.tableManager.table.currentHand = none from hnone] at hsome
    cases hsome
  · rw [hnone] at hhand
    cases hhand
  · exact hseats

theorem Seats.second {playerId : String} (hseats : Seats s s' playerId)
    (horder : SeatOrder s.tableManager.table) (hfull : s'.tableManager.table.seat2.isSome = true) :
    s.tableManager.table.seat1 ≠ none ∧ s.tableManager.table.seat2 = none ∧
      s'.tableManager.table.seat1 = s.tableManager.table.seat1 ∧
      s'.tableManager.table.seat2 = some s.nextRef := by
  rcases hseats.seats with ⟨hnone, -, htwo⟩ | hsecond
  · rw [htwo, horder.first hnone] at hfull
    cases hfull
  · exact hsecond

/-! ### Who is there -/

/-- Both seats are taken by players who are connected and not sitting out. -/
def BothPresent (tm : TableManager) : Prop :=
  ∃ p q, tm.table.seat1 = some p ∧ tm.table.seat2 = some q ∧
    (tm.heap p).canAct = true ∧ (tm.heap q).canAct = true

theorem canAct_iff {x : Player} : x.canAct = true ↔
    (presence x).connectionStatus = .connected ∧ (presence x).isSittingOut = false := by
  simp [Player.canAct, presence]

theorem canAct_congr {x y : Player} (h : presence x = presence y) : x.canAct = y.canAct := by
  rw [Bool.eq_iff_iff, canAct_iff, canAct_iff, h]

/-- A step that starts a hand leaves two present players in the seats. -/
def StartsPresent (s : GameSession) (e : Event) : Prop :=
  s.tableManager.table.state = .waitingForPlayers →
    (s.step e).1.tableManager.table.state = .handInProgress → BothPresent (s.step e).1.tableManager

/-- A new player joins a table whose only player is disconnected or sits out. -/
def JoinsAbsent (s : GameSession) (e : Event) : Prop :=
  ∃ session json c name provided playerId p, e = .message session (some json) c ∧
    joinOf json = some (name, provided) ∧ s.absentPlayer provided = none ∧
    s.sessionToPlayer.lookup session = some playerId ∧
    s.tableManager.getPlayer playerId = none ∧
    s.tableManager.table.seat1 = some p ∧ s.tableManager.table.seat2 = none ∧
    (s.tableManager.heap p).canAct = false

theorem Seats.bothPresent_iff {playerId : String} (hseats : Seats s s' playerId)
    (h : TableInv Unfolded s.tableManager s.nextRef) {p : PlayerRef}
    (hone : s.tableManager.table.seat1 = some p)
    (hone' : s'.tableManager.table.seat1 = s.tableManager.table.seat1)
    (htwo' : s'.tableManager.table.seat2 = some s.nextRef) :
    BothPresent s'.tableManager ↔ (s.tableManager.heap p).canAct = true := by
  have hkept : (s'.tableManager.heap p).canAct = (s.tableManager.heap p).canAct :=
    canAct_congr (hseats.others p (h.fresh p (h.mem_players_iff.mpr (.inl hone))).ne)
  have hnew : (s'.tableManager.heap s.nextRef).canAct = true := by
    rw [canAct_iff, hseats.player]
    exact ⟨rfl, rfl⟩
  rw [hone] at hone'
  constructor
  · intro hboth
    obtain ⟨p', q', hp', hq', hcan, -⟩ := hboth
    obtain rfl := Option.some.inj (hone'.symm.trans hp')
    exact hkept ▸ hcan
  · intro hcan
    exact ⟨p, s.nextRef, hone', htwo', hkept.trans hcan, hnew⟩

theorem startsPresent_iff (h : TableInv Unfolded s.tableManager s.nextRef)
    (hrep : TableRep s.tableManager) (horder : SeatOrder s.tableManager.table) (e : Event) :
    StartsPresent s e ↔ ¬JoinsAbsent s e := by
  have hstate := (step_tableRep hrep h e).inProgress_iff
  constructor
  · intro hstarts hh
    obtain ⟨session, json, c, name, provided, playerId, p, rfl, hjoin, habsent, hsession, hnew,
      hone, htwo, hcan⟩ := hh
    have hseat1 : s.tableManager.table.seat1 ≠ none := by simp [hone]
    obtain ⟨hseats, hsome⟩ := step_seats h hjoin habsent hsession hnew hseat1 htwo c
    obtain ⟨hnone, -⟩ := h.of_free_seat (.inr htwo)
    have hboth := hstarts (h.idle hnone) (hstate.mpr hsome)
    obtain ⟨-, -, hone', htwo'⟩ := hseats.second horder (hseats.hand _
      (Option.eq_some_of_isSome hsome)).1
    rw [hseats.bothPresent_iff h hone hone' htwo', hcan] at hboth
    cases hboth
  · intro hno hwait hstarted
    have hnone : s.hand = none := by
      by_contra hne
      have hbusy := hrep.inProgress_iff.mpr (Option.isSome_iff_ne_none.mpr hne)
      rw [hwait] at hbusy
      cases hbusy
    have hsome : (s.step e).1.hand.isSome = true := hstate.mp hstarted
    obtain ⟨session, json, c, name, provided, playerId, rfl, hjoin, habsent, hsession, hnew,
      hseats⟩ := (step_moves h e).starts hnone hsome
    obtain ⟨hone, htwo, hone', htwo'⟩ := hseats.second horder (hseats.hand _
      (Option.eq_some_of_isSome hsome)).1
    obtain ⟨p, hp⟩ := Option.ne_none_iff_exists'.mp hone
    rw [hseats.bothPresent_iff h hp hone' htwo', ← Bool.not_eq_false]
    intro hcan
    exact hno ⟨session, json, c, name, provided, playerId, p, rfl, hjoin, habsent, hsession, hnew,
      hp, htwo, hcan⟩

/-- In a run hands start between present players exactly when no new player
joins a table whose only player is away. -/
theorem run_startsPresent_iff (config : Config) (es : List Event) :
    (machine config).EveryStep StartsPresent es ↔
      (machine config).EveryStep (fun s e => ¬JoinsAbsent s e) es :=
  (machine config).everyStep_congr (fun pre e => startsPresent_iff (run_inv config pre)
    (run_tableRep config pre) (run_seatOrder config pre) e) es

/-- Alice joins and leaves, Bob comes. -/
def aliceGone : List Event :=
  [.connect 0 "alice", sent 0 (.join "Alice"), .disconnect 0 (.plain "1"), .connect 1 "bob"]

/-- Bob joins; his hand is with a disconnected player. -/
theorem startsPresent_aliceGone :
    ¬(machine ⟨30000, 60000⟩).EveryStep StartsPresent (aliceGone ++ [sent 1 (.join "Bob")]) := by
  intro h
  obtain ⟨p, q, hp, -, hcan, -⟩ := h aliceGone (sent 1 (.join "Bob")) (List.prefix_refl _)
    (by decide +kernel) (by decide +kernel)
  obtain rfl : 0 = p := Option.some.inj (hp.symm.trans (by decide +kernel)).symm
  exact absurd hcan (by decide +kernel)

/-! ### Two present players -/

theorem two_players (h : TableInv Unfolded s.tableManager s.nextRef) {p q : PlayerRef}
    (hp : p ∈ s.tableManager.players) (hq : q ∈ s.tableManager.players) (hne : p ≠ q) :
    s.tableManager.table.seat1.isSome = true ∧ s.tableManager.table.seat2.isSome = true ∧
      ∀ x ∈ s.tableManager.players, x = p ∨ x = q := by
  have hp' := h.mem_players_iff.mp hp
  have hq' := h.mem_players_iff.mp hq
  simp only [h.mem_players_iff]
  rcases hp' with hp' | hp' <;> rcases hq' with hq' | hq' <;> grind

theorem bothPresent_iff (h : TableInv Unfolded s.tableManager s.nextRef) :
    BothPresent s.tableManager ↔ s.tableManager.table.seat1.isSome = true ∧
      s.tableManager.table.seat2.isSome = true ∧
      ∀ p ∈ s.tableManager.players, (s.tableManager.heap p).canAct = true := by
  constructor
  · intro hboth
    obtain ⟨p, q, hp, hq, hcan, hcan'⟩ := hboth
    refine ⟨by simp [hp], by simp [hq], fun x hx => ?_⟩
    rw [← h.seats.mem_iff, seated, hp, hq] at hx
    rcases List.mem_pair.mp hx with rfl | rfl
    · exact hcan
    · exact hcan'
  · intro hh
    obtain ⟨hone, htwo, hcan⟩ := hh
    obtain ⟨p, q, hp, hq, hperm⟩ := h.pair hone htwo
    exact ⟨p, q, hp, hq, hcan p (hperm.mem_iff.mp (by simp)), hcan q (hperm.mem_iff.mp (by simp))⟩

theorem BothPresent.of_table {tm tm' : TableManager} (h : BothPresent tm')
    (hseats : tm'.table.seat1 = tm.table.seat1 ∧ tm'.table.seat2 = tm.table.seat2)
    (hcan : ∀ p, (tm'.heap p).canAct = true → (tm.heap p).canAct = true) : BothPresent tm := by
  obtain ⟨p, q, hp, hq, hcanp, hcanq⟩ := h
  exact ⟨p, q, hseats.1.symm.trans hp, hseats.2.symm.trans hq, hcan p hcanp, hcan q hcanq⟩

/-- With two present players in the seats a hand is in progress. -/
def PlaysWhenPresent (s : GameSession) : Prop := BothPresent s.tableManager → s.hand.isSome = true

/-- A valid fold, the other player being present. -/
def FoldsToPresent (s : GameSession) (e : Event) : Prop :=
  ∃ session json c playerId player hand amount other, e = .message session (some json) c ∧
    s.hand = some hand ∧ actionOf json c = some (hand.id, "fold", amount) ∧
    s.sessionToPlayer.lookup session = some playerId ∧
    s.tableManager.getPlayer playerId = some player ∧
    PlayerAction.validateAction s.tableManager.heap hand player "fold" amount = true ∧
    other ∈ hand.players ∧ other ≠ player ∧ (s.tableManager.heap other).canAct = true

/-- A player reconnects between hands, the other one being present. -/
def ReturnsToPresent (s : GameSession) (e : Event) : Prop :=
  ∃ session json c name provided player other, e = .message session (some json) c ∧
    s.hand = none ∧ joinOf json = some (name, provided) ∧
    s.absentPlayer provided = some player ∧
    (∀ holder, s.playerSessions.lookup provided = some holder → holder = session) ∧
    other ∈ s.tableManager.players ∧ other ≠ player ∧ (s.tableManager.heap other).canAct = true

theorem not_plays_of_fold (h : TableInv Unfolded s.tableManager s.nextRef) {e : Event}
    (hfold : FoldsToPresent s e) : ¬PlaysWhenPresent (s.step e).1 := by
  obtain ⟨session, json, c, playerId, player, hand, amount, other, rfl, hhand, haction, hsession,
    hget, hvalid, hmem, hne, hcan⟩ := hfold
  obtain ⟨heap, after, happly, hrests, hafter⟩ := step_act h hhand haction hsession hget hvalid
  obtain ⟨hplay, hun⟩ := h.playing hand hhand
  rw [if_pos ((applied_ends hplay happly hun).mpr rfl)] at hafter
  obtain ⟨hcan', -⟩ := PlayerAction.validateAction_iff.mp hvalid
  have hplayer := (PlayerAction.canAct_iff.mp hcan').1
  obtain ⟨hone, htwo, hboth⟩ := two_players h (hplay.mem other hmem) (getPlayer_mem hget).1 hne
  have hpresent : BothPresent s.tableManager := by
    refine (bothPresent_iff h).mpr ⟨hone, htwo, fun x hx => ?_⟩
    rcases hboth x hx with rfl | rfl
    · exact hcan
    · exact hplayer
  intro hplays
  have hsome := hplays (hpresent.of_table ⟨hrests.seats.1.symm, hrests.seats.2.symm⟩
    fun p hp => (canAct_congr (hrests.presence p)).trans hp)
  rw [hafter] at hsome
  cases hsome

theorem reconnected_canAct {player p : PlayerRef} (hne : p ≠ player) (provided : String)
    (session : SessionId) (c : Choices) :
    ((reconnect.reconnected s player provided session c).state.tableManager.heap p).canAct
      = (s.tableManager.heap p).canAct := by
  have hpresence := reconnected_presence (s := s) player provided session c p
  rw [if_neg hne] at hpresence
  exact canAct_congr hpresence

theorem not_plays_of_return (h : TableInv Unfolded s.tableManager s.nextRef) {e : Event}
    (hreturn : ReturnsToPresent s e) : ¬PlaysWhenPresent (s.step e).1 := by
  obtain ⟨session, json, c, name, provided, player, other, rfl, hnone, hjoin, habsent, hfree,
    hmem, hne, hcan⟩ := hreturn
  obtain ⟨-, hget, -⟩ := absentPlayer_eq_some.mp habsent
  obtain ⟨hone, htwo, hboth⟩ := two_players h hmem (getPlayer_mem hget).1 hne
  obtain ⟨p, q, hp, hq, hperm⟩ := h.pair hone htwo
  rw [step_reconnect hjoin habsent hfree]
  obtain ⟨hplayers, htable⟩ := reconnected_kept (s := s) player provided session c
  have hcan' : ∀ x ∈ s.tableManager.players,
      ((reconnect.reconnected s player provided session c).state.tableManager.heap x).canAct
        = true := by
    intro x hx
    rcases hboth x hx with rfl | rfl
    · rw [reconnected_canAct hne]
      exact hcan
    · rw [canAct_iff, reconnected_presence, if_pos rfl]
      exact ⟨rfl, rfl⟩
  intro hplays
  have hsome := hplays ⟨p, q, htable ▸ hp, htable ▸ hq, hcan' p (hperm.mem_iff.mp (by simp)),
    hcan' q (hperm.mem_iff.mp (by simp))⟩
  rw [GameSession.hand, htable, show s.tableManager.table.currentHand = none from hnone] at hsome
  cases hsome

theorem PlaysWhenPresent.of_table (h : PlaysWhenPresent s)
    (htable : s'.tableManager.table = s.tableManager.table)
    (hcan : ∀ p, (s'.tableManager.heap p).canAct = true → (s.tableManager.heap p).canAct = true) :
    PlaysWhenPresent s' := by
  intro hboth
  rw [GameSession.hand, htable]
  exact h (hboth.of_table ⟨congrArg Table.seat1 htable, congrArg Table.seat2 htable⟩ hcan)

theorem plays_of_reconnected (h : TableInv Unfolded s.tableManager s.nextRef)
    {session : SessionId} {json : Json} {c : Choices} {name provided : String} {player : PlayerRef}
    (hjoin : joinOf json = some (name, provided)) (habsent : s.absentPlayer provided = some player)
    (hfree : ∀ other, s.playerSessions.lookup provided = some other → other = session)
    (hno : ¬ReturnsToPresent s (.message session (some json) c)) :
    PlaysWhenPresent (reconnect.reconnected s player provided session c).state := by
  intro hboth
  obtain ⟨-, htable⟩ := reconnected_kept (s := s) player provided session c
  obtain ⟨p, q, hp, hq, hcanp, hcanq⟩ := hboth
  rw [htable] at hp hq
  rw [GameSession.hand, htable]
  by_contra hidle
  have hnone : s.hand = none := Option.not_isSome_iff_eq_none.mp hidle
  have hreturns : ∀ other ∈ s.tableManager.players, other ≠ player →
      ((reconnect.reconnected s player provided session c).state.tableManager.heap other).canAct
        = true → False := by
    intro other hmem hne hcan
    rw [reconnected_canAct hne] at hcan
    exact hno ⟨session, json, c, name, provided, player, other, rfl, hnone, hjoin, habsent, hfree,
      hmem, hne, hcan⟩
  by_cases hpp : p = player
  · -- the other seat is not his too
    have hnd := h.seats.nodup_iff.mpr h.nodup
    rw [seated, hp, hq] at hnd
    have hne : q ≠ player := by
      rintro rfl
      simp [hpp] at hnd
    exact hreturns q (h.mem_players_iff.mpr (.inr hq)) hne hcanq
  · exact hreturns p (h.mem_players_iff.mpr (.inl hp)) hpp hcanp

theorem plays_of_act (h : TableInv Unfolded s.tableManager s.nextRef) {session : SessionId}
    {json : Json} {c : Choices} {action : String} {amount : ℤ} {playerId : String}
    {hand hand' : Hand} {player : PlayerRef} {heap : Heap}
    (haction : actionOf json c = some (hand.id, action, amount))
    (hsession : s.sessionToPlayer.lookup session = some playerId) (hhand : s.hand = some hand)
    (hget : s.tableManager.getPlayer playerId = some player)
    (happly : PlayerAction.applyAction s.tableManager.heap hand player action amount c.now
      = (true, heap, hand'))
    (hrests : Rests s s')
    (hafter : s'.hand = if (activePlayers hand').length ≤ 1 then none else some hand')
    (hno : ¬FoldsToPresent s (.message session (some json) c)) : PlaysWhenPresent s' := by
  intro hboth
  obtain ⟨hplay, hun⟩ := h.playing hand hhand
  by_cases hfew : (activePlayers hand').length ≤ 1
  swap
  · rw [hafter, if_neg hfew]
    rfl
  obtain rfl := (applied_ends hplay happly hun).mp hfew
  -- both players of the hand were there before the fold
  have hbefore := (bothPresent_iff h).mp (hboth.of_table hrests.seats fun p hp =>
    (canAct_congr (hrests.presence p)).symm.trans hp)
  obtain ⟨a, b, hab, hne, -⟩ := hplay.two
  obtain ⟨other, hmem, hother⟩ : ∃ other ∈ hand.players, other ≠ player := by
    rw [hab]
    by_cases hap : a = player
    · exact ⟨b, by simp, fun hbp => hne (hap.trans hbp.symm)⟩
    · exact ⟨a, by simp, hap⟩
  exact absurd ⟨session, json, c, playerId, player, hand, amount, other, rfl, hhand, haction,
    hsession, hget, PlayerAction.valid_of_applyAction happly, hmem, hother,
    hbefore.2.2 other (hplay.mem other hmem)⟩ hno

theorem PlaysWhenPresent.step (h : PlaysWhenPresent s)
    (hinv : TableInv Unfolded s.tableManager s.nextRef)
    (horder : SeatOrder s.tableManager.table) {e : Event} (hfold : ¬FoldsToPresent s e)
    (hreturn : ¬ReturnsToPresent s e) : PlaysWhenPresent (s.step e).1 := by
  have hmove := step_moves hinv e
  generalize hs' : (s.step e).1 = s' at hmove
  cases hmove with
  | welcomes => exact h
  | rests hrests htable =>
    exact h.of_table htable fun p hp => (canAct_congr (hrests.presence p)).symm.trans hp
  | acts haction hsession hhand hid hget happly hrests hafter =>
    exact plays_of_act hinv (hid ▸ haction) hsession hhand hget happly hrests hafter hfold
  | @seats session json c _ name provided playerId hjoin habsent hsession hnew hseats =>
    intro hboth
    obtain ⟨-, q, -, hq, -⟩ := hboth
    obtain ⟨hone, htwo, -⟩ := hseats.second horder (by simp [hq])
    rw [← hs']
    exact (step_seats hinv hjoin habsent hsession hnew hone htwo c).2
  | takes hjoin habsent hfree => exact plays_of_reconnected hinv hjoin habsent hfree hreturn
  | ignores => exact h
  | @drops _ _ playerId =>
    have hmanager := (removeSession_tableManager s playerId).1
    exact h.of_table (congrArg TableManager.table hmanager) fun p hp => hmanager ▸ hp
  | @leaves _ c playerId player =>
    refine h.of_table (onDisconnect_kept _ _ _).2 fun p hp => ?_
    have hpresence := onDisconnect_presence (s := s) player playerId c.now p
    split_ifs at hpresence with heq
    · rw [canAct_iff, hpresence] at hp
      cases hp.1
    · exact (canAct_congr hpresence).symm.trans hp
  | expires => exact h
  | waits => exact h
  | @runs i c callback hready =>
    refine h.of_table (onTimer_table _ _) fun p hp => ?_
    cases callback with
    | playerRemoved => exact hp
    | graceTimerExpired playerId =>
      have hpresence := onGraceTimerExpired_presence
        (s := { s with connections := (s.connections.take i).2 }) playerId p
      split_ifs at hpresence with heq
      · rw [canAct_iff] at hp
        have hsits : _ = true := congrArg Presence.isSittingOut hpresence
        exact absurd (hsits.symm.trans hp.2) (by simp)
      · exact (canAct_congr hpresence).symm.trans hp

/-- In every state of a run two present players have a hand exactly when the run
has no fold and no reconnection between hands facing a present player. -/
theorem run_playsWhenPresent_iff (config : Config) (es : List Event) :
    (∀ pre, pre <+: es → PlaysWhenPresent ((machine config).run pre)) ↔
      (machine config).EveryStep (fun s e => ¬FoldsToPresent s e ∧ ¬ReturnsToPresent s e) es := by
  refine (machine config).always_iff (fun hboth => ?_) es fun pre e _ h => ?_
  · obtain ⟨p, -, hp, -⟩ := hboth
    cases hp
  · have hinv := run_inv config pre
    constructor
    · intro hplays
      exact ⟨fun hfold => not_plays_of_fold hinv hfold hplays,
        fun hreturn => not_plays_of_return hinv hreturn hplays⟩
    · intro hh
      exact h.step hinv (run_seatOrder config pre) hh.1 hh.2

/-- Bob folds the first hand and no second one starts. -/
theorem playsWhenPresent_bobFolds : ¬∀ pre, pre <+: bothJoined ++ [sent 1 (.action "hand_1" "fold" 0)] →
    PlaysWhenPresent ((machine ⟨30000, 60000⟩).run pre) := by
  intro h
  have hplays := h _ (List.prefix_refl _)
  exact absurd (hplays ⟨0, 1, by decide +kernel, by decide +kernel, by decide +kernel,
    by decide +kernel⟩) (by decide +kernel)

end GameSession
end HeadsUp.Server
