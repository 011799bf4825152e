import HeadsUp.Server.GameSession
import HeadsUp.Server.TableInvariant

/-!
# The chips of a game session

Every handler keeps the table's invariant and moves the chips of the table by
what it records: a starting stack for a seat filled, the amount of a top-up.
During a hand only a `top_up` message moves them. No amount exceeds the total, and
the total is an `int` for the first 2684354 events (`numbers_small`).
-/

namespace HeadsUp.Server
open HeadsUp.Core HeadsUp.Common HeadsUp.Lib

/-! ### Accounts -/

/-- The chips an effect brings to the table. -/
def Effect.chips : Effect → ℤ
  | .send _ _ => 0
  | .seated _ => startingStack
  | .toppedUp amount => amount

def chipsOf (effects : List Effect) : ℤ := (effects.map Effect.chips).sum

theorem chipsOf_append (effects effects' : List Effect) :
    chipsOf (effects ++ effects') = chipsOf effects + chipsOf effects' := by
  simp [chipsOf]

def Sends (effects : List Effect) : Prop := ∀ e ∈ effects, ∃ session message, e = .send session message

theorem Sends.nil : Sends [] := by simp [Sends]

theorem Sends.single (session : SessionId) (message : Message) : Sends [.send session message] := by
  simp [Sends]

theorem Sends.append {effects effects' : List Effect} (h : Sends effects) (h' : Sends effects') :
    Sends (effects ++ effects') := by
  intro e he
  rcases List.mem_append.mp he with he | he
  · exact h e he
  · exact h' e he

theorem Sends.chips {effects : List Effect} (h : Sends effects) : chipsOf effects = 0 := by
  refine List.sum_eq_zero fun x hx => ?_
  obtain ⟨e, he, rfl⟩ := List.mem_map.mp hx
  obtain ⟨session, message, rfl⟩ := h e he
  rfl

def GameSession.hand (s : GameSession) : Option Hand := s.tableManager.table.currentHand

/-- What a handler owes: the invariant, the books balanced, and while a hand
goes on no chips but those of a top-up. -/
structure Accounted (topUp : ℤ) (s : GameSession) (r : GameSession × List Effect) : Prop where
  inv : TableInv Unfolded r.1.tableManager r.1.nextRef
  chips : tableChips r.1.tableManager = tableChips s.tableManager + chipsOf r.2
  stakes : s.hand.isSome → r.1.hand.isSome → chipsOf r.2 = topUp

namespace GameSession
variable {s : GameSession} (h : TableInv Unfolded s.tableManager s.nextRef)

/-! ### What is sent -/

section Sends
variable (s) (c : Choices)

theorem broadcastJson_sends (message : Message) : Sends (s.broadcastJson c message) := by
  intro e he
  obtain ⟨session, -, rfl⟩ := List.mem_map.mp he
  exact ⟨session, message, rfl⟩

theorem broadcastHandStarted_sends : Sends (s.broadcastHandStarted c) := by
  unfold broadcastHandStarted
  split
  · exact Sends.nil
  · exact broadcastJson_sends s c _

theorem sendActionRequest_sends (playerId : String) : Sends (s.sendActionRequest playerId) := by
  unfold sendActionRequest
  split
  · exact Sends.single _ _
  · exact Sends.nil

theorem broadcastActionApplied_sends (playerId action : String) (amount : ℤ) :
    Sends (s.broadcastActionApplied c playerId action amount) := by
  unfold broadcastActionApplied
  split
  · exact broadcastJson_sends s c _
  · exact Sends.nil

theorem broadcastPlayerRemoved_sends (playerId : String) :
    Sends (s.broadcastPlayerRemoved c playerId) := by
  unfold broadcastPlayerRemoved
  split
  · exact Sends.nil
  · exact broadcastJson_sends s c _

end Sends

/-! ### Handlers that move no chips -/

include h in
theorem accounted_of_heap {s' : GameSession} (heap : Heap) {effects : List Effect}
    (htable : s'.tableManager = { s.tableManager with heap }) (hnext : s.nextRef ≤ s'.nextRef)
    (hheap : ∀ p ∈ s.tableManager.players, (heap p).id = (s.tableManager.heap p).id ∧
      (heap p).stack = (s.tableManager.heap p).stack) (heffects : Sends effects) :
    Accounted 0 s (s', effects) := by
  obtain ⟨hinv, hchips⟩ := h.congr_heap heap hnext hheap
  refine ⟨?_, ?_, fun _ _ => heffects.chips⟩
  · rw [htable]
    exact hinv
  · rw [htable, hchips, heffects.chips, add_zero]

include h in
theorem accounted_of_same {s' : GameSession} {effects : List Effect}
    (htable : s'.tableManager = s.tableManager) (hnext : s'.nextRef = s.nextRef)
    (heffects : Sends effects) : Accounted 0 s (s', effects) :=
  accounted_of_heap h s.tableManager.heap htable hnext.ge (fun _ _ => ⟨rfl, rfl⟩) heffects

include h in
theorem accounted_of_update {s' : GameSession} (player : PlayerRef) (x : Player)
    {effects : List Effect}
    (htable : s'.tableManager
      = { s.tableManager with heap := Function.update s.tableManager.heap player x })
    (hnext : s'.nextRef = s.nextRef) (hid : x.id = (s.tableManager.heap player).id)
    (hstack : x.stack = (s.tableManager.heap player).stack) (heffects : Sends effects) :
    Accounted 0 s (s', effects) := by
  refine accounted_of_heap h _ htable hnext.ge (fun p _ => ?_) heffects
  by_cases hp : p = player
  · subst hp
    rw [Function.update_self]
    exact ⟨hid, hstack⟩
  · rw [Function.update_of_ne hp]
    exact ⟨rfl, rfl⟩

include h in
theorem reject_accounted (session : SessionId) (code message : String) :
    Accounted 0 s ((s.reject session code message).state, (s.reject session code message).effects) :=
  accounted_of_same h rfl rfl (Sends.single _ _)

include h in
theorem stop_accounted (session : SessionId) (e : Stop) :
    Accounted 0 s ((s.stop session e).state, (s.stop session e).effects) := by
  cases e with
  | reply code message => exact reject_accounted h session code message
  | throw e => exact accounted_of_same h rfl rfl Sends.nil

theorem caught_accounted {topUp : ℤ} {outcome : Outcome}
    (ho : Accounted topUp s (outcome.state, outcome.effects)) (session : SessionId) :
    Accounted topUp s (caught outcome session) := by
  have hreply : ∀ message, Accounted topUp s
      (outcome.state, outcome.effects ++ [.send session message]) := by
    intro message
    have hchips : chipsOf (outcome.effects ++ [.send session message]) = chipsOf outcome.effects := by
      rw [chipsOf_append, (Sends.single session message).chips, add_zero]
    exact ⟨ho.inv, hchips ▸ ho.chips, fun hbefore hafter => hchips ▸ ho.stakes hbefore hafter⟩
  -- an error reply is appended, or nothing
  unfold caught
  split
  · exact ho
  · exact hreply _
  · exact hreply _

include h in
theorem sendWelcome_accounted (session : SessionId) (playerId : String) :
    Accounted 0 s ((s.sendWelcome session playerId).state, (s.sendWelcome session playerId).effects) :=
  accounted_of_same h rfl rfl (Sends.single _ _)

theorem removeSession_tableManager (s : GameSession) (playerId : String) :
    (s.removeSession playerId).tableManager = s.tableManager ∧
      (s.removeSession playerId).nextRef = s.nextRef := by
  unfold removeSession
  split <;> exact ⟨rfl, rfl⟩

include h in
theorem onDisconnect_accounted (session : SessionId) (c : Choices) :
    Accounted 0 s ((s.onDisconnect session c).state, (s.onDisconnect session c).effects) := by
  unfold onDisconnect
  split
  · exact accounted_of_same h rfl rfl Sends.nil
  · rename_i playerId _
    obtain ⟨htable, hnext⟩ := removeSession_tableManager s playerId
    simp only
    split
    · exact accounted_of_same h htable hnext Sends.nil
    · rename_i player _
      refine accounted_of_update h player { s.tableManager.heap player with
        connectionStatus := .disconnected, disconnectedAt := some c.now, isSittingOut := false }
        ?_ hnext rfl rfl (broadcastJson_sends _ c _)
      simp only [PlayerStateManager.onDisconnect, updatePlayer, htable]

include h in
theorem onTimer_accounted (c : Choices) (callback : TimerCallback) :
    Accounted 0 s (s.onTimer c callback) := by
  cases callback with
  | graceTimerExpired playerId =>
    simp only [onTimer, PlayerStateManager.onGraceTimerExpired]
    split
    · rename_i player _
      exact accounted_of_update h player _ rfl rfl rfl rfl Sends.nil
    · exact accounted_of_same h rfl rfl Sends.nil
  | playerRemoved playerId =>
    exact accounted_of_same h rfl rfl (broadcastPlayerRemoved_sends s c playerId)

theorem moveSession_tableManager (s : GameSession) (playerId : String) (session : SessionId) :
    (s.moveSession playerId session).tableManager = s.tableManager ∧
      (s.moveSession playerId session).nextRef = s.nextRef := by
  unfold moveSession registerSession
  split <;> exact ⟨rfl, rfl⟩

include h in
theorem reconnect_accounted (player : PlayerRef) (playerId : String) (session : SessionId)
    (c : Choices) :
    Accounted 0 s ((s.reconnect player playerId session c).state,
      (s.reconnect player playerId session c).effects) := by
  obtain ⟨htable, hnext⟩ := moveSession_tableManager s playerId session
  have hmoved : Accounted 0 s ((reconnect.reconnected s player playerId session c).state,
      (reconnect.reconnected s player playerId session c).effects) := by
    refine accounted_of_update h player { s.tableManager.heap player with
      connectionStatus := .connected, disconnectedAt := none, isSittingOut := false } ?_ hnext rfl rfl
      ((broadcastJson_sends _ c _).append (Sends.single _ _))
    simp only [reconnect.reconnected, PlayerStateManager.onReconnect, updatePlayer, htable]
  unfold reconnect
  split
  · split
    · exact reject_accounted h session _ _
    · exact hmoved
  · exact hmoved

/-! ### A new player and the first hand -/

include h in
theorem startWhenReady_accounted
    (hnone : s.hand = none)
    (hfew : ∀ p ∈ s.tableManager.players, (s.tableManager.heap p).stack ≤ startingStack)
    (c : Choices) (acked : List Effect) :
    TableInv Unfolded (s.startWhenReady c acked).state.tableManager
        (s.startWhenReady c acked).state.nextRef ∧
      tableChips (s.startWhenReady c acked).state.tableManager = tableChips s.tableManager ∧
      chipsOf (s.startWhenReady c acked).effects = chipsOf acked := by
  unfold startWhenReady
  by_cases hready : s.tableManager.table.isReadyForHand = true
  · obtain ⟨tm', hstart, -, hinv, hchips⟩ := h.startHand hready hnone hfew c.uuid c.constructed
      c.shuffled
    simp only [hready, hstart, Bool.not_true, Bool.false_eq_true, if_false, if_true]
    refine ⟨hinv, hchips, ?_⟩
    rw [chipsOf_append, (broadcastHandStarted_sends _ c).chips, add_zero]
  · rw [if_pos (by simp [hready])]
    exact ⟨h, rfl, rfl⟩

include h in
/-- A new player is turned down, or he brings his stack to a table without a
hand. -/
theorem seatNewPlayer_cases (playerId name : String) (seat : ℤ) (session : SessionId)
    (c : Choices) :
    s.seatNewPlayer playerId name seat session c
        = s.reject session "seat_unavailable" "Seat assignment failed" ∨
    ∃ s' : GameSession, s.hand = none ∧ TableInv Unfolded s'.tableManager s'.nextRef ∧
      s'.hand = none ∧
      (∀ p ∈ s'.tableManager.players, (s'.tableManager.heap p).stack ≤ startingStack) ∧
      tableChips s'.tableManager = tableChips s.tableManager + startingStack ∧
      s.seatNewPlayer playerId name seat session c
        = s'.startWhenReady c [.seated s.nextRef, .send session (.joinAck playerId seat)] := by
  have hcreated : TableInv Unfolded (s.updatePlayer s.nextRef fun _ =>
        newPlayer playerId name seat).tableManager s.nextRef ∧
      tableChips (s.updatePlayer s.nextRef fun _ => newPlayer playerId name seat).tableManager
        = tableChips s.tableManager := by
    refine h.congr_heap _ (le_refl s.nextRef) fun p hp => ?_
    have hne : p ≠ s.nextRef := (h.fresh p hp).ne
    rw [Function.update_of_ne hne]
    exact ⟨rfl, rfl⟩
  obtain ⟨hcreated, hsame⟩ := hcreated
  unfold seatNewPlayer
  simp only
  split
  · exact .inl rfl
  · rename_i hok
    have hok' : ((s.updatePlayer s.nextRef fun _ => newPlayer playerId name seat).tableManager.assignSeat
        s.nextRef seat).1 = true := by simpa using hok
    have hstack : ((s.updatePlayer s.nextRef fun _ =>
        newPlayer playerId name seat).tableManager.heap s.nextRef).stack = startingStack := by
      simp [updatePlayer, newPlayer]
    obtain ⟨hbefore, hinv, hnone, hfew, hchips⟩ := TableInv.assignSeat hcreated hstack hok'
    exact .inr ⟨{ s with tableManager := _, nextRef := s.nextRef + 1 }, hbefore, hinv, hnone, hfew,
      hchips.trans (congrArg (· + _) hsame), rfl⟩

include h in
theorem seatNewPlayer_accounted (playerId name : String) (seat : ℤ) (session : SessionId)
    (c : Choices) :
    Accounted 0 s ((s.seatNewPlayer playerId name seat session c).state,
      (s.seatNewPlayer playerId name seat session c).effects) := by
  rcases seatNewPlayer_cases h playerId name seat session c with
    heq | ⟨s', hbefore, hinv, hnone, hfew, hchips, heq⟩
  · rw [heq]
    exact reject_accounted h session _ _
  · obtain ⟨hinv', hchips', heffects⟩ := startWhenReady_accounted hinv hnone hfew c
      [.seated s.nextRef, .send session (.joinAck playerId seat)]
    have hseated : chipsOf [.seated s.nextRef, .send session (.joinAck playerId seat)]
        = startingStack := rfl
    rw [heq]
    refine ⟨hinv', ?_, fun hsome => ?_⟩
    · simp only [hchips', hchips, heffects, hseated]
    · simp [hbefore] at hsome

include h in
theorem joinAsNew_accounted (name : String) (session : SessionId) (c : Choices) :
    Accounted 0 s ((s.joinAsNew name session c).state, (s.joinAsNew name session c).effects) := by
  unfold joinAsNew
  split
  · exact reject_accounted h session _ _
  · split
    · exact accounted_of_same h rfl rfl (Sends.single _ _)
    · split
      · exact seatNewPlayer_accounted h _ _ _ _ c
      · split
        · exact seatNewPlayer_accounted h _ _ _ _ c
        · exact reject_accounted h session _ _

include h in
theorem handleJoin_accounted (payload : Json) (session : SessionId) (c : Choices) :
    Accounted 0 s ((s.handleJoin payload session c).state,
      (s.handleJoin payload session c).effects) := by
  unfold handleJoin
  split
  · exact stop_accounted h session _
  · split
    · exact reconnect_accounted h _ _ session c
    · exact joinAsNew_accounted h _ session c

/-! ### Actions -/

theorem isHandComplete_playing {players : List PlayerRef} {hand : Hand}
    (hplay : Playing players hand) :
    isHandComplete hand = decide ((activePlayers hand).length ≤ 1) :=
  isHandComplete_eq (fun i _ => readFolded_false hand i) (by rw [hplay.round]; decide)

/-- The payload of `hand_completed` when these are the winners. -/
def completedPayload (s : GameSession) (hand : Hand) (winners : List PlayerRef) : HandCompleted where
  handId := hand.id
  winners := (amountsWon (hand.pot + sidePotSum hand.sidePots) winners).map fun x =>
    ((s.tableManager.heap x.1).id, x.2)
  updatedStacks := hand.players.map fun p =>
    ((s.tableManager.heap p).id, (s.tableManager.heap p).stack)

theorem broadcastHandCompleted_eq {players : List PlayerRef} {hand : Hand}
    (hplay : Playing players hand) (hhand : s.tableManager.table.currentHand = some hand)
    {p : PlayerRef} (hone : activePlayers hand = [p]) (c : Choices) :
    s.broadcastHandCompleted c
      = .ok (s.broadcastJson c (.handCompleted (s.completedPayload hand [p]))) := by
  have hwin : Poker.determineWinners c.tables s.tableManager.heap hand = .ok [p] :=
    determineWinners_of_single hone
  simp only [broadcastHandCompleted, hhand, hplay.winners, hwin, if_true]
  rfl

theorem broadcastHandCompleted_ok (h : TableInv Contested s.tableManager s.nextRef) {hand : Hand}
    (hhand : s.tableManager.table.currentHand = some hand)
    (hfew : (activePlayers hand).length ≤ 1) (c : Choices) :
    ∃ completed, s.broadcastHandCompleted c = .ok (s.broadcastJson c (.handCompleted completed)) := by
  obtain ⟨hplay, hcon⟩ := h.playing hand hhand
  obtain ⟨p, -, hone⟩ := hcon.single hplay hfew
  exact ⟨_, broadcastHandCompleted_eq hplay hhand hone c⟩

/-- After an accepted action the hand goes on, or it ends and the books show the
top-ups. -/
theorem afterAction_accounted (h : TableInv Contested s.tableManager s.nextRef)
    (hsome : s.hand.isSome = true) (c : Choices) {applied : List Effect} (happlied : Sends applied) :
    Accounted 0 s ((s.afterAction c applied).state, (s.afterAction c applied).effects) := by
  obtain ⟨hand, hhand⟩ := Option.isSome_iff_exists.mp hsome
  have hcurrent : s.tableManager.table.currentHand = some hand := hhand
  obtain ⟨hplay, hcon⟩ := h.playing hand hhand
  obtain ⟨p, -, hturn⟩ := hplay.turn
  have hsent := happlied.append (sendActionRequest_sends s (s.tableManager.heap p).id)
  unfold afterAction
  simp only [hcurrent, hturn, isHandComplete_playing hplay]
  by_cases hfew : (activePlayers hand).length ≤ 1
  · obtain ⟨completed, hcompleted⟩ := broadcastHandCompleted_ok h hcurrent hfew c
    obtain ⟨tm', added, hend, hnone, hinv, hchips⟩ := h.endHand hcurrent hfew c.tables
    have heffects := (hsent.append (broadcastJson_sends s c (.handCompleted completed))).chips
    simp only [hfew, hcompleted, hend, decide_true, Bool.not_true, Bool.false_eq_true, if_false]
    refine ⟨hinv, ?_, fun _ hafter => ?_⟩
    · simp only [hchips, chipsOf_append _ [_], heffects]
      simp [chipsOf, Effect.chips]
    · simp [GameSession.hand, hnone] at hafter
  · simp only [hfew, decide_false, Bool.not_false, if_true]
    have hun : TableInv Unfolded s.tableManager s.nextRef := h.mono fun hand' hhand' hcon' => by
      obtain rfl := Option.some.inj (hhand.symm.trans hhand')
      exact hcon'.unfolded hfew
    exact accounted_of_same hun rfl rfl hsent

include h in
theorem performAction_accounted (handId action : String) (amount : ℤ) (session : SessionId)
    (c : Choices) :
    Accounted 0 s ((s.performAction handId action amount session c).state,
      (s.performAction handId action amount session c).effects) := by
  unfold performAction
  split
  · exact reject_accounted h session _ _
  · split
    · exact reject_accounted h session _ _
    · rename_i playerId _ _ hand hhand
      split
      · exact reject_accounted h session _ _
      · simp only
        split
        · exact reject_accounted h session _ _
        · rename_i hok
          have hok' : (s.tableManager.processPlayerAction playerId action amount c.now).1 = true := by
            simpa using hok
          obtain ⟨hinv, hsome, hchips⟩ := h.processPlayerAction hok'
          obtain ⟨hinv', hchips', hstakes⟩ := afterAction_accounted
            (s := { s with tableManager := _ }) hinv hsome c
            (broadcastActionApplied_sends _ c playerId action amount)
          exact ⟨hinv', hchips'.trans (congrArg (· + _) hchips), fun _ => hstakes hsome⟩

include h in
theorem handleAction_accounted (payload : Json) (session : SessionId) (c : Choices) :
    Accounted 0 s ((s.handleAction payload session c).state,
      (s.handleAction payload session c).effects) := by
  unfold handleAction
  split
  · exact stop_accounted h session _
  · exact performAction_accounted h _ _ _ session c

/-! ### Top-ups -/

/-- What a `top_up` message of the session adds. -/
def topUpOf (s : GameSession) (session : SessionId) : ℤ :=
  match s.sessionToPlayer.lookup session with
  | none => 0
  | some playerId =>
    match s.tableManager.getPlayer playerId with
    | none => 0
    | some player => (s.tableManager.heap player).topUp.stack - (s.tableManager.heap player).stack

include h in
theorem handleTopUp_accounted (session : SessionId) :
    Accounted (s.topUpOf session) s ((s.handleTopUp session).state,
      (s.handleTopUp session).effects) := by
  unfold handleTopUp topUpOf
  cases hsession : s.sessionToPlayer.lookup session with
  | none => exact reject_accounted h session _ _
  | some playerId =>
    simp only
    cases hget : s.tableManager.getPlayer playerId with
    | none => exact reject_accounted h session _ _
    | some player =>
      obtain ⟨hinv, hchips⟩ := h.topUp (getPlayer_mem hget).1
      have heffects : chipsOf [.toppedUp ((s.tableManager.heap player).topUp.stack
            - (s.tableManager.heap player).stack),
          .send session (.topUpAck playerId (s.tableManager.heap player).topUp.stack)]
          = (s.tableManager.heap player).topUp.stack - (s.tableManager.heap player).stack := by
        simp [chipsOf, Effect.chips]
      exact ⟨hinv, by rw [heffects]; exact hchips, fun _ _ => heffects⟩

/-! ### Messages -/

include h in
theorem dispatch_accounted (json : Json) (session : SessionId) (c : Choices) :
    Accounted (if asksTopUp json then s.topUpOf session else 0) s
      ((s.dispatch json session c).state, (s.dispatch json session c).effects) := by
  rcases dispatch_cases s json session c with ⟨hasks, heq⟩ | ⟨hasks, hrest⟩
  · rw [hasks, heq]
    exact handleTopUp_accounted h session
  · rw [hasks]
    rcases hrest with ⟨payload, -, heq⟩ | ⟨payload, -, heq⟩ | heq | ⟨e, heq⟩
    · exact heq ▸ handleJoin_accounted h payload session c
    · exact heq ▸ handleAction_accounted h payload session c
    · exact heq ▸ accounted_of_same h rfl rfl (Sends.single _ _)
    · exact heq ▸ stop_accounted h session e

/-- The top-up an event asks for. -/
def topUpBy (s : GameSession) : Event → ℤ
  | .message session (some json) _ => if asksTopUp json then s.topUpOf session else 0
  | _ => 0

include h in
theorem step_accounted (e : Event) : Accounted (s.topUpBy e) s (s.step e) := by
  cases e with
  | connect session playerId => exact sendWelcome_accounted h session playerId
  | message session text c =>
    cases text with
    | none =>
      have hrejected : Accounted 0 s (s, []) := accounted_of_same h rfl rfl Sends.nil
      show Accounted 0 s (caught ⟨s, [], some .json⟩ session)
      exact caught_accounted hrejected session
    | some json => exact caught_accounted (dispatch_accounted h json session c) session
  | disconnect session c => exact onDisconnect_accounted h session c
  | timerExpires i => exact accounted_of_same h rfl rfl Sends.nil
  | timerRuns i c =>
    simp only [step]
    split
    · exact accounted_of_same h rfl rfl Sends.nil
    · rename_i callback _
      obtain ⟨hinv, hchips, hstakes⟩ := onTimer_accounted
        (s := { s with connections := (s.connections.take i).2 }) h c callback
      exact ⟨hinv, hchips, hstakes⟩

/-! ### Runs -/

theorem run_inv (config : Config) (es : List Event) :
    TableInv Unfolded ((machine config).run es).tableManager ((machine config).run es).nextRef :=
  (machine config).invariant (I := fun s => TableInv Unfolded s.tableManager s.nextRef)
    TableInv.new (fun _ e h => (step_accounted h e).inv) es

def seatings (effects : List Effect) : ℤ :=
  effects.countP fun e => match e with
    | .seated _ => true
    | _ => false

def toppedUp (effects : List Effect) : ℤ :=
  (effects.map fun e => match e with
    | .toppedUp amount => amount
    | _ => 0).sum

theorem chipsOf_eq (effects : List Effect) :
    chipsOf effects = startingStack * seatings effects + toppedUp effects := by
  induction effects with
  | nil => rfl
  | cons e es ih =>
    cases e with
    | send => simpa [chipsOf, Effect.chips, seatings, toppedUp] using ih
    | seated =>
      simp only [chipsOf, Effect.chips, seatings, toppedUp, List.map_cons, List.sum_cons,
        List.countP_cons] at ih ⊢
      push_cast
      rw [ih]
      ring
    | toppedUp amount =>
      simp only [chipsOf, Effect.chips, seatings, toppedUp, List.map_cons, List.sum_cons,
        List.countP_cons] at ih ⊢
      push_cast
      rw [ih]
      ring

theorem tableChips_run (config : Config) (es : List Event) :
    tableChips ((machine config).run es).tableManager
      = startingStack * seatings ((machine config).trace es)
        + toppedUp ((machine config).trace es) := by
  have hbalance := (machine config).balance
    (I := fun s => TableInv Unfolded s.tableManager s.nextRef) TableInv.new
    (fun _ e h => (step_accounted h e).inv) (fun s => tableChips s.tableManager) Effect.chips
    (fun _ e h => (step_accounted h e).chips) es
  have hstart : tableChips (machine config).init.tableManager = 0 := rfl
  rw [← chipsOf_eq]
  refine hbalance.trans ?_
  rw [hstart, zero_add]
  rfl

/-- The stacks in the seats and the pot are what was brought and topped up, and
nobody owes chips. -/
theorem chips_accounted (config : Config) (es : List Event) :
    let s := (machine config).run es
    let effects := (machine config).trace es
    stackSum s.tableManager.heap (seated s.tableManager) + currentPot s.tableManager
        = startingStack * seatings effects + toppedUp effects ∧
      ∀ p ∈ seated s.tableManager, 0 ≤ (s.tableManager.heap p).stack := by
  intro s effects
  have hinv : TableInv Unfolded s.tableManager s.nextRef := run_inv config es
  refine ⟨?_, fun p hp => hinv.solvent p (hinv.seats.mem_iff.mp hp)⟩
  exact hinv.tableChips_seated.symm.trans (tableChips_run config es)

/-- Every amount stays within the total, so that `int` holds it as long as it
holds the total. -/
theorem amounts_le_total (config : Config) (es : List Event) :
    let s := (machine config).run es
    let effects := (machine config).trace es
    (∀ p ∈ seated s.tableManager, (s.tableManager.heap p).stack
        ≤ startingStack * seatings effects + toppedUp effects) ∧
      currentPot s.tableManager ≤ startingStack * seatings effects + toppedUp effects := by
  intro s effects
  have hinv : TableInv Unfolded s.tableManager s.nextRef := run_inv config es
  rw [← tableChips_run config es]
  exact ⟨fun p hp => hinv.amounts_le.1 p (hinv.seats.mem_iff.mp hp), hinv.amounts_le.2⟩

end GameSession
end HeadsUp.Server
