import HeadsUp.Client.Message
import HeadsUp.Client.RandomStrategy
import HeadsUp.Server.Accounting
import HeadsUp.Server.Sessions

/-!
# Requests and replies

The server asks the player on turn for one of three actions, the bot draws one
and the server judges it. The request offers a raise and a call whatever the
stack is.
-/

namespace HeadsUp.Game
open HeadsUp.Core HeadsUp.Common HeadsUp.Lib HeadsUp.Server HeadsUp.Server.GameSession

/-! ### What `handleAction` accepts -/

/-- The checks of `handleAction` on an action that has been read, passed by
this player. -/
def Allows (s : GameSession) (session : SessionId) (handId action : String) (amount : ℤ) (now : ℕ)
    (playerId : String) : Prop :=
  s.sessionToPlayer.lookup session = some playerId ∧
    (∃ hand, s.hand = some hand ∧ hand.id = handId) ∧
    (s.tableManager.processPlayerAction playerId action amount now).1 = true

def acted (s : GameSession) (playerId action : String) (amount : ℤ) (now : ℕ) : GameSession :=
  { s with tableManager := (s.tableManager.processPlayerAction playerId action amount now).2 }

/-- The server reads the bot's action as it was sent and accepts it. -/
def Accepts (s : GameSession) (session : SessionId) (handId action : String) (amount : ℤ)
    (c : Choices) : Prop :=
  actionFields (Client.Message.action handId action amount).payload c = .ok (handId, action, amount) ∧
    ∃ playerId, Allows s session handId action amount c.now playerId

theorem actionFields_payload {action : String}
    (haction : action = "fold" ∨ action = "call" ∨ action = "raise") {amount : ℤ} (hge : 0 ≤ amount)
    (hle : amount ≤ startingStack * 10) (handId : String) (c : Choices) :
    actionFields (Client.Message.action handId action amount).payload c
      = .ok (handId, action, amount) := by
  have hmax : startingStack * 10 = 4000 := by decide
  have hamount : (Json.ofInt amount).getInt c.undefInt = .ok amount :=
    Json.getInt_ofInt (by omega) (by omega) c.undefInt
  have hpayload : (Client.Message.action handId action amount).payload = .object
      [("hand_id", .string handId), ("action", .string action), ("amount", .ofInt amount)] := rfl
  have hknown : ¬(action ≠ "fold" ∧ action ≠ "call" ∧ action ≠ "raise") := by
    intro hh
    obtain ⟨hfold, hcall, hraise⟩ := hh
    exact haction.elim hfold (Or.elim · hcall hraise)
  rw [hpayload, actionFields]
  simp only [Json.contains, readString, readInt, Json.get, List.lookup_cons, beq_self_eq_true,
    String.reduceBEq, Option.isSome_some, Bool.not_true, Bool.or_self, Bool.false_eq_true, if_false,
    bind, Except.bind, Except.mapError, Json.getString, hamount, hknown]
  rw [if_neg (by omega), if_neg (by omega)]
  rfl

/-! ### Requests -/

/-- `s'` is the state in which `handleAction` sends the next request: an action
message has just been applied to `s`. -/
def Applied (s s' : GameSession) : Prop :=
  ∃ payload session c handId action amount playerId,
    actionFields payload c = .ok (handId, action, amount) ∧
      Allows s session handId action amount c.now playerId ∧ s' = acted s playerId action amount c.now

/-- The player can pay the call and the smallest raise. -/
def Affordable (s : GameSession) (hand : Hand) (p : PlayerRef) : Prop :=
  maxBet hand - betOf s.tableManager.heap hand (s.tableManager.heap p).id
      ≤ (s.tableManager.heap p).stack ∧
    hand.minRaise ≤ (s.tableManager.heap p).stack

/-- Whatever the bot draws, it answers without throwing and is accepted. -/
def RepliesAccepted (s : GameSession) (session : SessionId) (request : ActionRequest) : Prop :=
  ∀ (dice : Client.Dice) (c : Choices), ∃ action amount,
    Client.RandomStrategy.chooseAction dice request.possibleActions request.callAmount
        request.minRaise request.maxRaise = .ok (action, amount) ∧
      Accepts s session request.handId action amount c

theorem foldl_max_ge (l : List ℤ) (d : ℤ) : d ≤ l.foldl max d ∧ ∀ x ∈ l, x ≤ l.foldl max d := by
  induction l generalizing d with
  | nil => simp
  | cons y ys ih =>
    obtain ⟨hd, hys⟩ := ih (max d y)
    refine ⟨(le_max_left d y).trans hd, fun x hx => ?_⟩
    rcases List.mem_cons.mp hx with rfl | hx
    · exact (le_max_right d x).trans hd
    · exact hys x hx

theorem betOf_le_maxBet (heap : Heap) (hand : Hand) (playerId : String) :
    betOf heap hand playerId ≤ maxBet hand := by
  obtain ⟨hzero, hbets⟩ := foldl_max_ge
    ((List.range hand.players.length).map fun i => hand.playerBets.getD i 0) 0
  have hstep : ∀ (xs : List (PlayerRef × ℕ)) (bet : ℤ), bet ≤ maxBet hand →
      (∀ x ∈ xs, x.2 < hand.players.length) →
      xs.foldl (fun bet x =>
        if x.2 < hand.playerBets.length ∧ (heap x.1).id = playerId then hand.playerBets.getD x.2 0
        else bet) bet ≤ maxBet hand := by
    intro xs
    induction xs with
    | nil => exact fun bet hbet _ => hbet
    | cons x xs ih =>
      intro bet hbet hxs
      rw [List.foldl_cons]
      refine ih _ ?_ fun y hy => hxs y (by simp [hy])
      split_ifs
      · exact hbets _ (List.mem_map.mpr ⟨x.2, List.mem_range.mpr (hxs x (by simp)), rfl⟩)
      · exact hbet
  refine hstep _ 0 hzero fun x hx => ?_
  simpa using List.snd_lt_of_mem_zipIdx hx

/-! ### The player on turn -/

section OnTurn
variable {s : GameSession} (hinv : TableInv Contested s.tableManager s.nextRef) {hand : Hand}
  (hhand : s.hand = some hand) {p : PlayerRef} (hturn : hand.currentPlayerToAct = some p)
include hinv hhand hturn

theorem onTurn_mem : p ∈ s.tableManager.players := by
  obtain ⟨hplay, -⟩ := hinv.playing hand hhand
  obtain ⟨t, ht, hturn'⟩ := hplay.turn
  obtain rfl : t = p := Option.some.inj (hturn'.symm.trans hturn)
  exact hplay.mem t ht

theorem request_eq {session : SessionId} {request : ActionRequest}
    (hrequest : s.sendActionRequest (s.tableManager.heap p).id
      = [.send session (.actionRequest request)]) :
    s.playerSessions.lookup (s.tableManager.heap p).id = some session ∧ request = {
      handId := hand.id
      possibleActions := ["fold", "call", "raise"]
      callAmount := maxBet hand - betOf s.tableManager.heap hand (s.tableManager.heap p).id
      minRaise := hand.minRaise
      maxRaise := (s.tableManager.heap p).stack
      timeoutMs := actionTimeoutMs } := by
  have hcurrent : s.tableManager.table.currentHand = some hand := hhand
  have hget := hinv.getPlayer (onTurn_mem hinv hhand hturn)
  simp only [sendActionRequest, actionRequest, hcurrent, hget] at hrequest
  cases hsession : s.playerSessions.lookup (s.tableManager.heap p).id with
  | none => simp [hsession] at hrequest
  | some other =>
    simp only [hsession, List.cons.injEq, Effect.send.injEq, Message.actionRequest.injEq,
      and_true] at hrequest
    obtain ⟨rfl, hrequest⟩ := hrequest
    exact ⟨rfl, hrequest.symm⟩

theorem allows_iff (hcan : (s.tableManager.heap p).canAct = true) {session : SessionId}
    (hsession : s.sessionToPlayer.lookup session = some (s.tableManager.heap p).id)
    {action : String} {amount : ℤ} {now : ℕ} :
    (∃ playerId, Allows s session hand.id action amount now playerId) ↔
      action = "fold" ∧ amount = 0 ∨
      action = "call" ∧ 0 ≤ amount ∧ amount ≤ (s.tableManager.heap p).stack ∨
      action = "raise" ∧ 0 ≤ amount ∧ hand.minRaise ≤ amount ∧
        amount ≤ (s.tableManager.heap p).stack := by
  obtain ⟨hplay, hcon⟩ := hinv.playing hand hhand
  have hmem := onTurn_mem hinv hhand hturn
  have hcan' : PlayerAction.canAct s.tableManager.heap hand p = true :=
    PlayerAction.canAct_iff.mpr ⟨hcan, hcon.onTurn hplay hturn⟩
  have hvalid : PlayerAction.validateAction s.tableManager.heap hand p action amount = true ↔ _ :=
    PlayerAction.validateAction_iff
  constructor
  · intro hh
    obtain ⟨playerId, hplayer, -, hok⟩ := hh
    obtain rfl := Option.some.inj (hsession.symm.trans hplayer)
    obtain ⟨hand', p', hhand', hget, hok'⟩ := processPlayerAction_iff.mp hok
    obtain rfl : hand = hand' := Option.some.inj (hhand.symm.trans hhand')
    obtain rfl : p = p' := Option.some.inj ((hinv.getPlayer hmem).symm.trans hget)
    exact (hvalid.mp hok').2.2.2
  · intro hanswer
    exact ⟨_, hsession, ⟨hand, hhand, rfl⟩, processPlayerAction_iff.mpr ⟨hand, p, hhand,
      hinv.getPlayer hmem, hvalid.mpr ⟨hcan', hturn, hinv.solvent p hmem, hanswer⟩⟩⟩

end OnTurn

theorem Applied.inv {config : Config} {es : List Event} {s : GameSession}
    (h : Applied ((machine config).run es) s) : TableInv Contested s.tableManager s.nextRef := by
  obtain ⟨payload, session, c, handId, action, amount, playerId, -, ⟨-, -, hok⟩, rfl⟩ := h
  exact ((run_inv config es).processPlayerAction hok).1

/-- During a hand nobody holds more than a starting stack. -/
theorem stack_le_of_hand {Ok : Hand → Prop} {s : GameSession}
    (hinv : TableInv Ok s.tableManager s.nextRef) {hand : Hand} (hhand : s.hand = some hand)
    {p : PlayerRef} (hp : p ∈ s.tableManager.players) :
    (s.tableManager.heap p).stack ≤ startingStack := by
  have hcurrent : s.tableManager.table.currentHand = some hand := hhand
  exact hinv.shallow.resolve_right (by simp [hcurrent]) p hp

/-- Every reply to a request is legal exactly when the player on turn can pay
the call and the smallest raise. -/
theorem repliesAccepted_iff (config : Config) {es : List Event} (hfresh : FreshSessions es)
    {s : GameSession} (happlied : Applied ((machine config).run es) s) {hand : Hand}
    (hhand : s.hand = some hand) {p : PlayerRef} (hturn : hand.currentPlayerToAct = some p)
    (hcan : (s.tableManager.heap p).canAct = true) {session : SessionId} {request : ActionRequest}
    (hrequest : s.sendActionRequest (s.tableManager.heap p).id
      = [.send session (.actionRequest request)]) :
    RepliesAccepted s session request ↔ Affordable s hand p := by
  have hinv := happlied.inv
  obtain ⟨hplayer, rfl⟩ := request_eq hinv hhand hturn hrequest
  have hsession : s.sessionToPlayer.lookup session = some (s.tableManager.heap p).id := by
    obtain ⟨payload, from', c, handId, action, amount, playerId, -, -, rfl⟩ := happlied
    exact (run_registered config hfresh _ _ hplayer).1
  have hmem := onTurn_mem hinv hhand hturn
  have hsolvent := hinv.solvent p hmem
  have hstack := stack_le_of_hand hinv hhand hmem
  have hmin := (hinv.playing hand hhand).1.minRaise
  have hcall := betOf_le_maxBet s.tableManager.heap hand (s.tableManager.heap p).id
  have hmax : startingStack * 10 = 4000 ∧ startingStack = 400 := by decide
  constructor
  · intro hreplies
    -- one draw for each bound: a call, and a raise
    constructor
    · obtain ⟨action, amount, hchosen, -, hallows⟩ := hreplies (.facing 1) (.plain "")
      rw [Client.RandomStrategy.chooseAction_call] at hchosen
      obtain ⟨rfl, rfl⟩ := Prod.mk.inj (Except.ok.inj hchosen)
      have hanswer := (allows_iff hinv hhand hturn hcan hsession).mp hallows
      rcases hanswer with ⟨hno, -⟩ | ⟨-, -, hle⟩ | ⟨hno, -⟩
      · exact absurd hno (by decide)
      · exact hle
      · exact absurd hno (by decide)
    · by_contra hover
      obtain ⟨action, amount, hchosen, -⟩ := hreplies (.facing 2) (.plain "")
      rw [Client.RandomStrategy.chooseAction_raise, if_neg hover] at hchosen
      cases hchosen
  · intro hh dice c
    obtain ⟨hcovers, hraises⟩ := hh
    obtain ⟨action, amount, hchosen, hanswer⟩ := Client.RandomStrategy.chooseAction_ok hraises dice
      (maxBet hand - betOf s.tableManager.heap hand (s.tableManager.heap p).id)
    refine ⟨action, amount, hchosen, ?_⟩
    have hallowed : _ → ∃ playerId, Allows s session hand.id action amount c.now playerId :=
      (allows_iff hinv hhand hturn hcan hsession).mpr
    cases hanswer with
    | fold => exact ⟨actionFields_payload (by simp) (by omega) (by omega) _ c, hallowed (by simp)⟩
    | call =>
      exact ⟨actionFields_payload (by simp) (by omega) (by omega) _ c,
        hallowed (.inr (.inl ⟨rfl, by omega, hcovers⟩))⟩
    | raise hlo hhi =>
      exact ⟨actionFields_payload (by simp) (by omega) (by omega) _ c,
        hallowed (.inr (.inr ⟨rfl, by omega, hlo, hhi⟩))⟩

/-! ### Two requests -/

def tableAfter (es : List Event) (playerId action : String) (amount : ℤ) : GameSession :=
  acted ((machine ⟨30000, 60000⟩).run es) playerId action amount 0

theorem tableAfter_applied {es : List Event} {session : SessionId}
    {handId playerId action : String} {amount : ℤ}
    (haction : action = "fold" ∨ action = "call" ∨ action = "raise")
    (hge : 0 ≤ amount) (hle : amount ≤ startingStack * 10)
    (hallows : Allows ((machine ⟨30000, 60000⟩).run es) session handId action amount 0 playerId) :
    Applied ((machine ⟨30000, 60000⟩).run es) (tableAfter es playerId action amount) :=
  ⟨_, session, .plain "1", handId, action, amount, playerId,
    actionFields_payload haction hge hle _ _, hallows, rfl⟩

def checked : GameSession := tableAfter bothJoined "bob" "call" 0

def checkedHand : Hand := checked.hand.get (by decide +kernel)

theorem repliesAccepted_checked : RepliesAccepted checked 0 {
    handId := "hand_1"
    possibleActions := ["fold", "call", "raise"]
    callAmount := 0
    minRaise := 4
    maxRaise := 400
    timeoutMs := 30000 } := by
  have hfresh : FreshSessions bothJoined := by decide
  have hallows : Allows ((machine ⟨30000, 60000⟩).run bothJoined) 1 "hand_1" "call" 0 0 "bob" :=
    ⟨by decide +kernel, ⟨_, (Option.some_get (by decide +kernel)).symm, by decide +kernel⟩,
      by decide +kernel⟩
  have happlied : Applied ((machine ⟨30000, 60000⟩).run bothJoined) checked :=
    tableAfter_applied (by simp) (by decide) (by decide) hallows
  have hhand : checked.hand = some checkedHand := (Option.some_get _).symm
  have hturn : checkedHand.currentPlayerToAct = some 0 := by decide +kernel
  have hcan : (checked.tableManager.heap 0).canAct = true := by decide +kernel
  exact (repliesAccepted_iff _ hfresh happlied hhand hturn hcan (by decide +kernel)).mpr
    ⟨by decide +kernel, by decide +kernel⟩

def bobAllIn : List Event := bothJoined ++ [sent 1 (.action "hand_1" "raise" 400)]

def allIn : GameSession := tableAfter bobAllIn "alice" "call" 400

/-- Bob is offered a raise he has no chips for: drawing it throws. -/
theorem repliesAccepted_allIn :
    FreshSessions bobAllIn ∧ Applied ((machine ⟨30000, 60000⟩).run bobAllIn) allIn ∧
      (allIn.hand.bind Hand.currentPlayerToAct) = some 1 ∧
      (allIn.tableManager.heap 1).canAct = true ∧ ∃ request,
        allIn.sendActionRequest (allIn.tableManager.heap 1).id
          = [.send 1 (.actionRequest request)] ∧ ¬RepliesAccepted allIn 1 request := by
  have hallows : Allows ((machine ⟨30000, 60000⟩).run bobAllIn) 0 "hand_1" "call" 400 0 "alice" :=
    ⟨by decide +kernel, ⟨_, (Option.some_get (by decide +kernel)).symm, by decide +kernel⟩,
      by decide +kernel⟩
  refine ⟨by decide, tableAfter_applied (by simp) (by decide) (by decide) hallows,
    by decide +kernel, by decide +kernel, {
      handId := "hand_1"
      possibleActions := ["fold", "call", "raise"]
      callAmount := 0
      minRaise := 400
      maxRaise := 0
      timeoutMs := 30000 }, by decide +kernel, ?_⟩
  intro hreplies
  obtain ⟨action, amount, hchosen, -⟩ := hreplies (.facing 2) (.plain "1")
  cases hchosen

end HeadsUp.Game
