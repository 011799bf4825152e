import HeadsUp.Game.Replies
import HeadsUp.Game.Texts
import HeadsUp.Server.Completion
import HeadsUp.Server.Waiting

/-!
# The numbers stay small

No amount on the table or in a message exceeds the chips of the table, and an event
brings two stacks at the most. So the `int`s of the server do not overflow, and
the client reads the numbers that were sent, for as many events as it takes to
bring 2 ^ 31 chips.
-/

namespace HeadsUp.Game
open HeadsUp.Core HeadsUp.Common HeadsUp.Lib HeadsUp.Server HeadsUp.Server.GameSession
open HeadsUp.Server.TableManager (TableRep)

/-! ### The table -/

/-- The numbers in the table that are not chips, and the amounts of the history. -/
structure Modest (tm : TableManager) : Prop where
  dealer : 0 ≤ tm.table.dealerButtonPosition ∧ tm.table.dealerButtonPosition ≤ 1
  minRaise : ∀ hand, tm.table.currentHand = some hand → hand.minRaise ≤ max bigBlind hand.pot
  history : ∀ hand, tm.table.currentHand = some hand → ∀ entry ∈ hand.history,
    0 ≤ entry.amount ∧ entry.amount ≤ hand.pot

theorem Modest.congr {tm tm' : TableManager} (h : Modest tm) (htable : tm'.table = tm.table) :
    Modest tm' where
  dealer := htable ▸ h.dealer
  minRaise := htable ▸ h.minRaise
  history := htable ▸ h.history

theorem Modest.new (heap : Heap) : Modest { TableManager.new with heap } where
  dealer := (by decide : 0 ≤ defaultDealerPosition ∧ defaultDealerPosition ≤ 1)
  minRaise := by simp [TableManager.new]
  history := by simp [TableManager.new]

theorem dealer_rotates {dealer : ℤ} (h : 0 ≤ dealer ∧ dealer ≤ 1) :
    0 ≤ (dealer + 1).tmod (seat2 + 1) ∧ (dealer + 1).tmod (seat2 + 1) ≤ 1 := by
  obtain rfl | rfl : dealer = 0 ∨ dealer = 1 := by omega
  · decide
  · decide

/-- The pot takes in what is bet, and the minimum raise and the history follow. -/
theorem applied_modest {heap heap' : Heap} {hand hand' : Hand} {player : PlayerRef}
    {action : String} {amount : ℤ} {now : ℕ} (hpot : 0 ≤ hand.pot)
    (hmin : hand.minRaise ≤ max bigBlind hand.pot)
    (hhistory : ∀ entry ∈ hand.history, 0 ≤ entry.amount ∧ entry.amount ≤ hand.pot)
    (happly : PlayerAction.applyAction heap hand player action amount now = (true, heap', hand')) :
    hand'.minRaise ≤ max bigBlind hand'.pot ∧
      (∀ entry ∈ hand'.history, 0 ≤ entry.amount ∧ entry.amount ≤ hand'.pot) ∧
      0 ≤ amount ∧ amount ≤ hand'.pot := by
  obtain ⟨-, -, hact⟩ := PlayerAction.applyAction_cases happly
  rcases hact with ⟨-, rfl, -, rfl⟩ | ⟨-, hge, -, -, rfl⟩
  · refine ⟨hmin, fun entry hentry => ?_, le_refl 0, hpot⟩
    rcases List.mem_append.mp hentry with hold | hnew
    · exact hhistory entry hold
    · obtain rfl := List.mem_singleton.mp hnew
      exact ⟨le_refl 0, hpot⟩
  · have hpot' : (recordAction (PlayerAction.placeBet heap hand player action amount).2 player
        action amount now).pot = hand.pot + amount := rfl
    have hmin' : (recordAction (PlayerAction.placeBet heap hand player action amount).2 player
        action amount now).minRaise = if action = "raise" then amount else hand.minRaise := rfl
    rw [hpot', hmin']
    refine ⟨by split_ifs <;> omega, fun entry hentry => ?_, hge, by omega⟩
    rcases List.mem_append.mp hentry with hold | hnew
    · have hbound := hhistory entry hold
      omega
    · obtain rfl := List.mem_singleton.mp hnew
      simp only
      omega

theorem Modest.does {tm tm' : TableManager} (h : Modest tm) (hrep : TableRep tm) {op : TableOp}
    {outs : List TableOut} (hdoes : TableManager.Does tm op tm' outs) : Modest tm' := by
  cases hdoes with
  | fails => exact h
  | idle => exact h
  | seats hids hothers hself hseat =>
    rcases hseat with ⟨-, -, rfl⟩ | ⟨-, -, rfl⟩ <;> exact ⟨h.dealer, h.minRaise, h.history⟩
  | removes hget htable =>
    rcases htable with ⟨-, rfl⟩ | ⟨-, -, rfl⟩ | ⟨-, -, rfl⟩ <;>
      exact ⟨h.dealer, h.minRaise, h.history⟩
  | starts =>
    refine ⟨h.dealer, ?_, ?_⟩ <;> rintro _ ⟨⟩
    · exact le_max_left _ _
    · simp [firstHand]
  | @acts _ _ _ _ hand hand' _ _ hhand hget happly =>
    obtain ⟨hmin, hhistory, -⟩ := applied_modest (hrep.hand hand hhand).playing.pot
      (h.minRaise hand hhand) (h.history hand hhand) happly
    refine ⟨h.dealer, ?_, ?_⟩ <;> rintro _ ⟨⟩
    · exact hmin
    · exact hhistory
  | ends =>
    refine ⟨dealer_rotates h.dealer, ?_, ?_⟩ <;> rintro _ ⟨⟩

theorem Modest.operates {tm : TableManager} (h : Modest tm) (hrep : TableRep tm) (op : TableOp) :
    Modest (tm.stepOp op).1 := h.does hrep (TableManager.step_does tm op)

theorem Modest.startHand {tm : TableManager} (h : Modest tm) (hrep : TableRep tm) (uuid : String)
    (constructed shuffled : Shuffle Card) :
    Modest (tm.startHand uuid constructed shuffled).2.1 := by
  have hstep := h.operates hrep (.startHand uuid constructed shuffled)
  simp only [TableManager.stepOp] at hstep
  split at hstep <;> exact hstep

theorem Modest.endHand {tm : TableManager} (h : Modest tm) (hrep : TableRep tm)
    (tables : MapOrder) : Modest (tm.endHand tables).1 := by
  have hstep := h.operates hrep (.endHand tables)
  simp only [TableManager.stepOp] at hstep
  split at hstep <;> exact hstep

/-! ### Messages -/

/-- The amounts and the seats in a message. -/
def numbers : Server.Message → List ℤ
  | .joinAck _ seat => [seat]
  | .handStarted payload =>
    [payload.smallBlind, payload.bigBlind, payload.dealerPosition, payload.minRaise] ++
      payload.players.map DealtPlayer.stack
  | .actionRequest payload => [payload.callAmount, payload.minRaise, payload.maxRaise]
  | .actionApplied payload => [payload.amount, payload.newStack, payload.pot]
  | .handCompleted payload =>
    payload.winners.map Prod.snd ++ payload.updatedStacks.map Prod.snd
  | .playerRemoved _ seat => [seat]
  | .topUpAck _ newStack => [newStack]
  | _ => []

def Small (b : ℤ) (l : List ℤ) : Prop := ∀ x ∈ l, 0 ≤ x ∧ x ≤ b

/-- Every number sent is small. -/
def Told (b : ℤ) (effects : List Effect) : Prop :=
  ∀ session message, .send session message ∈ effects → Small b (numbers message)

section Told
variable {b b' : ℤ} {effects effects' : List Effect}

theorem Small.mono {l : List ℤ} (h : Small b l) (hle : b ≤ b') : Small b' l :=
  fun x hx => ⟨(h x hx).1, (h x hx).2.trans hle⟩

theorem Told.mono (h : Told b effects) (hle : b ≤ b') : Told b' effects :=
  fun session message hmem => (h session message hmem).mono hle

theorem Told.append (h : Told b effects) (h' : Told b effects') : Told b (effects ++ effects') := by
  intro session message hmem
  rcases List.mem_append.mp hmem with hmem | hmem
  · exact h session message hmem
  · exact h' session message hmem

theorem told_nil : Told b [] := by simp [Told]

theorem told_send {session : SessionId} {message : Server.Message}
    (h : Small b (numbers message)) : Told b [.send session message] := by
  intro other message' hmem
  obtain ⟨-, rfl⟩ := Effect.send.inj (List.mem_singleton.mp hmem)
  exact h

theorem told_silent {e : Effect} (h : ∀ session message, e ≠ .send session message) :
    Told b [e] := by
  intro session message hmem
  exact absurd (List.mem_singleton.mp hmem).symm (h session message)

theorem told_broadcast {message : Server.Message} (h : Small b (numbers message))
    (s : GameSession) (c : Choices) : Told b (s.broadcastJson c message) := by
  intro session message' hmem
  obtain ⟨entry, -, heq⟩ := (mem_broadcastJson c message _).mp hmem
  obtain ⟨-, rfl⟩ := Effect.send.inj heq
  exact h

end Told

/-! ### What a state tells -/

/-- The chips of the table are at most `b`. -/
structure Within (Ok : Hand → Prop) (b : ℤ) (s : GameSession) : Prop where
  inv : TableInv Ok s.tableManager s.nextRef
  rep : TableRep s.tableManager
  modest : Modest s.tableManager
  chips : tableChips s.tableManager ≤ b
  blind : bigBlind ≤ b

namespace Within
variable {Ok : Hand → Prop} {b : ℤ} {s : GameSession} (h : Within Ok b s) {hand : Hand}
  {p : PlayerRef}
include h

theorem stack (hp : p ∈ s.tableManager.players) :
    0 ≤ (s.tableManager.heap p).stack ∧ (s.tableManager.heap p).stack ≤ b :=
  ⟨h.inv.solvent p hp, (h.inv.amounts_le.1 p hp).trans h.chips⟩

theorem seat (hp : p ∈ s.tableManager.players) :
    0 ≤ (s.tableManager.heap p).seat ∧ (s.tableManager.heap p).seat ≤ b := by
  have hblind := h.blind
  have hvalues : seat1 = 0 ∧ seat2 = 1 ∧ bigBlind = 4 := by decide
  rcases h.rep.inSeat p hp with ⟨hseat, -⟩ | ⟨hseat, -⟩ <;> omega

variable (hhand : s.tableManager.table.currentHand = some hand)
include hhand

theorem pot : 0 ≤ hand.pot ∧ hand.pot ≤ b := by
  have hle := h.inv.amounts_le.2.trans h.chips
  rw [currentPot, hhand] at hle
  exact ⟨(h.inv.playing hand hhand).1.pot, hle⟩

theorem minRaise : 0 ≤ hand.minRaise ∧ hand.minRaise ≤ b := by
  have hle := h.modest.minRaise hand hhand
  have hpot := h.pot hhand
  have hblind := h.blind
  exact ⟨(h.inv.playing hand hhand).1.minRaise, by omega⟩

theorem bet (i : ℕ) : 0 ≤ hand.playerBets.getD i 0 ∧ hand.playerBets.getD i 0 ≤ hand.pot := by
  have hpot := h.pot hhand
  rw [List.getD_eq_getElem?_getD]
  cases hi : hand.playerBets[i]? with
  | none => exact ⟨le_refl 0, hpot.1⟩
  | some x => exact (h.inv.playing hand hhand).1.bets x (List.mem_of_getElem? hi)

/-- What is to call lies between nothing and the pot. -/
theorem callAmount (playerId : String) :
    0 ≤ maxBet hand - betOf s.tableManager.heap hand playerId ∧
      maxBet hand - betOf s.tableManager.heap hand playerId ≤ b := by
  have hpot := h.pot hhand
  have hle := betOf_le_maxBet s.tableManager.heap hand playerId
  have hmax : maxBet hand ≤ hand.pot := by
    refine List.foldlRecOn (motive := fun best => best ≤ hand.pot) _ _ hpot.1
      fun best hbest x hx => ?_
    obtain ⟨i, -, rfl⟩ := List.mem_map.mp hx
    exact max_le hbest (h.bet hhand i).2
  have hbet : 0 ≤ betOf s.tableManager.heap hand playerId := by
    refine List.foldlRecOn _ _ (le_refl 0) fun bet hbet x _ => ?_
    split_ifs
    · exact (h.bet hhand x.2).1
    · exact hbet
  omega

end Within

section Tells
variable {Ok : Hand → Prop} {b : ℤ} {s : GameSession} (h : Within Ok b s) (c : Choices)
include h

theorem broadcastHandStarted_told : Told b (s.broadcastHandStarted c) := by
  unfold broadcastHandStarted
  split
  · exact told_nil
  · rename_i hand hhand
    have hblind := h.blind
    have hdealer := h.modest.dealer
    have hmin := h.minRaise hhand
    have hvalues : Core.smallBlind = 2 ∧ bigBlind = 4 := by decide
    refine told_broadcast (fun x hx => ?_) s c
    rcases List.mem_append.mp hx with hx | hx
    · simp only [List.mem_cons, List.not_mem_nil, or_false] at hx
      omega
    · obtain ⟨dealt, hdealt, rfl⟩ := List.mem_map.mp hx
      obtain ⟨p, hp, rfl⟩ := List.mem_map.mp hdealt
      exact h.stack ((h.inv.playing hand hhand).1.mem p hp)

theorem sendActionRequest_told (playerId : String) : Told b (s.sendActionRequest playerId) := by
  unfold sendActionRequest actionRequest
  cases hhand : s.tableManager.table.currentHand with
  | none => exact told_nil
  | some hand =>
    cases hget : s.tableManager.getPlayer playerId with
    | none => exact told_nil
    | some player =>
      cases s.playerSessions.lookup playerId with
      | none => exact told_nil
      | some session =>
        have hcall := h.callAmount hhand playerId
        have hmin := h.minRaise hhand
        have hstack := h.stack (getPlayer_mem hget).1
        refine told_send fun x hx => ?_
        simp only [numbers, List.mem_cons, List.not_mem_nil, or_false] at hx
        rcases hx with rfl | rfl | rfl
        · exact hcall
        · exact hmin
        · exact hstack

theorem broadcastActionApplied_told (playerId action : String) {amount : ℤ}
    (hamount : 0 ≤ amount ∧ amount ≤ b) :
    Told b (s.broadcastActionApplied c playerId action amount) := by
  unfold broadcastActionApplied
  split
  · rename_i hand player hhand hget
    refine told_broadcast (fun x hx => ?_) s c
    simp only [numbers, List.mem_cons, List.not_mem_nil, or_false] at hx
    rcases hx with rfl | rfl | rfl
    · exact hamount
    · exact h.stack (getPlayer_mem hget).1
    · exact h.pot hhand
  · exact told_nil

theorem completed_told {hand : Hand} (hhand : s.tableManager.table.currentHand = some hand)
    (p : PlayerRef) :
    Told b (s.broadcastJson c (.handCompleted (s.completedPayload hand [p]))) := by
  have hplay := (h.inv.playing hand hhand).1
  have hpot := h.pot hhand
  refine told_broadcast (fun x hx => ?_) s c
  rcases List.mem_append.mp hx with hx | hx
  · rw [completedPayload_winners hplay] at hx
    split_ifs at hx
    · simp at hx
    · obtain rfl := List.mem_singleton.mp hx
      exact hpot
  · obtain ⟨pair, hpair, rfl⟩ := List.mem_map.mp hx
    obtain ⟨q, hq, rfl⟩ := List.mem_map.mp hpair
    exact h.stack (hplay.mem q hq)

theorem broadcastPlayerRemoved_told (playerId : String) :
    Told b (s.broadcastPlayerRemoved c playerId) := by
  unfold broadcastPlayerRemoved
  split
  · exact told_nil
  · rename_i player hget
    refine told_broadcast (fun x hx => ?_) s c
    obtain rfl := List.mem_singleton.mp hx
    exact h.seat (getPlayer_mem hget).1

end Tells

/-! ### What an event brings -/

/-- The step tells small numbers and brings two stacks at the most. -/
structure Handled (b : ℤ) (r : GameSession × List Effect) : Prop where
  modest : Modest r.1.tableManager
  told : Told (b + 800) r.2
  brings : chipsOf r.2 ≤ 800

section Handled
variable {b : ℤ} {s : GameSession} {session : SessionId} {c : Choices}

theorem handled_of_sends {r : GameSession × List Effect} (hmodest : Modest r.1.tableManager)
    (htold : Told b r.2) (hsends : Sends r.2) : Handled b r where
  modest := hmodest
  told := htold.mono (by omega)
  brings := by
    rw [hsends.chips]
    omega

theorem reject_handled (h : Modest s.tableManager) (session : SessionId) (code message : String) :
    Handled b ((s.reject session code message).state, (s.reject session code message).effects) :=
  handled_of_sends h (told_send (by simp [numbers, Small])) (Sends.single _ _)

theorem stop_handled (h : Modest s.tableManager) (session : SessionId) (e : Stop) :
    Handled b ((s.stop session e).state, (s.stop session e).effects) := by
  cases e with
  | reply code message => exact reject_handled h session code message
  | throw e => exact handled_of_sends h told_nil Sends.nil

/-- An error message has no numbers. -/
theorem caught_handled {outcome : Outcome} (h : Handled b (outcome.state, outcome.effects))
    (session : SessionId) : Handled b (caught outcome session) := by
  have herror : ∀ code message,
      Handled b (outcome.state, outcome.effects ++ [.send session (.error code message)]) := by
    intro code message
    refine ⟨h.modest, h.told.append (told_send (by simp [numbers, Small])), ?_⟩
    rw [chipsOf_append, (Sends.single _ _).chips, add_zero]
    exact h.brings
  unfold caught
  split
  · exact h
  · exact herror _ _
  · exact herror _ _

/-! ### Top-ups -/

theorem topUp_brings {p : Player} (h : 0 ≤ p.stack) : p.topUp.stack - p.stack ≤ 400 := by
  unfold Player.topUp
  have htarget : targetStack = 400 := rfl
  split_ifs
  · simp only
    omega
  · omega

theorem topUpAll_brings {heap : Heap} {players : List PlayerRef}
    (h : ∀ p ∈ players, 0 ≤ (heap p).stack) :
    (topUpAll heap players).2 ≤ 400 * players.length := by
  induction players generalizing heap with
  | nil => exact le_refl 0
  | cons p rest ih =>
    have hrest : ∀ q ∈ rest, 0 ≤ (Function.update heap p (heap p).topUp q).stack := by
      intro q hq
      obtain ⟨won, hwon, hge⟩ := topUp_credited heap p
      rw [hwon, credit_stack]
      exact add_nonneg (h q (by simp [hq])) (hge q)
    have hfirst := topUp_brings (h p (by simp))
    have hmore := ih hrest
    rw [topUpAll, List.length_cons]
    push_cast
    omega

theorem players_le_two {Ok : Hand → Prop} {tm : TableManager} {nextRef : PlayerRef}
    (h : TableInv Ok tm nextRef) : tm.players.length ≤ 2 := by
  rw [← h.seats.length_eq, seated, List.length_append]
  cases tm.table.seat1 <;> cases tm.table.seat2 <;> simp

/-- The end of a hand brings what the two players are topped up by. -/
theorem endHand_brings {tm : TableManager} {nextRef : PlayerRef}
    (h : TableInv Contested tm nextRef) {hand : Hand} (hhand : tm.table.currentHand = some hand)
    (hfew : (activePlayers hand).length ≤ 1) (σ : MapOrder) : (tm.endHand σ).2.1 ≤ 800 := by
  obtain ⟨hplay, hcon⟩ := h.playing hand hhand
  obtain ⟨p, hp, hone⟩ := hcon.single hplay hfew
  have hwin : Poker.determineWinners σ tm.heap hand = .ok [p] := determineWinners_of_single hone
  have hsides : ∀ pot ∈ hand.sidePots, 0 ≤ pot.amount := by simp [hplay.sidePots]
  obtain ⟨won, hheap, hge⟩ := @distributePot_credited { hand with winners := [p] } [p] hplay.pot
    hsides tm.heap
  have hlen := players_le_two h
  have hbrings : (topUpAll (Pot.distributePot tm.heap { hand with winners := [p] } [p]).1
      tm.players).2 ≤ 400 * tm.players.length := by
    refine topUpAll_brings fun q hq => ?_
    rw [hheap, credit_stack]
    exact add_nonneg (h.solvent q hq) (hge q)
  simp only [TableManager.endHand, hhand, hwin]
  omega

/-! ### Actions -/

theorem afterAction_handled (h : Within Contested b s) {hand : Hand}
    (hhand : s.tableManager.table.currentHand = some hand) (c : Choices) {applied : List Effect}
    (htold : Told b applied) (hsends : Sends applied) :
    Handled b ((s.afterAction c applied).state, (s.afterAction c applied).effects) := by
  obtain ⟨hplay, hcon⟩ := h.inv.playing hand hhand
  obtain ⟨turn, -, hturn⟩ := hplay.turn
  have htold' := htold.append (sendActionRequest_told h (s.tableManager.heap turn).id)
  have hsends' := hsends.append (sendActionRequest_sends s (s.tableManager.heap turn).id)
  unfold afterAction
  simp only [hhand, hturn, isHandComplete_playing hplay]
  by_cases hfew : (activePlayers hand).length ≤ 1
  · obtain ⟨p, -, hone⟩ := hcon.single hplay hfew
    have hcompleted := broadcastHandCompleted_eq hplay hhand hone c
    have hsends'' := (hsends'.append
      (broadcastJson_sends s c (.handCompleted (s.completedPayload hand [p])))).chips
    have hbrings := endHand_brings h.inv hhand hfew c.tables
    simp only [hfew, hcompleted, decide_true, Bool.not_true, Bool.false_eq_true, if_false]
    refine ⟨h.modest.endHand h.rep c.tables, ?_, ?_⟩
    · have htold'' := (htold'.append (completed_told h c hhand p)).append
        (told_silent (e := .toppedUp (s.tableManager.endHand c.tables).2.1) (by simp))
      exact htold''.mono (by omega)
    · rw [chipsOf_append, hsends'', zero_add]
      simpa [chipsOf, Effect.chips] using hbrings
  · simp only [hfew, decide_false, Bool.not_false, if_true]
    exact handled_of_sends h.modest htold' hsends'

theorem performAction_handled (h : Within Unfolded b s) (handId action : String) (amount : ℤ)
    (session : SessionId) (c : Choices) :
    Handled b ((s.performAction handId action amount session c).state,
      (s.performAction handId action amount session c).effects) := by
  unfold performAction
  split
  · exact reject_handled h.modest session _ _
  · rename_i playerId _
    cases hhand : s.tableManager.table.currentHand with
    | none => exact reject_handled h.modest session _ _
    | some hand =>
      simp only
      split
      · exact reject_handled h.modest session _ _
      · rcases processPlayerAction_cases s.tableManager playerId action amount c.now with
          hno | ⟨hand₁, player, heap, hand', hhand₁, hget, happly, hyes⟩
        · simp only [hno, Bool.not_false, if_true]
          exact reject_handled h.modest session _ _
        · obtain rfl := Option.some.inj (hhand.symm.trans hhand₁)
          obtain ⟨hinv, -, hchips⟩ := h.inv.processPlayerAction (by rw [hyes])
          have hrep := h.rep.operates (.processPlayerAction playerId action amount c.now)
          have hmodest := h.modest.operates h.rep
            (.processPlayerAction playerId action amount c.now)
          obtain ⟨-, -, hge, hle⟩ := applied_modest (h.pot hhand).1
            (h.modest.minRaise hand hhand) (h.modest.history hand hhand) happly
          simp only [TableManager.stepOp, hyes] at hinv hchips hrep hmodest
          simp only [hyes, Bool.not_true, Bool.false_eq_true, if_false]
          have hafter : Within Contested b { s with tableManager := { s.tableManager with
              heap := heap
              table := { s.tableManager.table with
                currentHand := some hand'
                pot := hand'.pot } } } :=
            ⟨hinv, hrep, hmodest, hchips.trans_le h.chips, h.blind⟩
          have hpot := (hafter.pot rfl).2
          exact afterAction_handled hafter rfl c
            (broadcastActionApplied_told hafter c playerId action ⟨hge, hle.trans hpot⟩)
            (broadcastActionApplied_sends _ c playerId action amount)

theorem handleAction_handled (h : Within Unfolded b s) (payload : Json) (session : SessionId)
    (c : Choices) : Handled b ((s.handleAction payload session c).state,
      (s.handleAction payload session c).effects) := by
  unfold handleAction
  split
  · exact stop_handled h.modest session _
  · exact performAction_handled h _ _ _ session c

/-! ### Joins -/

theorem startWhenReady_within (h : Within Unfolded b s) (hnone : s.hand = none)
    (hfew : ∀ p ∈ s.tableManager.players, (s.tableManager.heap p).stack ≤ startingStack)
    (c : Choices) (acked : List Effect) : Within Unfolded b (s.startWhenReady c acked).state := by
  obtain ⟨hinv, hchips, -⟩ := startWhenReady_accounted h.inv hnone hfew c acked
  refine ⟨hinv, startWhenReady_tableRep h.rep c acked, ?_, hchips.trans_le h.chips, h.blind⟩
  have hstarted := h.modest.startHand h.rep c.uuid c.constructed c.shuffled
  unfold startWhenReady
  split
  · exact h.modest
  · simp only
    split
    · exact hstarted
    · split <;> exact hstarted

theorem startWhenReady_told (h : Within Unfolded b s) (hnone : s.hand = none)
    (hfew : ∀ p ∈ s.tableManager.players, (s.tableManager.heap p).stack ≤ startingStack)
    (c : Choices) {acked : List Effect} (htold : Told b acked) :
    Told b (s.startWhenReady c acked).effects := by
  have hwithin := startWhenReady_within h hnone hfew c acked
  unfold startWhenReady at hwithin ⊢
  split
  · exact htold
  · rename_i hready
    rw [if_neg hready] at hwithin
    simp only at hwithin ⊢
    split
    · exact htold
    · rename_i hok
      rw [hok] at hwithin
      simp only at hwithin
      split
      · rename_i hstarted
        rw [if_pos hstarted] at hwithin
        exact htold.append (broadcastHandStarted_told hwithin c)
      · exact htold

theorem seatNewPlayer_handled (h : Within Unfolded b s) (playerId name : String) {seat : ℤ}
    (hseat : seat = seat1 ∨ seat = seat2) (session : SessionId) (c : Choices) :
    Handled b ((s.seatNewPlayer playerId name seat session c).state,
      (s.seatNewPlayer playerId name seat session c).effects) := by
  set created := s.updatePlayer s.nextRef fun _ => newPlayer playerId name seat with hcreated
  have hold : ∀ p ∈ s.tableManager.players,
      created.tableManager.heap p = s.tableManager.heap p := fun p hp =>
    Function.update_of_ne (h.inv.fresh p hp).ne ..
  obtain ⟨hinv, hsame⟩ : TableInv Unfolded created.tableManager s.nextRef ∧
      tableChips created.tableManager = tableChips s.tableManager :=
    h.inv.congr_heap _ (le_refl s.nextRef) fun p hp => by rw [← hold p hp]; exact ⟨rfl, rfl⟩
  have hrep : TableRep created.tableManager :=
    h.rep.congr_heap fun p hp => by rw [← hold p hp]; exact ⟨rfl, rfl⟩
  have hmodest : Modest created.tableManager := h.modest.congr rfl
  have hstack : (created.tableManager.heap s.nextRef).stack = startingStack := by
    simp [hcreated, updatePlayer, newPlayer]
  unfold seatNewPlayer
  simp only [← hcreated]
  split
  · exact reject_handled h.modest session _ _
  · rename_i hok
    obtain ⟨-, hinv', hnone, hfew, hchips⟩ := TableInv.assignSeat hinv hstack (by simpa using hok)
    have hblind := h.blind
    have hchips' := h.chips
    have hvalues : startingStack = 400 ∧ seat1 = 0 ∧ seat2 = 1 ∧ bigBlind = 4 := by decide
    have hmore : tableChips (created.tableManager.assignSeat s.nextRef seat).2 ≤ b + 400 := by omega
    set seated : GameSession := { s with
      tableManager := (created.tableManager.assignSeat s.nextRef seat).2
      nextRef := s.nextRef + 1 }
    have hwithin : Within Unfolded (b + 400) seated :=
      ⟨hinv', hrep.operates (.assignSeat s.nextRef seat),
        hmodest.operates hrep (.assignSeat s.nextRef seat), hmore, by omega⟩
    have hacked : Told (b + 400) [.seated s.nextRef, .send session (.joinAck playerId seat)] := by
      refine (told_silent (e := .seated s.nextRef) (by simp)).append (told_send fun x hx => ?_)
      obtain rfl := List.mem_singleton.mp hx
      rcases hseat with rfl | rfl <;> omega
    obtain ⟨-, -, hbrings⟩ := startWhenReady_accounted hwithin.inv hnone hfew c
      [.seated s.nextRef, .send session (.joinAck playerId seat)]
    have hseated : chipsOf [.seated s.nextRef, .send session (.joinAck playerId seat)]
        = startingStack := rfl
    refine ⟨(startWhenReady_within hwithin hnone hfew c _).modest,
      (startWhenReady_told hwithin hnone hfew c hacked).mono (by omega), ?_⟩
    simp only
    omega

theorem joinAsNew_handled (h : Within Unfolded b s) (name : String) (session : SessionId)
    (c : Choices) : Handled b ((s.joinAsNew name session c).state,
      (s.joinAsNew name session c).effects) := by
  unfold joinAsNew
  split
  · exact reject_handled h.modest session _ _
  · split
    · rename_i existing hget
      refine handled_of_sends h.modest (told_send fun x hx => ?_) (Sends.single _ _)
      obtain rfl := List.mem_singleton.mp hx
      exact h.seat (getPlayer_mem hget).1
    · split
      · exact seatNewPlayer_handled h _ _ (.inl rfl) session c
      · split
        · exact seatNewPlayer_handled h _ _ (.inr rfl) session c
        · exact reject_handled h.modest session _ _

theorem reconnected_handled (h : Within Unfolded b s) {player : PlayerRef}
    (hplayer : player ∈ s.tableManager.players) (playerId : String) (session : SessionId)
    (c : Choices) : Handled b ((reconnect.reconnected s player playerId session c).state,
      (reconnect.reconnected s player playerId session c).effects) := by
  obtain ⟨htable, -⟩ := moveSession_tableManager s playerId session
  have hseat := h.seat hplayer
  refine handled_of_sends ?_ ?_ ((broadcastJson_sends _ c _).append (Sends.single _ _))
  · refine h.modest.congr ?_
    show (s.moveSession playerId session).tableManager.table = _
    rw [htable]
  · refine (told_broadcast (by simp [numbers, Small]) _ c).append (told_send fun x hx => ?_)
    obtain rfl := List.mem_singleton.mp hx
    simpa [PlayerStateManager.onReconnect, updatePlayer, htable] using hseat

theorem handleJoin_handled (h : Within Unfolded b s) (payload : Json) (session : SessionId)
    (c : Choices) : Handled b ((s.handleJoin payload session c).state,
      (s.handleJoin payload session c).effects) := by
  unfold handleJoin
  split
  · exact stop_handled h.modest session _
  · rename_i name provided _
    split
    · rename_i player habsent
      have hplayer := (getPlayer_mem (absentPlayer_eq_some.mp habsent).2.1).1
      have hmoved := reconnected_handled h hplayer provided session c
      unfold reconnect
      split
      · split
        · exact reject_handled h.modest session _ _
        · exact hmoved
      · exact hmoved
    · exact joinAsNew_handled h _ session c

/-! ### Steps -/

theorem handleTopUp_handled (h : Within Unfolded b s) (session : SessionId) :
    Handled b ((s.handleTopUp session).state, (s.handleTopUp session).effects) := by
  unfold handleTopUp
  split
  · exact reject_handled h.modest session _ _
  · split
    · exact reject_handled h.modest session _ _
    · rename_i playerId _ _ player hget
      have hstack := h.stack (getPlayer_mem hget).1
      have hbrings := topUp_brings hstack.1
      have hge := topUp_stack_ge (s.tableManager.heap player)
      refine ⟨h.modest.congr rfl, ?_, ?_⟩
      · refine (told_silent (e := .toppedUp _) (by simp)).append (told_send fun x hx => ?_)
        obtain rfl := List.mem_singleton.mp hx
        omega
      · simp only [chipsOf, Effect.chips, List.map_cons, List.map_nil, List.sum_cons, List.sum_nil]
        omega

theorem dispatch_handled (h : Within Unfolded b s) (json : Json) (session : SessionId)
    (c : Choices) : Handled b ((s.dispatch json session c).state,
      (s.dispatch json session c).effects) := by
  rcases dispatch_cases s json session c with
    ⟨-, heq⟩ | ⟨-, ⟨payload, -, heq⟩ | ⟨payload, -, heq⟩ | heq | ⟨e, heq⟩⟩
  · exact heq ▸ handleTopUp_handled h session
  · exact heq ▸ handleJoin_handled h payload session c
  · exact heq ▸ handleAction_handled h payload session c
  · exact heq ▸ handled_of_sends h.modest (told_send (by simp [numbers, Small])) (Sends.single _ _)
  · exact heq ▸ stop_handled h.modest session e

theorem step_handled (h : Within Unfolded b s) (e : Event) : Handled b (s.step e) := by
  have hquiet : ∀ s' : GameSession, s'.tableManager.table = s.tableManager.table →
      Handled b (s', []) := fun s' htable =>
    handled_of_sends (h.modest.congr htable) told_nil Sends.nil
  cases e with
  | connect session playerId =>
    exact handled_of_sends h.modest (told_send (by simp [numbers, Small])) (Sends.single _ _)
  | message session text c =>
    cases text with
    | none => exact @caught_handled b ⟨s, [], some .json⟩ (hquiet s rfl) session
    | some json => exact caught_handled (dispatch_handled h json session c) session
  | disconnect session c =>
    simp only [step, onDisconnect]
    split
    · exact hquiet s rfl
    · rename_i playerId _
      have hremoved := (removeSession_tableManager s playerId).1
      split
      · exact hquiet _ (by rw [hremoved])
      · refine handled_of_sends (h.modest.congr ?_)
          (told_broadcast (by simp [numbers, Small]) _ c) (broadcastJson_sends _ c _)
        simp only [PlayerStateManager.onDisconnect, updatePlayer, hremoved]
  | timerExpires i => exact hquiet _ rfl
  | timerRuns i c =>
    simp only [step]
    split
    · exact hquiet _ rfl
    · rename_i callback _
      cases callback with
      | graceTimerExpired playerId =>
        refine hquiet _ ?_
        simp only [PlayerStateManager.onGraceTimerExpired]
        split <;> rfl
      | playerRemoved playerId =>
        have hwithin : Within Unfolded b { s with connections := (s.connections.take i).2 } :=
          ⟨h.inv, h.rep, h.modest, h.chips, h.blind⟩
        exact handled_of_sends h.modest (broadcastPlayerRemoved_told hwithin c playerId)
          (broadcastPlayerRemoved_sends _ c playerId)

end Handled

/-! ### Runs -/

/-- The amounts and the seats in the state of the server. -/
def tableNumbers (s : GameSession) : List ℤ :=
  s.tableManager.table.pot :: s.tableManager.table.dealerButtonPosition ::
    (s.tableManager.players.flatMap fun p =>
      [(s.tableManager.heap p).stack, (s.tableManager.heap p).seat]) ++
    match s.tableManager.table.currentHand with
    | none => []
    | some hand => hand.pot :: hand.minRaise ::
        (hand.playerBets ++ hand.history.map ActionHistory.amount)

theorem Within.tableNumbers {Ok : Hand → Prop} {b : ℤ} {s : GameSession} (h : Within Ok b s) :
    Small b (tableNumbers s) := by
  have hblind := h.blind
  have hdealer := h.modest.dealer
  have hfour : bigBlind = 4 := rfl
  have hpot : s.tableManager.table.pot = currentPot s.tableManager := h.rep.pot
  have hcurrent := h.inv.pot_nonneg
  have hle := h.inv.amounts_le.2.trans h.chips
  intro x hx
  simp only [Game.tableNumbers, List.cons_append, List.mem_cons, List.mem_append,
    List.mem_flatMap] at hx
  rcases hx with rfl | rfl | ⟨p, hp, hx⟩ | hx
  · omega
  · omega
  · simp only [List.not_mem_nil, or_false] at hx
    rcases hx with rfl | rfl
    · exact h.stack hp
    · exact h.seat hp
  · cases hhand : s.tableManager.table.currentHand with
    | none => simp [hhand] at hx
    | some hand =>
      have hpot' := h.pot hhand
      simp only [hhand, List.mem_cons, List.mem_append, List.mem_map] at hx
      rcases hx with rfl | rfl | hx | ⟨entry, hentry, rfl⟩
      · exact hpot'
      · exact h.minRaise hhand
      · have hbet := (h.inv.playing hand hhand).1.bets x hx
        omega
      · have hentry' := h.modest.history hand hhand entry hentry
        omega

theorem step_within {b : ℤ} {s : GameSession} (h : Within Unfolded b s) (e : Event) :
    Within Unfolded (b + 800) (s.step e).1 := by
  obtain ⟨hinv, hchips, -⟩ := step_accounted h.inv e
  obtain ⟨hmodest, -, hbrings⟩ := step_handled h e
  have hle := h.chips
  have hblind := h.blind
  exact ⟨hinv, step_tableRep h.rep h.inv e, hmodest, by omega, by omega⟩

theorem run_within (config : Config) (es : List Event) :
    Within Unfolded (4 + 800 * es.length) ((machine config).run es) := by
  induction es using List.reverseRecOn with
  | nil => exact ⟨TableInv.new, TableRep.init _, Modest.new _, (by decide : (0 : ℤ) ≤ 4), by decide⟩
  | append_singleton es e ih =>
    rw [Machine.run_concat, List.length_append, List.length_singleton]
    have hnext := step_within ih e
    have hbound : (4 + 800 * ((es.length + 1 : ℕ) : ℤ)) = 4 + 800 * es.length + 800 := by
      push_cast
      omega
    rw [hbound]
    exact hnext

/-- After `n` events every amount and seat of the server, and every one it ever
sent, is between 0 and `4 + 800 * n`. -/
theorem numbers_small (config : Config) (es : List Event) :
    Small (4 + 800 * es.length) (tableNumbers ((machine config).run es)) ∧
      Told (4 + 800 * es.length) ((machine config).trace es) := by
  refine ⟨(run_within config es).tableNumbers, ?_⟩
  induction es using List.reverseRecOn with
  | nil => exact told_nil
  | append_singleton es e ih =>
    have htold := (step_handled (run_within config es) e).told
    rw [Machine.trace_concat, List.length_append, List.length_singleton]
    push_cast
    exact (ih.mono (by omega)).append (htold.mono (by omega))

theorem numbersRead_subset (m : Server.Message) : numbersRead m ⊆ numbers m := by
  intro x hx
  cases m with
  | handCompleted payload => exact List.mem_append_right _ hx
  | joinAck | actionRequest | topUpAck => exact hx
  | _ => cases hx

/-- In a run of at most 2684354 events the client reads every message of the
server as it was sent. -/
theorem messages_read (w : Wire) (config : Config) {es : List Event} (hlen : es.length ≤ 2684354)
    {listener : SessionId} {m : Server.Message}
    (hsent : .send listener m ∈ (machine config).trace es) (client : HeadsUp.Client)
    (dice : Client.Dice) (undef : Int32) :
    ∃ j, w.parse (w.serverText m) = some j ∧
      client.onMessage dice undef j = receive client dice m := by
  refine onMessage_receive w client dice undef fun x hx => ?_
  obtain ⟨hge, hle⟩ := (numbers_small config es).2 listener m hsent x (numbersRead_subset m hx)
  have hfits : (2 : ℤ) ^ 31 = 2147483648 := by decide
  constructor <;> omega

theorem messages_read_bobJoins :
    ∃ j, Wire.json.parse (Wire.json.serverText (.joinAck "bob" 1)) = some j ∧
      (⟨"Bob", "bob", 400, .awaitsJoinAck⟩ : HeadsUp.Client).onMessage (.facing 1) 0 j
        = receive ⟨"Bob", "bob", 400, .awaitsJoinAck⟩ (.facing 1) (.joinAck "bob" 1) :=
  @messages_read .json ⟨30000, 60000⟩ bothJoined (by decide) 1 _ (by decide +kernel) _ _ _

end HeadsUp.Game
