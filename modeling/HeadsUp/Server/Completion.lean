import HeadsUp.Server.Absence
import HeadsUp.Server.Amounts

/-!
# The end of a hand as it is announced

`hand_completed` is built before the pot is distributed: its amounts are those
of the distribution to come, its stacks those from before it.
-/

namespace HeadsUp.Server
open HeadsUp.Core HeadsUp.Common HeadsUp.Lib

/-! ### What the message says -/

def wonBy (completed : HandCompleted) (playerId : String) : ℤ :=
  ((completed.winners.filter fun w => w.1 = playerId).map Prod.snd).sum

/-- The amounts are what a distribution adds to the stacks, the whole pot
together, and the stacks are those it leaves. -/
structure Tells (heap paid : Heap) (hand : Hand) (completed : HandCompleted) : Prop where
  won : ∀ p ∈ hand.players, wonBy completed (heap p).id = (paid p).stack - (heap p).stack
  total : (completed.winners.map Prod.snd).sum = hand.pot + sidePotSum hand.sidePots
  updated : completed.updatedStacks = hand.players.map fun p => ((heap p).id, (paid p).stack)

namespace GameSession
variable {s : GameSession}

theorem amountsWon_single {pot : ℤ} (hpot : 0 ≤ pot) (p : PlayerRef) :
    amountsWon pot [p] = if pot = 0 then [] else [(p, pot)] := by
  by_cases hzero : pot = 0
  · rw [if_pos hzero, amountsWon, if_neg (by simp [hzero])]
  · rw [if_neg hzero, amountsWon, if_pos ⟨by simp, by omega⟩]
    simp

section Payload
variable {hand : Hand} (hplay : Playing s.tableManager.players hand)
  (hids : (s.tableManager.players.map fun p => (s.tableManager.heap p).id).Nodup)
  {p : PlayerRef}
include hplay

theorem completedPayload_winners (p : PlayerRef) : (s.completedPayload hand [p]).winners
    = if hand.pot = 0 then [] else [((s.tableManager.heap p).id, hand.pot)] := by
  have hsides : sidePotSum hand.sidePots = 0 := by
    rw [hplay.sidePots]
    rfl
  rw [completedPayload, hsides, add_zero, amountsWon_single hplay.pot]
  split_ifs <;> rfl

theorem paid_stack (p q : PlayerRef) :
    ((Pot.distributePot s.tableManager.heap { hand with winners := [p] } [p]).1 q).stack
      = (s.tableManager.heap q).stack + (Pi.single p hand.pot : PlayerRef → ℤ) q := by
  have hpaid := @distributePot_single { hand with winners := [p] } hplay.pot hplay.sidePots
    s.tableManager.heap p
  rw [hpaid]
  rfl

include hids in
theorem completedPayload_won (hp : p ∈ hand.players) {q : PlayerRef} (hq : q ∈ hand.players) :
    wonBy (s.completedPayload hand [p]) (s.tableManager.heap q).id
      = (Pi.single p hand.pot : PlayerRef → ℤ) q := by
  rw [wonBy, completedPayload_winners hplay]
  by_cases hqp : q = p
  · subst hqp
    rw [Pi.single_eq_same]
    split_ifs with hzero
    · exact hzero.symm
    · simp
  · have hne : (s.tableManager.heap p).id ≠ (s.tableManager.heap q).id := fun heq =>
      hqp (List.inj_on_of_nodup_map hids (hplay.mem p hp) (hplay.mem q hq) heq).symm
    rw [Pi.single_eq_of_ne hqp]
    split_ifs
    · rfl
    · simp [hne]

theorem completedPayload_total (p : PlayerRef) :
    ((s.completedPayload hand [p]).winners.map Prod.snd).sum
      = hand.pot + sidePotSum hand.sidePots := by
  have hsides : sidePotSum hand.sidePots = 0 := by
    rw [hplay.sidePots]
    rfl
  rw [completedPayload_winners hplay, hsides, add_zero]
  split_ifs with hzero
  · exact hzero.symm
  · simp

include hids in
/-- The amounts are right, the stacks only when there is nothing to pay. -/
theorem completedPayload_tells_iff (hp : p ∈ hand.players) :
    Tells s.tableManager.heap
        (Pot.distributePot s.tableManager.heap { hand with winners := [p] } [p]).1 hand
        (s.completedPayload hand [p]) ↔ hand.pot = 0 := by
  have hstack := paid_stack hplay p
  constructor
  · intro htells
    have hupdated := htells.updated
    rw [completedPayload, List.map_inj_left] at hupdated
    have hsame := (Prod.ext_iff.mp (hupdated p hp)).2
    simp only [hstack, Pi.single_eq_same] at hsame
    omega
  · intro hzero
    constructor
    · intro q hq
      rw [completedPayload_won hplay hids hp hq, hstack, add_sub_cancel_left]
    · exact completedPayload_total hplay p
    · rw [completedPayload, List.map_inj_left]
      intro q _
      rw [hstack, hzero, Pi.single_zero]
      simp

end Payload

/-! ### What is sent -/

theorem mem_broadcastJson (c : Choices) (message : Message) (e : Effect) :
    e ∈ s.broadcastJson c message ↔
      ∃ entry ∈ s.playerSessions.entries, e = .send entry.2 message := by
  rw [broadcastJson, List.mem_map]
  constructor
  · intro hh
    obtain ⟨session, hsession, rfl⟩ := hh
    obtain ⟨entry, hentry, rfl⟩ := List.mem_map.mp ((c.sessions.perm _).mem_iff.mp hsession)
    exact ⟨entry, hentry, rfl⟩
  · intro hh
    obtain ⟨entry, hentry, rfl⟩ := hh
    exact ⟨entry.2, (c.sessions.perm _).mem_iff.mpr (List.mem_map_of_mem hentry), rfl⟩

/-- Among the effects `hand_completed` goes to every session and to nobody else. -/
theorem afterAction_completed {hand : Hand} {players : List PlayerRef}
    (hplay : Playing players hand) (hhand : s.hand = some hand) {p : PlayerRef}
    (hone : activePlayers hand = [p]) (c : Choices) (playerId action : String) (amount : ℤ)
    (listener : SessionId) (completed : HandCompleted) :
    .send listener (.handCompleted completed) ∈
        (s.afterAction c (s.broadcastActionApplied c playerId action amount)).effects ↔
      (∃ entry ∈ s.playerSessions.entries, entry.2 = listener) ∧
        completed = s.completedPayload hand [p] := by
  have hcurrent : s.tableManager.table.currentHand = some hand := hhand
  obtain ⟨turn, -, hturn⟩ := hplay.turn
  have happlied : .send listener (.handCompleted completed) ∉
      s.broadcastActionApplied c playerId action amount := by
    unfold broadcastActionApplied
    split
    · rw [mem_broadcastJson]
      simp
    · simp
  have hrequested : .send listener (.handCompleted completed) ∉
      s.sendActionRequest (s.tableManager.heap turn).id := by
    unfold sendActionRequest
    split <;> simp
  have hwin : Poker.determineWinners c.tables s.tableManager.heap hand = .ok [p] :=
    determineWinners_of_single hone
  have hfew : (activePlayers hand).length ≤ 1 := by simp [hone]
  have hcompleted := broadcastHandCompleted_eq hplay hhand hone c
  simp only [afterAction, hcurrent, hturn, isHandComplete_playing hplay, hfew, hcompleted,
    TableManager.endHand, hwin, decide_true, Bool.not_true, Bool.false_eq_true, if_false,
    List.mem_append, happlied, hrequested, false_or, mem_broadcastJson, List.mem_singleton,
    reduceCtorEq, or_false, Effect.send.injEq, Message.handCompleted.injEq]
  grind

/-! ### Completing a hand -/

/-- Whatever action completes a hand, the message tells what its end pays. -/
def TellsCompletion (s : GameSession) (e : Event) : Prop :=
  ∀ session json c payload player tm hand, e = .message session (some json) c →
    payloadOf json "action" = some payload → s.Accepts payload session c player tm →
    tm.table.currentHand = some hand → isHandComplete hand = true →
    ∃ winners, Poker.determineWinners c.tables tm.heap hand = .ok winners ∧
      ∀ listener completed, .send listener (.handCompleted completed) ∈ (s.step e).2 →
        Tells tm.heap (Pot.distributePot tm.heap { hand with winners } winners).1 hand completed

/-- A valid fold in a hand with chips in the pot and somebody to hear of it. -/
def FoldsPot (s : GameSession) (e : Event) : Prop :=
  ∃ session json c payload handId amount playerId hand player,
    e = .message session (some json) c ∧ payloadOf json "action" = some payload ∧
      actionFields payload c = .ok (handId, "fold", amount) ∧
      s.sessionToPlayer.lookup session = some playerId ∧ s.hand = some hand ∧ hand.id = handId ∧
      s.tableManager.getPlayer playerId = some player ∧
      PlayerAction.validateAction s.tableManager.heap hand player "fold" amount = true ∧
      0 < hand.pot ∧ s.playerSessions.entries ≠ []

/-- An accepted action and the hand it leaves: complete after a fold, with one
winner and the pot it had. -/
theorem accepted_hand (h : TableInv Unfolded s.tableManager s.nextRef) {playerId action : String}
    {amount : ℤ} {now : ℕ} {hand hand' : Hand} {tm : TableManager}
    (hhand : s.hand = some hand) (hhand' : tm.table.currentHand = some hand')
    (hyes : s.tableManager.processPlayerAction playerId action amount now = (true, tm)) :
    Playing tm.players hand' ∧ (tm.players.map fun p => (tm.heap p).id).Nodup ∧
      (isHandComplete hand' = true ↔ action = "fold") ∧ hand'.pot = hand.pot + amount ∧
      (action = "fold" → amount = 0 ∧ ∃ p ∈ hand'.players, activePlayers hand' = [p]) := by
  obtain ⟨player, heap, hand₁, -, happly, rfl⟩ := applied_of_accepted hhand hyes
  obtain rfl := Option.some.inj hhand'
  obtain ⟨hplay, hun⟩ := h.playing hand hhand
  have hends := applied_ends hplay happly hun
  have hinv := (h.processPlayerAction (by rw [hyes])).1
  rw [hyes] at hinv
  obtain ⟨hplay', hcon⟩ := hinv.playing _ rfl
  refine ⟨hplay', hinv.ids, ?_, applied_pot happly, fun hfold => ⟨?_, ?_⟩⟩
  · rw [isHandComplete_playing hplay', decide_eq_true_eq, hends]
  · obtain ⟨-, -, hact⟩ := PlayerAction.applyAction_cases happly
    rcases hact with ⟨-, hzero, -⟩ | ⟨hcall | ⟨hraise, -⟩, -⟩
    · exact hzero
    · simp [hfold] at hcall
    · simp [hfold] at hraise
  · obtain ⟨p, -, hone⟩ := hcon.single hplay' (hends.mpr hfold)
    exact ⟨p, activePlayers_mem (by simp [hone]), hone⟩

theorem tellsCompletion_iff (h : TableInv Unfolded s.tableManager s.nextRef) (e : Event) :
    TellsCompletion s e ↔ ¬FoldsPot s e := by
  constructor
  · intro htells hh
    obtain ⟨session, json, c, payload, handId, amount, playerId, hand, player, rfl, hpayload,
      hfields, hsession, hhand, hid, hget, hvalid, hpos, hheard⟩ := hh
    obtain ⟨tm, hand', hhand', hyes⟩ : ∃ tm hand', tm.table.currentHand = some hand' ∧
        s.tableManager.processPlayerAction playerId "fold" amount c.now = (true, tm) := by
      obtain ⟨_, hand', -, hyes⟩ := accepted_of_valid hhand hget hvalid c.now
      exact ⟨_, hand', rfl, hyes⟩
    obtain ⟨hplay, hids, hcomplete, hpot, hfold⟩ := accepted_hand h hhand hhand' hyes
    obtain ⟨hzero, p, hp, hone⟩ := hfold rfl
    obtain ⟨winners, hwin, hmessages⟩ := htells session json c payload player tm hand' rfl hpayload
      ⟨handId, "fold", amount, playerId, hand, hfields, hsession, hhand, hid, hget, hyes⟩ hhand'
      (hcomplete.mpr rfl)
    rw [determineWinners_of_single hone] at hwin
    obtain rfl := Except.ok.inj hwin
    obtain ⟨entry, hentry⟩ := List.exists_mem_of_ne_nil _ hheard
    obtain ⟨heq, -⟩ := handleAction_accepted h hfields hsession hhand hid hyes
    rw [step_action hpayload, heq] at hmessages
    have htold := hmessages entry.2 _ ((afterAction_completed (s := { s with tableManager := tm })
      hplay hhand' hone c playerId "fold" amount entry.2 _).mpr ⟨⟨entry, hentry, rfl⟩, rfl⟩)
    rw [completedPayload_tells_iff (s := { s with tableManager := tm }) hplay hids hp] at htold
    omega
  · rintro hno session json c payload player tm hand' rfl hpayload haccepts hhand' hcomplete'
    obtain ⟨handId, action, amount, playerId, hand, hfields, hsession, hhand, hid, hget, hyes⟩ :=
      haccepts
    obtain ⟨hplay, hids, hcomplete, hpot, hfold⟩ := accepted_hand h hhand hhand' hyes
    obtain rfl := hcomplete.mp hcomplete'
    obtain ⟨hzero, p, hp, hone⟩ := hfold rfl
    refine ⟨[p], determineWinners_of_single hone, fun listener completed hsent => ?_⟩
    obtain ⟨heq, -⟩ := handleAction_accepted h hfields hsession hhand hid hyes
    rw [step_action hpayload, heq] at hsent
    obtain ⟨⟨entry, hentry, -⟩, rfl⟩ := (afterAction_completed (s := { s with tableManager := tm })
      hplay hhand' hone c playerId "fold" amount listener completed).mp hsent
    have hnot : ¬0 < hand.pot := fun hpos => hno ⟨session, json, c, payload, handId, amount,
      playerId, hand, player, rfl, hpayload, hfields, hsession, hhand, hid, hget, by
        obtain ⟨player₁, _, _, hget₁, happly, -⟩ := applied_of_accepted hhand hyes
        obtain rfl := Option.some.inj (hget.symm.trans hget₁)
        exact PlayerAction.valid_of_applyAction happly, hpos, List.ne_nil_of_mem hentry⟩
    have hge := hplay.pot
    exact (completedPayload_tells_iff (s := { s with tableManager := tm }) hplay hids hp).mpr
      (by omega)

/-- In a run every `hand_completed` tells the truth exactly when no fold ends a
hand with chips in its pot while a session is registered. -/
theorem run_tellsCompletion_iff (config : Config) (es : List Event) :
    (machine config).EveryStep TellsCompletion es ↔
      (machine config).EveryStep (fun s e => ¬FoldsPot s e) es :=
  (machine config).everyStep_congr (fun pre e => tellsCompletion_iff (run_inv config pre) e) es

/-- Bob calls 100 and Alice folds. -/
def bobCalls : List Event := bothJoined ++ [sent 1 (.action "hand_1" "call" 100)]

def aliceFolds : Event := sent 0 (.action "hand_1" "fold" 0)

/-- Bob is told to have won 100 and to have 300 chips; he has 400. -/
theorem tellsCompletion_aliceFolds :
    ¬(machine ⟨30000, 60000⟩).EveryStep TellsCompletion (bobCalls ++ [aliceFolds]) := by
  intro h
  have htells := h bobCalls aliceFolds (List.prefix_refl _)
  rw [tellsCompletion_iff (run_inv _ bobCalls)] at htells
  exact htells ⟨0, (Client.Message.action "hand_1" "fold" 0).toJson, .plain "1",
    (Client.Message.action "hand_1" "fold" 0).payload, "hand_1", 0, "alice", _, 0, rfl,
    payloadOf_eq_some.mpr ⟨rfl, rfl⟩, rfl, by decide +kernel,
    (Option.some_get (by decide +kernel)).symm, by decide +kernel, by decide +kernel,
    by decide +kernel, by decide +kernel, by decide +kernel⟩

end GameSession
end HeadsUp.Server
