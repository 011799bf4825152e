import HeadsUp.Core.BettingRules
import HeadsUp.Core.CoreDealing
import HeadsUp.Server.GameSession
import HeadsUp.Server.TableRuns

/-!
# Bets and rounds on the server

The server takes the chips of a call or a raise without looking at the bets:
what is legal poker is left to the bots. Nothing ends a betting round.
-/

namespace HeadsUp.Server
open HeadsUp.Core HeadsUp.Lib

/-! ### Totals -/

/-- The player's entry in `player_bets`, missing ones count as 0. -/
def totalOf (hand : Hand) (p : PlayerRef) : ℤ :=
  match hand.players.idxOf? p with
  | some i => hand.playerBets.getD i 0
  | none => 0

def owed (hand : Hand) (p : PlayerRef) : ℤ := GameSession.maxBet hand - totalOf hand p

theorem getD_betSeat {hand : Hand} {player : PlayerRef} {i : ℕ}
    (h : hand.players.idxOf? player = some i) (amount : ℤ) (j : ℕ) :
    (PlayerAction.betSeat hand player amount).playerBets.getD j 0
      = hand.playerBets.getD j 0 + if j = i then amount else 0 := by
  have hi := lt_length_growTo hand.playerBets i 0
  simp only [PlayerAction.betSeat, h]
  split_ifs with hj
  · subst hj
    rw [List.getD_eq_getElem?_getD, List.getElem?_set_self hi, Option.getD_some]
  · rw [List.getD_eq_getElem?_getD, List.getElem?_set_ne (Ne.symm hj),
      ← List.getD_eq_getElem?_getD, getD_growTo, add_zero]

theorem idxOf?_inj {l : List PlayerRef} {p q : PlayerRef} {i : ℕ} (hp : l.idxOf? p = some i)
    (hq : l.idxOf? q = some i) : p = q := by
  obtain ⟨_, hget, -⟩ := List.idxOf?_eq_some_iff.mp hp
  obtain ⟨_, hget', -⟩ := List.idxOf?_eq_some_iff.mp hq
  exact hget.symm.trans hget'

theorem mem_activePlayers {hand : Hand} (hnd : hand.players.Nodup) {p : PlayerRef} :
    p ∈ activePlayers hand ↔
      ∃ i, hand.players.idxOf? p = some i ∧ hand.folded.getD i false = false := by
  simp only [activePlayers, List.mem_map, List.mem_filter, Prod.exists, exists_and_right,
    exists_eq_right, List.mem_zipIdx_iff_getElem?, Bool.not_eq_true']
  refine exists_congr fun i => and_congr_left fun _ => ?_
  rw [List.getElem?_eq_some_iff, List.idxOf?_eq_some_iff]
  constructor
  · intro hh
    obtain ⟨hi, rfl⟩ := hh
    refine ⟨hi, rfl, fun j hj heq => ?_⟩
    have hsame := (List.Nodup.getElem_inj_iff hnd).mp heq
    omega
  · intro hh
    obtain ⟨hi, hget, -⟩ := hh
    exact ⟨hi, hget⟩

section Applied
variable {heap heap' : Heap} {hand hand' : Hand} {player : PlayerRef} {action : String}
  {amount : ℤ} {now : ℕ}
  (happly : PlayerAction.applyAction heap hand player action amount now = (true, heap', hand'))
include happly

theorem applied_total (q : PlayerRef) :
    totalOf hand' q = totalOf hand q + if q = player then amount else 0 := by
  obtain ⟨hcan, -, hact⟩ := PlayerAction.applyAction_cases happly
  obtain ⟨-, i, hi, -⟩ := PlayerAction.canAct_iff.mp hcan
  rcases hact with ⟨-, rfl, -, rfl⟩ | ⟨-, -, -, -, rfl⟩
  · rw [ite_self, add_zero]
    rfl
  · have hbets := @getD_betSeat { hand with
        pot := hand.pot + amount
        minRaise := if action = "raise" then amount else hand.minRaise } player i hi amount
    have htotal : ∀ bets, totalOf { hand with playerBets := bets } q
        = match hand.players.idxOf? q with
          | some j => bets.getD j 0
          | none => 0 := fun _ => rfl
    show totalOf { hand with playerBets := _ } q = _
    rw [htotal, totalOf]
    cases hq : hand.players.idxOf? q with
    | none =>
      have hne : q ≠ player := by
        rintro rfl
        rw [hi] at hq
        cases hq
      rw [if_neg hne, add_zero]
    | some j =>
      refine (hbets j).trans (congrArg _ (if_congr ⟨?_, ?_⟩ rfl rfl))
      · rintro rfl
        exact idxOf?_inj hq hi
      · rintro rfl
        exact Option.some.inj (hq.symm.trans hi)

theorem applied_stack (q : PlayerRef) :
    (heap' q).stack = (heap q).stack - if q = player then amount else 0 := by
  obtain ⟨-, -, hact⟩ := PlayerAction.applyAction_cases happly
  rcases hact with ⟨-, rfl, rfl, -⟩ | ⟨-, -, -, rfl, -⟩
  · rw [ite_self, sub_zero]
  · show (heap q).stack + (Pi.single player (-amount) : PlayerRef → ℤ) q = _
    by_cases hq : q = player
    · rw [if_pos hq, hq, Pi.single_eq_same, sub_eq_add_neg]
    · rw [if_neg hq, Pi.single_eq_of_ne hq, add_zero, sub_zero]

theorem applied_pot : hand'.pot = hand.pot + amount := by
  obtain ⟨-, -, hact⟩ := PlayerAction.applyAction_cases happly
  rcases hact with ⟨-, rfl, -, rfl⟩ | ⟨-, -, -, -, rfl⟩
  · exact (add_zero _).symm
  · rfl

theorem applied_history : hand'.history = hand.history ++ [⟨player, action, amount, now⟩] := by
  obtain ⟨-, -, hact⟩ := PlayerAction.applyAction_cases happly
  rcases hact with ⟨-, -, -, rfl⟩ | ⟨-, -, -, -, rfl⟩ <;> rfl

theorem applied_active (hnd : hand.players.Nodup) (q : PlayerRef) :
    q ∈ activePlayers hand' ↔ q ∈ activePlayers hand ∧ ¬(action = "fold" ∧ q = player) := by
  have hplayers := (TableManager.applyAction_hand happly).1
  rw [mem_activePlayers (hplayers ▸ hnd), mem_activePlayers hnd, hplayers]
  obtain ⟨hcan, -, hact⟩ := PlayerAction.applyAction_cases happly
  obtain ⟨-, i, hi, -⟩ := PlayerAction.canAct_iff.mp hcan
  rcases hact with ⟨rfl, -, -, rfl⟩ | ⟨haction, -, -, -, rfl⟩
  · have hfolded : ∀ j, (recordAction (PlayerAction.foldSeat hand player) player "fold" amount
        now).folded.getD j false = if j = i then true else hand.folded.getD j false :=
      getD_foldSeat hi
    simp only [hfolded, true_and]
    constructor
    · intro hh
      obtain ⟨j, hj, hno⟩ := hh
      by_cases hji : j = i
      · simp [hji] at hno
      · rw [if_neg hji] at hno
        refine ⟨⟨j, hj, hno⟩, ?_⟩
        rintro rfl
        exact hji (Option.some.inj (hj.symm.trans hi))
    · intro hh
      obtain ⟨⟨j, hj, hno⟩, hne⟩ := hh
      refine ⟨j, hj, ?_⟩
      rw [if_neg]
      · exact hno
      · rintro rfl
        exact hne (idxOf?_inj hj hi)
  · have hfold : action ≠ "fold" := by
      rcases haction with rfl | ⟨rfl, -⟩ <;> decide
    simp only [hfold, false_and, not_false_eq_true, and_true]
    rfl
end Applied

/-! ### Legal bets -/

structure AcceptedBet (tm : TableManager) (op : TableOp) (hand : Hand) (p : PlayerRef)
    (action : String) (amount : ℤ) : Prop where
  op_eq : ∃ playerId now, op = .processPlayerAction playerId action amount now ∧
    tm.getPlayer playerId = some p
  current : tm.table.currentHand = some hand
  isBet : action = "call" ∨ action = "raise"
  valid : PlayerAction.validateAction tm.heap hand p action amount = true

/-- What an accepted bet leaves is legal: a call reaches the highest total or
takes the whole stack and does not pass it, a raise passes it. -/
def LegalBet (tm : TableManager) (op : TableOp) : Prop :=
  ∀ hand p action amount, AcceptedBet tm op hand p action amount →
    ∃ hand', (tm.stepOp op).1.table.currentHand = some hand' ∧
      (action = "call" →
        (totalOf hand' p = GameSession.maxBet hand ∨ ((tm.stepOp op).1.heap p).stack = 0) ∧
          totalOf hand' p ≤ GameSession.maxBet hand) ∧
      (action = "raise" → GameSession.maxBet hand < totalOf hand' p)

/-- The round as `BettingRules` would be asked about it: the bet to call is what
the player owes. -/
def bettingState (hand : Hand) (p : PlayerRef) : BettingState := ⟨owed hand p, hand.minRaise, hand.pot⟩

/-- `BettingRules` allows the bet, or it is a call of the whole stack for less. -/
def WithinRules (tm : TableManager) (op : TableOp) : Prop :=
  ∀ hand p action amount, AcceptedBet tm op hand p action amount →
    (action = "call" →
      BettingRules.isValidAction .call amount (bettingState hand p) (tm.heap p).stack = true ∨
        amount = (tm.heap p).stack ∧ amount < owed hand p) ∧
    (action = "raise" →
      BettingRules.isValidAction .raise amount (bettingState hand p) (tm.heap p).stack = true)

theorem AcceptedBet.step {tm : TableManager} {op : TableOp} {hand : Hand} {p : PlayerRef}
    {action : String} {amount : ℤ} (h : AcceptedBet tm op hand p action amount) :
    ∃ hand', (tm.stepOp op).1.table.currentHand = some hand' ∧
      totalOf hand' p = totalOf hand p + amount ∧
      ((tm.stepOp op).1.heap p).stack = (tm.heap p).stack - amount := by
  obtain ⟨⟨playerId, now, rfl, hget⟩, hhand, -, hvalid⟩ := h
  obtain ⟨heap, hand', happly, hstep⟩ := TableManager.step_of_valid hhand hget hvalid now
  have htotal := applied_total happly p
  have hstack := applied_stack happly p
  rw [if_pos rfl] at htotal hstack
  rw [hstep]
  exact ⟨hand', rfl, htotal, hstack⟩

theorem legalBet_iff (tm : TableManager) (op : TableOp) : LegalBet tm op ↔ WithinRules tm op := by
  refine forall_congr' fun hand => forall_congr' fun p => forall_congr' fun action =>
    forall_congr' fun amount => forall_congr' fun haccepted => ?_
  obtain ⟨hand', hhand', htotal, hstack⟩ := haccepted.step
  have hvalid := (PlayerAction.validateAction_iff.mp haccepted.valid).2.2.2
  simp only [hhand', Option.some.injEq, exists_eq_left', htotal, hstack,
    BettingRules.isValidAction_call, BettingRules.isValidAction_raise, bettingState, owed]
  rcases haccepted.isBet with rfl | rfl
  · have hle : 0 ≤ amount ∧ amount ≤ (tm.heap p).stack := by
      simpa using hvalid.resolve_left (by simp)
    simp only [forall_const, String.reduceEq, false_implies, and_true]
    omega
  · have hle : 0 ≤ amount ∧ hand.minRaise ≤ amount ∧ amount ≤ (tm.heap p).stack := by
      simpa using hvalid.resolve_left (by simp)
    simp only [forall_const, String.reduceEq, false_implies, true_and]
    omega

namespace TableManager

/-- In a run every accepted bet is legal exactly when each is within the rules
the server does not ask. -/
theorem legalBets_iff (objects : Heap) (ops : List TableOp) :
    (machine objects).EveryStep LegalBet ops ↔ (machine objects).EveryStep WithinRules ops :=
  (machine objects).everyStep_congr (fun _ op => legalBet_iff _ op) ops

/-- Bob raises and Alice calls for nothing. -/
def freeCall : List TableOp :=
  twoSeated ++ [.processPlayerAction "bob" "raise" 20 0, .processPlayerAction "alice" "call" 0 0]

theorem legalBets_freeCall : ¬(machine twoObjects).EveryStep LegalBet freeCall := by
  intro h
  have hlegal := h (twoSeated ++ [.processPlayerAction "bob" "raise" 20 0])
    (.processPlayerAction "alice" "call" 0 0) (by simp [freeCall])
  obtain ⟨hand', hhand', hcall, -⟩ := hlegal _ 0 "call" 0 {
    op_eq := ⟨"alice", 0, rfl, by decide +kernel⟩
    current := (Option.some_get (by decide +kernel)).symm
    isBet := .inl rfl
    valid := by decide +kernel }
  have htotal := congrArg (Option.map fun hand => totalOf hand 0) hhand'
  have hzero : ((machine twoObjects).run freeCall).table.currentHand.map (fun hand => totalOf hand 0)
      = some 0 := by decide +kernel
  have hnothing : totalOf hand' 0 = 0 := (Option.some.inj (hzero.symm.trans htotal)).symm
  obtain ⟨hpaid, -⟩ := hcall rfl
  rw [hnothing] at hpaid
  revert hpaid
  decide +kernel

end TableManager

/-! ### Rounds -/

def hasActed (hand : Hand) (p : PlayerRef) : Prop := ∃ entry ∈ hand.history, entry.player = p

instance (hand : Hand) (p : PlayerRef) : Decidable (hasActed hand p) :=
  inferInstanceAs (Decidable (∃ entry ∈ hand.history, entry.player = p))

/-- Every unfolded player has acted, and only a player who is all-in has less
than another. -/
def RoundClosed (heap : Heap) (hand : Hand) : Prop :=
  ∀ p ∈ activePlayers hand, hasActed hand p ∧
    ∀ q ∈ activePlayers hand, totalOf hand q ≤ totalOf hand p ∨ (heap p).stack = 0

instance (heap : Heap) (hand : Hand) : Decidable (RoundClosed heap hand) :=
  inferInstanceAs (Decidable (∀ p ∈ activePlayers hand, hasActed hand p ∧
    ∀ q ∈ activePlayers hand, totalOf hand q ≤ totalOf hand p ∨ (heap p).stack = 0))

/-- A hand in progress has its board, and its betting goes on. -/
def RoundOpen (tm : TableManager) : Prop :=
  ∀ hand, tm.table.currentHand = some hand →
    hand.communityCards.length = boardSize hand.currentBettingRound ∧ ¬RoundClosed tm.heap hand

/-- After the action nobody has to act: the opponent has folded, or he has acted
and the actor folds, meets his total, or the one with less is all-in. -/
def Closes (heap : Heap) (hand : Hand) (p : PlayerRef) (action : String) (amount : ℤ) : Prop :=
  ∀ q ∈ activePlayers hand, q ≠ p → hasActed hand q ∧
    (action = "fold" ∨ totalOf hand p + amount = totalOf hand q ∨
      totalOf hand p + amount < totalOf hand q ∧ amount = (heap p).stack ∨
      totalOf hand q < totalOf hand p + amount ∧ (heap q).stack = 0)

theorem RoundClosed.congr {heap heap' : Heap} {hand : Hand}
    (hstack : ∀ p, (heap' p).stack = (heap p).stack) :
    RoundClosed heap' hand ↔ RoundClosed heap hand := by
  simp only [RoundClosed, hstack]

section Closing
variable {heap heap' : Heap} {hand hand' : Hand} {player : PlayerRef} {action : String}
  {amount : ℤ} {now : ℕ}

theorem hasActed_applied
    (happly : PlayerAction.applyAction heap hand player action amount now = (true, heap', hand'))
    (q : PlayerRef) : hasActed hand' q ↔ hasActed hand q ∨ q = player := by
  simp only [hasActed, applied_history happly, List.mem_append, List.mem_singleton, or_and_right,
    exists_or, exists_eq_left, eq_comm]

theorem two_of_playing {players : List PlayerRef} (hplay : Playing players hand) {p q r : PlayerRef}
    (hp : p ∈ hand.players) (hq : q ∈ hand.players) (hr : r ∈ hand.players) (hqp : q ≠ p)
    (hrp : r ≠ p) : q = r := by
  obtain ⟨a, b, hab, -⟩ := hplay.two
  rw [hab, List.mem_pair] at hp hq hr
  grind

theorem roundClosed_applied {players : List PlayerRef} (hplay : Playing players hand)
    (happly : PlayerAction.applyAction heap hand player action amount now = (true, heap', hand')) :
    RoundClosed heap' hand' ↔ Closes heap hand player action amount := by
  have hactive := applied_active happly hplay.nodup
  have hacted := hasActed_applied happly
  have htotal := applied_total happly
  have hstack := applied_stack happly
  obtain ⟨hcan, -, -⟩ := PlayerAction.applyAction_cases happly
  have hplayer : player ∈ activePlayers hand :=
    (mem_activePlayers hplay.nodup).mpr (PlayerAction.canAct_iff.mp hcan).2
  simp only [RoundClosed, Closes, hactive, hacted, htotal, hstack]
  constructor
  · intro hclosed q hq hne
    obtain ⟨hactedq, hleq⟩ := hclosed q ⟨hq, fun hh => hne hh.2⟩
    refine ⟨hactedq.resolve_right hne, ?_⟩
    by_cases hfold : action = "fold"
    · exact .inl hfold
    · have hp : player ∈ activePlayers hand ∧ ¬(action = "fold" ∧ player = player) :=
        ⟨hplayer, fun hh => hfold hh.1⟩
      have hlow := hleq player hp
      have hhigh := (hclosed player hp).2 q ⟨hq, fun hh => hne hh.2⟩
      simp only [if_neg hne, if_true] at hlow hhigh
      omega
  · intro hcloses r hr
    obtain ⟨hr, hrfold⟩ := hr
    by_cases hrp : r = player
    · subst hrp
      refine ⟨.inr rfl, fun q hq => ?_⟩
      by_cases hqp : q = r
      · exact .inl (by rw [hqp])
      · obtain ⟨-, hless⟩ := hcloses q hq.1 hqp
        simp only [if_neg hqp, if_true]
        simp only [and_true] at hrfold
        simp only [hrfold, false_or] at hless
        omega
    · obtain ⟨hactedr, hless⟩ := hcloses r hr hrp
      refine ⟨.inl hactedr, fun q hq => ?_⟩
      by_cases hqp : q = player
      · subst hqp
        have hfold : ¬action = "fold" := fun hh => hq.2 ⟨hh, rfl⟩
        simp only [if_neg hrp, if_true]
        simp only [hfold, false_or] at hless
        omega
      · obtain rfl := two_of_playing hplay (activePlayers_mem hplayer) (activePlayers_mem hr)
          (activePlayers_mem hq.1) hrp hqp
        exact .inl (le_refl _)
end Closing

namespace TableManager

def ClosesRound (tm : TableManager) (op : TableOp) : Prop :=
  ∃ playerId action amount now hand p, op = .processPlayerAction playerId action amount now ∧
    tm.table.currentHand = some hand ∧ tm.getPlayer playerId = some p ∧
    PlayerAction.validateAction tm.heap hand p action amount = true ∧
    Closes tm.heap hand p action amount

theorem TableRep.board {tm : TableManager} (h : TableRep tm) {hand : Hand}
    (hhand : tm.table.currentHand = some hand) :
    hand.communityCards.length = boardSize hand.currentBettingRound := by
  have hplay := h.hand hand hhand
  rw [hplay.noBoard, hplay.playing.round]
  rfl

theorem firstHand_not_closed {tm : TableManager} {p q : PlayerRef} (hone : tm.table.seat1 = some p)
    (htwo : tm.table.seat2 = some q) (heap : Heap) (uuid : String) (deck : Deck) :
    ¬RoundClosed heap (firstHand tm uuid deck) := by
  intro hclosed
  have hactive : p ∈ activePlayers (firstHand tm uuid deck) := by
    rw [activePlayers_two (firstHand_players hone htwo uuid deck)]
    simp [firstHand]
  obtain ⟨⟨entry, hentry, -⟩, -⟩ := hclosed p hactive
  cases hentry

theorem does_roundOpen {tm tm' : TableManager} (h : TableRep tm) (hopen : RoundOpen tm)
    {op : TableOp} {outs : List TableOut} (hdoes : Does tm op tm' outs)
    (hno : ¬ClosesRound tm op) {hand : Hand} (hhand : tm'.table.currentHand = some hand) :
    ¬RoundClosed tm'.heap hand := by
  cases hdoes with
  | fails | idle => exact (hopen hand hhand).2
  | @seats player _ _ heap _ hothers hself hseat =>
    have hhand' : tm.table.currentHand = some hand := by
      rcases hseat with ⟨-, -, rfl⟩ | ⟨-, -, rfl⟩ <;> exact hhand
    have hstack : ∀ p, (heap p).stack = (tm.heap p).stack := by
      intro p
      by_cases hp : p = player
      · rw [hp, hself]
      · rw [hothers p hp]
    exact mt (RoundClosed.congr hstack).mp (hopen hand hhand').2
  | removes _ htable =>
    have hhand' : tm.table.currentHand = some hand := by
      rcases htable with ⟨-, rfl⟩ | ⟨-, -, rfl⟩ | ⟨-, -, rfl⟩ <;> exact hhand
    exact (hopen hand hhand').2
  | starts hone htwo =>
    obtain rfl := Option.some.inj hhand
    exact firstHand_not_closed hone htwo _ _ _
  | @acts playerId action amount now old _ player _ hold hget happly =>
    obtain rfl := Option.some.inj hhand
    rw [roundClosed_applied (h.hand old hold).playing happly]
    intro hcloses
    exact hno ⟨playerId, action, amount, now, old, player, rfl, hold, hget,
      PlayerAction.valid_of_applyAction happly, hcloses⟩
  | ends => cases hhand

theorem step_roundOpen_iff {tm : TableManager} (h : TableRep tm) (hopen : RoundOpen tm)
    (op : TableOp) : RoundOpen (tm.stepOp op).1 ↔ ¬ClosesRound tm op := by
  have hdoes := step_does tm op
  constructor
  · intro hopen' hh
    obtain ⟨playerId, action, amount, now, hand, p, rfl, hhand, hget, hvalid, hcloses⟩ := hh
    obtain ⟨heap, hand', happly, hstep⟩ := step_of_valid hhand hget hvalid now
    rw [hstep] at hopen'
    exact (hopen' hand' rfl).2 ((roundClosed_applied (h.hand hand hhand).playing happly).mpr hcloses)
  · intro hno hand hhand
    exact ⟨(h.does hdoes).board hhand, does_roundOpen h hopen hdoes hno hhand⟩

/-- In a run no hand is left in a closed round exactly when no accepted action
closes one: nothing advances it. -/
theorem roundOpen_iff (objects : Heap) (ops : List TableOp) :
    (∀ pre, pre <+: ops → RoundOpen ((machine objects).run pre)) ↔
      (machine objects).EveryStep (fun tm op => ¬ClosesRound tm op) ops :=
  (machine objects).always_iff (fun _ hno => by cases hno) ops
    fun pre op _ hopen => step_roundOpen_iff (run_rep objects pre) hopen op

def bothCheck : List TableOp :=
  twoSeated ++ [.processPlayerAction "bob" "call" 0 0, .processPlayerAction "alice" "call" 0 0]

theorem roundOpen_bothCheck :
    ¬∀ pre, pre <+: bothCheck → RoundOpen ((machine twoObjects).run pre) := by
  intro h
  obtain ⟨-, hopen⟩ := h bothCheck (List.prefix_refl _) _ (Option.some_get (by decide +kernel)).symm
  apply hopen
  decide +kernel

end TableManager
end HeadsUp.Server
