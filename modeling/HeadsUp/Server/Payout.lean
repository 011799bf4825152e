import HeadsUp.Lib.Partial
import HeadsUp.Server.Accounting
import HeadsUp.Server.Betting

/-!
# The end of a hand at the table

A hand that is complete waits for `endHand`. Until then the table manager still
takes actions for it, and the player who is left can fold the pot away. The
amounts of the table are `int`s: a stack that wins a pot is one as long as the
two stacks a hand starts with sum to one.
-/

namespace HeadsUp.Server
open HeadsUp.Core HeadsUp.Lib

namespace TableManager

/-! ### `int` -/

/-- The amounts that sums are stored in; a minimum raise is the amount of a bet. -/
def InInts (tm : TableManager) : Prop :=
  (∀ p ∈ tm.players, InInt (tm.heap p).stack) ∧
    ∀ hand ∈ tm.table.currentHand, InInt hand.pot ∧ ∀ b ∈ hand.playerBets, InInt b

instance : DecidablePred InInts := fun _ => inferInstanceAs (Decidable (_ ∧ _))

/-- The table manager on `int`s: a sum that is none is undefined. -/
def intMachine (objects : Heap) : Machine (Option TableManager) TableOp Empty :=
  (machine objects).within InInts

/-- When a hand is started, the stacks of the seats sum to an `int`. -/
def StartsFit (tm : TableManager) : TableOp → Prop
  | .startHand _ _ _ => stackSum tm.heap (seated tm) < 2 ^ 31
  | _ => True

instance (tm : TableManager) : (op : TableOp) → Decidable (StartsFit tm op)
  | .startHand _ _ _ => inferInstanceAs (Decidable (_ < _))
  | .assignSeat _ _ | .removePlayer _ | .processPlayerAction _ _ _ _ | .endHand _ =>
    inferInstanceAs (Decidable True)

/-- Whatever is still bet and whoever wins, pot and stacks remain below the bound. -/
structure HandFits (heap : Heap) (hand : Hand) : Prop where
  all : stackSum heap hand.players + hand.pot < 2 ^ 31
  won : ∀ p ∈ hand.players, (heap p).stack + hand.pot < 2 ^ 31
  pot : hand.pot < 2 ^ 31

structure TableFits (tm : TableManager) : Prop where
  players : ∀ p, InInt (tm.heap p).stack
  hand : ∀ hand, tm.table.currentHand = some hand → HandFits tm.heap hand

theorem TableFits.inInts {tm : TableManager} (hfits : TableFits tm) (h : TableRep tm) :
    tm.InInts := by
  refine ⟨fun p _ => hfits.players p, fun hand hhand => ?_⟩
  have hplay := (h.hand hand hhand).playing
  have hpot := (hfits.hand hand hhand).pot
  have hnonneg := hplay.pot
  refine ⟨⟨by omega, hpot⟩, fun b hb => ?_⟩
  obtain ⟨hge, hle⟩ := hplay.bets b hb
  exact ⟨by omega, by omega⟩

theorem topUp_inInt {p : Player} (h : InInt p.stack) : InInt p.topUp.stack := by
  unfold Player.topUp
  split_ifs
  · exact (by decide : InInt targetStack)
  · exact h

/-- A bet is within its stack, which is within what all of them can bring. -/
theorem HandFits.applied {players : List PlayerRef} {heap heap' : Heap} {hand hand' : Hand}
    {player : PlayerRef} {action : String} {amount : ℤ} {now : ℕ} (h : HandFits heap hand)
    (hplay : Playing players hand)
    (happly : PlayerAction.applyAction heap hand player action amount now = (true, heap', hand')) :
    HandFits heap' hand' ∧ 0 ≤ amount ∧ amount ≤ (heap player).stack := by
  obtain ⟨-, hturn, hsolvent, hact⟩ :=
    PlayerAction.validateAction_iff.mp (PlayerAction.valid_of_applyAction happly)
  have hamount : 0 ≤ amount ∧ amount ≤ (heap player).stack := by omega
  refine ⟨?_, hamount⟩
  obtain ⟨p, q, hpq, hne, -, -⟩ := hplay.two
  obtain ⟨t, ht, hturn'⟩ := hplay.turn
  obtain rfl := Option.some.inj (hturn'.symm.trans hturn)
  have hplayers := (applyAction_hand happly).1.trans hpq
  have hpot := applied_pot happly
  have hall := h.all
  simp only [hpq, stackSum, List.map_cons, List.map_nil, List.sum_cons, List.sum_nil, add_zero,
    List.mem_pair] at hall ht
  have hp := h.won p (by simp [hpq])
  have hq := h.won q (by simp [hpq])
  have hp' := applied_stack happly p
  have hq' := applied_stack happly q
  constructor
  · simp only [hplayers, stackSum, List.map_cons, List.map_nil, List.sum_cons, List.sum_nil]
    rcases ht with rfl | rfl <;> simp only [hne, hne.symm, if_true, if_false] at hp' hq' <;> omega
  · intro r hr
    rw [hplayers, List.mem_pair] at hr
    rcases ht with rfl | rfl <;> simp only [hne, hne.symm, if_true, if_false] at hp' hq' <;>
      rcases hr with rfl | rfl <;> omega
  · rcases ht with rfl | rfl <;> omega

/-- The end of a hand pays one player the pot, or nobody. -/
theorem HandFits.paid {heap : Heap} {hand : Hand} {winners : List PlayerRef} {tables : MapOrder}
    (h : HandFits heap hand) (hpot : 0 ≤ hand.pot) (hsides : hand.sidePots = [])
    (hheap : ∀ p, InInt (heap p).stack)
    (hwin : Poker.determineWinners tables heap hand = .ok winners) (p : PlayerRef) :
    InInt ((Pot.distributePot heap { hand with winners } winners).1 p).stack := by
  rcases determineWinners_few hwin with rfl | ⟨w, hw, rfl⟩
  · rw [@distributePot_none { hand with winners := [] } hsides]
    exact hheap p
  · rw [@distributePot_single { hand with winners := [w] } hpot hsides]
    show InInt ((heap p).stack + (Pi.single w hand.pot : PlayerRef → ℤ) p)
    by_cases hpw : p = w
    · subst hpw
      have hge := (hheap p).1
      have hwon := h.won p hw
      rw [Pi.single_eq_same]
      exact ⟨by omega, hwon⟩
    · rw [Pi.single_eq_of_ne hpw, add_zero]
      exact hheap p

theorem TableFits.congr {tm tm' : TableManager} (hfits : TableFits tm)
    (hheap : ∀ p, (tm'.heap p).stack = (tm.heap p).stack)
    (hhand : tm'.table.currentHand = tm.table.currentHand) : TableFits tm' := by
  refine ⟨fun p => ?_, fun hand hcurrent => ?_⟩
  · rw [hheap]
    exact hfits.players p
  · obtain ⟨hall, hwon, hpot⟩ := hfits.hand hand (hhand ▸ hcurrent)
    refine ⟨?_, fun p hp => ?_, hpot⟩
    · rwa [stackSum_congr fun p _ => hheap p]
    · rw [hheap]
      exact hwon p hp

theorem TableFits.does {tm tm' : TableManager} (hfits : TableFits tm) (h : TableRep tm)
    {op : TableOp} {outs : List TableOut} (hstart : StartsFit tm op)
    (hdoes : Does tm op tm' outs) : TableFits tm' := by
  cases hdoes with
  | fails | idle => exact hfits
  | @seats player _ table heap _ hothers hself hseat =>
    have hstack : ∀ p, (heap p).stack = (tm.heap p).stack := by
      intro p
      by_cases hp : p = player
      · rw [hp, hself]
      · rw [hothers p hp]
    have hhand : table.currentHand = tm.table.currentHand := by
      rcases hseat with ⟨-, -, rfl⟩ | ⟨-, -, rfl⟩ <;> rfl
    exact hfits.congr hstack hhand
  | removes _ htable =>
    refine hfits.congr (fun _ => rfl) ?_
    rcases htable with ⟨-, rfl⟩ | ⟨-, -, rfl⟩ | ⟨-, -, rfl⟩ <;> rfl
  | @starts uuid constructed shuffled p q heap hone htwo hnone hheap =>
    have hstack : ∀ r, (heap r).stack = (tm.heap r).stack :=
      Heap.Dealt.stack (hheap ▸ dealHoleCards_dealt _ _ _)
    refine ⟨fun r => ?_, ?_⟩
    · show InInt (heap r).stack
      rw [hstack]
      exact hfits.players r
    · rintro _ ⟨⟩
      constructor
      · rw [stackSum_congr fun r _ => hstack r]
        exact (add_zero _).trans_lt hstart
      · intro r _
        show (heap r).stack + 0 < 2 ^ 31
        rw [hstack, add_zero]
        exact (hfits.players r).2
      · exact (by decide : (0 : ℤ) < 2 ^ 31)
  | acts hhand _ happly =>
    obtain ⟨hnext, hge, hle⟩ := (hfits.hand _ hhand).applied (h.hand _ hhand).playing happly
    refine ⟨fun p => ?_, ?_⟩
    · have hp := hfits.players p
      rw [applied_stack happly]
      split_ifs with heq
      · subst heq
        exact ⟨by omega, by have := hp.2; omega⟩
      · rwa [sub_zero]
    · rintro _ ⟨⟩
      exact hnext
  | ends hhand hwin =>
    have hplay := (h.hand _ hhand).playing
    have hpaid := (hfits.hand _ hhand).paid hplay.pot hplay.sidePots hfits.players hwin
    refine ⟨fun p => ?_, fun hand hno => by cases hno⟩
    show InInt ((topUpAll _ tm.players).1 p).stack
    rw [topUpAll_apply h.nodup]
    split_ifs
    · exact topUp_inInt (hpaid p)
    · exact hpaid p

/-! ### A complete hand -/

/-- The distribution gives the pot to the winners and leaves nothing. -/
structure PaysPot (heap : Heap) (hand : Hand) (winners : List PlayerRef) (r : Heap × Hand) :
    Prop where
  others : ∀ p, p ∉ winners → r.1 p = heap p
  total : stackSum r.1 hand.players = stackSum heap hand.players + hand.pot
  pot : r.2.pot = 0
  sidePots : r.2.sidePots = []

/-- A hand is paid to players who are left in it. -/
def PaidOut (tm : TableManager) (hand : Hand) : Prop :=
  ∀ tables, ∃ winners, Poker.determineWinners tables tm.heap hand = .ok winners ∧
    winners ≠ [] ∧ (∀ w ∈ winners, w ∈ activePlayers hand ∧ w ∈ tm.players) ∧
    ∃ r, Pot.distributeInts tm.heap { hand with winners } winners = some r ∧
      PaysPot tm.heap hand winners r

def CompletePaidOut (tm : TableManager) : Prop :=
  ∀ hand, tm.table.currentHand = some hand → GameSession.isHandComplete hand = true → PaidOut tm hand

/-- An action for a complete hand is rejected. -/
def RejectsLate (tm : TableManager) (op : TableOp) : Prop :=
  ∀ playerId action amount now hand, op = .processPlayerAction playerId action amount now →
    tm.table.currentHand = some hand → GameSession.isHandComplete hand = true →
      (tm.processPlayerAction playerId action amount now).1 = false

/-- The player a hand is left to, on turn, connected and not sitting out, folds, calls or
raises within his stack. -/
def LastPlayerActs (tm : TableManager) (op : TableOp) : Prop :=
  ∃ playerId action amount now hand player,
    op = .processPlayerAction playerId action amount now ∧
      tm.table.currentHand = some hand ∧ tm.getPlayer playerId = some player ∧
      activePlayers hand = [player] ∧ hand.currentPlayerToAct = some player ∧
      (tm.heap player).canAct = true ∧ 0 ≤ (tm.heap player).stack ∧
      (action = "fold" ∧ amount = 0 ∨
        (action = "call" ∨ action = "raise" ∧ hand.minRaise ≤ amount) ∧
          0 ≤ amount ∧ amount ≤ (tm.heap player).stack)

section State
variable {tm : TableManager} (h : TableRep tm)
include h

theorem complete_iff {hand : Hand} (hhand : tm.table.currentHand = some hand) :
    GameSession.isHandComplete hand = true ↔ (activePlayers hand).length ≤ 1 := by
  rw [GameSession.isHandComplete_playing (h.hand hand hhand).playing, decide_eq_true_eq]

/-- Only the checks of an action can reject it. -/
theorem rejectsLate_iff (op : TableOp) : RejectsLate tm op ↔ ¬LastPlayerActs tm op := by
  constructor
  · intro hrejects hh
    obtain ⟨playerId, action, amount, now, hand, player, rfl, hhand, hget, hone, hturn, hcan, hstack,
      hact⟩ := hh
    have hnd := (h.hand hand hhand).playing.nodup
    have hactive := (mem_activePlayers hnd).mp (hone ▸ List.mem_singleton_self player)
    have hvalid : PlayerAction.validateAction tm.heap hand player action amount = true := by
      rw [PlayerAction.validateAction_iff, PlayerAction.canAct_iff]
      exact ⟨⟨hcan, hactive⟩, hturn, hstack, by tauto⟩
    have hok : (tm.processPlayerAction playerId action amount now).1 = true :=
      processPlayerAction_iff.mpr ⟨hand, player, hhand, hget, hvalid⟩
    have hcomplete := (complete_iff h hhand).mpr (by simp [hone])
    rw [hrejects playerId action amount now hand rfl hhand hcomplete] at hok
    cases hok
  · intro hno playerId action amount now hand heq hhand hcomplete
    rw [← Bool.not_eq_true]
    intro hok
    obtain ⟨hand', player, hhand', hget, hvalid⟩ := processPlayerAction_iff.mp hok
    obtain rfl := Option.some.inj (hhand.symm.trans hhand')
    obtain ⟨hcan, hturn, hstack, hact⟩ := PlayerAction.validateAction_iff.mp hvalid
    obtain ⟨hcan, hactive⟩ := PlayerAction.canAct_iff.mp hcan
    have hmem := (mem_activePlayers (h.hand hand hhand).playing.nodup).mpr hactive
    have hfew := (complete_iff h hhand).mp hcomplete
    have hpos := List.length_pos_of_mem hmem
    obtain ⟨p, hp⟩ := List.length_eq_one_iff.mp (by omega : (activePlayers hand).length = 1)
    obtain rfl : player = p := by simpa [hp] using hmem
    exact hno ⟨playerId, action, amount, now, hand, player, heq, hhand, hget, hp, hturn, hcan,
      hstack, by tauto⟩

/-- The winner is the one player left. -/
theorem completePaidOut (hfits : TableFits tm) (howned : AllOwned tm)
    (hcon : ∀ hand, tm.table.currentHand = some hand → Contested hand) : CompletePaidOut tm := by
  intro hand hhand hcomplete tables
  have hplay := (h.hand hand hhand).playing
  obtain ⟨p, hp, hone⟩ := (hcon hand hhand).single hplay ((complete_iff h hhand).mp hcomplete)
  have hwin : Poker.determineWinners tables tm.heap hand = .ok [p] := determineWinners_of_single hone
  have hpaid := @distributePot_single { hand with winners := [p] } hplay.pot hplay.sidePots tm.heap p
  have hints := (hfits.hand hand hhand).paid hplay.pot hplay.sidePots hfits.players hwin
  refine ⟨[p], hwin, by simp, ?_, _, Pot.distributeInts_eq_some_iff.mpr ⟨hpaid, ?_⟩, ?_, ?_, rfl, rfl⟩
  · intro w hw
    obtain rfl := List.mem_singleton.mp hw
    exact ⟨by simp [hone], howned.players hand hhand w hp⟩
  · intro w _
    rw [← hpaid]
    exact hints w
  · intro q hq
    have hne : q ≠ p := by simpa using hq
    simp [Heap.credit, Pi.single_eq_of_ne hne]
  · show stackSum (tm.heap.credit (Pi.single p hand.pot)) hand.players = _
    rw [stackSum_credit, sum_map_single hplay.nodup hp]

/-- As long as the last player does nothing more, a hand is left to him on turn. -/
theorem does_contested {tm' : TableManager} {op : TableOp} {outs : List TableOut}
    (hdoes : Does tm op tm' outs) (hno : ¬LastPlayerActs tm op)
    (hcon : ∀ hand, tm.table.currentHand = some hand → Contested hand) :
    ∀ hand, tm'.table.currentHand = some hand → Contested hand := by
  have hrejects := (rejectsLate_iff h op).mpr hno
  cases hdoes with
  | fails | idle => exact hcon
  | seats _ _ _ hseat => rcases hseat with ⟨-, -, rfl⟩ | ⟨-, -, rfl⟩ <;> exact hcon
  | removes _ htable => rcases htable with ⟨-, rfl⟩ | ⟨-, -, rfl⟩ | ⟨-, -, rfl⟩ <;> exact hcon
  | starts =>
    rintro _ ⟨⟩
    exact .inl fun i => by simp [firstHand]
  | @acts playerId action amount now hand hand' player heap hhand hget happly =>
    rintro _ ⟨⟩
    have hplay := (h.hand hand hhand).playing
    have hok : (tm.processPlayerAction playerId action amount now).1 = true :=
      processPlayerAction_iff.mpr ⟨hand, player, hhand, hget, PlayerAction.valid_of_applyAction happly⟩
    have hmany : ¬(activePlayers hand).length ≤ 1 := by
      intro hfew
      rw [hrejects _ _ _ _ hand rfl hhand ((complete_iff h hhand).mpr hfew)] at hok
      cases hok
    have hun := (hcon hand hhand).unfolded hmany
    obtain ⟨-, hturn, hact⟩ := PlayerAction.applyAction_cases happly
    rcases hact with ⟨-, -, -, rfl⟩ | ⟨-, hge, -, -, rfl⟩
    · exact (hplay.fold hun hturn action amount now).2
    · exact .inl (hplay.bet hun hge tm.heap player action now).2
  | ends =>
    intro hand hno
    cases hno

end State

/-! ### Runs -/

theorem run_owned (objects : Heap) {ops : List TableOp}
    (hops : ∀ playerId, .removePlayer playerId ∉ ops) : AllOwned ((machine objects).run ops) := by
  refine (machine objects).invariant_of_ok (fun ops => ∀ playerId, .removePlayer playerId ∉ ops) ?_
    (fun _ tm => AllOwned tm) ((TableRep.init objects).allOwned fun _ hno => by cases hno) ?_ ops hops
  · intro ops op hno playerId hmem
    exact hno playerId (by simp [hmem])
  · intro ops op hno howned
    refine (step_allOwned_iff (run_rep objects ops) howned op).mpr fun hh => ?_
    obtain ⟨playerId, -, -, heq, -⟩ := hh
    exact hno playerId (by simp [heq])

/-- The table's amounts stay `int`s. -/
theorem run_fits {objects : Heap} (hobjects : ∀ p, InInt (objects p).stack) {ops : List TableOp}
    (hstarts : (machine objects).EveryStep StartsFit ops) :
    TableFits ((machine objects).run ops) :=
  (machine objects).invariant_of_everyStep
    ⟨hobjects, fun _ hno => by cases hno⟩
    (fun ops op hstart hfits => hfits.does (run_rep objects ops) hstart (step_does _ op)) hstarts

/-- In a run without removals whose hands start with stacks that sum to an `int`, every
complete hand is closed and paid out exactly when the player left in one sends nothing. -/
theorem paidOut_iff (objects : Heap) (hobjects : ∀ p, InInt (objects p).stack)
    (ops : List TableOp) (hops : ∀ playerId, .removePlayer playerId ∉ ops)
    (hstarts : (machine objects).EveryStep StartsFit ops) :
    ((∀ pre, pre <+: ops → ∃ tm, (intMachine objects).run pre = some tm ∧ CompletePaidOut tm) ∧
        (machine objects).EveryStep RejectsLate ops) ↔
      (machine objects).EveryStep (fun tm op => ¬LastPlayerActs tm op) ops := by
  have hclosed : (machine objects).EveryStep RejectsLate ops ↔
      (machine objects).EveryStep (fun tm op => ¬LastPlayerActs tm op) ops :=
    (machine objects).everyStep_congr (fun pre => rejectsLate_iff (run_rep objects pre)) ops
  constructor
  · intro hh
    exact hclosed.mp hh.2
  · intro hquiet
    refine ⟨((machine objects).always_within_iff ?_ ops).mpr fun pre hpre => ?_, hclosed.mpr hquiet⟩
    · exact ⟨fun p _ => hobjects p, fun _ hno => by cases hno⟩
    · have hrep := run_rep objects pre
      have hfits := run_fits hobjects ((machine objects).everyStep_upTo hstarts hpre)
      have howned := run_owned objects fun playerId hmem => hops playerId (hpre.subset hmem)
      have hcon := (machine objects).invariant_of_everyStep
        (I := fun tm => ∀ hand, tm.table.currentHand = some hand → Contested hand)
        (fun _ hno => by cases hno)
        (fun ops op hno hcon => does_contested (run_rep objects ops) (step_does _ op) hno hcon)
        ((machine objects).everyStep_upTo hquiet hpre)
      exact ⟨hfits.inInts hrep, completePaidOut hrep hfits howned hcon⟩

/-- Bob bets, Alice folds and so does Bob. -/
def bothFold : List TableOp := twoSeated ++ [.processPlayerAction "bob" "call" 100 0,
  .processPlayerAction "alice" "fold" 0 0, .processPlayerAction "bob" "fold" 0 0]

theorem paidOut_iff_bothFold :
    ((∀ pre, pre <+: bothFold →
          ∃ tm, (intMachine twoObjects).run pre = some tm ∧ CompletePaidOut tm) ∧
        (machine twoObjects).EveryStep RejectsLate bothFold) ↔
      (machine twoObjects).EveryStep (fun tm op => ¬LastPlayerActs tm op) bothFold :=
  paidOut_iff twoObjects (fun _ => (by decide : InInt startingStack)) bothFold
    (by simp [bothFold, twoSeated]) (by decide +kernel)

/-- Bob's fold is taken: the hand has no winner and its pot of 100 stays where it is. -/
theorem completePaidOut_bothFold :
    ¬((∀ pre, pre <+: bothFold →
          ∃ tm, (intMachine twoObjects).run pre = some tm ∧ CompletePaidOut tm) ∧
        (machine twoObjects).EveryStep RejectsLate bothFold) := by
  intro hh
  obtain ⟨tm, hrun, hpaid⟩ := hh.1 bothFold (List.prefix_refl _)
  obtain ⟨rfl, -⟩ := (machine twoObjects).run_within_iff.mp hrun
  obtain ⟨winners, hwin, hne, -⟩ := hpaid _ (Option.some_get (by decide +kernel)).symm
    (by decide +kernel) (Shuffle.refl _)
  have hnone : Poker.determineWinners (Shuffle.refl _) ((machine twoObjects).run bothFold).heap
      (((machine twoObjects).run bothFold).table.currentHand.get (by decide +kernel)) = .ok [] := by
    decide +kernel
  rw [hnone] at hwin
  exact hne (Except.ok.inj hwin).symm

end TableManager
end HeadsUp.Server
