import HeadsUp.Game.Absences
import HeadsUp.Server.OneHand
import HeadsUp.Server.SessionMaps

/-!
# The hand as the messages tell it

A reader who sees nothing but what the server sends can keep the books of the hand.
He knows beforehand how it is announced, and of every message after that each number:
an action, the request that follows it, the acknowledgement of a top-up and the end.
-/

namespace HeadsUp.Game
open HeadsUp.Core HeadsUp.Common HeadsUp.Lib HeadsUp.Server HeadsUp.Server.GameSession

/-! ### Books -/

structure Account where
  playerId : String
  stack : ℤ
  bet : ℤ
  deriving DecidableEq, Repr

namespace Account

def pay (a : Account) (amount : ℤ) : Account :=
  { a with stack := a.stack - amount, bet := a.bet + amount }

def win (a : Account) (pot : ℤ) : Account := { a with stack := a.stack + pot }

def topUp (a : Account) : Account :=
  if a.stack < topUpThreshold then { a with stack := targetStack } else a

end Account

/-- The accounts are in the order of the seats. -/
structure Book where
  handId : String
  first : Account
  second : Account
  secondToAct : Bool
  pot : ℤ
  minRaise : ℤ
  folded : Bool
  deriving DecidableEq, Repr

/-- Two cards each, all different. -/
def TwoEach (cards cards' : List String) : Prop :=
  cards.length = 2 ∧ cards'.length = 2 ∧ (cards ++ cards').Nodup ∧
    ∀ text ∈ cards ++ cards', (Card.ofString text).toOption.isSome = true

instance (cards cards' : List String) : Decidable (TwoEach cards cards') :=
  inferInstanceAs (Decidable (_ ∧ _))

/-- How every hand begins. -/
def Opens (m : HandStarted) (p q : DealtPlayer) : Prop :=
  m = ⟨m.handId, [p, q], smallBlind, bigBlind, defaultDealerPosition, q.playerId, bigBlind⟩ ∧
    p.playerId ≠ q.playerId ∧ p.stack = startingStack ∧ q.stack = startingStack ∧
    TwoEach p.holeCards q.holeCards

instance (m : HandStarted) (p q : DealtPlayer) : Decidable (Opens m p q) :=
  inferInstanceAs (Decidable (_ ∧ _))

namespace Book

def opening (m : HandStarted) : Option Book :=
  match m.players with
  | [p, q] =>
    if Opens m p q then
      some ⟨m.handId, ⟨p.playerId, p.stack, 0⟩, ⟨q.playerId, q.stack, 0⟩, true, 0, m.minRaise,
        false⟩
    else none
  | _ => none

def onTurn (b : Book) : Account := if b.secondToAct then b.second else b.first
def waiting (b : Book) : Account := if b.secondToAct then b.first else b.second

/-- Nobody has folded and the rules of the server allow it. -/
def Allows (b : Book) (action : String) (amount : ℤ) : Prop :=
  b.folded = false ∧ (action = "fold" ∧ amount = 0 ∨
    (action = "call" ∨ action = "raise" ∧ b.minRaise ≤ amount) ∧
      0 ≤ amount ∧ amount ≤ b.onTurn.stack)

instance (b : Book) (action : String) (amount : ℤ) : Decidable (b.Allows action amount) :=
  inferInstanceAs (Decidable (_ ∧ _))

def act (b : Book) (action : String) (amount : ℤ) : Book where
  handId := b.handId
  first := if b.secondToAct then b.first else b.first.pay amount
  second := if b.secondToAct then b.second.pay amount else b.second
  secondToAct := !b.secondToAct
  pot := b.pot + amount
  minRaise := if action = "raise" then amount else b.minRaise
  folded := action == "fold"

def applied (b : Book) (action : String) (amount : ℤ) : ActionApplied :=
  let after := b.act action amount
  ⟨b.handId, b.onTurn.playerId, action, amount, after.waiting.stack, after.pot,
    after.onTurn.playerId⟩

/-- Sent after an action, to the player who is then on turn. -/
def request (b : Book) : ActionRequest :=
  ⟨b.handId, ["fold", "call", "raise"], max b.first.bet b.second.bet - b.onTurn.bet, b.minRaise,
    b.onTurn.stack, actionTimeoutMs⟩

/-- Who has not folded is on turn; the stacks are those before he is paid. -/
def completed (b : Book) : HandCompleted :=
  ⟨b.handId, if 0 < b.pot then [(b.onTurn.playerId, b.pot)] else [],
    [(b.first.playerId, b.first.stack), (b.second.playerId, b.second.stack)]⟩

/-- The stacks with the pot paid and both players topped up. -/
def settled (b : Book) : List (String × ℤ) :=
  let first := if b.secondToAct then b.first else b.first.win b.pot
  let second := if b.secondToAct then b.second.win b.pot else b.second
  [(first.playerId, first.topUp.stack), (second.playerId, second.topUp.stack)]

def topUp (b : Book) (playerId : String) (newStack : ℤ) : Option Book :=
  if b.first.playerId = playerId then
    if newStack = b.first.topUp.stack then some { b with first := b.first.topUp } else none
  else if b.second.playerId = playerId then
    if newStack = b.second.topUp.stack then some { b with second := b.second.topUp } else none
  else none

end Book

/-! ### The reader -/

inductive Reader where
  | waiting
  | reading (book : Book) (last : Server.Message)
  | closed (settled : List (String × ℤ)) (last : Server.Message)
  deriving DecidableEq, Repr

namespace Reader

def last : Reader → Option Server.Message
  | .waiting => none
  | .reading _ last => some last
  | .closed _ last => some last

/-- `none` at a message that is not the one he expects. -/
def take : Reader → Server.Message → Option Reader
  | .waiting, .handStarted m => (Book.opening m).map fun b => .reading b (.handStarted m)
  | .reading b _, .actionApplied m =>
    if b.Allows m.action m.amount ∧ m = b.applied m.action m.amount then
      some (.reading (b.act m.action m.amount) (.actionApplied m))
    else none
  | .reading b _, .actionRequest m =>
    if m = b.request then some (.reading b (.actionRequest m)) else none
  | .reading b _, .handCompleted m =>
    if b.folded = true ∧ m = b.completed then some (.closed b.settled (.handCompleted m)) else none
  | _, .handStarted _ => none
  | _, .actionApplied _ => none
  | _, .actionRequest _ => none
  | _, .handCompleted _ => none
  | .waiting, .topUpAck _ newStack => if newStack = startingStack then some .waiting else none
  | .reading b last, .topUpAck playerId newStack =>
    (b.topUp playerId newStack).map fun b => .reading b last
  | .closed settled last, .topUpAck playerId newStack =>
    if (playerId, newStack) ∈ settled then some (.closed settled last) else none
  | reader, _ => some reader

/-- A broadcast reaches him once for each session. -/
def hearMessage (reader : Reader) (message : Server.Message) : Option Reader :=
  if reader.last = some message then some reader else reader.take message

def hear (reader : Reader) : Effect → Option Reader
  | .send _ message => reader.hearMessage message
  | _ => some reader

def monitor : Monitor Reader Effect := ⟨.waiting, hear⟩

end Reader

/-! ### The books of the server -/

def accountOf (heap : Heap) (hand : Hand) (p : PlayerRef) : Account :=
  ⟨(heap p).id, (heap p).stack, totalOf hand p⟩

@[simp] theorem accountOf_playerId (heap : Heap) (hand : Hand) (p : PlayerRef) :
    (accountOf heap hand p).playerId = (heap p).id := rfl

def bookOf (heap : Heap) (hand : Hand) : Book where
  handId := hand.id
  first := accountOf heap hand (hand.players.getD 0 0)
  second := accountOf heap hand (hand.players.getD 1 0)
  secondToAct := hand.currentPlayerToAct == hand.players[1]?
  pot := hand.pot
  minRaise := hand.minRaise
  folded := isHandComplete hand

section Pair
variable (heap : Heap) {hand : Hand} {p q : PlayerRef} (hpq : hand.players = [p, q]) (hne : p ≠ q)
include hpq

theorem bookOf_accounts : (bookOf heap hand).first = accountOf heap hand p ∧
    (bookOf heap hand).second = accountOf heap hand q := by
  simp [bookOf, hpq]

include hne

theorem totalOf_pair : totalOf hand p = hand.playerBets.getD 0 0 ∧
    totalOf hand q = hand.playerBets.getD 1 0 := by
  simp [totalOf, hpq, List.idxOf?_cons, hne]

theorem bookOf_onTurn {turn : PlayerRef} (hmem : turn ∈ hand.players)
    (hturn : hand.currentPlayerToAct = some turn) :
    (bookOf heap hand).onTurn = accountOf heap hand turn := by
  rw [hpq, List.mem_pair] at hmem
  rcases hmem with rfl | rfl
  · simp [Book.onTurn, bookOf, hpq, hturn, hne]
  · simp [Book.onTurn, bookOf, hpq, hturn]

theorem bookOf_waiting {turn other : PlayerRef} (hmem : turn ∈ hand.players)
    (hturn : hand.currentPlayerToAct = some turn) (hother : other ∈ hand.players)
    (hdiff : other ≠ turn) : (bookOf heap hand).waiting = accountOf heap hand other := by
  rw [hpq, List.mem_pair] at hmem hother
  rcases hmem with rfl | rfl
  · obtain rfl := hother.resolve_left hdiff
    simp [Book.waiting, bookOf, hpq, hturn, hne]
  · obtain rfl := hother.resolve_right hdiff
    simp [Book.waiting, bookOf, hpq, hturn]

/-- What is to call is told by the two bets. -/
theorem maxBet_pair (hbets : ∀ b ∈ hand.playerBets, 0 ≤ b) :
    maxBet hand = max (totalOf hand p) (totalOf hand q) := by
  obtain ⟨hp, hq⟩ := totalOf_pair hpq hne
  have hge : 0 ≤ hand.playerBets.getD 0 0 := by
    rw [List.getD_eq_getElem?_getD]
    cases hget : hand.playerBets[0]? with
    | none => exact le_refl 0
    | some b => exact hbets b (List.mem_of_getElem? hget)
  simp only [maxBet, hpq, List.length_cons, List.length_nil, List.range_succ, List.range_zero,
    List.nil_append, List.map_append, List.map_cons, List.map_nil, List.foldl_append,
    List.foldl_cons, List.foldl_nil, zero_add, max_eq_right hge, hp, hq]

theorem betOf_pair (hids : (heap p).id ≠ (heap q).id) {r : PlayerRef} (hr : r ∈ hand.players) :
    betOf heap hand (heap r).id = totalOf hand r := by
  obtain ⟨hp, hq⟩ := totalOf_pair hpq hne
  have hread : ∀ i, (if i < hand.playerBets.length then hand.playerBets.getD i 0 else 0)
      = hand.playerBets.getD i 0 := by
    intro i
    split_ifs with hi
    · rfl
    · rw [List.getD_eq_default _ _ (by omega)]
  rw [hpq, List.mem_pair] at hr
  simp only [betOf, hpq, List.zipIdx_cons, List.zipIdx_nil, List.foldl_cons, List.foldl_nil,
    zero_add]
  rcases hr with rfl | rfl
  · rw [if_neg fun hh => hids hh.2.symm]
    simp only [and_true, hread, hp]
  · simp only [hids, and_true, and_false, if_false, hread, hq]

end Pair

/-! ### What the server says, read off the books -/

variable {s s' : GameSession}

section Table
variable {Ok : Hand → Prop} (h : TableInv Ok s.tableManager s.nextRef) {hand : Hand}
  (hhand : s.hand = some hand)
include h hhand

theorem players_pair : ∃ p q, hand.players = [p, q] ∧ p ≠ q ∧
    (s.tableManager.heap p).id ≠ (s.tableManager.heap q).id := by
  obtain ⟨p, q, hpq, hne, hp, hq⟩ := (h.playing hand hhand).1.two
  refine ⟨p, q, hpq, hne, fun hsame => hne ?_⟩
  exact Option.some.inj ((h.getPlayer hp).symm.trans (hsame ▸ h.getPlayer hq))

theorem actionRequest_told {turn : PlayerRef} (hturn : hand.currentPlayerToAct = some turn) :
    s.actionRequest (s.tableManager.heap turn).id
      = some (bookOf s.tableManager.heap hand).request := by
  have hcurrent : s.tableManager.table.currentHand = some hand := hhand
  obtain ⟨hplay, -⟩ := h.playing hand hhand
  obtain ⟨t, hmem, hturn'⟩ := hplay.turn
  obtain rfl := Option.some.inj (hturn'.symm.trans hturn)
  obtain ⟨p, q, hpq, hne, hids⟩ := players_pair h hhand
  obtain ⟨hfirst, hsecond⟩ := bookOf_accounts s.tableManager.heap hpq
  have honTurn := bookOf_onTurn s.tableManager.heap hpq hne hmem hturn
  have hmax := maxBet_pair hpq hne fun b hb => (hplay.bets b hb).1
  have hbet := betOf_pair s.tableManager.heap hpq hne hids hmem
  simp only [actionRequest, hcurrent, h.getPlayer (hplay.mem t hmem), Book.request, hfirst, hsecond,
    honTurn, hmax, hbet]
  rfl

/-- The winner of a hand with one player left is on turn. -/
theorem handCompleted_told {winner : PlayerRef} (hturn : hand.currentPlayerToAct = some winner)
    (hone : activePlayers hand = [winner]) (c : Choices) : s.broadcastHandCompleted c
      = .ok (s.broadcastJson c (.handCompleted (bookOf s.tableManager.heap hand).completed)) := by
  have hcurrent : s.tableManager.table.currentHand = some hand := hhand
  obtain ⟨hplay, -⟩ := h.playing hand hhand
  obtain ⟨t, hmem, hturn'⟩ := hplay.turn
  obtain rfl := Option.some.inj (hturn'.symm.trans hturn)
  obtain ⟨p, q, hpq, hne, -⟩ := players_pair h hhand
  obtain ⟨hfirst, hsecond⟩ := bookOf_accounts s.tableManager.heap hpq
  have honTurn := bookOf_onTurn s.tableManager.heap hpq hne hmem hturn
  have hwon : amountsWon (hand.pot + sidePotSum hand.sidePots) [t]
      = if 0 < hand.pot then [(t, hand.pot)] else [] := by
    have hnone : sidePotSum hand.sidePots = 0 := by rw [hplay.sidePots]; rfl
    rw [hnone, add_zero, amountsWon]
    by_cases hpot : 0 < hand.pot
    · simp [hpot]
    · simp [hpot]
  have hpayload : s.completedPayload hand [t] = (bookOf s.tableManager.heap hand).completed := by
    simp only [completedPayload, Book.completed, hwon, hpq, honTurn, hfirst, hsecond]
    have hpot : (bookOf s.tableManager.heap hand).pot = hand.pot := rfl
    rw [hpot]
    split_ifs <;> rfl
  rw [broadcastHandCompleted_eq hplay hcurrent hone, hpayload]

end Table

section Acted
variable (h : TableInv Unfolded s.tableManager s.nextRef) {hand hand' : Hand}
  (hhand : s.hand = some hand) {heap : Heap} {player : PlayerRef} {action : String} {amount : ℤ}
  {now : ℕ} (happly : PlayerAction.applyAction s.tableManager.heap hand player action amount now
    = (true, heap, hand'))

include happly in
theorem accountOf_acts (p : PlayerRef) : accountOf heap hand' p
    = if p = player then (accountOf s.tableManager.heap hand p).pay amount
      else accountOf s.tableManager.heap hand p := by
  have hid : (heap p).id = (s.tableManager.heap p).id :=
    congrArg Presence.id (applyAction_presence happly p)
  rw [accountOf, hid, applied_stack happly, applied_total happly]
  split_ifs
  · rfl
  · rw [sub_zero, add_zero]
    rfl

include h hhand happly

/-- The books are kept by acting in them. -/
theorem bookOf_acts : bookOf heap hand' = (bookOf s.tableManager.heap hand).act action amount := by
  obtain ⟨hplay, hun⟩ := h.playing hand hhand
  obtain ⟨other, hother, hplayer, hne, hturn, hnext, -⟩ := played_turn h hhand happly
  obtain ⟨p, q, hpq, hdiff, -⟩ := players_pair h hhand
  have hplayers := (TableManager.applyAction_hand happly).1.trans hpq
  obtain ⟨hplay', -⟩ := (played_inv h hhand happly).playing hand' rfl
  have hfolded : isHandComplete hand' = (action == "fold") := by
    rw [isHandComplete_playing hplay', Bool.eq_iff_iff, decide_eq_true_iff, beq_iff_eq]
    exact applied_ends hplay happly hun
  have hpot : hand'.pot = hand.pot + amount ∧
      hand'.minRaise = if action = "raise" then amount else hand.minRaise := by
    rcases (PlayerAction.applyAction_cases happly).2.2 with ⟨rfl, rfl, -, rfl⟩ | ⟨-, -, -, -, rfl⟩
    · exact ⟨(add_zero _).symm, rfl⟩
    · exact ⟨rfl, rfl⟩
  rw [hpq, List.mem_pair] at hplayer hother
  simp only [bookOf, Book.act, hpq, hplayers, List.getD_cons_zero, List.getD_cons_succ,
    List.getElem?_cons_succ, List.getElem?_cons_zero, hturn, hnext, hfolded, hpot.1, hpot.2,
    applied_id happly, accountOf_acts happly]
  rcases hplayer with rfl | rfl
  · obtain rfl := hother.resolve_left hne
    simp [hdiff, hdiff.symm]
  · obtain rfl := hother.resolve_right hne
    simp [hdiff]

theorem bookOf_allows : (bookOf s.tableManager.heap hand).Allows action amount := by
  obtain ⟨hplay, hun⟩ := h.playing hand hhand
  obtain ⟨other, hother, hplayer, hne, hturn, -⟩ := played_turn h hhand happly
  obtain ⟨p, q, hpq, hdiff, -⟩ := players_pair h hhand
  have honTurn := bookOf_onTurn s.tableManager.heap hpq hdiff hplayer hturn
  refine ⟨?_, ?_⟩
  · show isHandComplete hand = false
    rw [isHandComplete_playing hplay, hun.activePlayers hpq]
    rfl
  · rw [honTurn]
    rcases (PlayerAction.applyAction_cases happly).2.2 with
      ⟨hfold, hzero, -⟩ | ⟨hbet, hge, hle, -⟩
    · exact .inl ⟨hfold, hzero⟩
    · exact .inr ⟨hbet, hge, hle⟩

theorem actionApplied_told (c : Choices) : (played s heap hand').broadcastActionApplied c
    (s.tableManager.heap player).id action amount = (played s heap hand').broadcastJson c
      (.actionApplied ((bookOf s.tableManager.heap hand).applied action amount)) := by
  obtain ⟨other, hother, hplayer, hne, hturn, hnext, -⟩ := played_turn h hhand happly
  obtain ⟨p, q, hpq, hdiff, -⟩ := players_pair h hhand
  have hplayers := (TableManager.applyAction_hand happly).1
  have hinv := played_inv h hhand happly
  have hid : (s.tableManager.heap player).id = (heap player).id :=
    congrArg Presence.id (applyAction_presence happly player).symm
  have hget : (played s heap hand').tableManager.getPlayer (s.tableManager.heap player).id
      = some player := by
    rw [hid]
    exact hinv.getPlayer ((h.playing hand hhand).1.mem player hplayer)
  have honTurn := bookOf_onTurn s.tableManager.heap hpq hdiff hplayer hturn
  have honTurn' := bookOf_onTurn heap (hplayers.trans hpq) hdiff (hplayers ▸ hother) hnext
  have hwaiting' := bookOf_waiting heap (hplayers.trans hpq) hdiff (hplayers ▸ hother)
    hnext (hplayers ▸ hplayer) hne.symm
  simp only [broadcastActionApplied, hget, Book.applied, ← bookOf_acts h hhand happly, honTurn,
    honTurn', hwaiting']
  simp only [played, idOf, hnext, applied_id happly]
  rfl

end Acted

/-- Who is left alone in a hand is on turn. -/
theorem winner_onTurn {players : List PlayerRef} {hand : Hand} (hplay : Playing players hand)
    (hcon : Contested hand) (hfew : (activePlayers hand).length ≤ 1) :
    ∃ winner, hand.currentPlayerToAct = some winner ∧ activePlayers hand = [winner] := by
  rcases hcon with hun | hone
  · obtain ⟨p, q, hpq, -⟩ := hplay.two
    simp [hun.activePlayers hpq] at hfew
  · exact hone

theorem afterAction_told (h : TableInv Contested s.tableManager s.nextRef) {hand : Hand}
    (hhand : s.hand = some hand) {turn : PlayerRef} (hturn : hand.currentPlayerToAct = some turn)
    (c : Choices) (applied : List Effect) :
    let b := bookOf s.tableManager.heap hand
    ∃ amount, (s.afterAction c applied).effects = applied ++
      ((s.playerSessions.lookup (s.tableManager.heap turn).id).toList.map fun listener =>
        .send listener (.actionRequest b.request)) ++
      if b.folded = true then s.broadcastJson c (.handCompleted b.completed) ++ [.toppedUp amount]
      else [] := by
  intro b
  have hcurrent : s.tableManager.table.currentHand = some hand := hhand
  obtain ⟨hplay, hcon⟩ := h.playing hand hhand
  have hasked := sendActionRequest_eq (actionRequest_told h hhand hturn)
  have hfolded : b.folded = decide ((activePlayers hand).length ≤ 1) := isHandComplete_playing hplay
  unfold afterAction
  simp only [hcurrent, hturn, isHandComplete_playing hplay, hasked, hfolded]
  by_cases hfew : (activePlayers hand).length ≤ 1
  · obtain ⟨winner, hwon, hone⟩ := winner_onTurn hplay hcon hfew
    have hcompleted := handCompleted_told h hhand hwon hone c
    simp only [hfew, hcompleted, decide_true, Bool.not_true, Bool.false_eq_true, if_false, if_true]
    exact ⟨_, List.append_assoc _ _ _⟩
  · simp only [hfew, decide_false, Bool.not_false, Bool.false_eq_true, if_true, if_false,
      List.append_nil]
    exact ⟨0, rfl⟩

/-- What each of the two has when the winner is paid and both are topped up. -/
theorem settled_pair (heap : Heap) {hand : Hand} {p q : PlayerRef} (hpq : hand.players = [p, q])
    (hne : p ≠ q) {winner r : PlayerRef} (hturn : hand.currentPlayerToAct = some winner)
    (hwinner : winner ∈ hand.players) (hr : r ∈ hand.players) {c : Chair}
    (hc : c = (if r = winner then (chairOf (heap r)).win hand.pot else chairOf (heap r)).topUp) :
    (c.id, c.stack) ∈ (bookOf heap hand).settled := by
  subst hc
  have htopped : ∀ (a : Account) (c : Chair), a.playerId = c.id → a.stack = c.stack →
      (c.topUp.id, c.topUp.stack) = (a.playerId, a.topUp.stack) := by
    intro a c hid hstack
    unfold Account.topUp Chair.topUp
    rw [hstack, hid]
    split_ifs <;> simp [hstack]
  have hsettled : (bookOf heap hand).settled = if winner = q
      then [((heap p).id, (accountOf heap hand p).topUp.stack),
        ((heap q).id, ((accountOf heap hand q).win hand.pot).topUp.stack)]
      else [((heap p).id, ((accountOf heap hand p).win hand.pot).topUp.stack),
        ((heap q).id, (accountOf heap hand q).topUp.stack)] := by
    by_cases hq : winner = q <;> simp [Book.settled, bookOf, hpq, hturn, hq, accountOf, Account.win]
  rw [hpq, List.mem_pair] at hwinner hr
  rw [hsettled]
  rcases hwinner with rfl | rfl <;> rcases hr with rfl | rfl
  · rw [if_neg hne, if_pos rfl, htopped ((accountOf heap hand r).win hand.pot) _ rfl rfl]
    exact List.mem_cons_self ..
  · rw [if_neg hne, if_neg hne.symm, htopped (accountOf heap hand r) _ rfl rfl]
    exact List.mem_cons_of_mem _ (List.mem_cons_self ..)
  · rw [if_pos rfl, if_neg hne, htopped (accountOf heap hand r) _ rfl rfl]
    exact List.mem_cons_self ..
  · rw [if_pos rfl, if_pos rfl, htopped ((accountOf heap hand r).win hand.pot) _ rfl rfl]
    exact List.mem_cons_of_mem _ (List.mem_cons_self ..)

/-! ### What the rules leave as it is -/

namespace Play
variable {g : Play}

def holdings (g : Play) : List (String × ℤ) := g.chairs.map fun c => (c.id, c.stack)

theorem mem_changeOne {id : String} {f : Chair → Chair} {c : Chair}
    (hc : c ∈ (g.changeOne id f).chairs) : c ∈ g.chairs ∨ ∃ d ∈ g.chairs, c = f d := by
  rw [changeOne, chairs_change] at hc
  obtain ⟨d, hd, rfl⟩ := List.mem_map.mp hc
  by_cases hid : d.id = id
  · exact .inr ⟨d, hd, if_pos hid⟩
  · rw [if_neg hid]
    exact .inl hd

theorem holdings_changeOne (id : String) {f : Chair → Chair} (hid : ∀ c, (f c).id = c.id)
    (hstack : ∀ c, (f c).stack = c.stack) : (g.changeOne id f).holdings = g.holdings := by
  rw [holdings, holdings, changeOne, chairs_change, List.map_map]
  refine List.map_congr_left fun c _ => ?_
  by_cases hc : c.id = id
  · simp only [Function.comp_apply, if_pos hc, hid, hstack]
  · simp only [Function.comp_apply, if_neg hc]

theorem sit_full (hfirst : g.first.isSome = true) (hsecond : g.second.isSome = true)
    (id uuid : String) : g.sit id uuid = g := by
  obtain ⟨p, hp⟩ := Option.isSome_iff_exists.mp hfirst
  obtain ⟨q, hq⟩ := Option.isSome_iff_exists.mp hsecond
  simp only [sit, hp, hq, ite_self]

theorem chairs_start (g : Play) (uuid : String) : (g.start uuid).chairs = g.chairs := by
  obtain ⟨first, second, deal⟩ := g
  cases first <;> cases second <;> rfl

theorem topUp_full {c : Chair} (h : c.stack = startingStack) : c.topUp.stack = startingStack := by
  have hless : ¬c.stack < topUpThreshold := by
    rw [h]
    decide
  rw [Chair.topUp, if_neg hless, h]

theorem topUp_ge (c : Chair) : topUpThreshold ≤ c.topUp.stack := by
  unfold Chair.topUp
  split_ifs with hless
  · exact (by decide : topUpThreshold ≤ targetStack)
  · exact not_lt.mp hless

theorem topUp_of_ge {c : Chair} (h : topUpThreshold ≤ c.stack) : c.topUp = c :=
  if_neg (not_lt.mpr h)

/-- Before the hand everybody has his starting stack. -/
theorem next_full (hdeal : g.deal = none) (hfull : ∀ c ∈ g.chairs, c.stack = startingStack)
    (a : Ask) : ∀ c ∈ (g.next a).chairs, c.stack = startingStack := by
  have hchange : ∀ id, ∀ f : Chair → Chair, (∀ d, d.stack = startingStack →
      (f d).stack = startingStack) → ∀ c ∈ (g.changeOne id f).chairs, c.stack = startingStack := by
    intro id f hf c hc
    rcases mem_changeOne hc with hc | ⟨d, hd, rfl⟩
    · exact hfull c hc
    · exact hf d (hfull d hd)
  cases a with
  | sits id uuid =>
    rw [next, sit]
    split_ifs
    · exact hfull
    · obtain ⟨first, second, deal⟩ := g
      cases first with
      | none =>
        simp only [chairs_start]
        intro c hc
        rcases List.mem_append.mp hc with hc | hc
        · obtain rfl := Option.some.inj (Option.mem_toList.mp hc)
          rfl
        · exact hfull c (List.mem_append_right _ hc)
      | some p =>
        cases second with
        | none =>
          simp only [chairs_start]
          intro c hc
          rcases List.mem_append.mp hc with hc | hc
          · exact hfull c (List.mem_append_left _ hc)
          · obtain rfl := Option.some.inj (Option.mem_toList.mp hc)
            rfl
        | some q => exact hfull
  | acts id handId action amount =>
    rw [next, act, hdeal]
    exact hfull
  | tops id => exact hchange id _ fun _ => topUp_full
  | leaves id => exact hchange id _ fun _ hd => hd
  | returns id => exact hchange id _ fun _ hd => hd
  | sitsOut id => exact hchange id _ fun _ hd => hd

end Play

/-! ### Reading -/

/-- The last message is about the hand, and no action of the player on turn. -/
def Book.After (b : Book) (last : Server.Message) : Prop :=
  last.OfHand ∧ ∀ m, last = .actionApplied m → m.playerId ≠ b.onTurn.playerId

theorem Book.topUp_onTurn {b b' : Book} {playerId : String} {newStack : ℤ}
    (h : b.topUp playerId newStack = some b') : b'.onTurn.playerId = b.onTurn.playerId := by
  have hkept : ∀ a : Account, a.topUp.playerId = a.playerId := by
    intro a
    unfold Account.topUp
    split_ifs <;> rfl
  unfold Book.topUp at h
  split_ifs at h
  all_goals
    obtain rfl := Option.some.inj h
    simp only [Book.onTurn]
    split_ifs <;> simp only [hkept]

theorem Book.After.topUp {b b' : Book} {last : Server.Message} (h : b.After last)
    {playerId : String} {newStack : ℤ} (htop : b.topUp playerId newStack = some b') :
    b'.After last := by
  refine ⟨h.1, fun m heq => ?_⟩
  rw [Book.topUp_onTurn htop]
  exact h.2 m heq

namespace Reader
variable {b : Book} {last : Server.Message} {action : String} {amount : ℤ}

theorem hears_new {reader : Reader} {message : Server.Message} (h : reader.last ≠ some message) :
    reader.hearMessage message = reader.take message := if_neg h

theorem hears_again {reader : Reader} {message : Server.Message} (h : reader.last = some message) :
    reader.hearMessage message = some reader := if_pos h

/-- Messages he does not write down. -/
theorem hears_other {message : Server.Message} (hhand : ¬message.OfHand)
    (htop : ∀ playerId newStack, message ≠ .topUpAck playerId newStack) (reader : Reader) :
    reader.hearMessage message = some reader := by
  unfold hearMessage
  split_ifs
  · rfl
  · cases message with
    | handStarted | actionApplied | actionRequest | handCompleted => exact absurd trivial hhand
    | topUpAck playerId newStack => exact absurd rfl (htop playerId newStack)
    | _ => cases reader <;> rfl

theorem hears_opening {m : HandStarted} (h : Book.opening m = some b) :
    hearMessage .waiting (.handStarted m) = some (.reading b (.handStarted m)) :=
  congrArg (Option.map fun b => reading b (.handStarted m)) h

theorem hears_applied (hallows : b.Allows action amount) (hafter : b.After last) :
    hearMessage (.reading b last) (.actionApplied (b.applied action amount))
      = some (.reading (b.act action amount) (.actionApplied (b.applied action amount))) := by
  rw [hears_new]
  · exact if_pos ⟨hallows, rfl⟩
  · intro hsame
    exact hafter.2 _ (Option.some.inj hsame) rfl

theorem hears_request (h : last ≠ .actionRequest b.request) :
    hearMessage (.reading b last) (.actionRequest b.request)
      = some (.reading b (.actionRequest b.request)) := by
  rw [hears_new]
  · exact if_pos rfl
  · exact fun hsame => h (Option.some.inj hsame)

theorem hears_completed (hfolded : b.folded = true) (h : last ≠ .handCompleted b.completed) :
    hearMessage (.reading b last) (.handCompleted b.completed)
      = some (.closed b.settled (.handCompleted b.completed)) := by
  rw [hears_new]
  · exact if_pos ⟨hfolded, rfl⟩
  · exact fun hsame => h (Option.some.inj hsame)

theorem hears_topUp (h : last.OfHand) (playerId : String) (newStack : ℤ) :
    hearMessage (.reading b last) (.topUpAck playerId newStack)
      = (b.topUp playerId newStack).map fun b => .reading b last := by
  refine hears_new fun hsame => ?_
  rw [Option.some.inj hsame] at h
  exact h

theorem hears_lateTopUp {settled : List (String × ℤ)} {playerId : String} {newStack : ℤ}
    (h : (playerId, newStack) ∈ settled) (last : Server.Message) :
    hearMessage (.closed settled last) (.topUpAck playerId newStack)
      = some (.closed settled last) := by
  unfold hearMessage
  split_ifs
  · rfl
  · exact if_pos h

theorem act_after (hids : b.first.playerId ≠ b.second.playerId) (action : String) (amount : ℤ) :
    (b.act action amount).After (.actionApplied (b.applied action amount)) := by
  refine ⟨trivial, fun m heq => ?_⟩
  obtain rfl := Server.Message.actionApplied.inj heq
  cases hturn : b.secondToAct with
  | true =>
    simp only [Book.applied, Book.act, Book.onTurn, hturn, if_true, Bool.not_true,
      Bool.false_eq_true, if_false]
    exact hids.symm
  | false =>
    simp only [Book.applied, Book.act, Book.onTurn, hturn, if_true, Bool.not_false,
      Bool.false_eq_true, if_false]
    exact hids

end Reader

/-- What the reader has in his books is the hand of the server. -/
inductive Follows (s : GameSession) : Reader → Prop
  | waits (hnone : s.hand = none) (hfree : s.tableManager.table.seat2 = none)
      (hstacks : ∀ c ∈ (playOf s).chairs, c.stack = startingStack)
      (hdealer : s.tableManager.table.dealerButtonPosition = defaultDealerPosition) :
      Follows s .waiting
  | reads {hand : Hand} {last : Server.Message} (hhand : s.hand = some hand)
      (hafter : (bookOf s.tableManager.heap hand).After last) :
      Follows s (.reading (bookOf s.tableManager.heap hand) last)
  | closes {settled : List (String × ℤ)} {last : Server.Message} (hnone : s.hand = none)
      (hfull : s.tableManager.table.seat2.isSome = true)
      (hsettled : ∀ x ∈ (playOf s).holdings, x ∈ settled ∧ topUpThreshold ≤ x.2) :
      Follows s (.closed settled last)

/-! ### Actions -/

section Actions
variable {b : Book} {action : String} {amount : ℤ} {c : Choices}

/-- The action, and the request if a session is there to be asked. -/
theorem reads_action {last : Server.Message} (hallows : b.Allows action amount)
    (hafter : b.After last) (hids : b.first.playerId ≠ b.second.playerId)
    (hne : s.playerSessions.entries ≠ []) (c : Choices) (asked : Option SessionId) :
    ∃ last', (b.act action amount).After last' ∧
        (∀ m, last' ≠ .handCompleted m) ∧
      Reader.monitor.hearAll (.reading b last)
        (s.broadcastJson c (.actionApplied (b.applied action amount)) ++
          asked.toList.map fun listener =>
            .send listener (.actionRequest (b.act action amount).request))
        = some (.reading (b.act action amount) last') := by
  have hread : Reader.monitor.hearAll (.reading b last)
      (s.broadcastJson c (.actionApplied (b.applied action amount)))
        = some (.reading (b.act action amount) (.actionApplied (b.applied action amount))) :=
    hearAll_broadcast (m := Reader.monitor) (fun _ => Reader.hears_applied hallows hafter)
      (fun _ => Reader.hears_again rfl) hne c
  rw [Monitor.hearAll_append_of hread]
  cases asked with
  | none =>
    exact ⟨_, Reader.act_after hids action amount, fun _ => Server.Message.noConfusion, rfl⟩
  | some listener =>
    refine ⟨.actionRequest (b.act action amount).request,
      ⟨trivial, fun _ => Server.Message.noConfusion⟩, fun _ => Server.Message.noConfusion, ?_⟩
    have hasked : Reader.monitor.hear
        (.reading (b.act action amount) (.actionApplied (b.applied action amount)))
        (.send listener (.actionRequest (b.act action amount).request)) = some (.reading
          (b.act action amount) (.actionRequest (b.act action amount).request)) :=
      @Reader.hears_request (b.act action amount) (.actionApplied (b.applied action amount))
        (by simp)
    rw [Option.toList_some, List.map_singleton, Monitor.hearAll_cons, hasked]
    rfl

theorem step_played (h : TableInv Unfolded s.tableManager s.nextRef) {session : SessionId}
    {json : Json} {player : PlayerRef} {hand : Hand}
    (hacts : Acts s session json c action amount player hand) :
    ∃ heap hand', PlayerAction.applyAction s.tableManager.heap hand player action amount c.now
        = (true, heap, hand') ∧
      let outcome := (played s heap hand').afterAction c
        ((played s heap hand').broadcastActionApplied c (s.tableManager.heap player).id action
          amount)
      s.step (.message session (some json) c) = (outcome.state, outcome.effects) := by
  obtain ⟨haction, hhand, ⟨playerId, hsession, hget⟩, hvalid⟩ := hacts
  obtain ⟨payload, hpayload, hfields⟩ := actionOf_eq_some.mp haction
  obtain ⟨heap, hand', happly, hyes⟩ := accepted_of_valid hhand hget hvalid c.now
  obtain ⟨heq, -⟩ := handleAction_accepted h hfields hsession hhand rfl hyes
  refine ⟨heap, hand', happly, ?_⟩
  rw [step_action hpayload, heq, (getPlayer_mem hget).2]
  rfl

/-- The stacks of the table when the hand is over are the settled ones. -/
theorem ended_settled (h : TableInv Contested s.tableManager s.nextRef) {hand : Hand}
    (hhand : s.hand = some hand) (hfew : (activePlayers hand).length ≤ 1) (σ : MapOrder) :
    let ended := { s with tableManager := (s.tableManager.endHand σ).1 }
    ended.hand = none ∧ ended.tableManager.table.seat2 = s.tableManager.table.seat2 ∧
      ∀ x ∈ (playOf ended).holdings,
        x ∈ (bookOf s.tableManager.heap hand).settled ∧ topUpThreshold ≤ x.2 := by
  intro ended
  obtain ⟨hplay, hcon⟩ := h.playing hand hhand
  obtain ⟨winner, hturn, hone⟩ := winner_onTurn hplay hcon hfew
  obtain ⟨t, ht, hturn'⟩ := hplay.turn
  obtain rfl := Option.some.inj (hturn'.symm.trans hturn)
  obtain ⟨p, q, hpq, hne, -⟩ := players_pair h hhand
  obtain ⟨tm', added, hend, -, hinv, -⟩ := h.endHand hhand hfew σ
  have hinv' : TableInv Unfolded ended.tableManager s.nextRef := by
    show TableInv Unfolded (s.tableManager.endHand σ).1 s.nextRef
    rwa [hend]
  obtain ⟨hseat1, hseat2, hnone, hchair⟩ := endHand_plays h hhand hone σ
  refine ⟨hnone, hseat2, fun x hx => ?_⟩
  obtain ⟨c, hc, rfl⟩ := List.mem_map.mp hx
  obtain ⟨r, hr, rfl⟩ := (mem_chairs (s := ended) hinv').mp hc
  have hr' : r ∈ s.tableManager.players := by
    rw [h.mem_players_iff, ← hseat1, ← hseat2]
    exact hinv'.mem_players_iff.mp hr
  have hstood := hchair r hr'
  refine ⟨settled_pair s.tableManager.heap hpq hne hturn ht
    ((h.hand_players hhand).mem_iff.mpr hr') hstood, ?_⟩
  show topUpThreshold ≤ (chairOf ((s.tableManager.endHand σ).1.heap r)).stack
  rw [hstood]
  exact Play.topUp_ge _

theorem acts_read (h : TableInv Unfolded s.tableManager s.nextRef)
    (hne : s.playerSessions.entries ≠ []) {session : SessionId} {json : Json} {player : PlayerRef}
    {hand : Hand} (hacts : Acts s session json c action amount player hand)
    {last : Server.Message} (hafter : (bookOf s.tableManager.heap hand).After last) :
    ∃ reader, Reader.monitor.hearAll (.reading (bookOf s.tableManager.heap hand) last)
        (s.step (.message session (some json) c)).2 = some reader ∧
      Follows (s.step (.message session (some json) c)).1 reader := by
  have hhand := hacts.current
  obtain ⟨heap, hand', happly, hstep⟩ := step_played h hacts
  obtain ⟨other, -, -, -, -, hnext, -⟩ := played_turn h hhand happly
  have hinv := played_inv h hhand happly
  obtain ⟨hplay', hcon⟩ := hinv.playing hand' rfl
  obtain ⟨p, q, hpq, -, hids⟩ := players_pair h hhand
  obtain ⟨hfirst, hsecond⟩ := bookOf_accounts s.tableManager.heap hpq
  obtain ⟨last', hafter', hnot, hread⟩ := reads_action (s := played s heap hand')
    (bookOf_allows h hhand happly) hafter (by rw [hfirst, hsecond]; exact hids) hne c
    ((played s heap hand').playerSessions.lookup ((played s heap hand').tableManager.heap other).id)
  rw [hstep, actionApplied_told h hhand happly]
  obtain ⟨topped, htold⟩ := afterAction_told hinv rfl hnext c ((played s heap hand').broadcastJson c
    (.actionApplied ((bookOf s.tableManager.heap hand).applied action amount)))
  have hstate := afterAction_state hinv rfl c ((played s heap hand').broadcastJson c
    (.actionApplied ((bookOf s.tableManager.heap hand).applied action amount)))
  have hbook : bookOf (played s heap hand').tableManager.heap hand'
      = (bookOf s.tableManager.heap hand).act action amount := bookOf_acts h hhand happly
  have hfolded : ((bookOf s.tableManager.heap hand).act action amount).folded
      = decide ((activePlayers hand').length ≤ 1) := by
    rw [← hbook]
    exact isHandComplete_playing hplay'
  dsimp only
  rw [htold, hbook, Monitor.hearAll_append_of hread, hstate, hfolded]
  by_cases hfew : (activePlayers hand').length ≤ 1
  · simp only [hfew, decide_true, if_true]
    have hclosed : Reader.monitor.hearAll
        (.reading ((bookOf s.tableManager.heap hand).act action amount) last')
        ((played s heap hand').broadcastJson c (.handCompleted
          ((bookOf s.tableManager.heap hand).act action amount).completed))
          = some (.closed ((bookOf s.tableManager.heap hand).act action amount).settled
            (.handCompleted ((bookOf s.tableManager.heap hand).act action amount).completed)) :=
      hearAll_broadcast (m := Reader.monitor)
        (fun _ => Reader.hears_completed (by rw [hfolded, decide_eq_true hfew]) (hnot _))
        (fun _ => Reader.hears_again rfl) hne c
    obtain ⟨-, hfull⟩ := h.both (Option.isSome_iff_exists.mpr ⟨hand, hhand⟩)
    obtain ⟨hnone, hseat2, hsettled⟩ := ended_settled hinv rfl hfew c.tables
    rw [Monitor.hearAll_append_of hclosed]
    exact ⟨_, rfl, .closes hnone (hseat2 ▸ hfull) (hbook ▸ hsettled)⟩
  · simp only [hfew, decide_false, Bool.false_eq_true, if_false]
    exact ⟨_, rfl, hbook ▸ .reads rfl (hbook ▸ hafter')⟩

end Actions

/-! ### Steps without a word in the books -/

theorem askOf_cases {e : Event} {a : Ask} (h : askOf s e = some a) :
    (∃ id, a = .leaves id ∨ a = .returns id ∨ a = .sitsOut id) ∨ (∃ id uuid, a = .sits id uuid) ∨
      (∃ session json c id handId action amount, e = .message session (some json) c ∧
        a = .acts id handId action amount ∧ actionOf json c = some (handId, action, amount) ∧
        s.sessionToPlayer.lookup session = some id) ∨
      ∃ session json c id, e = .message session (some json) c ∧ a = .tops id ∧
        asksTopUp json = true := by
  cases e with
  | connect | timerExpires => cases h
  | message session text c =>
    cases text with
    | none => cases h
    | some json =>
      simp only [askOf] at h
      split at h
      · split at h
        · split_ifs at h
          exact .inl ⟨_, .inr (.inl (Option.some.inj h).symm)⟩
        · obtain ⟨id, -, rfl⟩ := Option.map_eq_some_iff.mp h
          exact .inr (.inl ⟨id, _, rfl⟩)
      · split at h
        · rename_i handId action amount haction
          obtain ⟨id, hsession, rfl⟩ := Option.map_eq_some_iff.mp h
          exact .inr (.inr (.inl ⟨_, _, _, id, _, _, _, rfl, rfl, haction, hsession⟩))
        · split_ifs at h with htop
          obtain ⟨id, -, rfl⟩ := Option.map_eq_some_iff.mp h
          exact .inr (.inr (.inr ⟨_, _, _, id, rfl, rfl, htop⟩))
  | disconnect session c =>
    obtain ⟨id, -, rfl⟩ := Option.map_eq_some_iff.mp h
    exact .inl ⟨id, .inl rfl⟩
  | timerRuns i c =>
    simp only [askOf] at h
    split at h
    · exact .inl ⟨_, .inr (.inr (Option.some.inj h).symm)⟩
    · cases h

theorem step_full (h : TableInv Unfolded s.tableManager s.nextRef)
    (horder : SeatOrder s.tableManager.table) (hnone : s.hand = none)
    (hfull : ∀ c ∈ (playOf s).chairs, c.stack = startingStack) (e : Event) :
    ∀ c ∈ (playOf (s.step e).1).chairs, c.stack = startingStack := by
  have hdeal : (playOf s).deal = none := by simp only [playOf, hnone, Option.map_none]
  rw [step_plays h horder]
  cases askOf s e with
  | none => exact hfull
  | some a => exact Play.next_full hdeal hfull a

/-- Neither an action that is applied nor a top-up. -/
structure Hushed (s : GameSession) (e : Event) : Prop where
  acts : ∀ session json c action amount player hand, e = .message session (some json) c →
    ¬Acts s session json c action amount player hand
  tops : ∀ session json c, e = .message session (some json) c → asksTopUp json = false

/-- Nothing else moves the chips of two players. -/
theorem Hushed.holdings {e : Event} (hhushed : Hushed s e)
    (h : TableInv Unfolded s.tableManager s.nextRef) (horder : SeatOrder s.tableManager.table)
    (hone : s.tableManager.table.seat1.isSome = true)
    (htwo : s.tableManager.table.seat2.isSome = true) :
    (playOf (s.step e).1).holdings = (playOf s).holdings := by
  have hstays : ∀ id, ∀ f : Chair → Chair, (∀ c, (f c).id = c.id) → (∀ c, (f c).stack = c.stack) →
      ((playOf s).changeOne id f).holdings = (playOf s).holdings :=
    fun id _ => Play.holdings_changeOne id
  rw [step_plays h horder]
  cases hask : askOf s e with
  | none => rfl
  | some a =>
    rw [Option.elim_some]
    rcases askOf_cases hask with ⟨id, rfl | rfl | rfl⟩ | ⟨id, uuid, rfl⟩ |
      ⟨session, json, c, id, handId, action, amount, rfl, rfl, haction, hsession⟩ |
      ⟨session, json, c, id, rfl, -, htop⟩
    · exact hstays id _ (fun _ => rfl) fun _ => rfl
    · exact hstays id _ (fun _ => rfl) fun _ => rfl
    · exact hstays id _ (fun _ => rfl) fun _ => rfl
    · exact congrArg Play.holdings (Play.sit_full (by simpa [playOf] using hone)
        (by simpa [playOf] using htwo) id uuid)
    · cases hhand : s.hand with
      | none =>
        have hdeal : (playOf s).deal = none := by simp only [playOf, hhand, Option.map_none]
        rw [Play.next, Play.act, hdeal]
      | some hand =>
        have hdeal : (playOf s).deal = some (dealOf s.tableManager.heap hand) := by
          simp only [playOf, hhand, Option.map_some]
        rw [Play.next, Play.act_eq hdeal, if_neg]
        rintro ⟨rfl, hallowed⟩
        obtain ⟨player, hget, hvalid⟩ := (allowed_iff h hhand).mp hallowed
        exact hhushed.acts _ _ _ _ _ player hand rfl
          ⟨haction, hhand, ⟨id, hsession, hget⟩, hvalid⟩
    · rw [hhushed.tops _ _ _ rfl] at htop
      cases htop

theorem bookOf_congr {heap heap' : Heap} {hand : Hand} {p q : PlayerRef}
    (hpq : hand.players = [p, q]) (hsame : ∀ r ∈ hand.players,
      (heap' r).id = (heap r).id ∧ (heap' r).stack = (heap r).stack) :
    bookOf heap' hand = bookOf heap hand := by
  obtain ⟨hpid, hpstack⟩ := hsame p (by simp [hpq])
  obtain ⟨hqid, hqstack⟩ := hsame q (by simp [hpq])
  simp only [bookOf, accountOf, hpq, List.getD_cons_zero, List.getD_cons_succ, hpid, hpstack, hqid,
    hqstack]

theorem Hushed.book {e : Event} (hhushed : Hushed s e)
    (h : TableInv Unfolded s.tableManager s.nextRef) (horder : SeatOrder s.tableManager.table)
    {hand : Hand} (hhand : s.hand = some hand) : (s.step e).1.hand = some hand ∧
      bookOf (s.step e).1.tableManager.heap hand = bookOf s.tableManager.heap hand := by
  obtain ⟨hhand', hids⟩ := (step_moves h e).keeps h hhand hhushed.acts
  have h' := (step_accounted h e).inv
  obtain ⟨p, q, hpq, -⟩ := players_pair h hhand
  obtain ⟨hone, htwo⟩ := h.both (Option.isSome_iff_exists.mpr ⟨hand, hhand⟩)
  refine ⟨hhand', bookOf_congr hpq fun r hr => ⟨hids r, ?_⟩⟩
  have hr' := (h'.playing hand hhand').1.mem r hr
  have hmem : ((s.tableManager.heap r).id, (s.tableManager.heap r).stack)
      ∈ (playOf (s.step e).1).holdings := by
    rw [hhushed.holdings h horder hone htwo]
    exact List.mem_map.mpr
      ⟨_, (mem_chairs h).mpr ⟨r, (h.playing hand hhand).1.mem r hr, rfl⟩, rfl⟩
  obtain ⟨c, hc, heq⟩ := List.mem_map.mp hmem
  obtain ⟨t, ht, rfl⟩ := (mem_chairs h').mp hc
  obtain ⟨hid, hstack⟩ := Prod.mk.inj heq
  obtain rfl := (id_eq_iff h' (h'.getPlayer hr') ht).mp (hid.trans (hids r).symm)
  exact hstack

/-- A top-up is acknowledged only to who asks for it. -/
theorem topUpAck_asks {session listener : SessionId} {json : Json} {c : Choices}
    {playerId : String} {newStack : ℤ} (htype : OfType (some json) "top_up")
    (hmem : .send listener (.topUpAck playerId newStack)
      ∈ (s.step (.message session (some json) c)).2) : asksTopUp json = true := by
  have hother : ∀ {type payload}, payloadOf json type = some payload → type = "top_up" := by
    intro type payload hpayload
    obtain ⟨json', heq, hread⟩ := htype
    obtain rfl := Option.some.inj heq
    exact Except.ok.inj ((payloadOf_eq_some.mp hpayload).1.symm.trans hread)
  rcases dispatch_cases s json session c with
    ⟨htop, -⟩ | ⟨-, ⟨payload, hjoin, -⟩ | ⟨payload, haction, -⟩ | heq | ⟨e, heq⟩⟩
  · exact htop
  · exact absurd (hother hjoin) (by decide)
  · exact absurd (hother haction) (by decide)
  · simp only [step, handleMessage, heq] at hmem
    cases List.mem_singleton.mp hmem
  · obtain ⟨code, message, hstop⟩ := caught_stop s session e
    simp only [step, handleMessage, heq, hstop] at hmem
    cases List.mem_singleton.mp hmem

section Unread
variable {e : Event} (hhushed : Hushed s e)
  (hstarts : ∀ session json c, e = .message session (some json) c → ¬SecondJoins s session json)
include hhushed hstarts

theorem Hushed.noTopUp (horder : SeatOrder s.tableManager.table) {listener : SessionId}
    {message : Server.Message} (hmem : .send listener message ∈ (s.step e).2) (playerId : String)
    (newStack : ℤ) : message ≠ .topUpAck playerId newStack := by
  rintro rfl
  by_cases ha : Announces s e
  · cases ha with
    | acts hacts => exact hhushed.acts _ _ _ _ _ _ _ rfl hacts
    | starts hsecond => exact hstarts _ _ _ rfl hsecond
    | @takes session json c _ provided _ hjoin habsent hfree =>
      obtain ⟨seat, heffects⟩ := step_takes hjoin habsent hfree c
      rw [heffects] at hmem
      rcases List.mem_append.mp hmem with hmem | hmem
      · cases broadcastJson_send hmem
      · cases List.mem_singleton.mp hmem
    | leaves hsession hget =>
      rw [step_leaves hsession hget] at hmem
      cases broadcastJson_send hmem
    | removes hready hget =>
      rw [(removalRuns hready hget _).2] at hmem
      cases broadcastJson_send hmem
  · rcases message_of_quiet horder ha hmem with ⟨_, -, heq⟩ | ⟨text, c, rfl, hreply⟩
    · cases heq
    · cases hreply with
      | topUpAck htype =>
        obtain ⟨json, rfl, hread⟩ := htype
        have htop := topUpAck_asks ⟨json, rfl, hread⟩ hmem
        rw [hhushed.tops _ _ _ rfl] at htop
        cases htop

theorem Hushed.unread (horder : SeatOrder s.tableManager.table) (reader : Reader) :
    Reader.monitor.hearAll reader (s.step e).2 = some reader := by
  refine Monitor.hearAll_ignored fun effect he => ?_
  cases effect with
  | send listener message =>
    exact Reader.hears_other (step_quiet horder hhushed.acts hstarts listener message he)
      (hhushed.noTopUp hstarts horder he) reader
  | _ => rfl

theorem Follows.quiet (h : TableInv Unfolded s.tableManager s.nextRef)
    (horder : SeatOrder s.tableManager.table) {reader : Reader} (hfollows : Follows s reader) :
    Follows (s.step e).1 reader := by
  have hmove := step_moves h e
  cases hfollows with
  | waits hnone hfree hstacks hdealer =>
    have hstacks' := step_full h horder hnone hstacks e
    rcases hmove.table with htable | ⟨_, hhand, -⟩ |
      ⟨session, json, c, name, provided, playerId, rfl, hjoin, habsent, hsession, hnew, hseats⟩
    · refine .waits ?_ ?_ hstacks' ?_
      · exact (congrArg Table.currentHand htable).trans hnone
      · exact (congrArg Table.seat2 htable).trans hfree
      · exact (congrArg Table.dealerButtonPosition htable).trans hdealer
    · cases hnone.symm.trans hhand
    · rcases hseats.seats with ⟨-, -, htwo⟩ | ⟨hone, -⟩
      · rw [hfree] at htwo
        refine .waits ?_ htwo hstacks' (hseats.dealer.trans hdealer)
        rw [Option.eq_none_iff_forall_not_mem]
        intro hand hhand
        have hfull := (hseats.hand hand hhand).1
        rw [htwo] at hfull
        cases hfull
      · exact absurd ⟨name, provided, playerId, hjoin, habsent, hsession, hnew, hone, hfree⟩
          (hstarts _ _ _ rfl)
  | reads hhand hafter =>
    obtain ⟨hhand', hbook⟩ := hhushed.book h horder hhand
    rw [← hbook] at hafter ⊢
    exact .reads hhand' hafter
  | closes hnone hfull hsettled =>
    obtain ⟨hover, -⟩ := Over.moves ⟨hnone, hfull⟩ horder hmove
    rw [← hhushed.holdings h horder (horder.first_isSome hfull) hfull] at hsettled
    exact .closes hover.noHand hover.full hsettled

end Unread

/-! ### Top-ups -/

section TopUp
variable {Ok : Hand → Prop} (h : TableInv Ok s.tableManager s.nextRef) {hand : Hand}
  (hhand : s.hand = some hand) {playerId : String} {player : PlayerRef}
  (hget : s.tableManager.getPlayer playerId = some player)

theorem accountOf_topUp (heap : Heap) (hand : Hand) (player p : PlayerRef) :
    accountOf (Function.update heap player (heap player).topUp) hand p
      = if p = player then (accountOf heap hand p).topUp else accountOf heap hand p := by
  by_cases hp : p = player
  · subst hp
    by_cases hless : (heap p).stack < topUpThreshold <;>
      simp [accountOf, Account.topUp, Player.topUp, Player.needsTopUp, hless]
  · rw [if_neg hp, accountOf, Function.update_of_ne hp, accountOf]

include h hhand hget

theorem bookOf_topUp : (bookOf s.tableManager.heap hand).topUp playerId
    (s.tableManager.heap player).topUp.stack = some (bookOf (Function.update s.tableManager.heap
      player (s.tableManager.heap player).topUp) hand) := by
  obtain ⟨p, q, hpq, hne, hids⟩ := players_pair h hhand
  obtain ⟨hfirst, hsecond⟩ := bookOf_accounts s.tableManager.heap hpq
  obtain ⟨hmem, hid⟩ := getPlayer_mem hget
  have hplayer : player ∈ [p, q] := hpq ▸ (h.hand_players hhand).mem_iff.mpr hmem
  have htopped := accountOf_topUp s.tableManager.heap hand player
  have hstack : (s.tableManager.heap player).topUp.stack
      = (accountOf s.tableManager.heap hand player).topUp.stack := by
    have hself := congrArg Account.stack (htopped player)
    rw [if_pos rfl, accountOf, Function.update_self] at hself
    exact hself
  rw [Book.topUp, hfirst, hsecond, hstack, ← hid]
  rcases List.mem_pair.mp hplayer with rfl | rfl
  · simp only [accountOf_playerId, if_true, bookOf, hpq, List.getD_cons_zero,
      List.getD_cons_succ, htopped, if_neg hne.symm]
  · simp only [accountOf_playerId, if_neg hids, if_true, bookOf, hpq, List.getD_cons_zero,
      List.getD_cons_succ, htopped, if_neg hne]

end TopUp

theorem hears_ack (reader : Reader) (amount : ℤ) (session : SessionId) (message : Server.Message) :
    Reader.monitor.hearAll reader [.toppedUp amount, .send session message]
      = reader.hearMessage message := by
  rw [Monitor.hearAll_cons]
  exact Option.bind_fun_some _

theorem tops_read (h : TableInv Unfolded s.tableManager s.nextRef) {reader : Reader}
    (hfollows : Follows s reader) {json : Json} (htop : asksTopUp json = true)
    (session : SessionId) (c : Choices) :
    ∃ reader', Reader.monitor.hearAll reader (s.step (.message session (some json) c)).2
        = some reader' ∧ Follows (s.step (.message session (some json) c)).1 reader' := by
  have heq : s.dispatch json session c = s.handleTopUp session := by
    rcases dispatch_cases s json session c with ⟨-, heq⟩ | ⟨hno, -⟩
    · exact heq
    · rw [hno] at htop
      cases htop
  have hrejected : ∀ code text, Reader.monitor.hearAll reader
      (caught (s.reject session code text) session).2 = some reader := fun code text =>
    congrArg (Option.bind · some) (@Reader.hears_other (.error code text) id
      (fun _ _ => Server.Message.noConfusion) reader)
  simp only [step, handleMessage, heq]
  cases hsession : s.sessionToPlayer.lookup session with
  | none =>
    simp only [handleTopUp, hsession]
    exact ⟨reader, hrejected _ _, hfollows⟩
  | some playerId =>
    cases hget : s.tableManager.getPlayer playerId with
    | none =>
      simp only [handleTopUp, hsession, hget]
      exact ⟨reader, hrejected _ _, hfollows⟩
    | some player =>
      have hplays := tops_plays h hsession
      simp only [handleTopUp, hsession, hget, caught, hears_ack] at hplays ⊢
      cases hfollows with
      | waits hnone hfree hstacks hdealer =>
        have hdeal : (playOf s).deal = none := by simp only [playOf, hnone, Option.map_none]
        have hstack : (s.tableManager.heap player).topUp.stack = startingStack := by
          have hfull := hstacks _ ((mem_chairs h).mpr ⟨player, (getPlayer_mem hget).1, rfl⟩)
          exact (congrArg Chair.stack (chairOf_topUp _)).trans (Play.topUp_full hfull)
        refine ⟨.waiting, if_pos hstack, .waits hnone hfree ?_ hdealer⟩
        rw [hplays]
        exact Play.next_full hdeal hstacks (.tops playerId)
      | @reads hand last hhand hafter =>
        have hbook := bookOf_topUp h hhand hget
        refine ⟨.reading (bookOf (Function.update s.tableManager.heap player
          (s.tableManager.heap player).topUp) hand) last, ?_, ?_⟩
        · rw [Reader.hears_topUp hafter.1]
          exact congrArg (Option.map _) hbook
        · exact .reads (s := s.updatePlayer player Player.topUp) hhand (hafter.topUp hbook)
      | closes hnone hfull hsettled =>
        obtain ⟨hplayer, hid⟩ := getPlayer_mem hget
        obtain ⟨hmem, hge⟩ := hsettled ((s.tableManager.heap player).id, _)
          (List.mem_map.mpr ⟨_, (mem_chairs h).mpr ⟨player, hplayer, rfl⟩, rfl⟩)
        have hstays : (s.tableManager.heap player).topUp.stack
            = (s.tableManager.heap player).stack := by
          have htopped := Play.topUp_of_ge (c := chairOf (s.tableManager.heap player)) hge
          rw [← chairOf_topUp] at htopped
          exact congrArg Chair.stack htopped
        refine ⟨_, Reader.hears_lateTopUp ?_ _, .closes hnone hfull ?_⟩
        · rw [hstays, ← hid]
          exact hmem
        · rw [hplays]
          intro x hx
          obtain ⟨c, hc, rfl⟩ := List.mem_map.mp hx
          rcases Play.mem_changeOne hc with hc | ⟨d, hd, rfl⟩
          · exact hsettled _ (List.mem_map.mpr ⟨c, hc, rfl⟩)
          · have hd' := hsettled _ (List.mem_map.mpr ⟨d, hd, rfl⟩)
            rw [Play.topUp_of_ge hd'.2]
            exact hd'

/-! ### The announcement of the hand -/

def shown (x : Player) : DealtPlayer := ⟨x.id, x.stack, x.holeCards.map Card.toString⟩

theorem twoEach_of_dealt (heap : Heap) {deck : Deck} {p q : PlayerRef} (hne : p ≠ q)
    (hnext : deck.nextCard = 0) :
    let dealt := (dealHoleCards heap deck [p, q]).1
    TwoEach (shown (dealt p)).holeCards (shown (dealt q)).holeCards := by
  intro dealt
  obtain ⟨hcards, htwo⟩ := @dealHoleCards_cards heap deck [p, q] (by simpa using hne)
    (by simp [hnext])
  have hnodup : ((dealt p).holeCards ++ (dealt q).holeCards).Nodup := by
    have hdeck := deck.standard.nodup_iff.mpr createStandardDeck_nodup
    have htop := (hdeck.sublist (List.drop_sublist deck.nextCard _)).sublist
      (List.take_sublist (2 * [p, q].length) _)
    rw [← hcards] at htop
    simpa using htop
  simp only [TwoEach, shown, ← List.map_append, List.length_map]
  refine ⟨htwo p (by simp), htwo q (by simp), hnodup.map Card.toString_injective, ?_⟩
  intro text htext
  obtain ⟨card, -, rfl⟩ := List.mem_map.mp htext
  rw [Card.ofString_ok_iff.mpr rfl]
  rfl

/-- The hand has just been started. -/
structure Begun (s : GameSession) (hand : Hand) (p q : PlayerRef) : Prop where
  current : s.hand = some hand
  players : hand.players = [p, q]
  turn : s.tableManager.table.dealerButtonPosition = defaultDealerPosition →
    hand.currentPlayerToAct = some q
  pot : hand.pot = 0
  bets : hand.playerBets = []
  minRaise : hand.minRaise = bigBlind
  cards : p ≠ q →
    TwoEach (shown (s.tableManager.heap p)).holeCards (shown (s.tableManager.heap q)).holeCards

theorem startWhenReady_begun (hnone : s.hand = none) (c : Choices) (acked : List Effect)
    (hstarts : (s.startWhenReady c acked).state.hand.isSome = true) :
    ∃ hand p q, Begun (s.startWhenReady c acked).state hand p q := by
  by_cases hready : s.tableManager.table.isReadyForHand = true
  · obtain ⟨hone, htwo⟩ := isReadyForHand_seats hready
    obtain ⟨p, hp⟩ := Option.isSome_iff_exists.mp hone
    obtain ⟨q, hq⟩ := Option.isSome_iff_exists.mp htwo
    have hstart := startHand_eq hready hnone hp hq c.uuid c.constructed c.shuffled
    simp only [startWhenReady, hready, hstart, Bool.not_true, Bool.false_eq_true, if_false, if_true]
    refine ⟨_, p, q, {
      current := rfl
      players := TableManager.firstHand_players hp hq _ _
      turn := fun hdealer => (if_pos hdealer).trans hq
      pot := rfl
      bets := rfl
      minRaise := rfl
      cards := fun hne => twoEach_of_dealt _ hne rfl }⟩
  · rw [startWhenReady, if_pos (by simp [hready]), hnone] at hstarts
    cases hstarts

theorem opening_told (h : TableInv Unfolded s.tableManager s.nextRef) {hand : Hand}
    {p q : PlayerRef} (hbegun : Begun s hand p q)
    (hdealer : s.tableManager.table.dealerButtonPosition = defaultDealerPosition)
    (hstacks : ∀ c ∈ (playOf s).chairs, c.stack = startingStack) :
    Book.opening (s.startedPayload hand) = some (bookOf s.tableManager.heap hand) := by
  obtain ⟨hplay, hun⟩ := h.playing hand hbegun.current
  obtain ⟨p', q', hpq', hne, hids⟩ := players_pair h hbegun.current
  have hpq := hbegun.players
  obtain ⟨rfl, rfl⟩ : p = p' ∧ q = q' := by simpa [hpq] using hpq'
  have hfull : ∀ r ∈ hand.players, (s.tableManager.heap r).stack = startingStack := fun r hr =>
    hstacks _ ((mem_chairs h).mpr ⟨r, hplay.mem r hr, rfl⟩)
  have hgoes : isHandComplete hand = false := by
    rw [isHandComplete_playing hplay, hun.activePlayers hpq]
    rfl
  have htotal : ∀ r, totalOf hand r = 0 := by
    intro r
    rw [totalOf, hbegun.bets]
    split <;> rfl
  have hplayers : (s.startedPayload hand).players
      = [shown (s.tableManager.heap p), shown (s.tableManager.heap q)] := by
    rw [startedPayload, hpq]
    rfl
  have hopens : Opens (s.startedPayload hand) (shown (s.tableManager.heap p))
      (shown (s.tableManager.heap q)) := by
    refine ⟨?_, hids, hfull p (by simp [hpq]), hfull q (by simp [hpq]), hbegun.cards hne⟩
    rw [← hplayers]
    simp only [startedPayload, hdealer, hbegun.turn hdealer, hbegun.minRaise]
    rfl
  rw [Book.opening, hplayers]
  refine (if_pos hopens).trans ?_
  simp only [startedPayload, bookOf, accountOf, hpq, htotal, hbegun.turn hdealer, hbegun.pot, hgoes,
    List.getD_cons_zero, List.getD_cons_succ, List.getElem?_cons_zero, List.getElem?_cons_succ,
    beq_self_eq_true]
  rfl

theorem starts_read (h : TableInv Unfolded s.tableManager s.nextRef)
    (horder : SeatOrder s.tableManager.table) (hne : s.playerSessions.entries ≠ [])
    (hfollows : Follows s .waiting) {session : SessionId} {json : Json}
    (hsecond : SecondJoins s session json) (c : Choices) :
    ∃ reader, Reader.monitor.hearAll .waiting (s.step (.message session (some json) c)).2
        = some reader ∧ Follows (s.step (.message session (some json) c)).1 reader := by
  cases hfollows with
  | waits hnone hfree hstacks hdealer =>
    obtain ⟨t, acked, playerId, hnone', hstate, hstarts, hsame, heffects⟩ := step_begins h hsecond c
    obtain ⟨hand, p, q, hbegun⟩ := startWhenReady_begun hnone' c acked (hstate ▸ hstarts)
    rw [← hstate] at hbegun
    obtain ⟨_, _, _, hjoin, habsent, hsession, hnew, hone, -⟩ := hsecond
    obtain ⟨hseats, -⟩ := step_seats h hjoin habsent hsession hnew hone hfree c
    have hopening := opening_told (step_accounted h _).inv hbegun (hseats.dealer.trans hdealer)
      (step_full h horder hnone hstacks _)
    rw [heffects, broadcastHandStarted_eq hbegun.current]
    have hread := @hearAll_broadcast _ _ Reader.monitor .waiting (.reading _ (.handStarted _))
      (.handStarted _) (fun _ => Reader.hears_opening hopening) (fun _ => Reader.hears_again rfl)
      (hsame ▸ hne) c
    exact ⟨_, (Monitor.hearAll_append_of rfl _).trans hread,
      .reads hbegun.current ⟨trivial, fun _ => Server.Message.noConfusion⟩⟩

/-! ### Runs -/

theorem Follows.step (h : TableInv Unfolded s.tableManager s.nextRef)
    (horder : SeatOrder s.tableManager.table)
    (hinverse : Inverse s.playerSessions s.sessionToPlayer) {reader : Reader}
    (hfollows : Follows s reader) (e : Event) :
    ∃ reader', Reader.monitor.hearAll reader (s.step e).2 = some reader' ∧
      Follows (s.step e).1 reader' := by
  by_cases hacts : ∃ session json c action amount player hand,
      e = .message session (some json) c ∧ Acts s session json c action amount player hand
  · obtain ⟨session, json, c, action, amount, player, hand, rfl, hacts⟩ := hacts
    obtain ⟨_, hsession, -⟩ := hacts.registered
    cases hfollows with
    | waits hnone => cases hnone.symm.trans hacts.current
    | reads hhand hafter =>
      obtain rfl := Option.some.inj (hhand.symm.trans hacts.current)
      exact acts_read h (entries_ne_nil hinverse hsession) hacts hafter
    | closes hnone => cases hnone.symm.trans hacts.current
  by_cases hstarts : ∃ session json c,
      e = .message session (some json) c ∧ SecondJoins s session json
  · obtain ⟨session, json, c, rfl, hsecond⟩ := hstarts
    have hjoins := hsecond
    obtain ⟨_, _, _, -, -, hsession, -, -, hfree⟩ := hjoins
    cases hfollows with
    | waits hnone hfree' hstacks hdealer =>
      exact starts_read h horder (entries_ne_nil hinverse hsession)
        (.waits hnone hfree' hstacks hdealer) hsecond c
    | reads hhand => cases (h.of_free_seat (.inr hfree)).1.symm.trans hhand
    | closes _ hfull =>
      rw [hfree] at hfull
      cases hfull
  by_cases htops : ∃ session json c,
      e = .message session (some json) c ∧ asksTopUp json = true
  · obtain ⟨session, json, c, rfl, htop⟩ := htops
    exact tops_read h hfollows htop session c
  · have hhushed : Hushed s e :=
      ⟨fun _ _ _ _ _ _ _ he ha => hacts ⟨_, _, _, _, _, _, _, he, ha⟩,
        fun _ _ _ he => Bool.eq_false_iff.mpr fun htop => htops ⟨_, _, _, he, htop⟩⟩
    have hnot : ∀ session json c, e = .message session (some json) c →
        ¬SecondJoins s session json := fun _ _ _ he hs => hstarts ⟨_, _, _, he, hs⟩
    exact ⟨reader, hhushed.unread hnot horder reader, hfollows.quiet hhushed hnot h horder⟩

/-- In every run the reader is never surprised, and his book is the hand in progress. -/
theorem books_are_kept (config : Config) {es : List Event} (hsessions : FreshSessions es)
    (hids : FreshIds es) : ∃ reader,
    Reader.monitor.hearAll .waiting ((machine config).trace es) = some reader ∧
      ∀ hand, ((machine config).run es).hand = some hand → ∃ last,
        reader = .reading (bookOf ((machine config).run es).tableManager.heap hand) last := by
  obtain ⟨reader, hread, hfollows⟩ := Monitor.hears_run_of_ok (m := Reader.monitor)
    (machine config) (R := Follows) (fun es => FreshSessions es ∧ FreshIds es)
    (fun es e ⟨hsessions, hids⟩ => ⟨hsessions.of_prefix (List.prefix_append es [e]),
      hids.of_prefix (List.prefix_append es [e])⟩)
    (.waits rfl rfl (fun _ hc => by cases hc) rfl)
    (fun es _ e ⟨hsessions, hids⟩ hfollows =>
      hfollows.step (run_inv config es) (run_seatOrder config es)
        (run_paired config (hsessions.of_prefix (List.prefix_append es [e]))
          (hids.of_prefix (List.prefix_append es [e]))).inverse e)
    es ⟨hsessions, hids⟩
  refine ⟨reader, hread, fun hand hhand => ?_⟩
  cases hfollows with
  | waits hnone => cases hnone.symm.trans hhand
  | @reads _ last hhand' =>
    obtain rfl := Option.some.inj (hhand.symm.trans hhand')
    exact ⟨last, rfl⟩
  | closes hnone => cases hnone.symm.trans hhand

theorem books_are_kept_shortStack : ∃ reader,
    Reader.monitor.hearAll .waiting ((machine ⟨30000, 60000⟩).trace shortStack) = some reader ∧
      ∀ hand, ((machine ⟨30000, 60000⟩).run shortStack).hand = some hand → ∃ last, reader =
        .reading (bookOf ((machine ⟨30000, 60000⟩).run shortStack).tableManager.heap hand) last :=
  books_are_kept ⟨30000, 60000⟩ (by decide) (by decide)

end HeadsUp.Game
