import HeadsUp.Server.Betting

/-!
# A hand and its history

The history of a hand is all there is to it: from the state in which the hand
was started its entries give back the pot, the stacks, the bets, the flags, the
minimum raise and the turn. The entries are added up as integers, which is what the
code's `int`s do while the stacks of a hand sum to one (`run_fits`).
-/

namespace HeadsUp.Server
open HeadsUp.Core HeadsUp.Lib

/-! ### Replay -/

/-- What the actions of a hand change. -/
structure Ledger where
  pot : ℤ
  stackOf : PlayerRef → ℤ
  playerBets : List ℤ
  folded : List Bool
  minRaise : ℤ
  turn : Option PlayerRef

def ledger (heap : Heap) (hand : Hand) : Ledger where
  pot := hand.pot
  stackOf p := (heap p).stack
  playerBets := hand.playerBets
  folded := hand.folded
  minRaise := hand.minRaise
  turn := hand.currentPlayerToAct

def otherPlayer (players : List PlayerRef) (p : PlayerRef) : Option PlayerRef :=
  players.find? fun q => q ≠ p

/-- One entry: a fold sets the flag of its player, any other moves the amount
from his stack to the pot and to his bet. -/
def Ledger.replay (players : List PlayerRef) (l : Ledger) (entry : ActionHistory) : Ledger :=
  let i := players.idxOf entry.player
  if entry.action = "fold" then
    { l with
      folded := (growTo l.folded i false).set i true
      turn := otherPlayer players entry.player }
  else
    { pot := l.pot + entry.amount
      stackOf := Function.update l.stackOf entry.player (l.stackOf entry.player - entry.amount)
      playerBets := (growTo l.playerBets i 0).set i (l.playerBets.getD i 0 + entry.amount)
      folded := l.folded
      minRaise := if entry.action = "raise" then entry.amount else l.minRaise
      turn := otherPlayer players entry.player }

def Ledger.replayAll (players : List PlayerRef) (l : Ledger) (history : List ActionHistory) :
    Ledger :=
  history.foldl (Ledger.replay players) l

/-- The actors alternate, and the player on turn begins. -/
def TakeTurns (players : List PlayerRef) : Option PlayerRef → List ActionHistory → Prop
  | _, [] => True
  | turn, entry :: rest =>
    turn = some entry.player ∧ TakeTurns players (otherPlayer players entry.player) rest

/-- Nobody appears after his own fold. -/
def NoActionAfterFold (history : List ActionHistory) : Prop :=
  history.Pairwise fun entry later => entry.action = "fold" → later.player ≠ entry.player

theorem replay_turn (players : List PlayerRef) (l : Ledger) (entry : ActionHistory) :
    (l.replay players entry).turn = otherPlayer players entry.player := by
  rw [Ledger.replay]
  split_ifs <;> rfl

theorem replayAll_concat (players : List PlayerRef) (l : Ledger) (history : List ActionHistory)
    (entry : ActionHistory) : l.replayAll players (history ++ [entry])
      = (l.replayAll players history).replay players entry := by
  simp [Ledger.replayAll]

/-- The next actor is the one the replay has on turn. -/
theorem takeTurns_concat (players : List PlayerRef) (l : Ledger) (history : List ActionHistory)
    (entry : ActionHistory) :
    TakeTurns players l.turn (history ++ [entry]) ↔
      TakeTurns players l.turn history ∧ (l.replayAll players history).turn = some entry.player := by
  induction history generalizing l with
  | nil => simp [TakeTurns, Ledger.replayAll]
  | cons first rest ih =>
    have hrest := ih (l.replay players first)
    rw [replay_turn] at hrest
    rw [List.cons_append, TakeTurns, TakeTurns, hrest, and_assoc]
    rfl

/-! ### One action -/

section Acts
variable {heap heap' : Heap} {hand hand' : Hand} {player : PlayerRef} {action : String}
  {amount : ℤ} {now : ℕ}
  (happly : PlayerAction.applyAction heap hand player action amount now = (true, heap', hand'))

theorem recordAction_turn (hplay : Playing hand.players hand)
    (hturn : hand.currentPlayerToAct = some player) (acted : Hand)
    (hplayers : acted.players = hand.players)
    (hstill : acted.currentPlayerToAct = hand.currentPlayerToAct) (action : String) (amount : ℤ)
    (now : ℕ) : (recordAction acted player action amount now).currentPlayerToAct
      = otherPlayer hand.players player := by
  obtain ⟨p, q, hpq, hne, -⟩ := hplay.two
  simp only [Core.recordAction, hplayers, hstill, hturn, hpq, otherPlayer, List.length_cons,
    List.length_nil, List.getElem?_cons_zero, List.getElem?_cons_succ, Option.some.injEq, if_true]
  by_cases hp : player = p
  · simp [hp, Ne.symm hne]
  · simp [hp, Ne.symm hp]

include happly in
/-- An action changes the ledger as its entry is replayed. -/
theorem applied_ledger (hplay : Playing hand.players hand) :
    ledger heap' hand' = (ledger heap hand).replay hand.players ⟨player, action, amount, now⟩ := by
  obtain ⟨hcan, hturn, hact⟩ := PlayerAction.applyAction_cases happly
  obtain ⟨-, i, hi, -⟩ := PlayerAction.canAct_iff.mp hcan
  have hidx : hand.players.idxOf player = i := by
    obtain ⟨-, hidx⟩ := List.findIdx?_eq_some_iff_findIdx_eq.mp hi
    exact hidx
  rcases hact with ⟨rfl, rfl, rfl, rfl⟩ | ⟨haction, -, -, rfl, rfl⟩
  · have hnext := recordAction_turn hplay hturn (PlayerAction.foldSeat hand player) rfl rfl "fold" 0
      now
    simp only [ledger, Ledger.replay, hidx, if_true, hnext]
    simp only [Core.recordAction, PlayerAction.foldSeat, hi]
  · have hfold : action ≠ "fold" := by
      rcases haction with rfl | ⟨rfl, -⟩ <;> decide
    have hnext := recordAction_turn hplay hturn
      (PlayerAction.placeBet heap hand player action amount).2 rfl rfl action amount now
    have hstacks : (fun p => ((PlayerAction.placeBet heap hand player action amount).1 p).stack)
        = Function.update (fun p => (heap p).stack) player ((heap player).stack - amount) := by
      funext p
      show (heap p).stack + (Pi.single player (-amount) : PlayerRef → ℤ) p = _
      by_cases hp : p = player
      · rw [hp, Pi.single_eq_same, Function.update_self, sub_eq_add_neg]
      · rw [Pi.single_eq_of_ne hp, Function.update_of_ne hp, add_zero]
    simp only [ledger, Ledger.replay, hidx, hfold, if_false, hnext, hstacks]
    simp only [Core.recordAction, PlayerAction.placeBet, PlayerAction.betSeat, hi]

end Acts

/-! ### Runs -/

namespace TableManager

/-- The hand is what its history makes of the hand that was started. -/
structure Replayed (begun : TableManager) (started : Hand) (tm : TableManager) (hand : Hand) :
    Prop where
  id : hand.id = started.id
  players : hand.players = started.players
  turns : TakeTurns started.players started.currentPlayerToAct hand.history
  folds : NoActionAfterFold hand.history
  ledger : ledger tm.heap hand
    = (ledger begun.heap started).replayAll started.players hand.history

/-- The hand in progress after `ops` was started in `begun`, and some hand has
been in progress ever since. -/
def Began (objects : Heap) (ops : List TableOp) (begun : TableManager) (started : Hand) : Prop :=
  ∃ pre uuid constructed shuffled rest,
    ops = pre ++ .startHand uuid constructed shuffled :: rest ∧
      ((machine objects).run pre).table.currentHand = none ∧
      begun = (machine objects).run (pre ++ [.startHand uuid constructed shuffled]) ∧
      begun.table.currentHand = some started ∧
      ∀ mid, mid <+: rest → ((machine objects).run
        (pre ++ .startHand uuid constructed shuffled :: mid)).table.currentHand.isSome = true

/-- What an action must be to be accepted. -/
def Allowed (tm : TableManager) (playerId action : String) (amount : ℤ) : Prop :=
  ∃ hand player, tm.table.currentHand = some hand ∧ tm.getPlayer playerId = some player ∧
    hand.currentPlayerToAct = some player ∧ player ∈ activePlayers hand ∧
    (action = "fold" ∧ amount = 0 ∨
      (action = "call" ∨ action = "raise" ∧ hand.minRaise ≤ amount) ∧ 0 ≤ amount ∧
        amount ≤ (tm.heap player).stack)

theorem Began.concat {objects : Heap} {ops : List TableOp} {begun : TableManager}
    {started : Hand} (h : Began objects ops begun started) {op : TableOp}
    (hsome : ((machine objects).run (ops ++ [op])).table.currentHand.isSome = true) :
    Began objects (ops ++ [op]) begun started := by
  obtain ⟨pre, uuid, constructed, shuffled, rest, rfl, hnone, hbegun, hstarted, hrest⟩ := h
  refine ⟨pre, uuid, constructed, shuffled, rest ++ [op], by simp, hnone, hbegun, hstarted, ?_⟩
  intro mid hmid
  rcases List.prefix_concat_iff.mp hmid with rfl | hmid
  · simpa using hsome
  · exact hrest mid hmid

section Step
variable {tm tm' begun : TableManager} {started hand : Hand}

theorem Replayed.congr (h : Replayed begun started tm hand)
    (hstacks : ∀ p, (tm'.heap p).stack = (tm.heap p).stack) : Replayed begun started tm' hand := by
  have hsame : Server.ledger tm'.heap hand = Server.ledger tm.heap hand := by
    simp only [Server.ledger, hstacks]
  exact { h with ledger := hsame.trans h.ledger }

theorem Replayed.begin (hhistory : hand.history = []) : Replayed tm hand tm hand where
  id := rfl
  players := rfl
  turns := by
    rw [hhistory]
    trivial
  folds := by
    rw [hhistory]
    exact List.Pairwise.nil
  ledger := by
    rw [hhistory]
    rfl

/-- Whoever has folded is not active any more. -/
def FoldsShow (hand : Hand) : Prop :=
  ∀ entry ∈ hand.history, entry.action = "fold" → entry.player ∉ activePlayers hand

theorem Replayed.acts (h : Replayed begun started tm hand) (hshow : FoldsShow hand)
    (hplay : Playing hand.players hand) {player : PlayerRef} {action : String} {amount : ℤ}
    {now : ℕ} {hand' : Hand}
    (happly : PlayerAction.applyAction tm.heap hand player action amount now
      = (true, tm'.heap, hand')) : Replayed begun started tm' hand' ∧ FoldsShow hand' := by
  obtain ⟨hcan, hturn, hact⟩ := PlayerAction.applyAction_cases happly
  have hhistory := applied_history happly
  have hplayers := (applyAction_hand happly).1
  have hactive := applied_active happly hplay.nodup
  have hmem : player ∈ activePlayers hand :=
    (mem_activePlayers hplay.nodup).mpr (PlayerAction.canAct_iff.mp hcan).2
  have hid : hand'.id = hand.id := by
    rcases hact with ⟨-, -, -, rfl⟩ | ⟨-, -, -, -, rfl⟩ <;> rfl
  constructor
  · exact {
      id := hid.trans h.id
      players := hplayers.trans h.players
      turns := by
        have hstarted : started.currentPlayerToAct
            = (Server.ledger begun.heap started).turn := rfl
        rw [hhistory, hstarted, takeTurns_concat, ← h.ledger]
        exact ⟨h.turns, hturn⟩
      folds := by
        rw [hhistory, NoActionAfterFold, List.pairwise_append]
        refine ⟨h.folds, List.pairwise_singleton _ _, ?_⟩
        intro entry hentry last hlast hfold heq
        obtain rfl := List.mem_singleton.mp hlast
        exact hshow entry hentry hfold (heq ▸ hmem)
      ledger := by
        rw [hhistory, replayAll_concat, ← h.ledger, ← h.players]
        exact applied_ledger happly hplay }
  · intro entry hentry hfold hno
    rw [hactive] at hno
    rw [hhistory] at hentry
    rcases List.mem_append.mp hentry with hentry | hentry
    · exact hshow entry hentry hfold hno.1
    · obtain rfl := List.mem_singleton.mp hentry
      exact hno.2 ⟨hfold, rfl⟩

end Step

/-- A hand in progress after an operation: the one there was, a new one, or the
one an action made of it. -/
theorem does_progress {tm tm' : TableManager} {op : TableOp} {outs : List TableOut}
    (hdoes : Does tm op tm' outs) {hand : Hand} (hhand : tm'.table.currentHand = some hand) :
    (tm.table.currentHand = some hand ∧ ∀ p, (tm'.heap p).stack = (tm.heap p).stack) ∨
    (tm.table.currentHand = none ∧ hand.history = [] ∧
      ∃ uuid constructed shuffled, op = .startHand uuid constructed shuffled) ∨
    ∃ was player action amount now, tm.table.currentHand = some was ∧
      PlayerAction.applyAction tm.heap was player action amount now = (true, tm'.heap, hand) := by
  cases hdoes with
  | fails | idle => exact .inl ⟨hhand, fun _ => rfl⟩
  | @seats player seat table heap _ hothers hself hseat =>
    refine .inl ⟨?_, fun p => ?_⟩
    · rcases hseat with ⟨-, -, rfl⟩ | ⟨-, -, rfl⟩ <;> exact hhand
    · show (heap p).stack = _
      by_cases hp : p = player
      · rw [hp, hself]
      · rw [hothers p hp]
  | removes _ htable =>
    refine .inl ⟨?_, fun _ => rfl⟩
    rcases htable with ⟨-, rfl⟩ | ⟨-, -, rfl⟩ | ⟨-, -, rfl⟩ <;> exact hhand
  | starts _ _ hnone _ =>
    obtain rfl := Option.some.inj hhand
    exact .inr (.inl ⟨hnone, rfl, _, _, _, rfl⟩)
  | acts hwas _ happly =>
    obtain rfl := Option.some.inj hhand
    exact .inr (.inr ⟨_, _, _, _, _, hwas, happly⟩)
  | ends => cases hhand

theorem run_replayed (objects : Heap) (ops : List TableOp) {hand : Hand}
    (hhand : ((machine objects).run ops).table.currentHand = some hand) :
    ∃ begun started, Began objects ops begun started ∧ started.history = [] ∧
      Replayed begun started ((machine objects).run ops) hand ∧ FoldsShow hand := by
  induction ops using List.reverseRecOn generalizing hand with
  | nil => cases hhand
  | append_singleton ops op ih =>
    have hsome := Option.isSome_iff_exists.mpr ⟨hand, hhand⟩
    have hdoes := step_does ((machine objects).run ops) op
    have hrun : (machine objects).run (ops ++ [op]) = (((machine objects).run ops).stepOp op).1 :=
      (machine objects).run_concat ops op
    rw [← hrun] at hdoes
    rcases does_progress hdoes hhand with ⟨hwas, hstacks⟩ | ⟨hnone, hempty, hstart⟩ |
      ⟨was, player, action, amount, now, hwas, happly⟩
    · obtain ⟨begun, started, hbegan, hempty, hreplayed, hshow⟩ := ih hwas
      exact ⟨begun, started, hbegan.concat hsome, hempty, hreplayed.congr hstacks, hshow⟩
    · obtain ⟨uuid, constructed, shuffled, rfl⟩ := hstart
      refine ⟨_, hand, ⟨ops, uuid, constructed, shuffled, [], rfl, hnone, rfl, hhand, ?_⟩, hempty,
        Replayed.begin hempty, ?_⟩
      · intro mid hmid
        rw [List.prefix_nil.mp hmid]
        exact hsome
      · rw [FoldsShow, hempty]
        simp
    · obtain ⟨begun, started, hbegan, hempty, hreplayed, hshow⟩ := ih hwas
      have hplay := ((run_rep objects ops).hand was hwas).playing
      obtain ⟨hreplayed', hshow'⟩ := hreplayed.acts hshow hplay happly
      exact ⟨begun, started, hbegan.concat hsome, hempty, hreplayed', hshow'⟩

theorem processPlayerAction_allowed {tm : TableManager} {playerId action : String} {amount : ℤ}
    {now : ℕ} (hplay : ∀ hand, tm.table.currentHand = some hand → hand.players.Nodup)
    (hok : (tm.processPlayerAction playerId action amount now).1 = true) :
    Allowed tm playerId action amount := by
  obtain ⟨hand, player, hhand, hget, hvalid⟩ := processPlayerAction_iff.mp hok
  obtain ⟨hcan, hturn, -, hact⟩ := PlayerAction.validateAction_iff.mp hvalid
  refine ⟨hand, player, hhand, hget, hturn, ?_, by tauto⟩
  exact (mem_activePlayers (hplay hand hhand)).mpr (PlayerAction.canAct_iff.mp hcan).2

/-- After any operations a hand in progress is the replay of its history, and
an action that is rejected, as any is that the rules do not allow, changes
nothing. -/
theorem hand_replayed (objects : Heap) (ops : List TableOp) :
    let tm := (machine objects).run ops
    (∀ hand, tm.table.currentHand = some hand → ∃ begun started,
      Began objects ops begun started ∧ started.history = [] ∧
        Replayed begun started tm hand) ∧
    ∀ playerId action amount now,
      (¬Allowed tm playerId action amount →
        (tm.processPlayerAction playerId action amount now).1 = false) ∧
      ((tm.processPlayerAction playerId action amount now).1 = false →
        (tm.processPlayerAction playerId action amount now).2 = tm) := by
  intro tm
  refine ⟨fun hand hhand => ?_, fun playerId action amount now => ⟨fun hno => ?_, fun hno => ?_⟩⟩
  · obtain ⟨begun, started, hbegan, hempty, hreplayed, -⟩ := run_replayed objects ops hhand
    exact ⟨begun, started, hbegan, hempty, hreplayed⟩
  · rw [← Bool.not_eq_true]
    intro hok
    exact hno (processPlayerAction_allowed
      (fun hand hhand => ((run_rep objects ops).hand hand hhand).playing.nodup) hok)
  · rcases processPlayerAction_cases tm playerId action amount now with hsame | hyes
    · rw [hsame]
    · obtain ⟨_, _, _, _, -, -, -, hyes⟩ := hyes
      rw [hyes] at hno
      cases hno

end TableManager
end HeadsUp.Server
