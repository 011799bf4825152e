import HeadsUp.Lib.Machine
import HeadsUp.Server.TableInvariant

/-!
# Runs of the table manager

The table manager's public operations in any order, on any player objects. What
an operation can do is said once; the invariant of the representation, the
owner of every player a hand refers to and the dealt cards follow from it. An
object that was removed keeps its fields. What is said of amounts is said of
integers: that they are `int`s is `run_fits`, and no flag, seat, card or owner
depends on it.
-/

namespace HeadsUp.Server
open HeadsUp.Core HeadsUp.Lib

inductive TableOp where
  | assignSeat (player : PlayerRef) (seat : ℤ)
  | removePlayer (playerId : String)
  | startHand (uuid : String) (constructed shuffled : Shuffle Card)
  | processPlayerAction (playerId action : String) (amount : ℤ) (now : ℕ)
  | endHand (tables : MapOrder)

inductive TableOut where
  | returned (b : Bool)
  | handEnded
  | threw (e : Exn)
  deriving DecidableEq, Repr

def TableOut.isFailure : TableOut → Bool
  | .returned b => !b
  | .handEnded => false
  | .threw _ => true

namespace TableManager

def stepOp (tm : TableManager) : TableOp → TableManager × List TableOut
  | .assignSeat player seat =>
    let r := tm.assignSeat player seat
    (r.2, [.returned r.1])
  | .removePlayer playerId =>
    let r := tm.removePlayer playerId
    (r.2, [.returned r.1])
  | .startHand uuid constructed shuffled =>
    let r := tm.startHand uuid constructed shuffled
    match r.2.2 with
    | some e => (r.2.1, [.threw e])
    | none => (r.2.1, [.returned r.1])
  | .processPlayerAction playerId action amount now =>
    let r := tm.processPlayerAction playerId action amount now
    (r.2, [.returned r.1])
  | .endHand tables =>
    let r := tm.endHand tables
    match r.2.2 with
    | some e => (r.1, [.threw e])
    | none => (r.1, if tm.table.currentHand.isSome then [.handEnded] else [])

/-- The player objects are whatever the callers have made. -/
def machine (objects : Heap) : Machine TableManager TableOp TableOut :=
  ⟨{ new with heap := objects }, stepOp⟩

/-! ### What an operation can do -/

/-- Each operation fails and changes nothing, or does its work. -/
inductive Does (tm : TableManager) : TableOp → TableManager → List TableOut → Prop
  | fails {op : TableOp} {out : TableOut} (hfails : out.isFailure = true) : Does tm op tm [out]
  | idle {tables : MapOrder} (hnone : tm.table.currentHand = none) : Does tm (.endHand tables) tm []
  | seats {player : PlayerRef} {seat : ℤ} {table : Table} {heap : Heap}
      (hids : ∀ p ∈ tm.players, (tm.heap p).id ≠ (tm.heap player).id)
      (hothers : ∀ p, p ≠ player → heap p = tm.heap p)
      (hself : heap player = { tm.heap player with seat })
      (hseat : seat = seat1 ∧ tm.table.seat1 = none ∧
          table = { tm.table with seat1 := some player } ∨
        seat = seat2 ∧ tm.table.seat2 = none ∧ table = { tm.table with seat2 := some player }) :
      Does tm (.assignSeat player seat) ⟨table, tm.players ++ [player], heap⟩ [.returned true]
  | removes {playerId : String} {player : PlayerRef} {table : Table}
      (hget : tm.getPlayer playerId = some player)
      (htable : tm.table.seat1 = some player ∧ table = { tm.table with seat1 := none } ∨
        tm.table.seat1 ≠ some player ∧ tm.table.seat2 = some player ∧
          table = { tm.table with seat2 := none } ∨
        tm.table.seat1 ≠ some player ∧ tm.table.seat2 ≠ some player ∧ table = tm.table) :
      Does tm (.removePlayer playerId) ⟨table, tm.players.erase player, tm.heap⟩ [.returned true]
  | starts {uuid : String} {constructed shuffled : Shuffle Card} {p q : PlayerRef} {heap : Heap}
      (hone : tm.table.seat1 = some p) (htwo : tm.table.seat2 = some q)
      (hnone : tm.table.currentHand = none)
      (hheap : heap = (dealHoleCards tm.heap ((Deck.new constructed).shuffle shuffled) [p, q]).1) :
      Does tm (.startHand uuid constructed shuffled) { tm with
        table := { tm.table with
          currentHand := some (firstHand tm uuid ((Deck.new constructed).shuffle shuffled))
          state := .handInProgress
          communityCards := []
          pot := 0 }
        heap } [.returned true]
  | acts {playerId action : String} {amount : ℤ} {now : ℕ} {hand hand' : Hand}
      {player : PlayerRef} {heap : Heap} (hhand : tm.table.currentHand = some hand)
      (hget : tm.getPlayer playerId = some player)
      (happly : PlayerAction.applyAction tm.heap hand player action amount now
        = (true, heap, hand')) :
      Does tm (.processPlayerAction playerId action amount now) { tm with
        heap
        table := { tm.table with currentHand := some hand', pot := hand'.pot } } [.returned true]
  | ends {tables : MapOrder} {hand : Hand} {winners : List PlayerRef}
      (hhand : tm.table.currentHand = some hand)
      (hwin : Poker.determineWinners tables tm.heap hand = .ok winners) :
      Does tm (.endHand tables) { tm with
        heap := (topUpAll (Pot.distributePot tm.heap { hand with winners } winners).1 tm.players).1
        table := { tm.table with
          pot := 0
          currentHand := none
          state := .waitingForPlayers
          communityCards := []
          dealerButtonPosition := (tm.table.dealerButtonPosition + 1).tmod (seat2 + 1) } }
        [.handEnded]

theorem assignSeat_does (tm : TableManager) (player : PlayerRef) (seat : ℤ) :
    Does tm (.assignSeat player seat) (tm.stepOp (.assignSeat player seat)).1
      (tm.stepOp (.assignSeat player seat)).2 := by
  by_cases hok : (tm.assignSeat player seat).1 = true
  · obtain ⟨hids, table, heap, htm, hothers, hself, hseat⟩ := assignSeat_cases hok
    simp only [stepOp, hok, htm]
    exact .seats hids hothers hself hseat
  · have hsame : tm.assignSeat player seat = (false, tm) := by
      unfold TableManager.assignSeat at hok ⊢
      grind
    simp only [stepOp, hsame]
    exact .fails rfl

theorem removePlayer_does (tm : TableManager) (playerId : String) :
    Does tm (.removePlayer playerId) (tm.stepOp (.removePlayer playerId)).1
      (tm.stepOp (.removePlayer playerId)).2 := by
  simp only [stepOp, removePlayer]
  cases hget : tm.getPlayer playerId with
  | none => exact .fails rfl
  | some player =>
    refine .removes hget ?_
    by_cases hone : tm.table.seat1 = some player
    · exact .inl ⟨hone, if_pos hone⟩
    by_cases htwo : tm.table.seat2 = some player
    · exact .inr (.inl ⟨hone, htwo, by rw [if_neg hone, if_pos htwo]⟩)
    · exact .inr (.inr ⟨hone, htwo, by rw [if_neg hone, if_neg htwo]⟩)

theorem startHand_does (tm : TableManager) (uuid : String) (constructed shuffled : Shuffle Card) :
    Does tm (.startHand uuid constructed shuffled)
      (tm.stepOp (.startHand uuid constructed shuffled)).1
      (tm.stepOp (.startHand uuid constructed shuffled)).2 := by
  by_cases hready : tm.table.isReadyForHand = true
  · cases hhand : tm.table.currentHand with
    | some hand =>
      simp only [stepOp, startHand, hready, hhand, Bool.not_true, Bool.false_eq_true, if_false,
        Option.isSome_some, if_true]
      exact .fails rfl
    | none =>
      obtain ⟨h1, h2⟩ := isReadyForHand_seats hready
      obtain ⟨p, hp⟩ := Option.isSome_iff_exists.mp h1
      obtain ⟨q, hq⟩ := Option.isSome_iff_exists.mp h2
      have hstart := startHand_eq hready hhand hp hq uuid constructed shuffled
      simp only [stepOp, hstart]
      exact .starts hp hq hhand rfl
  · simp only [stepOp, startHand, hready, Bool.not_false, if_true]
    exact .fails rfl

theorem processPlayerAction_does (tm : TableManager) (playerId action : String) (amount : ℤ)
    (now : ℕ) :
    Does tm (.processPlayerAction playerId action amount now)
      (tm.stepOp (.processPlayerAction playerId action amount now)).1
      (tm.stepOp (.processPlayerAction playerId action amount now)).2 := by
  rcases processPlayerAction_cases tm playerId action amount now with
    hno | ⟨hand, player, heap', hand', hhand, hget, happly, hyes⟩
  · simp only [stepOp, hno]
    exact .fails rfl
  · simp only [stepOp, hyes]
    exact .acts hhand hget happly

theorem step_of_valid {tm : TableManager} {playerId action : String} {amount : ℤ} {hand : Hand}
    {p : PlayerRef} (hhand : tm.table.currentHand = some hand) (hget : tm.getPlayer playerId = some p)
    (hvalid : PlayerAction.validateAction tm.heap hand p action amount = true) (now : ℕ) :
    ∃ heap hand', PlayerAction.applyAction tm.heap hand p action amount now = (true, heap, hand') ∧
      (tm.stepOp (.processPlayerAction playerId action amount now)).1 = { tm with
        heap
        table := { tm.table with currentHand := some hand', pot := hand'.pot } } := by
  obtain ⟨heap, hand', happly⟩ := PlayerAction.applyAction_of_valid hvalid now
  exact ⟨heap, hand', happly, by simp [stepOp, processPlayerAction, hhand, hget, hvalid, happly]⟩

theorem endHand_does (tm : TableManager) (tables : MapOrder) :
    Does tm (.endHand tables) (tm.stepOp (.endHand tables)).1 (tm.stepOp (.endHand tables)).2 := by
  cases hhand : tm.table.currentHand with
  | none =>
    simp only [stepOp, endHand, hhand]
    exact .idle hhand
  | some hand =>
    cases hwin : Poker.determineWinners tables tm.heap hand with
    | error e =>
      simp only [stepOp, endHand, hhand, hwin]
      exact .fails rfl
    | ok winners =>
      simp only [stepOp, endHand, hhand, hwin, Option.isSome_some, if_true]
      exact .ends hhand hwin

theorem step_does (tm : TableManager) (op : TableOp) :
    Does tm op (tm.stepOp op).1 (tm.stepOp op).2 := by
  cases op with
  | assignSeat player seat => exact assignSeat_does tm player seat
  | removePlayer playerId => exact removePlayer_does tm playerId
  | startHand uuid constructed shuffled => exact startHand_does tm uuid constructed shuffled
  | processPlayerAction playerId action amount now =>
    exact processPlayerAction_does tm playerId action amount now
  | endHand tables => exact endHand_does tm tables

/-! ### What every operation keeps -/

structure InPlay (hand : Hand) : Prop where
  playing : Playing hand.players hand
  noBoard : hand.communityCards = []
  minRaise : bigBlind ≤ hand.minRaise

/-- The player is in the seat named by his field, and in no other. -/
def InSeat (tm : TableManager) (p : PlayerRef) : Prop :=
  (tm.heap p).seat = seat1 ∧ tm.table.seat1 = some p ∧ tm.table.seat2 ≠ some p ∨
    (tm.heap p).seat = seat2 ∧ tm.table.seat2 = some p ∧ tm.table.seat1 ≠ some p

/-- What holds of the manager's fields, whatever the objects in its seats. -/
structure TableRep (tm : TableManager) : Prop where
  ids : (tm.players.map fun p => (tm.heap p).id).Nodup
  inSeat : ∀ p ∈ tm.players, InSeat tm p
  owned : ∀ p, tm.table.seat1 = some p ∨ tm.table.seat2 = some p → p ∈ tm.players
  state : tm.table.state
    = if tm.table.currentHand.isSome then .handInProgress else .waitingForPlayers
  pot : tm.table.pot = currentPot tm
  hand : ∀ hand, tm.table.currentHand = some hand → InPlay hand

theorem TableRep.nodup {tm : TableManager} (h : TableRep tm) : tm.players.Nodup :=
  List.Nodup.of_map _ h.ids

theorem TableRep.init (objects : Heap) : TableRep { new with heap := objects } where
  ids := List.nodup_nil
  inSeat := by simp [TableManager.new]
  owned := by simp [TableManager.new]
  state := rfl
  pot := rfl
  hand := by simp [TableManager.new]

theorem TableRep.congr_heap {tm : TableManager} (h : TableRep tm) {heap : Heap}
    (hsame : ∀ p ∈ tm.players, (heap p).id = (tm.heap p).id ∧ (heap p).seat = (tm.heap p).seat) :
    TableRep { tm with heap } :=
  { h with
    ids := by
      rw [List.map_congr_left fun p hp => (hsame p hp).1]
      exact h.ids
    inSeat := by
      intro p hp
      rw [InSeat]
      simp only [(hsame p hp).2]
      exact h.inSeat p hp }

theorem Dealt.same {heap heap' : Heap} (h : heap.Dealt heap') (p : PlayerRef) :
    (heap' p).id = (heap p).id ∧ (heap' p).seat = (heap p).seat := by
  obtain ⟨cards, hc⟩ := h p
  rw [hc]
  exact ⟨rfl, rfl⟩

theorem Credited.same {heap heap' : Heap} (h : heap.Credited heap') (p : PlayerRef) :
    (heap' p).id = (heap p).id ∧ (heap' p).seat = (heap p).seat := by
  obtain ⟨won, rfl, -⟩ := h
  exact ⟨rfl, rfl⟩

theorem applyAction_inPlay {heap heap' : Heap} {hand hand' : Hand} {player : PlayerRef}
    {action : String} {amount : ℤ} {now : ℕ} (h : InPlay hand)
    (happly : PlayerAction.applyAction heap hand player action amount now = (true, heap', hand')) :
    InPlay hand' := by
  obtain ⟨-, -, hact⟩ := PlayerAction.applyAction_cases happly
  rcases hact with ⟨-, -, -, rfl⟩ | ⟨haction, hge, -, -, rfl⟩
  · exact ⟨(h.playing.foldSeat player).recordAction player action amount now, h.noBoard, h.minRaise⟩
  · have hmin : bigBlind ≤ if action = "raise" then amount else hand.minRaise := by
      rcases haction with rfl | ⟨rfl, hle⟩
      · exact h.minRaise
      · exact h.minRaise.trans hle
    exact ⟨(h.playing.placeBet hge heap player action).recordAction player action amount now,
      h.noBoard, hmin⟩

theorem applyAction_same {heap heap' : Heap} {hand hand' : Hand} {player : PlayerRef}
    {action : String} {amount : ℤ} {now : ℕ}
    (happly : PlayerAction.applyAction heap hand player action amount now = (true, heap', hand'))
    (p : PlayerRef) : (heap' p).id = (heap p).id ∧ (heap' p).seat = (heap p).seat ∧
      (heap' p).holeCards = (heap p).holeCards := by
  obtain ⟨-, -, hact⟩ := PlayerAction.applyAction_cases happly
  rcases hact with ⟨-, -, rfl, -⟩ | ⟨-, -, -, rfl, -⟩ <;> exact ⟨rfl, rfl, rfl⟩

theorem applyAction_hand {heap heap' : Heap} {hand hand' : Hand} {player : PlayerRef}
    {action : String} {amount : ℤ} {now : ℕ}
    (happly : PlayerAction.applyAction heap hand player action amount now = (true, heap', hand')) :
    hand'.players = hand.players ∧ hand'.deck = hand.deck ∧
      hand'.communityCards = hand.communityCards := by
  obtain ⟨-, -, hact⟩ := PlayerAction.applyAction_cases happly
  rcases hact with ⟨-, -, -, rfl⟩ | ⟨-, -, -, -, rfl⟩ <;> exact ⟨rfl, rfl, rfl⟩

theorem TableRep.seats {tm : TableManager} (h : TableRep tm) {player : PlayerRef} {seat : ℤ}
    {table : Table} {heap : Heap} (hids : ∀ p ∈ tm.players, (tm.heap p).id ≠ (tm.heap player).id)
    (hothers : ∀ p, p ≠ player → heap p = tm.heap p) (hself : heap player = { tm.heap player with seat })
    (hseat : seat = seat1 ∧ tm.table.seat1 = none ∧
        table = { tm.table with seat1 := some player } ∨
      seat = seat2 ∧ tm.table.seat2 = none ∧ table = { tm.table with seat2 := some player }) :
    TableRep ⟨table, tm.players ++ [player], heap⟩ := by
  have hnew : player ∉ tm.players := fun hp => hids player hp rfl
  have hold : ∀ p ∈ tm.players, heap p = tm.heap p := fun p hp =>
    hothers p (by rintro rfl; exact hnew hp)
  have hseated : ∀ p, tm.table.seat1 = some p ∨ tm.table.seat2 = some p → p ≠ player := by
    rintro p hp rfl
    exact hnew (h.owned p hp)
  have hstays : table.currentHand = tm.table.currentHand ∧ table.state = tm.table.state ∧
      table.pot = tm.table.pot := by
    rcases hseat with ⟨-, -, rfl⟩ | ⟨-, -, rfl⟩ <;> exact ⟨rfl, rfl, rfl⟩
  obtain ⟨hhand, hstate, hpot⟩ := hstays
  exact {
    ids := by
      rw [List.map_append, List.map_congr_left fun p hp => congrArg Player.id (hold p hp)]
      refine List.nodup_append.mpr ⟨h.ids, List.nodup_singleton _, ?_⟩
      intro x hx y hy
      obtain ⟨p, hp, rfl⟩ := List.mem_map.mp hx
      simp only [List.map_singleton, List.mem_singleton, hself] at hy
      exact hy ▸ hids p hp
    inSeat := by
      intro p hp
      rcases List.mem_append.mp hp with hp | hp
      · have hin := h.inSeat p hp
        simp only [InSeat, hold p hp] at hin ⊢
        rcases hseat with ⟨-, hfree, rfl⟩ | ⟨-, hfree, rfl⟩ <;> grind
      · obtain rfl := List.mem_singleton.mp hp
        simp only [InSeat, hself]
        rcases hseat with ⟨rfl, hfree, rfl⟩ | ⟨rfl, hfree, rfl⟩ <;> grind
    owned := by
      intro p hp
      rcases hseat with ⟨-, -, rfl⟩ | ⟨-, -, rfl⟩ <;> grind [h.owned p]
    state := by rw [hstate, hhand, h.state]
    pot := by
      rw [hpot, h.pot, currentPot, currentPot, hhand]
    hand := hhand ▸ h.hand }

theorem TableRep.removes {tm : TableManager} (h : TableRep tm) {player : PlayerRef} {table : Table}
    (hplayer : player ∈ tm.players)
    (htable : tm.table.seat1 = some player ∧ table = { tm.table with seat1 := none } ∨
      tm.table.seat1 ≠ some player ∧ tm.table.seat2 = some player ∧
        table = { tm.table with seat2 := none } ∨
      tm.table.seat1 ≠ some player ∧ tm.table.seat2 ≠ some player ∧ table = tm.table) :
    TableRep ⟨table, tm.players.erase player, tm.heap⟩ := by
  have hmem : ∀ p, p ∈ tm.players.erase player ↔ p ≠ player ∧ p ∈ tm.players :=
    fun p => h.nodup.mem_erase_iff
  have hstays : table.currentHand = tm.table.currentHand ∧ table.state = tm.table.state ∧
      table.pot = tm.table.pot := by
    rcases htable with ⟨-, rfl⟩ | ⟨-, -, rfl⟩ | ⟨-, -, rfl⟩ <;> exact ⟨rfl, rfl, rfl⟩
  obtain ⟨hhand, hstate, hpot⟩ := hstays
  have hwas := h.inSeat player hplayer
  exact {
    ids := h.ids.sublist (List.erase_sublist.map _)
    inSeat := by
      intro p hp
      obtain ⟨hne, hp⟩ := (hmem p).mp hp
      have hin := h.inSeat p hp
      simp only [InSeat] at hin hwas ⊢
      rcases htable with ⟨_, rfl⟩ | ⟨_, _, rfl⟩ | ⟨_, _, rfl⟩ <;> grind
    owned := by
      intro p hp
      simp only [InSeat] at hwas
      rcases htable with ⟨_, rfl⟩ | ⟨_, _, rfl⟩ | ⟨_, _, rfl⟩ <;> grind [h.owned p]
    state := by rw [hstate, hhand, h.state]
    pot := by
      rw [hpot, h.pot, currentPot, currentPot, hhand]
    hand := hhand ▸ h.hand }

theorem TableRep.seats_ne {tm : TableManager} (h : TableRep tm) {p q : PlayerRef}
    (hone : tm.table.seat1 = some p) (htwo : tm.table.seat2 = some q) : p ≠ q := by
  rintro rfl
  rcases h.inSeat p (h.owned p (.inl hone)) with ⟨-, -, hno⟩ | ⟨-, -, hno⟩
  · exact hno htwo
  · exact hno hone

theorem firstHand_players {tm : TableManager} {p q : PlayerRef} (hone : tm.table.seat1 = some p)
    (htwo : tm.table.seat2 = some q) (uuid : String) (deck : Deck) :
    (firstHand tm uuid deck).players = [p, q] := by
  rw [firstHand, hone, htwo]
  rfl

theorem TableRep.firstHand {tm : TableManager} (h : TableRep tm) {p q : PlayerRef}
    (hone : tm.table.seat1 = some p) (htwo : tm.table.seat2 = some q) (uuid : String)
    (deck : Deck) : InPlay (firstHand tm uuid deck) := by
  have hplayers := firstHand_players hone htwo uuid deck
  exact ⟨(firstHand_playing hone htwo (h.seats_ne hone htwo) (by simp [hplayers]) uuid deck).1, rfl,
    le_refl _⟩

theorem TableRep.does {tm tm' : TableManager} (h : TableRep tm) {op : TableOp}
    {outs : List TableOut} (hdoes : Does tm op tm' outs) : TableRep tm' := by
  cases hdoes with
  | fails | idle => exact h
  | seats hids hothers hself hseat => exact h.seats hids hothers hself hseat
  | removes hget htable => exact h.removes (getPlayer_mem hget).1 htable
  | starts hone htwo hnone hheap =>
    have hsame := h.congr_heap fun p _ => Dealt.same (hheap ▸ dealHoleCards_dealt _ _ _) p
    exact { hsame with
      state := rfl
      pot := rfl
      hand := by
        rintro _ ⟨⟩
        exact h.firstHand hone htwo _ _ }
  | acts hhand hget happly =>
    have hsame := h.congr_heap fun p _ => (applyAction_same happly p).imp_right And.left
    exact { hsame with
      state := by
        rw [h.state, hhand]
        rfl
      pot := rfl
      hand := by
        rintro _ ⟨⟩
        exact applyAction_inPlay (h.hand _ hhand) happly }
  | @ends _ _ winners hhand hwin =>
    have hplay := (h.hand _ hhand).playing
    have hsame := h.congr_heap fun p _ => Credited.same
      (endHand_credited h.nodup hplay.pot hplay.sidePots tm.heap winners) p
    exact { hsame with
      state := rfl
      pot := rfl
      hand := fun hand hno => by cases hno }

theorem run_rep (objects : Heap) (ops : List TableOp) : TableRep ((machine objects).run ops) :=
  (machine objects).invariant (I := TableRep) (TableRep.init objects)
    (fun tm op h => h.does (step_does tm op)) ops

/-! ### Valid players -/

/-- `Player::isValid` but for the seat, which `assignSeat` writes. -/
def HasValidFields (x : Player) : Prop :=
  0 ≤ x.stack ∧ (x.holeCards.length = 0 ∨ x.holeCards.length = 2)

theorem isValid_iff (x : Player) :
    x.isValid = true ↔ HasValidFields x ∧ (x.seat = seat1 ∨ x.seat = seat2) := by
  simp only [Player.isValid, HasValidFields, Bool.and_eq_true, Bool.or_eq_true, decide_eq_true_eq,
    beq_iff_eq]
  tauto

theorem Credited.validFields {heap heap' : Heap} (h : heap.Credited heap') {p : PlayerRef}
    (hp : HasValidFields (heap p)) : HasValidFields (heap' p) := by
  obtain ⟨won, rfl, hge⟩ := h
  exact ⟨add_nonneg hp.1 (hge p), hp.2⟩

theorem applyAction_validFields {heap heap' : Heap} {hand hand' : Hand} {player : PlayerRef}
    {action : String} {amount : ℤ} {now : ℕ}
    (happly : PlayerAction.applyAction heap hand player action amount now = (true, heap', hand'))
    {p : PlayerRef} (hp : HasValidFields (heap p)) : HasValidFields (heap' p) := by
  obtain ⟨-, -, hact⟩ := PlayerAction.applyAction_cases happly
  rcases hact with ⟨-, -, rfl, -⟩ | ⟨-, -, hle, rfl, -⟩
  · exact hp
  · refine ⟨?_, hp.2⟩
    show 0 ≤ (heap p).stack + (Pi.single player (-amount) : PlayerRef → ℤ) p
    by_cases hpq : p = player
    · subst hpq
      rw [Pi.single_eq_same]
      omega
    · rw [Pi.single_eq_of_ne hpq]
      have hge := hp.1
      omega

theorem deal_validFields (heap : Heap) {deck : Deck} (hstart : deck.nextCard = 0) {p q : PlayerRef}
    (hne : p ≠ q) {r : PlayerRef} (hr : HasValidFields (heap r)) :
    HasValidFields ((dealHoleCards heap deck [p, q]).1 r) := by
  obtain ⟨cards, hc⟩ := dealHoleCards_dealt heap deck [p, q] r
  by_cases hmem : r ∈ [p, q]
  · have htwo := (dealHoleCards_cards heap deck (by simpa using hne) (by simp [hstart])).2 r hmem
    rw [hc] at htwo ⊢
    exact ⟨hr.1, .inr htwo⟩
  · rw [dealHoleCards_of_not_mem heap deck hmem]
    exact hr

theorem TableRep.validFields {tm tm' : TableManager} (h : TableRep tm) {op : TableOp}
    {outs : List TableOut} (hdoes : Does tm op tm' outs) {p : PlayerRef}
    (hp : HasValidFields (tm.heap p)) : HasValidFields (tm'.heap p) := by
  cases hdoes with
  | fails | idle | removes => exact hp
  | @seats player _ _ _ _ hothers hself _ =>
    by_cases hpq : p = player
    · subst hpq
      simp only [hself]
      exact hp
    · simp only [hothers p hpq]
      exact hp
  | starts hone htwo _ hheap =>
    subst hheap
    exact deal_validFields tm.heap rfl (h.seats_ne hone htwo) hp
  | acts _ _ happly => exact applyAction_validFields happly hp
  | @ends _ hand winners hhand _ =>
    have hplay := (h.hand hand hhand).playing
    exact Credited.validFields
      (endHand_credited h.nodup hplay.pot hplay.sidePots tm.heap winners) hp

/-! ### The representation invariant -/

structure Represented (tm : TableManager) : Prop extends TableRep tm where
  atMostTwo : tm.players.length ≤ 2
  validPlayers : ∀ p ∈ tm.players, (tm.heap p).isValid = true
  validHand : ∀ hand, tm.table.currentHand = some hand →
    hand.isValid = true ∧ ∃ p q, hand.players = [p, q] ∧ p ≠ q

theorem TableRep.atMostTwo {tm : TableManager} (h : TableRep tm) : tm.players.length ≤ 2 := by
  have hsub : tm.players ⊆ seated tm := by
    intro p hp
    rcases h.inSeat p hp with ⟨-, hseat, -⟩ | ⟨-, hseat, -⟩ <;> simp [seated, hseat]
  have hlen : (seated tm).length ≤ 2 := by
    rw [seated, List.length_append, Option.length_toList, Option.length_toList]
    split_ifs <;> decide
  exact (List.subperm_of_subset h.nodup hsub).length_le.trans hlen

theorem InPlay.isValid {hand : Hand} (h : InPlay hand) :
    hand.isValid = true ∧ ∃ p q, hand.players = [p, q] ∧ p ≠ q := by
  obtain ⟨p, q, hpq, hne, -, -⟩ := h.playing.two
  have hraise : 4 ≤ hand.minRaise := h.minRaise
  exact ⟨by simp [Hand.isValid, hpq, h.noBoard, hraise], p, q, hpq, hne⟩

theorem TableRep.represented {tm : TableManager} (h : TableRep tm)
    (hvalid : ∀ p ∈ tm.players, HasValidFields (tm.heap p)) : Represented tm :=
  { h with
    atMostTwo := h.atMostTwo
    validPlayers := fun p hp => (isValid_iff _).mpr
      ⟨hvalid p hp, (h.inSeat p hp).imp And.left And.left⟩
    validHand := fun hand hhand => (h.hand hand hhand).isValid }

theorem does_players {tm tm' : TableManager} {op : TableOp} {outs : List TableOut}
    (hdoes : Does tm op tm' outs) {p : PlayerRef} (hp : p ∈ tm'.players) :
    p ∈ tm.players ∨ ∃ seat, op = .assignSeat p seat := by
  cases hdoes with
  | fails | idle | starts | acts | ends => exact .inl hp
  | seats =>
    rcases List.mem_append.mp hp with hp | hp
    · exact .inl hp
    · exact .inr ⟨_, by rw [List.mem_singleton.mp hp]⟩
  | removes => exact .inl (List.mem_of_mem_erase hp)

theorem does_dealer {tm tm' : TableManager} {op : TableOp} {outs : List TableOut}
    (hdoes : Does tm op tm' outs) {n : ℕ}
    (hn : tm.table.dealerButtonPosition = ((n % 2 : ℕ) : ℤ)) :
    tm'.table.dealerButtonPosition = (((n + outs.count .handEnded) % 2 : ℕ) : ℤ) := by
  cases hdoes with
  | @fails op out hfails =>
    have hout : out ≠ .handEnded := by
      rintro rfl
      cases hfails
    simpa [hout] using hn
  | idle => simpa using hn
  | seats _ _ _ hseat => rcases hseat with ⟨-, -, rfl⟩ | ⟨-, -, rfl⟩ <;> simpa using hn
  | removes _ htable =>
    rcases htable with ⟨-, rfl⟩ | ⟨-, -, rfl⟩ | ⟨-, -, rfl⟩ <;> simpa using hn
  | starts | acts => simpa using hn
  | ends =>
    have hmod : n % 2 = 0 ∨ n % 2 = 1 := by omega
    simp only [hn, List.count_singleton, beq_self_eq_true, if_true]
    rcases hmod with h0 | h1
    · rw [h0, show (n + 1) % 2 = 1 by omega]
      decide
    · rw [h1, show (n + 1) % 2 = 0 by omega]
      decide

theorem does_failure {tm tm' : TableManager} {op : TableOp} {outs : List TableOut}
    (hdoes : Does tm op tm' outs) (hfails : ∃ out ∈ outs, out.isFailure = true) : tm' = tm := by
  cases hdoes with
  | fails | idle => rfl
  | seats | removes | starts | acts | ends => simp [TableOut.isFailure] at hfails

theorem run_players (objects : Heap) (ops : List TableOp) :
    ∀ p ∈ ((machine objects).run ops).players, ∃ seat, TableOp.assignSeat p seat ∈ ops := by
  induction ops using List.reverseRecOn with
  | nil =>
    intro p hp
    cases hp
  | append_singleton ops op ih =>
    intro p hp
    rw [Machine.run_concat] at hp
    rcases does_players (step_does _ op) hp with hold | ⟨seat, rfl⟩
    · obtain ⟨seat, hseat⟩ := ih p hold
      exact ⟨seat, by simp [hseat]⟩
    · exact ⟨seat, by simp⟩

theorem run_validFields {objects : Heap} {p : PlayerRef} (hp : HasValidFields (objects p))
    (ops : List TableOp) : HasValidFields (((machine objects).run ops).heap p) :=
  ((machine objects).invariant (I := fun tm => TableRep tm ∧ HasValidFields (tm.heap p))
    ⟨TableRep.init objects, hp⟩
    (fun tm op h => ⟨h.1.does (step_does tm op), h.1.validFields (step_does tm op) h.2⟩) ops).2

theorem run_dealer (objects : Heap) (ops : List TableOp) :
    ((machine objects).run ops).table.dealerButtonPosition
      = ((((machine objects).trace ops).count .handEnded % 2 : ℕ) : ℤ) := by
  induction ops using List.reverseRecOn with
  | nil => rfl
  | append_singleton ops op ih =>
    rw [Machine.run_concat, Machine.trace_concat, List.count_append]
    exact does_dealer (step_does _ op) ih

/-- After any operations on objects with valid fields the representation is
right, the button shows the parity of the hands ended, and an operation that
fails changes nothing. -/
theorem represented_run (objects : Heap) (ops : List TableOp)
    (hvalid : ∀ p seat, TableOp.assignSeat p seat ∈ ops → HasValidFields (objects p)) :
    let tm := (machine objects).run ops
    Represented tm ∧
      tm.table.dealerButtonPosition
        = ((((machine objects).trace ops).count .handEnded % 2 : ℕ) : ℤ) ∧
      ∀ op, (∃ out ∈ (tm.stepOp op).2, out.isFailure = true) → (tm.stepOp op).1 = tm := by
  intro tm
  refine ⟨(run_rep objects ops).represented fun p hp => ?_, run_dealer objects ops,
    fun op => does_failure (step_does tm op)⟩
  obtain ⟨seat, hseat⟩ := run_players objects ops p hp
  exact run_validFields (hvalid p seat hseat) ops

def twoObjects : Heap := fun p => { (default : Player) with
  id := if p = 0 then "alice" else "bob"
  stack := startingStack }

def twoSeated : List TableOp :=
  [.assignSeat 0 seat1, .assignSeat 1 seat2, .startHand "1" (Shuffle.refl _) (Shuffle.refl _)]

/-- Alice is removed while the hand goes on, and seated again. -/
def reseated : List TableOp := twoSeated ++
  [.removePlayer "alice", .processPlayerAction "bob" "fold" 0 0, .assignSeat 0 seat1,
    .endHand (Shuffle.refl _)]

theorem represented_reseated :
    let tm := (machine twoObjects).run reseated
    Represented tm ∧
      tm.table.dealerButtonPosition
        = ((((machine twoObjects).trace reseated).count .handEnded % 2 : ℕ) : ℤ) ∧
      ∀ op, (∃ out ∈ (tm.stepOp op).2, out.isFailure = true) → (tm.stepOp op).1 = tm :=
  represented_run twoObjects reseated fun _ _ _ =>
    ⟨(by decide : (0 : ℤ) ≤ startingStack), .inl rfl⟩

/-! ### Players a hand refers to -/

/-- The players of the seats and of the hand, and whoever would be paid, are
owned. -/
structure AllOwned (tm : TableManager) : Prop where
  seats : ∀ p, tm.table.seat1 = some p ∨ tm.table.seat2 = some p → p ∈ tm.players
  players : ∀ hand, tm.table.currentHand = some hand → ∀ p ∈ hand.players, p ∈ tm.players
  turn : ∀ hand, tm.table.currentHand = some hand →
    ∀ p, hand.currentPlayerToAct = some p → p ∈ tm.players
  winners : ∀ hand, tm.table.currentHand = some hand → ∀ p ∈ hand.winners, p ∈ tm.players
  paid : ∀ hand, tm.table.currentHand = some hand → ∀ tables winners,
    Poker.determineWinners tables tm.heap hand = .ok winners → ∀ p ∈ winners, p ∈ tm.players

def RemovesHandPlayer (tm : TableManager) (op : TableOp) : Prop :=
  ∃ playerId p hand, op = .removePlayer playerId ∧ tm.getPlayer playerId = some p ∧
    tm.table.currentHand = some hand ∧ p ∈ hand.players

theorem TableRep.allOwned {tm : TableManager} (h : TableRep tm)
    (hplayers : ∀ hand, tm.table.currentHand = some hand → ∀ p ∈ hand.players, p ∈ tm.players) :
    AllOwned tm where
  seats := h.owned
  players := hplayers
  turn := by
    intro hand hhand p hp
    obtain ⟨t, ht, hturn⟩ := (h.hand hand hhand).playing.turn
    obtain rfl := Option.some.inj (hturn.symm.trans hp)
    exact hplayers hand hhand t ht
  winners := by
    intro hand hhand p hp
    rw [(h.hand hand hhand).playing.winners] at hp
    cases hp
  paid := fun hand hhand tables winners hwin p hp =>
    hplayers hand hhand p (determineWinners_mem hwin p hp)

theorem removePlayer_of_getPlayer {tm : TableManager} {playerId : String} {p : PlayerRef}
    (hget : tm.getPlayer playerId = some p) :
    (tm.removePlayer playerId).2.players = tm.players.erase p ∧
      (tm.removePlayer playerId).2.table.currentHand = tm.table.currentHand := by
  simp only [removePlayer, hget, true_and]
  by_cases hone : tm.table.seat1 = some p
  · rw [if_pos hone]
  by_cases htwo : tm.table.seat2 = some p
  · rw [if_neg hone, if_pos htwo]
  · rw [if_neg hone, if_neg htwo]

theorem does_handPlayers {tm tm' : TableManager} (h : TableRep tm) {op : TableOp}
    {outs : List TableOut} (hdoes : Does tm op tm' outs) (hno : ¬RemovesHandPlayer tm op)
    (hplayers : ∀ hand, tm.table.currentHand = some hand → ∀ p ∈ hand.players, p ∈ tm.players) :
    ∀ hand, tm'.table.currentHand = some hand → ∀ p ∈ hand.players, p ∈ tm'.players := by
  cases hdoes with
  | fails | idle => exact hplayers
  | seats _ _ _ hseat =>
    intro hand hhand p hp
    have hhand' : tm.table.currentHand = some hand := by
      rcases hseat with ⟨-, -, rfl⟩ | ⟨-, -, rfl⟩ <;> exact hhand
    exact List.mem_append_left _ (hplayers hand hhand' p hp)
  | @removes playerId player table hget htable =>
    intro hand hhand p hp
    have hhand' : tm.table.currentHand = some hand := by
      rcases htable with ⟨-, rfl⟩ | ⟨-, -, rfl⟩ | ⟨-, -, rfl⟩ <;> exact hhand
    have hne : p ≠ player := by
      rintro rfl
      exact hno ⟨playerId, p, hand, rfl, hget, hhand', hp⟩
    exact (List.mem_erase_of_ne hne).mpr (hplayers hand hhand' p hp)
  | starts hone htwo =>
    rintro _ ⟨⟩ p hp
    rw [firstHand_players hone htwo, List.mem_pair] at hp
    rcases hp with rfl | rfl
    · exact h.owned p (.inl hone)
    · exact h.owned p (.inr htwo)
  | acts hhand _ happly =>
    rintro _ ⟨⟩ p hp
    rw [(applyAction_hand happly).1] at hp
    exact hplayers _ hhand p hp
  | ends =>
    intro hand hno
    cases hno

theorem step_allOwned_iff {tm : TableManager} (h : TableRep tm) (howned : AllOwned tm)
    (op : TableOp) : AllOwned (tm.stepOp op).1 ↔ ¬RemovesHandPlayer tm op := by
  have hdoes := step_does tm op
  constructor
  · intro howned' hh
    obtain ⟨playerId, p, hand, rfl, hget, hhand, hp⟩ := hh
    obtain ⟨hplayers, hstays⟩ := removePlayer_of_getPlayer hget
    have hmem := howned'.players hand (hstays.trans hhand) p hp
    have hgone : p ∉ tm.players.erase p := h.nodup.not_mem_erase
    exact hgone (hplayers ▸ hmem)
  · intro hno
    exact (h.does hdoes).allOwned (does_handPlayers h hdoes hno howned.players)

/-- In a run every player a hand refers to is owned exactly when no player is
removed from a hand in progress. -/
theorem allOwned_iff (objects : Heap) (ops : List TableOp) :
    (∀ pre, pre <+: ops → AllOwned ((machine objects).run pre)) ↔
      (machine objects).EveryStep (fun tm op => ¬RemovesHandPlayer tm op) ops :=
  (machine objects).always_iff ((TableRep.init objects).allOwned fun _ hno => by cases hno) ops
    fun pre op _ howned => step_allOwned_iff (run_rep objects pre) howned op

def aliceWins : List TableOp :=
  twoSeated ++ [.removePlayer "alice", .processPlayerAction "bob" "fold" 0 0]

/-- Alice is removed and Bob folds: the pot would go to her. -/
theorem allOwned_aliceWins :
    ¬∀ pre, pre <+: aliceWins → AllOwned ((machine twoObjects).run pre) := by
  intro h
  have howned := h aliceWins (List.prefix_refl _)
  have hpaid := howned.paid _ (Option.some_get (by decide +kernel)).symm (Shuffle.refl _) [0]
    (by decide +kernel) 0 (by decide)
  revert hpaid
  decide +kernel

end TableManager
end HeadsUp.Server
