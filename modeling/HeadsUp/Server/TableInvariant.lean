import HeadsUp.Server.TableManager

/-!
# The table's invariant

What the table manager's operations keep, in the order the game session calls
them: the seats and the hand refer to players the manager owns, a hand in
progress has two of them, and each operation moves the chips of the table by
what it adds.
-/

namespace HeadsUp.Server
open HeadsUp.Core HeadsUp.Lib

/-! ### Hands in progress -/

/-- A hand two of the owned players play. -/
structure Playing (players : List PlayerRef) (hand : Hand) : Prop where
  two : ∃ p q, hand.players = [p, q] ∧ p ≠ q ∧ p ∈ players ∧ q ∈ players
  pot : 0 ≤ hand.pot
  bets : ∀ b ∈ hand.playerBets, 0 ≤ b ∧ b ≤ hand.pot
  minRaise : 0 ≤ hand.minRaise
  sidePots : hand.sidePots = []
  round : hand.currentBettingRound = .preflop
  winners : hand.winners = []
  turn : ∃ p ∈ hand.players, hand.currentPlayerToAct = some p

def Unfolded (hand : Hand) : Prop := ∀ i, hand.folded.getD i false = false

/-- Nobody has folded, or the player on turn is the only one left. -/
def Contested (hand : Hand) : Prop :=
  Unfolded hand ∨ ∃ p, hand.currentPlayerToAct = some p ∧ activePlayers hand = [p]

theorem Playing.nodup {players : List PlayerRef} {hand : Hand} (h : Playing players hand) :
    hand.players.Nodup := by
  obtain ⟨p, q, hpq, hne, -, -⟩ := h.two
  simp [hpq, hne]

theorem Playing.mem {players : List PlayerRef} {hand : Hand} (h : Playing players hand) :
    ∀ p ∈ hand.players, p ∈ players := by
  obtain ⟨p, q, hpq, -, hp, hq⟩ := h.two
  simp [hpq, hp, hq]

theorem activePlayers_two {hand : Hand} {p q : PlayerRef} (h : hand.players = [p, q]) :
    activePlayers hand = (if hand.folded.getD 0 false then [] else [p]) ++
      (if hand.folded.getD 1 false then [] else [q]) := by
  rw [activePlayers, h]
  simp only [List.zipIdx_cons, List.zipIdx_nil, List.filter_cons, List.filter_nil, zero_add]
  cases hand.folded.getD 0 false <;> cases hand.folded.getD 1 false <;> rfl

theorem Unfolded.activePlayers {hand : Hand} (h : Unfolded hand) {p q : PlayerRef}
    (hpq : hand.players = [p, q]) : activePlayers hand = [p, q] := by
  rw [activePlayers_two hpq, h 0, h 1]
  rfl

/-- In a hand that is not complete both players are left. -/
theorem activePlayers_of_many {players : List PlayerRef} {hand : Hand}
    (hplay : Playing players hand) (hmany : ¬(activePlayers hand).length ≤ 1) :
    activePlayers hand = hand.players := by
  obtain ⟨p, q, hpq, -⟩ := hplay.two
  rw [activePlayers_two hpq] at hmany ⊢
  rw [hpq]
  cases hp : hand.folded.getD 0 false <;> cases hq : hand.folded.getD 1 false <;> simp_all

theorem Contested.unfolded {hand : Hand} (h : Contested hand)
    (hmany : ¬(activePlayers hand).length ≤ 1) : Unfolded hand := by
  refine h.resolve_right ?_
  intro hh
  obtain ⟨p, -, hp⟩ := hh
  simp [hp] at hmany

theorem Contested.single {players : List PlayerRef} {hand : Hand} (h : Contested hand)
    (hplay : Playing players hand) (hfew : (activePlayers hand).length ≤ 1) :
    ∃ p ∈ players, activePlayers hand = [p] := by
  obtain ⟨p, q, hpq, -⟩ := hplay.two
  rcases h with hun | ⟨r, hr, hone⟩
  · simp [hun.activePlayers hpq] at hfew
  · obtain ⟨t, ht, hturn⟩ := hplay.turn
    obtain rfl : t = r := Option.some.inj (hturn.symm.trans hr)
    exact ⟨t, hplay.mem t ht, hone⟩

/-! ### The table -/

def seated (tm : TableManager) : List PlayerRef :=
  tm.table.seat1.toList ++ tm.table.seat2.toList

/-- The manager owns the players in the seats, and `Ok` holds of the hand they
play. -/
structure TableInv (Ok : Hand → Prop) (tm : TableManager) (nextRef : PlayerRef) : Prop where
  nodup : tm.players.Nodup
  fresh : ∀ p ∈ tm.players, p < nextRef
  ids : (tm.players.map fun p => (tm.heap p).id).Nodup
  solvent : ∀ p ∈ tm.players, 0 ≤ (tm.heap p).stack
  seats : (seated tm).Perm tm.players
  both : tm.table.currentHand.isSome → tm.table.seat1.isSome ∧ tm.table.seat2.isSome
  idle : tm.table.currentHand = none → tm.table.state = .waitingForPlayers
  -- a hand starts only when a seat is filled, so the winner of one plays no other
  shallow : (∀ p ∈ tm.players, (tm.heap p).stack ≤ startingStack) ∨
    tm.table.currentHand = none ∧ tm.table.seat1.isSome ∧ tm.table.seat2.isSome
  playing : ∀ hand, tm.table.currentHand = some hand → Playing tm.players hand ∧ Ok hand

theorem TableInv.mem_players_iff {Ok : Hand → Prop} {tm : TableManager} {nextRef : PlayerRef}
    (h : TableInv Ok tm nextRef) {p : PlayerRef} :
    p ∈ tm.players ↔ tm.table.seat1 = some p ∨ tm.table.seat2 = some p := by
  rw [← h.seats.mem_iff, seated, List.mem_append, Option.mem_toList, Option.mem_toList]

def currentPot (tm : TableManager) : ℤ :=
  match tm.table.currentHand with
  | some hand => hand.pot
  | none => 0

def tableChips (tm : TableManager) : ℤ := stackSum tm.heap tm.players + currentPot tm

theorem TableInv.tableChips_seated {Ok : Hand → Prop} {tm : TableManager} {nextRef : PlayerRef}
    (h : TableInv Ok tm nextRef) :
    tableChips tm = stackSum tm.heap (seated tm) + currentPot tm := by
  rw [tableChips, stackSum, stackSum, (h.seats.map _).sum_eq]

theorem TableInv.pot_nonneg {Ok : Hand → Prop} {tm : TableManager} {nextRef : PlayerRef}
    (h : TableInv Ok tm nextRef) : 0 ≤ currentPot tm := by
  cases hhand : tm.table.currentHand with
  | none => rw [currentPot, hhand]
  | some hand =>
    rw [currentPot, hhand]
    exact (h.playing hand hhand).1.pot

theorem TableInv.amounts_le {Ok : Hand → Prop} {tm : TableManager} {nextRef : PlayerRef}
    (h : TableInv Ok tm nextRef) :
    (∀ p ∈ tm.players, (tm.heap p).stack ≤ tableChips tm) ∧ currentPot tm ≤ tableChips tm := by
  have hge : ∀ x ∈ tm.players.map fun p => (tm.heap p).stack, 0 ≤ x := by
    intro x hx
    obtain ⟨p, hp, rfl⟩ := List.mem_map.mp hx
    exact h.solvent p hp
  have hpot := h.pot_nonneg
  have hsum := List.sum_nonneg hge
  refine ⟨fun p hp => ?_, ?_⟩
  · have hle := List.single_le_sum hge _ (List.mem_map_of_mem hp)
    rw [tableChips, stackSum]
    omega
  · rw [tableChips, stackSum]
    omega

theorem TableInv.new : TableInv Unfolded .new 0 where
  nodup := List.nodup_nil
  fresh := by simp [TableManager.new]
  ids := List.nodup_nil
  solvent := by simp [TableManager.new]
  seats := List.Perm.nil
  both := by simp [TableManager.new]
  idle := fun _ => rfl
  shallow := .inl (by simp [TableManager.new])
  playing := by simp [TableManager.new]

theorem stackSum_congr {heap heap' : Heap} {players : List PlayerRef}
    (h : ∀ p ∈ players, (heap' p).stack = (heap p).stack) :
    stackSum heap' players = stackSum heap players := by
  rw [stackSum, stackSum, List.map_congr_left h]

theorem TableInv.congr_heap {Ok : Hand → Prop} {tm : TableManager} {nextRef : PlayerRef}
    (h : TableInv Ok tm nextRef) (heap : Heap) {nextRef' : PlayerRef} (hnext : nextRef ≤ nextRef')
    (hheap : ∀ p ∈ tm.players, (heap p).id = (tm.heap p).id ∧ (heap p).stack = (tm.heap p).stack) :
    TableInv Ok { tm with heap } nextRef' ∧ tableChips { tm with heap } = tableChips tm := by
  constructor
  · exact {
      nodup := h.nodup
      fresh := fun p hp => (h.fresh p hp).trans_le hnext
      ids := by
        rw [List.map_congr_left fun p hp => (hheap p hp).1]
        exact h.ids
      solvent := fun p hp => (hheap p hp).2 ▸ h.solvent p hp
      seats := h.seats
      both := h.both
      idle := h.idle
      shallow := h.shallow.imp_left fun hs p hp => (hheap p hp).2 ▸ hs p hp
      playing := h.playing }
  · rw [tableChips, tableChips, stackSum_congr fun p hp => (hheap p hp).2]
    rfl

theorem TableInv.mono {Ok Ok' : Hand → Prop} {tm : TableManager} {nextRef : PlayerRef}
    (h : TableInv Ok tm nextRef) (hok : ∀ hand, tm.table.currentHand = some hand → Ok hand → Ok' hand) :
    TableInv Ok' tm nextRef :=
  { h with playing := fun hand hhand => (h.playing hand hhand).imp_right (hok hand hhand) }

theorem getPlayer_of_ids {tm : TableManager} (hids : (tm.players.map fun p => (tm.heap p).id).Nodup)
    {p : PlayerRef} (hp : p ∈ tm.players) : tm.getPlayer (tm.heap p).id = some p := by
  cases hget : tm.getPlayer (tm.heap p).id with
  | none =>
    have hno := List.find?_eq_none.mp hget p hp
    simp at hno
  | some q =>
    have hq := List.mem_of_find?_eq_some hget
    have hid : (tm.heap q).id = (tm.heap p).id := by simpa using List.find?_some hget
    rw [List.inj_on_of_nodup_map hids hq hp hid]

theorem TableInv.getPlayer {Ok : Hand → Prop} {tm : TableManager} {nextRef : PlayerRef}
    (h : TableInv Ok tm nextRef) {p : PlayerRef} (hp : p ∈ tm.players) :
    tm.getPlayer (tm.heap p).id = some p := getPlayer_of_ids h.ids hp

theorem getPlayer_eq_none_iff {tm : TableManager} {playerId : String} :
    tm.getPlayer playerId = none ↔ ∀ p ∈ tm.players, (tm.heap p).id ≠ playerId := by
  simp [TableManager.getPlayer]

theorem getPlayer_mem {tm : TableManager} {playerId : String} {p : PlayerRef}
    (h : tm.getPlayer playerId = some p) : p ∈ tm.players ∧ (tm.heap p).id = playerId :=
  ⟨List.mem_of_find?_eq_some h, by simpa using List.find?_some h⟩

/-! ### Seats -/

theorem isReadyForHand_seats {t : Table} (h : t.isReadyForHand = true) :
    t.seat1.isSome = true ∧ t.seat2.isSome = true := by
  simp only [Table.isReadyForHand, Bool.and_eq_true] at h
  exact ⟨h.1.2, h.2⟩

theorem TableInv.pair {Ok : Hand → Prop} {tm : TableManager} {nextRef : PlayerRef}
    (h : TableInv Ok tm nextRef) (h1 : tm.table.seat1.isSome = true)
    (h2 : tm.table.seat2.isSome = true) :
    ∃ p q, tm.table.seat1 = some p ∧ tm.table.seat2 = some q ∧ [p, q].Perm tm.players := by
  obtain ⟨p, hp⟩ := Option.isSome_iff_exists.mp h1
  obtain ⟨q, hq⟩ := Option.isSome_iff_exists.mp h2
  have hperm := h.seats
  rw [seated, hp, hq] at hperm
  exact ⟨p, q, hp, hq, hperm⟩

/-- While a seat is free there is no hand and nobody has won chips. -/
theorem TableInv.of_free_seat {Ok : Hand → Prop} {tm : TableManager} {nextRef : PlayerRef}
    (h : TableInv Ok tm nextRef) (hfree : tm.table.seat1 = none ∨ tm.table.seat2 = none) :
    tm.table.currentHand = none ∧ ∀ p ∈ tm.players, (tm.heap p).stack ≤ startingStack := by
  constructor
  · by_contra hne
    obtain ⟨h1, h2⟩ := h.both (Option.isSome_iff_ne_none.mpr hne)
    rcases hfree with hf | hf
    · simp [hf] at h1
    · simp [hf] at h2
  · refine h.shallow.resolve_right fun hfull => ?_
    rcases hfree with hf | hf
    · simp [hf] at hfull
    · simp [hf] at hfull

theorem assignSeat_cases {tm : TableManager} {player : PlayerRef} {seat : ℤ}
    (h : (tm.assignSeat player seat).1 = true) :
    (∀ p ∈ tm.players, (tm.heap p).id ≠ (tm.heap player).id) ∧
    ∃ table heap, (tm.assignSeat player seat).2 = ⟨table, tm.players ++ [player], heap⟩ ∧
      (∀ p, p ≠ player → heap p = tm.heap p) ∧ heap player = { tm.heap player with seat } ∧
      (seat = seat1 ∧ tm.table.seat1 = none ∧ table = { tm.table with seat1 := some player } ∨
        seat = seat2 ∧ tm.table.seat2 = none ∧
          table = { tm.table with seat2 := some player }) := by
  unfold TableManager.assignSeat at h ⊢
  by_cases hany : (tm.players.any fun p => (tm.heap p).id == (tm.heap player).id) = true
  · simp [hany] at h
  have hids : ∀ p ∈ tm.players, (tm.heap p).id ≠ (tm.heap player).id := by simpa using hany
  have hold : ∀ p, p ≠ player →
      Function.update tm.heap player { tm.heap player with seat } p = tm.heap p :=
    fun p hp => Function.update_of_ne hp ..
  have hself : Function.update tm.heap player { tm.heap player with seat } player
      = { tm.heap player with seat } := Function.update_self ..
  refine ⟨hids, ?_⟩
  by_cases hone : seat = seat1
  · have hfree : tm.table.seat1 = none := by
      by_contra hne
      simp [hone, Option.isSome_iff_ne_none.mpr hne] at h
    exact ⟨_, _, by simp [hone, hfree, hany], hold, hself, .inl ⟨hone, hfree, rfl⟩⟩
  have hdiff : ¬seat2 = seat1 := by decide
  by_cases htwo : seat = seat2
  · have hfree : tm.table.seat2 = none := by
      by_contra hne
      simp [htwo, hdiff, Option.isSome_iff_ne_none.mpr hne] at h
    exact ⟨_, _, by simp [htwo, hdiff, hfree, hany], htwo ▸ hold, htwo ▸ hself,
      .inr ⟨htwo, hfree, rfl⟩⟩
  · simp [hone, htwo] at h

theorem stackSum_append (heap : Heap) (players : List PlayerRef) (p : PlayerRef) :
    stackSum heap (players ++ [p]) = stackSum heap players + (heap p).stack := by
  simp [stackSum]

theorem seats_append {table table' : Table} {players : List PlayerRef} {player : PlayerRef}
    (h : (table.seat1.toList ++ table.seat2.toList).Perm players)
    (hseat : table.seat1 = none ∧ table' = { table with seat1 := some player } ∨
      table.seat2 = none ∧ table' = { table with seat2 := some player }) :
    (table'.seat1.toList ++ table'.seat2.toList).Perm (players ++ [player]) := by
  have hperm := h.append_right [player]
  rcases hseat with ⟨hno, rfl⟩ | ⟨hno, rfl⟩
  · rw [hno] at hperm
    exact List.perm_append_comm.trans hperm
  · rw [hno, Option.toList_none, List.append_nil] at hperm
    exact hperm

theorem TableInv.assignSeat {tm : TableManager} {player : PlayerRef}
    (h : TableInv Unfolded tm player) {seat : ℤ} (hstack : (tm.heap player).stack = startingStack)
    (hok : (tm.assignSeat player seat).1 = true) :
    tm.table.currentHand = none ∧
      TableInv Unfolded (tm.assignSeat player seat).2 (player + 1) ∧
      (tm.assignSeat player seat).2.table.currentHand = none ∧
      (∀ p ∈ (tm.assignSeat player seat).2.players,
        ((tm.assignSeat player seat).2.heap p).stack ≤ startingStack) ∧
      tableChips (tm.assignSeat player seat).2 = tableChips tm + startingStack := by
  obtain ⟨hids, table, heap, htm, hothers, hself, hseat⟩ := assignSeat_cases hok
  replace hseat := hseat.imp And.right And.right
  rw [htm]
  have hnew : player ∉ tm.players := fun hp => lt_irrefl _ (h.fresh player hp)
  have hold : ∀ p ∈ tm.players, heap p = tm.heap p := fun p hp =>
    hothers p (by rintro rfl; exact hnew hp)
  obtain ⟨hnohand, hshallow⟩ := h.of_free_seat (hseat.imp And.left And.left)
  have htable : table.currentHand = none ∧ table.state = tm.table.state := by
    rcases hseat with ⟨-, rfl⟩ | ⟨-, rfl⟩ <;> exact ⟨hnohand, rfl⟩
  have hfew : ∀ p ∈ tm.players ++ [player], (heap p).stack ≤ startingStack := by
    intro p hp
    rcases List.mem_append.mp hp with hp | hp
    · rw [hold p hp]
      exact hshallow p hp
    · rw [List.mem_singleton.mp hp, hself]
      exact hstack.le
  refine ⟨hnohand, ?_, htable.1, hfew, ?_⟩
  · exact {
      nodup := List.nodup_append.mpr ⟨h.nodup, List.nodup_singleton _, by
        simp only [List.mem_singleton]
        rintro p hp _ rfl rfl
        exact hnew hp⟩
      fresh := by
        intro p hp
        rcases List.mem_append.mp hp with hp | hp
        · exact (h.fresh p hp).trans (Nat.lt_succ_self _)
        · exact List.mem_singleton.mp hp ▸ Nat.lt_succ_self _
      ids := by
        rw [List.map_append, List.map_congr_left fun p hp => congrArg Player.id (hold p hp)]
        refine List.nodup_append.mpr ⟨h.ids, List.nodup_singleton _, ?_⟩
        intro x hx y hy
        obtain ⟨p, hp, rfl⟩ := List.mem_map.mp hx
        simp only [List.map_singleton, List.mem_singleton, hself] at hy
        exact hy ▸ hids p hp
      solvent := by
        intro p hp
        rcases List.mem_append.mp hp with hp | hp
        · show 0 ≤ (heap p).stack
          rw [hold p hp]
          exact h.solvent p hp
        · rw [List.mem_singleton.mp hp]
          show 0 ≤ (heap player).stack
          rw [hself]
          exact hstack ▸ (by decide : (0 : ℤ) ≤ startingStack)
      seats := seats_append h.seats hseat
      both := by simp [htable.1]
      idle := fun _ => htable.2.trans (h.idle hnohand)
      shallow := .inl hfew
      playing := by simp [htable.1] }
  · have hsum : stackSum heap tm.players = stackSum tm.heap tm.players :=
      stackSum_congr fun p hp => congrArg Player.stack (hold p hp)
    have hplayer : (heap player).stack = startingStack := by rw [hself, ← hstack]
    simp only [tableChips, currentPot, stackSum_append, hsum, hplayer, htable.1, hnohand]
    omega

/-! ### The start of a hand -/

/-- The hand `startHand` stores. -/
def firstHand (tm : TableManager) (uuid : String) (deck : Deck) : Hand where
  id := "hand_" ++ uuid
  table := some TableManager.ownTable
  players := tm.table.seat1.toList ++ tm.table.seat2.toList
  deck := deck
  communityCards := []
  pot := 0
  sidePots := []
  playerBets := []
  folded := []
  currentBettingRound := .preflop
  currentPlayerToAct :=
    if tm.table.dealerButtonPosition = 0 then tm.table.seat2 else tm.table.seat1
  minRaise := bigBlind
  history := []
  winners := []
  completedAt := 0

theorem startHand_eq {tm : TableManager} (hready : tm.table.isReadyForHand = true)
    (hnone : tm.table.currentHand = none) {p q : PlayerRef} (hp : tm.table.seat1 = some p)
    (hq : tm.table.seat2 = some q) (uuid : String) (constructed shuffled : Shuffle Card) :
    tm.startHand uuid constructed shuffled = (true, { tm with
      table := { tm.table with
        currentHand := some (firstHand tm uuid ((Deck.new constructed).shuffle shuffled))
        state := .handInProgress
        communityCards := []
        pot := 0 }
      heap := (dealHoleCards tm.heap ((Deck.new constructed).shuffle shuffled) [p, q]).1 }, none) := by
  have hplayers : tm.table.seat1.toList ++ tm.table.seat2.toList = [p, q] := by rw [hp, hq]; rfl
  have hok : (dealHoleCards tm.heap ((Deck.new constructed).shuffle shuffled) [p, q]).2.2 = none :=
    dealHoleCards_ok _ _ _ (by simp)
  simp only [TableManager.startHand, firstHand, hready, hnone, hplayers, hok, Bool.not_true,
    Bool.false_eq_true, if_false, Option.isSome_none]

theorem firstHand_playing {tm : TableManager} {p q : PlayerRef} (hp : tm.table.seat1 = some p)
    (hq : tm.table.seat2 = some q) (hne : p ≠ q) {players : List PlayerRef}
    (hmem : ∀ r ∈ [p, q], r ∈ players) (uuid : String) (deck : Deck) :
    Playing players (firstHand tm uuid deck) ∧ Unfolded (firstHand tm uuid deck) := by
  have hplayers : (firstHand tm uuid deck).players = [p, q] := by rw [firstHand, hp, hq]; rfl
  have hturn : ∃ r ∈ [p, q], (firstHand tm uuid deck).currentPlayerToAct = some r := by
    by_cases hd : tm.table.dealerButtonPosition = 0
    · exact ⟨q, by simp, by simp [firstHand, hd, hq]⟩
    · exact ⟨p, by simp, by simp [firstHand, hd, hp]⟩
  refine ⟨?_, fun i => by simp [firstHand]⟩
  exact {
    two := ⟨p, q, hplayers, hne, hmem p (by simp), hmem q (by simp)⟩
    pot := le_refl 0
    bets := by simp [firstHand]
    minRaise := (by decide : (0 : ℤ) ≤ bigBlind)
    sidePots := rfl
    round := rfl
    winners := rfl
    turn := hplayers.symm ▸ hturn }

theorem TableInv.startHand {tm : TableManager} {nextRef : PlayerRef}
    (h : TableInv Unfolded tm nextRef) (hready : tm.table.isReadyForHand = true)
    (hnone : tm.table.currentHand = none)
    (hshallow : ∀ p ∈ tm.players, (tm.heap p).stack ≤ startingStack) (uuid : String)
    (constructed shuffled : Shuffle Card) :
    ∃ tm', tm.startHand uuid constructed shuffled = (true, tm', none) ∧
      tm'.table.currentHand.isSome = true ∧ TableInv Unfolded tm' nextRef ∧
      tableChips tm' = tableChips tm := by
  have hseats := isReadyForHand_seats hready
  obtain ⟨p, q, hp, hq, hpair⟩ := h.pair hseats.1 hseats.2
  have hne : p ≠ q := by
    have hnd := hpair.nodup_iff.mpr h.nodup
    simpa using hnd
  have hstart := startHand_eq hready hnone hp hq uuid constructed shuffled
  set heap := (dealHoleCards tm.heap ((Deck.new constructed).shuffle shuffled) [p, q]).1
  have hdealt : tm.heap.Dealt heap := dealHoleCards_dealt _ _ _
  have hsame : ∀ p ∈ tm.players,
      (heap p).id = (tm.heap p).id ∧ (heap p).stack = (tm.heap p).stack := by
    intro p _
    obtain ⟨cards, hc⟩ := hdealt p
    rw [hc]
    exact ⟨rfl, rfl⟩
  have hinv := (h.congr_heap heap (le_refl nextRef) hsame).1
  refine ⟨_, hstart, rfl, ?_, ?_⟩
  · exact { hinv with
      both := fun _ => hseats
      idle := fun hno => by cases hno
      shallow := .inl fun p hp => (hsame p hp).2 ▸ hshallow p hp
      playing := by
        intro hand hhand
        obtain rfl := Option.some.inj hhand
        exact firstHand_playing hp hq hne (fun r hr => hpair.mem_iff.mp hr) uuid _ }
  · have hpot : currentPot tm = 0 := by rw [currentPot, hnone]
    rw [tableChips, tableChips, hpot, stackSum_congr fun p hp => (hsame p hp).2]
    rfl

/-! ### Actions -/

section GrowTo
variable {α : Type*} (l : List α) (i : ℕ) (d : α)

theorem getD_growTo (j : ℕ) : (growTo l i d).getD j d = l.getD j d := by
  rw [growTo]
  split_ifs with h
  · exact getD_resize l d (by omega) j
  · rfl

theorem lt_length_growTo : i < (growTo l i d).length := by
  rw [growTo]
  split_ifs with h
  · simp
  · omega

theorem mem_growTo {x : α} (h : x ∈ growTo l i d) : x ∈ l ∨ x = d := by
  rw [growTo] at h
  split_ifs at h with hi
  · rcases List.mem_append.mp h with h | h
    · exact .inl (List.mem_of_mem_take h)
    · exact .inr (List.eq_of_mem_replicate h)
  · exact .inl h

end GrowTo

theorem getD_foldSeat {hand : Hand} {player : PlayerRef} {i : ℕ}
    (h : hand.players.idxOf? player = some i) (j : ℕ) :
    (PlayerAction.foldSeat hand player).folded.getD j false
      = if j = i then true else hand.folded.getD j false := by
  have hi := lt_length_growTo hand.folded i false
  simp only [PlayerAction.foldSeat, h]
  split_ifs with hj
  · subst hj
    rw [List.getD_eq_getElem?_getD, List.getElem?_set_self hi, Option.getD_some]
  · rw [List.getD_eq_getElem?_getD, List.getElem?_set_ne (Ne.symm hj),
      ← List.getD_eq_getElem?_getD, getD_growTo]

theorem betSeat_bets {hand : Hand} (player : PlayerRef) {pot amount : ℤ} (h : 0 ≤ amount)
    (hpot : 0 ≤ pot) (hbets : ∀ b ∈ hand.playerBets, 0 ≤ b ∧ b ≤ pot) :
    ∀ b ∈ (PlayerAction.betSeat hand player amount).playerBets, 0 ≤ b ∧ b ≤ pot + amount := by
  have hgrown : ∀ i, ∀ b ∈ growTo hand.playerBets i 0, 0 ≤ b ∧ b ≤ pot := by
    intro i b hb
    rcases mem_growTo _ _ _ hb with hb | rfl
    · exact hbets b hb
    · exact ⟨le_refl 0, hpot⟩
  have hold : ∀ i, 0 ≤ hand.playerBets.getD i 0 ∧ hand.playerBets.getD i 0 ≤ pot := by
    intro i
    rw [List.getD_eq_getElem?_getD]
    cases hget : hand.playerBets[i]? with
    | none => exact ⟨le_refl 0, hpot⟩
    | some b => exact hbets b (List.mem_of_getElem? hget)
  simp only [PlayerAction.betSeat]
  split
  · rename_i i hi
    intro b hb
    rcases List.mem_or_eq_of_mem_set hb with hb | rfl
    · have hb' := hgrown i b hb
      omega
    · have hi' := hold i
      omega
  · intro b hb
    have hb' := hbets b hb
    omega

theorem Playing.recordAction {players : List PlayerRef} {hand : Hand} (h : Playing players hand)
    (player : PlayerRef) (action : String) (amount : ℤ) (now : ℕ) :
    Playing players (recordAction hand player action amount now) := by
  obtain ⟨p, q, hpq, -⟩ := h.two
  refine { h with turn := ?_ }
  simp only [Core.recordAction, hpq, List.length_cons, List.length_nil, if_true]
  split_ifs
  · exact ⟨q, by simp, rfl⟩
  · exact ⟨p, by simp, rfl⟩

theorem Playing.foldSeat {players : List PlayerRef} {hand : Hand} (h : Playing players hand)
    (player : PlayerRef) : Playing players (PlayerAction.foldSeat hand player) :=
  ⟨h.two, h.pot, h.bets, h.minRaise, h.sidePots, h.round, h.winners, h.turn⟩

theorem Playing.placeBet {players : List PlayerRef} {hand : Hand} (h : Playing players hand)
    {amount : ℤ} (hge : 0 ≤ amount) (heap : Heap) (player : PlayerRef) (action : String) :
    Playing players (PlayerAction.placeBet heap hand player action amount).2 := by
  have hmin : 0 ≤ if action = "raise" then amount else hand.minRaise := by
    split_ifs
    · exact hge
    · exact h.minRaise
  exact ⟨h.two, add_nonneg h.pot hge, betSeat_bets player hge h.pot h.bets, hmin, h.sidePots,
    h.round, h.winners, h.turn⟩

/-- A fold leaves the other player, who is then on turn. -/
theorem Playing.fold {players : List PlayerRef} {hand : Hand} (h : Playing players hand)
    (hun : Unfolded hand) {player : PlayerRef} (hturn : hand.currentPlayerToAct = some player)
    (action : String) (amount : ℤ) (now : ℕ) :
    let hand' := Core.recordAction (PlayerAction.foldSeat hand player) player action amount now
    Playing players hand' ∧ Contested hand' := by
  intro hand'
  refine ⟨(h.foldSeat player).recordAction player action amount now, .inr ?_⟩
  obtain ⟨p, q, hpq, hne, -, -⟩ := h.two
  have hplayers : hand'.players = [p, q] := hpq
  have hfolded : hand'.folded = (PlayerAction.foldSeat hand player).folded := rfl
  have hnext : hand'.currentPlayerToAct = if player = p then some q else some p := by
    simp only [hand', Core.recordAction, PlayerAction.foldSeat, hpq, hturn, List.length_cons,
      List.length_nil, List.getElem?_cons_zero, List.getElem?_cons_succ, Option.some.injEq, if_true]
  have hactive := activePlayers_two hplayers
  rw [hfolded] at hactive
  obtain ⟨t, ht, hturn'⟩ := h.turn
  obtain rfl : t = player := Option.some.inj (hturn'.symm.trans hturn)
  rw [hpq, List.mem_pair] at ht
  rcases ht with rfl | rfl
  · have hi : hand.players.idxOf? t = some 0 := by simp [hpq, List.idxOf?_cons]
    refine ⟨q, by rw [hnext, if_pos rfl], ?_⟩
    rw [hactive, getD_foldSeat hi, getD_foldSeat hi, hun 1]
    rfl
  · have hi : hand.players.idxOf? t = some 1 := by simp [hpq, hne, List.idxOf?_cons]
    refine ⟨p, by rw [hnext, if_neg hne.symm], ?_⟩
    rw [hactive, getD_foldSeat hi, getD_foldSeat hi, hun 0]
    rfl

theorem Playing.bet {players : List PlayerRef} {hand : Hand} (h : Playing players hand)
    (hun : Unfolded hand) {amount : ℤ} (hge : 0 ≤ amount) (heap : Heap) (player : PlayerRef)
    (action : String) (now : ℕ) :
    let hand' := Core.recordAction (PlayerAction.placeBet heap hand player action amount).2 player
      action amount now
    Playing players hand' ∧ Unfolded hand' :=
  ⟨(h.placeBet hge heap player action).recordAction player action amount now, hun⟩

/-- The player on turn has not folded. -/
theorem Contested.onTurn {players : List PlayerRef} {hand : Hand} (h : Contested hand)
    (hplay : Playing players hand) {p : PlayerRef} (hturn : hand.currentPlayerToAct = some p) :
    ∃ i, hand.players.idxOf? p = some i ∧ hand.folded.getD i false = false := by
  obtain ⟨a, b, hab, hne, -, -⟩ := hplay.two
  obtain ⟨t, ht, hturn'⟩ := hplay.turn
  obtain rfl : t = p := Option.some.inj (hturn'.symm.trans hturn)
  have hactive := activePlayers_two hab
  have hmem : t ∈ activePlayers hand := by
    rcases h with hun | ⟨r, hr, hone⟩
    · rw [hun.activePlayers hab, ← hab]
      exact ht
    · obtain rfl : r = t := Option.some.inj (hr.symm.trans hturn)
      simp [hone]
  rw [hab, List.mem_pair] at ht
  rw [hactive] at hmem
  rcases ht with rfl | rfl
  · refine ⟨0, by simp [hab, List.idxOf?_cons], ?_⟩
    by_contra hfolded
    rw [Bool.not_eq_false] at hfolded
    rw [if_pos hfolded, List.nil_append] at hmem
    split_ifs at hmem <;> simp [hne] at hmem
  · refine ⟨1, by simp [hab, hne, List.idxOf?_cons], ?_⟩
    by_contra hfolded
    rw [Bool.not_eq_false] at hfolded
    rw [if_pos hfolded, List.append_nil] at hmem
    split_ifs at hmem <;> simp [hne.symm] at hmem

theorem processPlayerAction_iff {tm : TableManager} {playerId action : String} {amount : ℤ}
    {now : ℕ} :
    (tm.processPlayerAction playerId action amount now).1 = true ↔
      ∃ hand player, tm.table.currentHand = some hand ∧ tm.getPlayer playerId = some player ∧
        PlayerAction.validateAction tm.heap hand player action amount = true := by
  unfold TableManager.processPlayerAction
  cases tm.table.currentHand with
  | none => simp
  | some hand =>
    cases tm.getPlayer playerId with
    | none => simp
    | some player =>
      cases hvalid : PlayerAction.validateAction tm.heap hand player action amount with
      | false => simp [hvalid]
      | true => simp [PlayerAction.applyAction, hvalid]

/-- An accepted action is the engine's, a rejected one changes nothing. -/
theorem processPlayerAction_cases (tm : TableManager) (playerId action : String) (amount : ℤ)
    (now : ℕ) :
    tm.processPlayerAction playerId action amount now = (false, tm) ∨
    ∃ hand player heap' hand', tm.table.currentHand = some hand ∧
      tm.getPlayer playerId = some player ∧
      PlayerAction.applyAction tm.heap hand player action amount now = (true, heap', hand') ∧
      tm.processPlayerAction playerId action amount now = (true, { tm with
        heap := heap'
        table := { tm.table with currentHand := some hand', pot := hand'.pot } }) := by
  unfold TableManager.processPlayerAction
  cases hhand : tm.table.currentHand with
  | none => exact .inl rfl
  | some hand =>
    cases hplayer : tm.getPlayer playerId with
    | none => exact .inl rfl
    | some player =>
      by_cases hvalid : PlayerAction.validateAction tm.heap hand player action amount = true
      · have happly : (PlayerAction.applyAction tm.heap hand player action amount now).1 = true := by
          simp [PlayerAction.applyAction, hvalid]
        refine .inr ⟨hand, player, _, _, rfl, rfl, Prod.ext happly rfl, ?_⟩
        simp [hvalid, happly]
      · exact .inl (by simp [hvalid])

section Accepted

variable {tm tm' : TableManager} {playerId action : String} {amount : ℤ} {hand : Hand}
  {player : PlayerRef} (hhand : tm.table.currentHand = some hand)
include hhand

theorem accepted_of_valid (hget : tm.getPlayer playerId = some player)
    (hvalid : PlayerAction.validateAction tm.heap hand player action amount = true) (now : ℕ) :
    ∃ heap' hand',
      PlayerAction.applyAction tm.heap hand player action amount now = (true, heap', hand') ∧
      tm.processPlayerAction playerId action amount now = (true, { tm with
        heap := heap'
        table := { tm.table with currentHand := some hand', pot := hand'.pot } }) := by
  have hok : (tm.processPlayerAction playerId action amount now).1 = true :=
    processPlayerAction_iff.mpr ⟨hand, player, hhand, hget, hvalid⟩
  rcases processPlayerAction_cases tm playerId action amount now with
    hno | ⟨hand₁, player₁, heap', hand', hhand₁, hget₁, happly, hyes⟩
  · rw [hno] at hok
    cases hok
  obtain rfl := Option.some.inj (hhand.symm.trans hhand₁)
  obtain rfl := Option.some.inj (hget.symm.trans hget₁)
  exact ⟨heap', hand', happly, hyes⟩

theorem applied_of_accepted {now : ℕ}
    (hyes : tm.processPlayerAction playerId action amount now = (true, tm')) :
    ∃ player heap' hand', tm.getPlayer playerId = some player ∧
      PlayerAction.applyAction tm.heap hand player action amount now = (true, heap', hand') ∧
      tm' = { tm with
        heap := heap'
        table := { tm.table with currentHand := some hand', pot := hand'.pot } } := by
  rcases processPlayerAction_cases tm playerId action amount now with
    hno | ⟨hand₁, player, heap', hand', hhand₁, hget, happly, hacted⟩
  · rw [hno] at hyes
    cases hyes
  obtain rfl := Option.some.inj (hhand.symm.trans hhand₁)
  exact ⟨player, heap', hand', hget, happly, (Prod.ext_iff.mp (hyes.symm.trans hacted)).2⟩

end Accepted

/-- A hand goes on: the heap and the hand are replaced. -/
theorem TableInv.act {tm : TableManager} {nextRef : PlayerRef} (h : TableInv Unfolded tm nextRef)
    (hhand : tm.table.currentHand.isSome = true) {heap : Heap} {hand : Hand}
    (hids : ∀ p, (heap p).id = (tm.heap p).id)
    (hstacks : ∀ p ∈ tm.players, 0 ≤ (heap p).stack ∧ (heap p).stack ≤ startingStack)
    (hplay : Playing tm.players hand ∧ Contested hand) :
    TableInv Contested { tm with
      heap
      table := { tm.table with currentHand := some hand, pot := hand.pot } } nextRef :=
  { h with
    ids := by
      rw [List.map_congr_left fun p _ => hids p]
      exact h.ids
    solvent := fun p hp => (hstacks p hp).1
    both := fun _ => h.both hhand
    idle := fun hno => by cases hno
    shallow := .inl fun p hp => (hstacks p hp).2
    playing := by
      rintro _ ⟨⟩
      exact hplay }

theorem bet_stacks {heap : Heap} {player : PlayerRef} {amount : ℤ} (hge : 0 ≤ amount)
    (hle : amount ≤ (heap player).stack) {p : PlayerRef}
    (hp : 0 ≤ (heap p).stack ∧ (heap p).stack ≤ startingStack) :
    0 ≤ (heap.credit (Pi.single player (-amount)) p).stack ∧
      (heap.credit (Pi.single player (-amount)) p).stack ≤ startingStack := by
  rw [credit_stack]
  by_cases hpq : p = player
  · subst hpq
    rw [Pi.single_eq_same]
    omega
  · rw [Pi.single_eq_of_ne hpq]
    omega

theorem TableInv.processPlayerAction {tm : TableManager} {nextRef : PlayerRef}
    (h : TableInv Unfolded tm nextRef) {playerId action : String} {amount : ℤ} {now : ℕ}
    (hok : (tm.processPlayerAction playerId action amount now).1 = true) :
    let tm' := (tm.processPlayerAction playerId action amount now).2
    TableInv Contested tm' nextRef ∧ tm'.table.currentHand.isSome = true ∧
      tableChips tm' = tableChips tm := by
  rcases processPlayerAction_cases tm playerId action amount now with hno | hyes
  · rw [hno] at hok
    cases hok
  obtain ⟨hand, player, heap', hand', hhand, hget, happly, htm⟩ := hyes
  simp only [htm]
  obtain ⟨hplay, hun⟩ := h.playing hand hhand
  have hplayer := (getPlayer_mem hget).1
  have hsome : tm.table.currentHand.isSome = true := by rw [hhand]; rfl
  have hpot : currentPot tm = hand.pot := by rw [currentPot, hhand]
  have hshallow := h.shallow.resolve_right (by simp [hhand])
  have hstacks : ∀ p ∈ tm.players, 0 ≤ (tm.heap p).stack ∧ (tm.heap p).stack ≤ startingStack :=
    fun p hp => ⟨h.solvent p hp, hshallow p hp⟩
  obtain ⟨-, hturn, hact⟩ := PlayerAction.applyAction_cases happly
  rcases hact with ⟨-, -, rfl, rfl⟩ | ⟨-, hge, hle, rfl, rfl⟩
  · refine ⟨h.act hsome (fun _ => rfl) hstacks (hplay.fold hun hturn action amount now), rfl, ?_⟩
    rw [tableChips, tableChips, hpot]
    rfl
  · obtain ⟨hplay', hun'⟩ := hplay.bet hun hge tm.heap player action now
    refine ⟨h.act hsome (fun _ => rfl) (fun p hp => bet_stacks hge hle (hstacks p hp))
      ⟨hplay', .inl hun'⟩, rfl, ?_⟩
    have hsum := stackSum_credit tm.heap (Pi.single player (-amount)) tm.players
    rw [sum_map_single h.nodup hplayer] at hsum
    show stackSum (tm.heap.credit _) tm.players + (hand.pot + amount) = _
    rw [tableChips, hpot, hsum]
    omega

/-! ### Top-ups and the end of a hand -/

theorem topUp_stack_ge (p : Player) : p.stack ≤ p.topUp.stack := by
  unfold Player.topUp Player.needsTopUp
  split_ifs with h
  · have hlt : p.stack < topUpThreshold := by simpa using h
    have hle : topUpThreshold ≤ targetStack := by decide
    exact hlt.le.trans hle
  · exact le_refl _

theorem topUp_stack_le {p : Player} (h : p.stack ≤ startingStack) :
    p.topUp.stack ≤ startingStack := by
  unfold Player.topUp
  split_ifs
  · exact (by decide : targetStack ≤ startingStack)
  · exact h

theorem update_topUp (heap : Heap) (p : PlayerRef) :
    Function.update heap p (heap p).topUp
      = heap.credit (Pi.single p ((heap p).topUp.stack - (heap p).stack)) := by
  funext q
  by_cases h : q = p
  · subst h
    rw [Function.update_self, Heap.credit, Pi.single_eq_same, add_sub_cancel, Player.topUp]
    split_ifs <;> rfl
  · simp [Heap.credit, Function.update_of_ne h, Pi.single_eq_of_ne h]

theorem topUp_credited (heap : Heap) (p : PlayerRef) :
    heap.Credited (Function.update heap p (heap p).topUp) := by
  refine ⟨_, update_topUp heap p, fun q => ?_⟩
  by_cases h : q = p
  · subst h
    rw [Pi.single_eq_same]
    exact sub_nonneg.mpr (topUp_stack_ge _)
  · rw [Pi.single_eq_of_ne h]

theorem stackSum_topUp {players : List PlayerRef} (hnd : players.Nodup) {p : PlayerRef}
    (hp : p ∈ players) (heap : Heap) :
    stackSum (Function.update heap p (heap p).topUp) players
      = stackSum heap players + ((heap p).topUp.stack - (heap p).stack) := by
  rw [update_topUp, stackSum_credit, sum_map_single hnd hp]

theorem TableInv.topUp {tm : TableManager} {nextRef : PlayerRef}
    (h : TableInv Unfolded tm nextRef) {p : PlayerRef} (hp : p ∈ tm.players) :
    let tm' := { tm with heap := Function.update tm.heap p (tm.heap p).topUp }
    TableInv Unfolded tm' nextRef ∧
      tableChips tm' = tableChips tm + ((tm.heap p).topUp.stack - (tm.heap p).stack) := by
  intro tm'
  obtain ⟨credit, hheap, hge⟩ := topUp_credited tm.heap p
  have hheap' : tm'.heap = tm.heap.credit credit := hheap
  refine ⟨?_, ?_⟩
  · exact { h with
      ids := by
        rw [hheap']
        exact h.ids
      solvent := by
        intro q hq
        rw [hheap', credit_stack]
        exact add_nonneg (h.solvent q hq) (hge q)
      shallow := h.shallow.imp_left fun hs q hq => by
        show (Function.update tm.heap p (tm.heap p).topUp q).stack ≤ startingStack
        by_cases hqp : q = p
        · rw [hqp, Function.update_self]
          exact topUp_stack_le (hs p hp)
        · rw [Function.update_of_ne hqp]
          exact hs q hq }
  · have hsum := stackSum_topUp h.nodup hp tm.heap
    have hpot : currentPot tm' = currentPot tm := rfl
    rw [tableChips, tableChips, hpot, hsum]
    omega

theorem topUpAll_spec {players : List PlayerRef} (hnd : players.Nodup) {ps : List PlayerRef}
    (hps : ∀ p ∈ ps, p ∈ players) (heap : Heap) :
    heap.Credited (topUpAll heap ps).1 ∧
      stackSum (topUpAll heap ps).1 players = stackSum heap players + (topUpAll heap ps).2 := by
  induction ps generalizing heap with
  | nil => exact ⟨Heap.Credited.refl heap, (add_zero _).symm⟩
  | cons p rest ih =>
    obtain ⟨hcred, hsum⟩ := ih (fun q hq => hps q (by simp [hq]))
      (Function.update heap p (heap p).topUp)
    rw [topUpAll]
    refine ⟨(topUp_credited heap p).trans hcred, ?_⟩
    rw [hsum, stackSum_topUp hnd (hps p (by simp))]
    omega

theorem topUpAll_apply {players : List PlayerRef} (hnd : players.Nodup) (heap : Heap)
    (p : PlayerRef) : (topUpAll heap players).1 p
      = if p ∈ players then (heap p).topUp else heap p := by
  induction players generalizing heap with
  | nil => rfl
  | cons q rest ih =>
    obtain ⟨hq, hrest⟩ := List.nodup_cons.mp hnd
    rw [topUpAll, ih hrest]
    by_cases hpq : p = q
    · subst hpq
      rw [if_neg hq, if_pos (List.mem_cons_self ..), Function.update_self]
    · rw [Function.update_of_ne hpq]
      simp [hpq]

/-- The end of a hand pays and tops up. -/
theorem endHand_credited {players : List PlayerRef} (hnd : players.Nodup) {hand : Hand}
    (hpot : 0 ≤ hand.pot) (hsidePots : hand.sidePots = []) (heap : Heap)
    (winners : List PlayerRef) :
    heap.Credited (topUpAll (Pot.distributePot heap { hand with winners } winners).1 players).1 := by
  have hsides : ∀ pot ∈ hand.sidePots, 0 ≤ pot.amount := by simp [hsidePots]
  have hpaid : heap.Credited (Pot.distributePot heap { hand with winners } winners).1 :=
    distributePot_credited winners hpot hsides heap
  exact hpaid.trans (topUpAll_spec hnd (fun p (hp : p ∈ players) => hp) _).1

/-- The end of a hand with one player left: he gets the pot. -/
theorem TableInv.endHand {tm : TableManager} {nextRef : PlayerRef}
    (h : TableInv Contested tm nextRef) {hand : Hand} (hhand : tm.table.currentHand = some hand)
    (hfew : (activePlayers hand).length ≤ 1) (σ : MapOrder) :
    ∃ tm' added, tm.endHand σ = (tm', added, none) ∧ tm'.table.currentHand = none ∧
      TableInv Unfolded tm' nextRef ∧ tableChips tm' = tableChips tm + added := by
  obtain ⟨hplay, hcon⟩ := h.playing hand hhand
  obtain ⟨p, hp, hone⟩ := hcon.single hplay hfew
  have hwin : Poker.determineWinners σ tm.heap hand = .ok [p] := determineWinners_of_single hone
  have hsides : ∀ pot ∈ hand.sidePots, 0 ≤ pot.amount := by simp [hplay.sidePots]
  have hmem : ∀ w ∈ [p], w ∈ tm.players := by simpa using hp
  set won : Hand := { hand with winners := [p] }
  have hpot' : 0 ≤ won.pot := hplay.pot
  obtain ⟨htotal, -, -⟩ := distributePot_total h.nodup hmem hpot' hsides tm.heap
  have hempty : (Pot.distributePot tm.heap won [p]).2.pot = 0 :=
    distributePot_pot (by simp) hpot' tm.heap
  have hleft : (Pot.distributePot tm.heap won [p]).2.sidePots = [] := by
    simp [Pot.distributePot, won, hplay.sidePots, distributeSidePots]
  obtain ⟨-, hadded⟩ := topUpAll_spec h.nodup (fun q (hq : q ∈ tm.players) => hq)
    (Pot.distributePot tm.heap won [p]).1
  obtain ⟨credit, hheap, hge⟩ := endHand_credited h.nodup hplay.pot hplay.sidePots tm.heap [p]
  have hpot : currentPot tm = hand.pot := by rw [currentPot, hhand]
  refine ⟨_, _, by rw [TableManager.endHand, hhand]; simp only [hwin]; rfl, rfl, ?_, ?_⟩
  · exact { h with
      ids := by
        rw [hheap]
        exact h.ids
      solvent := by
        intro q hq
        rw [hheap, credit_stack]
        exact add_nonneg (h.solvent q hq) (hge q)
      both := fun hsome => by cases hsome
      idle := fun _ => rfl
      shallow := .inr ⟨rfl, h.both (by rw [hhand]; rfl)⟩
      playing := fun hand hno => by cases hno }
  · rw [hempty, hleft] at htotal
    have hsidePots : sidePotSum won.sidePots = 0 := by rw [hplay.sidePots]; rfl
    rw [hsidePots] at htotal
    change _ + 0 + 0 = _ + hand.pot + 0 at htotal
    rw [tableChips, tableChips, hpot]
    show stackSum (topUpAll (Pot.distributePot tm.heap won [p]).1 tm.players).1 tm.players + 0
      = _ + (topUpAll (Pot.distributePot tm.heap won [p]).1 tm.players).2
    omega

end HeadsUp.Server
