import HeadsUp.Core.HandBets

/-!
# The chips of a hand

Stacks, pot and side pots together keep their chips, on `int`s, as long as side
pots are only calculated from bets they already hold. What the players have bet
is never paid back, so with distributions in between it can outgrow an `int`
although the chips do not.
-/

namespace HeadsUp.Core
open HeadsUp.Lib

/-- The action takes `amount` from the player's stack. -/
def HandState.Bets (s : HandState) (p : PlayerRef) (action : String) (amount : ℤ) : Prop :=
  (action = "call" ∨ action = "raise" ∧ s.hand.minRaise ≤ amount) ∧ 0 ≤ amount ∧
    amount ≤ (s.heap p).stack

/-- Side pots are calculated only when they already hold the bets, and a player's
bets stay an `int`. -/
def KeepsChips (s : HandState) : HandOp → Prop
  | .applyAction p action amount _ => s.Bets p action amount → ownBet s.hand p + amount < 2 ^ 31
  | .calculateSidePots _ => sidePotSum s.hand.sidePots = s.hand.playerBets.sum
  | _ => True

def OnInts (total : ℤ) (s : HandState) : Prop := s.InInts ∧ s.chips = total

structure ChipsInv (players : List PlayerRef) (s : HandState) : Prop where
  rep : HandInv players s
  solvent : ∀ p ∈ players, 0 ≤ (s.heap p).stack

theorem sidePotSum_nonneg {pots : List SidePot} (h : ∀ pot ∈ pots, 0 ≤ pot.amount) :
    0 ≤ sidePotSum pots := by
  refine List.sum_nonneg fun x hx => ?_
  obtain ⟨pot, hpot, rfl⟩ := List.mem_map.mp hx
  exact h pot hpot

section State
variable {players : List PlayerRef} {s : HandState} (h : ChipsInv players s)
include h

/-- Every amount is a part of the chips. -/
theorem ChipsInv.stack_le {p : PlayerRef} (hp : p ∈ players) :
    (s.heap p).stack + s.hand.pot + sidePotSum s.hand.sidePots ≤ s.chips := by
  have hle : (s.heap p).stack ≤ stackSum s.heap s.hand.players := by
    refine List.single_le_sum ?_ _ (List.mem_map_of_mem (h.rep.players_eq.symm ▸ hp))
    intro x hx
    obtain ⟨q, hq, rfl⟩ := List.mem_map.mp hx
    exact h.solvent q (h.rep.players_eq ▸ hq)
  rw [HandState.chips]
  omega

theorem ChipsInv.parts_le : s.hand.pot + sidePotSum s.hand.sidePots ≤ s.chips := by
  have hstacks : 0 ≤ stackSum s.heap s.hand.players := by
    refine List.sum_nonneg fun x hx => ?_
    obtain ⟨q, hq, rfl⟩ := List.mem_map.mp hx
    exact h.solvent q (h.rep.players_eq ▸ hq)
  rw [HandState.chips]
  omega

theorem ChipsInv.inInts_iff (hchips : s.chips < 2 ^ 31) :
    s.InInts ↔ ∀ b ∈ s.hand.playerBets, b < 2 ^ 31 := by
  have hsides := sidePotSum_nonneg h.rep.sides
  have hpot := h.rep.pot
  constructor
  · intro hints b hb
    exact (hints.2.2 b hb).2
  · intro hbets
    refine ⟨fun p hp => ?_, ⟨by omega, ?_⟩, fun b hb => ⟨?_, hbets b hb⟩⟩
    · rw [h.rep.players_eq] at hp
      have hle := h.stack_le hp
      have hsolvent := h.solvent p hp
      exact ⟨by omega, by omega⟩
    · have hle := h.parts_le
      omega
    · have hnonneg := h.rep.bets b hb
      omega

end State

/-! ### One operation -/

section Step
variable {players : List PlayerRef} {s : HandState} {total : ℤ} (h : ChipsInv players s)
  (hon : OnInts total s) (htotal : total < 2 ^ 31)
include h hon htotal

omit htotal in
/-- No amount is written. -/
theorem onInts_same {s' : HandState} (hplayers : s'.hand.players = s.hand.players)
    (hpot : s'.hand.pot = s.hand.pot) (hbets : s'.hand.playerBets = s.hand.playerBets)
    (hsides : s'.hand.sidePots = s.hand.sidePots) (hheap : s'.heap = s.heap) :
    OnInts total s' ∧ ChipsInv players s' := by
  obtain ⟨hints, hchips⟩ := hon
  refine ⟨⟨?_, ?_⟩, h.rep.congr hplayers hpot hbets hsides, hheap ▸ h.solvent⟩
  · rwa [HandState.InInts, hplayers, hpot, hbets, hheap]
  · rwa [HandState.chips, hplayers, hpot, hsides, hheap]

theorem bet_iff (hnd : players.Nodup) {p : PlayerRef} (hp : p ∈ players) (action : String)
    {amount : ℤ} (hge : 0 ≤ amount) (hle : amount ≤ (s.heap p).stack) (now : ℕ) :
    let r := betAction s.heap (Poker.sizeVectors s.hand) p action amount now
    (OnInts total ⟨r.1, r.2⟩ ↔ ownBet s.hand p + amount < 2 ^ 31) ∧ ChipsInv players ⟨r.1, r.2⟩ := by
  intro r
  obtain ⟨hrep, hchips⟩ := betAction_inv h.rep hnd hp action hge now
  have hsame : (HandState.mk r.1 r.2).chips = total := hchips.trans hon.2
  have hmem : p ∈ s.hand.players := h.rep.players_eq.symm ▸ hp
  have hi : s.hand.players.idxOf p < s.hand.playerBets.length := by
    have hlt := List.idxOf_lt_length_iff.mpr hmem
    rwa [h.rep.betsLength, ← h.rep.players_eq]
  have hidx : s.hand.players.idxOf? p = some (s.hand.players.idxOf p) :=
    List.findIdx?_eq_some_iff_findIdx_eq.mpr ⟨List.idxOf_lt_length_iff.mpr hmem, rfl⟩
  have hbets : r.2.playerBets
      = s.hand.playerBets.set (s.hand.players.idxOf p) (ownBet s.hand p + amount) := by
    have hsized := sizeVectors_playerBets h.rep
    have hplayers : (Poker.sizeVectors s.hand).players = s.hand.players := rfl
    simp only [r, betAction, recordAction, addBet, hplayers, hidx, hsized, ownBet]
  have hinv : ChipsInv players ⟨r.1, r.2⟩ := by
    refine ⟨hrep, fun q hq => ?_⟩
    have hwas := h.solvent q hq
    show 0 ≤ (s.heap q).stack + (Pi.single p (-amount) : PlayerRef → ℤ) q
    by_cases hqp : q = p
    · rw [hqp, Pi.single_eq_same]
      omega
    · rw [Pi.single_eq_of_ne hqp]
      omega
  refine ⟨?_, hinv⟩
  rw [OnInts, and_iff_left hsame, hinv.inInts_iff (hsame ▸ htotal)]
  show (∀ b ∈ r.2.playerBets, b < 2 ^ 31) ↔ _
  rw [hbets]
  constructor
  · intro hall
    exact hall _ (List.mem_set hi _)
  · intro hown b hb
    rcases List.mem_or_eq_of_mem_set hb with hb | rfl
    · exact (hon.1.2.2 b hb).2
    · exact hown

theorem applyAction_keeps (hnd : players.Nodup) {p : PlayerRef} (hp : p ∈ players) (action : String)
    (amount : ℤ) (now : ℕ) :
    (OnInts total (HandOp.apply s (.applyAction p action amount now)).1 ↔
      KeepsChips s (.applyAction p action amount now)) ∧
    ChipsInv players (HandOp.apply s (.applyAction p action amount now)).1 := by
  have hsized := sizeVectors_playerBets h.rep
  have hbet := @Poker.applyAction_iff s.heap s.hand p action amount now
  cases hok : (Poker.applyAction s.heap s.hand (some p) action amount now).1 with
  | false =>
    have hno : ¬s.Bets p action amount := fun hh => by
      rw [hbet.mpr (.inr hh)] at hok
      cases hok
    have hsame : OnInts total (HandOp.apply s (.applyAction p action amount now)).1 ∧
        ChipsInv players (HandOp.apply s (.applyAction p action amount now)).1 := by
      simp only [HandOp.apply]
      rcases Poker.applyAction_rejects hok with hr | hr
      · rw [hr]
        exact onInts_same h hon rfl rfl rfl rfl rfl
      · rw [hr]
        exact onInts_same h hon rfl rfl hsized rfl rfl
    exact ⟨iff_of_true hsame.1 fun hh => absurd hh hno, hsame.2⟩
  | true =>
    rcases Poker.applyAction_accepts hok with ⟨rfl, hr⟩ | ⟨hfold, -, hge, hle, hr⟩
    · have hno : ¬s.Bets p "fold" amount := by simp [HandState.Bets]
      set s' : HandState :=
        ⟨s.heap, recordAction (markFolded (Poker.sizeVectors s.hand) p) p "fold" amount now⟩
      have hsame : OnInts total s' ∧ ChipsInv players s' := onInts_same h hon rfl rfl hsized rfl rfl
      simp only [HandOp.apply, hr]
      exact ⟨iff_of_true hsame.1 fun hh => absurd hh hno, hsame.2⟩
    · have hyes : s.Bets p action amount := (hbet.mp hok).resolve_left hfold
      simp only [HandOp.apply, hr, KeepsChips, hyes, true_implies]
      exact bet_iff h hon htotal hnd hp action hge hle now

/-- The side pots hold the bets afterwards, up to what an `int` cannot hold; so they
held them before if they hold as much as before. -/
theorem calculateSidePots_keeps (htwo : players.length = 2) (sort : IndexSort) :
    (OnInts total (HandOp.apply s (.calculateSidePots sort)).1 ↔
      KeepsChips s (.calculateSidePots sort)) ∧
    (OnInts total (HandOp.apply s (.calculateSidePots sort)).1 →
      ChipsInv players (HandOp.apply s (.calculateSidePots sort)).1) := by
  obtain ⟨sidePots, hok, hr⟩ := calculateSidePots_ok h.rep sort
  obtain ⟨hints, hchips⟩ := hon
  have hsides := sidePotSum_nonneg h.rep.sides
  have hparts := h.parts_le
  have hpot := h.rep.pot
  have hsmall : sidePotSum s.hand.sidePots < 2 ^ 31 := by omega
  obtain ⟨b, c, hbets⟩ := List.length_eq_two.mp (h.rep.betsLength.trans htwo)
  have hsum : s.hand.playerBets.sum = b + c := by simp [hbets]
  have hb := hints.2.2 b (by simp [hbets])
  have hc := hints.2.2 c (by simp [hbets])
  have hb' := h.rep.bets b (by simp [hbets])
  have hc' := h.rep.bets c (by simp [hbets])
  have hheld : sidePotSum sidePots = sidePotSum s.hand.sidePots ↔
      sidePotSum s.hand.sidePots = s.hand.playerBets.sum := by
    constructor
    · intro hsame
      have hmod := calculateSidePots_modEq hok
      rw [hsame, Int.ModEq, Int.emod_eq_of_lt hsides (hsmall.trans (by decide)),
        Int.emod_eq_of_lt (by omega) (by have := hb.2; have := hc.2; omega)] at hmod
      exact hmod
    · intro hwas
      rw [calculateSidePots_sum hok h.rep.bets (hwas ▸ hsmall), hwas]
  have hon' : OnInts total ⟨s.heap, { s.hand with sidePots }⟩ ↔
      sidePotSum sidePots = sidePotSum s.hand.sidePots := by
    have hints' : (HandState.mk s.heap { s.hand with sidePots }).InInts := hints
    rw [OnInts, and_iff_right hints']
    show stackSum s.heap s.hand.players + s.hand.pot + sidePotSum sidePots = total ↔ _
    rw [← hchips, HandState.chips]
    omega
  rw [hr]
  refine ⟨hon'.trans hheld, fun hnext => ⟨⟨h.rep.players_eq, h.rep.pot, h.rep.betsLength, h.rep.bets,
    ?_⟩, h.solvent⟩⟩
  have hwas := hheld.mp (hon'.mp hnext)
  exact calculateSidePots_nonneg hok h.rep.bets (hwas ▸ hsmall)

theorem distributePot_keeps (hnd : players.Nodup) {winners : List PlayerRef}
    (hmem : ∀ w ∈ winners, w ∈ players) :
    OnInts total (HandOp.apply s (.distributePot winners)).1 ∧
      ChipsInv players (HandOp.apply s (.distributePot winners)).1 := by
  obtain ⟨hrep, hchips⟩ := distributePot_inv h.rep hnd hmem
  have hsame := hchips.trans hon.2
  have hinv : ChipsInv players (HandOp.apply s (.distributePot winners)).1 := by
    refine ⟨hrep, fun p hp => ?_⟩
    obtain ⟨won, hwon, hge⟩ := distributePot_credited winners h.rep.pot h.rep.sides s.heap
    have hwas := h.solvent p hp
    simp only [HandOp.apply, hwon, credit_stack]
    have hgain := hge p
    omega
  refine ⟨⟨(hinv.inInts_iff (hsame ▸ htotal)).mpr fun b hb => ?_, hsame⟩, hinv⟩
  exact (hon.1.2.2 b hb).2

omit htotal in
theorem advanceBettingRound_keeps :
    OnInts total (HandOp.apply s .advanceBettingRound).1 ∧
      ChipsInv players (HandOp.apply s .advanceBettingRound).1 := by
  obtain ⟨round, deck, cards, hr⟩ := advanceBettingRound_eq s.hand
  simp only [HandOp.apply, hr]
  exact onInts_same h hon rfl rfl rfl rfl rfl

theorem keepsChips_iff (hnd : players.Nodup) (htwo : players.length = 2) {op : HandOp}
    (hop : op.Among players) :
    (OnInts total (HandOp.apply s op).1 ↔ KeepsChips s op) ∧
      (OnInts total (HandOp.apply s op).1 → ChipsInv players (HandOp.apply s op).1) := by
  cases op with
  | applyAction p action amount now =>
    obtain ⟨hiff, hinv⟩ := applyAction_keeps h hon htotal hnd hop action amount now
    exact ⟨hiff, fun _ => hinv⟩
  | advanceBettingRound =>
    obtain ⟨hon', hinv⟩ := advanceBettingRound_keeps h hon
    exact ⟨iff_of_true hon' trivial, fun _ => hinv⟩
  | calculateSidePots sort => exact calculateSidePots_keeps h hon htotal htwo sort
  | distributePot winners =>
    obtain ⟨hon', hinv⟩ := distributePot_keeps h hon htotal hnd hop.2.2
    exact ⟨iff_of_true hon' trivial, fun _ => hinv⟩

end Step

/-! ### Runs -/

theorem HandSetup.start_chips (setup : HandSetup) :
    setup.start.chips = stackSum setup.heap setup.players := by
  have hstack : ∀ p, (setup.start.heap p).stack = (setup.heap p).stack :=
    fun p => Heap.Dealt.stack (dealHoleCards_dealt _ _ _) p
  show stackSum setup.start.heap setup.players + 0 + 0 = _
  simp only [stackSum, hstack, add_zero]

theorem HandSetup.start_chipsInv (setup : HandSetup)
    (hstacks : ∀ p ∈ setup.players, 0 ≤ (setup.heap p).stack) :
    ChipsInv setup.players setup.start :=
  ⟨setup.start_inv, (setup.start_betsInv hstacks).backed.solvent⟩

/-- Along a run of a hand of two players whose stacks together are an `int` no sum
outgrows one and the chips are the same in every state exactly when side pots are
only ever calculated from bets they already hold and nobody's bets outgrow an `int`. -/
theorem chips_constant_iff (setup : HandSetup) (hne : setup.smallBlind ≠ setup.bigBlind)
    (hstacks : ∀ p ∈ setup.players, 0 ≤ (setup.heap p).stack)
    (hsum : stackSum setup.heap setup.players < 2 ^ 31) (ops : List HandOp)
    (hops : ∀ op ∈ ops, op.Among setup.players) :
    (∀ pre, pre <+: ops → ∃ s, setup.intMachine.run pre = some s ∧
        s.chips = setup.start.chips) ↔
      setup.machine.EveryStep KeepsChips ops := by
  have hnd : setup.players.Nodup := by simpa [HandSetup.players] using hne
  have hinv := setup.start_chipsInv hstacks
  have htotal : setup.start.chips < 2 ^ 31 := setup.start_chips ▸ hsum
  have hstart : OnInts setup.start.chips setup.start := by
    refine ⟨(hinv.inInts_iff htotal).mpr ?_, rfl⟩
    rw [setup.start_bets.1]
    decide
  refine (setup.machine.always_within_iff hstart.1 ops).trans ?_
  refine setup.machine.always_iff_of (I := ChipsInv setup.players)
    (S := OnInts setup.start.chips) hinv hstart ops fun pre op hpre h hon => ?_
  exact keepsChips_iff h hon htotal hnd rfl (hops op (hpre.subset (by simp)))

/-! ### Blinds and a side pot -/

def blindsThenSidePots : List HandOp :=
  [.applyAction 0 "call" 2 0, .applyAction 1 "call" 4 0, .calculateSidePots .stable]

theorem chips_constant_iff_blinds :
    (∀ pre, pre <+: blindsThenSidePots → ∃ s, twoStacks.intMachine.run pre = some s ∧
        s.chips = twoStacks.start.chips) ↔
      twoStacks.machine.EveryStep KeepsChips blindsThenSidePots :=
  chips_constant_iff twoStacks (by decide) (by decide) (by decide) blindsThenSidePots
    (by simp [blindsThenSidePots, HandOp.Among, HandSetup.players, twoStacks])

/-- The blinds count twice: 800 chips become 806. -/
theorem chips_after_sidePots :
    twoStacks.start.chips = 800 ∧ (twoStacks.intMachine.run blindsThenSidePots).map
      HandState.chips = some 806 := by
  decide

end HeadsUp.Core
