import HeadsUp.Core.HandRuns

/-!
# The bets of a hand

While a hand is played by actions and rounds the pot is the sum of the bets and
each player has what he came with, in his stack or in front of him. So the pot is
an `int` whenever what the two came with is together.
-/

namespace HeadsUp.Core
open HeadsUp.Lib

/-! ### What an action leaves -/

theorem sum_set_add {bets : List ℤ} {i : ℕ} (hi : i < bets.length) (amount : ℤ) :
    (bets.set i (bets.getD i 0 + amount)).sum = bets.sum + amount := by
  rw [List.sum_set', dif_pos hi, List.getD_eq_getElem _ _ hi]
  omega

theorem getD_set {α : Type*} (l : List α) {i : ℕ} (hi : i < l.length) (x d : α) (j : ℕ) :
    (l.set i x).getD j d = if j = i then x else l.getD j d := by
  by_cases hj : j = i
  · subst hj
    rw [if_pos rfl, List.getD_eq_getElem?_getD, List.getElem?_set_self hi, Option.getD_some]
  · rw [if_neg hj, List.getD_eq_getElem?_getD, List.getElem?_set_ne (Ne.symm hj),
      ← List.getD_eq_getElem?_getD]

theorem getD_markFolded {hand : Hand} {player : PlayerRef} {i : ℕ}
    (h : hand.players.idxOf? player = some i) (hi : i < hand.folded.length) (j : ℕ) :
    (markFolded hand player).folded.getD j false
      = if j = i then true else hand.folded.getD j false := by
  simp only [markFolded, h, getD_set _ hi]

theorem getD_addBet {hand : Hand} {player : PlayerRef} {i : ℕ}
    (h : hand.players.idxOf? player = some i) (hi : i < hand.playerBets.length) (amount : ℤ)
    (j : ℕ) : (addBet hand player amount).playerBets.getD j 0
      = hand.playerBets.getD j 0 + if j = i then amount else 0 := by
  simp only [addBet, h, getD_set _ hi]
  by_cases hj : j = i
  · rw [if_pos hj, if_pos hj, hj]
  · rw [if_neg hj, if_neg hj, add_zero]

namespace Poker

theorem applyAction_iff {heap : Heap} {hand : Hand} {p : PlayerRef} {action : String} {amount : ℤ}
    {now : ℕ} :
    (applyAction heap hand (some p) action amount now).1 = true ↔
      action = "fold" ∨ (action = "call" ∨ action = "raise" ∧ hand.minRaise ≤ amount) ∧
        0 ≤ amount ∧ amount ≤ (heap p).stack := by
  have hmin : (sizeVectors hand).minRaise = hand.minRaise := rfl
  by_cases hfold : action = "fold"
  · simp [applyAction, hfold]
  by_cases hcall : action = "call"
  · simp only [applyAction, hcall, if_true]
    grind
  by_cases hraise : action = "raise"
  · simp only [applyAction, hraise, hmin]
    grind
  · simp [applyAction, hfold, hcall, hraise]

/-- An accepted action is a fold or a bet the rules allow. -/
theorem applyAction_accepts {heap : Heap} {hand : Hand} {p : PlayerRef} {action : String}
    {amount : ℤ} {now : ℕ} (hok : (applyAction heap hand (some p) action amount now).1 = true) :
    action = "fold" ∧ applyAction heap hand (some p) action amount now
        = (true, heap, recordAction (markFolded (sizeVectors hand) p) p action amount now) ∨
    action ≠ "fold" ∧ (action = "raise" → hand.minRaise ≤ amount) ∧ 0 ≤ amount ∧
      amount ≤ (heap p).stack ∧ applyAction heap hand (some p) action amount now
        = (true, betAction heap (sizeVectors hand) p action amount now) := by
  by_cases hfold : action = "fold"
  · exact .inl ⟨hfold, by simp [applyAction, hfold]⟩
  obtain ⟨hact, hge, hle⟩ := (applyAction_iff.mp hok).resolve_left hfold
  have hmin : (sizeVectors hand).minRaise = hand.minRaise := rfl
  have hnot : ¬amount > (heap p).stack ∧ ¬amount < 0 := by omega
  refine .inr ⟨hfold, by grind, hge, hle, ?_⟩
  rcases hact with rfl | ⟨rfl, hraise⟩
  · simp [applyAction, betAction, addBet, hnot]
  · simp [applyAction, betAction, addBet, hmin, not_lt.mpr hraise, hnot]

/-- A rejected action at most pads the two vectors. -/
theorem applyAction_rejects {heap : Heap} {hand : Hand} {player : Option PlayerRef}
    {action : String} {amount : ℤ} {now : ℕ}
    (hno : (applyAction heap hand player action amount now).1 = false) :
    (applyAction heap hand player action amount now).2 = (heap, hand) ∨
      (applyAction heap hand player action amount now).2 = (heap, sizeVectors hand) := by
  cases player with
  | none => exact .inl rfl
  | some p =>
    rcases applyAction_cases heap hand p action amount now with hr | hr | ⟨-, -, hr⟩
    · exact .inr (by rw [hr])
    · rw [hr] at hno
      cases hno
    · rw [hr] at hno
      cases hno

end Poker

/-! ### The invariant -/

def ownBet (hand : Hand) (p : PlayerRef) : ℤ := hand.playerBets.getD (hand.players.idxOf p) 0

/-- The chips of the hand: what is in the pot is what the players have bet, and
nobody has lost or gained a chip. -/
structure Backed (setup : HandSetup) (s : HandState) : Prop where
  pot : s.hand.pot = s.hand.playerBets.sum
  kept : ∀ p ∈ setup.players, (s.heap p).stack + ownBet s.hand p = (setup.heap p).stack
  solvent : ∀ p ∈ setup.players, 0 ≤ (s.heap p).stack
  bets : ∀ b ∈ s.hand.playerBets, 0 ≤ b
  minRaise : bigBlind ≤ s.hand.minRaise

/-- A call that returns false leaves the players and the hand as they were. -/
structure RejectsUnchanged (s : HandState) : Prop where
  action : ∀ player action amount now,
    (Poker.applyAction s.heap s.hand player action amount now).1 = false →
      (Poker.applyAction s.heap s.hand player action amount now).2 = (s.heap, s.hand)
  round : (Poker.advanceBettingRound s.hand).1 = false →
    (Poker.advanceBettingRound s.hand).2.1 = s.hand

structure BetsInv (setup : HandSetup) (s : HandState) : Prop where
  rep : HandInv setup.players s
  foldedLength : s.hand.folded.length = setup.players.length
  backed : Backed setup s

/-- Actions of the players and rounds, the calls a hand is played with. -/
def HandOp.Plays (players : List PlayerRef) : HandOp → Prop
  | .applyAction player _ _ _ => player ∈ players
  | .advanceBettingRound => True
  | .calculateSidePots _ => False
  | .distributePot _ => False

theorem HandSetup.start_bets (setup : HandSetup) :
    setup.start.hand.playerBets = [0, 0] ∧ setup.start.hand.folded = [false, false] :=
  ⟨rfl, rfl⟩

theorem HandSetup.start_betsInv (setup : HandSetup)
    (hstacks : ∀ p ∈ setup.players, 0 ≤ (setup.heap p).stack) : BetsInv setup setup.start := by
  have hsame : ∀ p, (setup.start.heap p).stack = (setup.heap p).stack :=
    fun p => Heap.Dealt.stack (dealHoleCards_dealt _ _ _) p
  have hbets := setup.start_bets.1
  have hown : ∀ p, ownBet setup.start.hand p = 0 := by
    intro p
    rw [ownBet, hbets]
    rcases setup.start.hand.players.idxOf p with _ | _ | n <;> rfl
  refine ⟨setup.start_inv, rfl, ?_⟩
  exact {
    pot := by
      rw [hbets]
      rfl
    kept := fun p _ => by rw [hsame, hown, add_zero]
    solvent := fun p hp => by
      rw [hsame]
      exact hstacks p hp
    bets := setup.start_inv.bets
    minRaise := le_refl _ }

/-! ### One call -/

section Step
variable {setup : HandSetup} {s : HandState}

theorem BetsInv.sizeVectors (h : BetsInv setup s) : Poker.sizeVectors s.hand = s.hand := by
  have hfolded : s.hand.folded.length = s.hand.players.length := by
    rw [h.rep.players_eq, h.foldedLength]
  have hbets : s.hand.playerBets.length = s.hand.players.length := by
    rw [h.rep.players_eq, h.rep.betsLength]
  rw [Poker.sizeVectors, resize_of_length _ _ hfolded, resize_of_length _ _ hbets]

theorem BetsInv.rejects (h : BetsInv setup s) : RejectsUnchanged s where
  action := by
    intro player action amount now hno
    have hr := Poker.applyAction_rejects hno
    rwa [h.sizeVectors, or_self] at hr
  round := by
    unfold Poker.advanceBettingRound Hand.advanceRound
    cases s.hand.currentBettingRound <;> simp

/-- A bet of one of the players. -/
theorem BetsInv.bet (h : BetsInv setup s) (hne : setup.smallBlind ≠ setup.bigBlind)
    {p : PlayerRef} (hp : p ∈ setup.players) {action : String} {amount : ℤ} (hge : 0 ≤ amount)
    (hle : amount ≤ (s.heap p).stack) (hmin : action = "raise" → s.hand.minRaise ≤ amount)
    (now : ℕ) :
    let r := betAction s.heap s.hand p action amount now
    BetsInv setup ⟨r.1, r.2⟩ ∧ s.hand.minRaise ≤ r.2.minRaise := by
  have hnd : setup.players.Nodup := by simpa [HandSetup.players] using hne
  have hmem : p ∈ s.hand.players := h.rep.players_eq.symm ▸ hp
  have hi : s.hand.players.idxOf p < s.hand.playerBets.length := by
    have hlt := List.idxOf_lt_length_iff.mpr hmem
    rwa [h.rep.betsLength, ← h.rep.players_eq]
  have hidx : s.hand.players.idxOf? p = some (s.hand.players.idxOf p) :=
    List.findIdx?_eq_some_iff_findIdx_eq.mpr ⟨List.idxOf_lt_length_iff.mpr hmem, rfl⟩
  have hraised : s.hand.minRaise ≤ if action = "raise" then amount else s.hand.minRaise := by
    split_ifs with hraise
    · exact hmin hraise
    · exact le_refl _
  have hrep := (betAction_inv h.rep hnd hp action hge now).1
  rw [h.sizeVectors] at hrep
  intro r
  have hbets : r.2.playerBets = s.hand.playerBets.set (s.hand.players.idxOf p)
      (s.hand.playerBets.getD (s.hand.players.idxOf p) 0 + amount) := by
    simp only [r, betAction, recordAction, addBet, hidx]
  refine ⟨⟨hrep, h.foldedLength, ?_⟩, hraised⟩
  exact {
    pot := by
      rw [hbets, sum_set_add hi, ← h.backed.pot]
      rfl
    kept := by
      intro q hq
      have hwas := h.backed.kept q hq
      show (s.heap q).stack + (Pi.single p (-amount) : PlayerRef → ℤ) q
        + r.2.playerBets.getD (s.hand.players.idxOf q) 0 = _
      rw [hbets, getD_set _ hi]
      by_cases hpq : q = p
      · subst hpq
        rw [if_pos rfl, Pi.single_eq_same]
        rw [ownBet] at hwas
        omega
      · have hdiff : s.hand.players.idxOf q ≠ s.hand.players.idxOf p :=
          fun heq => hpq ((List.idxOf_inj hmem).mp heq.symm).symm
        rw [if_neg hdiff, Pi.single_eq_of_ne hpq, add_zero]
        exact hwas
    solvent := by
      intro q hq
      have hwas := h.backed.solvent q hq
      show 0 ≤ (s.heap q).stack + (Pi.single p (-amount) : PlayerRef → ℤ) q
      by_cases hpq : q = p
      · subst hpq
        rw [Pi.single_eq_same]
        omega
      · rw [Pi.single_eq_of_ne hpq]
        omega
    bets := hrep.bets
    minRaise := h.backed.minRaise.trans hraised }

/-- The bets in the order of the players. -/
theorem BetsInv.two (h : BetsInv setup s) (hne : setup.smallBlind ≠ setup.bigBlind) :
    s.hand.playerBets = [ownBet s.hand setup.smallBlind, ownBet s.hand setup.bigBlind] := by
  have hplayers : s.hand.players = [setup.smallBlind, setup.bigBlind] := h.rep.players_eq
  obtain ⟨b, c, hbets⟩ := List.length_eq_two.mp h.rep.betsLength
  simp [ownBet, hplayers, hbets, hne]

/-- Nothing outgrows an `int` if the two stacks together did not. -/
theorem BetsInv.inInts (h : BetsInv setup s) (hne : setup.smallBlind ≠ setup.bigBlind)
    (hsum : stackSum setup.heap setup.players < 2 ^ 31) : s.InInts := by
  have hbets := h.two hne
  have hnonneg := h.backed.bets
  have hpot := h.backed.pot
  have hkept : ∀ p ∈ setup.players, (s.heap p).stack + ownBet s.hand p = (setup.heap p).stack :=
    h.backed.kept
  have hsolvent := h.backed.solvent
  rw [hbets] at hnonneg hpot
  simp only [HandSetup.players, stackSum, List.map_cons, List.map_nil, List.sum_cons, List.sum_nil,
    List.forall_mem_cons] at hsum hnonneg hpot hkept hsolvent
  refine ⟨?_, ⟨by omega, by omega⟩, ?_⟩
  · rw [h.rep.players_eq]
    intro p hp
    rcases List.mem_pair.mp hp with rfl | rfl
    · exact ⟨by omega, by omega⟩
    · exact ⟨by omega, by omega⟩
  · rw [hbets]
    intro b hb
    rcases List.mem_pair.mp hb with rfl | rfl
    · exact ⟨by omega, by omega⟩
    · exact ⟨by omega, by omega⟩

/-- Nothing the invariant reads is written. -/
theorem BetsInv.same (h : BetsInv setup s) {s' : HandState} (hrep : HandInv setup.players s')
    (hfolded : s'.hand.folded.length = s.hand.folded.length) (hheap : s'.heap = s.heap)
    (hbets : s'.hand.playerBets = s.hand.playerBets) (hpot : s'.hand.pot = s.hand.pot)
    (hmin : s'.hand.minRaise = s.hand.minRaise) : BetsInv setup s' := by
  have hown : ∀ p, ownBet s'.hand p = ownBet s.hand p := fun p => by
    rw [ownBet, ownBet, hbets, hrep.players_eq, h.rep.players_eq]
  refine ⟨hrep, hfolded.trans h.foldedLength, ?_⟩
  exact {
    pot := by rw [hpot, hbets, h.backed.pot]
    kept := fun p hp => by rw [hheap, hown, h.backed.kept p hp]
    solvent := hheap ▸ h.backed.solvent
    bets := hrep.bets
    minRaise := hmin ▸ h.backed.minRaise }

theorem BetsInv.apply (h : BetsInv setup s) (hne : setup.smallBlind ≠ setup.bigBlind)
    {op : HandOp} (hop : op.Plays setup.players) :
    BetsInv setup (HandOp.apply s op).1 ∧
      s.hand.minRaise ≤ (HandOp.apply s op).1.hand.minRaise := by
  have hnd : setup.players.Nodup := by simpa [HandSetup.players] using hne
  cases op with
  | applyAction p action amount now =>
    have hp : p ∈ setup.players := hop
    have hrep := (applyAction_inv h.rep hnd hp action amount now).1
    cases hok : (Poker.applyAction s.heap s.hand (some p) action amount now).1 with
    | false =>
      have hsame : (HandOp.apply s (.applyAction p action amount now)).1 = s := by
        simp only [HandOp.apply, h.rejects.action _ _ _ _ hok]
      rw [hsame]
      exact ⟨h, le_refl _⟩
    | true =>
      rcases Poker.applyAction_accepts hok with ⟨-, hr⟩ | ⟨-, hmin, hge, hle, hr⟩
      · rw [h.sizeVectors] at hr
        simp only [HandOp.apply, hr] at hrep ⊢
        refine ⟨h.same hrep ?_ rfl rfl rfl rfl, le_refl _⟩
        show (markFolded s.hand p).folded.length = s.hand.folded.length
        simp only [markFolded]
        split
        · exact List.length_set
        · rfl
      · rw [h.sizeVectors] at hr
        simp only [HandOp.apply, hr]
        exact h.bet hne hp hge hle hmin now
  | advanceBettingRound =>
    have hrep := (advanceBettingRound_inv h.rep).1
    obtain ⟨round, deck, cards, hr⟩ := advanceBettingRound_eq s.hand
    simp only [HandOp.apply, hr] at hrep ⊢
    exact ⟨h.same hrep rfl rfl rfl rfl rfl, le_refl _⟩
  | calculateSidePots sort => cases hop
  | distributePot winners => cases hop

end Step

/-! ### Runs -/

theorem HandSetup.run_betsInv (setup : HandSetup) (hne : setup.smallBlind ≠ setup.bigBlind)
    (hstacks : ∀ p ∈ setup.players, 0 ≤ (setup.heap p).stack) {ops : List HandOp}
    (hops : ∀ op ∈ ops, op.Plays setup.players) : BetsInv setup (setup.machine.run ops) := by
  refine setup.machine.invariant_of_ok (fun ops => ∀ op ∈ ops, op.Plays setup.players) ?_
    (fun _ s => BetsInv setup s) (setup.start_betsInv hstacks) ?_ ops hops
  · intro ops op h x hx
    exact h x (by simp [hx])
  · intro ops op h hinv
    exact (hinv.apply hne (h op (by simp))).1

/-- The minimum raise only grows along a run. -/
theorem HandSetup.run_minRaise (setup : HandSetup) (hne : setup.smallBlind ≠ setup.bigBlind)
    (hstacks : ∀ p ∈ setup.players, 0 ≤ (setup.heap p).stack) {ops : List HandOp}
    (hops : ∀ op ∈ ops, op.Plays setup.players) {pre : List HandOp} (hpre : pre <+: ops) :
    (setup.machine.run pre).hand.minRaise ≤ (setup.machine.run ops).hand.minRaise := by
  induction ops using List.reverseRecOn with
  | nil => rw [List.prefix_nil.mp hpre]
  | append_singleton ops op ih =>
    have hearlier : ∀ x ∈ ops, x.Plays setup.players := fun x hx => hops x (by simp [hx])
    rcases List.prefix_concat_iff.mp hpre with rfl | hpre
    · exact le_refl _
    · have hinv := setup.run_betsInv hne hstacks hearlier
      have hstep := (hinv.apply hne (hops op (by simp))).2
      rw [Machine.run_concat]
      exact (ih hearlier hpre).trans hstep

/-- On `int`s the run is the same. -/
theorem HandSetup.run_ints (setup : HandSetup) (hne : setup.smallBlind ≠ setup.bigBlind)
    (hstacks : ∀ p ∈ setup.players, 0 ≤ (setup.heap p).stack)
    (hsum : stackSum setup.heap setup.players < 2 ^ 31) {ops : List HandOp}
    (hops : ∀ op ∈ ops, op.Plays setup.players) :
    setup.intMachine.run ops = some (setup.machine.run ops) := by
  refine setup.machine.run_within_iff.mpr ⟨rfl, setup.machine.within_of_prefixes fun pre hpre => ?_⟩
  exact (setup.run_betsInv hne hstacks fun op hop => hops op (hpre.subset hop)).inInts hne hsum

/-- However a hand of two players is played whose stacks together are an `int`, no
sum outgrows one, the pot is the sum of the bets, nobody has gained or lost a chip,
the minimum raise never falls, and a call that returns false changes nothing. -/
theorem hand_backed (setup : HandSetup) (hne : setup.smallBlind ≠ setup.bigBlind)
    (hstacks : ∀ p ∈ setup.players, 0 ≤ (setup.heap p).stack)
    (hsum : stackSum setup.heap setup.players < 2 ^ 31) (ops : List HandOp)
    (hops : ∀ op ∈ ops, op.Plays setup.players) :
    ∃ s, setup.intMachine.run ops = some s ∧ Backed setup s ∧ RejectsUnchanged s ∧
      ∀ pre, pre <+: ops → ∃ s', setup.intMachine.run pre = some s' ∧
        s'.hand.minRaise ≤ s.hand.minRaise := by
  have hinv := setup.run_betsInv hne hstacks hops
  refine ⟨_, setup.run_ints hne hstacks hsum hops, hinv.backed, hinv.rejects, fun pre hpre => ?_⟩
  exact ⟨_, setup.run_ints hne hstacks hsum fun op hop => hops op (hpre.subset hop),
    setup.run_minRaise hne hstacks hops hpre⟩

/-- A raise, a call out of turn, an overbet, a flop and a fold. -/
def raisedFlop : List HandOp :=
  [.applyAction 0 "raise" 10 0, .applyAction 0 "call" 3 0, .applyAction 1 "call" 999 0,
    .advanceBettingRound, .applyAction 1 "fold" 0 0]

theorem hand_backed_raisedFlop :
    ∃ s, twoStacks.intMachine.run raisedFlop = some s ∧ Backed twoStacks s ∧ RejectsUnchanged s ∧
      ∀ pre, pre <+: raisedFlop → ∃ s', twoStacks.intMachine.run pre = some s' ∧
        s'.hand.minRaise ≤ s.hand.minRaise :=
  hand_backed twoStacks (by decide) (fun _ _ => (by decide : (0 : ℤ) ≤ startingStack)) (by decide)
    raisedFlop (by simp [raisedFlop, HandOp.Plays, HandSetup.players, twoStacks])

def deepStacks : HandSetup :=
  { twoStacks with heap _ := { (default : Player) with stack := 2000000000 } }

def bothAllIn : List HandOp :=
  [.applyAction 0 "call" 2000000000 0, .applyAction 1 "call" 2000000000 0]

/-- Two stacks that no `int` holds together: the second call has no pot to go to. -/
theorem pot_overflows_deepStacks :
    deepStacks.smallBlind ≠ deepStacks.bigBlind ∧
      (∀ p ∈ deepStacks.players, 0 ≤ (deepStacks.heap p).stack ∧ InInt (deepStacks.heap p).stack) ∧
      (∀ op ∈ bothAllIn, op.Plays deepStacks.players) ∧
      ¬∃ s, deepStacks.intMachine.run bothAllIn = some s ∧ Backed deepStacks s := by
  refine ⟨by decide, by decide, ?_, ?_⟩
  · simp [bothAllIn, HandOp.Plays, HandSetup.players, deepStacks, twoStacks]
  · intro hh
    obtain ⟨s, hs, -⟩ := hh
    have hnone : (deepStacks.intMachine.run bothAllIn).isSome = false := by decide
    rw [hs] at hnone
    cases hnone

end HeadsUp.Core
