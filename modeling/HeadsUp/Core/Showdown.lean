import HeadsUp.Core.Hand
import HeadsUp.Core.BestHand

/-!
# Showdown (`core/hand.cpp`)

`determineWinners` looks at the category of each hand only and stops at the
first of the highest. It finds the unbeaten players exactly when that player
beats every later one under `compare`.
-/

namespace HeadsUp.Core
open HeadsUp.Lib

def showdownCards (heap : Heap) (hand : Hand) (p : PlayerRef) : List Card :=
  (heap p).holeCards ++ hand.communityCards

namespace Poker

/-- `poker::determineWinners`; `std::max_element` finds the first of the
greatest, as `List.argmax` does. -/
def determineWinners (σ : MapOrder) (heap : Heap) (hand : Hand) :
    Except Exn (List PlayerRef) :=
  if hand.players = [] then .ok []
  else if (activePlayers hand).length = 1 then .ok ((activePlayers hand).take 1)
  else do
    let evaluations ← (activePlayers hand).mapM fun p => do
      let rank ← HandRanking.evaluate σ (showdownCards heap hand p)
      pure (p, rank)
    pure ((evaluations.argmax Prod.snd).map Prod.fst).toList

end Poker

theorem determineWinners_of_single {σ : MapOrder} {heap : Heap} {hand : Hand} {p : PlayerRef}
    (h : activePlayers hand = [p]) : Poker.determineWinners σ heap hand = .ok [p] := by
  have hne : hand.players ≠ [] := by
    intro hnil
    rw [activePlayers, hnil] at h
    simp at h
  rw [Poker.determineWinners, if_neg hne, h]
  rfl

theorem activePlayers_mem {hand : Hand} {p : PlayerRef} (h : p ∈ activePlayers hand) :
    p ∈ hand.players := by
  obtain ⟨x, hx, rfl⟩ := List.mem_map.mp h
  exact List.fst_mem_of_mem_zipIdx (List.mem_filter.mp hx).1

/-- Whoever wins plays the hand. -/
theorem determineWinners_mem {σ : MapOrder} {heap : Heap} {hand : Hand} {winners : List PlayerRef}
    (h : Poker.determineWinners σ heap hand = .ok winners) : ∀ w ∈ winners, w ∈ hand.players := by
  rw [Poker.determineWinners] at h
  split_ifs at h with hnone hone
  · obtain rfl := Except.ok.inj h
    simp
  · obtain rfl := Except.ok.inj h
    exact fun w hw => activePlayers_mem (List.mem_of_mem_take hw)
  · cases hmap : (activePlayers hand).mapM fun p => do
        let rank ← HandRanking.evaluate σ (showdownCards heap hand p)
        pure (p, rank) with
    | error e =>
      rw [hmap] at h
      cases h
    | ok evaluations =>
      rw [hmap] at h
      obtain rfl := Except.ok.inj h
      intro w hw
      obtain ⟨x, hx, rfl⟩ := Option.map_eq_some_iff.mp (Option.mem_toList.mp hw)
      obtain ⟨p, hp, heval⟩ := mapM_ok_mem hmap (List.argmax_mem hx)
      cases hrank : HandRanking.evaluate σ (showdownCards heap hand p) with
      | error e => simp [hrank, bind, Except.bind] at heval
      | ok rank =>
        obtain rfl : (p, rank) = x := by
          simpa [hrank, bind, Except.bind, pure, Except.pure] using heval
        exact activePlayers_mem hp

/-- There is one winner at most. -/
theorem determineWinners_few {σ : MapOrder} {heap : Heap} {hand : Hand} {winners : List PlayerRef}
    (h : Poker.determineWinners σ heap hand = .ok winners) :
    winners = [] ∨ ∃ p ∈ hand.players, winners = [p] := by
  have hmem := determineWinners_mem h
  have hfew : winners.length ≤ 1 := by
    rw [Poker.determineWinners] at h
    split_ifs at h with hnone hone
    · obtain rfl := Except.ok.inj h
      exact Nat.zero_le 1
    · obtain rfl := Except.ok.inj h
      exact List.length_take_le 1 _
    · simp only [bind, Except.bind] at h
      split at h
      · cases h
      · obtain rfl := Except.ok.inj h
        rw [Option.length_toList]
        split_ifs <;> decide
  cases winners with
  | nil => exact .inl rfl
  | cons p rest =>
    obtain rfl : rest = [] := List.eq_nil_of_length_eq_zero (by simpa using hfew)
    exact .inr ⟨p, hmem p (by simp), rfl⟩

/-! ### The better cards -/

section Compare
variable (σ : MapOrder) (heap : Heap) (hand : Hand)

/-- `p`'s cards are better than `q`'s under `compare`. -/
def beats (p q : PlayerRef) : Bool :=
  match HandRanking.compare σ (showdownCards heap hand p) (showdownCards heap hand q) with
  | .ok x => decide (0 < x)
  | .error _ => false

def isUnbeaten (p : PlayerRef) : Bool :=
  (activePlayers hand).all fun q => !beats σ heap hand q p

/-- The active players nobody beats, in the order of the hand. -/
def unbeaten : List PlayerRef := (activePlayers hand).filter (isUnbeaten σ heap hand)

def showdownRank (p : PlayerRef) : HandRank :=
  match HandRanking.evaluate σ (showdownCards heap hand p) with
  | .ok rank => rank
  | .error _ => .highCard

def HasCards (p : PlayerRef) : Prop :=
  5 ≤ (showdownCards heap hand p).length ∧ (showdownCards heap hand p).length ≤ 7

def ReadyForShowdown : Prop :=
  2 ≤ (activePlayers hand).length ∧ ∀ p ∈ activePlayers hand, HasCards heap hand p

variable {σ heap hand}

theorem beats_iff {p q : PlayerRef} (hp : HasCards heap hand p)
    (hq : HasCards heap hand q) :
    beats σ heap hand p q = true ↔
      bestKey σ (showdownCards heap hand q) < bestKey σ (showdownCards heap hand p) := by
  obtain ⟨x, hx, hcmp⟩ := compare_spec σ (bestKey_spec σ ⟨_, hp⟩) (bestKey_spec σ ⟨_, hq⟩)
  have hx' : HandRanking.compare σ (showdownCards heap hand p) (showdownCards heap hand q) = .ok x :=
    hx
  rw [beats, hx']
  simp only [decide_eq_true_eq]
  exact pos_iff_of_cmp hcmp

theorem bestKey_lt_of_showdownRank_lt {p q : PlayerRef} (hp : HasCards heap hand p)
    (hq : HasCards heap hand q)
    (h : showdownRank σ heap hand q < showdownRank σ heap hand p) :
    bestKey σ (showdownCards heap hand q) < bestKey σ (showdownCards heap hand p) := by
  obtain ⟨rp, hrp, hrp', -⟩ := evaluate_spec σ ⟨_, hp⟩
  obtain ⟨rq, hrq, -, hrq'⟩ := evaluate_spec σ ⟨_, hq⟩
  have hp' : HandRanking.evaluate σ (showdownCards heap hand p) = .ok rp := hrp
  have hq' : HandRanking.evaluate σ (showdownCards heap hand q) = .ok rq := hrq
  rw [showdownRank, showdownRank, hp', hq'] at h
  exact bestKey_lt_of_rank_lt σ (bestKey_spec σ ⟨_, hp⟩) (bestKey_spec σ ⟨_, hq⟩) hrp' hrq' h

theorem showdownRank_le_of_beats {p q : PlayerRef} (hp : HasCards heap hand p)
    (hq : HasCards heap hand q)
    (h : beats σ heap hand p q = true) :
    showdownRank σ heap hand q ≤ showdownRank σ heap hand p := by
  refine not_lt.mp fun hlt => ?_
  exact lt_asymm ((beats_iff hp hq).mp h) (bestKey_lt_of_showdownRank_lt hq hp hlt)

/-! ### The winner the code picks -/

/-- The first player of the highest category. -/
theorem determineWinners_eq (h : ReadyForShowdown heap hand) {l₁ l₂ : List PlayerRef}
    {p : PlayerRef} (hsplit : activePlayers hand = l₁ ++ p :: l₂)
    (hlt : ∀ q ∈ l₁, showdownRank σ heap hand q < showdownRank σ heap hand p)
    (hle : ∀ q ∈ l₂, showdownRank σ heap hand q ≤ showdownRank σ heap hand p) :
    Poker.determineWinners σ heap hand = .ok [p] := by
  obtain ⟨htwo, hcards⟩ := h
  have hne : hand.players ≠ [] := by
    intro hnil
    rw [activePlayers, hnil] at htwo
    simp at htwo
  have hmap : ∀ q ∈ activePlayers hand, (do
      let rank ← HandRanking.evaluate σ (showdownCards heap hand q)
      pure (q, rank) : Except Exn (PlayerRef × HandRank)) = .ok (q, showdownRank σ heap hand q) := by
    intro q hq
    obtain ⟨r, hr, -, -⟩ := evaluate_spec σ ⟨_, hcards q hq⟩
    have hr' : HandRanking.evaluate σ (showdownCards heap hand q) = .ok r := hr
    rw [showdownRank, hr']
    rfl
  have harg : (l₁.map (fun q => (q, showdownRank σ heap hand q)) ++ (p, showdownRank σ heap hand p) ::
      l₂.map fun q => (q, showdownRank σ heap hand q)).argmax Prod.snd
        = some (p, showdownRank σ heap hand p) := by
    refine argmax_of_split ?_ ?_
    · intro x hx
      obtain ⟨q, hq, rfl⟩ := List.mem_map.mp hx
      exact hlt q hq
    · intro x hx
      obtain ⟨q, hq, rfl⟩ := List.mem_map.mp hx
      exact hle q hq
  rw [Poker.determineWinners, if_neg hne, if_neg (by omega), mapM_ok _ hmap, hsplit]
  simp only [bind, Except.bind, List.map_append, List.map_cons, harg]
  rfl

theorem isUnbeaten_iff {p : PlayerRef} :
    isUnbeaten σ heap hand p = true ↔
      ∀ q ∈ activePlayers hand, ¬beats σ heap hand q p = true := by
  simp [isUnbeaten]

theorem beats_of_unbeaten_eq (hcards : ∀ q ∈ activePlayers hand, HasCards heap hand q)
    {l₁ l₂ : List PlayerRef} {p : PlayerRef} (hsplit : activePlayers hand = l₁ ++ p :: l₂)
    (hone : unbeaten σ heap hand = [p]) : ∀ q ∈ l₂, beats σ heap hand p q = true := by
  intro q hq
  have hqact : q ∈ activePlayers hand := by rw [hsplit]; simp [hq]
  have hmem : p ∈ unbeaten σ heap hand := hone ▸ List.mem_singleton_self p
  obtain ⟨hpact, hp⟩ := List.mem_filter.mp hmem
  have hrest : l₂.filter (isUnbeaten σ heap hand) = [] := by
    rw [unbeaten, hsplit, List.filter_append, List.filter_cons_of_pos hp] at hone
    have hlen := congrArg List.length hone
    simp only [List.length_append, List.length_cons, List.length_nil] at hlen
    exact List.eq_nil_of_length_eq_zero (by omega)
  obtain ⟨r, hr, hrq⟩ : ∃ r ∈ activePlayers hand, beats σ heap hand r q = true := by
    have hq' := mt isUnbeaten_iff.mpr (List.filter_eq_nil_iff.mp hrest q hq)
    push Not at hq'
    exact hq'
  have hrp := mt (beats_iff (hcards r hr) (hcards p hpact)).mpr (isUnbeaten_iff.mp hp r hr)
  refine (beats_iff (hcards p hpact) (hcards q hqact)).mpr ?_
  exact ((beats_iff (hcards r hr) (hcards q hqact)).mp hrq).trans_le (not_lt.mp hrp)

theorem unbeaten_eq_single (hcards : ∀ q ∈ activePlayers hand, HasCards heap hand q)
    {l₁ l₂ : List PlayerRef} {p : PlayerRef} (hsplit : activePlayers hand = l₁ ++ p :: l₂)
    (hbeats : ∀ q, q ∈ l₁ ∨ q ∈ l₂ → beats σ heap hand p q = true) :
    unbeaten σ heap hand = [p] := by
  have hpact : p ∈ activePlayers hand := by rw [hsplit]; simp
  have hp := hcards p hpact
  have hout : ∀ q, q ∈ l₁ ∨ q ∈ l₂ → ¬isUnbeaten σ heap hand q = true :=
    fun q hq hall => isUnbeaten_iff.mp hall p hpact (hbeats q hq)
  have hin : isUnbeaten σ heap hand p = true := by
    refine isUnbeaten_iff.mpr fun r hr => ?_
    rw [beats_iff (hcards r hr) hp, not_lt]
    have hcases : r = p ∨ (r ∈ l₁ ∨ r ∈ l₂) := by
      rw [hsplit] at hr
      simp only [List.mem_append, List.mem_cons] at hr
      tauto
    rcases hcases with rfl | hr'
    · exact le_refl _
    · exact ((beats_iff hp (hcards r hr)).mp (hbeats r hr')).le
  rw [unbeaten, hsplit, List.filter_append, List.filter_cons_of_pos hin,
    List.filter_eq_nil_iff.mpr fun q hq => hout q (.inl hq),
    List.filter_eq_nil_iff.mpr fun q hq => hout q (.inr hq)]
  rfl

/-- The winners are the unbeaten players exactly when the first player of the
highest category beats all the players after him. -/
theorem determineWinners_iff (h : ReadyForShowdown heap hand) :
    Poker.determineWinners σ heap hand = .ok (unbeaten σ heap hand) ↔
      ∃ l₁ p l₂, activePlayers hand = l₁ ++ p :: l₂ ∧
        (∀ q ∈ l₁, showdownRank σ heap hand q < showdownRank σ heap hand p) ∧
        ∀ q ∈ l₂, beats σ heap hand p q = true := by
  have hcards := h.2
  constructor
  · intro hwin
    have hne : activePlayers hand ≠ [] := by
      intro hnil
      have htwo := h.1
      rw [hnil] at htwo
      simp at htwo
    -- the code returns one player, so the unbeaten ones are he alone
    obtain ⟨l₁, p, l₂, hsplit, hlt, hle⟩ := exists_split (showdownRank σ heap hand) hne
    rw [determineWinners_eq h hsplit hlt hle] at hwin
    have hone : unbeaten σ heap hand = [p] := (Except.ok.inj hwin).symm
    exact ⟨l₁, p, l₂, hsplit, hlt, beats_of_unbeaten_eq hcards hsplit hone⟩
  · intro hh
    obtain ⟨l₁, p, l₂, hsplit, hlt, hbeats⟩ := hh
    have hcard : ∀ q, q ∈ l₁ ∨ q = p ∨ q ∈ l₂ → HasCards heap hand q := fun q hq =>
      hcards q (by rw [hsplit]; simpa using hq)
    have hp := hcard p (by simp)
    have hall : ∀ q, q ∈ l₁ ∨ q ∈ l₂ → beats σ heap hand p q = true := by
      intro q hh
      rcases hh with hq | hq
      · have hq' := hcard q (.inl hq)
        exact (beats_iff hp hq').mpr (bestKey_lt_of_showdownRank_lt hp hq' (hlt q hq))
      · exact hbeats q hq
    rw [unbeaten_eq_single hcards hsplit hall]
    exact determineWinners_eq h hsplit hlt fun q hq =>
      showdownRank_le_of_beats hp (hcard q (.inr (.inr hq))) (hbeats q hq)

end Compare

/-! ### Two players at the river -/

def riverHand (board : List Card) : Hand where
  id := "hand"
  table := none
  players := [0, 1]
  deck := Deck.new (Shuffle.refl Card)
  communityCards := board
  pot := 40
  sidePots := []
  playerBets := [20, 20]
  folded := [false, false]
  currentBettingRound := .river
  currentPlayerToAct := some 0
  minRaise := bigBlind
  history := []
  winners := []
  completedAt := 0

def holding (first second : List Card) : Heap := fun p =>
  { (default : Player) with holeCards := if p = 0 then first else second }

def lowBoard : List Card :=
  [.ofRankSuit .two .clubs, .ofRankSuit .four .diamonds, .ofRankSuit .seven .hearts,
    .ofRankSuit .nine .spades, .ofRankSuit .jack .clubs]

theorem determineWinners_aces :
    Poker.determineWinners (Shuffle.refl _)
        (holding [.ofRankSuit .ace .clubs, .ofRankSuit .ace .diamonds]
          [.ofRankSuit .king .clubs, .ofRankSuit .king .diamonds]) (riverHand lowBoard)
      = .ok (unbeaten (Shuffle.refl _)
        (holding [.ofRankSuit .ace .clubs, .ofRankSuit .ace .diamonds]
          [.ofRankSuit .king .clubs, .ofRankSuit .king .diamonds]) (riverHand lowBoard)) :=
  (determineWinners_iff ⟨by decide, by unfold HasCards; decide⟩).mpr
    ⟨[], 0, [1], by decide, by decide, by decide⟩

/-- Kings before aces: the code names the kings, a pair like the aces. -/
theorem determineWinners_kings :
    ∃ heap, heap = holding [.ofRankSuit .king .clubs, .ofRankSuit .king .diamonds]
        [.ofRankSuit .ace .clubs, .ofRankSuit .ace .diamonds] ∧
      ReadyForShowdown heap (riverHand lowBoard) ∧
      Poker.determineWinners (Shuffle.refl _) heap (riverHand lowBoard) = .ok [0] ∧
      unbeaten (Shuffle.refl _) heap (riverHand lowBoard) = [1] :=
  ⟨_, rfl, ⟨by decide, by unfold HasCards; decide⟩, by decide +kernel, by decide +kernel⟩

end HeadsUp.Core
