import HeadsUp.Core.HandRuns

/-!
# Starting a hand over an old one (`core/hand.cpp`)

`startHand` resets a hand it is given. It assigns or clears every field but two:
`player_bets` and `folded` are resized, and a hand that has been played keeps
its first two bets and flags. `resetHand` clears them.
-/

namespace HeadsUp.Core
open HeadsUp.Lib

def HandSetup.startOver (setup : HandSetup) (hand : Hand) : Heap × Hand × Option Exn :=
  Poker.startHand setup.heap hand setup.deck setup.smallBlind setup.bigBlind setup.shuffle
    setup.uuid

structure StartsClean (hand : Hand) : Prop where
  bets : ∀ b ∈ hand.playerBets, b = 0
  folded : ∀ f ∈ hand.folded, f = false
  incomplete : ∀ memory, Poker.isHandComplete memory hand = false
  pot : hand.pot = hand.playerBets.sum

/-- Started over either hand it is the same hand, and a clean one. -/
def HandSetup.ForgetsPrevious (setup : HandSetup) (hand₁ hand₂ : Hand) : Prop :=
  setup.startOver hand₁ = setup.startOver hand₂ ∧
    StartsClean (setup.startOver hand₁).2.1 ∧ StartsClean (setup.startOver hand₂).2.1

/-- The bets and flags that `resize` keeps are those of a new hand. -/
def NothingLeft (hand : Hand) : Prop :=
  (∀ b ∈ hand.playerBets.take 2, b = 0) ∧ ∀ f ∈ hand.folded.take 2, f = false

instance (hand : Hand) : Decidable (NothingLeft hand) := inferInstanceAs (Decidable (_ ∧ _))

/-! ### What `startHand` keeps -/

theorem startOver_congr (setup : HandSetup) {hand₁ hand₂ : Hand}
    (hbets : resize hand₁.playerBets 2 0 = resize hand₂.playerBets 2 0)
    (hfolded : resize hand₁.folded 2 false = resize hand₂.folded 2 false) :
    setup.startOver hand₁ = setup.startOver hand₂ := by
  rw [HandSetup.startOver, HandSetup.startOver, Poker.startHand, Poker.startHand, hbets, hfolded]

theorem startOver_round (setup : HandSetup) (hand : Hand) :
    (setup.startOver hand).2.1.currentBettingRound = .preflop := rfl

theorem startOver_playerBets (setup : HandSetup) (hand : Hand) :
    (setup.startOver hand).2.1.playerBets = resize hand.playerBets 2 0 := rfl

theorem startOver_folded (setup : HandSetup) (hand : Hand) :
    (setup.startOver hand).2.1.folded = resize hand.folded 2 false := rfl

theorem nothingLeft_iff {hand : Hand} :
    NothingLeft hand ↔
      resize hand.playerBets 2 0 = [0, 0] ∧ resize hand.folded 2 false = [false, false] :=
  and_congr resize_eq_replicate_iff.symm resize_eq_replicate_iff.symm

theorem startsClean_iff (setup : HandSetup) (hand : Hand) :
    StartsClean (setup.startOver hand).2.1 ↔ NothingLeft hand := by
  constructor
  · intro h
    have hbets := h.bets
    have hfolded := h.folded
    rw [startOver_playerBets] at hbets
    rw [startOver_folded] at hfolded
    exact ⟨fun b hb => hbets b (List.mem_append_left _ hb),
      fun f hf => hfolded f (List.mem_append_left _ hf)⟩
  · intro h
    obtain ⟨hbets, hfolded⟩ := nothingLeft_iff.mp h
    have hflags : (setup.startOver hand).2.1.folded = [false, false] := hfolded
    refine ⟨?_, ?_, ?_, ?_⟩
    · rw [startOver_playerBets, hbets]
      simp
    · rw [hflags]
      simp
    · intro memory
      have hround : (setup.startOver hand).2.1.currentBettingRound ≠ .showdown := by
        rw [startOver_round]
        decide
      rw [isHandComplete_eq (fun i hi => readFolded_of_lt (hflags ▸ hi)) hround, activePlayers,
        hflags]
      rfl
    · rw [startOver_playerBets, hbets]
      rfl

/-- Two hands are forgotten exactly when neither has a bet or a fold at the
places that `resize` keeps. -/
theorem forgetsPrevious_iff (setup : HandSetup) (hand₁ hand₂ : Hand) :
    setup.ForgetsPrevious hand₁ hand₂ ↔ NothingLeft hand₁ ∧ NothingLeft hand₂ := by
  rw [HandSetup.ForgetsPrevious, startsClean_iff, startsClean_iff]
  refine and_iff_right_of_imp fun h => ?_
  obtain ⟨h₁, h₂⟩ := h
  obtain ⟨hbets₁, hfolded₁⟩ := nothingLeft_iff.mp h₁
  obtain ⟨hbets₂, hfolded₂⟩ := nothingLeft_iff.mp h₂
  exact startOver_congr setup (hbets₁.trans hbets₂.symm) (hfolded₁.trans hfolded₂.symm)

theorem resetHand_nothingLeft (hand : Hand) (constructed shuffled : Shuffle Card) :
    NothingLeft (Poker.resetHand hand constructed shuffled) := by
  simp [NothingLeft, Poker.resetHand]

/-! ### A hand raised and folded -/

def raisedAndFolded : List HandOp :=
  [.applyAction 0 "raise" 8 0, .applyAction 1 "fold" 0 0]

/-- Started over, the second player has folded before he has a card and the
eight chips of the first are bet with no pot. -/
theorem startOver_raisedAndFolded :
    let played := (twoStacks.machine.run raisedAndFolded).hand
    let again := (twoStacks.startOver played).2.1
    ¬ twoStacks.ForgetsPrevious (freshHand twoStacks.deck) played ∧
      again.playerBets = [8, 0] ∧ again.pot = 0 ∧ again.folded = [false, true] ∧
      Poker.isHandComplete (fun _ => false) again = true := by
  refine ⟨fun h => ?_, by decide, by decide, by decide, by decide⟩
  have hleft := (startsClean_iff twoStacks _).mp h.2.2
  exact absurd hleft (by decide)

end HeadsUp.Core
