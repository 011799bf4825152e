import HeadsUp.Lib.Partial
import HeadsUp.Core.BettingRules
import Mathlib.Algebra.BigOperators.Fin
import Mathlib.Algebra.Order.BigOperators.Group.Finset

/-!
# Betting rounds (`core/betting_rules.cpp`)

A round from no bets on, with what each player last raised to or called. The
amount of a call or a raise is what the player's bet becomes, and all of it goes
into the pot, also what he had put in before. A round whose pot or minimum raise
outgrows an `int` is undefined from there on.
-/

namespace HeadsUp.Core
open HeadsUp.Lib

/-- An action and whatever its player is said to have left. -/
structure RoundAction (n : ℕ) where
  player : Fin n
  action : Action
  amount : ℤ
  stack : ℤ

structure TrackedRound (n : ℕ) where
  round : BettingState
  contributed : Fin n → ℤ
  folded : Fin n → Bool

namespace TrackedRound
variable {n : ℕ}

def new (n : ℕ) : TrackedRound n := ⟨⟨0, bigBlind, 0⟩, fun _ => 0, fun _ => false⟩

def apply (t : TrackedRound n) (a : RoundAction n) : Option (TrackedRound n) := do
  let round ← BettingRules.applyAction a.action a.amount t.round
  match a.action with
  | .fold => some { t with round, folded := Function.update t.folded a.player true }
  | .call | .raise =>
    some { t with
      round, contributed := Function.update t.contributed a.player round.currentBet }

def machine (n : ℕ) : Machine (Option (TrackedRound n)) (RoundAction n) Empty :=
  .ofPartial (new n) apply

def Valid (t : TrackedRound n) (a : RoundAction n) : Prop :=
  BettingRules.isValidAction a.action a.amount t.round a.stack = true

instance (t : TrackedRound n) (a : RoundAction n) : Decidable (t.Valid a) :=
  inferInstanceAs (Decidable (_ = true))

def bets (t : TrackedRound n) : List ℤ :=
  List.ofFn fun i => if t.folded i then BettingRules.foldedBet else t.contributed i

def Complete (t : TrackedRound n) : Prop :=
  ∃ hasActed, BettingRules.isRoundComplete hasActed t.bets t.round.currentBet = true

/-- At the end of a round the pot holds what the players have put in, the same
from each who has not folded. -/
structure Consistent (t : TrackedRound n) : Prop where
  pot : t.Complete → t.round.pot = ∑ i, t.contributed i
  equal : t.Complete → ∀ i, t.folded i = false → t.contributed i = t.round.currentBet
  minRaise : BettingRules.calculateMinRaise t.round.currentBet bigBlind = some t.round.minRaise

/-- The pot and the minimum raise that a call or a raise makes are `int`s. -/
def Fits (t : TrackedRound n) (a : RoundAction n) : Prop :=
  a.action ≠ .fold → t.round.pot + a.amount < 2 ^ 31 ∧
    (a.action = .raise → a.amount + bigBlind < 2 ^ 31)

/-- A fold, or chips of a player who has none in. -/
def FirstChips (t : TrackedRound n) (a : RoundAction n) : Prop :=
  a.action = .fold ∨ t.contributed a.player = 0

/-! ### One action -/

section Step
variable {t t' : TrackedRound n} {a : RoundAction n}

/-- Nobody has put in less than nothing, and what they have put in is in the pot. -/
structure RoundInv (t : TrackedRound n) : Prop where
  nonneg : ∀ i, 0 ≤ t.contributed i
  currentBet : 0 ≤ t.round.currentBet
  pot : ∑ i, t.contributed i ≤ t.round.pot
  minRaise : BettingRules.calculateMinRaise t.round.currentBet bigBlind = some t.round.minRaise

theorem RoundInv.new (n : ℕ) : RoundInv (new n) where
  nonneg := fun _ => le_refl 0
  currentBet := le_refl 0
  pot := by simp [TrackedRound.new]
  minRaise := rfl

theorem RoundInv.pot_nonneg (h : RoundInv t) : 0 ≤ t.round.pot :=
  (Finset.sum_nonneg fun i _ => h.nonneg i).trans h.pot

/-- A valid action whose sums fit folds, or makes the player's bet and the bet to
call the amount and puts all of it into the pot. -/
theorem apply_of_fits (hinv : RoundInv t) (h : t.Valid a) (hfits : t.Fits a) :
    (a.action = .fold ∧
      t.apply a = some { t with folded := Function.update t.folded a.player true }) ∨
    a.action ≠ .fold ∧ t.round.currentBet ≤ a.amount ∧ ∃ minRaise,
      BettingRules.calculateMinRaise a.amount bigBlind = some minRaise ∧
      t.apply a = some { t with
        round := ⟨a.amount, minRaise, t.round.pot + a.amount⟩
        contributed := Function.update t.contributed a.player a.amount } := by
  obtain ⟨player, action, amount, stack⟩ := a
  have hpot := hinv.pot_nonneg
  have hbet := hinv.currentBet
  cases action with
  | fold => exact .inl ⟨rfl, rfl⟩
  | call =>
    obtain ⟨rfl, -⟩ := BettingRules.isValidAction_call.mp h
    have hin : InInt (t.round.pot + t.round.currentBet) := ⟨by omega, (hfits nofun).1⟩
    refine .inr ⟨nofun, le_refl _, _, hinv.minRaise, ?_⟩
    simp [apply, BettingRules.applyAction, intSum_of_inInt hin]
  | raise =>
    obtain ⟨-, -, hlt⟩ := BettingRules.isValidAction_raise.mp h
    obtain ⟨hsum, hraise⟩ := hfits nofun
    simp only at hlt
    have hin : InInt (t.round.pot + amount) := ⟨by omega, hsum⟩
    have hin' : InInt (amount + bigBlind) := ⟨by simp only [bigBlind]; omega, hraise rfl⟩
    have hmin : BettingRules.calculateMinRaise amount bigBlind = some (amount + bigBlind) := by
      rw [BettingRules.calculateMinRaise, if_neg (by omega), intSum_of_inInt hin']
    refine .inr ⟨nofun, hlt.le, _, hmin, ?_⟩
    simp [apply, BettingRules.applyAction, intSum_of_inInt hin, hmin]

theorem apply_of_not_fits (hinv : RoundInv t) (h : t.Valid a) (hfits : ¬t.Fits a) :
    t.apply a = none := by
  obtain ⟨player, action, amount, stack⟩ := a
  simp only [Fits, not_forall, not_and_or, not_lt, exists_prop] at hfits
  obtain ⟨hbet, hfits⟩ := hfits
  by_cases hpot : InInt (t.round.pot + amount)
  · -- only a raise has a second sum
    obtain ⟨rfl, hraise⟩ := hfits.resolve_left fun hle => absurd hpot.2 (not_lt.mpr hle)
    obtain ⟨-, -, hlt⟩ := BettingRules.isValidAction_raise.mp h
    have hbet := hinv.currentBet
    simp only at hlt
    have hnot : ¬InInt (amount + bigBlind) := fun hin => absurd hin.2 (not_lt.mpr hraise)
    have hmin : BettingRules.calculateMinRaise amount bigBlind = none := by
      rw [BettingRules.calculateMinRaise, if_neg (by omega), intSum_of_not hnot]
    simp [apply, BettingRules.applyAction, intSum_of_inInt hpot, hmin]
  · cases action with
    | fold => exact absurd rfl hbet
    | call => simp [apply, BettingRules.applyAction, intSum_of_not hpot]
    | raise => simp [apply, BettingRules.applyAction, intSum_of_not hpot]

theorem apply_isSome_iff (hinv : RoundInv t) (h : t.Valid a) :
    (t.apply a).isSome = true ↔ t.Fits a := by
  by_cases hfits : t.Fits a
  · refine iff_of_true ?_ hfits
    rcases apply_of_fits hinv h hfits with ⟨-, heq⟩ | ⟨-, -, _, -, heq⟩ <;> rw [heq] <;> rfl
  · rw [apply_of_not_fits hinv h hfits]
    exact iff_of_false (by simp) hfits

theorem sum_update (f : Fin n → ℤ) (i : Fin n) (x : ℤ) :
    ∑ j, Function.update f i x j = ∑ j, f j + x - f i := by
  have hmem := Finset.mem_univ i
  rw [Finset.sum_update_of_mem hmem, ← Finset.add_sum_erase Finset.univ f hmem,
    Finset.sdiff_singleton_eq_erase]
  omega

section Applied
variable (hinv : RoundInv t) (h : t.Valid a) (happly : t.apply a = some t')
include hinv h happly

theorem apply_cases :
    (a.action = .fold ∧ t' = { t with folded := Function.update t.folded a.player true }) ∨
    a.action ≠ .fold ∧ t.round.currentBet ≤ a.amount ∧ ∃ minRaise,
      BettingRules.calculateMinRaise a.amount bigBlind = some minRaise ∧
      t' = { t with
        round := ⟨a.amount, minRaise, t.round.pot + a.amount⟩
        contributed := Function.update t.contributed a.player a.amount } := by
  have hfits := (apply_isSome_iff hinv h).mp (by rw [happly]; rfl)
  rcases apply_of_fits hinv h hfits with ⟨hfold, heq⟩ | ⟨hbet, hle, minRaise, hmin, heq⟩
  · exact .inl ⟨hfold, Option.some.inj (happly.symm.trans heq)⟩
  · exact .inr ⟨hbet, hle, minRaise, hmin, Option.some.inj (happly.symm.trans heq)⟩

theorem apply_pot : t'.round.pot - ∑ i, t'.contributed i
    = t.round.pot - ∑ i, t.contributed i
      + if a.action = .fold then 0 else t.contributed a.player := by
  rcases apply_cases hinv h happly with ⟨hfold, rfl⟩ | ⟨hbet, -, minRaise, -, rfl⟩
  · rw [if_pos hfold, add_zero]
  · rw [if_neg hbet, sum_update]
    simp only
    omega

theorem RoundInv.apply : RoundInv t' := by
  have hpot := apply_pot hinv h happly
  have hagain : 0 ≤ if a.action = .fold then 0 else t.contributed a.player := by
    split_ifs
    · exact le_refl 0
    · exact hinv.nonneg a.player
  have hsum : ∑ i, t'.contributed i ≤ t'.round.pot := by
    have := hinv.pot
    omega
  rcases apply_cases hinv h happly with ⟨-, rfl⟩ | ⟨-, hle, minRaise, hmin, rfl⟩
  · exact ⟨hinv.nonneg, hinv.currentBet, hsum, hinv.minRaise⟩
  · have hamount : 0 ≤ a.amount := hinv.currentBet.trans hle
    refine ⟨fun i => ?_, hamount, hsum, hmin⟩
    by_cases hi : i = a.player
    · simp only [hi, Function.update_self]
      exact hamount
    · simp only [Function.update_of_ne hi]
      exact hinv.nonneg i

end Applied
end Step

/-! ### Runs -/

/-- Every action is valid as long as the round is defined. -/
def AllValid (as : List (RoundAction n)) : Prop :=
  (machine n).EveryStep (Machine.WhenDefined Valid) as

theorem run_concat_eq_some_iff {as : List (RoundAction n)} {a : RoundAction n}
    {t' : TrackedRound n} : (machine n).run (as ++ [a]) = some t' ↔
      ∃ t, (machine n).run as = some t ∧ t.apply a = some t' :=
  Machine.run_ofPartial_eq_some_iff

theorem allValid_concat {as : List (RoundAction n)} {a : RoundAction n} :
    AllValid (as ++ [a]) ↔ AllValid as ∧ ∀ t, (machine n).run as = some t → t.Valid a :=
  (machine n).everyStep_concat _ as a

theorem run_inv {as : List (RoundAction n)} (h : AllValid as) {t : TrackedRound n}
    (hrun : (machine n).run as = some t) : RoundInv t := by
  induction as using List.reverseRecOn generalizing t with
  | nil =>
    obtain rfl := Option.some.inj hrun
    exact RoundInv.new n
  | append_singleton as a ih =>
    obtain ⟨has, ha⟩ := allValid_concat.mp h
    obtain ⟨before, hbefore, happly⟩ := run_concat_eq_some_iff.mp hrun
    exact (ih has hbefore).apply (ha before hbefore) happly

/-- The run is defined exactly as long as its sums fit. -/
theorem run_isSome_iff {as : List (RoundAction n)} (h : AllValid as) :
    ((machine n).run as).isSome = true ↔
      (machine n).EveryStep (Machine.WhenDefined Fits) as := by
  induction as using List.reverseRecOn with
  | nil => exact iff_of_true rfl ((machine n).everyStep_nil _)
  | append_singleton as a ih =>
    obtain ⟨has, ha⟩ := allValid_concat.mp h
    rw [Machine.everyStep_concat, ← ih has, machine, Machine.run_ofPartial_concat]
    cases hrun : (Machine.ofPartial (new n) apply).run as with
    | none => simp
    | some t =>
      rw [Option.bind_some, apply_isSome_iff (run_inv has hrun) (ha t hrun)]
      simp [Machine.WhenDefined]

/-- The pot is what the players have put in exactly as long as nobody has put
chips in a second time. -/
theorem run_pot_iff {as : List (RoundAction n)} (h : AllValid as) {t : TrackedRound n}
    (hrun : (machine n).run as = some t) : t.round.pot = ∑ i, t.contributed i ↔
      (machine n).EveryStep (Machine.WhenDefined FirstChips) as := by
  induction as using List.reverseRecOn generalizing t with
  | nil =>
    obtain rfl := Option.some.inj hrun
    simp [Machine.everyStep_nil, new]
  | append_singleton as a ih =>
    obtain ⟨has, ha⟩ := allValid_concat.mp h
    obtain ⟨before, hbefore, happly⟩ := run_concat_eq_some_iff.mp hrun
    have hinv := run_inv has hbefore
    have hpot := apply_pot hinv (ha before hbefore) happly
    have hle := hinv.pot
    have hnonneg := hinv.nonneg a.player
    have hlast : Machine.WhenDefined FirstChips ((machine n).run as) a ↔ before.FirstChips a := by
      rw [hbefore]
      simp [Machine.WhenDefined]
    rw [Machine.everyStep_concat, ← ih has hbefore, hlast, FirstChips]
    by_cases hfold : a.action = .fold
    · rw [if_pos hfold] at hpot
      simp only [hfold, true_or, and_true]
      omega
    · rw [if_neg hfold] at hpot
      simp only [hfold, false_or]
      omega

/-- Unmarked bets are never `FOLDED_BET`, so a complete round has them all equal. -/
theorem RoundInv.equal {t : TrackedRound n} (hinv : RoundInv t) (h : t.Complete) {i : Fin n}
    (hi : t.folded i = false) : t.contributed i = t.round.currentBet := by
  obtain ⟨hasActed, hcomplete⟩ := h
  rw [BettingRules.isRoundComplete] at hcomplete
  split_ifs at hcomplete
  have hbet := List.all_eq_true.mp hcomplete (t.contributed i)
    (List.mem_ofFn.mpr ⟨i, by simp [hi]⟩)
  have hnonneg := hinv.nonneg i
  simp only [BettingRules.foldedBet, Bool.or_eq_true, beq_iff_eq] at hbet
  omega

/-- A round of valid actions is defined throughout and its pot right in every state
exactly when its sums fit and, whenever the round is complete, nobody has put chips
in a second time. -/
theorem consistent_iff {as : List (RoundAction n)} (h : AllValid as) :
    (∀ pre, pre <+: as → ∃ t, (machine n).run pre = some t ∧ Consistent t) ↔
      (machine n).EveryStep (Machine.WhenDefined Fits) as ∧
        ∀ pre, pre <+: as → ∀ t, (machine n).run pre = some t → t.Complete →
          (machine n).EveryStep (Machine.WhenDefined FirstChips) pre := by
  rw [← run_isSome_iff h]
  constructor
  · intro hall
    obtain ⟨last, hlast, -⟩ := hall as (List.prefix_refl _)
    refine ⟨by rw [hlast]; rfl, fun pre hpre t hrun hcomplete => ?_⟩
    obtain ⟨t', hrun', hconsistent⟩ := hall pre hpre
    obtain rfl := Option.some.inj (hrun.symm.trans hrun')
    exact (run_pot_iff ((machine n).everyStep_upTo h hpre) hrun).mp (hconsistent.pot hcomplete)
  · intro hh pre hpre
    obtain ⟨hdefined, hfirst⟩ := hh
    have hvalid := (machine n).everyStep_upTo h hpre
    obtain ⟨t, hrun⟩ := Option.isSome_iff_exists.mp (Machine.run_ofPartial_isSome hpre hdefined)
    have hinv := run_inv hvalid hrun
    refine ⟨t, hrun, fun hcomplete => ?_, fun hcomplete i hi => hinv.equal hcomplete hi,
      hinv.minRaise⟩
    exact (run_pot_iff hvalid hrun).mpr (hfirst pre hpre t hrun hcomplete)

/-! ### A raise, a re-raise and a call -/

def opens : RoundAction 2 := ⟨⟨0, Nat.zero_lt_two⟩, .raise, 8, 400⟩
def raisesAgain : RoundAction 2 := ⟨⟨1, Nat.one_lt_two⟩, .raise, 16, 400⟩
def calls : RoundAction 2 := ⟨⟨0, Nat.zero_lt_two⟩, .call, 16, 392⟩

def reRaise : List (RoundAction 2) := [opens, raisesAgain, calls]

theorem reRaise_valid : AllValid reRaise := by
  have hlist : reRaise = ([] ++ [opens] ++ [raisesAgain]) ++ [calls] := rfl
  rw [hlist]
  simp only [AllValid, Machine.everyStep_concat]
  exact ⟨⟨⟨(machine 2).everyStep_nil _, by decide⟩, by decide⟩, by decide⟩

theorem consistent_iff_reRaise :
    (∀ pre, pre <+: reRaise → ∃ t, (machine 2).run pre = some t ∧ Consistent t) ↔
      (machine 2).EveryStep (Machine.WhenDefined Fits) reRaise ∧
        ∀ pre, pre <+: reRaise → ∀ t, (machine 2).run pre = some t → t.Complete →
          (machine 2).EveryStep (Machine.WhenDefined FirstChips) pre :=
  consistent_iff reRaise_valid

/-- Both have bet 16 and the pot is 40: the first eight chips are in it twice. -/
theorem reRaise_pot :
    AllValid reRaise ∧ ∃ t, (machine 2).run reRaise = some t ∧
      BettingRules.isRoundComplete [true, true] t.bets t.round.currentBet = true ∧
      t.round.pot = 40 ∧ ∑ i, t.contributed i = 32 ∧ ¬Consistent t := by
  have hcomplete : BettingRules.isRoundComplete [true, true]
      (((machine 2).run reRaise).get (by decide)).bets
      (((machine 2).run reRaise).get (by decide)).round.currentBet = true := by decide
  refine ⟨reRaise_valid, _, (Option.some_get (by decide)).symm, hcomplete, by decide, by decide,
    fun h => ?_⟩
  exact absurd (h.pot ⟨_, hcomplete⟩) (by decide)

end TrackedRound
end HeadsUp.Core
