import HeadsUp.Core.Card
import Mathlib.Algebra.Group.Pi.Basic
import Mathlib.Algebra.BigOperators.Group.List.Basic
import Mathlib.Data.List.GetD

/-!
# Players, hands and tables (`core/models`, `common/constants.hpp`)

A `Player*` is the identity of a player object and the objects live in a heap,
so that two references to one player see the same stack. `int` amounts are
integers. A bet never exceeds the stack it is taken from, so that what can leave
the range of an `int` is a sum of several players' chips: a pot, or a stack that
wins one. The runs in which such sums are read are those of `Machine.within`,
undefined from the first state with an amount that is not `InInt`.
-/

namespace HeadsUp.Core

/-! ### `int` -/

def InInt (n : ℤ) : Prop := -2 ^ 31 ≤ n ∧ n < 2 ^ 31

instance (n : ℤ) : Decidable (InInt n) := inferInstanceAs (Decidable (_ ∧ _))

/-- A sum of `int`s, undefined when it is none. -/
def intSum (m n : ℤ) : Option ℤ := if InInt (m + n) then some (m + n) else none

theorem intSum_of_inInt {m n : ℤ} (h : InInt (m + n)) : intSum m n = some (m + n) := if_pos h
theorem intSum_of_not {m n : ℤ} (h : ¬InInt (m + n)) : intSum m n = none := if_neg h

/-- A `size_t` stored in an `int`: its low 32 bits. -/
def narrow (n : ℤ) : ℤ := n.bmod (2 ^ 32)

theorem narrow_of_inInt {n : ℤ} (h : InInt n) : narrow n = n :=
  Int.bmod_eq_of_le (le_trans (by decide) h.1) (lt_of_lt_of_le h.2 (by decide))

/-! ### Constants -/

def smallBlind : ℤ := 2
def bigBlind : ℤ := 4
def startingStack : ℤ := 400
def actionTimeoutMs : ℤ := 30000
def maxActionTimeoutMs : ℤ := 300000
def minActionTimeoutMs : ℤ := 1000
def defaultDealerPosition : ℤ := 0
def seat1 : ℤ := 0
def seat2 : ℤ := 1
def targetStack : ℤ := 400
def topUpThreshold : ℤ := 20

/-! ### Players -/

inductive ConnectionStatus where
  | connected | disconnected | reconnecting
  deriving DecidableEq, Repr

structure Player where
  id : String
  name : String
  stack : ℤ
  seat : ℤ
  holeCards : List Card
  connectionStatus : ConnectionStatus
  lastActionTimestamp : ℕ
  disconnectedAt : Option ℕ
  isSittingOut : Bool
  deriving DecidableEq, Repr

namespace Player

instance : Inhabited Player := ⟨⟨"", "", 0, 0, [], .connected, 0, none, false⟩⟩

def isValid (p : Player) : Bool :=
  decide (0 ≤ p.stack) && (p.seat == seat1 || p.seat == seat2) &&
    (p.holeCards.length == 0 || p.holeCards.length == 2)

def canAct (p : Player) : Bool := p.connectionStatus == .connected && !p.isSittingOut
def needsTopUp (p : Player) : Bool := decide (p.stack < topUpThreshold)
def topUp (p : Player) : Player := if p.needsTopUp then { p with stack := targetStack } else p

end Player

abbrev PlayerRef := ℕ

/-- A `Table*` that is not null. -/
abbrev TableRef := ℕ

abbrev Heap := PlayerRef → Player

/-- Each player's stack grows by what he won. -/
def Heap.credit (heap : Heap) (won : PlayerRef → ℤ) : Heap :=
  fun p => { heap p with stack := (heap p).stack + won p }

section Credit
variable (heap : Heap) (won won' : PlayerRef → ℤ) (p : PlayerRef)

@[simp] theorem credit_stack : (heap.credit won p).stack = (heap p).stack + won p := rfl
@[simp] theorem credit_id : (heap.credit won p).id = (heap p).id := rfl
@[simp] theorem credit_seat : (heap.credit won p).seat = (heap p).seat := rfl
@[simp] theorem credit_holeCards : (heap.credit won p).holeCards = (heap p).holeCards := rfl
@[simp] theorem credit_canAct : (heap.credit won p).canAct = (heap p).canAct := rfl

theorem credit_zero : heap.credit 0 = heap := by
  funext q
  simp [Heap.credit]

theorem credit_credit : (heap.credit won).credit won' = heap.credit (won + won') := by
  funext q
  simp [Heap.credit, add_assoc]

end Credit

/-! ### Hands -/

inductive BettingRound where
  | preflop | flop | turn | river | showdown
  deriving DecidableEq, Repr

structure SidePot where
  amount : ℤ
  eligiblePlayers : List PlayerRef
  deriving DecidableEq, Repr

structure ActionHistory where
  player : PlayerRef
  action : String
  amount : ℤ
  timestamp : ℕ
  deriving DecidableEq, Repr

structure Hand where
  id : String
  table : Option TableRef
  players : List PlayerRef
  deck : Deck
  communityCards : List Card
  pot : ℤ
  sidePots : List SidePot
  playerBets : List ℤ
  folded : List Bool
  currentBettingRound : BettingRound
  currentPlayerToAct : Option PlayerRef
  minRaise : ℤ
  history : List ActionHistory
  winners : List PlayerRef
  completedAt : ℕ

def Hand.isValid (hand : Hand) : Bool :=
  hand.players.length == 2 && decide (hand.communityCards.length ≤ 5) && decide (4 ≤ hand.minRaise)

def Hand.advanceRound (hand : Hand) : Bool × Hand :=
  match hand.currentBettingRound with
  | .preflop => (true, { hand with currentBettingRound := .flop })
  | .flop => (true, { hand with currentBettingRound := .turn })
  | .turn => (true, { hand with currentBettingRound := .river })
  | .river => (true, { hand with currentBettingRound := .showdown })
  | .showdown => (false, hand)

/-! ### Tables -/

inductive TableState where
  | waitingForPlayers | handInProgress | handComplete
  deriving DecidableEq, Repr

/-- `current_hand` is the hand the table manager owns. -/
structure Table where
  seat1 : Option PlayerRef
  seat2 : Option PlayerRef
  currentHand : Option Hand
  pot : ℤ
  communityCards : List Card
  dealerButtonPosition : ℤ
  state : TableState

def Table.isReadyForHand (t : Table) : Bool :=
  t.state == .waitingForPlayers && t.seat1.isSome && t.seat2.isSome

/-! ### Vectors -/

/-- `std::vector::resize(n, v)`. -/
def resize {α : Type*} (l : List α) (n : ℕ) (v : α) : List α :=
  l.take n ++ List.replicate (n - l.length) v

section Resize
variable {α : Type*} (l : List α) (n : ℕ) (v : α)

@[simp] theorem length_resize : (resize l n v).length = n := by
  simp [resize]
  omega

theorem resize_of_length {n : ℕ} (h : l.length = n) : resize l n v = l := by
  simp [resize, ← h]

theorem getD_resize {n : ℕ} (h : l.length ≤ n) (i : ℕ) : (resize l n v).getD i v = l.getD i v := by
  rw [resize, List.take_of_length_le h]
  rcases lt_or_ge i l.length with hi | hi
  · rw [List.getD_append _ _ _ _ hi]
  · rw [List.getD_append_right _ _ _ _ hi, List.getD_eq_default l v hi]
    rw [List.getD_eq_getElem?_getD, List.getElem?_replicate]
    split_ifs <;> rfl

theorem resize_eq_replicate_iff {l : List α} {n : ℕ} {v : α} :
    resize l n v = List.replicate n v ↔ ∀ x ∈ l.take n, x = v := by
  rw [List.eq_replicate_iff, and_iff_right (length_resize l n v)]
  constructor
  · intro h x hx
    exact h x (List.mem_append_left _ hx)
  · intro h x hx
    rcases List.mem_append.mp hx with hx | hx
    · exact h x hx
    · exact List.eq_of_mem_replicate hx

end Resize

/-! ### Stacks -/

def stackSum (heap : Heap) (players : List PlayerRef) : ℤ :=
  (players.map fun p => (heap p).stack).sum

theorem stackSum_credit (heap : Heap) (won : PlayerRef → ℤ) (players : List PlayerRef) :
    stackSum (heap.credit won) players = stackSum heap players + (players.map won).sum := by
  induction players with
  | nil => rfl
  | cons p ps ih =>
    simp only [stackSum, List.map_cons, List.sum_cons, credit_stack] at ih ⊢
    omega

theorem sum_map_single {players : List PlayerRef} (hnd : players.Nodup) {p : PlayerRef}
    (hp : p ∈ players) (x : ℤ) : (players.map (Pi.single p x : PlayerRef → ℤ)).sum = x := by
  induction players with
  | nil => simp at hp
  | cons q qs ih =>
    obtain ⟨hq, hqs⟩ := List.nodup_cons.mp hnd
    rw [List.map_cons, List.sum_cons]
    rcases List.mem_cons.mp hp with rfl | hp
    · have hzero : qs.map (Pi.single p x : PlayerRef → ℤ) = qs.map fun _ => 0 := by
        refine List.map_congr_left fun r hr => ?_
        exact Pi.single_eq_of_ne (by rintro rfl; exact hq hr) _
      rw [Pi.single_eq_same, hzero]
      simp
    · rw [ih hqs hp, Pi.single_eq_of_ne (by rintro rfl; exact hq hp), zero_add]

end HeadsUp.Core
