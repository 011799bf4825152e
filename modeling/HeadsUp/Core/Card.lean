import HeadsUp.Lib.Tally
import Mathlib.Data.List.FinRange

/-!
# Cards and decks (`core/card.cpp`, `core/deck.cpp`)

A card is one byte, `rank * 4 + suit`. A deck is the list of its cards and the
index of the next one to deal. `std::shuffle` is some reordering of the cards,
given with the call.
-/

namespace HeadsUp.Core
open HeadsUp.Lib

/-- What the code throws: `std::` exceptions with their texts, failed assertions and the
exceptions of the JSON library. -/
inductive Exn where
  | invalidArgument (what : String)
  | outOfRange (what : String)
  | runtimeError (what : String)
  | assertion (what : String)
  | json
  deriving DecidableEq, Repr

inductive Rank where
  | two | three | four | five | six | seven | eight | nine | ten | jack | queen | king | ace
  deriving DecidableEq, Repr

inductive Suit where
  | clubs | diamonds | hearts | spades
  deriving DecidableEq, Repr

namespace Rank

def toFin : Rank → Fin 13
  | two => 0 | three => 1 | four => 2 | five => 3 | six => 4 | seven => 5 | eight => 6
  | nine => 7 | ten => 8 | jack => 9 | queen => 10 | king => 11 | ace => 12

def ofFin : Fin 13 → Rank
  | 0 => two | 1 => three | 2 => four | 3 => five | 4 => six | 5 => seven | 6 => eight
  | 7 => nine | 8 => ten | 9 => jack | 10 => queen | 11 => king | 12 => ace

@[simp] theorem toFin_ofFin : ∀ i, (ofFin i).toFin = i := by decide
@[simp] theorem ofFin_toFin (r : Rank) : ofFin r.toFin = r := by cases r <;> rfl

/-- `rankToChar`. -/
def toChar : Rank → Char
  | two => '2' | three => '3' | four => '4' | five => '5' | six => '6' | seven => '7'
  | eight => '8' | nine => '9' | ten => 'T' | jack => 'J' | queen => 'Q' | king => 'K'
  | ace => 'A'

end Rank

namespace Suit

def toFin : Suit → Fin 4
  | clubs => 0 | diamonds => 1 | hearts => 2 | spades => 3

def ofFin : Fin 4 → Suit
  | 0 => clubs | 1 => diamonds | 2 => hearts | 3 => spades

@[simp] theorem toFin_ofFin : ∀ i, (ofFin i).toFin = i := by decide
@[simp] theorem ofFin_toFin (s : Suit) : ofFin s.toFin = s := by cases s <;> rfl

/-- `suitToChar`. -/
def toChar : Suit → Char
  | clubs => 'c' | diamonds => 'd' | hearts => 'h' | spades => 's'

end Suit

/-! ### Cards -/

/-- `value_` is `rank * 4 + suit`, which every constructor keeps below 52. -/
structure Card where
  value : Fin 52
  deriving DecidableEq, Repr

namespace Card

instance : Inhabited Card := ⟨⟨0⟩⟩

def ofRankSuit (r : Rank) (s : Suit) : Card :=
  ⟨⟨r.toFin.val * 4 + s.toFin.val, by have hr := r.toFin.isLt; have hs := s.toFin.isLt; omega⟩⟩

def rank (c : Card) : Rank := Rank.ofFin ⟨c.value.val / 4, by have := c.value.isLt; omega⟩
def suit (c : Card) : Suit := Suit.ofFin ⟨c.value.val % 4, Nat.mod_lt _ (by decide)⟩

def toString (c : Card) : String := String.ofList [c.rank.toChar, c.suit.toChar]

theorem rank_ofRankSuit (r : Rank) (s : Suit) : (ofRankSuit r s).rank = r := by
  cases r <;> cases s <;> rfl

theorem suit_ofRankSuit (r : Rank) (s : Suit) : (ofRankSuit r s).suit = s := by
  cases r <;> cases s <;> rfl

theorem ofRankSuit_rank_suit (c : Card) : ofRankSuit c.rank c.suit = c := by
  have h : ∀ i : Fin 52, ofRankSuit (Card.mk i).rank (Card.mk i).suit = Card.mk i := by decide
  exact h c.value

theorem eq_of_rank_suit {c d : Card} (hr : c.rank = d.rank) (hs : c.suit = d.suit) : c = d := by
  rw [← ofRankSuit_rank_suit c, ← ofRankSuit_rank_suit d, hr, hs]

theorem toString_injective : Function.Injective toString := by
  intro c d h
  have hranks : ∀ i j, (Rank.ofFin i).toChar = (Rank.ofFin j).toChar → i = j := by decide
  have hsuits : ∀ i j, (Suit.ofFin i).toChar = (Suit.ofFin j).toChar → i = j := by decide
  have hchars := String.ofList_injective h
  simp only [List.cons.injEq, and_true] at hchars
  exact eq_of_rank_suit (congrArg Rank.ofFin (hranks _ _ hchars.1))
    (congrArg Suit.ofFin (hsuits _ _ hchars.2))

end Card

/-! ### Card strings -/

/-- `charToRank`. -/
def Rank.ofChar : Char → Except Exn Rank
  | '2' => .ok two
  | '3' => .ok three
  | '4' => .ok four
  | '5' => .ok five
  | '6' => .ok six
  | '7' => .ok seven
  | '8' => .ok eight
  | '9' => .ok nine
  | 'T' => .ok ten
  | 'J' => .ok jack
  | 'Q' => .ok queen
  | 'K' => .ok king
  | 'A' => .ok ace
  | _ => .error (.invalidArgument "Invalid rank character")

/-- `charToSuit`. -/
def Suit.ofChar : Char → Except Exn Suit
  | 'c' => .ok clubs
  | 'd' => .ok diamonds
  | 'h' => .ok hearts
  | 's' => .ok spades
  | _ => .error (.invalidArgument "Invalid suit character")

theorem Rank.ofChar_ok_iff {c : Char} {r : Rank} : Rank.ofChar c = .ok r ↔ r.toChar = c := by
  constructor
  · intro h
    unfold Rank.ofChar at h
    split at h <;> cases h <;> rfl
  · rintro rfl
    cases r <;> rfl

theorem Suit.ofChar_ok_iff {c : Char} {s : Suit} : Suit.ofChar c = .ok s ↔ s.toChar = c := by
  constructor
  · intro h
    unfold Suit.ofChar at h
    split at h <;> cases h <;> rfl
  · rintro rfl
    cases s <;> rfl

/-- `isprint` in the C locale. -/
def isPrint (c : Char) : Bool := 32 ≤ c.toNat && c.toNat ≤ 126

/-- The `char`s of a `std::string`, one for each byte. -/
def chars (str : String) : List Char := str.toByteArray.data.toList.map Char.ofUInt8

namespace Card

/-- `Card(const std::string&)`. -/
def ofString (str : String) : Except Exn Card :=
  match chars str with
  | [first, second] =>
    if !isPrint first || !isPrint second then
      .error (.invalidArgument "Card string contains non-printable characters")
    else do
      let rank ← Rank.ofChar first
      let suit ← Suit.ofChar second
      pure (ofRankSuit rank suit)
  | _ => .error (.invalidArgument "Card string must be 2 characters")

theorem chars_injective : Function.Injective chars := by
  intro s t h
  have hbytes : Function.Injective Char.ofUInt8 := by
    intro b b' hb
    exact UInt8.toUInt32_inj.mp (congrArg Char.val hb)
  have hlist := List.map_injective_iff.mpr hbytes h
  exact String.toByteArray_inj.mp (ByteArray.ext (Array.toList_inj.mp hlist))

theorem chars_toString (c : Card) : chars c.toString = [c.rank.toChar, c.suit.toChar] := by
  have h : ∀ i : Fin 52, chars (Card.mk i).toString
      = [(Card.mk i).rank.toChar, (Card.mk i).suit.toChar] := by decide
  exact h c.value

theorem isPrint_toString (c : Card) :
    isPrint c.rank.toChar = true ∧ isPrint c.suit.toChar = true := by
  have h : ∀ i : Fin 52,
      isPrint (Card.mk i).rank.toChar = true ∧ isPrint (Card.mk i).suit.toChar = true := by decide
  exact h c.value

/-- A string is read as the card it is the text of, and no other string is read. -/
theorem ofString_ok_iff {str : String} {c : Card} : ofString str = .ok c ↔ c.toString = str := by
  constructor
  · intro h
    rw [ofString] at h
    split at h
    · rename_i first second hchars
      split_ifs at h
      cases hrank : Rank.ofChar first with
      | error e => simp [hrank, bind, Except.bind] at h
      | ok rank =>
        cases hsuit : Suit.ofChar second with
        | error e => simp [hrank, hsuit, bind, Except.bind] at h
        | ok suit =>
          have hcard : ofRankSuit rank suit = c := by
            simpa [hrank, hsuit, bind, Except.bind, pure, Except.pure] using h
          refine chars_injective ?_
          rw [chars_toString, ← hcard, rank_ofRankSuit, suit_ofRankSuit,
            Rank.ofChar_ok_iff.mp hrank, Suit.ofChar_ok_iff.mp hsuit, hchars]
    · cases h
  · rintro rfl
    obtain ⟨hrank, hsuit⟩ := isPrint_toString c
    simp only [ofString, chars_toString, hrank, hsuit, Rank.ofChar_ok_iff.mpr rfl,
      Suit.ofChar_ok_iff.mpr rfl]
    exact congrArg Except.ok (ofRankSuit_rank_suit c)

end Card

/-! ### Decks -/

def createStandardDeck : List Card :=
  (List.finRange 13).flatMap fun rank => (List.finRange 4).map fun suit =>
    Card.ofRankSuit (Rank.ofFin rank) (Suit.ofFin suit)

theorem createStandardDeck_nodup : createStandardDeck.Nodup := by decide
theorem createStandardDeck_length : createStandardDeck.length = 52 := by decide

/-- `cards_` is filled once, by the constructor, and only ever shuffled. -/
structure Deck where
  cards : List Card
  nextCard : ℕ
  standard : cards.Perm createStandardDeck

namespace Deck

def shuffle (d : Deck) (σ : Shuffle Card) : Deck :=
  ⟨σ.apply d.cards, 0, (σ.perm d.cards).trans d.standard⟩

/-- `Deck()`: the standard deck, shuffled. -/
def new (σ : Shuffle Card) : Deck :=
  (Deck.mk createStandardDeck 0 (List.Perm.refl _)).shuffle σ

def deal (d : Deck) : Except Exn (Card × Deck) :=
  if d.nextCard ≥ d.cards.length then .error (.outOfRange "No cards left in deck")
  else .ok (d.cards.getD d.nextCard default, { d with nextCard := d.nextCard + 1 })

def size (d : Deck) : ℕ := d.cards.length - d.nextCard

theorem cards_length (d : Deck) : d.cards.length = 52 :=
  d.standard.length_eq.trans createStandardDeck_length

theorem deal_ok (d : Deck) (h : d.nextCard < 52) :
    d.deal = .ok (d.cards.getD d.nextCard default, { d with nextCard := d.nextCard + 1 }) := by
  rw [← d.cards_length] at h
  simp [deal, h]

@[simp] theorem shuffle_nextCard (d : Deck) (σ : Shuffle Card) : (d.shuffle σ).nextCard = 0 := rfl

end Deck

end HeadsUp.Core
