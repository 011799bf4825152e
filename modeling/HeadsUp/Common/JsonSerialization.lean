import HeadsUp.Common.Json
import HeadsUp.Core.HandRanking
import Mathlib.Data.Set.List

/-!
# Cards in JSON (`common/json_serialization.cpp`)

`to_json` and `from_json` of cards, hand ranks and lists of cards. A list is
read into the vector of the caller, which is cleared first and keeps what was
read before the first element that is no card.
-/

namespace HeadsUp.Common
open HeadsUp.Core

/-! ### Cards and ranks -/

def cardToJson (card : Card) : Json := .string card.toString

def cardFromJson : Json → Except Exn Card
  | .string str => Card.ofString str
  | _ => .error (.invalidArgument "Card must be a string")

def handRankToJson (rank : HandRank) : Json := .string (HandRanking.rankToString rank)

def handRankFromJson : Json → Except Exn HandRank
  | .string "HIGH_CARD" => .ok .highCard
  | .string "ONE_PAIR" => .ok .onePair
  | .string "TWO_PAIR" => .ok .twoPair
  | .string "THREE_OF_A_KIND" => .ok .threeOfAKind
  | .string "STRAIGHT" => .ok .straight
  | .string "FLUSH" => .ok .flush
  | .string "FULL_HOUSE" => .ok .fullHouse
  | .string "FOUR_OF_A_KIND" => .ok .fourOfAKind
  | .string "STRAIGHT_FLUSH" => .ok .straightFlush
  | .string "ROYAL_FLUSH" => .ok .royalFlush
  | .string _ => .error (.invalidArgument "Invalid HandRank string")
  | _ => .error (.invalidArgument "HandRank must be a string")

theorem cardFromJson_ok_iff {j : Json} {card : Card} :
    cardFromJson j = .ok card ↔ cardToJson card = j := by
  cases j with
  | string str => rw [cardFromJson, Card.ofString_ok_iff, cardToJson, Json.string.injEq]
  | _ => exact iff_of_false nofun nofun

theorem handRankFromJson_ok_iff {j : Json} {rank : HandRank} :
    handRankFromJson j = .ok rank ↔ handRankToJson rank = j := by
  constructor
  · intro h
    unfold handRankFromJson at h
    split at h <;> cases h <;> rfl
  · rintro rfl
    cases rank <;> decide

/-! ### Lists of cards -/

def cardsToJson (cards : List Card) : Json := .array (cards.map cardToJson)

/-- The loop of `push_back`; what it had read when it throws stays in the vector. -/
def readCards (cards : List Card) : List Json → List Card × Option Exn
  | [] => (cards, none)
  | item :: rest =>
    match cardFromJson item with
    | .error e => (cards, some e)
    | .ok card => readCards (cards ++ [card]) rest

def cardsFromJson (j : Json) (cards : List Card) : List Card × Option Exn :=
  match j with
  | .array elements => readCards [] elements
  | _ => (cards, some (.invalidArgument "Cards must be an array"))

/-- A string of a rank and a suit character. -/
def IsCardText (j : Json) : Prop :=
  ∃ rank ∈ "23456789TJQKA".toList, ∃ suit ∈ "cdhs".toList, j = .string (String.ofList [rank, suit])

def IsCardArray (j : Json) : Prop :=
  ∃ elements, j = .array elements ∧ ∀ item ∈ elements, IsCardText item

theorem readCards_map (cards others : List Card) :
    readCards cards (others.map cardToJson) = (cards ++ others, none) := by
  induction others generalizing cards with
  | nil => simp [readCards]
  | cons card others ih =>
    rw [List.map_cons, readCards, cardFromJson_ok_iff.mpr rfl]
    simp [ih]

/-- Reading ends without an error when all the elements are cards. -/
theorem readCards_none {cards cards' : List Card} {elements : List Json}
    (h : readCards cards elements = (cards', none)) :
    ∃ others, elements = others.map cardToJson ∧ cards' = cards ++ others := by
  induction elements generalizing cards with
  | nil =>
    obtain ⟨rfl, -⟩ := Prod.mk.inj h
    exact ⟨[], rfl, (List.append_nil _).symm⟩
  | cons item rest ih =>
    rw [readCards] at h
    cases hcard : cardFromJson item with
    | error e => simp [hcard] at h
    | ok card =>
      simp only [hcard] at h
      obtain ⟨others, rfl, rfl⟩ := ih h
      exact ⟨card :: others, by rw [List.map_cons, cardFromJson_ok_iff.mp hcard], by simp⟩

theorem rankChars_eq :
    "23456789TJQKA".toList = (List.finRange 13).map fun i => (Rank.ofFin i).toChar := by rfl

theorem suitChars_eq : "cdhs".toList = (List.finRange 4).map fun i => (Suit.ofFin i).toChar := by
  rfl

theorem isCardText_iff {j : Json} : IsCardText j ↔ ∃ card, cardToJson card = j := by
  rw [IsCardText, rankChars_eq, suitChars_eq]
  constructor
  · intro h
    obtain ⟨rank, hrank, suit, hsuit, rfl⟩ := h
    obtain ⟨r, -, rfl⟩ := List.mem_map.mp hrank
    obtain ⟨s, -, rfl⟩ := List.mem_map.mp hsuit
    refine ⟨Card.ofRankSuit (Rank.ofFin r) (Suit.ofFin s), ?_⟩
    rw [cardToJson, Card.toString, Card.rank_ofRankSuit, Card.suit_ofRankSuit]
  · intro h
    obtain ⟨card, rfl⟩ := h
    exact ⟨_, List.mem_map_of_mem (List.mem_finRange _), _,
      List.mem_map_of_mem (List.mem_finRange _), rfl⟩

theorem isCardArray_iff {j : Json} : IsCardArray j ↔ ∃ cards, cardsToJson cards = j := by
  constructor
  · intro h
    obtain ⟨elements, rfl, hall⟩ := h
    have hrange : elements ∈ Set.range (List.map cardToJson) := by
      rw [Set.range_list_map]
      exact fun item hitem => isCardText_iff.mp (hall item hitem)
    obtain ⟨cards, hcards⟩ := hrange
    exact ⟨cards, by rw [cardsToJson, hcards]⟩
  · rintro ⟨cards, rfl⟩
    refine ⟨_, rfl, fun item hitem => ?_⟩
    obtain ⟨card, -, rfl⟩ := List.mem_map.mp hitem
    exact isCardText_iff.mpr ⟨card, rfl⟩

theorem cardsFromJson_toJson (cards old : List Card) :
    cardsFromJson (cardsToJson cards) old = (cards, none) := readCards_map [] cards

theorem cardsFromJson_none {j : Json} {old cards : List Card}
    (h : cardsFromJson j old = (cards, none)) : cardsToJson cards = j := by
  cases j with
  | array elements =>
    obtain ⟨others, rfl, rfl⟩ := readCards_none h
    rfl
  | _ => cases h

/-- What is written for a list of cards is read back as that list; and a value is
read exactly when it is an array of card strings, which is then what is written
for the cards that were read. Any other value is an error. -/
theorem cards_codec :
    (∀ cards old, cardsFromJson (cardsToJson cards) old = (cards, none)) ∧
    ∀ j old,
      (IsCardArray j → ∃ cards, cardsFromJson j old = (cards, none) ∧ cardsToJson cards = j) ∧
      (¬ IsCardArray j → ∃ cards e, cardsFromJson j old = (cards, some e)) := by
  refine ⟨cardsFromJson_toJson, fun j old => ⟨fun h => ?_, fun h => ?_⟩⟩
  · obtain ⟨cards, rfl⟩ := isCardArray_iff.mp h
    exact ⟨cards, cardsFromJson_toJson cards old, rfl⟩
  · cases hread : cardsFromJson j old with
    | mk cards result =>
      cases result with
      | none => exact absurd (isCardArray_iff.mpr ⟨cards, cardsFromJson_none hread⟩) h
      | some e => exact ⟨cards, e, rfl⟩

end HeadsUp.Common
