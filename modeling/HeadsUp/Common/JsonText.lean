import HeadsUp.Common.Reread
import HeadsUp.Lib.Numerals

/-!
# JSON texts

Texts as the library writes them, without blanks and with the members of an object
in the order of their keys, and the reading of such texts. Doubles are left out: no
message has one. What is read is the value up to the way the library stores it.
-/

namespace HeadsUp.Common
open HeadsUp.Lib

namespace Json

/-! ### Members -/

section Members
variable {α β : Type*}

/-- `std::map`: ascending keys, each once. -/
def insertMember (key : String) (value : α) : List (String × α) → List (String × α)
  | [] => [(key, value)]
  | (k, v) :: rest =>
    if key < k then (key, value) :: (k, v) :: rest
    else if key = k then (key, value) :: rest
    else (k, v) :: insertMember key value rest

def inOrder (members : List (String × α)) : List (String × α) :=
  members.foldr (fun m => insertMember m.1 m.2) []

theorem lookup_member (m : String × α) (members : List (String × α)) (key : String) :
    (m :: members).lookup key = if key = m.1 then some m.2 else members.lookup key := by
  obtain ⟨k, v⟩ := m
  rw [List.lookup_cons]
  by_cases hkey : key = k
  · simp [hkey]
  · simp [beq_false_of_ne hkey, hkey]

theorem lookup_insertMember (key : String) (value : α) (members : List (String × α))
    (name : String) : (insertMember key value members).lookup name
      = if name = key then some value else members.lookup name := by
  induction members with
  | nil => rw [insertMember, lookup_member]
  | cons m rest ih =>
    obtain ⟨k, v⟩ := m
    rw [insertMember]
    by_cases hlt : key < k
    · rw [if_pos hlt, lookup_member]
    · rw [if_neg hlt]
      by_cases hkey : key = k
      · rw [if_pos hkey]
        simp only [lookup_member, hkey]
        split_ifs <;> rfl
      · -- the key goes further back
        rw [if_neg hkey, lookup_member, lookup_member, ih]
        by_cases hname : name = key
        · simp only [if_pos hname, if_neg (hname ▸ hkey : ¬name = k)]
        · simp only [if_neg hname]

@[simp] theorem lookup_inOrder (members : List (String × α)) (key : String) :
    (inOrder members).lookup key = members.lookup key := by
  induction members with
  | nil => rfl
  | cons m rest ih =>
    rw [inOrder, List.foldr_cons, lookup_insertMember, ← inOrder, ih, lookup_member]

/-- The same keys, and values that belong together. -/
def SameMember (R : α → β → Prop) (m : String × α) (m' : String × β) : Prop :=
  m.1 = m'.1 ∧ R m.2 m'.2

variable {R : α → β → Prop} {members : List (String × α)} {members' : List (String × β)}

theorem forall₂_insertMember (h : List.Forall₂ (SameMember R) members members') (key : String)
    {a : α} {b : β} (hab : R a b) :
    List.Forall₂ (SameMember R) (insertMember key a members) (insertMember key b members') := by
  induction h with
  | nil => exact .cons ⟨rfl, hab⟩ .nil
  | @cons m m' rest rest' hm hrest ih =>
    obtain ⟨k, v⟩ := m
    obtain ⟨k', v'⟩ := m'
    obtain ⟨rfl, hv⟩ := hm
    simp only [insertMember]
    split_ifs
    · exact .cons ⟨rfl, hab⟩ (.cons ⟨rfl, hv⟩ hrest)
    · exact .cons ⟨rfl, hab⟩ hrest
    · exact .cons ⟨rfl, hv⟩ ih

theorem forall₂_inOrder (h : List.Forall₂ (SameMember R) members members') :
    List.Forall₂ (SameMember R) (inOrder members) (inOrder members') := by
  induction h with
  | nil => exact .nil
  | @cons m m' rest rest' hm hrest ih =>
    obtain ⟨k, v⟩ := m
    obtain ⟨k', v'⟩ := m'
    obtain ⟨rfl, hv⟩ := hm
    exact forall₂_insertMember ih k hv

theorem rel_lookup (h : List.Forall₂ (SameMember R) members members') (key : String) :
    Option.Rel R (members.lookup key) (members'.lookup key) := by
  induction h with
  | nil => exact .none
  | cons hm hrest ih =>
    rw [lookup_member, lookup_member, ← hm.1]
    split_ifs
    · exact .some hm.2
    · exact ih

end Members

/-! ### Writing -/

/-- Escaped by a letter of their own. -/
def shortEscapes : List (Char × Char) :=
  [('"', '"'), ('\\', '\\'), ('\x08', 'b'), ('\x0c', 'f'), ('\n', 'n'), ('\r', 'r'), ('\t', 't')]

def escape (c : Char) : List Char :=
  match shortEscapes.lookup c with
  | some letter => ['\\', letter]
  | none => if c.toNat < 32 then '\\' :: 'u' :: numeral 16 4 c.toNat else [c]

def quote (s : String) : List Char := '"' :: (s.toList.flatMap escape ++ ['"'])

def dumpInt (n : ℤ) : List Char :=
  if n < 0 then '-' :: Nat.toDigits 10 n.natAbs else Nat.toDigits 10 n.natAbs

/-- The items with commas between them. -/
def listed (close : Char) : List (List Char) → List Char
  | [] => [close]
  | [text] => text ++ [close]
  | text :: rest => text ++ ',' :: listed close rest

def dumpMember (m : String × List Char) : List Char := quote m.1 ++ ':' :: m.2

mutual

def dump : Json → List Char
  | .null => "null".toList
  | .boolean true => "true".toList
  | .boolean false => "false".toList
  | .numberInteger n => dumpInt n.toInt
  | .numberUnsigned n => Nat.toDigits 10 n.toNat
  | .numberFloat _ => []
  | .string s => quote s
  | .array elements => '[' :: listed ']' (dumpElements elements)
  | .object members => '\x7b' :: listed '\x7d' ((inOrder (dumpMembers members)).map dumpMember)

def dumpElements : List Json → List (List Char)
  | [] => []
  | j :: rest => dump j :: dumpElements rest

def dumpMembers : List (String × Json) → List (String × List Char)
  | [] => []
  | (key, j) :: rest => (key, dump j) :: dumpMembers rest

end

theorem dumpElements_eq (elements : List Json) : dumpElements elements = elements.map dump := by
  induction elements with
  | nil => rfl
  | cons j rest ih => rw [dumpElements, ih, List.map_cons]

theorem dumpMembers_eq (members : List (String × Json)) :
    dumpMembers members = members.map fun m => (m.1, dump m.2) := by
  induction members with
  | nil => rfl
  | cons m rest ih =>
    obtain ⟨key, j⟩ := m
    rw [dumpMembers, ih, List.map_cons]

/-! ### Reading -/

def expect (c : Char) : List Char → Option (List Char)
  | [] => none
  | d :: rest => if d = c then some rest else none

def expectAll : List Char → List Char → Option (List Char)
  | [], text => some text
  | c :: cs, text => (expect c text).bind (expectAll cs)

/-- A number that fits the 64 bits it is stored in. -/
def parseDigits (bound : ℕ) (text : List Char) : Option (ℕ × List Char) :=
  let digits := text.takeWhile Char.isDigit
  let n := readFrom 10 0 digits
  if digits ≠ [] ∧ n < bound then some (n, text.dropWhile Char.isDigit) else none

/-- Up to the closing quote. -/
def parseChars : List Char → Option (List Char × List Char)
  | [] => none
  | '"' :: rest => some ([], rest)
  | '\\' :: 'u' :: a :: b :: c :: d :: rest =>
    (parseChars rest).map fun r => (Char.ofNat (readFrom 16 0 [a, b, c, d]) :: r.1, r.2)
  | '\\' :: letter :: rest =>
    ((shortEscapes.map Prod.swap).lookup letter).bind fun c =>
      (parseChars rest).map fun r => (c :: r.1, r.2)
  | c :: rest => (parseChars rest).map fun r => (c :: r.1, r.2)

section Items
variable {α : Type} (item : List Char → Option (α × List Char)) (close : Char)

def parseSome : ℕ → List Char → Option (List α × List Char)
  | 0, _ => none
  | fuel + 1, text =>
    (item text).bind fun r =>
      match expect close r.2 with
      | some rest => some ([r.1], rest)
      | none => (expect ',' r.2).bind fun rest =>
        (parseSome fuel rest).map fun others => (r.1 :: others.1, others.2)

def parseItems (fuel : ℕ) (text : List Char) : Option (List α × List Char) :=
  match expect close text with
  | some rest => some ([], rest)
  | none => parseSome item close fuel text

def parseMember (text : List Char) : Option ((String × α) × List Char) := do
  let text ← expect '"' text
  let (key, text) ← parseChars text
  let text ← expect ':' text
  let (value, text) ← item text
  some ((String.ofList key, value), text)

end Items

def parseValue : ℕ → List Char → Option (Json × List Char)
  | 0, _ => none
  | _, [] => none
  | fuel + 1, c :: rest =>
    if c = '"' then (parseChars rest).map fun r => (.string (String.ofList r.1), r.2)
    else if c = '[' then
      (parseItems (parseValue fuel) ']' fuel rest).map fun r => (.array r.1, r.2)
    else if c = '\x7b' then
      (parseItems (parseMember (parseValue fuel)) '\x7d' fuel rest).map fun r => (.object r.1, r.2)
    else if c = '-' then
      (parseDigits (2 ^ 63 + 1) rest).map fun r => (.numberInteger (Int64.ofInt (-r.1)), r.2)
    else if c.isDigit then
      (parseDigits (2 ^ 64) (c :: rest)).map fun r => (.numberUnsigned (UInt64.ofNat r.1), r.2)
    else if c = 'n' then (expectAll "ull".toList rest).map fun rest => (.null, rest)
    else if c = 't' then (expectAll "rue".toList rest).map fun rest => (.boolean true, rest)
    else if c = 'f' then (expectAll "alse".toList rest).map fun rest => (.boolean false, rest)
    else none

def text (j : Json) : String := String.ofList (dump j)

def parse (text : String) : Option Json :=
  match parseValue text.length text.toList with
  | some (j, []) => some j
  | _ => none

/-! ### Strings -/

theorem shortEscapes_spec {c letter : Char} (h : shortEscapes.lookup c = some letter) :
    letter ≠ 'u' ∧ (shortEscapes.map Prod.swap).lookup letter = some c := by
  obtain ⟨l₁, l₂, hsplit, -⟩ := List.lookup_eq_some_iff.mp h
  have hmem : (c, letter) ∈ shortEscapes := by rw [hsplit]; simp
  have hall : ∀ m ∈ shortEscapes,
      m.2 ≠ 'u' ∧ (shortEscapes.map Prod.swap).lookup m.2 = some m.1 := by decide
  exact hall _ hmem

theorem numeral_control {n : ℕ} (h : n < 32) :
    ∃ a b c d, numeral 16 4 n = [a, b, c, d] ∧ readFrom 16 0 [a, b, c, d] = n :=
  ⟨_, _, _, _, rfl, @readFrom_numeral 16 (le_refl 16) 4 n (h.trans (by decide))⟩

theorem parseChars_escape (c : Char) (rest : List Char) :
    parseChars (escape c ++ rest) = (parseChars rest).map fun r => (c :: r.1, r.2) := by
  unfold escape
  cases hshort : shortEscapes.lookup c with
  | some letter =>
    obtain ⟨hletter, hback⟩ := shortEscapes_spec hshort
    simp [parseChars, hletter, hback]
  | none =>
    have hnot : ∀ m ∈ shortEscapes, c ≠ m.1 := fun m hm heq => by
      simpa [heq] using List.lookup_eq_none_iff.mp hshort m hm
    have hquote : c ≠ '"' := hnot ('"', '"') (by decide)
    have hslash : c ≠ '\\' := hnot ('\\', '\\') (by decide)
    split_ifs with hcontrol
    · obtain ⟨a, b, d, e, hdigits, hvalue⟩ := numeral_control hcontrol
      simp only [hdigits, List.cons_append, List.nil_append, parseChars, hvalue, Char.ofNat_toNat]
    · simp [parseChars, hslash]

theorem parseChars_quote (s : String) (rest : List Char) :
    parseChars (s.toList.flatMap escape ++ '"' :: rest) = some (s.toList, rest) := by
  induction s.toList with
  | nil => rfl
  | cons c cs ih =>
    rw [List.flatMap_cons, List.append_assoc, parseChars_escape, ih]
    rfl

/-! ### Numbers -/

/-- What may follow a number. -/
def EndsNumber (rest : List Char) : Prop := ∀ c ∈ rest.head?, c.isDigit = false

theorem parseDigits_toDigits {bound n : ℕ} (hn : n < bound) {rest : List Char}
    (hrest : EndsNumber rest) :
    parseDigits bound (Nat.toDigits 10 n ++ rest) = some (n, rest) := by
  have hdigits : ∀ c ∈ Nat.toDigits 10 n, c.isDigit = true := fun c hc =>
    Nat.isDigit_of_mem_toDigits (by decide) (by decide) hc
  have hnone : rest.takeWhile Char.isDigit = [] ∧ rest.dropWhile Char.isDigit = rest := by
    cases rest with
    | nil => exact ⟨rfl, rfl⟩
    | cons c rest =>
      have hc : c.isDigit = false := hrest c rfl
      simp [hc]
  simp only [parseDigits, List.takeWhile_append_of_pos hdigits, List.dropWhile_append_of_pos hdigits,
    hnone.1, hnone.2, List.append_nil, readFrom_toDigits (by decide : 1 < 10) (by decide)]
  rw [if_pos ⟨Nat.toDigits_ne_nil, hn⟩]

/-! ### Items -/

section Items
variable {α : Type} {item : List Char → Option (α × List Char)} {close : Char}

/-- `text` is what is read of `a`, whatever follows that does not go on with a number. -/
def Reads (item : List Char → Option (α × List Char)) (text : List Char) (a : α) : Prop :=
  ∀ rest, EndsNumber rest → item (text ++ rest) = some (a, rest)

theorem expect_self (c : Char) (rest : List Char) : expect c (c :: rest) = some rest := if_pos rfl

theorem expect_of_ne {c d : Char} (h : d ≠ c) (rest : List Char) : expect c (d :: rest) = none :=
  if_neg h

theorem endsNumber_cons {c : Char} (h : c.isDigit = false) (rest : List Char) :
    EndsNumber (c :: rest) := by
  intro d hd
  obtain rfl := Option.some.inj hd
  exact h

theorem parseSome_listed (hclose : close.isDigit = false) (hcomma : close ≠ ',')
    {texts : List (List Char)} {values : List α} (h : List.Forall₂ (Reads item) texts values)
    (hne : texts ≠ []) {fuel : ℕ} (hfuel : texts.length ≤ fuel) (rest : List Char) :
    parseSome item close fuel (listed close texts ++ rest) = some (values, rest) := by
  induction h generalizing fuel with
  | nil => exact absurd rfl hne
  | @cons text a texts values hread hrest ih =>
    obtain ⟨fuel, rfl⟩ : ∃ n, fuel = n + 1 := ⟨fuel - 1, by simp at hfuel; omega⟩
    cases hrest with
    | nil =>
      have hlast := hread (close :: rest) (endsNumber_cons hclose rest)
      simp only [listed, List.append_assoc, List.singleton_append, parseSome, hlast,
        Option.bind_some, expect_self]
    | @cons text' a' texts values hread' hrest =>
      have hmore := ih (List.cons_ne_nil _ _) (Nat.le_of_succ_le_succ hfuel)
      have hfirst := hread (',' :: (listed close (text' :: texts) ++ rest))
        (endsNumber_cons (by decide) _)
      simp only [listed, List.append_assoc, List.cons_append, parseSome, hfirst, Option.bind_some,
        expect_of_ne hcomma.symm, expect_self, hmore, Option.map_some]

theorem parseItems_listed (hclose : close.isDigit = false) (hcomma : close ≠ ',')
    (hnone : ∀ rest, item (close :: rest) = none) {texts : List (List Char)} {values : List α}
    (h : List.Forall₂ (Reads item) texts values) {fuel : ℕ} (hfuel : texts.length ≤ fuel)
    (rest : List Char) : parseItems item close fuel (listed close texts ++ rest)
      = some (values, rest) := by
  rw [parseItems]
  cases h with
  | nil => rw [listed, List.singleton_append, expect_self]
  | @cons text a texts values hread hrest =>
    have hmany := parseSome_listed hclose hcomma (.cons hread hrest) (List.cons_ne_nil _ _) hfuel rest
    -- the first item does not begin with the closing bracket
    have hfirst : expect close (listed close (text :: texts) ++ rest) = none := by
      cases hlist : listed close (text :: texts) ++ rest with
      | nil => rfl
      | cons c others =>
        refine expect_of_ne (fun hc => ?_) others
        subst hc
        rw [hlist, show fuel = fuel - 1 + 1 by simp at hfuel; omega, parseSome, hnone] at hmany
        cases hmany
    rw [hfirst]
    exact hmany

theorem reads_member {text : List Char} {a : α} (h : Reads item text a) (key : String) :
    Reads (parseMember item) (dumpMember (key, text)) (key, a) := by
  intro rest hrest
  simp only [dumpMember, quote, parseMember, List.cons_append, List.append_assoc, expect_self,
    parseChars_quote, h rest hrest, Option.bind_eq_bind, Option.bind_some, String.ofList_toList,
    List.nil_append]

end Items

/-! ### Values -/

/-- No doubles. -/
inductive Plain : Json → Prop
  | null : Plain .null
  | boolean (b : Bool) : Plain (.boolean b)
  | numberInteger (n : Int64) : Plain (.numberInteger n)
  | numberUnsigned (n : UInt64) : Plain (.numberUnsigned n)
  | string (s : String) : Plain (.string s)
  | array {elements : List Json} (h : ∀ j ∈ elements, Plain j) : Plain (.array elements)
  | object {members : List (String × Json)} (h : ∀ m ∈ members, Plain m.2) :
      Plain (.object members)

attribute [simp] Plain.null Plain.string

@[simp] theorem plain_ofInt (n : ℤ) : Plain (ofInt n) := .numberInteger _

@[simp] theorem plain_array {elements : List Json} :
    Plain (.array elements) ↔ ∀ j ∈ elements, Plain j :=
  ⟨fun h => by cases h with | array h => exact h, .array⟩

@[simp] theorem plain_object {members : List (String × Json)} :
    Plain (.object members) ↔ ∀ m ∈ members, Plain m.2 :=
  ⟨fun h => by cases h with | object h => exact h, .object⟩

/-- `text` is read as `j` when there is fuel for each of its characters. -/
def Parses (text : List Char) (j : Json) : Prop :=
  ∀ fuel, text.length ≤ fuel → Reads (parseValue fuel) text j

theorem parses_of_cons {c : Char} {text : List Char} {j : Json}
    (h : ∀ fuel, text.length ≤ fuel → ∀ rest, EndsNumber rest →
      parseValue (fuel + 1) (c :: (text ++ rest)) = some (j, rest)) : Parses (c :: text) j := by
  intro fuel hfuel rest hrest
  obtain ⟨fuel, rfl⟩ : ∃ n, fuel = n + 1 := ⟨fuel - 1, by simp at hfuel; omega⟩
  exact h fuel (by simpa using hfuel) rest hrest

theorem parses_string (s : String) : Parses (quote s) (.string s) := by
  refine parses_of_cons fun fuel _ rest _ => ?_
  simp [parseValue, parseChars_quote]

theorem parses_natural {n : ℕ} (h : n < 2 ^ 64) :
    Parses (Nat.toDigits 10 n) (.numberUnsigned (UInt64.ofNat n)) := by
  intro fuel hfuel rest hrest
  have hread := parseDigits_toDigits h hrest
  cases hdigits : Nat.toDigits 10 n with
  | nil => exact absurd hdigits Nat.toDigits_ne_nil
  | cons c text =>
    have hc : c.isDigit = true :=
      Nat.isDigit_of_mem_toDigits (by decide) (by decide) (hdigits ▸ List.mem_cons_self ..)
    rw [hdigits] at hfuel hread
    obtain ⟨fuel, rfl⟩ : ∃ n, fuel = n + 1 := ⟨fuel - 1, by simp at hfuel; omega⟩
    have hnot : ∀ d : Char, d.isDigit = false → c ≠ d := fun d hd heq => by
      rw [heq, hd] at hc
      cases hc
    rw [List.cons_append] at hread ⊢
    simp only [parseValue, hnot '"' rfl, hnot '[' rfl, hnot '\x7b' rfl, hnot '-' rfl, hc, hread,
      if_true, if_false, Option.map_some]

theorem parses_negative {n : ℕ} (h : n < 2 ^ 63 + 1) :
    Parses ('-' :: Nat.toDigits 10 n) (.numberInteger (Int64.ofInt (-n))) := by
  refine parses_of_cons fun fuel _ rest hrest => ?_
  have hread := parseDigits_toDigits h hrest
  simp only [parseValue, Char.reduceEq, if_false, if_true, hread, Option.map_some]

theorem parseValue_close {c : Char} (h : c = ']' ∨ c = '\x7d') (fuel : ℕ) (rest : List Char) :
    parseValue fuel (c :: rest) = none := by
  cases fuel with
  | zero => rfl
  | succ fuel => rcases h with rfl | rfl <;> simp [parseValue]

theorem length_listed_le (close : Char) {texts : List (List Char)} :
    texts.length ≤ (listed close texts).length ∧
      ∀ text ∈ texts, text.length ≤ (listed close texts).length := by
  induction texts with
  | nil => simp [listed]
  | cons text texts ih =>
    cases texts with
    | nil => simp [listed]
    | cons text' texts =>
      obtain ⟨hcount, hall⟩ := ih
      simp only [listed, List.length_append, List.length_cons, List.forall_mem_cons] at hcount hall ⊢
      refine ⟨by omega, by omega, by omega, fun other hother => ?_⟩
      have hle := hall.2 other hother
      omega

theorem parses_array {texts : List (List Char)} {elements : List Json}
    (h : List.Forall₂ Parses texts elements) :
    Parses ('[' :: listed ']' texts) (.array elements) := by
  refine parses_of_cons fun fuel hfuel rest _ => ?_
  obtain ⟨hcount, hall⟩ := @length_listed_le ']' texts
  have hshort : ∀ text ∈ texts, text.length ≤ fuel := fun text ht => (hall text ht).trans hfuel
  have hreads : List.Forall₂ (Reads (parseValue fuel)) texts elements :=
    ((List.forall₂_and_left ..).mpr ⟨hshort, h⟩).imp fun _ _ hh => hh.2 fuel hh.1
  have hread := parseItems_listed (by decide) (by decide)
    (fun rest => parseValue_close (.inl rfl) fuel rest) hreads (hcount.trans hfuel) rest
  simp [parseValue, hread]

theorem parses_object {texts : List (String × List Char)} {members : List (String × Json)}
    (h : List.Forall₂ (SameMember Parses) texts members) :
    Parses ('\x7b' :: listed '\x7d' (texts.map dumpMember)) (.object members) := by
  refine parses_of_cons fun fuel hfuel rest _ => ?_
  obtain ⟨hcount, hall⟩ := @length_listed_le '\x7d' (texts.map dumpMember)
  have hshort : ∀ x ∈ texts, x.2.length ≤ fuel := by
    intro x hx
    have hle := (hall _ (List.mem_map_of_mem hx)).trans hfuel
    simp only [dumpMember, List.length_append, List.length_cons] at hle
    omega
  have hreads : List.Forall₂ (Reads (parseMember (parseValue fuel))) (texts.map dumpMember)
      members := by
    rw [List.forall₂_map_left_iff]
    refine ((List.forall₂_and_left ..).mpr ⟨hshort, h⟩).imp fun x m hh => ?_
    obtain ⟨key, text⟩ := x
    obtain ⟨name, j⟩ := m
    obtain ⟨hfits, rfl, hparses⟩ := hh
    exact reads_member (hparses fuel hfits) key
  have hnone : ∀ rest, parseMember (parseValue fuel) ('\x7d' :: rest) = none := fun rest => by
    simp [parseMember, expect]
  have hread := parseItems_listed (by decide) (by decide) hnone hreads (hcount.trans hfuel) rest
  simp [parseValue, hread]

/-! ### What is written is read -/

theorem reread_integer (n : Int64) :
    ∃ j, Parses (dumpInt n.toInt) j ∧ Reread (.numberInteger n) j := by
  have hlow := Int64.le_toInt n
  have hhigh := Int64.toInt_lt n
  rw [dumpInt]
  split_ifs with hneg
  · have hback : Int64.ofInt (-(n.toInt.natAbs : ℤ)) = n := by
      have habs : -(n.toInt.natAbs : ℤ) = n.toInt := by omega
      rw [habs, Int64.ofInt_toInt]
    have hparses : Parses _ (.numberInteger (Int64.ofInt (-(n.toInt.natAbs : ℤ)))) :=
      parses_negative (by omega)
    rw [hback] at hparses
    exact ⟨_, hparses, .negative (Int64.lt_iff_toInt_lt.mpr hneg)⟩
  · have hge : 0 ≤ n := Int64.le_iff_toInt_le.mpr (not_lt.mp hneg)
    have hback : UInt64.ofNat n.toInt.natAbs = n.toUInt64 := by
      have habs : n.toInt.natAbs = n.toNatClampNeg := by
        rw [← Int64.toNat_toInt]
        omega
      rw [habs, ← Int64.toNat_toUInt64_of_le hge, UInt64.ofNat_toNat]
    have hparses : Parses _ (.numberUnsigned (UInt64.ofNat n.toInt.natAbs)) :=
      parses_natural (by omega)
    rw [hback] at hparses
    exact ⟨_, hparses, .nonneg hge⟩

/-- Items that are read one by one are read as a list. -/
theorem exists_forall₂ {α β γ : Type} (write : α → β) (R : β → γ → Prop) (S : α → γ → Prop)
    {items : List α} (h : ∀ a ∈ items, ∃ c, R (write a) c ∧ S a c) :
    ∃ read, List.Forall₂ R (items.map write) read ∧ List.Forall₂ S items read := by
  induction items with
  | nil => exact ⟨[], .nil, .nil⟩
  | cons a items ih =>
    obtain ⟨c, hR, hS⟩ := h a (List.mem_cons_self ..)
    obtain ⟨read, hreads, hsame⟩ := ih fun b hb => h b (List.mem_cons_of_mem _ hb)
    exact ⟨c :: read, .cons hR hreads, .cons hS hsame⟩

theorem exists_parses {j : Json} (h : Plain j) : ∃ j', Parses (dump j) j' ∧ Reread j j' := by
  induction h with
  | null => exact ⟨.null, parses_of_cons fun fuel _ rest _ => rfl, .null⟩
  | boolean b =>
    cases b with
    | true => exact ⟨.boolean true, parses_of_cons fun fuel _ rest _ => rfl, .boolean true⟩
    | false => exact ⟨.boolean false, parses_of_cons fun fuel _ rest _ => rfl, .boolean false⟩
  | numberInteger n => exact reread_integer n
  | numberUnsigned n =>
    have hparses := parses_natural n.toNat_lt
    rw [UInt64.ofNat_toNat] at hparses
    exact ⟨_, hparses, .unsigned n⟩
  | string s => exact ⟨_, parses_string s, .string s⟩
  | @array elements _ ih =>
    obtain ⟨read, hparses, hsame⟩ := exists_forall₂ dump Parses Reread ih
    refine ⟨.array read, ?_, .array hsame⟩
    rw [dump, dumpElements_eq]
    exact parses_array hparses
  | @object members _ ih =>
    have hmembers : ∀ m ∈ members, ∃ m', SameMember Parses (m.1, dump m.2) m' ∧
        SameMember Reread m m' := by
      intro m hm
      obtain ⟨j, hj, hreread⟩ := ih m hm
      exact ⟨(m.1, j), ⟨rfl, hj⟩, rfl, hreread⟩
    obtain ⟨read, hparses, hsame⟩ := exists_forall₂ _ _ _ hmembers
    refine ⟨.object (inOrder read), ?_, .object fun key => ?_⟩
    · rw [dump, dumpMembers_eq]
      exact parses_object (forall₂_inOrder hparses)
    · rw [lookup_inOrder]
      exact rel_lookup hsame key

/-- What is written is read, as the library stores it. -/
theorem exists_parse_text {j : Json} (h : Plain j) :
    ∃ j', parse j.text = some j' ∧ Reread j j' := by
  obtain ⟨j', hparses, hreread⟩ := exists_parses h
  have hread := hparses (dump j).length (le_refl _) [] (fun _ hc => by cases hc)
  rw [List.append_nil] at hread
  refine ⟨j', ?_, hreread⟩
  rw [parse, text, String.length_ofList, String.toList_ofList, hread]

end Json
end HeadsUp.Common
