import Mathlib.Data.Nat.Digits.Defs
import Mathlib.Data.List.Induction
import Mathlib.Tactic.IntervalCases

/-!
# Numerals of a fixed width

A number printed in base `b`, up to sixteen, and filled up with zeros on the left.
Below `b ^ width` these are exactly the words of that many digits, one for each
number, and reading them gives the number back.
-/

namespace HeadsUp.Lib

/-- What a stream prints of `n` under a width and the fill `'0'`. -/
def printPadded (b width n : ℕ) : List Char := (Nat.toDigits b n).leftpad width '0'

def numeral (b : ℕ) : ℕ → ℕ → List Char
  | 0, _ => []
  | width + 1, n => numeral b width (n / b) ++ [(n % b).digitChar]

def IsNumeral (b width : ℕ) (word : List Char) : Prop :=
  word.length = width ∧ ∀ c ∈ word, ∃ d < b, c = d.digitChar

section Numeral
variable {b : ℕ}

@[simp] theorem numeral_length (b width n : ℕ) : (numeral b width n).length = width := by
  induction width generalizing n with
  | zero => rfl
  | succ width ih => rw [numeral, List.length_append, ih, List.length_singleton]

theorem numeral_isNumeral (hb : 0 < b) (width n : ℕ) : IsNumeral b width (numeral b width n) := by
  refine ⟨numeral_length b width n, ?_⟩
  induction width generalizing n with
  | zero => simp [numeral]
  | succ width ih =>
    intro c hc
    rcases List.mem_append.mp hc with hc | hc
    · exact ih (n / b) c hc
    · exact ⟨n % b, Nat.mod_lt n hb, List.mem_singleton.mp hc⟩

theorem digitChar_injective {d e : ℕ} (hd : d < 16) (he : e < 16)
    (h : d.digitChar = e.digitChar) : d = e := by
  interval_cases d <;> interval_cases e <;> first | rfl | exact absurd h (by decide)

theorem numeral_injective (h16 : b ≤ 16) {width m n : ℕ} (hm : m < b ^ width) (hn : n < b ^ width)
    (h : numeral b width m = numeral b width n) : m = n := by
  induction width generalizing m n with
  | zero =>
    rw [pow_zero] at hm hn
    omega
  | succ width ih =>
    have hb : 0 < b := Nat.pos_of_ne_zero fun hzero => by simp [hzero] at hm
    obtain ⟨hinit, hlast⟩ := List.append_inj' h rfl
    have hdigit := digitChar_injective ((Nat.mod_lt m hb).trans_le h16)
      ((Nat.mod_lt n hb).trans_le h16) (List.cons.inj hlast).1
    have hrest : m / b = n / b := by
      rw [pow_succ] at hm hn
      exact ih (Nat.div_lt_of_lt_mul (by rwa [mul_comm])) (Nat.div_lt_of_lt_mul (by rwa [mul_comm]))
        hinit
    rw [← Nat.div_add_mod m b, ← Nat.div_add_mod n b, hrest, hdigit]

/-- Every word of digits is the numeral of a number. -/
theorem exists_numeral {width : ℕ} {word : List Char} (h : IsNumeral b width word) :
    ∃ n < b ^ width, numeral b width n = word := by
  obtain ⟨rfl, hdigits⟩ := h
  induction word using List.reverseRecOn with
  | nil => exact ⟨0, by simp, rfl⟩
  | append_singleton init last ih =>
    obtain ⟨n, hn, hword⟩ := ih fun c hc => hdigits c (by simp [hc])
    obtain ⟨d, hd, rfl⟩ := hdigits last (by simp)
    have hdiv : (b * n + d) / b = n := by
      rw [Nat.mul_add_div (by omega), Nat.div_eq_of_lt hd, add_zero]
    have hmod : (b * n + d) % b = d := by rw [Nat.mul_add_mod, Nat.mod_eq_of_lt hd]
    refine ⟨b * n + d, ?_, ?_⟩
    · rw [List.length_append, List.length_singleton, pow_succ, mul_comm _ b]
      calc b * n + d < b * n + b := by omega
        _ = b * (n + 1) := by ring
        _ ≤ b * b ^ init.length := Nat.mul_le_mul_left b hn
    · rw [List.length_append, List.length_singleton, numeral, hdiv, hmod, hword]

theorem numeral_zero (b width : ℕ) : numeral b width 0 = List.replicate width '0' := by
  induction width with
  | zero => rfl
  | succ width ih =>
    rw [numeral, Nat.zero_div, ih, Nat.zero_mod, List.replicate_succ']
    rfl

theorem numeral_add {width n : ℕ} (hn : n < b ^ width) (more : ℕ) :
    numeral b (more + width) n = List.replicate more '0' ++ numeral b width n := by
  induction width generalizing n with
  | zero =>
    rw [pow_zero] at hn
    obtain rfl : n = 0 := by omega
    rw [add_zero, numeral_zero, numeral, List.append_nil]
  | succ width ih =>
    have hdiv : n / b < b ^ width := by
      rw [pow_succ] at hn
      exact Nat.div_lt_of_lt_mul (by rwa [mul_comm])
    rw [← add_assoc, numeral, ih hdiv, numeral, List.append_assoc]

/-- The digits alone are the numeral of their own number. -/
theorem toDigits_eq_numeral (hb : 1 < b) (n : ℕ) :
    Nat.toDigits b n = numeral b (Nat.toDigits b n).length n := by
  induction n using Nat.strongRecOn with
  | _ n ih =>
    by_cases hn : n < b
    · rw [Nat.toDigits_of_lt_base hn, List.length_singleton, numeral, numeral, Nat.mod_eq_of_lt hn]
      rfl
    · have hless : n / b < n := Nat.div_lt_self (by omega) hb
      rw [Nat.toDigits_of_base_le hb (by omega), List.length_append, List.length_singleton, numeral,
        ← ih _ hless]

/-- A number that fits the width is printed as its numeral. -/
theorem printPadded_eq (hb : 1 < b) {width n : ℕ} (hpos : 0 < width) (hn : n < b ^ width) :
    printPadded b width n = numeral b width n := by
  have hlen := (Nat.length_toDigits_le_iff hb hpos).mpr hn
  have hfits : n < b ^ (Nat.toDigits b n).length :=
    (Nat.length_toDigits_le_iff hb Nat.length_toDigits_pos).mp (le_refl _)
  have hsplit := numeral_add hfits (width - (Nat.toDigits b n).length)
  rw [Nat.sub_add_cancel hlen, ← toDigits_eq_numeral hb] at hsplit
  rw [hsplit, printPadded, List.leftpad]

/-! ### Reading -/

def digitValue (c : Char) : ℕ :=
  if c.isDigit then c.toNat - '0'.toNat else c.toNat - 'a'.toNat + 10

theorem digitValue_digitChar {d : ℕ} (h : d < 16) : digitValue d.digitChar = d := by
  interval_cases d <;> decide

/-- The number that digits go on from `n`. -/
def readFrom (b n : ℕ) (word : List Char) : ℕ := word.foldl (fun n c => b * n + digitValue c) n

theorem readFrom_numeral (h16 : b ≤ 16) {width n : ℕ} (hn : n < b ^ width) :
    readFrom b 0 (numeral b width n) = n := by
  induction width generalizing n with
  | zero =>
    rw [pow_zero] at hn
    obtain rfl : n = 0 := by omega
    rfl
  | succ width ih =>
    have hb : 0 < b := Nat.pos_of_ne_zero fun hzero => by simp [hzero] at hn
    rw [pow_succ] at hn
    have hdiv := ih (Nat.div_lt_of_lt_mul (by rwa [mul_comm]))
    rw [readFrom] at hdiv
    rw [readFrom, numeral, List.foldl_append, hdiv, List.foldl_cons, List.foldl_nil,
      digitValue_digitChar ((Nat.mod_lt n hb).trans_le h16), Nat.div_add_mod]

theorem readFrom_toDigits (hb : 1 < b) (h16 : b ≤ 16) (n : ℕ) :
    readFrom b 0 (Nat.toDigits b n) = n := by
  rw [toDigits_eq_numeral hb]
  exact readFrom_numeral h16
    ((Nat.length_toDigits_le_iff hb Nat.length_toDigits_pos).mp (le_refl _))

end Numeral

end HeadsUp.Lib
