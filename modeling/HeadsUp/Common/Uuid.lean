import HeadsUp.Lib.Numerals
import Mathlib.Data.UInt
import Mathlib.SetTheory.Cardinal.Finite

/-!
# Identifiers (`common/uuid.cpp`)

`generate` prints five draws of 32 bits in the groups of a uuid. It masks three of
them to sixteen bits and prints the last one twelve digits wide, so the last group
always begins with four zeros.
-/

namespace HeadsUp.Common
open HeadsUp.Lib

/-- The results of `dis(gen)`, in order. -/
structure Draws where
  first : UInt32
  second : UInt32
  third : UInt32
  fourth : UInt32
  fifth : UInt32
  deriving DecidableEq, Repr

namespace Uuid

/-- `ss << std::setw(width) << n` under `std::hex` and `std::setfill('0')`. -/
def setw (width : ℕ) (n : UInt32) : List Char := printPadded 16 width n.toNat

def generate (draws : Draws) : String :=
  String.ofList (setw 8 draws.first ++ '-' :: (setw 4 (draws.second &&& 0xFFFF) ++ '-' ::
    (setw 4 (draws.third &&& 0xFFFF) ++ '-' :: (setw 4 (draws.fourth &&& 0xFFFF) ++ '-' ::
      setw 12 draws.fifth))))

/-! ### The bits that show -/

/-- What is printed of the draws. -/
abbrev Fields := Fin (2 ^ 32) × Fin (2 ^ 16) × Fin (2 ^ 16) × Fin (2 ^ 16) × Fin (2 ^ 32)

def fields (draws : Draws) : Fields :=
  (draws.first.toFin, ⟨draws.second.toNat % 2 ^ 16, Nat.mod_lt _ (by decide)⟩,
    ⟨draws.third.toNat % 2 ^ 16, Nat.mod_lt _ (by decide)⟩,
    ⟨draws.fourth.toNat % 2 ^ 16, Nat.mod_lt _ (by decide)⟩, draws.fifth.toFin)

def print (x : Fields) : List Char :=
  numeral 16 8 x.1 ++ '-' :: (numeral 16 4 x.2.1 ++ '-' :: (numeral 16 4 x.2.2.1 ++ '-' ::
    (numeral 16 4 x.2.2.2.1 ++ '-' :: (['0', '0', '0', '0'] ++ numeral 16 8 x.2.2.2.2))))

theorem setw_mask (n : UInt32) : setw 4 (n &&& 0xFFFF) = numeral 16 4 (n.toNat % 2 ^ 16) := by
  have hmask : (n &&& 0xFFFF).toNat = n.toNat % 2 ^ 16 := by
    rw [UInt32.toNat_and]
    exact Nat.and_two_pow_sub_one_eq_mod n.toNat 16
  rw [setw, hmask, printPadded_eq (by decide) (by decide)]
  exact Nat.mod_lt _ (by decide)

theorem setw_eight (n : UInt32) : setw 8 n = numeral 16 8 n.toNat :=
  printPadded_eq (by decide) (by decide) n.toNat_lt

theorem setw_twelve (n : UInt32) : setw 12 n = ['0', '0', '0', '0'] ++ numeral 16 8 n.toNat := by
  have hfits : n.toNat < 16 ^ 8 := n.toNat_lt
  have hwide : n.toNat < 16 ^ 12 := hfits.trans (by decide)
  have hzeros := numeral_add hfits 4
  rw [setw, printPadded_eq (by decide) (by decide) hwide]
  exact hzeros

theorem generate_toList (draws : Draws) : (generate draws).toList = print (fields draws) := by
  rw [generate, String.toList_ofList, setw_eight, setw_mask, setw_mask, setw_mask, setw_twelve]
  rfl

theorem print_injective : Function.Injective print := by
  intro x y h
  obtain ⟨h1, h⟩ := List.append_inj h (by simp)
  obtain ⟨h2, h⟩ := List.append_inj (List.cons.inj h).2 (by simp)
  obtain ⟨h3, h⟩ := List.append_inj (List.cons.inj h).2 (by simp)
  obtain ⟨h4, h⟩ := List.append_inj (List.cons.inj h).2 (by simp)
  obtain ⟨-, h5⟩ := List.append_inj (List.cons.inj h).2 rfl
  have hsame : ∀ {width : ℕ} {m n : Fin (16 ^ width)},
      numeral 16 width m = numeral 16 width n → m = n := fun h =>
    Fin.ext (numeral_injective (le_refl 16) (Fin.isLt _) (Fin.isLt _) h)
  refine Prod.ext (hsame h1 : x.1 = y.1) (Prod.ext (hsame h2 : x.2.1 = y.2.1) ?_)
  refine Prod.ext (hsame h3 : x.2.2.1 = y.2.2.1) ?_
  exact Prod.ext (hsame h4 : x.2.2.2.1 = y.2.2.2.1) (hsame h5)

theorem generate_eq_iff {draws draws' : Draws} :
    generate draws = generate draws' ↔ fields draws = fields draws' := by
  rw [← String.toList_inj, generate_toList, generate_toList, print_injective.eq_iff]

theorem fields_surjective : Function.Surjective fields := by
  intro x
  have hsmall : ∀ n : Fin (2 ^ 16), (UInt32.ofNat n).toNat % 2 ^ 16 = n := by
    intro n
    have hn := n.isLt
    have hfits : (n : ℕ) < 2 ^ 32 := hn.trans (by decide)
    rw [UInt32.toNat_ofNat', Nat.mod_eq_of_lt hfits, Nat.mod_eq_of_lt hn]
  refine ⟨⟨⟨⟨x.1⟩⟩, .ofNat x.2.1, .ofNat x.2.2.1, .ofNat x.2.2.2.1, ⟨⟨x.2.2.2.2⟩⟩⟩, ?_⟩
  simp only [fields, hsmall]
  rfl

/-! ### The texts -/

/-- Eight, four, four, four and twelve hexadecimal digits in lower case, the last
twelve with four zeros in front. -/
def IsUuid (text : String) : Prop :=
  ∃ a b c d e, IsNumeral 16 8 a ∧ IsNumeral 16 4 b ∧ IsNumeral 16 4 c ∧ IsNumeral 16 4 d ∧
    IsNumeral 16 8 e ∧
    text.toList = a ++ '-' :: (b ++ '-' :: (c ++ '-' :: (d ++ '-' :: (['0', '0', '0', '0'] ++ e))))

theorem isUuid_iff {text : String} : IsUuid text ↔ ∃ x, print x = text.toList := by
  constructor
  · intro hh
    obtain ⟨a, b, c, d, e, ha, hb, hc, hd, he, htext⟩ := hh
    obtain ⟨k, hk, rfl⟩ := exists_numeral ha
    obtain ⟨l, hl, rfl⟩ := exists_numeral hb
    obtain ⟨m, hm, rfl⟩ := exists_numeral hc
    obtain ⟨n, hn, rfl⟩ := exists_numeral hd
    obtain ⟨o, ho, rfl⟩ := exists_numeral he
    exact ⟨(⟨k, hk⟩, ⟨l, hl⟩, ⟨m, hm⟩, ⟨n, hn⟩, ⟨o, ho⟩), htext.symm⟩
  · intro hh
    obtain ⟨x, hx⟩ := hh
    have hnum := numeral_isNumeral (b := 16) (by decide)
    exact ⟨_, _, _, _, _, hnum 8 _, hnum 4 _, hnum 4 _, hnum 4 _, hnum 8 _, hx.symm⟩

/-- The texts `generate` can return, which draws return the same one, and how many
there are: 112 bits' worth. -/
theorem generate_exactly :
    (∀ text, (∃ draws, generate draws = text) ↔ IsUuid text) ∧
      (∀ draws draws', generate draws = generate draws' ↔ fields draws = fields draws') ∧
      Nat.card (Set.range generate) = 2 ^ 112 := by
  refine ⟨fun text => ?_, fun _ _ => generate_eq_iff, ?_⟩
  · rw [isUuid_iff, fields_surjective.exists]
    simp only [← generate_toList, String.toList_inj]
  · have hrange : Set.range generate
        = Set.range fun x => String.ofList (print x) := by
      rw [← fields_surjective.range_comp]
      refine congrArg Set.range (funext fun draws => ?_)
      rw [Function.comp_apply, ← generate_toList, String.ofList_toList]
    have hinj : Function.Injective fun x => String.ofList (print x) := fun x y h =>
      print_injective (String.ofList_injective h)
    rw [hrange, Nat.card_range_of_injective hinj]
    simp [Fields]

end Uuid
end HeadsUp.Common
