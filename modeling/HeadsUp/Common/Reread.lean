import HeadsUp.Common.Json
import Mathlib.Data.List.Forall2

/-!
# Values that have been sent

The library stores an integer it parses as unsigned unless it is negative, and
the members of an object in an order of its own, so a message that has been
written and read again is not the value that was written. It reads the same.
-/

namespace HeadsUp.Common
open HeadsUp.Core

namespace Json

/-- What `parse` may make of what `dump` writes. -/
inductive Reread : Json → Json → Prop
  | null : Reread .null .null
  | boolean (b : Bool) : Reread (.boolean b) (.boolean b)
  | negative {n : Int64} (h : n < 0) : Reread (.numberInteger n) (.numberInteger n)
  | nonneg {n : Int64} (h : 0 ≤ n) : Reread (.numberInteger n) (.numberUnsigned n.toUInt64)
  | unsigned (n : UInt64) : Reread (.numberUnsigned n) (.numberUnsigned n)
  | float (q : ℚ) : Reread (.numberFloat q) (.numberFloat q)
  | string (s : String) : Reread (.string s) (.string s)
  | array {elements elements' : List Json} (h : List.Forall₂ Reread elements elements') :
      Reread (.array elements) (.array elements')
  | object {members members' : List (String × Json)}
      (h : ∀ key, Option.Rel Reread (members.lookup key) (members'.lookup key)) :
      Reread (.object members) (.object members')

theorem toInt32_toUInt64 (n : Int64) : n.toUInt64.toUInt32.toInt32 = n.toInt32 := by
  rw [← Int32.toBitVec_inj, UInt32.toBitVec_toInt32, UInt64.toBitVec_toUInt32,
    Int64.toBitVec_toInt32, Int64.toBitVec_toUInt64,
    BitVec.signExtend_eq_setWidth_of_le _ (by decide)]

namespace Reread
variable {j j' : Json} (h : Reread j j')
include h

theorem contains (key : String) : j'.contains key = j.contains key := by
  cases h with
  | @object members members' h =>
    have hkey := h key
    simp only [Json.contains]
    generalize members.lookup key = v, members'.lookup key = v' at hkey ⊢
    cases hkey <;> rfl
  | _ => rfl

theorem get (key : String) :
    (∃ v v', j.get key = .ok v ∧ j'.get key = .ok v' ∧ Reread v v') ∨
      ∃ e, j.get key = .error e ∧ j'.get key = .error e := by
  cases h with
  | @object members members' h =>
    have hkey := h key
    simp only [Json.get]
    generalize members.lookup key = v, members'.lookup key = v' at hkey ⊢
    cases hkey with
    | none => exact .inr ⟨.json, rfl, rfl⟩
    | some hv => exact .inl ⟨_, _, rfl, rfl, hv⟩
  | _ => exact .inr ⟨.json, rfl, rfl⟩

/-- What reads a member in the same way reads the same. -/
theorem bind_get {β : Type*} {f : Json → Except Exn β} (hf : ∀ v v', Reread v v' → f v' = f v)
    (key : String) : (j'.get key).bind f = (j.get key).bind f := by
  rcases h.get key with ⟨v, v', hv, hv', hread⟩ | ⟨e, he, he'⟩
  · rw [hv, hv']
    exact hf v v' hread
  · rw [he, he']

theorem getString : j'.getString = j.getString := by
  cases h <;> rfl

/-- The bits are the same. -/
theorem getInt (undef : Int32) : j'.getInt undef = j.getInt undef := by
  cases h with
  | @nonneg n h => rw [Json.getInt, Json.getInt, toInt32_toUInt64]
  | _ => rfl

/-- A loop visits the members of an object in the order they come in. -/
theorem elements (hnot : ∀ members, j ≠ .object members) :
    List.Forall₂ Reread j.elements j'.elements := by
  cases h with
  | null => exact .nil
  | array h => exact h
  | object => exact absurd rfl (hnot _)
  | boolean b => exact .cons (.boolean b) .nil
  | negative h => exact .cons (.negative h) .nil
  | nonneg h => exact .cons (.nonneg h) .nil
  | unsigned n => exact .cons (.unsigned n) .nil
  | float q => exact .cons (.float q) .nil
  | string s => exact .cons (.string s) .nil

end Reread
end Json
end HeadsUp.Common
