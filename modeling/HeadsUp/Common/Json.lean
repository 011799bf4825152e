import HeadsUp.Core.Card
import Mathlib.Data.Rat.Defs

/-!
# JSON values

What the program uses of `nlohmann::json`: a parsed value, `contains`, `at` and
the two conversions it asks for. Numbers keep the 64-bit form the parser stores.
-/

namespace HeadsUp.Common
open HeadsUp.Core

inductive Json where
  | null
  | boolean (b : Bool)
  | numberInteger (n : Int64)
  | numberUnsigned (n : UInt64)
  | numberFloat (q : ℚ)
  | string (s : String)
  | array (elements : List Json)
  | object (members : List (String × Json))

namespace Json

/-- False on anything but an object. -/
def contains (key : String) : Json → Bool
  | .object members => (members.lookup key).isSome
  | _ => false

/-- Throws when the key is missing. -/
def get (key : String) : Json → Except Exn Json
  | .object members =>
    match members.lookup key with
    | some j => .ok j
    | none => .error .json
  | _ => .error .json

def getString : Json → Except Exn String
  | .string s => .ok s
  | _ => .error .json

/-- `get<int>()`: a `static_cast` of the stored number or boolean. A double
outside the range of `int` converts to whatever the platform gives, `undef`. -/
def getInt (undef : Int32) : Json → Except Exn ℤ
  | .numberInteger n => .ok n.toInt32.toInt
  | .numberUnsigned n => .ok n.toUInt32.toInt32.toInt
  | .numberFloat q =>
    let truncated := q.num.tdiv q.den
    if -2 ^ 31 ≤ truncated ∧ truncated < 2 ^ 31 then .ok truncated else .ok undef.toInt
  | .boolean b => .ok (if b then 1 else 0)
  | _ => .error .json

/-- What a range-based `for` visits. -/
def elements : Json → List Json
  | .null => []
  | .array elements => elements
  | .object members => members.map Prod.snd
  | j => [j]

def ofInt (n : ℤ) : Json := .numberInteger (Int64.ofInt n)

def typed (type : String) (payload : Json) : Json :=
  .object [("type", .string type), ("payload", payload)]

theorem getInt_ofInt {n : ℤ} (hlo : -2 ^ 31 ≤ n) (hhi : n < 2 ^ 31) (undef : Int32) :
    (ofInt n).getInt undef = .ok n := by
  have h64 : (Int64.ofInt n).toInt = n := Int64.toInt_ofInt_of_le (by omega) (by omega)
  have h32 : n.bmod (2 ^ 32) = n := Int.bmod_eq_of_le (by omega) (by omega)
  rw [ofInt, getInt, Int64.toInt_toInt32, h64, h32]

theorem contains_of_get {key : String} {j v : Json} (h : j.get key = .ok v) :
    j.contains key = true := by
  cases j with
  | object members =>
    simp only [get] at h
    cases hl : members.lookup key with
    | none => simp [hl] at h
    | some w => simp [contains, hl]
  | _ => cases h

end Json
end HeadsUp.Common
