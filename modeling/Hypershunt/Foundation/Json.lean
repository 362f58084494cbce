import Mathlib.Algebra.Order.Ring.Int
import Mathlib.Data.List.Basic

/-!
# JSON values

Parsed JSON as a consumer of it sees it: accessors that answer only for the right kind of value,
after `serde_json::Value`. Numbers that are not integers are kept as their text; nothing here
computes with them.
-/

namespace Hypershunt

/-- The values of a signed 64-bit integer. -/
def inI64 (n : ℤ) : Bool := decide (-2 ^ 63 ≤ n ∧ n < 2 ^ 63)

/-- Arithmetic on signed 64-bit integers wraps around. -/
def wrapI64 (n : ℤ) : ℤ := n.bmod (2 ^ 64)

theorem wrapI64_spec (n : ℤ) :
    ∃ k, wrapI64 n = n - 2 ^ 64 * k ∧ -2 ^ 63 ≤ wrapI64 n ∧ wrapI64 n < 2 ^ 63 := by
  refine ⟨n.bdiv (2 ^ 64), ?_, ?_, ?_⟩
  · exact Int.bmod_eq_self_sub_mul_bdiv n (2 ^ 64)
  · exact Int.le_bmod (by decide)
  · exact Int.bmod_lt (by decide)

inductive Json
  | null
  | bool (b : Bool)
  | int (n : ℤ)
  | float (text : String)
  | string (s : String)
  | array (items : List Json)
  | object (fields : List (String × Json))

namespace Json

/-- The member of an object; nothing for any other value. -/
def get (v : Json) (key : String) : Option Json :=
  match v with
  | .object fields => fields.lookup key
  | _ => none

def asStr : Json → Option String
  | .string s => some s
  | _ => none

def asI64 : Json → Option ℤ
  | .int n => if inI64 n then some n else none
  | _ => none

def asU64 : Json → Option ℕ
  | .int n => if 0 ≤ n ∧ n < 2 ^ 64 then some n.toNat else none
  | _ => none

def asArray : Json → Option (List Json)
  | .array items => some items
  | _ => none

def asObject : Json → Option (List (String × Json))
  | .object fields => some fields
  | _ => none

end Json

end Hypershunt
