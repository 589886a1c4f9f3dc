import Mathlib

/-! JSON values as a program holds them after parsing: numbers are decimals, and a name stands at most
once in an object. -/
namespace Machinen

/-- `digits * 10 ^ exponent`, negated or not, without a zero at the end of the digits. -/
structure Number where
  negative : Bool
  digits : Nat
  exponent : Int
  reduced : digits % 10 ≠ 0 ∨ digits = 0 ∧ exponent = 0

namespace Number

def isInteger (n : Number) : Bool := decide (0 ≤ n.exponent)

def signed (n : Number) : Int := if n.negative then -(n.digits : Int) else n.digits

/-- The value of an integer. -/
def toInt (n : Number) : Int := n.signed * 10 ^ n.exponent.toNat

def atLeast (n : Number) (bound : Int) : Bool :=
  decide (bound * 10 ^ (-n.exponent).toNat ≤ n.signed * 10 ^ n.exponent.toNat)

def atMost (n : Number) (bound : Int) : Bool :=
  decide (n.signed * 10 ^ n.exponent.toNat ≤ bound * 10 ^ (-n.exponent).toNat)

def same (n m : Number) : Bool :=
  decide (n.signed = m.signed) && decide (n.exponent = m.exponent)

def one : Number := ⟨false, 1, 0, .inl (by decide)⟩

theorem atLeast_integer {n : Number} (whole : n.isInteger = true) (bound : Int) :
    n.atLeast bound = true ↔ bound ≤ n.toInt := by
  have inside : 0 ≤ n.exponent := by simpa [isInteger] using whole
  have none : (-n.exponent).toNat = 0 := by omega
  simp [atLeast, toInt, none]

end Number

inductive Json where
  | null
  | bool (b : Bool)
  | number (n : Number)
  | string (s : String)
  | array (items : List Json)
  | object (fields : List (String × Json))

namespace Json

def get : Json → String → Option Json
  | .object fields, name => fields.lookup name
  | _, _ => none

def entries : Json → List (String × Json)
  | .object fields => fields
  | _ => []

def elements : Json → List Json
  | .array items => items
  | _ => []

def string? : Json → Option String
  | .string s => some s
  | _ => none

mutual

/-- Equal as JSON: the order of an object's fields does not matter. -/
def same : Json → Json → Bool
  | .null, .null => true
  | .bool b, .bool c => b == c
  | .number n, .number m => n.same m
  | .string s, .string t => s == t
  | .array xs, .array ys => sameItems xs ys
  | .object fs, .object gs => fs.length == gs.length && sameFields fs gs
  | _, _ => false

def sameItems : List Json → List Json → Bool
  | [], [] => true
  | x :: xs, y :: ys => x.same y && sameItems xs ys
  | _, _ => false

def sameFields : List (String × Json) → List (String × Json) → Bool
  | [], _ => true
  | (name, x) :: fs, gs => gs.any (fun g => g.1 == name && x.same g.2) && sameFields fs gs

end

@[simp] theorem same_string (s : String) (v : Json) : (Json.string s).same v = (v.string? == some s) := by
  cases v with
  | string t => simpa [same, string?] using Bool.beq_comm (a := s) (b := t)
  | _ => simp [same, string?]

theorem string?_eq_some {v : Json} {s : String} : v.string? = some s ↔ v = .string s := by
  cases v <;> simp [string?]

end Json
end Machinen
