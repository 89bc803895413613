/-!
JSON values. A number is a mantissa with a count of decimal places; the fields of an object are
kept in the order in which they were written.
-/
namespace JvmDebug

inductive Json
  | null
  | bool (b : Bool)
  | number (mantissa : Int) (places : Nat)
  | string (s : String)
  | array (items : List Json)
  | object (fields : List (String × Json))
  deriving Repr, Inhabited

namespace Json

def ofNat (n : Nat) : Json := number n 0

def ofInt (n : Int) : Json := number n 0

def ofOption {α : Type} (f : α → Json) : Option α → Json
  | some a => f a
  | none => null

def ofList {α : Type} (f : α → Json) (l : List α) : Json := array (l.map f)

def lookup (name : String) (fields : List (String × Json)) : Option Json :=
  (fields.find? fun p => p.1 == name).map Prod.snd

def string? : Json → Option String
  | string s => some s
  | _ => none

def bool? : Json → Option Bool
  | bool b => some b
  | _ => none

def intIn? (low high : Int) : Json → Option Int
  | number n 0 => if low ≤ n ∧ n < high then some n else none
  | _ => none

def natBelow? (bound : Nat) (j : Json) : Option Nat := (j.intIn? 0 bound).map Int.toNat

/-- Absence and `null` both stand for nothing; anything else must be readable. -/
def optional {α : Type} (read : Json → Option α) : Option Json → Option (Option α)
  | none | some null => some none
  | some j => (read j).map some

end Json

end JvmDebug
