import JvmDebug.Binary.Shortest
import JvmDebug.Text.Affix
import JvmDebug.Text.Decimal

/-!
What a filter asks of a field of a span: that it is there, or what it must be. A value written as a
truth value or a number stands for that; any other is a pattern.
-/
namespace JvmDebug
open Text

inductive FieldValue
  | truth (b : Bool)
  | float (bits : UInt64)
  | natural (n : Nat)
  | integer (n : Int)
  | notANumber
  | pattern (text : String)
  deriving DecidableEq, Repr, Inhabited

namespace FieldValue

/-- Whole numbers have 64 bits; those beyond are taken for floats. -/
def parse (s : List Char) : FieldValue :=
  if s = ['t', 'r', 'u', 'e'] then .truth true
  else if s = ['f', 'a', 'l', 's', 'e'] then .truth false
  else
    match (number? s).filter (· < UInt64.size),
      (integer? s).filter (fun n => Int64.minValue.toInt ≤ n ∧ n ≤ Int64.maxValue.toInt),
      double? s with
    | some n, _, _ => .natural n
    | none, some n, _ => .integer n
    | none, none, some bits => if Binary.double.isNaN bits.toNat then .notANumber else .float bits
    | none, none, none => .pattern (String.ofList s)

def text : FieldValue → String
  | truth b => if b then "true" else "false"
  | float bits => Binary.plainText bits
  | natural n => n.repr
  | integer n => toString n
  | notANumber => "NaN"
  | pattern text => text

/-- A position in the order of values: the kind, then the number, then the text. -/
def rank : FieldValue → Nat × Int × String
  | truth b => (0, if b then 1 else 0, "")
  | float bits =>
    let size : Int := Binary.double.magnitude bits.toNat
    (1, if Binary.double.isNegative bits.toNat then -size else size, "")
  | notANumber => (2, 0, "")
  | natural n => (3, n, "")
  | integer n => (4, n, "")
  | pattern text => (5, 0, text)

def compare (a b : FieldValue) : Ordering :=
  let (kind, number, text) := a.rank
  let (kind', number', text') := b.rank
  (Ord.compare kind kind').then ((Ord.compare number number').then (Ord.compare text text'))

end FieldValue

structure FieldMatch where
  name : String
  value : Option FieldValue
  deriving DecidableEq, Repr, Inhabited

namespace FieldMatch

/-- A field as it is written: what follows a second `=` is dropped. -/
def parse (s : List Char) : FieldMatch :=
  match pieces '=' s with
  | name :: value :: _ => ⟨String.ofList name, some (FieldValue.parse value)⟩
  | name => ⟨String.ofList name.flatten, none⟩

def text (f : FieldMatch) : String :=
  match f.value with
  | some value => f.name ++ "=" ++ value.text
  | none => f.name

/-- Fields that ask for a value come after those that do not; then the names count. -/
def compare (a b : FieldMatch) : Ordering :=
  (Ord.compare a.value.isSome b.value.isSome).then <| (Ord.compare a.name b.name).then <|
    match a.value, b.value with
    | some v, some w => v.compare w
    | _, _ => .eq

end FieldMatch

end JvmDebug
