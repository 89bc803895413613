import JvmDebug.Binary.Format
import JvmDebug.Grammar.Scanner
import JvmDebug.Text.CharClass

/-!
Numbers in decimal digits, each the whole of a text.
-/
namespace JvmDebug.Text
open Grammar (digitsValue)

/-- Whether there is a minus, and what follows the sign if there is one. -/
def splitSign : List Char → Bool × List Char
  | '-' :: r => (true, r)
  | '+' :: r => (false, r)
  | r => (false, r)

def digits? (s : List Char) : Option Nat :=
  if s.isEmpty ∨ ¬ s.all Char.isDigit then none else some (digitsValue s)

/-- The whole number that a text stands for; a plus may stand before the digits. -/
def number? (s : List Char) : Option Nat :=
  digits? (match s with
    | '+' :: r => r
    | r => r)

def integer? (s : List Char) : Option Int :=
  let (negative, r) := splitSign s
  (digits? r).map fun n => if negative then -(n : Int) else n

/-- The bits of the double nearest to a number with an optional sign, fraction and exponent; digits
may be missing on one side of the point. Words stand for what is not finite. -/
def double? (s : List Char) : Option UInt64 :=
  let (negative, r) := splitSign s
  let word := lowerAscii (String.ofList r)
  let magnitude : Option Nat :=
    if word = "inf" ∨ word = "infinity" then some Binary.double.infinity
    else if word = "nan" then some (Binary.double.infinity + 1)
    else
      let whole := r.takeWhile Char.isDigit
      let (fraction, r) := match r.drop whole.length with
        | '.' :: r => (r.takeWhile Char.isDigit, r.dropWhile Char.isDigit)
        | r => ([], r)
      let exponent : Option Int := match r with
        | [] => some 0
        | c :: r => if c = 'e' ∨ c = 'E' then integer? r else none
      if whole.isEmpty ∧ fraction.isEmpty then none
      else exponent.map fun e =>
        Binary.double.ofDecimal (digitsValue (whole ++ fraction)) (e - fraction.length)
  magnitude.map fun bits => UInt64.ofNat (if negative then Binary.double.signBit + bits else bits)

end JvmDebug.Text
