import JvmDebug.Binary.Format

/-!
The shortest decimal that reads back as a given double, and its text. Among the decimals with the
fewest digits inside the interval of reals that round to the number, the nearest is taken.
-/
namespace JvmDebug.Binary

structure Fraction where
  num : Nat
  den : Nat

namespace Fraction

def scale (m : Nat) (e : Int) : Fraction :=
  if 0 ≤ e then ⟨m * Nat.pow 2 e.toNat, 1⟩ else ⟨m, Nat.pow 2 (-e).toNat⟩

def ofDecimal (d : Nat) (k : Int) : Fraction :=
  if 0 ≤ k then ⟨d * Nat.pow 10 k.toNat, 1⟩ else ⟨d, Nat.pow 10 (-k).toNat⟩

def lt (a b : Fraction) : Bool := a.num * b.den < b.num * a.den

def le (a b : Fraction) : Bool := a.num * b.den ≤ b.num * a.den

def sub (a b : Fraction) : Fraction := ⟨a.num * b.den - b.num * a.den, a.den * b.den⟩

def floorAt (a : Fraction) (k : Int) : Nat :=
  if 0 ≤ k then a.num / (a.den * Nat.pow 10 k.toNat) else a.num * Nat.pow 10 (-k).toNat / a.den

end Fraction

/-- The reals that round to a number, the ends included if `closed`. -/
structure Interval where
  low : Fraction
  high : Fraction
  closed : Bool

namespace Interval

/-- Half way to the neighbours; the lower one of a power of two is half as far. -/
def around (f : Format) (m : Nat) (e : Int) : Interval :=
  let narrow := m = Nat.pow 2 (f.precision - 1) ∧ f.least < e
  { low := if narrow then .scale (4 * m - 1) (e - 2) else .scale (2 * m - 1) (e - 1)
    high := .scale (2 * m + 1) (e - 1)
    closed := m % 2 = 0 }

def contains (i : Interval) (a : Fraction) : Bool :=
  if i.closed then i.low.le a && a.le i.high else i.low.lt a && a.lt i.high

end Interval

def leadingExponent (a : Fraction) : Int :=
  let guess : Int := ((a.num.log2 : Int) - a.den.log2) * 30103 / 100000
  let fits (k : Int) : Bool := 0 < a.floorAt k
  if fits (guess + 1) then guess + 1 else if fits guess then guess
  else if fits (guess - 1) then guess - 1 else guess - 2

/-- The nearest of the two neighbours of `a` among the multiples of `10 ^ k` that lies in `i`, the
larger one of two that are equally near. -/
def candidate? (i : Interval) (a : Fraction) (k : Int) : Option Nat :=
  let d := a.floorAt k
  let below := Fraction.ofDecimal d k
  let above := Fraction.ofDecimal (d + 1) k
  match d != 0 && i.contains below, i.contains above with
  | true, true => some (if (above.sub a).le (a.sub below) then d + 1 else d)
  | true, false => some d
  | false, true => some (d + 1)
  | false, false => none

/-- Digits `d` and exponent `k` of the shortest decimal `d * 10 ^ k` for the positive double
`m * 2 ^ e`. Seventeen digits always suffice. -/
def shortest (m : Nat) (e : Int) : Nat × Int :=
  let a := Fraction.scale m e
  let i := Interval.around double m e
  let lead := leadingExponent a
  match (List.range 17).findSome? fun (n : Nat) =>
      (candidate? i a (lead - n)).map fun d => (d, lead - n) with
  | some r => r
  | none => (a.floorAt (lead - 16), lead - 16)

/-- The decimal without exponent, its zeros at the end of the fraction dropped. -/
def positional (d : Nat) (k : Int) : String :=
  let digits := d.repr.toList
  if 0 ≤ k then String.ofList (digits ++ List.replicate k.toNat '0')
  else
    let places := (-k).toNat
    let padded := List.replicate (places + 1 - digits.length) '0' ++ digits
    let whole := padded.take (padded.length - places)
    let fraction := (padded.drop (padded.length - places)).reverse.dropWhile (· == '0') |>.reverse
    String.ofList (if fraction.isEmpty then whole else whole ++ '.' :: fraction)

def text (bits : UInt64) : String :=
  let b := bits.toNat
  let sign := if double.isNegative b then "-" else ""
  if double.isNaN b then "NaN"
  else if double.isInfinite b then sign ++ "Infinity"
  else
    let (m, e) := double.decode b
    let a := Fraction.scale m e
    if m = 0 then sign ++ "0.0"
    else if a.num % a.den = 0 ∧ a.num / a.den < 10000000 then
      sign ++ (a.num / a.den).repr ++ ".0"
    else
      let (d, k) := shortest m e
      sign ++ positional d k

def plainText (bits : UInt64) : String :=
  let b := bits.toNat
  let sign := if double.isNegative b then "-" else ""
  if double.isNaN b then "NaN"
  else if double.isInfinite b then sign ++ "inf"
  else
    let (m, e) := double.decode b
    let (d, k) := if m = 0 then (0, 0) else shortest m e
    sign ++ positional d k

end JvmDebug.Binary
