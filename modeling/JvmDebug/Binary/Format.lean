/-!
Binary floating point formats. A finite magnitude is `significand * 2 ^ exponent`; the bits of
larger magnitudes are larger, so rounding may carry from the significand into the exponent field by
plain addition.
-/
namespace JvmDebug.Binary

/-- `precision` counts the bits of a full significand, `least` is the smallest exponent. The
exponent field has `fieldBits` bits. -/
structure Format where
  precision : Nat
  least : Int
  fieldBits : Nat
  deriving DecidableEq, Repr

def single : Format := ⟨24, -149, 8⟩
def double : Format := ⟨53, -1074, 11⟩

namespace Format
variable (f : Format)

def infinity : Nat := (Nat.pow 2 f.fieldBits - 1) * Nat.pow 2 (f.precision - 1)

def signBit : Nat := Nat.pow 2 (f.precision - 1 + f.fieldBits)

def isNegative (bits : Nat) : Bool := f.signBit ≤ bits

def magnitude (bits : Nat) : Nat := bits % f.signBit

def isNaN (bits : Nat) : Bool := f.infinity < f.magnitude bits

def isInfinite (bits : Nat) : Bool := f.magnitude bits == f.infinity

def decode (bits : Nat) : Nat × Int :=
  let unit := Nat.pow 2 (f.precision - 1)
  let field := f.magnitude bits / unit
  let fraction := f.magnitude bits % unit
  if field = 0 then (fraction, f.least) else (unit + fraction, f.least + (field - 1 : Nat))

/-- The quotient rounded to nearest, a half to the even neighbour. -/
def divideEven (a b : Nat) : Nat :=
  let q := a / b
  let r := a % b
  if 2 * r < b then q else if b < 2 * r then q + 1 else if q % 2 = 0 then q else q + 1

def nearest (num den : Nat) : Nat :=
  if num = 0 then 0
  else
    let guess : Int := (num.log2 : Int) - den.log2 - f.precision
    let scaled (q : Int) : Nat × Nat :=
      if 0 ≤ q then (num, den * Nat.pow 2 q.toNat) else (num * Nat.pow 2 (-q).toNat, den)
    let start := max f.least guess
    let (a, b) := scaled start
    let q := if Nat.pow 2 f.precision ≤ a / b then start + 1 else start
    let (a, b) := scaled q
    min f.infinity ((q - f.least).toNat * Nat.pow 2 (f.precision - 1) + divideEven a b)

def ofScaled (significand : Nat) (exponent : Int) : Nat :=
  if 0 ≤ exponent then f.nearest (significand * Nat.pow 2 exponent.toNat) 1
  else f.nearest significand (Nat.pow 2 (-exponent).toNat)

/-- The bits of the number nearest to `digits * 10 ^ exponent`. Exponents far outside the range of
the formats are cut off before any power is taken. -/
def ofDecimal (digits : Nat) (exponent : Int) : Nat :=
  if digits = 0 then 0
  else if 0 ≤ exponent then
    if 1200 < exponent then f.infinity else f.nearest (digits * Nat.pow 10 exponent.toNat) 1
  else if (digits.log2 : Int) + 3 * exponent < -1200 then 0
  else f.nearest digits (Nat.pow 10 (-exponent).toNat)

end Format

/-- A single precision number in double precision; every NaN becomes the same one. -/
def widen (bits : UInt32) : UInt64 :=
  let b := bits.toNat
  let sign := if single.isNegative b then double.signBit else 0
  if single.isNaN b then 0x7ff8000000000000
  else if single.isInfinite b then UInt64.ofNat (sign + double.infinity)
  else
    let (m, q) := single.decode b
    UInt64.ofNat (sign + double.ofScaled m q)

def remainder (f : Format) (a b : Nat) : Nat :=
  if f.isNaN a || f.isNaN b || f.isInfinite a || f.magnitude b == 0 then f.infinity + 1
  else if f.isInfinite b then a
  else
    let (m, p) := f.decode a
    let (n, q) := f.decode b
    let e := min p q
    let r := (m * Nat.pow 2 (p - e).toNat) % (n * Nat.pow 2 (q - e).toNat)
    (if f.isNegative a then f.signBit else 0) + f.ofScaled r e

end JvmDebug.Binary
