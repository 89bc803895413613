import JvmDebug.Binary.Format
import JvmDebug.Text.Decimal
import JvmDebug.Toml

/-!
Strings, numbers and dates. Each reader takes the remaining characters and returns what it read
with the characters after it, or nothing if the text is malformed.
-/
namespace JvmDebug.Toml
open Text

def isSpace (c : Char) : Bool := c == ' ' || c == '\t'

/-- Control characters other than the tab may stand nowhere in a text. -/
def isPlain (c : Char) : Bool := c == '\t' || (0x20 ≤ c.toNat && c.toNat != 0x7f)

def afterNewline? : List Char → Option (List Char)
  | '\n' :: r => some r
  | '\r' :: '\n' :: r => some r
  | _ => none

/-! ## Strings -/

def codePoint (count : Nat) (s : List Char) : Option (Char × List Char) :=
  let digits := s.take count
  let n := Grammar.hexValue digits
  if digits.length = count ∧ digits.all isHexDigit ∧ n.isValidChar then
    some (Char.ofNat n, s.drop count)
  else none

def escape : List Char → Option (Char × List Char)
  | 'b' :: r => some ('\x08', r)
  | 't' :: r => some ('\t', r)
  | 'n' :: r => some ('\n', r)
  | 'f' :: r => some ('\x0c', r)
  | 'r' :: r => some ('\r', r)
  | '"' :: r => some ('"', r)
  | '\\' :: r => some ('\\', r)
  | 'u' :: r => codePoint 4 r
  | 'U' :: r => codePoint 8 r
  | _ => none

/-- The inside of a string with escapes, up to its closing quote. Every turn takes a character, so
the length of the text is fuel enough. -/
def quoted : (fuel : Nat) → List Char → Option (List Char × List Char)
  | 0, _ => none
  | fuel + 1, s =>
    match s with
    | [] => none
    | '"' :: r => some ([], r)
    | '\\' :: r => do
      let (c, r) ← escape r
      let (text, r) ← quoted fuel r
      return (c :: text, r)
    | c :: r => do
      guard (isPlain c)
      let (text, r) ← quoted fuel r
      return (c :: text, r)

/-- The inside of a string without escapes, up to its closing apostrophe. -/
def verbatim (s : List Char) : Option (List Char × List Char) :=
  let inside (c : Char) : Bool := isPlain c && c != '\''
  match s.dropWhile inside with
  | '\'' :: r => some (s.takeWhile inside, r)
  | _ => none

def skipBlankLines : List Char → List Char
  | '\n' :: r => skipBlankLines r
  | '\r' :: '\n' :: r => skipBlankLines r
  | c :: r => if isSpace c then skipBlankLines r else c :: r
  | [] => []

def afterContinuation? (s : List Char) : Option (List Char) :=
  (afterNewline? (s.dropWhile isSpace)).map skipBlankLines

/-- The inside of a string of several lines, up to three quotes `q`. Up to two more quotes may stand
before those; fewer than three belong to the text. Line ends become line feeds. -/
def lines (q : Char) (escapes : Bool) : (fuel : Nat) → List Char → Option (List Char × List Char)
  | 0, _ => none
  | fuel + 1, s =>
    match s with
    | [] => none
    | c :: r =>
      if c = q then
        let count := (s.takeWhile (· = q)).length
        let kept := if count < 3 then count else min 2 (count - 3)
        let text := List.replicate kept q
        if count < 3 then do
          let (more, r) ← lines q escapes fuel (s.drop count)
          return (text ++ more, r)
        else some (text, s.drop (kept + 3))
      else if c = '\\' ∧ escapes then
        match afterContinuation? r with
        | some r => lines q escapes fuel r
        | none => do
          let (c, r) ← escape r
          let (more, r) ← lines q escapes fuel r
          return (c :: more, r)
      else
        match afterNewline? s with
        | some r => (lines q escapes fuel r).map fun (more, r) => ('\n' :: more, r)
        | none => do
          guard (isPlain c)
          let (more, r) ← lines q escapes fuel r
          return (c :: more, r)

/-- A string of any of the four kinds. A line end right after three opening quotes is dropped. -/
def string (s : List Char) : Option (String × List Char) :=
  let body (q : Char) (escapes : Bool) (r : List Char) : Option (List Char × List Char) :=
    let r := (afterNewline? r).getD r
    lines q escapes (r.length + 1) r
  (match s with
    | '"' :: '"' :: '"' :: r => body '"' true r
    | '\'' :: '\'' :: '\'' :: r => body '\'' false r
    | '"' :: r => quoted (r.length + 1) r
    | '\'' :: r => verbatim r
    | _ => none).map fun (text, r) => (String.ofList text, r)

/-! ## Numbers -/

def moreDigits (p : Char → Bool) : List Char → Option (List Char × List Char)
  | '_' :: c :: r => if p c then (moreDigits p r).map fun (ds, r) => (c :: ds, r) else none
  | '_' :: [] => none
  | c :: r =>
    if p c then (moreDigits p r).map fun (ds, r) => (c :: ds, r) else some ([], c :: r)
  | [] => some ([], [])

def digits (p : Char → Bool) : List Char → Option (List Char × List Char)
  | c :: r => if p c then (moreDigits p r).map fun (ds, r) => (c :: ds, r) else none
  | [] => none

def whole (s : List Char) : Option (List Char × List Char) :=
  match s with
  | '0' :: r => some (['0'], r)
  | _ => digits Char.isDigit s

def exponent? : List Char → Option (Option (Int × List Char))
  | c :: r =>
    if c = 'e' ∨ c = 'E' then
      let (negative, r) := splitSign r
      some ((digits Char.isDigit r).map fun (ds, r) =>
        let n : Int := Grammar.digitsValue ds
        (if negative then -n else n, r))
    else none
  | [] => none

/-- A number with a fraction, an exponent or both, or one that is not finite. It may be too small
but not too large. -/
def float (s : List Char) : Option (Item × List Char) := do
  let (negative, r) := splitSign s
  let signed (bits : Nat) : Item :=
    .float (UInt64.ofNat (if negative then Binary.double.signBit + bits else bits))
  match r with
  | 'i' :: 'n' :: 'f' :: r => return (signed Binary.double.infinity, r)
  | 'n' :: 'a' :: 'n' :: r => return (signed (Binary.double.infinity + 1), r)
  | _ =>
    let (intPart, r) ← whole r
    let (fraction, r, isFloat) ← match r with
      | '.' :: r => (digits Char.isDigit r).map fun (ds, r) => (ds, r, true)
      | _ => some ([], r, false)
    let (e, r) ← match exponent? r with
      | some read => read
      | none => if isFloat then some (0, r) else none
    let bits := Binary.double.ofDecimal (Grammar.digitsValue (intPart ++ fraction))
      (e - fraction.length)
    guard (negative ∨ bits < Binary.double.infinity)
    return (signed bits, r)

/-- A whole number of 64 bits: decimal with an optional sign, or hexadecimal, octal or binary
without one. -/
def integer (s : List Char) : Option (Item × List Char) := do
  let based (base : Nat) (p : Char → Bool) (r : List Char) : Option (Item × List Char) := do
    let (ds, r) ← digits p r
    let n := ds.foldl (fun n c => n * base + hexDigitValue c) 0
    guard (n < Nat.pow 2 63)
    return (.integer n, r)
  match s with
  | '0' :: 'x' :: r => based 16 isHexDigit r
  | '0' :: 'o' :: r => based 8 (fun c => '0' ≤ c && c ≤ '7') r
  | '0' :: 'b' :: r => based 2 (fun c => c == '0' || c == '1') r
  | _ =>
    let (negative, r) := splitSign s
    let (ds, r) ← whole r
    let n : Int := Grammar.digitsValue ds
    let n := if negative then -n else n
    guard (Int64.minValue.toInt ≤ n ∧ n ≤ Int64.maxValue.toInt)
    return (.integer n, r)

/-! ## Dates and times -/

def field (count low high : Nat) (s : List Char) : Option (Nat × List Char) :=
  let ds := s.take count
  let n := Grammar.digitsValue ds
  if ds.length = count ∧ ds.all Char.isDigit ∧ low ≤ n ∧ n ≤ high then some (n, s.drop count)
  else none

def daysIn (year month : Nat) : Nat :=
  if month = 2 then
    if year % 4 = 0 ∧ (year % 100 ≠ 0 ∨ year % 400 = 0) then 29 else 28
  else if month = 4 ∨ month = 6 ∨ month = 9 ∨ month = 11 then 30 else 31

def day? (s : List Char) : Option (List Char) := do
  let (year, r) ← field 4 0 9999 s
  let (month, r) ← field 2 1 12 (← afterPrefix? ['-'] r)
  let (_, r) ← field 2 1 (daysIn year month) (← afterPrefix? ['-'] r)
  return r

/-- Past a time of day, which may hold a leap second and a fraction of a second. -/
def time? (s : List Char) : Option (List Char) := do
  let (_, r) ← field 2 0 23 s
  let (_, r) ← field 2 0 59 (← afterPrefix? [':'] r)
  let (_, r) ← field 2 0 60 (← afterPrefix? [':'] r)
  match r with
  | '.' :: d :: r => if d.isDigit then return r.dropWhile Char.isDigit else none
  | _ => return r

def afterOffset? : List Char → Option (List Char)
  | [] => some []
  | c :: r =>
    if c = 'Z' ∨ c = 'z' then some r
    else if c = '+' ∨ c = '-' then do
      let (_, r) ← field 2 0 23 r
      let (_, r) ← field 2 0 59 (← afterPrefix? [':'] r)
      return r
    else some (c :: r)

/-- A day, a time, or both with or without a distance from universal time. -/
def date (s : List Char) : Option (Item × List Char) := do
  let taken (r : List Char) : Item × List Char :=
    (.date (String.ofList (s.take (s.length - r.length))), r)
  match day? s with
  | none => return taken (← time? s)
  | some r =>
    match r with
    | c :: t =>
      if c = 'T' ∨ c = 't' ∨ c = ' ' then
        match time? t with
        | some r => return taken (← afterOffset? r)
        | none => return taken r
      else return taken r
    | [] => return taken r

def scalar (s : List Char) : Option (Item × List Char) :=
  match s with
  | '"' :: _ | '\'' :: _ => (string s).map fun (t, r) => (.string t, r)
  | 't' :: 'r' :: 'u' :: 'e' :: r => some (.boolean true, r)
  | 'f' :: 'a' :: 'l' :: 's' :: 'e' :: r => some (.boolean false, r)
  | _ => date s <|> float s <|> integer s

end JvmDebug.Toml
