import JvmDebug.Binary.Format
import JvmDebug.Expr
import JvmDebug.Text.Affix
import JvmDebug.Text.CharClass

/-!
The words of an expression: names, type names and literals. Each reader takes the remaining
characters and returns what it read with the characters after it. A fault names the number of
characters that remain where it was found, so it does not depend on what was read before.
-/
namespace JvmDebug.Grammar
open Text

inductive FaultKind
  | unexpectedChar (c : Char)
  | expected (c : Char) (found : Option Char)
  | expectedExpression (found : Option Char)
  | expectedAfterNew (typeName : String)
  | expectedIdentifier
  | unterminatedString
  | unterminatedChar
  | unterminatedEscape
  | emptyChar
  | wideChar (c : Char)
  | invalidInt (text : String)
  | invalidLong (text : String)
  | invalidNumber (text : String)
  | malformedExponent
  deriving DecidableEq, Repr

structure Fault where
  kind : FaultKind
  remaining : Nat
  deriving DecidableEq, Repr

def quoted (c : Char) : String := String.ofList ['\'', c, '\'']

def foundText : Option Char → String
  | some c => quoted c
  | none => "end of input"

def FaultKind.message : FaultKind → String
  | unexpectedChar c => "Unexpected character: " ++ quoted c
  | expected c found => "Expected " ++ quoted c ++ ", got " ++ foundText found
  | expectedExpression found => "Expected expression, got " ++ foundText found
  | expectedAfterNew t => "Expected '(' or '[' after new " ++ t
  | expectedIdentifier => "Expected identifier"
  | unterminatedString => "Unterminated string literal"
  | unterminatedChar => "Unterminated character literal"
  | unterminatedEscape => "Unterminated escape sequence"
  | emptyChar => "Empty character literal"
  | wideChar c => "Character literal " ++ quoted c ++ " does not fit in a char"
  | invalidInt t => "Invalid int literal: " ++ t
  | invalidLong t => "Invalid long literal: " ++ t
  | invalidNumber t => "Invalid number literal: " ++ t
  | malformedExponent => "Malformed exponent"

abbrev Rest := List Char

abbrev Read (α : Type) := Except Fault (α × Rest)

def fail {α : Type} (kind : FaultKind) (at_ : Rest) : Except Fault α :=
  .error ⟨kind, at_.length⟩

def isNameStart (c : Char) : Bool := isLetter c || c == '_' || c == '$'

def isNamePart (c : Char) : Bool := isLetter c || isNumber c || c == '_' || c == '$'

def startsWith (p : Char → Bool) (s : Rest) : Bool :=
  match s with
  | c :: _ => p c
  | [] => false

def eat? (token : String) (s : Rest) : Option Rest := afterPrefix? token.toList (skipBlanks s)

def eatOperator? (token : String) (s : Rest) : Option Rest :=
  (eat? token s).filter fun r => !startsWith (· == '=') r

def eatWord? (word : String) (s : Rest) : Option Rest :=
  (eat? word s).filter fun r => !startsWith isNamePart r

def expect (c : Char) (s : Rest) : Except Fault Rest :=
  match skipBlanks s with
  | d :: r => if d = c then .ok r else fail (.expected c (some d)) (d :: r)
  | [] => fail (.expected c none) []

def readName (s : Rest) : Read String :=
  match skipBlanks s with
  | c :: r =>
    if isNameStart c then
      .ok (String.ofList (c :: r.takeWhile isNamePart), r.dropWhile isNamePart)
    else fail .expectedIdentifier (c :: r)
  | [] => fail .expectedIdentifier []

def readQualifiers (s : Rest) : List Char × Rest :=
  match _h : skipBlanks s with
  | '.' :: r =>
    match _h' : skipBlanks r with
    | c :: t =>
      if isNameStart c then
        let (names, rest) := readQualifiers (t.dropWhile isNamePart)
        ('.' :: c :: t.takeWhile isNamePart ++ names, rest)
      else ([], s)
    | [] => ([], s)
  | _ => ([], s)
termination_by s.length
decreasing_by
  have h₁ := skipBlanks_length_le s
  have h₂ := skipBlanks_length_le r
  have h₃ := (List.dropWhile_sublist isNamePart (l := t)).length_le
  simp only [_h, _h', List.length_cons] at h₁ h₂
  omega

def readDimensions (s : Rest) : List Char × Rest :=
  match _h : skipBlanks s with
  | '[' :: r =>
    match _h' : skipBlanks r with
    | ']' :: t =>
      let (pairs, rest) := readDimensions t
      ('[' :: ']' :: pairs, rest)
    | _ => ([], s)
  | _ => ([], s)
termination_by s.length
decreasing_by
  have h₁ := skipBlanks_length_le s
  have h₂ := skipBlanks_length_le r
  simp only [_h, _h', List.length_cons] at h₁ h₂
  omega

def readTypeName (s : Rest) : Read String :=
  match readName s with
  | .error f => .error f
  | .ok (first, r) =>
    let (names, r) := readQualifiers r
    let (pairs, r) := readDimensions r
    .ok (String.ofList (first.toList ++ names ++ pairs), r)

def unescape : Char → Char
  | 'n' => '\n'
  | 't' => '\t'
  | 'r' => '\r'
  | '0' => '\x00'
  | c => c

def readStringBody (start : Rest) : Rest → Read (List Char)
  | [] => fail .unterminatedString start
  | '"' :: r => .ok ([], r)
  | '\\' :: c :: r => (readStringBody start r).map fun (t, s) => (unescape c :: t, s)
  | ['\\'] => fail .unterminatedEscape start
  | c :: r => (readStringBody start r).map fun (t, s) => (c :: t, s)

def closeChar (start : Rest) (c : Char) : Rest → Read UInt16
  | '\'' :: r =>
    if c.toNat < 0x10000 then .ok (c.toNat.toUInt16, r) else fail (.wideChar c) start
  | _ => fail .unterminatedChar start

def readCharBody (start : Rest) : Rest → Read UInt16
  | [] => fail .unterminatedChar start
  | '\\' :: c :: r => closeChar start (unescape c) r
  | ['\\'] => fail .unterminatedEscape start
  | '\'' :: r => fail .emptyChar r
  | c :: r => closeChar start c r

def digitsValue (digits : List Char) : Nat := digits.foldl (fun n c => 10 * n + (c.toNat - 48)) 0

def hexValue (digits : List Char) : Nat := digits.foldl (fun n c => 16 * n + hexDigitValue c) 0

def endNumber (text : String) (l : Literal) (s : Rest) : Read Literal :=
  if startsWith isNamePart s then fail (.invalidNumber text) s else .ok (l, s)

def isLongSuffix (c : Char) : Bool := c == 'l' || c == 'L'

/-- A hexadecimal literal gives the bits of its type; `s` stands after `0x`, `start` before it. -/
def readHex (start s : Rest) : Read Literal :=
  let digits := s.takeWhile isHexDigit
  let r := s.dropWhile isHexDigit
  let text := "0x" ++ String.ofList digits
  if startsWith isLongSuffix r then
    if digits.isEmpty || UInt64.size ≤ hexValue digits then fail (.invalidLong text) start
    else endNumber text (.long (Int64.ofNat (hexValue digits))) (r.drop 1)
  else if digits.isEmpty || UInt32.size ≤ hexValue digits then fail (.invalidInt text) start
  else endNumber text (.int (Int32.ofNat (hexValue digits))) r

structure Decimal where
  whole : List Char
  fraction : Option (List Char)
  exponent : Option (Char × Option Char × List Char)

namespace Decimal

def isWhole (d : Decimal) : Bool := d.fraction.isNone && d.exponent.isNone

def text (d : Decimal) : String :=
  String.ofList (d.whole ++ (match d.fraction with | some f => '.' :: f | none => [])
    ++ match d.exponent with
      | some (e, sign, digits) => e :: sign.toList ++ digits
      | none => [])

def exponentValue (d : Decimal) : Int :=
  match d.exponent with
  | some (_, some '-', digits) => -digitsValue digits
  | some (_, _, digits) => digitsValue digits
  | none => 0

def bits (f : Binary.Format) (d : Decimal) : Nat :=
  let fraction := d.fraction.getD []
  f.ofDecimal (digitsValue (d.whole ++ fraction)) (d.exponentValue - fraction.length)

end Decimal

/-- The fraction, unless the dot belongs to a member access. -/
def readFraction (s : Rest) : Option (List Char) × Rest :=
  match s with
  | '.' :: r =>
    if startsWith isNameStart r then (none, s)
    else (some (r.takeWhile Char.isDigit), r.dropWhile Char.isDigit)
  | _ => (none, s)

def readSign (s : Rest) : Option Char × Rest :=
  match s with
  | '+' :: r => (some '+', r)
  | '-' :: r => (some '-', r)
  | _ => (none, s)

def readExponent (s : Rest) : Read (Option (Char × Option Char × List Char)) :=
  match s with
  | c :: r =>
    if c == 'e' || c == 'E' then
      let (sign, r) := readSign r
      if startsWith Char.isDigit r then
        .ok (some (c, sign, r.takeWhile Char.isDigit), r.dropWhile Char.isDigit)
      else fail .malformedExponent r
    else .ok (none, s)
  | [] => .ok (none, s)

def finishDecimal (start : Rest) (d : Decimal) (s : Rest) : Read Literal :=
  let single (s : Rest) := endNumber d.text (.float (UInt32.ofNat (d.bits Binary.single))) s
  let double (s : Rest) := endNumber d.text (.double (UInt64.ofNat (d.bits Binary.double))) s
  let int (s : Rest) :=
    if Nat.pow 2 31 ≤ digitsValue d.whole then fail (.invalidInt d.text) start
    else endNumber d.text (.int (Int32.ofNat (digitsValue d.whole))) s
  let long (s : Rest) :=
    if Nat.pow 2 63 ≤ digitsValue d.whole then fail (.invalidLong d.text) start
    else endNumber d.text (.long (Int64.ofNat (digitsValue d.whole))) s
  match s with
  | c :: r =>
    if isLongSuffix c && d.isWhole then long r
    else if c == 'f' || c == 'F' then single r
    else if c == 'd' || c == 'D' then double r
    else if d.isWhole then int s else double s
  | [] => if d.isWhole then int s else double s

def readNumber (s : Rest) : Read Literal :=
  match s with
  | '0' :: 'x' :: r => readHex s r
  | '0' :: 'X' :: r => readHex s r
  | _ =>
    let (fraction, r) := readFraction (s.dropWhile Char.isDigit)
    match readExponent r with
    | .error f => .error f
    | .ok (exponent, r) => finishDecimal s ⟨s.takeWhile Char.isDigit, fraction, exponent⟩ r

/-- `2147483648` and `9223372036854775808L` are read only after a minus sign. -/
def readLeast? (s : Rest) : Option (Literal × Rest) :=
  let s := skipBlanks s
  let digits := s.takeWhile Char.isDigit
  let r := s.dropWhile Char.isDigit
  let found : Option (Literal × Rest) :=
    if startsWith isLongSuffix r then
      if digits = "9223372036854775808".toList then some (.long Int64.minValue, r.drop 1) else none
    else if digits = "2147483648".toList then some (.int Int32.minValue, r) else none
  found.filter fun p => !startsWith (fun c => isNamePart c || c == '.') p.2

end JvmDebug.Grammar
