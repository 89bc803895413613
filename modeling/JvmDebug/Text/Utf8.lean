/-!
UTF-8: bytes of a text, texts of bytes, and where bytes cease to be a text. Main statement:
`decode_encode`.
-/
namespace JvmDebug.Text.Utf8

def encode (s : String) : List UInt8 := s.toUTF8.data.toList

/-- What bytes begin with: a character, bytes that begin no character, or a character whose end is
missing. -/
inductive Head
  | char (width : Nat)
  | invalid (width : Nat)
  | cut
  deriving DecidableEq, Repr

/-- `taken` bytes of a character are there and `need` more must follow, the first of them between
`low` and `high`. -/
def follow (taken : Nat) : (need : Nat) → (low high : UInt8) → List UInt8 → Head
  | 0, _, _, _ => .char taken
  | _ + 1, _, _, [] => .cut
  | need + 1, low, high, b :: r =>
    if low ≤ b ∧ b ≤ high then follow (taken + 1) need 0x80 0xbf r else .invalid taken

def head : List UInt8 → Head
  | [] => .cut
  | b :: r =>
    if b < 0x80 then .char 1
    else if b < 0xc2 then .invalid 1
    else if b < 0xe0 then follow 1 1 0x80 0xbf r
    else if b < 0xf0 then
      follow 1 2 (if b = 0xe0 then 0xa0 else 0x80) (if b = 0xed then 0x9f else 0xbf) r
    else if b < 0xf5 then
      follow 1 3 (if b = 0xf0 then 0x90 else 0x80) (if b = 0xf4 then 0x8f else 0xbf) r
    else .invalid 1

/-- Where bytes cease to be a text, with the width of what is there instead of a character; no
width if the bytes end too early. -/
structure Fault where
  index : Nat
  width : Option Nat
  deriving DecidableEq, Repr, Inhabited

def Fault.message (f : Fault) : String :=
  match f.width with
  | some n => "invalid utf-8 sequence of " ++ n.repr ++ " bytes from index " ++ f.index.repr
  | none => "incomplete utf-8 byte sequence from index " ++ f.index.repr

/-- The first fault at or after `index`. Every turn takes a byte, so the number of bytes is fuel
enough. -/
def fault? : (fuel index : Nat) → List UInt8 → Option Fault
  | 0, _, _ => none
  | _ + 1, _, [] => none
  | fuel + 1, index, bytes =>
    match head bytes with
    | .char width => fault? fuel (index + width) (bytes.drop width)
    | .invalid width => some ⟨index, some width⟩
    | .cut => some ⟨index, none⟩

def decode (bytes : List UInt8) : Except Fault String :=
  match String.fromUTF8? ⟨bytes.toArray⟩ with
  | some s => .ok s
  | none => .error ((fault? bytes.length 0 bytes).getD default)

/-- The text of bytes with a replacement character for each fault. -/
def replaceFaults : (fuel : Nat) → List UInt8 → List Char
  | 0, _ => []
  | _ + 1, [] => []
  | fuel + 1, bytes =>
    match head bytes with
    | .char width =>
      let text := (String.fromUTF8? ⟨(bytes.take width).toArray⟩).getD ""
      text.toList ++ replaceFaults fuel (bytes.drop width)
    | .invalid width => '\ufffd' :: replaceFaults fuel (bytes.drop width)
    | .cut => ['\ufffd']

def decodeLossy (bytes : List UInt8) : String :=
  String.ofList (replaceFaults bytes.length bytes)

theorem bytes_encode (s : String) : (⟨(encode s).toArray⟩ : ByteArray) = s.toByteArray := rfl

theorem fromUTF8?_toByteArray (s : String) : String.fromUTF8? s.toByteArray = some s :=
  dif_pos s.isValidUTF8

theorem decode_encode (s : String) : decode (encode s) = .ok s := by
  simp [decode, bytes_encode, fromUTF8?_toByteArray]

end JvmDebug.Text.Utf8
