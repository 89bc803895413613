import JvmDebug.Wire.Bytes

/-!
Ids, locations and values on the wire. The other side chooses the widths of its ids.
-/
namespace JvmDebug.Wire

structure IdSizes where
  field : Nat := 8
  method : Nat := 8
  object : Nat := 8
  type : Nat := 8
  frame : Nat := 8
  deriving DecidableEq, Repr, Inhabited

/-- A value on the wire: floating point numbers as their bits, anything that is no primitive as an
id behind a tag. -/
inductive WireValue
  | void
  | boolean (b : Bool)
  | byte (n : Int8)
  | char (unit : UInt16)
  | short (n : Int16)
  | int (n : Int32)
  | long (n : Int64)
  | float (bits : UInt32)
  | double (bits : UInt64)
  | object (tag : UInt8) (id : ObjectId)
  deriving DecidableEq, Repr, Inhabited

structure Tagged where
  tag : UInt8
  id : ObjectId
  deriving DecidableEq, Repr, Inhabited

def charByte (c : Char) : UInt8 := UInt8.ofNat c.toNat

namespace WireValue

def tag : WireValue → UInt8
  | void => charByte 'V'
  | boolean _ => charByte 'Z'
  | byte _ => charByte 'B'
  | char _ => charByte 'C'
  | short _ => charByte 'S'
  | int _ => charByte 'I'
  | long _ => charByte 'J'
  | float _ => charByte 'F'
  | double _ => charByte 'D'
  | object tag _ => tag

def isPrimitiveTag (tag : UInt8) : Bool := ['Z', 'B', 'C', 'S', 'I', 'J', 'F', 'D'].any fun c =>
  charByte c == tag

end WireValue

namespace IdSizes
variable (sizes : IdSizes)

def putLocation (l : Location) : Bytes :=
  l.typeTag :: (putId sizes.type l.classId ++ putId sizes.method l.methodId ++ putU64 l.index)

def putUntagged : WireValue → Bytes
  | .void => []
  | .boolean b => putBool b
  | .byte n => [n.toUInt8]
  | .char n => putU16 n
  | .short n => putU16 n.toUInt16
  | .int n => putI32 n
  | .long n => putU64 n.toUInt64
  | .float bits => putU32 bits
  | .double bits => putU64 bits
  | .object _ id => putId sizes.object id

def putValue (v : WireValue) : Bytes := v.tag :: sizes.putUntagged v

def getLocation : Reader Location := do
  return ⟨← getU8, ← getId sizes.type, ← getId sizes.method, ← getU64⟩

def getTagged : Reader Tagged := do return ⟨← getU8, ← getId sizes.object⟩

def getUntagged (tag : UInt8) : Reader WireValue := do
  if tag = charByte 'Z' then return .boolean (← getBool)
  else if tag = charByte 'B' then return .byte (← getU8).toInt8
  else if tag = charByte 'C' then return .char (← getU16)
  else if tag = charByte 'S' then return .short (← getU16).toInt16
  else if tag = charByte 'I' then return .int (← getI32)
  else if tag = charByte 'J' then return .long (← getU64).toInt64
  else if tag = charByte 'F' then return .float (← getU32)
  else if tag = charByte 'D' then return .double (← getU64)
  else if tag = charByte 'V' then return .void
  else return .object tag (← getId sizes.object)

def getValue : Reader WireValue := do sizes.getUntagged (← getU8)

/-- The values of a part of an array: primitives share one tag in front, objects have a tag each. -/
def getRegion : Reader (List WireValue) := do
  let tag ← getU8
  getList (if WireValue.isPrimitiveTag tag then sizes.getUntagged tag else sizes.getValue)

/-- Widths in the order field, method, object, type, frame. -/
def get : Reader IdSizes := do
  return ⟨← getNat 4, ← getNat 4, ← getNat 4, ← getNat 4, ← getNat 4⟩

def put : Bytes :=
  bigEndian 4 sizes.field ++ bigEndian 4 sizes.method ++ bigEndian 4 sizes.object ++
    bigEndian 4 sizes.type ++ bigEndian 4 sizes.frame

end IdSizes

end JvmDebug.Wire
