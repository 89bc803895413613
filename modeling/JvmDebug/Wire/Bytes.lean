import JvmDebug.Text.Utf8
import JvmDebug.Wire.Error

/-!
Writing and reading the parts of a message body: big-endian numbers, texts, lists, and ids of the
width that the other side has chosen. A reader goes from front to back and refuses a body that ends
too early.
-/
namespace JvmDebug.Wire
open Text

abbrev Bytes := List UInt8

/-! ## Writing -/

/-- The low `width` bytes of a number, the most significant first. -/
def bigEndian : (width n : Nat) → Bytes
  | 0, _ => []
  | width + 1, n => bigEndian width (n / 256) ++ [UInt8.ofNat n]

def putU16 (n : UInt16) : Bytes := bigEndian 2 n.toNat

def putU32 (n : UInt32) : Bytes := bigEndian 4 n.toNat

def putU64 (n : UInt64) : Bytes := bigEndian 8 n.toNat

def putI32 (n : Int32) : Bytes := putU32 n.toUInt32

def putBool (b : Bool) : Bytes := [if b then 1 else 0]

def putText (s : String) : Bytes := bigEndian 4 (Utf8.encode s).length ++ Utf8.encode s

def putList {α : Type} (put : α → Bytes) (items : List α) : Bytes :=
  bigEndian 4 items.length ++ items.flatMap put

def putId (width : Nat) (id : UInt64) : Bytes := bigEndian (min width 8) id.toNat

/-! ## Reading -/

def bigEndianValue (bytes : Bytes) : Nat := bytes.foldl (fun n b => n * 256 + b.toNat) 0

structure Cursor where
  rest : Bytes
  offset : Nat := 0
  deriving DecidableEq, Repr, Inhabited

abbrev Reader := StateT Cursor (Except WireError)

def take (n : Nat) : Reader Bytes := fun c =>
  let taken := c.rest.take n
  if taken.length = n then .ok (taken, ⟨c.rest.drop n, c.offset + n⟩)
  else
    .error (.protocol ("truncated packet: wanted " ++ n.repr ++ " bytes at offset " ++
      c.offset.repr ++ " of " ++ (c.offset + c.rest.length).repr))

def getNat (width : Nat) : Reader Nat := do return bigEndianValue (← take width)

def getU8 : Reader UInt8 := do return UInt8.ofNat (← getNat 1)

def getU16 : Reader UInt16 := do return UInt16.ofNat (← getNat 2)

def getU32 : Reader UInt32 := do return UInt32.ofNat (← getNat 4)

def getU64 : Reader UInt64 := do return UInt64.ofNat (← getNat 8)

def getI32 : Reader Int32 := do return (← getU32).toInt32

def getBool : Reader Bool := do return (← getU8) != 0

def getText : Reader String := do
  let bytes ← take (← getNat 4)
  match Utf8.decode bytes with
  | .ok s => return s
  | .error e => throw (.protocol ("string is not utf-8: " ++ e.message))

def getTimes {α : Type} (get : Reader α) : Nat → Reader (List α)
  | 0 => return []
  | n + 1 => do
    let a ← get
    let as ← getTimes get n
    return a :: as

def getList {α : Type} (get : Reader α) : Reader (List α) := do getTimes get (← getNat 4)

def getId (width : Nat) : Reader UInt64 := do
  if 1 ≤ width ∧ width ≤ 8 then return UInt64.ofNat (← getNat width)
  else throw (.protocol ("unsupported id size " ++ width.repr))

/-- Read the start of a body; what is left over does not matter. -/
def Reader.run {α : Type} (get : Reader α) (body : Bytes) : Except WireError α :=
  (get ⟨body, 0⟩).map Prod.fst

end JvmDebug.Wire
