import JvmDebug.Binary.Shortest
import JvmDebug.Connection

/-!
Texts of values. A display quotes strings and shows an array's length; the plain text of a value
is what concatenation appends. Both ask the target about objects.
-/
namespace JvmDebug

def ObjectRef.identity (o : ObjectRef) : String :=
  o.runtimeType ++ "@" ++ String.ofList (Nat.toDigits 16 o.id.toNat)

/-- Half of a surrogate pair has no character of its own. -/
def unitText (u : UInt16) : String :=
  if u.toNat.isValidChar then (Char.ofNat u.toNat).toString else "\ufffd"

/-- The text between quotes, with quotes, backslashes and the common control characters escaped. -/
def quoted (s : String) : String :=
  let escape (c : Char) : List Char :=
    if c = '\\' then ['\\', '\\'] else if c = '"' then ['\\', '"'] else if c = '\n' then ['\\', 'n']
    else if c = '\r' then ['\\', 'r'] else if c = '\t' then ['\\', 't'] else [c]
  String.ofList ('"' :: (s.toList.flatMap escape ++ ['"']))

def Value.text : Value → String
  | null => "null"
  | void => "void"
  | boolean b => if b then "true" else "false"
  | byte n => toString n.toInt
  | char u => unitText u
  | short n => toString n.toInt
  | int n => toString n.toInt
  | long n => toString n.toInt
  | float bits => Binary.text (Binary.widen bits)
  | double bits => Binary.text bits
  | object o => o.identity

namespace Display
variable {σ : Type}

def elementName (o : ObjectRef) : String :=
  (Signature.arrayElement? o.runtimeType).getD o.runtimeType

def value : Value → Op DebugError σ String
  | .object o =>
    if o.isString then return quoted (← Op.call (.stringValue o))
    else if o.isArray then do
      let n : Int32 ← Op.call (.arrayLength o)
      return elementName o ++ "[" ++ toString n.toInt ++ "]"
    else return o.identity
  | .char u => return "'" ++ unitText u ++ "'"
  | v => return v.text

def isToString (m : Method) : Bool :=
  m.name == "toString" && m.signature == "()Ljava/lang/String;" && !m.isStatic

def objectText? (t : ThreadId) (o : ObjectRef) : Task σ (Option String) := do
  let .ok methods ← Task.attempt (.methods o.typeId) | return none
  let some m := List.find? isToString methods | return none
  match ← Task.attempt (.invokeInstance t o m []) with
  | .ok (.returned (.object text)) =>
    if text.isString then return (← Task.attempt (.stringValue text)).toOption else return none
  | .ok (.returned .null) => return some "null"
  | _ => return none

def plain (t : ThreadId) : Value → Op DebugError σ String
  | .object o =>
    if o.isString then Op.call (.stringValue o)
    else return (← Op.lift (objectText? t o)).getD o.identity
  | v => return v.text

def exceptionMessage? (exception : ObjectRef) : Task σ (Option String) := do
  let .ok fields ← Task.attempt (.fields exception.typeId) | return none
  let some f := List.find? (fun f : Field => f.name == "detailMessage") fields | return none
  match ← Task.attempt (.getField exception f) with
  | .ok (.object text) =>
    if text.isString then return (← Task.attempt (.stringValue text)).toOption else return none
  | _ => return none

end Display

end JvmDebug
