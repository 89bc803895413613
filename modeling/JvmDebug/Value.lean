import JvmDebug.Signature

/-!
Values of the debugged virtual machine. Primitives are carried by value, floating point numbers
as their bits; everything else is a reference to an object of the machine.
-/
namespace JvmDebug

abbrev ThreadId := UInt64
abbrev FrameId := UInt64
abbrev ObjectId := UInt64
abbrev TypeId := UInt64
abbrev MethodId := UInt64
abbrev FieldId := UInt64
abbrev RequestId := UInt32

structure ObjectRef where
  id : ObjectId
  typeId : TypeId
  runtimeType : String
  deriving DecidableEq, Repr, Inhabited

namespace ObjectRef

def isString (o : ObjectRef) : Bool := o.runtimeType == "java.lang.String"

def isArray (o : ObjectRef) : Bool := (Signature.arrayElement? o.runtimeType).isSome

end ObjectRef

inductive Value
  | null
  | void
  | boolean (b : Bool)
  | byte (n : Int8)
  | char (unit : UInt16)
  | short (n : Int16)
  | int (n : Int32)
  | long (n : Int64)
  | float (bits : UInt32)
  | double (bits : UInt64)
  | object (o : ObjectRef)
  deriving DecidableEq, Repr, Inhabited

namespace Value

/-- The name of the value's type; `null` has none and is shown as itself. -/
def typeName : Value → String
  | null => "null"
  | void => "void"
  | boolean _ => "boolean"
  | byte _ => "byte"
  | char _ => "char"
  | short _ => "short"
  | int _ => "int"
  | long _ => "long"
  | float _ => "float"
  | double _ => "double"
  | object o => o.runtimeType

def isPrimitive : Value → Bool
  | null | void | object _ => false
  | _ => true

def object? : Value → Option ObjectRef
  | object o => some o
  | _ => none

def default (typeName : String) : Value :=
  match typeName with
  | "boolean" => boolean false
  | "byte" => byte 0
  | "char" => char 0
  | "short" => short 0
  | "int" => int 0
  | "long" => long 0
  | "float" => float 0
  | "double" => double 0
  | _ => null

end Value

end JvmDebug
