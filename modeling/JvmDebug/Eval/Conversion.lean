import JvmDebug.Value

/-!
Which types a value converts to: primitive types among themselves, and primitive types with the
classes that box them.
-/
namespace JvmDebug.Conversion

def wrappers : List (String × String) :=
  [("boolean", "java.lang.Boolean"), ("byte", "java.lang.Byte"), ("char", "java.lang.Character"),
   ("short", "java.lang.Short"), ("int", "java.lang.Integer"), ("long", "java.lang.Long"),
   ("float", "java.lang.Float"), ("double", "java.lang.Double")]

def wrapper? (primitive : String) : Option String :=
  (wrappers.find? fun p => p.1 == primitive).map Prod.snd

def unboxed? (wrapper : String) : Option String :=
  (wrappers.find? fun p => p.2 == wrapper).map Prod.fst

def wider : String → List String
  | "byte" => ["short", "int", "long", "float", "double"]
  | "short" | "char" => ["int", "long", "float", "double"]
  | "int" => ["long", "float", "double"]
  | "long" => ["float", "double"]
  | "float" => ["double"]
  | _ => []

def widens (source target : String) : Bool := (wider source).contains target

def widensOrSame (source target : String) : Bool := source == target || widens source target

def boxesTo (primitive typeName : String) : Bool :=
  match wrapper? primitive with
  | none => false
  | some wrapper =>
    typeName == wrapper
      || ["java.lang.Object", "java.io.Serializable", "java.lang.Comparable"].contains typeName
      || (typeName == "java.lang.Number" && primitive != "boolean" && primitive != "char")

def names (written qualified : String) : Bool :=
  written == qualified || qualified == "java.lang." ++ written

end JvmDebug.Conversion
