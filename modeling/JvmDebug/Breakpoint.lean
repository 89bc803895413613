import JvmDebug.Json
import JvmDebug.Target

/-!
Breakpoints as a session describes them: on a line or a method of a class, or on exceptions.
-/
namespace JvmDebug

inductive BreakpointKind
  | line (line : UInt32)
  | method (name : String)
  deriving DecidableEq, Repr, Inhabited

/-- A breakpoint on a line or method. It is pending until a class of its name is loaded; the
condition is kept but does not hold back hits. -/
structure Breakpoint where
  id : String
  className : String
  kind : BreakpointKind
  condition : Option String
  enabled : Bool
  hitCount : UInt64
  createdAt : UInt64
  resolvedLocations : Nat
  pending : Bool
  deriving DecidableEq, Repr, Inhabited

structure ExceptionBreakpoint where
  id : String
  className : String
  caught : Bool
  uncaught : Bool
  enabled : Bool
  createdAt : UInt64
  deriving DecidableEq, Repr, Inhabited

def Breakpoint.place (b : Breakpoint) : String :=
  match b.kind with
  | .line n => b.className ++ ":" ++ n.toNat.repr
  | .method name => b.className ++ "." ++ name

def BreakpointKind.fields : BreakpointKind → List (String × Json)
  | line n => [("kind", .string "line"), ("line", .ofNat n.toNat)]
  | method name => [("kind", .string "method"), ("method", .string name)]

def Breakpoint.toJson (b : Breakpoint) : Json :=
  .object ([("id", .string b.id), ("class_name", .string b.className)] ++ b.kind.fields
    ++ (b.condition.map fun c => ("condition", Json.string c)).toList
    ++ [("enabled", .bool b.enabled), ("hit_count", .ofNat b.hitCount.toNat),
      ("created_at_ms", .ofNat b.createdAt.toNat),
      ("resolved_locations", .ofNat b.resolvedLocations), ("pending", .bool b.pending)])

def ExceptionBreakpoint.toJson (b : ExceptionBreakpoint) : Json :=
  .object [("id", .string b.id), ("class_name", .string b.className), ("caught", .bool b.caught),
    ("uncaught", .bool b.uncaught), ("enabled", .bool b.enabled),
    ("created_at_ms", .ofNat b.createdAt.toNat)]

end JvmDebug
