import JvmDebug.Json
import JvmDebug.Target
import JvmDebug.Text.CharClass

/-!
The numbered events a session delivers to its pollers, waiters and listeners, and their JSON form:
one object with the payload's fields beside the envelope's, told apart by `type`.
-/
namespace JvmDebug

structure ThreadPlace where
  threadId : ThreadId
  threadName : String
  className : String
  methodName : String
  line : Option UInt32
  sourceName : Option String
  deriving DecidableEq, Repr, Inhabited

inductive EventKind
  | breakpointHit | stepCompleted | exceptionThrown | threadStart | threadDeath | vmDeath
  | vmDisconnect
  deriving DecidableEq, Repr, Inhabited

namespace EventKind

def all : List EventKind :=
  [breakpointHit, stepCompleted, exceptionThrown, threadStart, threadDeath, vmDeath, vmDisconnect]

def name : EventKind → String
  | breakpointHit => "breakpoint_hit"
  | stepCompleted => "step_completed"
  | exceptionThrown => "exception_thrown"
  | threadStart => "thread_start"
  | threadDeath => "thread_death"
  | vmDeath => "vm_death"
  | vmDisconnect => "vm_disconnect"

def ofName? (s : String) : Option EventKind := all.find? fun k => k.name == s

def parse? (s : String) : Option EventKind :=
  ofName? (Text.lowerAscii (String.ofList (Text.trim s.toList)))

def unknownMessage (s : String) : String := "unknown event type: " ++ s

end EventKind

/-- What happened. A breakpoint hit that no known breakpoint asked for has no breakpoint id. -/
inductive Payload
  | breakpointHit (breakpointId : Option String) (place : ThreadPlace)
  | stepCompleted (place : ThreadPlace)
  | exceptionThrown (exceptionClass : String) (message : Option String) (caught : Bool)
      (place : ThreadPlace)
  | threadStart (threadId : ThreadId) (name : String)
  | threadDeath (threadId : ThreadId) (name : String)
  | vmDeath (exitCode : Int32)
  | vmDisconnect (reason : String)
  deriving DecidableEq, Repr, Inhabited

def Payload.kind : Payload → EventKind
  | breakpointHit .. => .breakpointHit
  | stepCompleted _ => .stepCompleted
  | exceptionThrown .. => .exceptionThrown
  | threadStart .. => .threadStart
  | threadDeath .. => .threadDeath
  | vmDeath _ => .vmDeath
  | vmDisconnect _ => .vmDisconnect

/-- Sequence numbers of a session count from 1; the timestamp is in milliseconds. -/
structure DebugEvent where
  sequence : UInt64
  timestamp : UInt64
  sessionId : String
  payload : Payload
  deriving DecidableEq, Repr, Inhabited

namespace DebugEvent

def kind (e : DebugEvent) : EventKind := e.payload.kind

def passes (filter : List EventKind) (e : DebugEvent) : Bool :=
  filter.isEmpty || filter.contains e.kind

end DebugEvent

namespace ThreadPlace

def toJson (p : ThreadPlace) : Json :=
  .object [
    ("thread_id", .ofNat p.threadId.toNat),
    ("thread_name", .string p.threadName),
    ("class_name", .string p.className),
    ("method_name", .string p.methodName),
    ("line", .ofOption (fun n => .ofNat n.toNat) p.line),
    ("source_name", .ofOption .string p.sourceName)]

def ofParts? (threadId threadName className methodName : Json) (line sourceName : Option Json) :
    Option ThreadPlace := do
  return {
    threadId := UInt64.ofNat (← threadId.natBelow? UInt64.size)
    threadName := ← threadName.string?
    className := ← className.string?
    methodName := ← methodName.string?
    line := (← Json.optional (Json.natBelow? UInt32.size) line).map UInt32.ofNat
    sourceName := ← Json.optional Json.string? sourceName }

def ofJson? : Json → Option ThreadPlace
  | .object fields => do
    ofParts? (← Json.lookup "thread_id" fields) (← Json.lookup "thread_name" fields)
      (← Json.lookup "class_name" fields) (← Json.lookup "method_name" fields)
      (Json.lookup "line" fields) (Json.lookup "source_name" fields)
  | .array [threadId, threadName, className, methodName, line, sourceName] =>
    ofParts? threadId threadName className methodName (some line) (some sourceName)
  | _ => none

end ThreadPlace

namespace EventKind

/-- A kind is given by its name, or by its place in the list of all kinds. -/
def ofJson? : Json → Option EventKind
  | .string s => ofName? s
  | .number (.ofNat n) 0 => all[n]?
  | _ => none

end EventKind

namespace Payload

def fields : Payload → List (String × Json)
  | breakpointHit id place =>
    [("breakpoint_id", .ofOption .string id), ("location", place.toJson)]
  | stepCompleted place => [("location", place.toJson)]
  | exceptionThrown exceptionClass message caught place =>
    [("exception_class", .string exceptionClass), ("message", .ofOption .string message),
     ("caught", .bool caught), ("location", place.toJson)]
  | threadStart threadId name | threadDeath threadId name =>
    [("thread_id", .ofNat threadId.toNat), ("name", .string name)]
  | vmDeath exitCode => [("exit_code", .ofInt exitCode.toInt)]
  | vmDisconnect reason => [("reason", .string reason)]

def ofFields? (kind : EventKind) (fields : List (String × Json)) : Option Payload := do
  let get (name : String) := Json.lookup name fields
  let threadId := (get "thread_id").bind (Json.natBelow? UInt64.size)
  match kind with
  | .breakpointHit =>
    return .breakpointHit (← Json.optional Json.string? (get "breakpoint_id"))
      (← ThreadPlace.ofJson? (← get "location"))
  | .stepCompleted => return .stepCompleted (← ThreadPlace.ofJson? (← get "location"))
  | .exceptionThrown =>
    return .exceptionThrown (← (← get "exception_class").string?)
      (← Json.optional Json.string? (get "message")) (← (← get "caught").bool?)
      (← ThreadPlace.ofJson? (← get "location"))
  | .threadStart => return .threadStart (UInt64.ofNat (← threadId)) (← (← get "name").string?)
  | .threadDeath => return .threadDeath (UInt64.ofNat (← threadId)) (← (← get "name").string?)
  | .vmDeath =>
    return .vmDeath (Int32.ofInt (← (← get "exit_code").intIn? Int32.minValue.toInt (Int32.maxValue.toInt + 1)))
  | .vmDisconnect => return .vmDisconnect (← (← get "reason").string?)

end Payload

namespace DebugEvent

def toJson (e : DebugEvent) : Json :=
  .object ([
    ("sequence", .ofNat e.sequence.toNat),
    ("timestamp_ms", .ofNat e.timestamp.toNat),
    ("session_id", .string e.sessionId),
    ("type", .string e.kind.name)] ++ e.payload.fields)

def ofJson? : Json → Option DebugEvent
  | .object fields => do
    let get (name : String) := Json.lookup name fields
    return {
      sequence := UInt64.ofNat (← (← get "sequence").natBelow? UInt64.size)
      timestamp := UInt64.ofNat (← (← get "timestamp_ms").natBelow? UInt64.size)
      sessionId := ← (← get "session_id").string?
      payload := ← Payload.ofFields? (← EventKind.ofJson? (← get "type")) fields }
  | _ => none

end DebugEvent

end JvmDebug
