import JvmDebug.Eval.Interpreter
import JvmDebug.Event
import JvmDebug.Session.Control

/-!
Looking at a stopped target: threads, frames, variables and the values of expressions.
-/
namespace JvmDebug

structure ThreadSummary where
  id : ThreadId
  name : String
  status : ThreadStatus
  suspended : Bool
  atBreakpoint : Bool
  deriving DecidableEq, Repr

structure FrameSummary where
  index : Nat
  place : Place
  deriving DecidableEq, Repr

structure FramePage where
  thread : ThreadId
  total : Nat
  frames : List FrameSummary
  deriving DecidableEq, Repr

inductive VariableKind
  | this | argument | local
  deriving DecidableEq, Repr

structure VariableInfo where
  name : String
  typeName : String
  value : String
  kind : VariableKind
  deriving DecidableEq, Repr

structure SuspendedThread where
  id : ThreadId
  name : String
  atBreakpoint : Bool
  breakpointId : Option String
  place : Option ThreadPlace
  deriving DecidableEq, Repr

structure SessionStatus where
  sessionId : String
  state : SessionState
  threadCount : Nat
  suspended : List SuspendedThread
  deriving DecidableEq, Repr

section
variable {σ : Type}

def placeOf (l : Location) : Task σ Place := do
  match ← Task.attempt (.place l) with
  | .ok p => return p
  | .error _ => return {}

def threadName (t : ThreadId) : Task σ String := do
  match ← Task.attempt (.thread t) with
  | .ok info => return ThreadInfo.name info
  | .error _ => return ""

def threadPlace (t : ThreadId) (l : Location) : Task σ ThreadPlace := do
  let p ← placeOf l
  return {
    threadId := t
    threadName := ← threadName t
    className := p.className
    methodName := p.methodName
    line := p.line
    sourceName := p.sourceName }

end

namespace Session

/-! ## Threads and frames -/

def threads : Op DebugError Session (List ThreadSummary) := do
  reach
  let all : List ThreadInfo ← Op.call .allThreads
  let s ← Op.state
  return all.map fun t => ⟨t.id, t.name, t.status, t.suspended, s.atBreakpoint.contains t.id⟩

def selectThread (t : ThreadId) : Op DebugError Session Unit := do
  reach
  let all : List ThreadInfo ← Op.call .allThreads
  if !all.any (·.id == t) then throw (.threadNotFound t)
  Op.update fun s => { s with selection := ⟨some t, 0⟩ }

def summaries (index : Nat) : List Frame → Task Session (List FrameSummary)
  | [] => return []
  | f :: fs => do
    let p ← placeOf f.location
    return ⟨index, p⟩ :: (← summaries (index + 1) fs)

def frames (t : Option ThreadId) (start count : Nat) : Op DebugError Session FramePage := do
  reach
  let t ← chosenThread t
  let all : List Frame ← Op.call (.frames t)
  let rest := all.drop start
  let shown := if count = 0 then rest else rest.take count
  return ⟨t, all.length, ← Op.lift (summaries start shown)⟩

def selectFrame (index : Nat) : Op DebugError Session Unit := do
  reach
  let t ← chosenThread none
  let all : List Frame ← Op.call (.frames t)
  if all.length ≤ index then throw (.invalidFrameIndex index all.length)
  Op.update fun s => { s with selection := { s.selection with frame := index } }

def chosenFrame (t : Option ThreadId) (index : Option Nat) :
    Op DebugError Session (ThreadId × Frame) := do
  reach
  let t ← chosenThread t
  let selection := (← Op.state).selection
  let index := index.getD (if selection.thread = some t then selection.frame else 0)
  let all : List Frame ← Op.call (.frames t)
  let some f := all[index]? | throw (.invalidFrameIndex index all.length)
  return (t, f)

/-! ## Variables and expressions -/

def kindOf (v : Variable) : VariableKind := if v.isArgument then .argument else .local

def variableInfos : List (Variable × Value) → Op DebugError Session (List VariableInfo)
  | [] => return []
  | (v, value) :: rest => do
    let info : VariableInfo := ⟨v.name, v.typeName, ← Display.value value, kindOf v⟩
    return info :: (← variableInfos rest)

def frameVariables (t : Option ThreadId) (index : Option Nat) :
    Op DebugError Session (List VariableInfo) := do
  let (t, f) ← chosenFrame t index
  let scope ← Scope.read t f
  match scope.self with
  | none => variableInfos scope.locals
  | some self =>
    let info : VariableInfo :=
      ⟨"this", self.runtimeType, ← Display.value (.object self), .this⟩
    return info :: (← variableInfos scope.locals)

def variableNamed (t : Option ThreadId) (index : Option Nat) (name : String) :
    Op DebugError Session VariableInfo := do
  let all ← frameVariables t index
  let some v := all.find? (·.name == name) | throw (.variableNotFound name)
  return v

def setVariable (name source : String) : Op DebugError Session VariableInfo := do
  let e ← Op.ofExcept ((parse source).mapError .parse)
  let (t, f) ← chosenFrame none none
  let scope ← Scope.read t f
  let some (v, _) := scope.locals.find? (·.1.name == name) | throw (.variableNotFound name)
  let evaluation ← scope.evaluate e
  let value ← scope.assign evaluation.value v.typeName
  let _ : Unit ← Op.call (.setLocalValue t f v value)
  return ⟨v.name, v.typeName, ← Display.value value, kindOf v⟩

/-- Evaluate in a frame; a malformed expression never reaches the target. -/
def evaluate (t : Option ThreadId) (index : Option Nat) (source : String) :
    Op DebugError Session Evaluation := do
  let e ← Op.ofExcept ((parse source).mapError .parse)
  let (t, f) ← chosenFrame t index
  (← Scope.read t f).evaluate e

/-! ## Status -/

def topPlace (t : ThreadId) : Task Session (Option ThreadPlace) := do
  match ← Task.attempt (.frames t) with
  | .error _ => return none
  | .ok all =>
    match (all : List Frame).head? with
    | none => return none
    | some top => return some (← threadPlace t top.location)

def suspendedThreads (atBreakpoint : Dict ThreadId (Option String)) :
    List ThreadInfo → Task Session (List SuspendedThread)
  | [] => return []
  | t :: ts => do
    let place ← topPlace t.id
    let stop := atBreakpoint.get? t.id
    return ⟨t.id, t.name, stop.isSome, stop.join, place⟩ :: (← suspendedThreads atBreakpoint ts)

def status : Op DebugError Session SessionStatus := do
  reach
  let all : List ThreadInfo ← Op.call .allThreads
  let atBreakpoint := (← Op.state).atBreakpoint
  let suspended ← Op.lift (suspendedThreads atBreakpoint (all.filter (·.suspended)))
  let s ← Op.state
  return ⟨s.id, s.state, all.length, suspended⟩

end Session

/-! ## JSON -/

def ThreadSummary.toJson (t : ThreadSummary) : Json :=
  .object [("id", .ofNat t.id.toNat), ("name", .string t.name), ("status", .string t.status.name),
    ("suspended", .bool t.suspended), ("at_breakpoint", .bool t.atBreakpoint)]

def FrameSummary.toJson (f : FrameSummary) : Json :=
  .object [("index", .ofNat f.index), ("class_name", .string f.place.className),
    ("method_name", .string f.place.methodName),
    ("line", .ofOption (fun n => .ofNat n.toNat) f.place.line),
    ("source_name", .ofOption .string f.place.sourceName)]

def FramePage.toJson (p : FramePage) : Json :=
  .object [("thread_id", .ofNat p.thread.toNat), ("total", .ofNat p.total),
    ("frames", .ofList FrameSummary.toJson p.frames)]

def VariableKind.name : VariableKind → String
  | this => "this"
  | argument => "argument"
  | .local => "local"

def VariableInfo.toJson (v : VariableInfo) : Json :=
  .object [("name", .string v.name), ("type_name", .string v.typeName), ("value", .string v.value),
    ("kind", .string v.kind.name)]

def SuspendedThread.toJson (t : SuspendedThread) : Json :=
  .object [("thread_id", .ofNat t.id.toNat), ("name", .string t.name),
    ("at_breakpoint", .bool t.atBreakpoint), ("breakpoint_id", .ofOption .string t.breakpointId),
    ("location", .ofOption ThreadPlace.toJson t.place)]

def SessionStatus.toJson (s : SessionStatus) : Json :=
  .object [("session_id", .string s.sessionId), ("state", .string s.state.name),
    ("thread_count", .ofNat s.threadCount),
    ("suspended_threads", .ofList SuspendedThread.toJson s.suspended)]

end JvmDebug
