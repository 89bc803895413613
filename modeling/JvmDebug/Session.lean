import JvmDebug.Breakpoint.Table
import JvmDebug.Config
import JvmDebug.Event.Buffer
import JvmDebug.Connection

/-!
The state of a debugging session and its small steps, each of them indivisible. Operations that
also talk to the target are routines over this state.
-/
namespace JvmDebug

inductive SessionState
  | created | connected | running | suspended | disconnected | terminated
  deriving DecidableEq, Repr, Inhabited

namespace SessionState

def name : SessionState → String
  | created => "created"
  | connected => "connected"
  | running => "running"
  | suspended => "suspended"
  | disconnected => "disconnected"
  | terminated => "terminated"

def isTerminal : SessionState → Bool
  | disconnected | terminated => true
  | _ => false

end SessionState

structure Attachment where
  origin : Origin
  description : String
  deriving DecidableEq, Repr

structure Selection where
  thread : Option ThreadId := none
  frame : Nat := 0
  deriving DecidableEq, Repr, Inhabited

namespace IdSupply

/-- Eight hexadecimal digits for a number: an odd multiplier visits every residue once. -/
def hexText (n : Nat) : String :=
  let word := (n * 0x9e3779b1 + 0x7f4a7c15) % UInt32.size
  String.ofList ((List.range 8).reverse.map fun i => Nat.digitChar (word / Nat.pow 16 i % 16))

end IdSupply

/-- A supply of ids: the `n`th is `text n`, and those before `next` have been given out. -/
structure IdSupply where
  next : Nat := 0
  text : Nat → String := IdSupply.hexText

namespace IdSupply

def skip (s : IdSupply) : IdSupply := { s with next := s.next + 1 }

/-- An id that is not `used`; one of the next `tries` has to do. -/
def fresh (used : String → Bool) (tries : Nat) (s : IdSupply) : String × IdSupply :=
  match tries with
  | 0 => (s.text s.next, s.skip)
  | tries + 1 => if used (s.text s.next) then fresh used tries s.skip else (s.text s.next, s.skip)

end IdSupply

/-- `atBreakpoint` has the threads stopped at a breakpoint, with the breakpoint's id if it is known.
`loopPending` tells that an event loop was started and nobody has waited for its end yet. -/
structure Session where
  id : String
  name : Option String := none
  createdAt : UInt64 := 0
  settings : SessionConfig := {}
  attachment : Option Attachment := none
  state : SessionState := .created
  selection : Selection := {}
  breakpoints : BreakpointTable := {}
  exceptions : ExceptionTable := {}
  atBreakpoint : Dict ThreadId (Option String) := .empty
  steps : Dict ThreadId RequestId := .empty
  lifecycleRequests : List RequestId := []
  events : EventBuffer
  sequence : UInt64 := 0
  listeners : List (UInt64 × String) := []
  nextListener : UInt64 := 1
  heard : List (String × UInt64 × EventKind) := []
  stopping : Bool := false
  loopPending : Bool := false
  ids : IdSupply := {}
  clock : UInt64 := 0

namespace Session

def new (id : String) (settings : SessionConfig) (createdAt : UInt64) (ids : IdSupply) : Session :=
  { id, settings, createdAt, ids, events := .empty settings.bufferCapacity.toNat }

def enter (s : Session) (next : SessionState) : Session :=
  if s.state.isTerminal then s else { s with state := next }

def rename (s : Session) (name : String) : Session :=
  { s with name := if name.isEmpty then none else some name }

def unreachable? (s : Session) : Option DebugError :=
  if s.state.isTerminal then some .vmDisconnected
  else if s.attachment.isNone then
    some (.connectionFailed ("session " ++ s.id ++ " is not attached to a target"))
  else none

def reach : Op DebugError Session Unit := do
  if let some e := (← Op.state).unreachable? then throw e

def usedId (s : Session) (id : String) : Bool :=
  s.breakpoints.entries.contains id || s.exceptions.entries.contains id

def freshId (s : Session) : String × Session :=
  let (id, ids) := s.ids.fresh s.usedId (s.breakpoints.entries.size + s.exceptions.entries.size)
  (id, { s with ids })

def emit (s : Session) (payload : Payload) : Session :=
  let sequence := s.sequence + 1
  let event : DebugEvent := { sequence, timestamp := s.clock, sessionId := s.id, payload }
  { s with
    sequence
    events := s.events.push event
    heard := s.heard ++ s.listeners.map fun l => (l.2, sequence, event.kind) }

def stopped (s : Session) (t : ThreadId) (breakpoint : Option (Option String)) : Session :=
  let atBreakpoint := match breakpoint with
    | some id => s.atBreakpoint.insert t id
    | none => s.atBreakpoint
  { s with atBreakpoint, selection := ⟨some t, 0⟩ }.enter .suspended

def resumed (s : Session) : Session := { s with atBreakpoint := .empty }.enter .running

def forgetThread (s : Session) (t : ThreadId) : Session :=
  { s with
    atBreakpoint := s.atBreakpoint.erase t
    steps := s.steps.erase t
    selection := if s.selection.thread = some t then {} else s.selection }

def finishStep (s : Session) (t : ThreadId) (r : Option RequestId) : Option RequestId × Session :=
  (r <|> s.steps.get? t, { s with steps := s.steps.erase t })

def addListener (s : Session) (name : String) : UInt64 × Session :=
  (s.nextListener,
    { s with nextListener := s.nextListener + 1, listeners := s.listeners ++ [(s.nextListener, name)] })

def removeListener (s : Session) (id : UInt64) : Bool × Session :=
  (s.listeners.any fun l => l.1 == id,
    { s with listeners := s.listeners.filter fun l => l.1 != id })

def poll (s : Session) (limit : Nat) (filter : List EventKind) : List DebugEvent × Session :=
  let (events, buffer) := s.events.poll limit filter
  (events, { s with events := buffer })

def pop (s : Session) (filter : List EventKind) : Option DebugEvent × Session :=
  let (event, buffer) := s.events.pop filter
  (event, { s with events := buffer })

def clearEvents (s : Session) : Session := { s with events := s.events.clear }

def waitTime (s : Session) (asked : Int) : Nat :=
  if 0 < asked then asked.toNat else s.settings.waitTimeout.toNat

end Session

structure SessionInfo where
  id : String
  name : Option String
  origin : Option Origin
  state : SessionState
  createdAt : UInt64
  target : Option String
  active : Bool
  deriving DecidableEq, Repr

def Session.info (s : Session) (active : Bool) : SessionInfo :=
  { id := s.id
    name := s.name
    origin := s.attachment.map Attachment.origin
    state := s.state
    createdAt := s.createdAt
    target := s.attachment.map Attachment.description
    active }

def SessionInfo.toJson (i : SessionInfo) : Json :=
  .object [("id", .string i.id), ("name", .ofOption .string i.name),
    ("origin", .ofOption (fun o => .string o.name) i.origin), ("state", .string i.state.name),
    ("created_at_ms", .ofNat i.createdAt.toNat), ("target", .ofOption .string i.target),
    ("active", .bool i.active)]

end JvmDebug
