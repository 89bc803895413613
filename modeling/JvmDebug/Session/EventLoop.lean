import JvmDebug.Session.Breakpoints
import JvmDebug.Session.Inspect

/-!
What a session's event loop does with the event sets of the target: it keeps the books, emits one
event of its own for each that matters to the user, and resumes the target after a set without
stops.
-/
namespace JvmDebug

namespace Session

/-- The connection was lost. The session says so once, and not after its end. -/
def disconnected (s : Session) : Session :=
  if s.stopping || s.state.isTerminal then s
  else (s.enter .disconnected).emit (.vmDisconnect "VM disconnected")

def recordHit (request : Option RequestId) (s : Session) : Option String × Session :=
  match request with
  | none => (none, s)
  | some r =>
    let (id, breakpoints) := s.breakpoints.recordHit r
    (id, { s with breakpoints })

def handleEvent (e : TargetEvent) : Task Session Bool :=
  match e with
  | .vmStart _ => return true
  | .breakpoint request t l => do
    let id ← Routine.modifyGet (recordHit request)
    let place ← threadPlace t l
    Routine.modify fun s => (s.stopped t (some id)).emit (.breakpointHit id place)
    return true
  | .step request t l => do
    if let some r ← Routine.modifyGet fun s => s.finishStep t request then
      Task.quietly (.deleteRequest r)
    let place ← threadPlace t l
    Routine.modify fun s => (s.stopped t none).emit (.stepCompleted place)
    return true
  | .exception _ t l thrown catchAt => do
    let message ← Display.exceptionMessage? thrown
    let place ← threadPlace t l
    Routine.modify fun s => (s.stopped t none).emit
      (.exceptionThrown thrown.runtimeType message catchAt.isSome place)
    return true
  | .threadStart t => do
    let name ← threadName t
    Routine.modify fun s => s.emit (.threadStart t name)
    return true
  | .threadDeath t => do
    let name ← threadName t
    Routine.modify fun s => (s.forgetThread t).emit (.threadDeath t name)
    return true
  | .classPrepare _ _ c => do
    classLoaded c
    return true
  | .vmDeath => do
    Routine.modify fun s => (s.enter .terminated).emit (.vmDeath 0)
    return false

def handleEvents : List TargetEvent → Task Session Bool
  | [] => return true
  | e :: es => do if ← handleEvent e then handleEvents es else return false

/-- Resume the target after a set without stops; the answer is whether the loop goes on. -/
def resumeAfter (set : EventSet) : Task Session Bool := do
  if !set.shouldResume then return true
  match ← Task.attempt (.resumeEventSet set) with
  | .ok _ => return true
  | .error e =>
    if e.isDisconnect then
      Routine.modify disconnected
      return false
    return true

def handleSet (set : EventSet) : Task Session Bool := do
  if ← handleEvents set.events then resumeAfter set else return false

end Session

/-- What the loop is told when it asks for the next set: there may be none for a while. -/
abbrev Reading := Except TargetError (Option EventSet)

namespace Session

def handleReading : Reading → Task Session Bool
  | .ok none => return true
  | .ok (some set) => handleSet set
  | .error e => do
    if e.isDisconnect then
      Routine.modify disconnected
      return false
    return true

/-- The loop over all that it reads; the answer is whether it would read on. -/
def handleReadings : List Reading → Task Session Bool
  | [] => return true
  | r :: rs => do if ← handleReading r then handleReadings rs else return false

end Session

end JvmDebug
