import JvmDebug.Session

/-!
Connecting a session, letting the target run and stop, and closing the session.
-/
namespace JvmDebug.Session

/-- Take over an open connection. The event loop is to be started afterwards. -/
def connect (origin : Origin) (description : String) : Op DebugError Session Unit := do
  let s ← Op.state
  if s.state != .created then throw (.sessionAlreadyExists s.id)
  if s.settings.trackThreads then
    match ← Op.attempt .watchThreadLifecycle with
    | .ok requests => Op.update fun s => { s with lifecycleRequests := requests }
    | .error _ => pure ()
  Op.update fun s =>
    { s with attachment := some ⟨origin, description⟩, loopPending := true }.enter .connected

/-- Tell the event loop to stop; the answer is whether its end has to be waited for. -/
def beginClose (s : Session) : Bool × Session :=
  (s.loopPending, { s with stopping := true, loopPending := false })

def finishClose : Task Session Unit := do
  if (← Routine.get).attachment.isSome then Task.quietly .dispose
  Routine.modify (·.enter .disconnected)

def letRun : Op DebugError Session Unit := do
  let _ : Unit ← Op.call .resumeAll
  Op.update resumed

def resume : Op DebugError Session Unit := do
  reach
  letRun

def suspend : Op DebugError Session Unit := do
  reach
  let _ : Unit ← Op.call .suspendAll
  Op.update (·.enter .suspended)

def resumeThread (t : ThreadId) : Op DebugError Session Unit := do
  reach
  let _ : Unit ← Op.call (.resumeThread t)
  Op.update fun s => { s with atBreakpoint := s.atBreakpoint.erase t }

def suspendThread (t : ThreadId) : Op DebugError Session Unit := do
  reach
  Op.call (.suspendThread t)

def chosenThread (t : Option ThreadId) : Op DebugError Session ThreadId := do
  let some t := t <|> (← Op.state).selection.thread | throw .noThreadSelected
  return t

/-- Let the target run until the thread has made a step. A step that the thread has not finished
is given up. -/
def step (t : Option ThreadId) (depth : StepDepth) (size : StepSize) :
    Op DebugError Session Unit := do
  reach
  let t ← chosenThread t
  let info : ThreadInfo ← Op.call (.thread t)
  if !info.suspended then throw (.threadNotSuspended t)
  let previous ← Op.updateGet fun s => (s.steps.get? t, { s with steps := s.steps.erase t })
  if let some previous := previous then Op.lift (Task.quietly (.deleteRequest previous))
  let request : RequestId ← Op.call (.createStep t size depth)
  Op.update fun s => { s with steps := s.steps.insert t request }
  letRun

end JvmDebug.Session
