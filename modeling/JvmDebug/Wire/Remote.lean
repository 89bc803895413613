import JvmDebug.Wire.Line
import JvmDebug.Wire.Target.Answer

/-!
A target at the end of a line: its state and the line, changed together by each call.
-/
namespace JvmDebug.Wire

structure Remote where
  line : Line
  state : TargetState := {}

namespace Remote

/-- A target on a line; it listens to events from now on. -/
def ofLine (line : Line) : Remote := { line := { line with client := line.client.listen } }

/-- Run a routine to its end; a target that has been left gives up its line. -/
def run {α : Type} (r : Remote) (w : Work α) : Except TargetError α × Remote :=
  let (result, state, line) := (ExceptT.run w).run Line.perform r.state r.line
  (result, { state, line := if state.detached then line.shutdown else line })

def call (r : Remote) (c : Call) : c.Reply × Remote := r.run (Work.answer c)

/-- The next set of events, if one has arrived. A set that cannot be converted is lost. Sets that
have arrived can be read even when the line is dead. -/
def nextEvents (r : Remote) : Except TargetError (Option EventSet) × Remote :=
  match r.line.client.events.pop with
  | (some set, events) =>
    let client := { r.line.client with events }
    { r with line := { r.line with client } }.run (some <$> Work.eventSet set)
  | (none, _) => (if r.line.client.closed then .error .disconnected else .ok none, r)

end Remote

end JvmDebug.Wire
