import JvmDebug.Session
import JvmDebug.Text.CharClass

/-!
Setting, switching and removing breakpoints. A breakpoint on a class that is not loaded waits for
the class behind a watch and is installed when the target reports the class.
-/
namespace JvmDebug

def deletions (requests : List RequestId) : List Call := requests.map .deleteRequest

/-! ## Installing -/

section
variable {σ : Type}

def methodEntries (name : String) : List Method → Op DebugError σ (List Location)
  | [] => return []
  | m :: ms => do
    if m.name == name then
      let entry : Option Location ← Op.call (.methodEntry m)
      return entry.toList ++ (← methodEntries name ms)
    else methodEntries name ms

def classLocations (c : TypeInfo) (kind : BreakpointKind) : Op DebugError σ (List Location) :=
  match kind with
  | .line n => Op.call (.lineLocations c.id n)
  | .method name => do
    let methods : List Method ← Op.call (.methods c.id)
    methodEntries name methods

def allLocations (kind : BreakpointKind) : List TypeInfo → Op DebugError σ (List Location)
  | [] => return []
  | c :: cs => do
    let here ← classLocations c kind
    return here ++ (← allLocations kind cs)

/-- The code locations of a breakpoint in loaded classes; a location that repeats the one before
it is dropped. -/
def resolveLocations (classes : List TypeInfo) (kind : BreakpointKind) :
    Op DebugError σ (List Location) := do
  return (← allLocations kind classes).eraseReps

/-- One request for each location. If one cannot be made, those already made are deleted. -/
def install (made : List RequestId) : List Location → Op DebugError σ (List RequestId)
  | [] => return made
  | l :: ls => do
    match ← Op.attempt (.createBreakpoint l) with
    | .ok (r : RequestId) => install (made ++ [r]) ls
    | .error e =>
      Op.lift (Task.quietlyAll (deletions made))
      throw (.ofTarget e)

end

namespace Session

def getBreakpoint (id : String) : Op DebugError Session Breakpoint := do
  let some b := (← Op.state).breakpoints.get? id | throw (.breakpointNotFound id)
  return b

/-- Let a breakpoint wait for its class. Where two breakpoints make a watch at the same time, the
second one's is deleted. -/
def addPending (b : Breakpoint) : Op DebugError Session Breakpoint := do
  match (← Op.state).breakpoints.watch? b.className with
  | some watch =>
    Op.update fun s => { s with breakpoints := s.breakpoints.insertPending b watch }
  | none =>
    let watch : RequestId ← Op.call (.createClassPrepareWatch b.className)
    Op.update fun s => { s with breakpoints := s.breakpoints.insertPending b watch }
    if (← Op.state).breakpoints.watch? b.className != some watch then
      Op.lift (Task.quietly (.deleteRequest watch))
  getBreakpoint b.id

def addBreakpoint (className : String) (kind : BreakpointKind) (condition : Option String) :
    Op DebugError Session Breakpoint := do
  reach
  let id ← Op.updateGet freshId
  let b : Breakpoint :=
    { id, className, kind
      condition := condition.filter fun c => !c.isEmpty
      enabled := true
      hitCount := 0
      createdAt := (← Op.state).clock
      resolvedLocations := 0
      pending := false }
  let classes : List TypeInfo ← Op.call (.classesByName className)
  if classes.isEmpty then addPending b
  else do
    let locations ← resolveLocations classes kind
    if locations.isEmpty then throw (.invalidBreakpointLocation b.place)
    let requests ← install [] locations
    Op.update fun s => { s with breakpoints := s.breakpoints.insertInstalled b requests }
    getBreakpoint id

def takePending (className : String) (s : Session) :
    Option (RequestId × List Breakpoint) × Session :=
  let (taken, breakpoints) := s.breakpoints.takePending className
  (taken, { s with breakpoints })

def bookRequests (id : String) (requests : List RequestId) (s : Session) : Option Bool × Session :=
  let (enabled, breakpoints) := s.breakpoints.materialize id requests
  (enabled, { s with breakpoints })

/-- Requests made for a breakpoint that was switched off meanwhile are switched off, and those for
one without a place in the table are deleted again. -/
def followUp (requests : List RequestId) : Option Bool → Task Session Unit
  | some true => return
  | some false => Task.quietlyAll (requests.map fun r => .setRequestEnabled r false)
  | none => Task.quietlyAll (deletions requests)

/-- Install one breakpoint in a class that has just been loaded. Without requests it stays as it
is. -/
def materialize (c : TypeInfo) (b : Breakpoint) : Task Session Unit := do
  let attempt : Op DebugError Session (List RequestId) := do
    install [] (← resolveLocations [c] b.kind)
  let requests := match ← attempt.outcome with
    | .ok requests => requests
    | .error _ => []
  followUp requests (← Routine.modifyGet (bookRequests b.id requests))

def materializeAll (c : TypeInfo) : List Breakpoint → Task Session Unit
  | [] => return
  | b :: bs => do
    materialize c b
    materializeAll c bs

def installWaiting (c : TypeInfo) : Option (RequestId × List Breakpoint) → Task Session Unit
  | none => return
  | some (watch, waiting) => do
    if (← Routine.get).unreachable?.isSome then return
    Task.quietly (.deleteRequest watch)
    materializeAll c waiting

def classLoaded (c : TypeInfo) : Task Session Unit := do
  installWaiting c (← Routine.modifyGet (takePending c.name))

/-! ## Switching and removing -/

def switchAll (enabled : Bool) : List RequestId → Op DebugError Session Unit
  | [] => return
  | r :: rs => do
    let _ : Unit ← Op.call (.setRequestEnabled r enabled)
    switchAll enabled rs

def storeEnabled (id : String) (enabled : Bool) (s : Session) :
    Option (List RequestId) × Session :=
  match s.breakpoints.setEnabled id enabled with
  | (some requests, breakpoints) => (some requests, { s with breakpoints })
  | (none, _) =>
    let (request, exceptions) := s.exceptions.setEnabled id enabled
    (request.map ([·]), { s with exceptions })

section StoreEnabled
variable {s : Session} {id : String} {enabled : Bool}

theorem storeEnabled_of_none (he : s.breakpoints.entries.get? id = none) :
    storeEnabled id enabled s = ((s.exceptions.entries.get? id).map fun e => [e.request],
      { s with exceptions := (s.exceptions.setEnabled id enabled).2 }) := by
  simp only [storeEnabled, BreakpointTable.setEnabled, he, ExceptionTable.setEnabled,
    Option.map_map]
  rfl

theorem storeEnabled_of_some {e : BreakpointEntry} (he : s.breakpoints.entries.get? id = some e) :
    storeEnabled id enabled s =
      (some e.requests, { s with breakpoints := (s.breakpoints.setEnabled id enabled).2 }) := by
  simp only [storeEnabled, BreakpointTable.setEnabled, he]

end StoreEnabled

def setEnabled (id : String) (enabled : Bool) : Op DebugError Session Unit := do
  let stored ← Op.updateGet (storeEnabled id enabled)
  let some requests := stored | throw (.breakpointNotFound id)
  if requests.isEmpty then return
  reach
  switchAll enabled requests

def deleteAll (requests : List RequestId) : Task Session Unit := do
  if (← Routine.get).attachment.isSome then Task.quietlyAll (deletions requests)

def takeOut (id : String) (s : Session) : Option (List RequestId) × Session :=
  match s.breakpoints.remove id with
  | (some (requests, watch), breakpoints) =>
    (some (requests ++ watch.toList), { s with breakpoints })
  | (none, _) =>
    let (request, exceptions) := s.exceptions.remove id
    (request.map ([·]), { s with exceptions })

section TakeOut
variable {s : Session} {id : String}

theorem takeOut_of_none (he : s.breakpoints.entries.get? id = none) :
    takeOut id s = ((s.exceptions.entries.get? id).map fun e => [e.request],
      { s with exceptions := (s.exceptions.remove id).2 }) := by
  simp only [takeOut, BreakpointTable.remove_of_none he, ExceptionTable.remove, Option.map_map]
  rfl

theorem takeOut_of_some {e : BreakpointEntry} (he : s.breakpoints.entries.get? id = some e) :
    ∃ requests, takeOut id s =
      (some requests, { s with breakpoints := (s.breakpoints.remove id).2 }) := by
  have htaken := BreakpointTable.remove_fst he
  simp only [takeOut]
  split
  · next requests watch breakpoints heq =>
    rw [heq]
    exact ⟨_, rfl⟩
  · next heq =>
    rw [heq] at htaken
    cases htaken

end TakeOut

def removeBreakpoint (id : String) : Op DebugError Session Unit := do
  let stored ← Op.updateGet (takeOut id)
  let some requests := stored | throw (.breakpointNotFound id)
  Op.lift (deleteAll requests)

def takeAll (s : Session) : (Nat × List RequestId) × Session :=
  ((s.breakpoints.entries.size + s.exceptions.entries.size,
    s.breakpoints.allRequests ++ s.exceptions.allRequests),
    { s with breakpoints := {}, exceptions := {} })

def clearBreakpoints : Task Session Nat := do
  let (count, requests) ← Routine.modifyGet takeAll
  deleteAll requests
  return count

/-! ## Exceptions -/

def meansAny (className : String) : Bool :=
  ["", "*", "any"].contains (String.ofList (Text.trim className.toList))

/-- Stop at exceptions of a class; one that is not loaded is taken for every class. -/
def addExceptionBreakpoint (className : String) (caught uncaught : Bool) :
    Op DebugError Session ExceptionBreakpoint := do
  reach
  let any := meansAny className
  let scope : Option TypeId ←
    if any then pure none
    else do
      let classes : List TypeInfo ← Op.call (.classesByName className)
      pure (classes.head?.map TypeInfo.id)
  let request : RequestId ← Op.call (.createExceptionRequest scope caught uncaught)
  let id ← Op.updateGet freshId
  let b : ExceptionBreakpoint :=
    { id, caught, uncaught
      className := if any then "*" else className
      enabled := true
      createdAt := (← Op.state).clock }
  Op.update fun s => { s with exceptions := s.exceptions.insert b request }
  return b

end Session

end JvmDebug
