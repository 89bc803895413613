import JvmDebug.Proofs.Installing

/-!
The requests and the updates that an operation on breakpoints is made of, step by step and whatever
is asked of them.
-/
namespace JvmDebug

open Routine

namespace Session

/-- An exception breakpoint is made once it is known which class it is for. -/
def makeException (className : String) (scope : Option TypeId) (caught uncaught : Bool) :
    Op DebugError Session ExceptionBreakpoint := do
  let request : RequestId ← Op.call (.createExceptionRequest scope caught uncaught)
  let id ← Op.updateGet freshId
  let b : ExceptionBreakpoint :=
    { id, className, caught, uncaught
      enabled := true
      createdAt := (← Op.state).clock }
  Op.update fun s => { s with exceptions := s.exceptions.insert b request }
  return b

theorem addExceptionBreakpoint_eq (className : String) (caught uncaught : Bool) :
    addExceptionBreakpoint className caught uncaught = (do
      reach
      if meansAny className then makeException "*" none caught uncaught
      else do
        let classes : List TypeInfo ← Op.call (.classesByName className)
        makeException className (classes.head?.map TypeInfo.id) caught uncaught) := by
  unfold addExceptionBreakpoint
  refine congrArg (reach >>= ·) (funext fun _ => ?_)
  dsimp only
  cases meansAny className
  · simp only [Bool.false_eq_true, ↓reduceIte]
    refine congrArg (Op.call (.classesByName className) >>= ·) (funext fun classes => ?_)
    rw [makeException, pure_bind]
  · simp only [↓reduceIte]
    rw [makeException, pure_bind]

section
variable {P : Call → Prop} {U : Session → Session → Prop}

theorem within_reach (hU : ∀ s, U s s) : reach.run.Within P U := by
  refine Op.within_bind (fun s => ⟨hU s, trivial⟩) fun s => ?_
  split <;> trivial

theorem within_getBreakpoint (hU : ∀ s, U s s) (id : String) :
    (getBreakpoint id).run.Within P U := by
  refine Op.within_bind (fun s => ⟨hU s, trivial⟩) fun s => ?_
  split <;> trivial

theorem within_addPending (hU : ∀ s, U s s) {b : Breakpoint}
    (hwatch : P (.createClassPrepareWatch b.className)) (hdelete : ∀ r, P (.deleteRequest r))
    (hpending : ∀ (s : Session) watch,
      U s { s with breakpoints := s.breakpoints.insertPending b watch }) :
    (addPending b).run.Within P U := by
  refine Op.within_bind (fun s => ⟨hU s, trivial⟩) fun s => ?_
  split
  · exact Op.within_bind (fun s => ⟨hpending s _, trivial⟩) fun _ => within_getBreakpoint hU _
  · refine Op.within_bind (Op.within_call hwatch) fun watch => ?_
    refine Op.within_bind (fun s => ⟨hpending s watch, trivial⟩) fun _ => ?_
    refine Op.within_bind (fun s => ⟨hU s, trivial⟩) fun s => ?_
    split
    · exact Op.within_bind (Op.within_lift ⟨hdelete watch, fun _ => trivial⟩) fun _ =>
        within_getBreakpoint hU _
    · exact within_getBreakpoint hU _

theorem within_addBreakpoint (hU : ∀ s, U s s) {className : String} {kind : BreakpointKind}
    {condition : Option String} (hinstall : ∀ c : Call, c.installs → P c)
    (hwatch : P (.createClassPrepareWatch className)) (hfresh : ∀ s : Session, U s s.freshId.2)
    (hpending : ∀ (s : Session) b watch,
      U s { s with breakpoints := s.breakpoints.insertPending b watch })
    (hinstalled : ∀ (s : Session) b requests,
      U s { s with breakpoints := s.breakpoints.insertInstalled b requests }) :
    (addBreakpoint className kind condition).run.Within P U := by
  have hlook {α : Type} {m : Task Session α} (hm : Inspects m) : m.Within P U :=
    hm.mono (fun _ hc => hinstall _ (Call.installs_of_inspects hc)) fun _ _ hf => hf.elim
  refine Op.within_bind (within_reach hU) fun _ => ?_
  refine Op.within_bind (fun s => ⟨hfresh s, trivial⟩) fun id => ?_
  refine Op.within_bind (fun s => ⟨hU s, trivial⟩) fun s => ?_
  refine Op.within_bind (hlook (inspects_call rfl)) fun classes => ?_
  dsimp only
  split
  · exact within_addPending hU hwatch (fun r => hinstall (.deleteRequest r) rfl)
      fun s => hpending s _
  · refine Op.within_bind (hlook (inspects_resolveLocations _ _)) fun locations => ?_
    split
    · trivial
    · refine Op.within_bind (within_install hinstall [] locations) fun requests => ?_
      exact Op.within_bind (fun s => ⟨hinstalled s _ _, trivial⟩) fun _ =>
        within_getBreakpoint hU _

theorem within_switchAll (hP : ∀ r on, P (.setRequestEnabled r on)) (enabled : Bool)
    (requests : List RequestId) : (switchAll enabled requests).run.Within P U := by
  induction requests with
  | nil => trivial
  | cons r rs ih => exact Op.within_bind (Op.within_call (hP r enabled)) fun _ => ih

theorem within_setEnabled (hP : ∀ r on, P (.setRequestEnabled r on)) (hU : ∀ s, U s s)
    {id : String} {enabled : Bool} (hstore : ∀ s, U s (storeEnabled id enabled s).2) :
    (setEnabled id enabled).run.Within P U := by
  refine Op.within_bind (fun s => ⟨hstore s, trivial⟩) fun stored => ?_
  split
  · split
    · trivial
    · exact Op.within_bind (within_reach hU) fun _ => within_switchAll hP _ _
  · trivial

theorem within_deletions (hP : ∀ r, P (.deleteRequest r)) (requests : List RequestId) :
    (Task.quietlyAll (deletions requests) : Task Session Unit).Within P U :=
  Task.within_quietlyAll hP requests

theorem within_deleteAll (hP : ∀ r, P (.deleteRequest r)) (hU : ∀ s, U s s)
    (requests : List RequestId) : (deleteAll requests).Within P U := by
  refine within_bind (fun s => ⟨hU s, trivial⟩) fun s => ?_
  split
  · exact within_deletions hP requests
  · trivial

theorem within_removeBreakpoint (hP : ∀ r, P (.deleteRequest r)) (hU : ∀ s, U s s) {id : String}
    (htake : ∀ s, U s (takeOut id s).2) : (removeBreakpoint id).run.Within P U := by
  refine Op.within_bind (fun s => ⟨htake s, trivial⟩) fun stored => ?_
  split
  · exact Op.within_lift (within_deleteAll hP hU _)
  · trivial

theorem within_clearBreakpoints (hP : ∀ r, P (.deleteRequest r)) (hU : ∀ s, U s s)
    (htake : ∀ s, U s (takeAll s).2) : clearBreakpoints.Within P U := by
  refine within_bind (within_modifyGet htake) fun taken => ?_
  exact within_bind (within_deleteAll hP hU _) fun _ => trivial

theorem within_makeException {className : String} {scope : Option TypeId} {caught uncaught : Bool}
    (hP : P (.createExceptionRequest scope caught uncaught)) (hU : ∀ s, U s s)
    (hfresh : ∀ s : Session, U s s.freshId.2)
    (hinsert : ∀ (s : Session) b r, U s { s with exceptions := s.exceptions.insert b r }) :
    (makeException className scope caught uncaught).run.Within P U := by
  refine Op.within_bind (Op.within_call hP) fun request => ?_
  refine Op.within_bind (fun s => ⟨hfresh s, trivial⟩) fun id => ?_
  refine Op.within_bind (fun s => ⟨hU s, trivial⟩) fun s => ?_
  exact Op.within_bind (fun s => ⟨hinsert s _ _, trivial⟩) fun _ => trivial

theorem within_addExceptionBreakpoint {className : String} {caught uncaught : Bool}
    (hclasses : P (.classesByName className))
    (hP : ∀ scope, P (.createExceptionRequest scope caught uncaught)) (hU : ∀ s, U s s)
    (hfresh : ∀ s : Session, U s s.freshId.2)
    (hinsert : ∀ (s : Session) b r, U s { s with exceptions := s.exceptions.insert b r }) :
    (addExceptionBreakpoint className caught uncaught).run.Within P U := by
  have hmake (name : String) (scope : Option TypeId) :
      (makeException name scope caught uncaught).run.Within P U :=
    within_makeException (hP scope) hU hfresh hinsert
  rw [addExceptionBreakpoint_eq]
  refine Op.within_bind (within_reach hU) fun _ => ?_
  split
  · exact hmake _ _
  · exact Op.within_bind (Op.within_call hclasses) fun classes => hmake _ _

end

end Session

end JvmDebug
