import JvmDebug.Proofs.RoutineSteps
import JvmDebug.Session.EventLoop
import JvmDebug.Vm.Answer

/-!
Routines that only look at the target: they change neither the session nor the machine, so they
leave every invariant alone.
-/
namespace JvmDebug

def Call.inspects : Call → Bool
  | version | allThreads | thread _ | frames _ | place _ | visibleVariables .. | localValues ..
  | thisObject .. | classesByName _ | superclass _ | interfaces _ | methods _ | fields _
  | lineLocations .. | methodEntry _ | getField .. | getStaticField .. | arrayLength _
  | arrayGet .. | stringValue _ => true
  | _ => false

theorem Vm.answer_inspects (vm : Vm) {c : Call} (h : c.inspects) : (vm.answer c).2 = vm := by
  cases c <;> simp only [Call.inspects, Bool.false_eq_true] at h <;> try rfl
  all_goals
    simp only [answer]
    split <;> rfl

def Routine.Inspects {σ α : Type} (m : Task σ α) : Prop :=
  m.Within (fun c => c.inspects) fun _ _ => False

namespace Routine
variable {σ α β : Type}

theorem Inspects.bind {m : Task σ α} {g : α → Task σ β} (hm : Inspects m)
    (hg : ∀ a, Inspects (g a)) : Inspects (bind m g) := within_bind hm hg

theorem inspects_done (a : α) : Inspects (done a : Task σ α) := trivial

theorem inspects_attempt {c : Call} (h : c.inspects) : Inspects (Task.attempt c : Task σ c.Reply) :=
  within_ask h

theorem Inspects.op_bind {ε : Type} {m : Op ε σ α} {g : α → Op ε σ β} (hm : Inspects m.run)
    (hg : ∀ a, Inspects (g a).run) : Inspects (m >>= g).run := Op.within_bind hm hg

theorem inspects_call {c : Call} (h : c.inspects) :
    Inspects (Op.call c : Op DebugError σ c.Answer).run := Op.within_call h

end Routine

open Routine

/-! ## Finding locations -/

section
variable {σ : Type}

theorem inspects_methodEntries (name : String) (ms : List Method) :
    Inspects (methodEntries name ms : Op DebugError σ (List Location)).run := by
  induction ms with
  | nil => exact inspects_done _
  | cons m ms ih =>
    simp only [methodEntries]
    split
    · refine (inspects_call rfl).op_bind fun entry => ?_
      exact ih.op_bind fun _ => inspects_done _
    · exact ih

theorem inspects_classLocations (c : TypeInfo) (kind : BreakpointKind) :
    Inspects (classLocations c kind : Op DebugError σ (List Location)).run := by
  cases kind with
  | line n => exact inspects_call rfl
  | method name => exact (inspects_call rfl).op_bind fun ms => inspects_methodEntries name ms

theorem inspects_allLocations (kind : BreakpointKind) (classes : List TypeInfo) :
    Inspects (allLocations kind classes : Op DebugError σ (List Location)).run := by
  induction classes with
  | nil => exact inspects_done _
  | cons c cs ih =>
    refine (inspects_classLocations c kind).op_bind fun here => ?_
    exact ih.op_bind fun _ => inspects_done _

theorem inspects_resolveLocations (classes : List TypeInfo) (kind : BreakpointKind) :
    Inspects (resolveLocations classes kind : Op DebugError σ (List Location)).run :=
  (inspects_allLocations kind classes).op_bind fun _ => inspects_done _

/-! ## Describing a stop -/

theorem inspects_placeOf (l : Location) : Inspects (placeOf l : Task σ Place) := by
  refine (inspects_attempt rfl).bind fun r => ?_
  cases r <;> exact inspects_done _

theorem inspects_threadName (t : ThreadId) : Inspects (threadName t : Task σ String) := by
  refine (inspects_attempt rfl).bind fun r => ?_
  cases r <;> exact inspects_done _

theorem inspects_threadPlace (t : ThreadId) (l : Location) :
    Inspects (threadPlace t l : Task σ ThreadPlace) :=
  (inspects_placeOf l).bind fun _ => (inspects_threadName t).bind fun _ => inspects_done _

theorem inspects_exceptionMessage (o : ObjectRef) :
    Inspects (Display.exceptionMessage? o : Task σ (Option String)) := by
  refine (inspects_attempt rfl).bind fun r => ?_
  cases r with
  | error e => exact inspects_done _
  | ok fields =>
    dsimp only
    split
    · refine (inspects_attempt rfl).bind fun r => ?_
      split
      · split
        · exact (inspects_attempt rfl).bind fun _ => inspects_done _
        · exact inspects_done _
      · exact inspects_done _
    · exact inspects_done _

end

end JvmDebug
