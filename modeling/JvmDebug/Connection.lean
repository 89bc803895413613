import JvmDebug.Error
import JvmDebug.Routine

/-!
The calls a debugger makes on its connection to a target, and the type of the answer to each.
Waiting for events is not among them: a session's event loop does that between its steps.
-/
namespace JvmDebug

inductive Call
  | version
  | allThreads
  | thread (t : ThreadId)
  | suspendThread (t : ThreadId)
  | resumeThread (t : ThreadId)
  | suspendAll
  | resumeAll
  | frames (t : ThreadId)
  | place (l : Location)
  | visibleVariables (t : ThreadId) (f : Frame)
  | localValues (t : ThreadId) (f : Frame) (vs : List Variable)
  | setLocalValue (t : ThreadId) (f : Frame) (v : Variable) (value : Value)
  | thisObject (t : ThreadId) (f : Frame)
  | classesByName (name : String)
  | superclass (c : TypeId)
  | interfaces (c : TypeId)
  | methods (c : TypeId)
  | fields (c : TypeId)
  | lineLocations (c : TypeId) (line : UInt32)
  | methodEntry (m : Method)
  | getField (o : ObjectRef) (f : Field)
  | setField (o : ObjectRef) (f : Field) (value : Value)
  | getStaticField (c : TypeId) (f : Field)
  | arrayLength (a : ObjectRef)
  | arrayGet (a : ObjectRef) (i : Int32)
  | arraySet (a : ObjectRef) (i : Int32) (value : Value)
  | stringValue (s : ObjectRef)
  | createString (text : String)
  | invokeStatic (t : ThreadId) (c : TypeId) (m : Method) (args : List Value)
  | invokeInstance (t : ThreadId) (o : ObjectRef) (m : Method) (args : List Value)
  | newInstance (t : ThreadId) (c : TypeId) (m : Method) (args : List Value)
  | newArray (c : TypeId) (length : Int32)
  | createBreakpoint (l : Location)
  | createStep (t : ThreadId) (size : StepSize) (depth : StepDepth)
  | createExceptionRequest (scope : Option TypeId) (caught uncaught : Bool)
  | createClassPrepareWatch (name : String)
  | watchThreadLifecycle
  | setRequestEnabled (r : RequestId) (enabled : Bool)
  | deleteRequest (r : RequestId)
  | resumeEventSet (set : EventSet)
  | dispose
  deriving DecidableEq, Repr

namespace Call

abbrev Answer : Call → Type
  | version => VmVersion
  | allThreads => List ThreadInfo
  | thread _ => ThreadInfo
  | frames _ => List Frame
  | place _ => Place
  | visibleVariables .. => List Variable
  | localValues .. => List Value
  | thisObject .. => Option ObjectRef
  | classesByName _ | interfaces _ => List TypeInfo
  | superclass _ => Option TypeInfo
  | methods _ => List Method
  | fields _ => List Field
  | lineLocations .. => List Location
  | methodEntry _ => Option Location
  | getField .. | getStaticField .. | arrayGet .. => Value
  | arrayLength _ => Int32
  | stringValue _ => String
  | createString _ | newArray .. => ObjectRef
  | invokeStatic .. | invokeInstance .. | newInstance .. => Outcome
  | createBreakpoint _ | createStep .. | createExceptionRequest .. | createClassPrepareWatch _ =>
    RequestId
  | watchThreadLifecycle => List RequestId
  | suspendThread _ | resumeThread _ | suspendAll | resumeAll | setLocalValue .. | setField ..
  | arraySet .. | setRequestEnabled .. | deleteRequest _ | resumeEventSet _ | dispose => Unit

abbrev Reply (c : Call) : Type := Except TargetError c.Answer

def name : Call → String
  | version => "version"
  | allThreads => "all_threads"
  | thread _ => "thread"
  | suspendThread _ => "suspend_thread"
  | resumeThread _ => "resume_thread"
  | suspendAll => "suspend_all"
  | resumeAll => "resume_all"
  | frames _ => "frames"
  | place _ => "location_info"
  | visibleVariables .. => "visible_variables"
  | localValues .. => "local_values"
  | setLocalValue .. => "set_local_value"
  | thisObject .. => "this_object"
  | classesByName _ => "classes_by_name"
  | superclass _ => "superclass"
  | interfaces _ => "interfaces"
  | methods _ => "methods"
  | fields _ => "fields"
  | lineLocations .. => "line_locations"
  | methodEntry _ => "method_entry"
  | getField .. => "get_field"
  | setField .. => "set_field"
  | getStaticField .. => "get_static_field"
  | arrayLength _ => "array_length"
  | arrayGet .. => "array_get"
  | arraySet .. => "array_set"
  | stringValue _ => "string_value"
  | createString _ => "create_string"
  | invokeStatic .. => "invoke_static"
  | invokeInstance .. => "invoke_instance"
  | newInstance .. => "new_instance"
  | newArray .. => "new_array"
  | createBreakpoint _ => "create_breakpoint"
  | createStep .. => "create_step"
  | createExceptionRequest .. => "create_exception_request"
  | createClassPrepareWatch _ => "create_class_prepare_watch"
  | watchThreadLifecycle => "watch_thread_lifecycle"
  | setRequestEnabled .. => "set_request_enabled"
  | deleteRequest _ => "delete_request"
  | resumeEventSet _ => "resume_event_set"
  | dispose => "dispose"

end Call

abbrev Task (σ : Type) : Type → Type := Routine Call Call.Reply σ

abbrev Op (ε σ : Type) : Type → Type := ExceptT ε (Task σ)

namespace Task
variable {σ : Type}

def attempt (c : Call) : Task σ c.Reply := Routine.ask c

def quietly (c : Call) : Task σ Unit := Routine.request c fun _ => .done ()

def quietlyAll : List Call → Task σ Unit
  | [] => .done ()
  | c :: cs => do
    quietly c
    quietlyAll cs

end Task

namespace Op
variable {ε σ α : Type}

def call (c : Call) : Op DebugError σ c.Answer :=
  ExceptT.mk (Routine.request c fun r => .done (r.mapError DebugError.ofTarget))

def lift (m : Task σ α) : Op ε σ α := ExceptT.lift m

def attempt (c : Call) : Op ε σ c.Reply := lift (Task.attempt c)

def state : Op ε σ σ := lift Routine.get

def update (f : σ → σ) : Op ε σ Unit := lift (Routine.modify f)

def updateGet (f : σ → α × σ) : Op ε σ α := lift (Routine.modifyGet f)

def ofExcept (r : Except ε α) : Op ε σ α := ExceptT.mk (.done r)

def outcome (m : Op ε σ α) : Task σ (Except ε α) := m.run

end Op

end JvmDebug
