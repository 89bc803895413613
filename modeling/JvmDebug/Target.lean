import JvmDebug.Value

/-!
What a debugger sees of its target: code locations, threads, frames, types and their members, and
the events the target reports in sets.
-/
namespace JvmDebug

structure Location where
  typeTag : UInt8
  classId : TypeId
  methodId : MethodId
  index : UInt64
  deriving DecidableEq, Repr, Inhabited

structure Place where
  className : String := ""
  methodName : String := ""
  line : Option UInt32 := none
  sourceName : Option String := none
  deriving DecidableEq, Repr, Inhabited

inductive ThreadStatus
  | zombie | running | sleeping | monitor | wait | notStarted
  deriving DecidableEq, Repr, Inhabited

namespace ThreadStatus

def ofCode (n : Int32) : ThreadStatus :=
  if n = 0 then zombie else if n = 1 then running else if n = 2 then sleeping
  else if n = 3 then monitor else if n = 4 then wait else notStarted

def name : ThreadStatus → String
  | zombie => "zombie"
  | running => "running"
  | sleeping => "sleeping"
  | monitor => "monitor"
  | wait => "wait"
  | notStarted => "not_started"

end ThreadStatus

structure ThreadInfo where
  id : ThreadId
  name : String
  status : ThreadStatus
  suspended : Bool
  deriving DecidableEq, Repr, Inhabited

structure Frame where
  id : FrameId
  location : Location
  deriving DecidableEq, Repr, Inhabited

inductive TypeKind
  | classType | interface | array
  deriving DecidableEq, Repr, Inhabited

namespace TypeKind

def ofTag (tag : UInt8) : TypeKind :=
  if tag = 2 then interface else if tag = 3 then array else classType

def tag : TypeKind → UInt8
  | classType => 1
  | interface => 2
  | array => 3

def name : TypeKind → String
  | classType => "Class"
  | interface => "Interface"
  | array => "Array"

end TypeKind

structure TypeInfo where
  id : TypeId
  name : String
  kind : TypeKind
  deriving DecidableEq, Repr, Inhabited

def staticBit : UInt32 := 8

structure Method where
  id : MethodId
  declaringType : TypeId
  name : String
  signature : String
  modifiers : UInt32
  deriving DecidableEq, Repr, Inhabited

namespace Method

def isStatic (m : Method) : Bool := m.modifiers &&& staticBit != 0

def isConstructor (m : Method) : Bool := m.name == "<init>"

def argumentTypes? (m : Method) : Option (List String) :=
  (Signature.arguments? m.signature).map (·.map Signature.toTypeName)

def argumentTypes (m : Method) : List String := m.argumentTypes?.getD []

def returnType (m : Method) : String := Signature.toTypeName (Signature.result m.signature)

end Method

structure Field where
  id : FieldId
  declaringType : TypeId
  name : String
  signature : String
  modifiers : UInt32
  deriving DecidableEq, Repr, Inhabited

namespace Field

def isStatic (f : Field) : Bool := f.modifiers &&& staticBit != 0

def typeName (f : Field) : String := Signature.toTypeName f.signature

end Field

structure Variable where
  name : String
  signature : String
  slot : UInt32
  isArgument : Bool
  deriving DecidableEq, Repr, Inhabited

def Variable.typeName (v : Variable) : String := Signature.toTypeName v.signature

inductive StepDepth
  | into | over | out
  deriving DecidableEq, Repr, Inhabited

def StepDepth.code : StepDepth → UInt32
  | .into => 0
  | .over => 1
  | .out => 2

inductive StepSize
  | instruction | line
  deriving DecidableEq, Repr, Inhabited

def StepSize.code : StepSize → UInt32
  | instruction => 0
  | line => 1

inductive SuspendPolicy
  | none | eventThread | all
  deriving DecidableEq, Repr, Inhabited

namespace SuspendPolicy

def ofCode (n : UInt8) : SuspendPolicy :=
  if n = 0 then none else if n = 1 then eventThread else all

def code : SuspendPolicy → UInt8
  | none => 0
  | eventThread => 1
  | all => 2

end SuspendPolicy

/-- One event of the target. The request is absent when none of the debugger's requests caused the
event, or when that request has been deleted since. -/
inductive TargetEvent
  | vmStart (thread : ThreadId)
  | breakpoint (request : Option RequestId) (thread : ThreadId) (at_ : Location)
  | step (request : Option RequestId) (thread : ThreadId) (at_ : Location)
  | exception (request : Option RequestId) (thread : ThreadId) (at_ : Location)
      (exception : ObjectRef) (catchAt : Option Location)
  | threadStart (thread : ThreadId)
  | threadDeath (thread : ThreadId)
  | classPrepare (request : Option RequestId) (thread : ThreadId) (type : TypeInfo)
  | vmDeath
  deriving DecidableEq, Repr, Inhabited

namespace TargetEvent

def thread? : TargetEvent → Option ThreadId
  | vmStart t | breakpoint _ t _ | step _ t _ | exception _ t _ _ _ | threadStart t
  | threadDeath t | classPrepare _ t _ => some t
  | vmDeath => none

/-- Breakpoints, steps and exceptions stop the target for the user. -/
def isStop : TargetEvent → Bool
  | breakpoint .. | step .. | exception .. => true
  | _ => false

end TargetEvent

/-- Events delivered together, after the target has applied the suspend policy. -/
structure EventSet where
  policy : SuspendPolicy
  events : List TargetEvent
  deriving DecidableEq, Repr, Inhabited

/-- A set is resumed after handling unless it holds a stop. -/
def EventSet.shouldResume (set : EventSet) : Bool := !set.events.any TargetEvent.isStop

inductive Outcome
  | returned (v : Value)
  | threw (exception : ObjectRef)
  deriving DecidableEq, Repr, Inhabited

structure VmVersion where
  description : String
  vmName : String
  vmVersion : String
  deriving DecidableEq, Repr, Inhabited

structure Launch where
  mainClass : String
  classpath : List String
  vmArguments : List String
  programArguments : List String
  deriving DecidableEq, Repr, Inhabited

inductive Destination
  | remote (host : String) (tcpPort : UInt16)
  | local (pid : UInt32)
  | launch (program : Launch)
  deriving DecidableEq, Repr, Inhabited

inductive Origin
  | launched | attachedLocal | attachedRemote
  deriving DecidableEq, Repr, Inhabited

def Origin.name : Origin → String
  | launched => "launched"
  | attachedLocal => "attached_local"
  | attachedRemote => "attached_remote"

namespace Destination

def origin : Destination → Origin
  | remote .. => .attachedRemote
  | .local _ => .attachedLocal
  | launch _ => .launched

def describe : Destination → String
  | remote host tcpPort => host ++ ":" ++ tcpPort.toNat.repr
  | .local pid => "pid " ++ pid.toNat.repr
  | launch program => "launch " ++ program.mainClass

end Destination

end JvmDebug
