import JvmDebug.Target

/-!
What can go wrong, with its wording. A `TargetError` comes from the target or the way to it, a
`DebugError` from an operation of the debugger.
-/
namespace JvmDebug

inductive TargetError
  | disconnected
  | threadNotSuspended (thread : ThreadId)
  | invalidThread (thread : ThreadId)
  | invalidObject (object : ObjectId)
  | invalidFrame
  | indexOutOfBounds (index length : Int32)
  | unknownRequest (request : RequestId)
  | unsupported (text : String)
  | timeout
  | vm (code : UInt16)
  | protocol (text : String)
  | io (text : String)
  deriving DecidableEq, Repr, Inhabited

namespace TargetError

def message : TargetError → String
  | disconnected => "target VM disconnected"
  | threadNotSuspended t => "thread " ++ t.toNat.repr ++ " is not suspended"
  | invalidThread t => "invalid thread " ++ t.toNat.repr
  | invalidObject o => "invalid object " ++ o.toNat.repr
  | invalidFrame => "invalid stack frame"
  | indexOutOfBounds i n =>
    "index " ++ toString i.toInt ++ " out of bounds for length " ++ toString n.toInt
  | unknownRequest r => "unknown event request " ++ r.toNat.repr
  | unsupported text => "operation not supported: " ++ text
  | timeout => "timed out waiting for the target VM"
  | vm code => "target VM returned error code " ++ code.toNat.repr
  | protocol text => "protocol error: " ++ text
  | io text => text

def name : TargetError → String
  | disconnected => "Disconnected"
  | threadNotSuspended _ => "ThreadNotSuspended"
  | invalidThread _ => "InvalidThread"
  | invalidObject _ => "InvalidObject"
  | invalidFrame => "InvalidFrame"
  | indexOutOfBounds .. => "IndexOutOfBounds"
  | unknownRequest _ => "UnknownRequest"
  | unsupported _ => "Unsupported"
  | timeout => "Timeout"
  | vm _ => "Vm"
  | protocol _ => "Protocol"
  | io _ => "Io"

def isDisconnect : TargetError → Bool
  | disconnected => true
  | _ => false

end TargetError

structure SyntaxError where
  message : String
  position : Nat
  deriving DecidableEq, Repr, Inhabited

inductive DebugError
  | sessionNotFound (id : String)
  | sessionAlreadyExists (id : String)
  | noActiveSession
  | threadNotFound (thread : ThreadId)
  | noThreadSelected
  | threadNotSuspended (thread : ThreadId)
  | invalidFrameIndex (index count : Nat)
  | variableNotFound (name : String)
  | invalidBreakpointLocation (location : String)
  | classNotLoaded (name : String)
  | parse (error : SyntaxError)
  | evaluationFailed (text : String)
  | remoteInvocationThrew (className : String) (text : Option String)
  | connectionFailed (text : String)
  | vmDisconnected
  | breakpointNotFound (id : String)
  | target (error : TargetError)
  deriving DecidableEq, Repr, Inhabited

namespace DebugError

def message : DebugError → String
  | sessionNotFound id => "session not found: " ++ id
  | sessionAlreadyExists id => "session already exists: " ++ id
  | noActiveSession => "no active session"
  | threadNotFound t => "thread not found: " ++ t.toNat.repr
  | noThreadSelected => "no thread selected"
  | threadNotSuspended t => "thread " ++ t.toNat.repr ++ " is not suspended"
  | invalidFrameIndex i n =>
    "invalid frame index " ++ i.repr ++ " (thread has " ++ n.repr ++ " frames)"
  | variableNotFound name => "variable not found: " ++ name
  | invalidBreakpointLocation l => "invalid breakpoint location: " ++ l
  | classNotLoaded name => "class not loaded: " ++ name
  | parse e => "parse error at position " ++ e.position.repr ++ ": " ++ e.message
  | evaluationFailed text => "evaluation failed: " ++ text
  | remoteInvocationThrew c (some text) => "method threw exception: " ++ c ++ ": " ++ text
  | remoteInvocationThrew c none => "method threw exception: " ++ c
  | connectionFailed text => "connection failed: " ++ text
  | vmDisconnected => "VM disconnected"
  | breakpointNotFound id => "breakpoint not found: " ++ id
  | target e => "target: " ++ e.message

def code : DebugError → String
  | sessionNotFound _ => "SESSION_NOT_FOUND"
  | sessionAlreadyExists _ => "SESSION_ALREADY_EXISTS"
  | noActiveSession => "NO_ACTIVE_SESSION"
  | threadNotFound _ => "THREAD_NOT_FOUND"
  | noThreadSelected => "NO_THREAD_SELECTED"
  | threadNotSuspended _ => "THREAD_NOT_SUSPENDED"
  | invalidFrameIndex .. => "INVALID_FRAME_INDEX"
  | variableNotFound _ => "VARIABLE_NOT_FOUND"
  | invalidBreakpointLocation _ => "INVALID_BREAKPOINT_LOCATION"
  | classNotLoaded _ => "CLASS_NOT_LOADED"
  | parse _ => "PARSE_ERROR"
  | evaluationFailed _ => "EVALUATION_ERROR"
  | remoteInvocationThrew .. => "REMOTE_INVOCATION_THREW"
  | connectionFailed _ => "CONNECTION_FAILED"
  | vmDisconnected => "VM_DISCONNECTED"
  | breakpointNotFound _ => "BREAKPOINT_NOT_FOUND"
  | target _ => "TARGET_ERROR"

/-- A lost target, a running thread and an unknown thread have words of their own. -/
def ofTarget : TargetError → DebugError
  | .disconnected => vmDisconnected
  | .threadNotSuspended t => threadNotSuspended t
  | .invalidThread t => threadNotFound t
  | e => target e

end DebugError

end JvmDebug
