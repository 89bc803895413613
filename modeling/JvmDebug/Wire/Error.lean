import JvmDebug.Error

/-!
What can go wrong on the wire, and what it means to a user of the target.
-/
namespace JvmDebug

inductive WireError
  | protocol (text : String)
  | timeout
  | cancelled
  | closed
  | vm (code : UInt16)
  | io (text : String)
  deriving DecidableEq, Repr, Inhabited

namespace WireError

def message : WireError → String
  | protocol text => "JDWP protocol error: " ++ text
  | timeout => "timed out waiting for JDWP reply"
  | cancelled => "JDWP request cancelled"
  | closed => "JDWP connection closed"
  | vm code => "JDWP VM error code " ++ code.toNat.repr
  | io text => text

/-- The reply of a command that asks for what the class file does not tell. -/
def absentInformation : UInt16 := 101

/-- Some error codes have a meaning of their own. A reply does not repeat the thread, object or
index that it is about. -/
def toTarget : WireError → TargetError
  | protocol text => .protocol text
  | timeout => .timeout
  | cancelled | closed => .disconnected
  | vm code =>
    if code = 10 then .invalidThread 0
    else if code = 13 then .threadNotSuspended 0
    else if code = 20 then .invalidObject 0
    else if code = 30 then .invalidFrame
    else if code = 112 then .disconnected
    else if code = 503 then .indexOutOfBounds (-1) (-1)
    else .vm code
  | io text => .io text

def aboutThread (thread : ThreadId) (e : WireError) : TargetError :=
  match e.toTarget with
  | .threadNotSuspended _ => .threadNotSuspended thread
  | .invalidThread _ => .invalidThread thread
  | e => e

def aboutObject (object : ObjectId) (e : WireError) : TargetError :=
  match e.toTarget with
  | .invalidObject _ => .invalidObject object
  | e => e

end WireError

end JvmDebug
