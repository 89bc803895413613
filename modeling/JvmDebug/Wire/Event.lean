import JvmDebug.Wire.Value

/-!
Events on the wire. They come in sets with one suspend policy.
-/
namespace JvmDebug.Wire

/-- The number by which a request asks for a kind of event, and by which it is reported. -/
inductive EventCode
  | step | breakpoint | exception | threadStart | threadDeath | classPrepare | vmStart | vmDeath
  deriving DecidableEq, Repr, Inhabited

namespace EventCode

def code : EventCode → UInt8
  | step => 1
  | breakpoint => 2
  | exception => 4
  | threadStart => 6
  | threadDeath => 7
  | classPrepare => 8
  | vmStart => 90
  | vmDeath => 99

def ofCode? (n : UInt8) : Option EventCode :=
  [step, breakpoint, exception, threadStart, threadDeath, classPrepare, vmStart, vmDeath].find?
    fun c => c.code == n

end EventCode

inductive Happening
  | step (thread : ThreadId) (at_ : Location)
  | breakpoint (thread : ThreadId) (at_ : Location)
  | exception (thread : ThreadId) (at_ : Location) (object : Tagged) (catchAt : Option Location)
  | threadStart (thread : ThreadId)
  | threadDeath (thread : ThreadId)
  | classPrepare (thread : ThreadId) (tag : UInt8) (type : TypeId) (signature : String)
      (status : UInt32)
  | vmStart (thread : ThreadId)
  | vmDeath
  deriving DecidableEq, Repr, Inhabited

structure WireEvent where
  request : Int32
  happening : Happening
  deriving DecidableEq, Repr, Inhabited

structure WireEventSet where
  policy : UInt8
  events : List WireEvent
  deriving DecidableEq, Repr, Inhabited

def Happening.code : Happening → EventCode
  | step .. => .step
  | breakpoint .. => .breakpoint
  | exception .. => .exception
  | threadStart _ => .threadStart
  | threadDeath _ => .threadDeath
  | classPrepare .. => .classPrepare
  | vmStart _ => .vmStart
  | vmDeath => .vmDeath

def nowhere : Location := ⟨0, 0, 0, 0⟩

/-- Whatever its tag, a location without class, method and index is none. -/
def isNowhere (l : Location) : Bool := l.classId == 0 && l.methodId == 0 && l.index == 0

namespace IdSizes
variable (sizes : IdSizes)

def putHappening : Happening → Bytes
  | .step t l | .breakpoint t l => putId sizes.object t ++ sizes.putLocation l
  | .exception t l x c =>
    putId sizes.object t ++ sizes.putLocation l ++ x.tag :: putId sizes.object x.id ++
      sizes.putLocation (c.getD nowhere)
  | .threadStart t | .threadDeath t | .vmStart t => putId sizes.object t
  | .classPrepare t tag c signature status =>
    putId sizes.object t ++ tag :: putId sizes.type c ++ putText signature ++ putU32 status
  | .vmDeath => []

def putEvent (e : WireEvent) : Bytes :=
  e.happening.code.code :: (putI32 e.request ++ sizes.putHappening e.happening)

def putEventSet (set : WireEventSet) : Bytes :=
  set.policy :: putList sizes.putEvent set.events

def getHappening : EventCode → Reader Happening
  | .step => do return .step (← getId sizes.object) (← sizes.getLocation)
  | .breakpoint => do return .breakpoint (← getId sizes.object) (← sizes.getLocation)
  | .exception => do
    let thread ← getId sizes.object
    let at_ ← sizes.getLocation
    let object ← sizes.getTagged
    let catchAt ← sizes.getLocation
    return .exception thread at_ object (if isNowhere catchAt then none else some catchAt)
  | .threadStart => do return .threadStart (← getId sizes.object)
  | .threadDeath => do return .threadDeath (← getId sizes.object)
  | .classPrepare => do
    return .classPrepare (← getId sizes.object) (← getU8) (← getId sizes.type) (← getText)
      (← getU32)
  | .vmStart => do return .vmStart (← getId sizes.object)
  | .vmDeath => return .vmDeath

/-- Up to `count` events. The layout of an unknown kind is unknown too, so reading ends there. -/
def getEvents : (count : Nat) → Reader (List WireEvent)
  | 0 => return []
  | count + 1 => do
    let kind ← getU8
    let request ← getI32
    match EventCode.ofCode? kind with
    | none => return []
    | some code =>
      let happening ← sizes.getHappening code
      let events ← getEvents count
      return ⟨request, happening⟩ :: events

def getEventSet : Reader WireEventSet := do
  let policy ← getU8
  return ⟨policy, ← sizes.getEvents (← getNat 4)⟩

end IdSizes

end JvmDebug.Wire
