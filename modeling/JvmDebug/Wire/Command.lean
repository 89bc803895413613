import JvmDebug.Wire.Event

/-!
The commands a debugger sends, what each says in its body, and what its reply says.
-/
namespace JvmDebug.Wire

inductive Modifier
  | count (n : Int32)
  | thread (t : ThreadId)
  | classMatch (pattern : String)
  | location (l : Location)
  /-- Exceptions of a class; class zero stands for all of them. -/
  | exception (c : TypeId) (caught uncaught : Bool)
  | step (t : ThreadId) (size depth : UInt32)
  deriving DecidableEq, Repr, Inhabited

inductive Command
  | version
  | classesBySignature (signature : String)
  | allThreads
  | dispose
  | idSizes
  | suspendAll
  | resumeAll
  | createString (text : String)
  | signature (c : TypeId)
  | fields (c : TypeId)
  | methods (c : TypeId)
  | staticValues (c : TypeId) (fields : List FieldId)
  | sourceFile (c : TypeId)
  | interfaces (c : TypeId)
  | superclass (c : TypeId)
  | invokeStatic (c : TypeId) (t : ThreadId) (m : MethodId) (args : List WireValue)
      (options : UInt32)
  | newInstance (c : TypeId) (t : ThreadId) (m : MethodId) (args : List WireValue)
      (options : UInt32)
  | newArray (c : TypeId) (length : Int32)
  | lineTable (c : TypeId) (m : MethodId)
  | variableTable (c : TypeId) (m : MethodId)
  | typeOf (o : ObjectId)
  | fieldValues (o : ObjectId) (fields : List FieldId)
  | setFieldValues (o : ObjectId) (values : List (FieldId × WireValue))
  | invokeInstance (o : ObjectId) (t : ThreadId) (c : TypeId) (m : MethodId)
      (args : List WireValue) (options : UInt32)
  | stringValue (o : ObjectId)
  | threadName (t : ThreadId)
  | suspendThread (t : ThreadId)
  | resumeThread (t : ThreadId)
  | threadStatus (t : ThreadId)
  | frames (t : ThreadId) (start length : Int32)
  | arrayLength (o : ObjectId)
  | arrayValues (o : ObjectId) (first length : Int32)
  | setArrayValues (o : ObjectId) (first : Int32) (values : List WireValue)
  | setRequest (kind policy : UInt8) (modifiers : List Modifier)
  | clearRequest (kind : UInt8) (request : Int32)
  | frameValues (t : ThreadId) (f : FrameId) (slots : List (UInt32 × String))
  | setFrameValues (t : ThreadId) (f : FrameId) (values : List (UInt32 × WireValue))
  | thisObject (t : ThreadId) (f : FrameId)
  deriving DecidableEq, Repr, Inhabited

structure VersionReply where
  description : String
  major : Int32
  minor : Int32
  vmVersion : String
  vmName : String
  deriving DecidableEq, Repr, Inhabited

structure LoadedType where
  tag : UInt8
  id : TypeId
  status : UInt32
  deriving DecidableEq, Repr, Inhabited

structure Member where
  id : UInt64
  name : String
  signature : String
  modifiers : UInt32
  deriving DecidableEq, Repr, Inhabited

structure LineEntry where
  index : UInt64
  line : Int32
  deriving DecidableEq, Repr, Inhabited

structure LineTable where
  start : UInt64
  stop : UInt64
  lines : List LineEntry
  deriving DecidableEq, Repr, Inhabited

structure VariableEntry where
  index : UInt64
  name : String
  signature : String
  length : UInt32
  slot : UInt32
  deriving DecidableEq, Repr, Inhabited

structure VariableTable where
  arguments : UInt32
  entries : List VariableEntry
  deriving DecidableEq, Repr, Inhabited

structure InvokeReply where
  value : WireValue
  exception : Tagged
  deriving DecidableEq, Repr, Inhabited

structure StatusReply where
  status : Int32
  suspended : Int32
  deriving DecidableEq, Repr, Inhabited

def IdSizes.putModifier (sizes : IdSizes) : Modifier → Bytes
  | .count n => 1 :: putI32 n
  | .thread t => 3 :: putId sizes.object t
  | .classMatch pattern => 5 :: putText pattern
  | .location l => 7 :: sizes.putLocation l
  | .exception c caught uncaught => 8 :: putId sizes.type c ++ putBool caught ++ putBool uncaught
  | .step t size depth => 10 :: putId sizes.object t ++ putU32 size ++ putU32 depth

def IdSizes.putInvocation (sizes : IdSizes) (args : List WireValue) (options : UInt32) : Bytes :=
  putList sizes.putValue args ++ putU32 options

/-- The tag of a signature: its first byte, that of `void` if it is empty. -/
def signatureTag (signature : String) : UInt8 :=
  (Text.Utf8.encode signature).head?.getD (charByte 'V')

namespace Command

def code : Command → UInt8 × UInt8
  | version => (1, 1)
  | classesBySignature _ => (1, 2)
  | allThreads => (1, 4)
  | dispose => (1, 6)
  | idSizes => (1, 7)
  | suspendAll => (1, 8)
  | resumeAll => (1, 9)
  | createString _ => (1, 11)
  | signature _ => (2, 1)
  | fields _ => (2, 4)
  | methods _ => (2, 5)
  | staticValues .. => (2, 6)
  | sourceFile _ => (2, 7)
  | interfaces _ => (2, 10)
  | superclass _ => (3, 1)
  | invokeStatic .. => (3, 3)
  | newInstance .. => (3, 4)
  | newArray .. => (4, 1)
  | lineTable .. => (6, 1)
  | variableTable .. => (6, 2)
  | typeOf _ => (9, 1)
  | fieldValues .. => (9, 2)
  | setFieldValues .. => (9, 3)
  | invokeInstance .. => (9, 6)
  | stringValue _ => (10, 1)
  | threadName _ => (11, 1)
  | suspendThread _ => (11, 2)
  | resumeThread _ => (11, 3)
  | threadStatus _ => (11, 4)
  | frames .. => (11, 6)
  | arrayLength _ => (13, 1)
  | arrayValues .. => (13, 2)
  | setArrayValues .. => (13, 3)
  | setRequest .. => (15, 1)
  | clearRequest .. => (15, 2)
  | frameValues .. => (16, 1)
  | setFrameValues .. => (16, 2)
  | thisObject .. => (16, 3)

def body (sizes : IdSizes) : Command → Bytes
  | version | allThreads | dispose | idSizes | suspendAll | resumeAll => []
  | classesBySignature text | createString text => putText text
  | signature c | fields c | methods c | sourceFile c | interfaces c | superclass c =>
    putId sizes.type c
  | staticValues c fs => putId sizes.type c ++ putList (putId sizes.field) fs
  | invokeStatic c t m args options | newInstance c t m args options =>
    putId sizes.type c ++ putId sizes.object t ++ putId sizes.method m ++
      sizes.putInvocation args options
  | newArray c length => putId sizes.type c ++ putI32 length
  | lineTable c m | variableTable c m => putId sizes.type c ++ putId sizes.method m
  | typeOf o | stringValue o | arrayLength o => putId sizes.object o
  | threadName t | suspendThread t | resumeThread t | threadStatus t => putId sizes.object t
  | fieldValues o fs => putId sizes.object o ++ putList (putId sizes.field) fs
  | setFieldValues o values =>
    putId sizes.object o ++
      putList (fun v => putId sizes.field v.1 ++ sizes.putUntagged v.2) values
  | invokeInstance o t c m args options =>
    putId sizes.object o ++ putId sizes.object t ++ putId sizes.type c ++ putId sizes.method m ++
      sizes.putInvocation args options
  | frames t start length => putId sizes.object t ++ putI32 start ++ putI32 length
  | arrayValues o first length => putId sizes.object o ++ putI32 first ++ putI32 length
  | setArrayValues o first values =>
    putId sizes.object o ++ putI32 first ++ putList sizes.putUntagged values
  | setRequest kind policy modifiers => kind :: policy :: putList sizes.putModifier modifiers
  | clearRequest kind request => kind :: putI32 request
  | frameValues t f slots =>
    putId sizes.object t ++ putId sizes.frame f ++
      putList (fun s => putU32 s.1 ++ [signatureTag s.2]) slots
  | setFrameValues t f values =>
    putId sizes.object t ++ putId sizes.frame f ++
      putList (fun v => putU32 v.1 ++ sizes.putValue v.2) values
  | thisObject t f => putId sizes.object t ++ putId sizes.frame f

abbrev Answer : Command → Type
  | version => VersionReply
  | classesBySignature _ => List LoadedType
  | allThreads => List ThreadId
  | idSizes => IdSizes
  | createString _ | newArray .. => ObjectId
  | signature _ | sourceFile _ | stringValue _ | threadName _ => String
  | fields _ | methods _ => List Member
  | staticValues .. | fieldValues .. | arrayValues .. | frameValues .. => List WireValue
  | interfaces _ => List TypeId
  | superclass _ => Option TypeId
  | invokeStatic .. | newInstance .. | invokeInstance .. => InvokeReply
  | lineTable .. => LineTable
  | variableTable .. => VariableTable
  | typeOf _ | thisObject .. => Tagged
  | threadStatus _ => StatusReply
  | frames .. => List Frame
  | arrayLength _ | setRequest .. => Int32
  | dispose | suspendAll | resumeAll | setFieldValues .. | suspendThread _ | resumeThread _
  | setArrayValues .. | clearRequest .. | setFrameValues .. => Unit

abbrev Reply (c : Command) : Type := Except WireError c.Answer

def getMember (width : Nat) : Reader Member := do
  return ⟨← getId width, ← getText, ← getText, ← getU32⟩

def getInvokeReply (sizes : IdSizes) : Reader InvokeReply := do
  return ⟨← sizes.getValue, ← sizes.getTagged⟩

def read (sizes : IdSizes) : (c : Command) → Reader c.Answer
  | version => do
    return (⟨← getText, ← getI32, ← getI32, ← getText, ← getText⟩ : VersionReply)
  | classesBySignature _ =>
    getList do return (⟨← getU8, ← getId sizes.type, ← getU32⟩ : LoadedType)
  | allThreads => getList (getId sizes.object)
  | idSizes => IdSizes.get
  | createString _ => getId sizes.object
  | newArray .. => Tagged.id <$> sizes.getTagged
  | signature _ | sourceFile _ | stringValue _ | threadName _ => getText
  | fields _ => getList (getMember sizes.field)
  | methods _ => getList (getMember sizes.method)
  | staticValues .. | fieldValues .. | frameValues .. => getList sizes.getValue
  | arrayValues .. => sizes.getRegion
  | interfaces _ => getList (getId sizes.type)
  | superclass _ => do
    let c ← getId sizes.type
    return (if c = 0 then none else some c : Option TypeId)
  | invokeStatic .. | invokeInstance .. => getInvokeReply sizes
  | newInstance .. => do
    let object ← sizes.getTagged
    return (⟨.object object.tag object.id, ← sizes.getTagged⟩ : InvokeReply)
  | lineTable .. => do
    return (⟨← getU64, ← getU64, ← getList do return ⟨← getU64, ← getI32⟩⟩ : LineTable)
  | variableTable .. => do
    return (⟨← getU32, ← getList do
      return ⟨← getU64, ← getText, ← getText, ← getU32, ← getU32⟩⟩ : VariableTable)
  | typeOf _ => do return (⟨← getU8, ← getId sizes.type⟩ : Tagged)
  | thisObject .. => sizes.getTagged
  | threadStatus _ => do return (⟨← getI32, ← getI32⟩ : StatusReply)
  | frames .. => getList do return (⟨← getId sizes.frame, ← sizes.getLocation⟩ : Frame)
  | arrayLength _ | setRequest .. => getI32
  | dispose | suspendAll | resumeAll | setFieldValues .. | suspendThread _ | resumeThread _
  | setArrayValues .. | clearRequest .. | setFrameValues .. => pure ()

end Command

end JvmDebug.Wire
