import JvmDebug.Dict
import JvmDebug.Display

/-!
A small virtual machine in memory: classes, objects, threads with their frames, event requests and
the events reported to the debugger. One counter gives out all ids but those of requests.
-/
namespace JvmDebug

inductive ClassRef
  | id (c : TypeId)
  | named (name : String)
  deriving DecidableEq, Repr

inductive Body
  | constant (v : Value)
  | text (s : String)
  | argument (n : Nat)
  | receiver
  | readField (name : String) (otherwise : Value)
  | writeField (name : String)
  /-- Wrap the first argument in a new object, of the method's own class if none is given. -/
  | box (type : Option TypeId) (otherwise : Value)
  | throwNew (type : ClassRef) (message : Option String)
  | describe
  | identityText
  | identityHash
  | textLength
  | numberText (name : String)
  deriving DecidableEq, Repr

/-- A class the machine knows. It is visible to the debugger once loaded; `nextIndex` is the code
index of the next line. -/
structure VmClass where
  info : TypeInfo
  superclass : Option TypeId
  loaded : Bool
  interfaces : List TypeId := []
  methods : List Method := []
  fields : List Field := []
  statics : Dict FieldId Value := .empty
  lines : List (UInt32 × Location) := []
  nextIndex : UInt64 := 0
  deriving DecidableEq, Repr

structure VmObject where
  fields : Dict FieldId Value := .empty
  text : Option String := none
  elements : Option (List Value) := none
  deriving DecidableEq, Repr

structure VmFrame where
  id : FrameId
  location : Location
  self : Option ObjectRef
  locals : List (Variable × Value)
  deriving DecidableEq, Repr

structure VmThread where
  info : ThreadInfo
  frames : List VmFrame := []
  deriving DecidableEq, Repr

inductive RequestKind
  | breakpoint (l : Location)
  | step (t : ThreadId) (size : StepSize) (depth : StepDepth)
  | exception (scope : Option TypeId) (caught uncaught : Bool)
  | classPrepare (name : String)
  | threadStart
  | threadDeath
  deriving DecidableEq, Repr

structure Request where
  id : RequestId
  kind : RequestKind
  enabled : Bool
  deriving DecidableEq, Repr

inductive Report
  | events (set : EventSet)
  | hangUp
  deriving DecidableEq, Repr

structure Vm where
  nextId : UInt64 := 1
  nextRequest : RequestId := 1
  classes : Dict TypeId VmClass := .empty
  objects : Dict ObjectId VmObject := .empty
  threads : Dict ThreadId VmThread := .empty
  bodies : Dict MethodId Body := .empty
  entries : Dict MethodId Location := .empty
  places : Dict Location Place := .empty
  requests : Dict RequestId Request := .empty
  reports : List Report := []
  resumeAllCount : Nat := 0
  resumedSets : Nat := 0
  invocations : List String := []
  disposed : Bool := false
  deriving DecidableEq, Repr

namespace Vm

/-! ## Classes -/

def allocate (vm : Vm) : UInt64 × Vm := (vm.nextId, { vm with nextId := vm.nextId + 1 })

def addClass (vm : Vm) (name : String) (kind : TypeKind) (superclass : Option TypeId)
    (loaded : Bool) : TypeId × Vm :=
  let (id, vm) := vm.allocate
  (id, { vm with classes := vm.classes.insert id { info := ⟨id, name, kind⟩, superclass, loaded } })

def classNamed? (vm : Vm) (name : String) : Option TypeId :=
  (vm.classes.values.find? fun c => c.info.name == name).map fun c => c.info.id

def resolve (vm : Vm) : ClassRef → TypeId
  | .id c => c
  | .named name => (vm.classNamed? name).getD 0

def modifyClass (vm : Vm) (c : TypeId) (f : VmClass → VmClass) : Vm :=
  { vm with classes := vm.classes.modify c f }

def addInterface (vm : Vm) (c interface : TypeId) : Vm :=
  vm.modifyClass c fun k => { k with interfaces := k.interfaces ++ [interface] }

def memberModifiers (isStatic : Bool) : UInt32 := if isStatic then 9 else 1

def addMethod (vm : Vm) (c : TypeId) (name signature : String) (isStatic : Bool)
    (body : Option Body) : Method × Vm :=
  let (id, vm) := vm.allocate
  let m : Method := ⟨id, c, name, signature, memberModifiers isStatic⟩
  let vm := vm.modifyClass c fun k => { k with methods := k.methods ++ [m] }
  match body with
  | some body => (m, { vm with bodies := vm.bodies.insert id body })
  | none => (m, vm)

def addField (vm : Vm) (c : TypeId) (name signature : String) (isStatic : Bool) : Field × Vm :=
  let (id, vm) := vm.allocate
  let f : Field := ⟨id, c, name, signature, memberModifiers isStatic⟩
  (f, vm.modifyClass c fun k => { k with fields := k.fields ++ [f] })

def setStatic (vm : Vm) (c : TypeId) (f : Field) (v : Value) : Vm :=
  vm.modifyClass c fun k => { k with statics := k.statics.insert f.id v }

def simpleName (name : String) : String :=
  String.ofList (((Text.pieces '.' name.toList).getLast?).getD [])

/-- Add a line to a method's code; a method starts at its first line. -/
def addLine (vm : Vm) (m : Method) (line : UInt32) : Location × Vm :=
  match vm.classes.get? m.declaringType with
  | none => (⟨1, m.declaringType, m.id, 0⟩, vm)
  | some k =>
    let l : Location := ⟨k.info.kind.tag, m.declaringType, m.id, k.nextIndex⟩
    let place : Place :=
      { className := k.info.name
        methodName := m.name
        line := some line
        sourceName := some (simpleName k.info.name ++ ".java") }
    let vm := vm.modifyClass m.declaringType fun k =>
      { k with nextIndex := k.nextIndex + 4, lines := k.lines ++ [(line, l)] }
    (l, { vm with
      places := vm.places.insert l place
      entries := if vm.entries.contains m.id then vm.entries else vm.entries.insert m.id l })

/-- The class and its superclasses, up to the first one met twice. -/
def ancestors (vm : Vm) (fuel : Nat) (met : List TypeId) (c : TypeId) : List TypeId :=
  match fuel with
  | 0 => []
  | fuel + 1 =>
    if met.contains c then []
    else
      c :: match (vm.classes.get? c).bind VmClass.superclass with
        | some up => ancestors vm fuel (c :: met) up
        | none => []

/-- The class and its superclasses: no more than there are classes, and one that is not known. -/
def hierarchy (vm : Vm) (c : TypeId) : List TypeId := vm.ancestors (vm.classes.size + 1) [] c

def knownHierarchy (vm : Vm) (c : TypeId) : List VmClass :=
  (vm.hierarchy c).filterMap vm.classes.get?

def overridden (found : List Method) (m : Method) : Bool :=
  found.any fun o => o.name == m.name && o.signature == m.signature

/-- The methods of a class and those it inherits. Constructors are not inherited. -/
def methodsOf (vm : Vm) (c : TypeId) : List Method :=
  (vm.knownHierarchy c).foldl
    (fun found k => k.methods.foldl
      (fun found m =>
        if !overridden found m && (k.info.id == c || !m.isConstructor) then found ++ [m]
        else found)
      found)
    []

/-- The fields of a class and those it inherits, of each name the nearest. -/
def fieldsOf (vm : Vm) (c : TypeId) : List Field :=
  (vm.knownHierarchy c).foldl
    (fun found k => k.fields.foldl
      (fun found f => if found.any (·.name == f.name) then found else found ++ [f]) found)
    []

def typeInfo (vm : Vm) (c : TypeId) : Except TargetError TypeInfo :=
  match vm.classes.get? c with
  | some k => .ok k.info
  | none => .error (.protocol ("unknown reference type " ++ c.toNat.repr))

/-! ## Objects -/

def newObject (vm : Vm) (c : TypeId) : ObjectRef × Vm :=
  let name := match vm.classes.get? c with
    | some k => k.info.name
    | none => "<unknown>"
  let (id, vm) := vm.allocate
  (⟨id, c, name⟩, { vm with objects := vm.objects.insert id {} })

def newString (vm : Vm) (text : String) : ObjectRef × Vm :=
  let c := (vm.classNamed? "java.lang.String").getD 0
  let (id, vm) := vm.allocate
  (⟨id, c, "java.lang.String"⟩, { vm with objects := vm.objects.insert id { text := some text } })

def arrayClass (vm : Vm) (name : String) : TypeId × Vm :=
  match vm.classNamed? name with
  | some c => (c, vm)
  | none => vm.addClass name .array (vm.classNamed? "java.lang.Object") true

def addArray (vm : Vm) (c : TypeId) (name : String) (elements : List Value) : ObjectRef × Vm :=
  let (id, vm) := vm.allocate
  (⟨id, c, name⟩, { vm with objects := vm.objects.insert id { elements := some elements } })

def newArray (vm : Vm) (elementType : String) (elements : List Value) : ObjectRef × Vm :=
  let name := elementType ++ "[]"
  let (c, vm) := vm.arrayClass name
  vm.addArray c name elements

def textOf? (vm : Vm) (o : ObjectRef) : Option String := (vm.objects.get? o.id).bind VmObject.text

def fieldNamed? (vm : Vm) (c : TypeId) (name : String) : Option Field :=
  (vm.fieldsOf c).find? (·.name == name)

def readField (vm : Vm) (o : ObjectId) (f : Field) : Value :=
  ((vm.objects.get? o).bind fun d => d.fields.get? f.id).getD (Value.default f.typeName)

def fieldValue? (vm : Vm) (o : ObjectRef) (name : String) : Option Value :=
  (vm.fieldNamed? o.typeId name).map fun f => vm.readField o.id f

def writeField (vm : Vm) (o : ObjectId) (f : FieldId) (v : Value) : Vm :=
  { vm with objects := vm.objects.modify o fun d => { d with fields := d.fields.insert f v } }

/-- Set a field by name; a name the object has no field of is passed over. -/
def setField (vm : Vm) (o : ObjectRef) (name : String) (v : Value) : Vm :=
  match vm.fieldNamed? o.typeId name with
  | some f => vm.writeField o.id f.id v
  | none => vm

def newException (vm : Vm) (c : TypeId) (message : Option String) : ObjectRef × Vm :=
  let (o, vm) := vm.newObject c
  match message with
  | none => (o, vm)
  | some message =>
    let (text, vm) := vm.newString message
    (o, vm.setField o "detailMessage" (.object text))

/-! ## Threads -/

def addThread (vm : Vm) (name : String) : ThreadId × Vm :=
  let (id, vm) := vm.allocate
  (id, { vm with threads := vm.threads.insert id { info := ⟨id, name, .running, false⟩ } })

def addFrame (vm : Vm) (t : ThreadId) (l : Location) (self : Option ObjectRef)
    (locals : List (Variable × Value)) : FrameId × Vm :=
  let (id, vm) := vm.allocate
  (id, { vm with
    threads := vm.threads.modify t fun d => { d with frames := d.frames ++ [⟨id, l, self, locals⟩] } })

def VmThread.suspend (on : Bool) (d : VmThread) : VmThread :=
  { d with info := { d.info with suspended := on } }

def setSuspended (vm : Vm) (t : ThreadId) (on : Bool) : Vm :=
  { vm with threads := vm.threads.modify t (VmThread.suspend on) }

def setAllSuspended (vm : Vm) (on : Bool) : Vm :=
  { vm with threads := vm.threads.mapValues (VmThread.suspend on) }

def isSuspended (vm : Vm) (t : ThreadId) : Bool :=
  match vm.threads.get? t with
  | some d => d.info.suspended
  | none => false

def localValue? (vm : Vm) (t : ThreadId) (name : String) : Option Value := do
  let top ← (← vm.threads.get? t).frames.head?
  return (← top.locals.find? (·.1.name == name)).2

def suspendedThread (vm : Vm) (t : ThreadId) : Except TargetError VmThread :=
  match vm.threads.get? t with
  | none => .error (.invalidThread t)
  | some d => if d.info.suspended then .ok d else .error (.threadNotSuspended t)

def frameOf (vm : Vm) (t : ThreadId) (f : FrameId) : Except TargetError VmFrame := do
  match (← vm.suspendedThread t).frames.find? (·.id == f) with
  | some d => .ok d
  | none => .error .invalidFrame

def objectOf (vm : Vm) (o : ObjectRef) : Except TargetError VmObject :=
  match vm.objects.get? o.id with
  | some d => .ok d
  | none => .error (.invalidObject o.id)

def elementsOf (vm : Vm) (a : ObjectRef) : Except TargetError (List Value) := do
  match (← vm.objectOf a).elements with
  | some l => .ok l
  | none => .error (.invalidObject a.id)

/-! ## Requests -/

def addRequest (vm : Vm) (kind : RequestKind) : RequestId × Vm :=
  let id := vm.nextRequest
  (id, { vm with nextRequest := id + 1, requests := vm.requests.insert id ⟨id, kind, true⟩ })

def enabledRequests (vm : Vm) : List Request := vm.requests.values.filter (·.enabled)

end Vm

end JvmDebug
