import JvmDebug.Wire.Target.Resolve

/-!
The calls of a debugger, answered by commands on the wire. Main definition: `Work.answer`.
-/
namespace JvmDebug.Wire.Work

def singleThreaded : UInt32 := 1

/-! ## Threads -/

def threadInfo (t : ThreadId) : Work ThreadInfo := do
  let name ← askThread t (.threadName t)
  let status : StatusReply ← askThread t (.threadStatus t)
  return ⟨t, name, ThreadStatus.ofCode status.status, status.suspended &&& 1 != 0⟩

def threadInfos : List ThreadId → Work (List ThreadInfo)
  | [] => return []
  | t :: ts => do
    let info : Option ThreadInfo ←
      tryCatch (some <$> threadInfo t) fun e =>
        match e with
        | .invalidThread _ => return none
        | e => throw e
    let infos ← threadInfos ts
    return info.toList ++ infos

/-! ## Code -/

def place (l : Location) : Work Place := do
  let type ← typeInfo l.classId none
  let methods ← declaredMethods l.classId
  let name := ((methods.find? fun m => m.id == l.methodId).map Member.name).getD ""
  let table ← lineTable? l.classId l.methodId
  let source : Command.Reply (.sourceFile l.classId) ← attempt (.sourceFile l.classId)
  return ⟨type.name, name, table.bind (·.lineAt? l.index), source.toOption⟩

def visibleVariables (f : Frame) : Work (List Variable) := do
  match ← attempt (.variableTable f.location.classId f.location.methodId) with
  | .ok table => return VariableTable.visible table f.location.index
  | .error e => if e = .vm WireError.absentInformation then return [] else throw e.toTarget

def lineStarts (tag : UInt8) (c : TypeId) (line : UInt32) : List Member → Work (List Location)
  | [] => return []
  | m :: ms => do
    let table ← lineTable? c m.id
    let here := (table.bind (·.indexOf? line)).map fun index => ⟨tag, c, m.id, index⟩
    let others ← lineStarts tag c line ms
    return here.toList ++ others

def lineLocations (c : TypeId) (line : UInt32) : Work (List Location) := do
  let type ← typeInfo c none
  let methods ← declaredMethods c
  lineStarts type.kind.tag c line methods

def methodEntry (m : Method) : Work (Option Location) := do
  let type ← typeInfo m.declaringType none
  let table ← lineTable? m.declaringType m.id
  return table.map fun t => ⟨type.kind.tag, m.declaringType, m.id, t.start⟩

/-! ## Arrays -/

def checkIndex (a : ObjectRef) (i : Int32) : Work Unit := do
  let length ← ask (.arrayLength a.id)
  let length : Int32 := length
  if i < 0 ∨ length ≤ i then throw (.indexOutOfBounds i length)

/-! ## Event requests -/

def install (kind : EventCode) (policy : SuspendPolicy) (modifiers : List Modifier) :
    Work RequestId := do
  let wireId ← ask (.setRequest kind.code policy.code modifiers)
  updateGet fun s =>
    let (id, requests) := s.requests.add kind policy modifiers wireId
    (id, { s with requests })

def updateRequests (f : RequestTable → RequestTable) : Work Unit :=
  update fun s => { s with requests := f s.requests }

/-- Install a request again, or clear it in the machine; nothing if it is so already. -/
def setEnabled (id : RequestId) (enabled : Bool) : Work Unit := do
  match (← state).requests.entries.get? id with
  | none => throw (.unknownRequest id)
  | some e =>
    match enabled, e.wireId with
    | true, none =>
      let wireId ← ask (.setRequest e.kind.code e.policy.code e.modifiers)
      updateRequests (·.installed id wireId)
    | false, some wireId =>
      ask (.clearRequest e.kind.code wireId)
      updateRequests (·.cleared id wireId)
    | _, _ => return ()

/-- Forget a request, then clear it in the machine if it is installed there. -/
def deleteRequest (id : RequestId) : Work Unit := do
  let removed ← updateGet fun s =>
    let (e, requests) := s.requests.remove id
    (e, { s with requests })
  match removed with
  | none => throw (.unknownRequest id)
  | some e =>
    match e.wireId with
    | some wireId => ask (.clearRequest e.kind.code wireId)
    | none => return ()

/-! ## Calls -/

def resumeThread (t : ThreadId) : Work Unit := askThread t (.resumeThread t)

def resumeSet (set : EventSet) : Work Unit :=
  match set.policy with
  | .none => return ()
  | .eventThread =>
    match set.events.findSome? TargetEvent.thread? with
    | some t => resumeThread t
    | none => return ()
  | .all => ask .resumeAll

/-- Leave the machine; nothing but the first time. It is no failure if the line is dead. -/
def leave : Work Unit := do
  if (← state).disposed then return ()
  update fun s => { s with disposed := true }
  let reply ← attempt .dispose
  update fun s => { s with detached := true }
  match reply with
  | .ok _ | .error .closed | .error .cancelled => return ()
  | .error e => throw e.toTarget

def answer : (c : Call) → Work c.Answer
  | .version => do
    let v : VersionReply ← ask .version
    return (⟨v.description, v.vmName, v.vmVersion⟩ : VmVersion)
  | .allThreads => do threadInfos (← ask .allThreads)
  | .thread t => threadInfo t
  | .suspendThread t => askThread t (.suspendThread t)
  | .resumeThread t => resumeThread t
  | .suspendAll => ask .suspendAll
  | .resumeAll => ask .resumeAll
  | .frames t => askThread t (.frames t 0 (-1))
  | .place l => place l
  | .visibleVariables _ f => visibleVariables f
  | .localValues t f vs => do
    if vs.isEmpty then return ([] : List Value)
    else values (← askThread t (.frameValues t f.id (vs.map fun v => (v.slot, v.signature))))
  | .setLocalValue t f v x =>
    askThread t (.setFrameValues t f.id [(v.slot, WireValue.ofValue x)])
  | .thisObject t f => do
    let this : Tagged ← askThread t (.thisObject t f.id)
    object? this.id
  | .classesByName name => do
    let found : List LoadedType ← ask (.classesBySignature (Signature.ofTypeName name))
    let infos := found.map fun c => (⟨c.id, name, TypeKind.ofTag c.tag⟩ : TypeInfo)
    update fun s => { s with types := infos.foldl (fun d info => d.insert info.id info) s.types }
    return infos
  | .superclass c => do
    match ← ask (.superclass c) with
    | some up => return some (← typeInfo up (some .classType))
    | none => return (none : Option TypeInfo)
  | .interfaces c => do types .interface (← ask (.interfaces c))
  | .methods c => methodsFrom chainLimit c true []
  | .fields c => fieldsFrom chainLimit c []
  | .lineLocations c line => lineLocations c line
  | .methodEntry m => methodEntry m
  | .getField o f => do firstValue (← ask (.fieldValues o.id [f.id]))
  | .setField o f x => ask (.setFieldValues o.id [(f.id, WireValue.ofValue x)])
  | .getStaticField c f => do firstValue (← ask (.staticValues c [f.id]))
  | .arrayLength a => ask (.arrayLength a.id)
  | .arrayGet a i => do
    checkIndex a i
    firstValue (← ask (.arrayValues a.id i 1))
  | .arraySet a i x => do
    checkIndex a i
    ask (.setArrayValues a.id i [WireValue.ofValue x])
  | .stringValue s => ask (.stringValue s.id)
  | .createString text => do object (← ask (.createString text)) "CreateString returned null"
  | .invokeStatic t c m args => do
    outcome (← askThread t
      (.invokeStatic c t m.id (args.map WireValue.ofValue) singleThreaded))
  | .invokeInstance t o m args => do
    outcome (← askThread t
      (.invokeInstance o.id t m.declaringType m.id (args.map WireValue.ofValue) singleThreaded))
  | .newInstance t c m args => do
    outcome (← askThread t
      (.newInstance c t m.id (args.map WireValue.ofValue) singleThreaded))
  | .newArray c length => do
    object (← ask (.newArray c length)) "ArrayType.NewInstance returned null"
  | .createBreakpoint l => install .breakpoint .all [.location l]
  | .createStep t size depth => install .step .all [.step t size.code depth.code, .count 1]
  | .createExceptionRequest scope caught uncaught =>
    install .exception .all [.exception (scope.getD 0) caught uncaught]
  | .createClassPrepareWatch name => install .classPrepare .all [.classMatch name]
  | .watchThreadLifecycle => do
    let started ← install .threadStart .none []
    let died ← install .threadDeath .none []
    return ([started, died] : List RequestId)
  | .setRequestEnabled r enabled => setEnabled r enabled
  | .deleteRequest r => deleteRequest r
  | .resumeEventSet set => resumeSet set
  | .dispose => leave

end JvmDebug.Wire.Work
