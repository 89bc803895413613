import JvmDebug.Vm.Invoke

/-!
How the simulated machine answers the calls of a debugger.
-/
namespace JvmDebug.Vm

def localIn (locals : List (Variable × Value)) (v : Variable) : Except TargetError Value :=
  match locals.find? (·.1.slot == v.slot) with
  | some p => .ok p.2
  | none => .error (.protocol ("no local in slot " ++ v.slot.toNat.repr))

def setSlot (slot : UInt32) (value : Value) : List (Variable × Value) → List (Variable × Value)
  | [] => []
  | p :: ps => if p.1.slot == slot then (p.1, value) :: ps else p :: setSlot slot value ps

def setLocal (vm : Vm) (t : ThreadId) (f : FrameId) (v : Variable) (value : Value) :
    Except TargetError Unit × Vm :=
  match (do localIn (← vm.frameOf t f).locals v : Except TargetError Value) with
  | .error e => (.error e, vm)
  | .ok _ =>
    let set (d : VmFrame) : VmFrame :=
      if d.id == f then { d with locals := setSlot v.slot value d.locals } else d
    (.ok (), { vm with
      threads := vm.threads.modify t fun d => { d with frames := d.frames.map set } })

def position (i : Int32) (length : Nat) : Except TargetError Nat :=
  if 0 ≤ i.toInt ∧ i.toInt < length then .ok i.toInt.toNat
  else .error (.indexOutOfBounds i (Int32.ofInt length))

def setElement (vm : Vm) (a : ObjectRef) (i : Int32) (value : Value) :
    Except TargetError Unit × Vm :=
  match vm.elementsOf a with
  | .error _ => (.error (.invalidObject a.id), vm)
  | .ok l =>
    match position i l.length with
    | .error e => (.error e, vm)
    | .ok n =>
      (.ok (), { vm with
        objects := vm.objects.modify a.id fun d => { d with elements := some (l.set n value) } })

def newArrayOf (vm : Vm) (c : TypeId) (length : Int32) : Except TargetError ObjectRef × Vm :=
  match vm.typeInfo c with
  | .error e => (.error e, vm)
  | .ok info =>
    match Signature.arrayElement? info.name with
    | none => (.error (.protocol (info.name ++ " is not an array type")), vm)
    | some element =>
      if length < 0 then (.error (.indexOutOfBounds length 0), vm)
      else
        let (a, vm) :=
          vm.addArray c info.name (List.replicate length.toInt.toNat (Value.default element))
        (.ok a, vm)

def placeOf (vm : Vm) (l : Location) : Place :=
  match vm.places.get? l with
  | some p => p
  | none =>
    match vm.classes.get? l.classId with
    | some k => { className := k.info.name }
    | none => {}

def staticValue (vm : Vm) (c : TypeId) (f : Field) : Value :=
  let holder := vm.classes.get? f.declaringType <|> vm.classes.get? c
  (holder.bind fun k => k.statics.get? f.id).getD (Value.default f.typeName)

def resumeSet (vm : Vm) (set : EventSet) : Vm :=
  let vm := { vm with resumedSets := vm.resumedSets + 1 }
  match set.policy with
  | .none => vm
  | .eventThread =>
    match set.events.head?.bind TargetEvent.thread? with
    | some t => vm.setSuspended t false
    | none => vm
  | .all => vm.setAllSuspended false

def switchRequest (vm : Vm) (r : RequestId) (enabled : Bool) : Except TargetError Unit × Vm :=
  if vm.requests.contains r then
    (.ok (), { vm with requests := vm.requests.modify r fun q => { q with enabled } })
  else (.error (.unknownRequest r), vm)

def deleteRequest (vm : Vm) (r : RequestId) : Except TargetError Unit × Vm :=
  if vm.requests.contains r then (.ok (), { vm with requests := vm.requests.erase r })
  else (.error (.unknownRequest r), vm)

def switchThread (vm : Vm) (t : ThreadId) (suspended : Bool) : Except TargetError Unit × Vm :=
  if vm.threads.contains t then (.ok (), vm.setSuspended t suspended)
  else (.error (.invalidThread t), vm)

def success {α : Type} (r : α × Vm) : Except TargetError α × Vm := (.ok r.1, r.2)

def answer (vm : Vm) : (c : Call) → c.Reply × Vm
  | .version => (.ok ⟨"mock VM", "MockVM", "17"⟩, vm)
  | .allThreads => (.ok (vm.threads.values.map VmThread.info), vm)
  | .thread t =>
    match vm.threads.get? t with
    | some d => (.ok d.info, vm)
    | none => (.error (.invalidThread t), vm)
  | .suspendThread t => vm.switchThread t true
  | .resumeThread t => vm.switchThread t false
  | .suspendAll => (.ok (), vm.setAllSuspended true)
  | .resumeAll =>
    (.ok (), { vm with resumeAllCount := vm.resumeAllCount + 1 }.setAllSuspended false)
  | .frames t => ((vm.suspendedThread t).map fun d => d.frames.map fun f => ⟨f.id, f.location⟩, vm)
  | .place l => (.ok (vm.placeOf l), vm)
  | .visibleVariables t f => ((vm.frameOf t f.id).map fun d => d.locals.map Prod.fst, vm)
  | .localValues t f vs => ((vm.frameOf t f.id).bind fun d => vs.mapM (localIn d.locals), vm)
  | .setLocalValue t f v value => vm.setLocal t f.id v value
  | .thisObject t f => ((vm.frameOf t f.id).map VmFrame.self, vm)
  | .classesByName name =>
    (.ok ((vm.classes.values.filter fun k => k.loaded && k.info.name == name).map VmClass.info), vm)
  | .superclass c =>
    match (vm.classes.get? c).bind VmClass.superclass with
    | some up => ((vm.typeInfo up).map some, vm)
    | none => (.ok none, vm)
  | .interfaces c =>
    (((vm.classes.get? c).map VmClass.interfaces).getD [] |>.mapM vm.typeInfo, vm)
  | .methods c => (.ok (vm.methodsOf c), vm)
  | .fields c => (.ok (vm.fieldsOf c), vm)
  | .lineLocations c line =>
    let lines := ((vm.classes.get? c).map VmClass.lines).getD []
    (.ok ((lines.filter (·.1 == line)).map Prod.snd), vm)
  | .methodEntry m => (.ok (vm.entries.get? m.id), vm)
  | .getField o f => ((vm.objectOf o).map fun _ => vm.readField o.id f, vm)
  | .setField o f v =>
    match vm.objectOf o with
    | .ok _ => (.ok (), vm.writeField o.id f.id v)
    | .error e => (.error e, vm)
  | .getStaticField c f => (.ok (vm.staticValue c f), vm)
  | .arrayLength a => ((vm.elementsOf a).map fun l => Int32.ofInt l.length, vm)
  | .arrayGet a i =>
    ((vm.elementsOf a).bind fun l => (position i l.length).map fun n => l[n]?.getD .null, vm)
  | .arraySet a i v => vm.setElement a i v
  | .stringValue s =>
    match (vm.objectOf s).map VmObject.text with
    | .ok (some text) => (.ok text, vm)
    | .ok none => (.error (.invalidObject s.id), vm)
    | .error e => (.error e, vm)
  | .createString text => success (vm.newString text)
  | .invokeStatic t _ m args => vm.invokeStatic t m args
  | .invokeInstance t o m args => vm.invokeInstance t o m args
  | .newInstance t c m args => vm.newInstance t c m args
  | .newArray c length => vm.newArrayOf c length
  | .createBreakpoint l => success (vm.addRequest (.breakpoint l))
  | .createStep t size depth =>
    if vm.threads.contains t then success (vm.addRequest (.step t size depth))
    else (.error (.invalidThread t), vm)
  | .createExceptionRequest scope caught uncaught =>
    success (vm.addRequest (.exception scope caught uncaught))
  | .createClassPrepareWatch name => success (vm.addRequest (.classPrepare name))
  | .watchThreadLifecycle =>
    let (start, vm) := vm.addRequest .threadStart
    let (death, vm) := vm.addRequest .threadDeath
    (.ok [start, death], vm)
  | .setRequestEnabled r enabled => vm.switchRequest r enabled
  | .deleteRequest r => vm.deleteRequest r
  | .resumeEventSet set => (.ok (), vm.resumeSet set)
  | .dispose => (.ok (), { vm with disposed := true })

end JvmDebug.Vm
