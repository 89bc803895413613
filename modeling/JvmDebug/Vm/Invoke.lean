import JvmDebug.Vm

/-!
Calling methods of the simulated machine.
-/
namespace JvmDebug

/-- A call in progress; only static methods have no receiver. -/
structure Invocation where
  thread : ThreadId
  method : Method
  receiver : Option ObjectRef
  args : List Value
  deriving DecidableEq, Repr

def unitCount (s : String) : Nat :=
  s.toList.foldl (fun n c => if c.toNat < 0x10000 then n + 1 else n + 2) 0

namespace Body

def returnText (vm : Vm) (text : String) : Outcome × Vm :=
  let (o, vm) := vm.newString text
  (.returned (.object o), vm)

def description (call : Invocation) : String :=
  let target := match call.receiver with
    | some o => o.runtimeType
    | none => "static"
  target ++ " " ++ call.method.name ++ call.method.signature
    ++ "(" ++ ",".intercalate (call.args.map Value.typeName) ++ ")"

def run (vm : Vm) (call : Invocation) : Body → Outcome × Vm
  | constant v => (.returned v, vm)
  | text s => returnText vm s
  | argument n => (.returned (call.args[n]?.getD .void), vm)
  | receiver => (.returned ((call.receiver.map .object).getD .null), vm)
  | readField name otherwise =>
    (.returned ((call.receiver.bind fun o => vm.fieldValue? o name).getD otherwise), vm)
  | writeField name =>
    match call.receiver, call.args with
    | some o, v :: _ => (.returned .void, vm.setField o name v)
    | _, _ => (.returned .void, vm)
  | box type otherwise =>
    let (o, vm) := vm.newObject (type.getD call.method.declaringType)
    (.returned (.object o), vm.setField o "value" (call.args.head?.getD otherwise))
  | throwNew type message =>
    let (o, vm) := vm.newException (vm.resolve type) message
    (.threw o, vm)
  | describe => returnText vm (description call)
  | identityText => returnText vm ((call.receiver.map ObjectRef.identity).getD "")
  | identityHash =>
    (.returned (.int (Int32.ofInt ((call.receiver.map ObjectRef.id).getD 0).toNat)), vm)
  | textLength =>
    let n := match call.receiver.bind vm.textOf? with
      | some s => unitCount s
      | none => 0
    (.returned (.int (Int32.ofInt n)), vm)
  | numberText name =>
    match call.receiver.bind fun o => vm.fieldValue? o name with
    | some (.int n) => returnText vm (toString n.toInt)
    | _ => returnText vm "0"

end Body

namespace Vm

/-- The body that a call on an object of class `c` reaches: that of the nearest method of the same
name and signature that has one. -/
def dispatch (vm : Vm) (c : TypeId) (m : Method) : Option Body :=
  let overriding (k : VmClass) : Option Body :=
    (k.methods.find? fun o => o.name == m.name && o.signature == m.signature).bind fun o =>
      vm.bodies.get? o.id
  ((vm.knownHierarchy c).findSome? overriding) <|> vm.bodies.get? m.id

def invoke (vm : Vm) (body : Option Body) (call : Invocation) : Except TargetError Outcome × Vm :=
  match vm.suspendedThread call.thread, body with
  | .error e, _ => (.error e, vm)
  | .ok _, none =>
    (.error (.unsupported ("mock method " ++ call.method.name ++ " has no body")), vm)
  | .ok _, some body =>
    let vm := { vm with invocations := vm.invocations ++ [call.method.name] }
    let (outcome, vm) := body.run vm call
    (.ok outcome, vm)

def invokeStatic (vm : Vm) (t : ThreadId) (m : Method) (args : List Value) :
    Except TargetError Outcome × Vm :=
  vm.invoke (vm.bodies.get? m.id) ⟨t, m, none, args⟩

def invokeInstance (vm : Vm) (t : ThreadId) (o : ObjectRef) (m : Method) (args : List Value) :
    Except TargetError Outcome × Vm :=
  match vm.objectOf o with
  | .error e => (.error e, vm)
  | .ok _ => vm.invoke (vm.dispatch o.typeId m) ⟨t, m, some o, args⟩

def newInstance (vm : Vm) (t : ThreadId) (c : TypeId) (m : Method) (args : List Value) :
    Except TargetError Outcome × Vm :=
  match vm.suspendedThread t with
  | .error e => (.error e, vm)
  | .ok _ =>
    let (o, vm) := vm.newObject c
    match vm.invoke (vm.bodies.get? m.id) ⟨t, m, some o, args⟩ with
    | (.ok (.returned _), vm) => (.ok (.returned (.object o)), vm)
    | other => other

end Vm

end JvmDebug
