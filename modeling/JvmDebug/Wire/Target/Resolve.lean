import JvmDebug.Wire.Target

/-!
From ids to what they stand for: types, objects, values, members and events. Types and declared
methods are asked for once.
-/
namespace JvmDebug.Wire.Work

def rememberType (info : TypeInfo) : Work TypeInfo := do
  update fun s => { s with types := s.types.insert info.id info }
  return info

/-- A type by its id. If the caller does not know its kind, the signature tells arrays apart. -/
def typeInfo (id : TypeId) (kind : Option TypeKind) : Work TypeInfo := do
  match (← state).types.get? id with
  | some info => return info
  | none =>
    let signature ← ask (.signature id)
    let isArray := String.toList signature |>.head? |>.any (· == '[')
    rememberType
      ⟨id, Signature.toTypeName signature, kind.getD (if isArray then .array else .classType)⟩

def declaredMethods (c : TypeId) : Work (List Member) := do
  match (← state).declared.get? c with
  | some methods => return methods
  | none =>
    let methods : List Member ← ask (.methods c)
    update fun s => { s with declared := s.declared.insert c methods }
    return methods

/-- An object with its runtime type; id zero is no object. -/
def object? (id : ObjectId) : Work (Option ObjectRef) := do
  if id = 0 then return none
  else
    let type : Tagged ← askAs (WireError.aboutObject id) (.typeOf id)
    let info ← typeInfo type.id (some (TypeKind.ofTag type.tag))
    return some ⟨id, type.id, info.name⟩

def object (id : ObjectId) (missing : String) : Work ObjectRef := do
  match ← object? id with
  | some o => return o
  | none => throw (.protocol missing)

def value (v : WireValue) : Work Value := do
  match v with
  | .object _ id =>
    match ← object? id with
    | some o => return .object o
    | none => return .null
  | v => return v.toValue fun _ _ => .null

def values : List WireValue → Work (List Value)
  | [] => return []
  | v :: vs => do
    let v ← value v
    let vs ← values vs
    return v :: vs

def firstValue : List WireValue → Work Value
  | [] => throw (.protocol "empty value reply")
  | v :: _ => value v

def outcome (r : InvokeReply) : Work Outcome := do
  match ← object? r.exception.id with
  | some o => return .threw o
  | none => return .returned (← value r.value)

def types (kind : TypeKind) : List TypeId → Work (List TypeInfo)
  | [] => return []
  | c :: cs => do
    let info ← typeInfo c (some kind)
    let infos ← types kind cs
    return info :: infos

/-! ## Members -/

/-- Methods of a class in front of which those of its subclasses stand already. A method that a
subclass overrides is hidden, and constructors are not inherited. -/
def addMethods (c : TypeId) (constructors : Bool) (found : List Method) (declared : List Member) :
    List Method :=
  declared.foldl
    (fun found m =>
      if m.name = "<clinit>" ∨ (!constructors ∧ m.name = "<init>")
          ∨ found.any fun f => f.name == m.name && f.signature == m.signature then found
      else found ++ [⟨m.id, c, m.name, m.signature, m.modifiers⟩])
    found

/-- No chain of superclasses is longer than there are ids. -/
def chainLimit : Nat := UInt64.size

/-- The superclass of a type. Interfaces have none and answer with an error, so an error means
none too. -/
def superclass? (c : TypeId) : Work (Option TypeId) := do
  match ← attempt (.superclass c) with
  | .ok c => return c
  | .error _ => return none

def methodsFrom : (fuel : Nat) → TypeId → Bool → List Method → Work (List Method)
  | 0, _, _, found => return found
  | fuel + 1, c, constructors, found => do
    let found := addMethods c constructors found (← declaredMethods c)
    match ← superclass? c with
    | some up => methodsFrom fuel up false found
    | none => return found

def fieldsFrom : (fuel : Nat) → TypeId → List Field → Work (List Field)
  | 0, _, found => return found
  | fuel + 1, c, found => do
    let declared : List Member ← ask (.fields c)
    let found := found ++ declared.map fun f => ⟨f.id, c, f.name, f.signature, f.modifiers⟩
    match ← superclass? c with
    | some up => fieldsFrom fuel up found
    | none => return found

/-- The line table of a method, if it has one: native and abstract methods answer with an error. -/
def lineTable? (c : TypeId) (m : MethodId) : Work (Option LineTable) := do
  match ← attempt (.lineTable c m) with
  | .ok table => return some table
  | .error (.vm _) => return none
  | .error e => throw e.toTarget

/-! ## Events -/

def requestOf (wireId : Int32) : Work (Option RequestId) := do
  return (← state).requests.byWireId.get? wireId

def event (e : WireEvent) : Work TargetEvent := do
  match e.happening with
  | .vmStart t => return .vmStart t
  | .step t l => return .step (← requestOf e.request) t l
  | .breakpoint t l => return .breakpoint (← requestOf e.request) t l
  | .exception t l x c =>
    let o ← object x.id "exception event without exception object"
    return .exception (← requestOf e.request) t l o c
  | .threadStart t => return .threadStart t
  | .threadDeath t => return .threadDeath t
  | .classPrepare t tag c signature _ =>
    let request ← requestOf e.request
    let info ← rememberType ⟨c, Signature.toTypeName signature, TypeKind.ofTag tag⟩
    return .classPrepare request t info
  | .vmDeath => return .vmDeath

def events : List WireEvent → Work (List TargetEvent)
  | [] => return []
  | e :: es => do
    let e ← event e
    let es ← events es
    return e :: es

def eventSet (set : WireEventSet) : Work EventSet := do
  return ⟨SuspendPolicy.ofCode set.policy, ← events set.events⟩

end JvmDebug.Wire.Work
