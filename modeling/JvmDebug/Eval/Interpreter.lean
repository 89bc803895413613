import JvmDebug.Display
import JvmDebug.Eval.Conversion
import JvmDebug.Eval.Numeric
import JvmDebug.Eval.Subtype
import JvmDebug.Grammar.Parse

/-!
Evaluation of expressions in a suspended frame. Fields are read, methods called and objects made
on the target; only arithmetic on primitive values happens here.
-/
namespace JvmDebug

structure Scope where
  thread : ThreadId
  frame : Frame
  locals : List (Variable × Value)
  self : Option ObjectRef

/-- What a name stands for. A class is not a value: it only gives access to static members. -/
inductive Meaning
  | value (v : Value)
  | type (c : TypeInfo)

structure Evaluation where
  value : Value
  display : String
  typeName : String

namespace Scope
variable {σ : Type}

def fail {α : Type} (text : String) : Op DebugError σ α := throw (.evaluationFailed text)

def read (t : ThreadId) (f : Frame) : Op DebugError σ Scope := do
  let locals : List Variable ← Op.call (.visibleVariables t f)
  let values : List Value ←
    if locals.isEmpty then pure [] else Op.call (.localValues t f locals)
  let self : Option ObjectRef ← Op.call (.thisObject t f)
  return ⟨t, f, locals.zip values, self⟩

/-! ## Names -/

def findField (c : TypeId) (name : String) : Op DebugError σ (Option Field) := do
  let fields : List Field ← Op.call (.fields c)
  return fields.find? (·.name == name)

def readField (o : ObjectRef) (f : Field) : Op DebugError σ Value :=
  if f.isStatic then Op.call (.getStaticField f.declaringType f) else Op.call (.getField o f)

def findClass (name : String) : Op DebugError σ (Option TypeInfo) := do
  let classes : List TypeInfo ← Op.call (.classesByName name)
  return classes.head?

/-- The class of the full name, or of the simple name in `java.lang`. -/
def lookupType (name : String) : Op DebugError σ (Option TypeInfo) := do
  match ← findClass name with
  | some c => return some c
  | none =>
    if !name.toList.contains '.' && !Signature.isPrimitiveName name then
      findClass ("java.lang." ++ name)
    else return none

/-- A name on its own: a variable, else a field of the receiver or a static field of the frame's
class, else a class. -/
def resolveName (s : Scope) (name : String) : Op DebugError σ (Option Meaning) := do
  if let some (_, v) := s.locals.find? (·.1.name == name) then return some (.value v)
  match s.self with
  | some self =>
    if let some f ← findField self.typeId name then
      return some (.value (← readField self f))
  | none =>
    let c := s.frame.location.classId
    if let some f ← findField c name then
      if f.isStatic then return some (.value (← Op.call (.getStaticField c f)))
  return (← lookupType name).map .type

def member (base : Meaning) (name : String) : Op DebugError σ Meaning :=
  match base with
  | .type c => do
    let some f ← findField c.id name | throw (.variableNotFound (c.name ++ "." ++ name))
    if !f.isStatic then fail ("Field " ++ name ++ " of " ++ c.name ++ " is not static")
    return .value (← Op.call (.getStaticField c.id f))
  | .value (.object o) => do
    if o.isArray && name == "length" then
      let n : Int32 ← Op.call (.arrayLength o)
      return .value (.int n)
    let some f ← findField o.typeId name | throw (.variableNotFound name)
    return .value (← readField o f)
  | .value .null => fail ("Cannot access field '" ++ name ++ "' on null")
  | .value v => fail ("Cannot access field '" ++ name ++ "' on primitive type " ++ v.typeName)

def members (base : Meaning) : List String → Op DebugError σ Meaning
  | [] => return base
  | name :: names => do members (← member base name) names

/-- The longest of the first `n` names that spell a loaded class comes before the first name on
its own. -/
def resolvePrefix (s : Scope) (names : List String) : Nat → Op DebugError σ (Option Meaning)
  | n + 2 => do
    match ← findClass (".".intercalate (names.take (n + 2))) with
    | some c => return some (← members (.type c) (names.drop (n + 2)))
    | none => resolvePrefix s names (n + 1)
  | _ =>
    match names with
    | [] => return none
    | name :: rest => do
      let some root ← resolveName s name | return none
      return some (← members root rest)

def resolveChain (s : Scope) (names : List String) : Op DebugError σ (Option Meaning) :=
  resolvePrefix s names names.length

/-- A chain that stands for nothing: one that ends with a capital is taken for a class. -/
def unresolved (names : List String) : DebugError :=
  if names.getLast?.any fun n => n.toList.head?.any Text.isCapital then
    .classNotLoaded (".".intercalate names)
  else .variableNotFound (names.head?.getD "")

/-! ## Calls -/

def notApplicable (kind name owner : String) (args : List Value) : DebugError :=
  .evaluationFailed ("No applicable " ++ kind ++ " " ++ name ++ "("
    ++ ", ".intercalate (args.map Value.typeName) ++ ") in " ++ owner)

def assignable (v : Value) (typeName : String) : Op DebugError σ Bool :=
  let primitive := Signature.isPrimitiveName typeName
  match v with
  | .null => return !primitive
  | .void => return false
  | .object o =>
    if primitive then
      return (Conversion.unboxed? o.runtimeType).any (Conversion.widensOrSame · typeName)
    else Subtype.holds o typeName
  | v =>
    if primitive then return Conversion.widensOrSame v.typeName typeName
    else return Conversion.boxesTo v.typeName typeName

def allAssignable : List (Value × String) → Op DebugError σ Bool
  | [] => return true
  | (v, typeName) :: rest => do
    if ← assignable v typeName then allAssignable rest else return false

def selectOverload (args : List Value) : List Method → Op DebugError σ (Option Method)
  | [] => return none
  | m :: rest => do
    let types := m.argumentTypes
    if types.length == args.length then
      if ← allAssignable (args.zip types) then return some m
    selectOverload args rest

def returned (o : Outcome) : Op DebugError σ Value :=
  match o with
  | .returned v => return v
  | .threw e => do throw (.remoteInvocationThrew e.runtimeType (← Op.lift (Display.exceptionMessage? e)))

def unbox (s : Scope) (o : ObjectRef) : Op DebugError σ Value := do
  let some primitive := Conversion.unboxed? o.runtimeType | fail ("Cannot unbox " ++ o.runtimeType)
  let accessor := primitive ++ "Value"
  let methods : List Method ← Op.call (.methods o.typeId)
  let some m := methods.find? fun m => m.name == accessor && m.argumentTypes.isEmpty && !m.isStatic
    | throw (notApplicable "method" accessor o.runtimeType [])
  returned (← Op.call (.invokeInstance s.thread o m []))

def box (s : Scope) (v : Value) : Op DebugError σ Value := do
  let some wrapper := Conversion.wrapper? v.typeName | fail ("Cannot box " ++ v.typeName)
  let some c ← findClass wrapper | throw (.classNotLoaded wrapper)
  let methods : List Method ← Op.call (.methods c.id)
  let some m := methods.find? fun m =>
      m.name == "valueOf" && m.isStatic && m.argumentTypes == [v.typeName]
    | throw (notApplicable "method" "valueOf" wrapper [v])
  returned (← Op.call (.invokeStatic s.thread c.id m [v]))

def coerce (s : Scope) (v : Value) (typeName : String) : Op DebugError σ Value := do
  let primitive := Signature.isPrimitiveName typeName
  let refuse := "Cannot convert " ++ v.typeName ++ " to " ++ typeName
  match v with
  | .object o =>
    if primitive then
      let some r := (← unbox s o).convert? typeName | fail refuse
      return r
    else return v
  | .null | .void => return v
  | v =>
    if primitive then
      let some r := v.convert? typeName | fail refuse
      return r
    else box s v

def coerceAll (s : Scope) : List (Value × String) → Op DebugError σ (List Value)
  | [] => return []
  | (v, typeName) :: rest => do
    let v ← coerce s v typeName
    return v :: (← coerceAll s rest)

def assign (s : Scope) (v : Value) (typeName : String) : Op DebugError σ Value := do
  if ← assignable v typeName then coerce s v typeName
  else fail ("Cannot assign " ++ v.typeName ++ " to " ++ typeName)

def named (name : String) (methods : List Method) : List Method :=
  methods.filter fun m => m.name == name && !m.isConstructor

def callInstance (s : Scope) (o : ObjectRef) (name : String) (args : List Value) :
    Op DebugError σ Value := do
  let methods : List Method ← Op.call (.methods o.typeId)
  let some m ← selectOverload args (named name methods)
    | throw (notApplicable "method" name o.runtimeType args)
  let args ← coerceAll s (args.zip m.argumentTypes)
  if m.isStatic then returned (← Op.call (.invokeStatic s.thread m.declaringType m args))
  else returned (← Op.call (.invokeInstance s.thread o m args))

def callStatic (s : Scope) (c : TypeId) (className name : String) (args : List Value) :
    Op DebugError σ Value := do
  let methods : List Method ← Op.call (.methods c)
  let some m ← selectOverload args (named name methods)
    | throw (notApplicable "method" name className args)
  if !m.isStatic then fail ("Method " ++ name ++ " of " ++ className ++ " is not static")
  let args ← coerceAll s (args.zip m.argumentTypes)
  returned (← Op.call (.invokeStatic s.thread c m args))

def callUnqualified (s : Scope) (name : String) (args : List Value) : Op DebugError σ Value := do
  match s.self with
  | some self => callInstance s self name args
  | none =>
    let className := match ← Op.attempt (.place s.frame.location) with
      | .ok p => Place.className p
      | .error _ => ""
    callStatic s s.frame.location.classId className name args

def callOn (s : Scope) (receiver : Meaning) (name : String) (args : List Value) :
    Op DebugError σ Value :=
  match receiver with
  | .type c => callStatic s c.id c.name name args
  | .value (.object o) => callInstance s o name args
  | .value .null => fail ("Cannot invoke method '" ++ name ++ "' on null")
  | .value v => fail ("Cannot invoke method '" ++ name ++ "' on primitive type " ++ v.typeName)

/-! ## Operations -/

def element (array index : Value) : Op DebugError σ Value := do
  let refuse (v : Value) : Op DebugError σ ObjectRef :=
    fail ("Cannot index into non-array type " ++ v.typeName)
  let a ← match array with
    | .object o => if o.isArray then pure o else refuse array
    | .null => fail "Cannot index into null"
    | v => refuse v
  let some i := index.integral? | fail ("Array index must be an integer, got " ++ index.typeName)
  let n : Int32 ← Op.call (.arrayLength a)
  if i < 0 || n ≤ i then
    fail ("Array index out of bounds: " ++ toString i.toInt ++ " (length " ++ toString n.toInt
      ++ ")")
  Op.call (.arrayGet a i)

def isString (v : Value) : Bool := v.object?.any ObjectRef.isString

def concatenate (s : Scope) (left right : Value) : Op DebugError σ Value := do
  let l ← Display.plain s.thread left
  let r ← Display.plain s.thread right
  return .object (← Op.call (.createString (l ++ r)))

def boolean (symbol : String) : Value → Op DebugError σ Bool
  | .boolean b => return b
  | v => fail ("Operator '" ++ symbol ++ "' expects boolean operands, got " ++ v.typeName)

/-- A cast between references is not checked. -/
def cast (s : Scope) (v : Value) (typeName : String) : Op DebugError σ Value := do
  let refuse (v : Value) : Op DebugError σ Value :=
    fail ("Cannot cast " ++ v.typeName ++ " to " ++ typeName)
  if Signature.isPrimitiveName typeName then
    let v ← match v with
      | .object o => if (Conversion.unboxed? o.runtimeType).isSome then unbox s o else pure v
      | v => pure v
    match v.convert? typeName with
    | some r => return r
    | none => refuse v
  else
    match v with
    | .null | .object _ => return v
    | v =>
      if (Conversion.wrapper? v.typeName).any (Conversion.names typeName)
          || Conversion.names typeName "java.lang.Object" then box s v
      else refuse v

def instanceOf (v : Value) (typeName : String) : Op DebugError σ Bool :=
  match v with
  | .null => return false
  | .object o => do
    let some c ← lookupType typeName | throw (.classNotLoaded typeName)
    Subtype.holds o c.name
  | v => fail ("instanceof requires a reference operand, got " ++ v.typeName)

def newObject (s : Scope) (typeName : String) (args : List Value) : Op DebugError σ Value := do
  let some c ← lookupType typeName | throw (.classNotLoaded typeName)
  if c.kind != .classType then fail ("Cannot instantiate " ++ c.name ++ ": not a class")
  let methods : List Method ← Op.call (.methods c.id)
  let constructors := methods.filter fun m => m.isConstructor && m.declaringType == c.id
  let some m ← selectOverload args constructors
    | throw (notApplicable "constructor" c.name c.name args)
  let args ← coerceAll s (args.zip m.argumentTypes)
  returned (← Op.call (.newInstance s.thread c.id m args))

def newArray (elementType : String) (size : Value) : Op DebugError σ Value := do
  let some n := size.integral? | fail ("Array size must be an integer, got " ++ size.typeName)
  if n < 0 then fail ("Negative array size: " ++ toString n.toInt)
  let element ←
    if Signature.isPrimitiveName elementType then pure elementType
    else do pure (((← lookupType elementType).map TypeInfo.name).getD elementType)
  let arrayName := element ++ "[]"
  let some c ← findClass arrayName | throw (.classNotLoaded arrayName)
  return .object (← Op.call (.newArray c.id n))

def literal : Literal → Op DebugError σ Value
  | .null => return .null
  | .boolean b => return .boolean b
  | .char u => return .char u
  | .int n => return .int n
  | .long n => return .long n
  | .float bits => return .float bits
  | .double bits => return .double bits
  | .string text => do return .object (← Op.call (.createString text))

def asValue : Meaning → Op DebugError σ Value
  | .value v => return v
  | .type c => fail ("Cannot use class '" ++ c.name ++ "' as a value")

def ofValue (m : Op DebugError σ Value) : Op DebugError σ Meaning := do return .value (← m)

/-- A binary operation; the right operand is a routine because `&&` and `||` may not need it. -/
def binary (s : Scope) (op : BinaryOp) (left : Value) (right : Op DebugError σ Value) :
    Op DebugError σ Value :=
  match op.form with
  | .either => do
    if ← boolean op.symbol left then return .boolean true
    return .boolean (← boolean op.symbol (← right))
  | .both => do
    if ← boolean op.symbol left then return .boolean (← boolean op.symbol (← right))
    return .boolean false
  | .equal negated => do return .boolean (left.same (← right) != negated)
  | .compare c => do Op.ofExcept (c.apply left (← right))
  | .compute a => do
    let r ← right
    if a == .add && (isString left || isString r) then concatenate s left r
    else Op.ofExcept (a.apply left r)

/-! ## Expressions -/

def chainMeaning (s : Scope) (names blamed : List String) : Op DebugError σ Meaning := do
  let some m ← resolveChain s names | throw (unresolved blamed)
  return m

mutual

def meaning (s : Scope) : Expr → Op DebugError σ Meaning
  | .literal l => ofValue (literal l)
  | .this =>
    match s.self with
    | some self => return .value (.object self)
    | none => fail "'this' is not available in a static context"
  | .name text => do
    let some m ← resolveName s text | throw (.variableNotFound text)
    return m
  | .field target name =>
    match (Expr.field target name).segments? with
    | some names => chainMeaning s names names.dropLast
    | none => do member (← meaning s target) name
  | .call none method args => do
    let args ← values s args
    ofValue (callUnqualified s method args)
  | .call (some target) method args => do
    let args ← values s args
    let receiver ← match target.segments? with
      | some names => chainMeaning s names names
      | none => meaning s target
    ofValue (callOn s receiver method args)
  | .index array index => do
    let a ← asValue (← meaning s array)
    let i ← asValue (← meaning s index)
    ofValue (element a i)
  | .binary op left right => do
    let l ← asValue (← meaning s left)
    ofValue (binary s op l (do asValue (← meaning s right)))
  | .unary op operand => do
    let v ← asValue (← meaning s operand)
    ofValue (Op.ofExcept (op.apply v))
  | .cast typeName operand => do
    let v ← asValue (← meaning s operand)
    ofValue (cast s v typeName)
  | .instanceOf operand typeName => do
    let v ← asValue (← meaning s operand)
    return .value (.boolean (← instanceOf v typeName))
  | .newObject typeName args => do
    let args ← values s args
    ofValue (newObject s typeName args)
  | .newArray elementType size => do
    let n ← asValue (← meaning s size)
    ofValue (newArray elementType n)

def values (s : Scope) : List Expr → Op DebugError σ (List Value)
  | [] => return []
  | e :: es => do
    let v ← asValue (← meaning s e)
    return v :: (← values s es)

end

def evaluate (s : Scope) (e : Expr) : Op DebugError σ Evaluation := do
  let v ← asValue (← meaning s e)
  return { value := v, display := ← Display.value v, typeName := v.typeName }

end Scope

def evaluate {σ : Type} (t : ThreadId) (f : Frame) (source : String) :
    Op DebugError σ Evaluation := do
  let e ← Op.ofExcept ((parse source).mapError .parse)
  (← Scope.read t f).evaluate e

end JvmDebug
