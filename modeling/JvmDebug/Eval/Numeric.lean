import JvmDebug.Binary.Format
import JvmDebug.Error
import JvmDebug.Expr

/-!
Arithmetic on primitive values. Operands are promoted to the wider of their two types, nothing
below `int`; whole numbers wrap, and division by zero is an error for every type.
-/
namespace JvmDebug

inductive Number
  | int (n : Int32)
  | long (n : Int64)
  | float (x : Float32)
  | double (x : Float)

def Value.integral? : Value → Option Int32
  | .byte n => some n.toInt32
  | .char u => some (Int32.ofInt u.toNat)
  | .short n => some n.toInt32
  | .int n => some n
  | _ => none

namespace Number

def ofValue? : Value → Option Number
  | .long n => some (long n)
  | .float bits => some (float (Float32.ofBits bits))
  | .double bits => some (double (Float.ofBits bits))
  | v => v.integral?.map int

def toInt32 : Number → Int32
  | int n => n
  | long n => n.toInt32
  | float x => x.toInt32
  | double x => x.toInt32

def toInt64 : Number → Int64
  | int n => n.toInt64
  | long n => n
  | float x => x.toInt64
  | double x => x.toInt64

def toFloat32 : Number → Float32
  | int n => n.toFloat32
  | long n => n.toFloat32
  | float x => x
  | double x => x.toFloat32

def toFloat : Number → Float
  | int n => n.toFloat
  | long n => n.toFloat
  | float x => x.toFloat
  | double x => x

end Number

inductive Operands
  | ints (a b : Int32)
  | longs (a b : Int64)
  | floats (a b : Float32)
  | doubles (a b : Float)

namespace Operands

def promote (a b : Number) : Operands :=
  match a, b with
  | .double _, _ | _, .double _ => doubles a.toFloat b.toFloat
  | .float _, _ | _, .float _ => floats a.toFloat32 b.toFloat32
  | .long _, _ | _, .long _ => longs a.toInt64 b.toInt64
  | .int _, .int _ => ints a.toInt32 b.toInt32

def ofValues (symbol : String) (left right : Value) : Except DebugError Operands :=
  match Number.ofValue? left, Number.ofValue? right with
  | some a, some b => .ok (promote a b)
  | _, _ => .error (.evaluationFailed ("Cannot apply operator '" ++ symbol ++ "' to "
      ++ left.typeName ++ " and " ++ right.typeName))

end Operands

inductive Arithmetic
  | add | sub | mul | div | rem
  deriving DecidableEq, Repr

inductive Comparison
  | lt | gt | le | ge
  deriving DecidableEq, Repr

inductive BinaryForm
  | either
  | both
  | equal (negated : Bool)
  | compare (c : Comparison)
  | compute (a : Arithmetic)
  deriving DecidableEq, Repr

def BinaryOp.form : BinaryOp → BinaryForm
  | or => .either
  | and => .both
  | eq => .equal false
  | ne => .equal true
  | lt => .compare .lt
  | gt => .compare .gt
  | le => .compare .le
  | ge => .compare .ge
  | add => .compute .add
  | sub => .compute .sub
  | mul => .compute .mul
  | div => .compute .div
  | rem => .compute .rem

namespace Arithmetic

def symbol : Arithmetic → String
  | add => "+"
  | sub => "-"
  | mul => "*"
  | div => "/"
  | rem => "%"

def divides : Arithmetic → Bool
  | div | rem => true
  | _ => false

def onInts (a b : Int32) : Arithmetic → Int32
  | add => a + b
  | sub => a - b
  | mul => a * b
  | div => a / b
  | rem => a % b

def onLongs (a b : Int64) : Arithmetic → Int64
  | add => a + b
  | sub => a - b
  | mul => a * b
  | div => a / b
  | rem => a % b

def onFloats (a b : Float32) : Arithmetic → UInt32
  | add => (a + b).toBits
  | sub => (a - b).toBits
  | mul => (a * b).toBits
  | div => (a / b).toBits
  | rem => UInt32.ofNat (Binary.remainder Binary.single a.toBits.toNat b.toBits.toNat)

def onDoubles (a b : Float) : Arithmetic → UInt64
  | add => (a + b).toBits
  | sub => (a - b).toBits
  | mul => (a * b).toBits
  | div => (a / b).toBits
  | rem => UInt64.ofNat (Binary.remainder Binary.double a.toBits.toNat b.toBits.toNat)

def zeroDivisor : Operands → Bool
  | .ints _ b => b == 0
  | .longs _ b => b == 0
  | .floats _ b => b == 0
  | .doubles _ b => b == 0

def apply (op : Arithmetic) (left right : Value) : Except DebugError Value := do
  let operands ← Operands.ofValues op.symbol left right
  if op.divides && zeroDivisor operands then throw (.evaluationFailed "Division by zero")
  match operands with
  | .ints a b => return .int (op.onInts a b)
  | .longs a b => return .long (op.onLongs a b)
  | .floats a b => return .float (op.onFloats a b)
  | .doubles a b => return .double (op.onDoubles a b)

end Arithmetic

namespace Comparison

def symbol : Comparison → String
  | lt => "<"
  | gt => ">"
  | le => "<="
  | ge => ">="

def holds {α : Type} [LT α] [LE α] [DecidableLT α] [DecidableLE α] (a b : α) : Comparison → Bool
  | lt => a < b
  | gt => b < a
  | le => a ≤ b
  | ge => b ≤ a

/-- A comparison with a NaN does not hold. -/
def apply (op : Comparison) (left right : Value) : Except DebugError Value := do
  match ← Operands.ofValues op.symbol left right with
  | .ints a b => return .boolean (op.holds a b)
  | .longs a b => return .boolean (op.holds a b)
  | .floats a b => return .boolean (op.holds a b)
  | .doubles a b => return .boolean (op.holds a b)

end Comparison

namespace Value

/-- Identity of references, equality of numbers after promotion. Values that cannot be compared
are different. -/
def same : Value → Value → Bool
  | null, null => true
  | object a, object b => a.id == b.id
  | boolean a, boolean b => a == b
  | a, b =>
    match Number.ofValue? a, Number.ofValue? b with
    | some a, some b =>
      match Operands.promote a b with
      | .ints a b => a == b
      | .longs a b => a == b
      | .floats a b => a == b
      | .doubles a b => a == b
    | _, _ => false

def negate (v : Value) : Except DebugError Value :=
  match Number.ofValue? v with
  | some (.int n) => .ok (int (-n))
  | some (.long n) => .ok (long (-n))
  | some (.float x) => .ok (float (-x).toBits)
  | some (.double x) => .ok (double (-x).toBits)
  | none => .error (.evaluationFailed
      ("Operator '-' expects a numeric operand, got " ++ v.typeName))

def complement : Value → Except DebugError Value
  | boolean b => .ok (boolean !b)
  | v => .error (.evaluationFailed
      ("Operator '!' expects a boolean operand, got " ++ v.typeName))

/-- The value converted to a primitive type, narrowed if need be. Numbers beyond the range of a
whole type are cut down to its bits when whole, to its bounds when not. -/
def convert? (v : Value) (typeName : String) : Option Value :=
  match v with
  | boolean b => if typeName = "boolean" then some (boolean b) else none
  | v => (Number.ofValue? v).bind fun n =>
    match typeName with
    | "byte" => some (byte n.toInt32.toInt8)
    | "short" => some (short n.toInt32.toInt16)
    | "char" => some (char (UInt16.ofInt n.toInt32.toInt))
    | "int" => some (int n.toInt32)
    | "long" => some (long n.toInt64)
    | "float" => some (float n.toFloat32.toBits)
    | "double" => some (double n.toFloat.toBits)
    | _ => none

end Value

def UnaryOp.apply : UnaryOp → Value → Except DebugError Value
  | not, v => v.complement
  | neg, v => v.negate

end JvmDebug
