/-!
Expressions as trees. Binary operators are grouped in six levels, from `||` (0) up to `*` (5).
-/
namespace JvmDebug

inductive Literal
  | null
  | boolean (b : Bool)
  | char (unit : UInt16)
  | int (n : Int32)
  | long (n : Int64)
  | float (bits : UInt32)
  | double (bits : UInt64)
  | string (text : String)
  deriving DecidableEq, Repr, Inhabited

inductive BinaryOp
  | or | and | eq | ne | lt | gt | le | ge | add | sub | mul | div | rem
  deriving DecidableEq, Repr, Inhabited

namespace BinaryOp

def symbol : BinaryOp → String
  | or => "||"
  | and => "&&"
  | eq => "=="
  | ne => "!="
  | lt => "<"
  | gt => ">"
  | le => "<="
  | ge => ">="
  | add => "+"
  | sub => "-"
  | mul => "*"
  | div => "/"
  | rem => "%"

def level : BinaryOp → Nat
  | or => 0
  | and => 1
  | eq | ne => 2
  | lt | gt | le | ge => 3
  | add | sub => 4
  | mul | div | rem => 5

theorem level_le (op : BinaryOp) : op.level ≤ 5 := by cases op <;> decide

end BinaryOp

inductive UnaryOp
  | not | neg
  deriving DecidableEq, Repr, Inhabited

/-- A call without target is a call on the frame's own object or class. -/
inductive Expr
  | literal (l : Literal)
  | name (text : String)
  | this
  | field (target : Expr) (member : String)
  | call (target : Option Expr) (method : String) (args : List Expr)
  | index (array index : Expr)
  | binary (op : BinaryOp) (left right : Expr)
  | unary (op : UnaryOp) (operand : Expr)
  | cast (typeName : String) (operand : Expr)
  | instanceOf (operand : Expr) (typeName : String)
  | newObject (typeName : String) (args : List Expr)
  | newArray (elementType : String) (size : Expr)
  deriving Repr, Inhabited

namespace Expr

def reverseSegments? : Expr → Option (List String)
  | name text => some [text]
  | field target member => target.reverseSegments?.map (member :: ·)
  | _ => none

def segments? (e : Expr) : Option (List String) := e.reverseSegments?.map List.reverse

end Expr

end JvmDebug
