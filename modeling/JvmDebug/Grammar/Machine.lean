import JvmDebug.Grammar.Scanner

/-!
The parser: a machine with a stack of pending frames, so that nesting costs no call depth. It is in
one of three modes: before an operand, after an operand that may be continued by `.`, `[` or a call,
and after an operand of a binary operator. Each step either reads characters or, with the same
characters left, takes a frame off the stack or goes down one operator level.
-/
namespace JvmDebug.Grammar
open Text

inductive Callee
  | plain (name : String)
  | method (target : Expr) (name : String)
  | constructor (typeName : String)
  deriving Repr

def Callee.apply (args : List Expr) : Callee → Expr
  | plain name => .call none name args
  | method target name => .call (some target) name args
  | constructor typeName => .newObject typeName args

inductive Pending
  | right (op : BinaryOp) (left : Expr)
  | unary (op : UnaryOp)
  | cast (typeName : String)
  | group
  | subscript (array : Expr)
  | newArray (elementType : String)
  | argument (callee : Callee) (before : List Expr)
  deriving Repr

inductive Mode
  | operand
  | postfixed (e : Expr)
  | climb (e : Expr) (level : Nat)
  deriving Repr

structure Machine where
  mode : Mode
  stack : List Pending
  rest : Rest
  deriving Repr

inductive Progress
  | more (m : Machine)
  | finished (r : Except Fault Expr)

namespace Machine

/-- The cast prefix `(T)`, with `T` a type name that is no reserved word. -/
def castPrefix? (s : Rest) : Option (String × Rest) :=
  match skipBlanks s with
  | '(' :: r =>
    match readTypeName r with
    | .ok (typeName, r) =>
      if typeName ∈ ["true", "false", "null", "this", "new"] then none
      else match skipBlanks r with
        | ')' :: r => some (typeName, r)
        | _ => none
    | .error _ => none
  | _ => none

def openArguments (callee : Callee) (stack : List Pending) (s : Rest) : Progress :=
  match skipBlanks s with
  | ')' :: r => .more ⟨.postfixed (callee.apply []), stack, r⟩
  | r => .more ⟨.operand, .argument callee [] :: stack, r⟩

def afterName (callee : Callee) (e : Expr) (stack : List Pending) (s : Rest) : Progress :=
  match s with
  | '(' :: r => openArguments callee stack r
  | r => .more ⟨.postfixed e, stack, r⟩

def afterNew (stack : List Pending) (s : Rest) : Progress :=
  match readTypeName s with
  | .error f => .finished (.error f)
  | .ok (typeName, r) =>
    match skipBlanks r with
    | '[' :: r => .more ⟨.operand, .newArray typeName :: stack, r⟩
    | '(' :: r => openArguments (.constructor typeName) stack r
    | r => .finished (fail (.expectedAfterNew typeName) r)

def afterLiteral (stack : List Pending) : Read Literal → Progress
  | .error f => .finished (.error f)
  | .ok (l, r) => .more ⟨.postfixed (.literal l), stack, r⟩

def primary (stack : List Pending) (s : Rest) : Progress :=
  match s with
  | [] => .finished (fail (.expectedExpression none) [])
  | '(' :: r => .more ⟨.operand, .group :: stack, r⟩
  | '"' :: r => afterLiteral stack ((readStringBody s r).map fun (t, q) => (.string (String.ofList t), q))
  | '\'' :: r => afterLiteral stack ((readCharBody s r).map fun (u, q) => (.char u, q))
  | c :: r =>
    if c.isDigit || (c == '.' && startsWith Char.isDigit r) then afterLiteral stack (readNumber s)
    else if isNameStart c then
      let name := String.ofList (c :: r.takeWhile isNamePart)
      let r := r.dropWhile isNamePart
      match name with
      | "true" => .more ⟨.postfixed (.literal (.boolean true)), stack, r⟩
      | "false" => .more ⟨.postfixed (.literal (.boolean false)), stack, r⟩
      | "null" => .more ⟨.postfixed (.literal .null), stack, r⟩
      | "this" => .more ⟨.postfixed .this, stack, r⟩
      | "new" => afterNew stack r
      | _ => afterName (.plain name) (.name name) stack r
    else .finished (fail (.expectedExpression (some c)) s)

/-- Prefix operators and casts, then a primary expression. The least integers are read with their
sign and are not continued. -/
def operand (stack : List Pending) (s : Rest) : Progress :=
  match eatOperator? "!" s with
  | some r => .more ⟨.operand, .unary .not :: stack, r⟩
  | none =>
    match eat? "-" s with
    | some r =>
      match readLeast? r with
      | some (l, r) => .more ⟨.climb (.literal l) 6, stack, r⟩
      | none => .more ⟨.operand, .unary .neg :: stack, r⟩
    | none =>
      match eat? "+" s with
      | some r => .more ⟨.operand, stack, r⟩
      | none =>
        match castPrefix? s with
        | some (typeName, r) => .more ⟨.operand, .cast typeName :: stack, r⟩
        | none => primary stack (skipBlanks s)

/-- Member access, method call or subscript; otherwise the operand is complete. -/
def postfixed (e : Expr) (stack : List Pending) (s : Rest) : Progress :=
  match eat? "." s with
  | some r =>
    match readName r with
    | .error f => .finished (.error f)
    | .ok (name, r) => afterName (.method e name) (.field e name) stack r
  | none =>
    match eat? "[" s with
    | some r => .more ⟨.operand, .subscript e :: stack, r⟩
    | none => .more ⟨.climb e 6, stack, s⟩

def operator? (level : Nat) (s : Rest) : Option (BinaryOp × Rest) :=
  let try_ (eater : String → Rest → Option Rest) (op : BinaryOp) : Option (BinaryOp × Rest) :=
    (eater op.symbol s).map fun r => (op, r)
  match level with
  | 0 => try_ eat? .or
  | 1 => try_ eat? .and
  | 2 => (try_ eat? .eq).or (try_ eat? .ne)
  | 3 => (try_ eat? .le).or ((try_ eat? .ge).or ((try_ eat? .lt).or (try_ eat? .gt)))
  | 4 => (try_ eatOperator? .add).or (try_ eatOperator? .sub)
  | 5 => (try_ eatOperator? .mul).or ((try_ eatOperator? .div).or (try_ eatOperator? .rem))
  | _ => none

def close (e : Expr) (stack : List Pending) (s : Rest) : Progress :=
  match stack with
  | .group :: stack =>
    match expect ')' s with
    | .ok r => .more ⟨.postfixed e, stack, r⟩
    | .error f => .finished (.error f)
  | .subscript array :: stack =>
    match expect ']' s with
    | .ok r => .more ⟨.postfixed (.index array e), stack, r⟩
    | .error f => .finished (.error f)
  | .newArray typeName :: stack =>
    match expect ']' s with
    | .ok r => .more ⟨.postfixed (.newArray typeName e), stack, r⟩
    | .error f => .finished (.error f)
  | .argument callee before :: stack =>
    match eat? "," s with
    | some r => .more ⟨.operand, .argument callee (e :: before) :: stack, r⟩
    | none =>
      match expect ')' s with
      | .ok r => .more ⟨.postfixed (callee.apply (e :: before).reverse), stack, r⟩
      | .error f => .finished (.error f)
  | _ =>
    match skipBlanks s with
    | [] => .finished (.ok e)
    | c :: r => .finished (fail (.unexpectedChar c) (c :: r))

/-- Go on with an operator of this level, or hand the operand to the frame that waits for one of
this level, or go down a level. -/
def climb (e : Expr) (level : Nat) (stack : List Pending) (s : Rest) : Progress :=
  match stack, level with
  | .unary op :: stack, 6 => .more ⟨.climb (.unary op e) 6, stack, s⟩
  | .cast typeName :: stack, 6 => .more ⟨.climb (.cast typeName e) 6, stack, s⟩
  | stack, level =>
    match if level = 3 then eatWord? "instanceof" s else none with
    | some r =>
      match readTypeName r with
      | .ok (typeName, r) => .more ⟨.climb (.instanceOf e typeName) level, stack, r⟩
      | .error f => .finished (.error f)
    | none =>
      match operator? level s with
      | some (op, r) => .more ⟨.operand, .right op e :: stack, r⟩
      | none =>
        match stack, level with
        | .right op left :: stack, level + 1 =>
          if op.level = level then .more ⟨.climb (.binary op left e) level, stack, s⟩
          else .more ⟨.climb e level, .right op left :: stack, s⟩
        | stack, level + 1 => .more ⟨.climb e level, stack, s⟩
        | stack, 0 => close e stack s

def step (m : Machine) : Progress :=
  match m.mode with
  | .operand => operand m.stack m.rest
  | .postfixed e => postfixed e m.stack m.rest
  | .climb e level => climb e level m.stack m.rest

end Machine

end JvmDebug.Grammar
