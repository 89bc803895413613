import JvmDebug.Proofs.CallSites

/-!
The evaluator with a log of the parts of the expression that it has evaluated. Without its log it is
the evaluator.
-/
namespace JvmDebug

namespace Scope
variable {σ α : Type}

/-- What the left operand of `&&` or `||` settles. -/
def settle (op : BinaryOp) (left : Value) : Op DebugError σ (Option Value) :=
  match op.form with
  | .either => do
    if ← boolean op.symbol left then return some (.boolean true)
    return none
  | .both => do
    if ← boolean op.symbol left then return none
    return some (.boolean false)
  | _ => return none

def combine (s : Scope) (op : BinaryOp) (left right : Value) : Op DebugError σ Value :=
  match op.form with
  | .either | .both => do return .boolean (← boolean op.symbol right)
  | .equal negated => return .boolean (left.same right != negated)
  | .compare c => Op.ofExcept (c.apply left right)
  | .compute a =>
    if a == .add && (isString left || isString right) then concatenate s left right
    else Op.ofExcept (a.apply left right)

theorem binary_eq (s : Scope) (op : BinaryOp) (left : Value) (right : Op DebugError σ Value) :
    binary s op left right = (do
      match ← settle op left with
      | some v => return v
      | none => combine s op left (← right)) := by
  rw [binary, settle]
  cases op <;> simp only [BinaryOp.form, combine, bind_assoc, pure_bind]
  all_goals
    refine bind_congr fun b => ?_
    cases b <;> rfl

/-- Notes what an expression stands for behind what is noted of its parts. -/
def noting (parts : List Evaluated) (m : Op DebugError σ Meaning) :
    Op DebugError σ (Meaning × List Note) := do
  let r ← m
  return (r, parts.flatMap Evaluated.notes ++ [⟨[], r⟩])

def operand (number : Nat) (e : Expr) (m : Op DebugError σ (Meaning × List Note)) :
    Op DebugError σ (Value × Evaluated) := do
  let (r, l) ← m
  let v ← asValue r
  return (v, ⟨number, e, r, l⟩)

mutual

def logged (s : Scope) : Expr → Op DebugError σ (Meaning × List Note)
  | .literal l => noting [] (meaning s (.literal l))
  | .this => noting [] (meaning s .this)
  | .name text => noting [] (meaning s (.name text))
  | .field target name =>
    match (Expr.field target name).segments? with
    | some names => noting [] (chainMeaning s names names.dropLast)
    | none => do
      let (r, l) ← logged s target
      noting [⟨0, target, r, l⟩] (member r name)
  | .call none method args => do
    let (args, parts) ← loggedArgs s 0 args
    noting parts (ofValue (callUnqualified s method args))
  | .call (some target) method args => do
    let (args, parts) ← loggedArgs s 1 args
    let receiver : Op DebugError σ (Meaning × List Note) :=
      match target.segments? with
      | some names => noting [] (chainMeaning s names names)
      | none => logged s target
    let (r, l) ← receiver
    noting (parts ++ [⟨0, target, r, l⟩]) (ofValue (callOn s r method args))
  | .index array index => do
    let (a, x) ← operand 0 array (logged s array)
    let (i, y) ← operand 1 index (logged s index)
    noting [x, y] (ofValue (element a i))
  | .binary op left right => do
    let (a, x) ← operand 0 left (logged s left)
    match ← settle op a with
    | some v => noting [x] (ofValue (pure v))
    | none => do
      let (b, y) ← operand 1 right (logged s right)
      noting [x, y] (ofValue (combine s op a b))
  | .unary op e => do
    let (v, x) ← operand 0 e (logged s e)
    noting [x] (ofValue (Op.ofExcept (op.apply v)))
  | .cast typeName e => do
    let (v, x) ← operand 0 e (logged s e)
    noting [x] (ofValue (cast s v typeName))
  | .instanceOf e typeName => do
    let (v, x) ← operand 0 e (logged s e)
    noting [x] do return .value (.boolean (← instanceOf v typeName))
  | .newObject typeName args => do
    let (args, parts) ← loggedArgs s 0 args
    noting parts (ofValue (newObject s typeName args))
  | .newArray elementType size => do
    let (n, x) ← operand 0 size (logged s size)
    noting [x] (ofValue (newArray elementType n))

def loggedArgs (s : Scope) (number : Nat) :
    List Expr → Op DebugError σ (List Value × List Evaluated)
  | [] => return ([], [])
  | e :: es => do
    let (v, x) ← operand number e (logged s e)
    let (vs, xs) ← loggedArgs s (number + 1) es
    return (v :: vs, x :: xs)

end

theorem fst_noting (parts : List Evaluated) (m : Op DebugError σ Meaning) :
    Prod.fst <$> noting parts m = m := by
  simp [noting]

theorem operand_bind {β : Type} (number : Nat) (e : Expr)
    (m : Op DebugError σ (Meaning × List Note)) (k : Value × Evaluated → Op DebugError σ β) :
    operand number e m >>= k =
      m >>= fun r => asValue r.1 >>= fun v => k (v, ⟨number, e, r.1, r.2⟩) := by
  simp [operand]

mutual

/-- The log changes nothing. -/
theorem fst_logged (s : Scope) (e : Expr) :
    Prod.fst <$> (logged s e : Op DebugError σ (Meaning × List Note)) = meaning s e := by
  cases e with
  | field target name =>
    rw [meaning, logged, ← fst_logged s target]
    cases (Expr.field target name).segments? <;> simp [fst_noting]
  | call target method args =>
    cases target with
    | none =>
      rw [meaning, logged, ← fst_loggedArgs s 0 args]
      simp [fst_noting]
    | some target =>
      rw [meaning, logged, ← fst_loggedArgs s 1 args, ← fst_logged s target]
      cases target.segments? <;> simp [noting]
  | index array index =>
    rw [meaning, logged, ← fst_logged s array, ← fst_logged s index]
    simp [operand_bind, fst_noting]
  | binary op left right =>
    rw [meaning, logged, ← fst_logged s left, ← fst_logged s right]
    simp only [operand_bind, binary_eq, map_bind, bind_map_left, ofValue, bind_assoc]
    refine bind_congr fun r => bind_congr fun v => bind_congr fun settled => ?_
    cases settled <;> simp [fst_noting]
  | unary op e | cast typeName e | instanceOf e typeName | newArray elementType e =>
    rw [meaning, logged, ← fst_logged s e]
    simp [operand_bind, fst_noting]
  | newObject typeName args =>
    rw [meaning, logged, ← fst_loggedArgs s 0 args]
    simp [fst_noting]
  | literal | this | name => rw [logged, fst_noting]

theorem fst_loggedArgs (s : Scope) (number : Nat) (es : List Expr) :
    Prod.fst <$> (loggedArgs s number es : Op DebugError σ (List Value × List Evaluated)) =
      values s es := by
  cases es with
  | nil => simp [loggedArgs, values]
  | cons e es =>
    rw [loggedArgs, values, ← fst_logged s e, ← fst_loggedArgs s (number + 1) es]
    simp [operand_bind]

end

end Scope

end JvmDebug
