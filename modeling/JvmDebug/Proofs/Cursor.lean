import JvmDebug.Grammar.Parse
import JvmDebug.Proofs.WrittenForm

/-!
The parser with a cursor. The characters stay where they are, an index runs over them, and the
texts of names and numbers are cut out between two indices. A cut that does not lie in the characters
is an outcome of its own, so that it can be said of the parser that it makes none.
-/
namespace JvmDebug.Grammar.Cursor
open Text

/-- Why there is no expression: the source is at fault, or a cut was not inside the characters. -/
inductive Stop
  | fault (e : SyntaxError)
  | outside
  deriving DecidableEq, Repr

def fail {α : Type} (kind : FaultKind) (position : Nat) : Except Stop α :=
  .error (.fault ⟨kind.message, position⟩)

/-! ## Characters -/

variable (chars : List Char)

/-- The characters from the one index up to the other. -/
def cut (start stop : Nat) : Except Stop (List Char) :=
  if start ≤ stop ∧ stop ≤ chars.length then .ok ((chars.take stop).drop start)
  else .error .outside

def isAt (p : Char → Bool) (pos : Nat) : Bool := chars[pos]?.any p

theorem lt_of_isAt {p : Char → Bool} {pos : Nat} (h : isAt chars p pos = true) :
    pos < chars.length := by
  by_contra hpos
  simp [isAt, List.getElem?_eq_none (Nat.not_lt.1 hpos)] at h

def skip (p : Char → Bool) (pos : Nat) : Nat :=
  if _h : isAt chars p pos = true then skip p (pos + 1) else pos
termination_by chars.length - pos
decreasing_by
  have := lt_of_isAt chars _h
  omega

theorem le_skip (p : Char → Bool) (pos : Nat) : pos ≤ skip chars p pos := by
  fun_induction skip chars p pos with
  | case1 pos _ ih => omega
  | case2 => exact Nat.le_refl _

def spells : (token : List Char) → (pos : Nat) → Bool
  | [], _ => true
  | c :: token, pos => chars[pos]? == some c && spells token (pos + 1)

def eat? (token : String) (pos : Nat) : Option Nat :=
  let pos := skip chars isBlank pos
  if spells chars token.toList pos then some (pos + token.toList.length) else none

def eatOperator? (token : String) (pos : Nat) : Option Nat :=
  (eat? chars token pos).filter fun pos => !isAt chars (· == '=') pos

def eatWord? (word : String) (pos : Nat) : Option Nat :=
  (eat? chars word pos).filter fun pos => !isAt chars isNamePart pos

def expect (c : Char) (pos : Nat) : Except Stop Nat :=
  let pos := skip chars isBlank pos
  match chars[pos]? with
  | some d => if d = c then .ok (pos + 1) else fail (.expected c (some d)) pos
  | none => fail (.expected c none) pos

/-! ## Names -/

def readName (pos : Nat) : Except Stop (String × Nat) :=
  let start := skip chars isBlank pos
  if isAt chars isNameStart start then do
    let stop := skip chars isNamePart start
    let name ← cut chars start stop
    return (String.ofList name, stop)
  else fail .expectedIdentifier start

def readQualifiers (pos : Nat) : Except Stop (List Char × Nat) :=
  let dot := skip chars isBlank pos
  if chars[dot]? = some '.' then
    let start := skip chars isBlank (dot + 1)
    if _h : isAt chars isNameStart start = true then do
      let stop := skip chars isNamePart start
      let name ← cut chars start stop
      let (names, pos) ← readQualifiers stop
      return ('.' :: name ++ names, pos)
    else .ok ([], pos)
  else .ok ([], pos)
termination_by chars.length - pos
decreasing_by
  have h₁ : start < chars.length := lt_of_isAt chars _h
  have h₂ : pos ≤ dot := le_skip chars isBlank pos
  have h₃ : dot + 1 ≤ start := le_skip chars isBlank (dot + 1)
  have h₄ : start ≤ stop := le_skip chars isNamePart start
  show chars.length - stop < chars.length - pos
  omega

def readDimensions (pos : Nat) : List Char × Nat :=
  let opening := skip chars isBlank pos
  if chars[opening]? = some '[' then
    let closing := skip chars isBlank (opening + 1)
    if _h : chars[closing]? = some ']' then
      let (pairs, pos) := readDimensions (closing + 1)
      ('[' :: ']' :: pairs, pos)
    else ([], pos)
  else ([], pos)
termination_by chars.length - pos
decreasing_by
  have h₁ : closing < chars.length := (List.getElem?_eq_some_iff.1 _h).1
  have h₂ : pos ≤ opening := le_skip chars isBlank pos
  have h₃ : opening + 1 ≤ closing := le_skip chars isBlank (opening + 1)
  show chars.length - (closing + 1) < chars.length - pos
  omega

def readTypeName (pos : Nat) : Except Stop (String × Nat) := do
  let (first, pos) ← readName chars pos
  let (names, pos) ← readQualifiers chars pos
  let (pairs, pos) := readDimensions chars pos
  return (String.ofList (first.toList ++ names ++ pairs), pos)

/-! ## Literals -/

def readStringBody (start pos : Nat) : Except Stop (List Char × Nat) :=
  match _h : chars[pos]? with
  | none => fail .unterminatedString start
  | some '"' => .ok ([], pos + 1)
  | some '\\' =>
    match chars[pos + 1]? with
    | none => fail .unterminatedEscape start
    | some c => (readStringBody start (pos + 2)).map fun (t, pos) => (unescape c :: t, pos)
  | some c => (readStringBody start (pos + 1)).map fun (t, pos) => (c :: t, pos)
termination_by chars.length - pos
decreasing_by
  all_goals
    have := (List.getElem?_eq_some_iff.1 _h).1
    omega

variable {chars} in
theorem readStringBody_quote {start pos : Nat} (h : chars[pos]? = some '"') :
    readStringBody chars start pos = .ok ([], pos + 1) := by
  rw [readStringBody]
  split <;> simp_all

variable {chars} in
theorem readStringBody_escape {start pos : Nat} (h : chars[pos]? = some '\\') :
    readStringBody chars start pos =
      match chars[pos + 1]? with
      | none => fail .unterminatedEscape start
      | some c =>
        (readStringBody chars start (pos + 2)).map fun (t, pos) => (unescape c :: t, pos) := by
  rw [readStringBody]
  split <;> simp_all

variable {chars} in
theorem readStringBody_plain {start pos : Nat} {c : Char} (h : chars[pos]? = some c)
    (hquote : c ≠ '"') (hbackslash : c ≠ '\\') : readStringBody chars start pos =
      (readStringBody chars start (pos + 1)).map fun (t, pos) => (c :: t, pos) := by
  rw [readStringBody]
  split
  · next heq => cases h.symm.trans heq
  · next heq => exact absurd (Option.some.inj (h.symm.trans heq)) hquote
  · next heq => exact absurd (Option.some.inj (h.symm.trans heq)) hbackslash
  · next heq => cases h.symm.trans heq; rfl

def closeChar (start : Nat) (c : Char) (pos : Nat) : Except Stop (UInt16 × Nat) :=
  if chars[pos]? = some '\'' then
    if c.toNat < 0x10000 then .ok (c.toNat.toUInt16, pos + 1) else fail (.wideChar c) start
  else fail .unterminatedChar start

def readCharBody (start pos : Nat) : Except Stop (UInt16 × Nat) :=
  match chars[pos]? with
  | none => fail .unterminatedChar start
  | some '\\' =>
    match chars[pos + 1]? with
    | none => fail .unterminatedEscape start
    | some c => closeChar chars start (unescape c) (pos + 2)
  | some '\'' => fail .emptyChar (pos + 1)
  | some c => closeChar chars start c (pos + 1)

variable {chars} in
theorem readCharBody_plain {start pos : Nat} {c : Char} (h : chars[pos]? = some c)
    (hquote : c ≠ '\'') (hbackslash : c ≠ '\\') :
    readCharBody chars start pos = closeChar chars start c (pos + 1) := by
  unfold readCharBody
  split
  · next heq => cases h.symm.trans heq
  · next heq => exact absurd (Option.some.inj (h.symm.trans heq)) hbackslash
  · next heq => exact absurd (Option.some.inj (h.symm.trans heq)) hquote
  · next heq => cases h.symm.trans heq; rfl

def endNumber (text : String) (l : Literal) (pos : Nat) : Except Stop (Literal × Nat) :=
  if isAt chars isNamePart pos then fail (.invalidNumber text) pos else .ok (l, pos)

def readHex (start : Nat) : Except Stop (Literal × Nat) := do
  let stop := skip chars isHexDigit (start + 2)
  let digits ← cut chars (start + 2) stop
  let text := "0x" ++ String.ofList digits
  if isAt chars isLongSuffix stop then
    if digits.isEmpty || UInt64.size ≤ hexValue digits then fail (.invalidLong text) start
    else endNumber chars text (.long (Int64.ofNat (hexValue digits))) (stop + 1)
  else if digits.isEmpty || UInt32.size ≤ hexValue digits then fail (.invalidInt text) start
  else endNumber chars text (.int (Int32.ofNat (hexValue digits))) stop

def readFraction (pos : Nat) : Except Stop (Option (List Char) × Nat) :=
  if chars[pos]? = some '.' ∧ isAt chars isNameStart (pos + 1) = false then do
    let stop := skip chars Char.isDigit (pos + 1)
    let digits ← cut chars (pos + 1) stop
    return (some digits, stop)
  else .ok (none, pos)

def readSign (pos : Nat) : Option Char × Nat :=
  match chars[pos]? with
  | some '+' => (some '+', pos + 1)
  | some '-' => (some '-', pos + 1)
  | _ => (none, pos)

def readExponent (pos : Nat) : Except Stop (Option (Char × Option Char × List Char) × Nat) :=
  match chars[pos]? with
  | some c =>
    if c == 'e' || c == 'E' then
      let (sign, start) := readSign chars (pos + 1)
      if isAt chars Char.isDigit start then do
        let stop := skip chars Char.isDigit start
        let digits ← cut chars start stop
        return (some (c, sign, digits), stop)
      else fail .malformedExponent start
    else .ok (none, pos)
  | none => .ok (none, pos)

/-- The text of the literal without its suffix is cut out; the errors show it. -/
def finishDecimal (start : Nat) (text : String) (d : Decimal) (pos : Nat) :
    Except Stop (Literal × Nat) :=
  let single := Literal.float (UInt32.ofNat (d.bits Binary.single))
  let double := Literal.double (UInt64.ofNat (d.bits Binary.double))
  let whole := digitsValue d.whole
  if isAt chars isLongSuffix pos && d.isWhole then
    if Nat.pow 2 63 ≤ whole then fail (.invalidLong text) start
    else endNumber chars text (.long (Int64.ofNat whole)) (pos + 1)
  else if isAt chars (fun c => c == 'f' || c == 'F') pos then endNumber chars text single (pos + 1)
  else if isAt chars (fun c => c == 'd' || c == 'D') pos then endNumber chars text double (pos + 1)
  else if d.isWhole then
    if Nat.pow 2 31 ≤ whole then fail (.invalidInt text) start
    else endNumber chars text (.int (Int32.ofNat whole)) pos
  else endNumber chars text double pos

def readDecimal (start : Nat) : Except Stop (Literal × Nat) := do
  let pos := skip chars Char.isDigit start
  let whole ← cut chars start pos
  let (fraction, pos) ← readFraction chars pos
  let (exponent, pos) ← readExponent chars pos
  let text ← cut chars start pos
  finishDecimal chars start (String.ofList text) ⟨whole, fraction, exponent⟩ pos

def readNumber (start : Nat) : Except Stop (Literal × Nat) :=
  if chars[start]? = some '0' ∧ (chars[start + 1]? = some 'x' ∨ chars[start + 1]? = some 'X') then
    readHex chars start
  else readDecimal chars start

def readLeast? (pos : Nat) : Except Stop (Option (Literal × Nat)) := do
  let start := skip chars isBlank pos
  let stop := skip chars Char.isDigit start
  let digits ← cut chars start stop
  let found : Option (Literal × Nat) :=
    if isAt chars isLongSuffix stop then
      if digits = "9223372036854775808".toList then some (.long Int64.minValue, stop + 1) else none
    else if digits = "2147483648".toList then some (.int Int32.minValue, stop) else none
  return found.filter fun p => !isAt chars (fun c => isNamePart c || c == '.') p.2

/-! ## Steps -/

/-- The parser between two steps. -/
structure State where
  mode : Mode
  stack : List Pending
  pos : Nat
  deriving Repr

def start : State := ⟨.operand, [], 0⟩

inductive Move
  | more (m : State)
  | finished (e : Expr)
  deriving Repr

def castPrefix? (pos : Nat) : Except Stop (Option (String × Nat)) :=
  let pos := skip chars isBlank pos
  if chars[pos]? = some '(' then
    match readTypeName chars (pos + 1) with
    | .ok (typeName, pos) =>
      let pos := skip chars isBlank pos
      if typeName ∉ reserved ∧ chars[pos]? = some ')' then .ok (some (typeName, pos + 1))
      else .ok none
    | .error (.fault _) => .ok none
    | .error .outside => .error .outside
  else .ok none

def openArguments (callee : Callee) (stack : List Pending) (pos : Nat) : Except Stop Move :=
  let pos := skip chars isBlank pos
  if chars[pos]? = some ')' then .ok (.more ⟨.postfixed (callee.apply []), stack, pos + 1⟩)
  else .ok (.more ⟨.operand, .argument callee [] :: stack, pos⟩)

def afterName (callee : Callee) (e : Expr) (stack : List Pending) (pos : Nat) : Except Stop Move :=
  if chars[pos]? = some '(' then openArguments chars callee stack (pos + 1)
  else .ok (.more ⟨.postfixed e, stack, pos⟩)

def afterNew (stack : List Pending) (pos : Nat) : Except Stop Move := do
  let (typeName, pos) ← readTypeName chars pos
  let pos := skip chars isBlank pos
  if chars[pos]? = some '[' then .ok (.more ⟨.operand, .newArray typeName :: stack, pos + 1⟩)
  else if chars[pos]? = some '(' then openArguments chars (.constructor typeName) stack (pos + 1)
  else fail (.expectedAfterNew typeName) pos

def afterWord (stack : List Pending) (name : String) (pos : Nat) : Except Stop Move :=
  match name with
  | "true" => .ok (.more ⟨.postfixed (.literal (.boolean true)), stack, pos⟩)
  | "false" => .ok (.more ⟨.postfixed (.literal (.boolean false)), stack, pos⟩)
  | "null" => .ok (.more ⟨.postfixed (.literal .null), stack, pos⟩)
  | "this" => .ok (.more ⟨.postfixed .this, stack, pos⟩)
  | "new" => afterNew chars stack pos
  | _ => afterName chars (.plain name) (.name name) stack pos

def afterLiteral (stack : List Pending) (read : Except Stop (Literal × Nat)) :
    Except Stop Move := do
  let (l, pos) ← read
  return .more ⟨.postfixed (.literal l), stack, pos⟩

def primary (stack : List Pending) (pos : Nat) : Except Stop Move :=
  match chars[pos]? with
  | none => fail (.expectedExpression none) pos
  | some '(' => .ok (.more ⟨.operand, .group :: stack, pos + 1⟩)
  | some '"' => afterLiteral stack
      ((readStringBody chars pos (pos + 1)).map fun (t, pos) => (.string (String.ofList t), pos))
  | some '\'' => afterLiteral stack
      ((readCharBody chars pos (pos + 1)).map fun (u, pos) => (.char u, pos))
  | some c =>
    if c.isDigit || (c == '.' && isAt chars Char.isDigit (pos + 1)) then
      afterLiteral stack (readNumber chars pos)
    else if isNameStart c then do
      let (name, pos) ← readName chars pos
      afterWord chars stack name pos
    else fail (.expectedExpression (some c)) pos

variable {chars} in
theorem primary_plain {stack : List Pending} {pos : Nat} {c : Char} (h : chars[pos]? = some c)
    (hgroup : c ≠ '(') (hstring : c ≠ '"') (hchar : c ≠ '\'') : primary chars stack pos =
      if c.isDigit || (c == '.' && isAt chars Char.isDigit (pos + 1)) then
        afterLiteral stack (readNumber chars pos)
      else if isNameStart c then do
        let (name, pos) ← readName chars pos
        afterWord chars stack name pos
      else fail (.expectedExpression (some c)) pos := by
  unfold primary
  split
  · next heq => cases h.symm.trans heq
  · next heq => exact absurd (Option.some.inj (h.symm.trans heq)) hgroup
  · next heq => exact absurd (Option.some.inj (h.symm.trans heq)) hstring
  · next heq => exact absurd (Option.some.inj (h.symm.trans heq)) hchar
  · next heq => cases h.symm.trans heq; rfl

def operand (stack : List Pending) (pos : Nat) : Except Stop Move :=
  match eatOperator? chars "!" pos with
  | some pos => .ok (.more ⟨.operand, .unary .not :: stack, pos⟩)
  | none =>
    match eat? chars "-" pos with
    | some pos => do
      match ← readLeast? chars pos with
      | some (l, pos) => return .more ⟨.climb (.literal l) 6, stack, pos⟩
      | none => return .more ⟨.operand, .unary .neg :: stack, pos⟩
    | none =>
      match eat? chars "+" pos with
      | some pos => .ok (.more ⟨.operand, stack, pos⟩)
      | none => do
        match ← castPrefix? chars pos with
        | some (typeName, pos) => return .more ⟨.operand, .cast typeName :: stack, pos⟩
        | none => primary chars stack (skip chars isBlank pos)

def postfixed (e : Expr) (stack : List Pending) (pos : Nat) : Except Stop Move :=
  match eat? chars "." pos with
  | some pos => do
    let (name, pos) ← readName chars pos
    afterName chars (.method e name) (.field e name) stack pos
  | none =>
    match eat? chars "[" pos with
    | some pos => .ok (.more ⟨.operand, .subscript e :: stack, pos⟩)
    | none => .ok (.more ⟨.climb e 6, stack, pos⟩)

def operator? (level : Nat) (pos : Nat) : Option (BinaryOp × Nat) :=
  let plain (op : BinaryOp) := (eat? chars op.symbol pos).map fun pos => (op, pos)
  let guarded (op : BinaryOp) := (eatOperator? chars op.symbol pos).map fun pos => (op, pos)
  match level with
  | 0 => plain .or
  | 1 => plain .and
  | 2 => (plain .eq).or (plain .ne)
  | 3 => (plain .le).or ((plain .ge).or ((plain .lt).or (plain .gt)))
  | 4 => (guarded .add).or (guarded .sub)
  | 5 => (guarded .mul).or ((guarded .div).or (guarded .rem))
  | _ => none

def afterClosing (c : Char) (e : Expr) (stack : List Pending) (pos : Nat) : Except Stop Move := do
  let pos ← expect chars c pos
  return .more ⟨.postfixed e, stack, pos⟩

def close (e : Expr) (stack : List Pending) (pos : Nat) : Except Stop Move :=
  match stack with
  | .group :: stack => afterClosing chars ')' e stack pos
  | .subscript array :: stack => afterClosing chars ']' (.index array e) stack pos
  | .newArray typeName :: stack => afterClosing chars ']' (.newArray typeName e) stack pos
  | .argument callee before :: stack =>
    match eat? chars "," pos with
    | some pos => .ok (.more ⟨.operand, .argument callee (e :: before) :: stack, pos⟩)
    | none => afterClosing chars ')' (callee.apply (e :: before).reverse) stack pos
  | _ =>
    let pos := skip chars isBlank pos
    match chars[pos]? with
    | none => .ok (.finished e)
    | some c => fail (.unexpectedChar c) pos

/-- Hand the operand to the frame that waits for one of this level, or go down a level. -/
def descend (e : Expr) (level : Nat) (stack : List Pending) (pos : Nat) : Except Stop Move :=
  match stack, level with
  | .right op left :: stack, level + 1 =>
    if op.level = level then .ok (.more ⟨.climb (.binary op left e) level, stack, pos⟩)
    else .ok (.more ⟨.climb e level, .right op left :: stack, pos⟩)
  | stack, level + 1 => .ok (.more ⟨.climb e level, stack, pos⟩)
  | stack, 0 => close chars e stack pos

def goOn (e : Expr) (level : Nat) (stack : List Pending) (pos : Nat) : Except Stop Move :=
  match if level = 3 then eatWord? chars "instanceof" pos else none with
  | some pos => do
    let (typeName, pos) ← readTypeName chars pos
    return .more ⟨.climb (.instanceOf e typeName) level, stack, pos⟩
  | none =>
    match operator? chars level pos with
    | some (op, pos) => .ok (.more ⟨.operand, .right op e :: stack, pos⟩)
    | none => descend chars e level stack pos

def climb (e : Expr) (level : Nat) (stack : List Pending) (pos : Nat) : Except Stop Move :=
  match stack, level with
  | .unary op :: stack, 6 => .ok (.more ⟨.climb (.unary op e) 6, stack, pos⟩)
  | .cast typeName :: stack, 6 => .ok (.more ⟨.climb (.cast typeName e) 6, stack, pos⟩)
  | stack, level => goOn chars e level stack pos

def step (m : State) : Except Stop Move :=
  match m.mode with
  | .operand => operand chars m.stack m.pos
  | .postfixed e => postfixed chars e m.stack m.pos
  | .climb e level => climb chars e level m.stack m.pos

/-- Where the parser stands after so many steps, if it has not come to an end before. -/
def after : (steps : Nat) → State → Option State
  | 0, m => some m
  | steps + 1, m =>
    match step chars m with
    | .ok (.more n) => after steps n
    | _ => none

end JvmDebug.Grammar.Cursor
