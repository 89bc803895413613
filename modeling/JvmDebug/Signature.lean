import JvmDebug.Text.Affix
import JvmDebug.Text.CharClass

/-!
Type names as they are written in sources (`java.lang.String[]`) and type
signatures as the virtual machine writes them (`[Ljava/lang/String;`), with
the conversions between them, and the parts of a method signature.
-/
namespace JvmDebug.Signature
open Text

/-- The tag of each primitive type beside its name; `void` stands in a return only. -/
def primitives : List (Char × String) :=
  [('Z', "boolean"), ('B', "byte"), ('C', "char"), ('S', "short"), ('I', "int"), ('J', "long"),
   ('F', "float"), ('D', "double"), ('V', "void")]

def isPrimitiveName (name : String) : Bool :=
  name != "void" && primitives.any fun p => p.2 == name

def stripDimensions : List Char → Nat × List Char
  | '[' :: s => let (n, r) := stripDimensions s; (n + 1, r)
  | s => (0, s)

def brackets (n : Nat) : List Char := (List.replicate n ['[', ']']).flatten

def replaceChar (a b : Char) (s : List Char) : List Char := s.map fun c => if c = a then b else c

def className? (s : List Char) : Option (List Char) :=
  match s with
  | 'L' :: r => beforeSuffix? [';'] r
  | _ => none

def elementName (s : List Char) : List Char :=
  match className? s with
  | some name => replaceChar '/' '.' name
  | none =>
    match s.head?.bind fun c => primitives.find? fun p => p.1 == c with
    | some p => p.2.toList
    | none => "<unknown>".toList

def toTypeName (s : String) : String :=
  let (dims, element) := stripDimensions s.toList
  String.ofList (elementName element ++ brackets dims)

/-- The number of `[]` at the end, blanks between them ignored, and what precedes them. -/
def stripBrackets (s : List Char) : Nat × List Char :=
  match _h : beforeSuffix? ['[', ']'] s with
  | some r => let (n, e) := stripBrackets (trimEnd r); (n + 1, e)
  | none => (0, s)
termination_by s.length
decreasing_by
  rw [beforeSuffix?_eq_some] at _h
  have : (trimEnd r).length ≤ r.length := by
    simpa [trimEnd] using (List.dropWhile_sublist isBlank (l := r.reverse)).length_le
  simp [_h]
  omega

def elementSignature (name : List Char) : List Char :=
  match primitives.find? fun p => p.2.toList == name with
  | some p => [p.1]
  | none => 'L' :: (replaceChar '.' '/' name ++ [';'])

/-- The signature of the type written `name`; a class signature stands for itself. -/
def ofTypeName (name : String) : String :=
  let s := name.toList
  if s.head? = some 'L' ∧ s.getLast? = some ';' then name
  else
    let (dims, element) := stripBrackets (trim s)
    String.ofList (List.replicate dims '[' ++ elementSignature element)

def arrayElement? (name : String) : Option String :=
  (beforeSuffix? ['[', ']'] name.toList).map String.ofList

/-- The length in bytes of the argument at the front: brackets, then one byte or `L` up to `;`. -/
def argumentLength : List UInt8 → Nat
  | [] => 1
  | b :: s =>
    if b = 91 then argumentLength s + 1
    else if b = 76 then (s.takeWhile (· ≠ 59)).length + 2
    else 1

theorem argumentLength_pos (s : List UInt8) : 0 < argumentLength s := by
  cases s with
  | nil => simp [argumentLength]
  | cons b s => simp only [argumentLength]; split <;> (try split) <;> omega

def cutArguments (s : List UInt8) : List (List UInt8) :=
  match s with
  | [] => []
  | b :: t =>
    (b :: t).take (argumentLength (b :: t)) :: cutArguments ((b :: t).drop (argumentLength (b :: t)))
termination_by s.length
decreasing_by
  have := argumentLength_pos (b :: t)
  simp only [List.length_drop, List.length_cons]
  omega

/-- The signatures of the arguments in a method signature. Cuts are made between bytes: there is
no answer when one falls inside a character. -/
def arguments? (method : String) : Option (List String) :=
  match method.toList with
  | '(' :: r =>
    match splitAt? ')' r with
    | some (args, _) =>
      (cutArguments (String.ofList args).toUTF8.toList).mapM fun piece =>
        String.fromUTF8? (ByteArray.mk piece.toArray)
    | none => some []
  | _ => some []

def result (method : String) : String :=
  match splitAt? ')' method.toList with
  | some (_, r) => String.ofList r
  | none => "V"

end JvmDebug.Signature
