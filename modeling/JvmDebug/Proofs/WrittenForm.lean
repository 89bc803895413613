import JvmDebug.Grammar.Machine
import Mathlib.Data.List.Basic

/-!
How an expression is written down. It is first taken apart into tokens, with an operand in
parentheses only where its level is too low for its place; then every token is spelled, with blanks
in front of it as one likes, but words and numbers kept apart.
-/
namespace JvmDebug

/-! ## Expressions that can be written -/

namespace Grammar
open Text

def reserved : List String := ["true", "false", "null", "this", "new"]

def IsName (text : String) : Prop :=
  ∃ c r, text.toList = c :: r ∧ isNameStart c = true ∧ ∀ d ∈ r, isNamePart d = true

instance (text : String) : Decidable (IsName text) :=
  match h : text.toList with
  | [] => .isFalse fun ⟨_, _, hlist, _⟩ => by simp [h] at hlist
  | c :: r =>
    decidable_of_iff (isNameStart c = true ∧ r.all isNamePart = true)
      ⟨fun ⟨hc, hr⟩ => ⟨c, r, h, hc, List.all_eq_true.1 hr⟩, fun ⟨d, t, hlist, hd, ht⟩ => by
        cases h.symm.trans hlist
        exact ⟨hd, List.all_eq_true.2 ht⟩⟩

def qualifiers (names : List String) : List Char := names.flatMap fun name => '.' :: name.toList

def dimensions (count : Nat) : List Char := (List.replicate count ['[', ']']).flatten

def IsTypeName (text : String) : Prop :=
  ∃ first names count, IsName first ∧ (∀ name ∈ names, IsName name) ∧
    text.toList = first.toList ++ qualifiers names ++ dimensions count

end Grammar

namespace Literal

/-- A literal that stands for a character stands for one that has a single unit. -/
def IsReadable : Literal → Prop
  | char unit => ∃ c : Char, c.toNat = unit.toNat
  | _ => True

def isFloating : Literal → Bool
  | float _ | double _ => true
  | _ => false

end Literal

def UnaryOp.symbol : UnaryOp → Char
  | .not => '!'
  | .neg => '-'

namespace Expr
open Grammar

/-- The trees with names where names belong and with literals of a certain kind. -/
inductive Sound (kind : Literal → Prop) : Expr → Prop
  | literal {l : Literal} (hl : kind l) : Sound kind (.literal l)
  | name {text : String} (hname : IsName text) (hfree : text ∉ reserved) : Sound kind (.name text)
  | this : Sound kind .this
  | field {target : Expr} {member : String} (htarget : Sound kind target) (hname : IsName member) :
      Sound kind (.field target member)
  | plainCall {method : String} {args : List Expr} (hname : IsName method)
      (hfree : method ∉ reserved) (hargs : ∀ a ∈ args, Sound kind a) :
      Sound kind (.call none method args)
  | call {target : Expr} {method : String} {args : List Expr} (htarget : Sound kind target)
      (hname : IsName method) (hargs : ∀ a ∈ args, Sound kind a) :
      Sound kind (.call (some target) method args)
  | index {array index : Expr} (harray : Sound kind array) (hindex : Sound kind index) :
      Sound kind (.index array index)
  | binary {op : BinaryOp} {left right : Expr} (hleft : Sound kind left)
      (hright : Sound kind right) : Sound kind (.binary op left right)
  | unary {op : UnaryOp} {operand : Expr} (hoperand : Sound kind operand) :
      Sound kind (.unary op operand)
  | cast {typeName : String} {operand : Expr} (htype : IsTypeName typeName)
      (hfree : typeName ∉ reserved) (hoperand : Sound kind operand) :
      Sound kind (.cast typeName operand)
  | instanceOf {operand : Expr} {typeName : String} (hoperand : Sound kind operand)
      (htype : IsTypeName typeName) : Sound kind (.instanceOf operand typeName)
  | newObject {typeName : String} {args : List Expr} (htype : IsTypeName typeName)
      (hargs : ∀ a ∈ args, Sound kind a) : Sound kind (.newObject typeName args)
  | newArray {elementType : String} {size : Expr} (htype : IsTypeName elementType)
      (hsize : Sound kind size) : Sound kind (.newArray elementType size)

/-- The literals of an expression, from left to right. -/
def literals : Expr → List Literal
  | .literal l => [l]
  | .name _ | .this => []
  | .field target _ => target.literals
  | .call none _ args => argumentLiterals args
  | .call (some target) _ args => target.literals ++ argumentLiterals args
  | .index array i => array.literals ++ i.literals
  | .binary _ left right => left.literals ++ right.literals
  | .unary _ operand | .cast _ operand | .instanceOf operand _ => operand.literals
  | .newObject _ args => argumentLiterals args
  | .newArray _ size => size.literals
where
  argumentLiterals : List Expr → List Literal
    | [] => []
    | a :: args => a.literals ++ argumentLiterals args

/-- Binary operators have the levels 0 to 5, unary operators and casts the level 6, and what can be
followed by a member, arguments or an index the level 7. -/
def level : Expr → Nat
  | .binary op _ _ => op.level
  | .instanceOf _ _ => 3
  | .unary _ _ | .cast _ _ => 6
  | _ => 7

end Expr

/-! ## Tokens -/

namespace Grammar
open Text

/-- The name of a call and the parenthesis behind it are one token, for nothing may stand between
them. -/
inductive Token
  | word (text : String)
  | call (name : String)
  | literal (l : Literal)
  | operator (op : BinaryOp)
  | sign (op : UnaryOp)
  | mark (c : Char)
  deriving DecidableEq, Repr

def Token.ofLiteral : Literal → Token
  | .null => .word "null"
  | .boolean true => .word "true"
  | .boolean false => .word "false"
  | l => .literal l

/-- The names of a type and the marks between and behind them. -/
def typeTokens : List Char → List Token
  | [] => []
  | c :: r =>
    if isNamePart c then
      .word (String.ofList (c :: r.takeWhile isNamePart)) :: typeTokens (r.dropWhile isNamePart)
    else .mark c :: typeTokens r
termination_by s => s.length
decreasing_by
  · have := (List.dropWhile_sublist isNamePart (l := r)).length_le
    simp only [List.length_cons]
    omega
  · simp

def grouped (tokens : List Token) : List Token := .mark '(' :: tokens ++ [.mark ')']

end Grammar

namespace Expr
open Grammar

/-- An operand in a place that asks for a level. -/
def inPlace (place : Nat) (e : Expr) (tokens : List Token) : List Token :=
  if e.level < place then grouped tokens else tokens

def tokens : Expr → List Token
  | .literal l => [.ofLiteral l]
  | .name text => [.word text]
  | .this => [.word "this"]
  | .field target member => inPlace 7 target target.tokens ++ [.mark '.', .word member]
  | .call none method args => .call method :: argumentTokens args ++ [.mark ')']
  | .call (some target) method args =>
    inPlace 7 target target.tokens ++ .mark '.' :: .call method :: argumentTokens args ++ [.mark ')']
  | .index array i => inPlace 7 array array.tokens ++ .mark '[' :: i.tokens ++ [.mark ']']
  | .binary op left right =>
    inPlace op.level left left.tokens ++ .operator op ::
      inPlace (op.level + 1) right right.tokens
  | .unary op operand => .sign op :: inPlace 6 operand operand.tokens
  | .cast typeName operand =>
    grouped (typeTokens typeName.toList) ++ inPlace 6 operand operand.tokens
  | .instanceOf operand typeName =>
    inPlace 3 operand operand.tokens ++ .word "instanceof" :: typeTokens typeName.toList
  | .newObject typeName args =>
    .word "new" :: typeTokens typeName.toList ++ .mark '(' :: argumentTokens args ++ [.mark ')']
  | .newArray elementType size =>
    .word "new" :: typeTokens elementType.toList ++ .mark '[' :: size.tokens ++ [.mark ']']
where
  argumentTokens : List Expr → List Token
    | [] => []
    | [a] => a.tokens
    | a :: args => a.tokens ++ .mark ',' :: argumentTokens args

end Expr

/-! ## Texts -/

namespace Grammar
open Text

/-- The character as it stands in a literal, or behind a backslash. -/
inductive Escapes (quote c : Char) : List Char → Prop
  | plain (hquote : c ≠ quote) (hbackslash : c ≠ '\\') : Escapes quote c [c]
  | escaped {d : Char} (hd : unescape d = c) : Escapes quote c ['\\', d]

inductive EscapesAll (quote : Char) : List Char → List Char → Prop
  | nil : EscapesAll quote [] []
  | cons {c : Char} {s text body : List Char} (hc : Escapes quote c s)
      (htext : EscapesAll quote text body) : EscapesAll quote (c :: text) (s ++ body)

def IsHex (value : Nat) (digits : List Char) : Prop :=
  digits ≠ [] ∧ (∀ c ∈ digits, isHexDigit c = true) ∧ hexValue digits = value

def marks : List Char := ['(', ')', '[', ']', '.', ',']

inductive Token.Spelled : Token → List Char → Prop
  | word {text : String} (hname : IsName text) : Spelled (.word text) text.toList
  | call {name : String} (hname : IsName name) : Spelled (.call name) (name.toList ++ ['('])
  | int {n : Int32} {digits : List Char} (hhex : IsHex n.toUInt32.toNat digits) :
      Spelled (.literal (.int n)) ('0' :: 'x' :: digits)
  | long {n : Int64} {digits : List Char} (hhex : IsHex n.toUInt64.toNat digits) :
      Spelled (.literal (.long n)) ('0' :: 'x' :: digits ++ ['L'])
  | char {unit : UInt16} {c : Char} {s : List Char} (hunit : c.toNat = unit.toNat)
      (hc : Escapes '\'' c s) : Spelled (.literal (.char unit)) ('\'' :: s ++ ['\''])
  | string {text : String} {body : List Char} (hbody : EscapesAll '"' text.toList body) :
      Spelled (.literal (.string text)) ('"' :: body ++ ['"'])
  | operator {op : BinaryOp} : Spelled (.operator op) op.symbol.toList
  | sign {op : UnaryOp} : Spelled (.sign op) [op.symbol]
  | mark {c : Char} (hc : c ∈ marks) : Spelled (.mark c) [c]

def Token.isWordOrNumber : Token → Bool
  | .word _ | .literal (.int _) | .literal (.long _) => true
  | _ => false

/-- A text of the tokens, with blanks in front of each of them and at the end. After a word or a
number, a word or a number does not follow at once. -/
inductive Laid : List Token → List Char → Prop
  | nil {gap : List Char} (hgap : ∀ c ∈ gap, isBlank c = true) : Laid [] gap
  | cons {gap : List Char} {token : Token} {text : List Char} {tokens : List Token}
      {rest : List Char} (hgap : ∀ c ∈ gap, isBlank c = true) (htext : token.Spelled text)
      (hapart : token.isWordOrNumber = true → startsWith isNamePart rest = false)
      (hrest : Laid tokens rest) : Laid (token :: tokens) (gap ++ text ++ rest)

end Grammar

def Expr.Written (e : Expr) (text : String) : Prop := Grammar.Laid e.tokens text.toList

end JvmDebug
