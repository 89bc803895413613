import JvmDebug.Config
import JvmDebug.LogFilter.FieldMatch

/-!
Filters of log lines. A filter is a list of directives `target[span{field=value}]=level`; the most
specific directives come first, and of two for the same lines the later one holds.
-/
namespace JvmDebug
open Text

inductive LogLevel
  | off | error | warn | info | debug | trace
  deriving DecidableEq, Repr, Inhabited

namespace LogLevel

def name : LogLevel → String
  | off => "off"
  | error => "error"
  | warn => "warn"
  | info => "info"
  | debug => "debug"
  | trace => "trace"

def all : List LogLevel := [off, error, warn, info, debug, trace]

/-- A level by its name, in any case, or by its number; no name means errors. -/
def parse? (s : List Char) : Option LogLevel :=
  match number? s with
  | some n => all[n]?
  | none =>
    let name := lowerAscii (String.ofList s)
    if name.isEmpty then some error else all.find? fun l => l.name == name

end LogLevel

/-- Lines of a target, inside spans of a name and with a field, are kept up to a level. -/
structure Directive where
  target : Option String := none
  span : Option String := none
  field : Option FieldMatch := none
  level : LogLevel := .trace
  deriving DecidableEq, Repr, Inhabited

namespace Directive

/-- Where a reader of a directive stands; the numbers are places where a word began. -/
inductive Place
  | start
  | word (begin : Nat)
  | span (begin : Nat)
  | field (begin : Nat)
  | afterField
  | afterSpan
  | level (begin : Nat)
  deriving DecidableEq, Repr

/-- Words are cut out of the whole text, blanks at its start included, at places that are counted
without those blanks. -/
def slice (whole : List Char) (begin stop : Nat) : List Char := (whole.drop begin).take (stop - begin)

def isWordStart (c : Char) : Bool :=
  c == '-' || c == ':' || c == '_' || isLetter c || isNumber c

def step (whole : List Char) (i : Nat) (c : Char) : Place × Directive → Option (Place × Directive)
  | (.start, d) =>
    if c = '[' then some (.span (i + 1), d) else if isWordStart c then some (.word i, d) else none
  | (.word b, d) =>
    let target := some (String.ofList (slice whole b i))
    if c = '=' then some (.level (i + 1), { d with target })
    else if c = '[' then some (.span (i + 1), { d with target })
    else some (.word b, d)
  | (.span b, d) =>
    let name := String.ofList (slice whole b i)
    if c = ']' then some (.afterSpan, { d with span := some name })
    else if c = '{' then
      some (.field (i + 1), { d with span := if name.isEmpty then none else some name })
    else some (.span b, d)
  | (.field b, d) =>
    let text := slice whole b i
    if c = '}' then
      if text.isEmpty then none
      else some (.afterField, { d with field := some (FieldMatch.parse text) })
    else some (.field b, d)
  | (.afterField, d) => if c = ']' then some (.afterSpan, d) else none
  | (.afterSpan, d) => if c = '=' then some (.level (i + 1), d) else none
  | (.level b, d) => some (.level b, d)

/-- What the end of the text makes of it. A word alone is a level or else a target; without a level
a directive keeps everything. -/
def finish (whole : List Char) : Place × Directive → Option Directive
  | (.word b, d) =>
    let word := whole.drop b
    if word.isEmpty then some d
    else match LogLevel.parse? word with
      | some level => some { d with level }
      | none => some { d with target := some (String.ofList word) }
  | (.level b, d) =>
    let word := whole.drop b
    if word.isEmpty then some d else (LogLevel.parse? word).map fun level => { d with level }
  | (.afterSpan, d) => some d
  | _ => none

def parse? (whole : List Char) : Option Directive :=
  ((trim whole).zipIdx.foldlM (fun state (c, i) => step whole i c state) (Place.start, {})).bind
    (finish whole)

def text (d : Directive) : String :=
  let inside :=
    if d.span.isSome ∨ d.field.isSome then
      "[" ++ d.span.getD "" ++
        (match d.field with
          | some f => "\x7b" ++ f.text ++ "\x7d"
          | none => "") ++ "]"
    else ""
  let lines := d.target.getD "" ++ inside
  (if d.target.isSome ∨ !inside.isEmpty then lines ++ "=" else lines) ++ d.level.name

/-- It depends on the span a line is in. -/
def isDynamic (d : Directive) : Bool := d.span.isSome || d.field.isSome

/-- What can be told of it without knowing the span, if that makes sense. -/
def static? (d : Directive) : Option Directive :=
  if d.span.isSome ∨ d.field.any (fun f => f.value.isSome) then none else some d

/-- The more specific of two directives comes first: one with a target, the longer the better, then
one with a span, then one with a field. The texts make the order total. -/
def compare (a b : Directive) : Ordering :=
  let size (d : Directive) : Option Nat := d.target.map String.utf8ByteSize
  let fields := match a.field, b.field with
    | some f, some g => f.compare g
    | _, _ => .eq
  ((Ord.compare (size a) (size b)).then <|
    (Ord.compare a.span.isSome b.span.isSome).then <|
    (Ord.compare a.field.isSome b.field.isSome).then <|
    (Ord.compare a.target b.target).then <|
    (Ord.compare a.span b.span).then fields).swap

/-- Into a list in order, in the place of a directive for the same lines if there is one. -/
def insertInto (d : Directive) : List Directive → List Directive
  | [] => [d]
  | e :: es =>
    match e.compare d with
    | .lt => e :: insertInto d es
    | .eq => d :: es
    | .gt => d :: e :: es

def sort (ds : List Directive) : List Directive := ds.foldl (fun es d => d.insertInto es) []

end Directive

/-- Static directives first, then those that depend on spans. -/
structure LogFilter where
  directives : List Directive
  deriving DecidableEq, Repr, Inhabited

namespace LogFilter

def parse? (s : String) : Option LogFilter := do
  let ds ← ((pieces ',' s.toList).filter (!·.isEmpty)).mapM Directive.parse?
  let (dynamic, static) := ds.partition Directive.isDynamic
  let all := Directive.sort (static ++ dynamic.filterMap Directive.static?) ++ Directive.sort dynamic
  return ⟨if all.isEmpty then [{ level := .error }] else all⟩

def text (f : LogFilter) : String := ",".intercalate (f.directives.map Directive.text)

end LogFilter

namespace LoggingConfig

def directives (c : LoggingConfig) : String :=
  let level := String.ofList (trim c.level.toList)
  let name := lowerAscii level
  if name.isEmpty then "info"
  else if name = "warning" then "warn"
  else if ["trace", "debug", "info", "warn", "error"].contains name then name
  else level

/-- The filter that the level describes; one that cannot be read means `info`. -/
def filter (c : LoggingConfig) : LogFilter :=
  (LogFilter.parse? c.directives).getD ⟨[{ level := .info }]⟩

end LoggingConfig

end JvmDebug
