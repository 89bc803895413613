import JvmDebug.Toml.Scalar

/-!
Reading a document: keys, values, headers and the order in which they build the tables.
-/
namespace JvmDebug.Toml
open Text

/-- Values may be nested, and keys may have parts, up to one less than this. -/
def depthLimit : Nat := 80

def skipSpaces (s : List Char) : List Char := s.dropWhile isSpace

def isBareKeyChar (c : Char) : Bool :=
  c.toNat < 0x80 && (c.isAlpha || c.isDigit || c == '-' || c == '_')

def keyPart (s : List Char) : Option (String × List Char) :=
  match s with
  | '"' :: r => (quoted (r.length + 1) r).map fun (t, r) => (String.ofList t, r)
  | '\'' :: r => (verbatim r).map fun (t, r) => (String.ofList t, r)
  | _ =>
    let k := s.takeWhile isBareKeyChar
    if k.isEmpty then none else some (String.ofList k, s.drop k.length)

/-- The parts of a key, with the spaces around it; the last part comes apart from those before. -/
def key : (limit : Nat) → List Char → Option ((List String × String) × List Char)
  | 0, _ => none
  | limit + 1, s => do
    let (k, r) ← keyPart (skipSpaces s)
    match skipSpaces r with
    | '.' :: r => do
      let ((path, last), r) ← key limit r
      return ((k :: path, last), r)
    | r => return (([], k), r)

/-- Past spaces, line ends and comments; `inside` tells that a comment has begun. -/
def skipLayout (inside : Bool) : List Char → List Char
  | [] => []
  | '\n' :: r => skipLayout false r
  | '\r' :: '\n' :: r => skipLayout false r
  | c :: r =>
    if inside then if isPlain c then skipLayout true r else c :: r
    else if isSpace c then skipLayout false r
    else if c = '#' then skipLayout true r
    else c :: r

def lineEnd? (s : List Char) : Option (List Char) :=
  let r := match skipSpaces s with
    | '#' :: r => r.dropWhile isPlain
    | r => r
  if r.isEmpty then some [] else afterNewline? r

mutual

def value : (fuel depth : Nat) → List Char → Option (Item × List Char)
  | 0, _, _ => none
  | fuel + 1, depth, s =>
    match s with
    | '[' :: r => do
      guard (depth + 1 < depthLimit)
      let (items, r) ← arrayItems fuel (depth + 1) r
      return (.array items, r)
    | '{' :: r => do
      guard (depth + 1 < depthLimit)
      match skipSpaces r with
      | '}' :: r => return (.table .braced [], r)
      | r => do
        let (es, r) ← bracedEntries fuel (depth + 1) [] r
        return (.table .braced es, r)
    | s => scalar s

/-- The items of an array up to its end; the last one may have a comma. -/
def arrayItems : (fuel depth : Nat) → List Char → Option (List Item × List Char)
  | 0, _, _ => none
  | fuel + 1, depth, s =>
    match skipLayout false s with
    | ']' :: r => some ([], r)
    | s => do
      let (item, r) ← value fuel depth s
      match skipLayout false r with
      | ']' :: r => return ([item], r)
      | ',' :: r => do
        let (items, r) ← arrayItems fuel depth r
        return (item :: items, r)
      | _ => none

/-- The entries of a table in braces up to its end, one at least, on one line. -/
def bracedEntries : (fuel depth : Nat) → Entries → List Char → Option (Entries × List Char)
  | 0, _, _, _ => none
  | fuel + 1, depth, es, s => do
    let ((path, last), r) ← key (depthLimit - 1) s
    let (item, r) ← value fuel depth (skipSpaces (← afterPrefix? ['='] r))
    let es ← es.addDotted path last item .header
    match skipSpaces r with
    | '}' :: r => return (es, r)
    | ',' :: r => bracedEntries fuel depth es r
    | _ => none

end

/-- A document being read: its tables so far, and the path of the last header. -/
structure Builder where
  root : Entries := []
  path : List String := []

namespace Builder

def addItem (b : Builder) (path : List String) (key : String) (item : Item) : Option Builder :=
  (Entries.alter false (fun form es => es.addDotted path key item form) b.path .header b.root).map
    fun root => { b with root }

def openTable (b : Builder) (path : List String) (key : String) : Option Builder :=
  (b.root.openTable path key).map fun root => ⟨root, path ++ [key]⟩

def openArray (b : Builder) (path : List String) (key : String) : Option Builder :=
  (b.root.openArray path key).map fun root => ⟨root, path ++ [key]⟩

end Builder

/-- Read line by line; every turn takes a character. -/
def document : (fuel : Nat) → Builder → List Char → Option Entries
  | 0, _, _ => none
  | fuel + 1, b, s => do
    match skipSpaces s with
    | [] => return b.root
    | '[' :: '[' :: r =>
      let ((path, last), r) ← key (depthLimit - 1) r
      let r ← lineEnd? (← afterPrefix? [']', ']'] r)
      document fuel (← b.openArray path last) r
    | '[' :: r =>
      let ((path, last), r) ← key (depthLimit - 1) r
      let r ← lineEnd? (← afterPrefix? [']'] r)
      document fuel (← b.openTable path last) r
    | c :: r =>
      if c = '#' ∨ c = '\n' ∨ c = '\r' then document fuel b (← lineEnd? (c :: r))
      else
        let ((path, last), r) ← key (depthLimit - 1) (c :: r)
        let (item, r) ← value (2 * r.length + 2) 0 (skipSpaces (← afterPrefix? ['='] r))
        document fuel (← b.addItem path last item) (← lineEnd? r)

/-- The tables of a document, if it is well formed. A byte order mark at its start is no part of
it. -/
def parse? (text : String) : Option Entries :=
  let s := match text.toList with
    | '\ufeff' :: r => r
    | r => r
  document (s.length + 1) {} s

end JvmDebug.Toml
