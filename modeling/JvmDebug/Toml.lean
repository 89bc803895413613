import JvmDebug.Text.Affix
import JvmDebug.Text.CharClass

/-!
Documents of tables, as TOML writes them. A table remembers how it came about, since that decides
what may still be added to it.
-/
namespace JvmDebug.Toml

/-- How a table came about: under a header of its own, as a parent that a header names, as the
prefix of a dotted key, or written between braces. -/
inductive Form
  | header | parent | dotted | braced
  deriving DecidableEq, Repr, Inhabited

inductive Item
  | string (s : String)
  | integer (n : Int)
  | float (bits : UInt64)
  | boolean (b : Bool)
  | date (text : String)
  | array (items : List Item)
  | table (form : Form) (entries : List (String × Item))
  | tables (items : List (List (String × Item)))
  deriving Repr, Inhabited

abbrev Entries := List (String × Item)

namespace Entries

def get? (es : Entries) (key : String) : Option Item :=
  (es.find? fun e => e.1 == key).map Prod.snd

def replace (es : Entries) (key : String) (item : Item) : Entries :=
  es.map fun e => if e.1 == key then (key, item) else e

/-- Change the table that the path leads to. Tables missing on the way are made, as prefixes of a
dotted key or as parents; an array of tables stands for its last table. A dotted key does not lead
into a table with a header of its own, and nothing leads into braces. -/
def alter (dotted : Bool) (f : Form → Entries → Option Entries) :
    List String → Form → Entries → Option Entries
  | [], form, es => f form es
  | key :: path, _, es =>
    match es.get? key with
    | none =>
      let form := if dotted then Form.dotted else .parent
      (alter dotted f path form []).map fun sub => es ++ [(key, .table form sub)]
    | some (.table form sub) =>
      if form = .braced ∨ (dotted ∧ form = .header) then none
      else (alter dotted f path form sub).map fun sub => es.replace key (.table form sub)
    | some (.tables items) =>
      let last := items.getLast?.getD []
      (alter dotted f path .header last).map fun sub =>
        es.replace key (.tables (items.dropLast ++ [sub]))
    | some _ => none

def add (es : Entries) (key : String) (item : Item) : Option Entries :=
  if (es.get? key).isSome then none else some (es ++ [(key, item)])

/-- Add an item under a dotted key. Every table between must be one that dotted keys made, the last
one at least. -/
def addDotted (path : List String) (key : String) (item : Item) (form : Form) (es : Entries) :
    Option Entries :=
  alter true (fun form es => if path ≠ [] ∧ form ≠ .dotted then none else es.add key item)
    path form es

def openTable (path : List String) (key : String) (es : Entries) : Option Entries :=
  alter false (fun _ es =>
    match es.get? key with
    | none => some (es ++ [(key, .table .header [])])
    | some (.table .parent sub) => some (es.replace key (.table .header sub))
    | some _ => none) path .header es

def openArray (path : List String) (key : String) (es : Entries) : Option Entries :=
  alter false (fun _ es =>
    match es.get? key with
    | none => some (es ++ [(key, .tables [[]])])
    | some (.tables items) => some (es.replace key (.tables (items ++ [[]])))
    | some _ => none) path .header es

end Entries

end JvmDebug.Toml
