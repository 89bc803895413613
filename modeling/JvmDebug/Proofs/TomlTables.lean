import JvmDebug.Proofs.NamedEntries
import JvmDebug.Toml.Parse
import Mathlib.Data.Option.Basic

/-!
The tables of a document. Headers, dotted keys and braces build them up in any order, and no table
gets a key twice: main result `distinct_of_parse`.
-/
namespace JvmDebug.Toml

/-- In each table within the item, no key stands twice. -/
inductive Item.Distinct : Item → Prop
  | string (s : String) : Distinct (.string s)
  | integer (n : Int) : Distinct (.integer n)
  | float (bits : UInt64) : Distinct (.float bits)
  | boolean (b : Bool) : Distinct (.boolean b)
  | date (text : String) : Distinct (.date text)
  | array {items : List Item} : (∀ i ∈ items, i.Distinct) → Distinct (.array items)
  | table {form : Form} {es : Entries} :
    (es.map Prod.fst).Nodup → (∀ e ∈ es, e.2.Distinct) → Distinct (.table form es)
  | tables {items : List Entries} : (∀ es ∈ items, (es.map Prod.fst).Nodup) →
    (∀ es ∈ items, ∀ e ∈ es, e.2.Distinct) → Distinct (.tables items)

namespace Entries

structure Distinct (es : Entries) : Prop where
  keys : (es.map Prod.fst).Nodup
  items : ∀ e ∈ es, e.2.Distinct

variable {es es' : Entries} {key : String} {item : Item}

theorem get?_cons (e : String × Item) (es : Entries) (key : String) :
    Entries.get? (e :: es) key = if e.1 = key then some e.2 else es.get? key := by
  by_cases h : e.1 = key
  · rw [Entries.get?, List.find?_cons_of_pos (by simpa using h), if_pos h]
    rfl
  · rw [Entries.get?, List.find?_cons_of_neg (by simpa using h), if_neg h]
    rfl

theorem get?_append (es es' : Entries) (key : String) :
    Entries.get? (es ++ es') key = (es.get? key).or (es'.get? key) := by
  rw [Entries.get?, List.find?_append, Option.map_or]
  rfl

theorem Distinct.nil : Distinct [] := ⟨List.nodup_nil, by simp⟩

theorem Distinct.get? (h : es.Distinct) (hget : es.get? key = some item) : item.Distinct :=
  h.items (key, item) (mem_of_named hget)

theorem Distinct.append (h : es.Distinct) (hkey : es.get? key = none) (hitem : item.Distinct) :
    Distinct (es ++ [(key, item)]) := by
  refine ⟨?_, fun e he => ?_⟩
  · rw [List.map_append, List.map_singleton, List.nodup_append']
    exact ⟨h.keys, List.nodup_singleton key,
      List.disjoint_singleton.2 (named_eq_none_iff.1 hkey)⟩
  · rcases List.mem_append.1 he with he | he
    · exact h.items e he
    · rw [List.mem_singleton.1 he]
      exact hitem

theorem Distinct.replace (h : es.Distinct) (hitem : item.Distinct) :
    Distinct (es.replace key item) := by
  have hkeys : (es.replace key item).map Prod.fst = es.map Prod.fst := by
    rw [Entries.replace, List.map_map]
    refine List.map_congr_left fun e _ => ?_
    by_cases he : e.1 = key <;> simp [he]
  refine ⟨hkeys ▸ h.keys, fun e he => ?_⟩
  obtain ⟨e', he', rfl⟩ := List.mem_map.1 he
  split
  · exact hitem
  · exact h.items e' he'

theorem distinct_table {form : Form} : Item.Distinct (.table form es) ↔ es.Distinct := by
  refine ⟨fun h => ?_, fun h => .table h.keys h.items⟩
  cases h with
  | table hkeys hitems => exact ⟨hkeys, hitems⟩

theorem distinct_tables {items : List Entries} :
    Item.Distinct (.tables items) ↔ ∀ es ∈ items, es.Distinct := by
  refine ⟨fun h => ?_, fun h => .tables (fun es hes => (h es hes).keys)
    fun es hes => (h es hes).items⟩
  cases h with
  | tables hkeys hitems => exact fun es hes => ⟨hkeys es hes, hitems es hes⟩

theorem distinct_snoc {items : List Entries} (h : ∀ es ∈ items, es.Distinct) (hes : es.Distinct) :
    Item.Distinct (.tables (items ++ [es])) := by
  refine distinct_tables.2 fun es' hes' => ?_
  rcases List.mem_append.1 hes' with hes' | hes'
  · exact h es' hes'
  · rw [List.mem_singleton.1 hes']
    exact hes

/-- A change that keeps keys apart does so anywhere in the tables. -/
theorem Distinct.alter {dotted : Bool} {f : Form → Entries → Option Entries}
    (hf : ∀ {form es es'}, Distinct es → f form es = some es' → Distinct es') {path : List String}
    {form : Form} (h : es.Distinct) (halter : alter dotted f path form es = some es') :
    es'.Distinct := by
  induction path generalizing form es es' with
  | nil => exact hf h halter
  | cons key path ih =>
    rw [Entries.alter] at halter
    split at halter
    · next hget =>
      obtain ⟨sub, hsub, rfl⟩ := Option.map_eq_some_iff.1 halter
      exact h.append hget (distinct_table.2 (ih .nil hsub))
    · next form sub hget =>
      split_ifs at halter
      obtain ⟨sub', hsub, rfl⟩ := Option.map_eq_some_iff.1 halter
      exact h.replace (distinct_table.2 (ih (distinct_table.1 (h.get? hget)) hsub))
    · next items hget =>
      obtain ⟨sub, hsub, rfl⟩ := Option.map_eq_some_iff.1 halter
      have hitems : ∀ es ∈ items, Distinct es := distinct_tables.1 (h.get? hget)
      have hlast : Distinct (items.getLast?.getD []) := by
        cases hl : items.getLast? with
        | none => exact .nil
        | some last => exact hitems last (List.mem_of_getLast? hl)
      exact h.replace (distinct_snoc (fun es hes => hitems es (List.dropLast_subset items hes))
        (ih hlast hsub))
    · cases halter

theorem Distinct.add (h : es.Distinct) (hitem : item.Distinct)
    (hadd : es.add key item = some es') : es'.Distinct := by
  rw [Entries.add] at hadd
  split_ifs at hadd with hkey
  cases hadd
  exact h.append (Option.not_isSome_iff_eq_none.1 hkey) hitem

theorem Distinct.addDotted {path : List String} {form : Form} (h : es.Distinct)
    (hitem : item.Distinct) (hadd : es.addDotted path key item form = some es') :
    es'.Distinct := by
  refine h.alter (fun h hadd => ?_) hadd
  split_ifs at hadd
  exact h.add hitem hadd

theorem Distinct.openTable {path : List String} (h : es.Distinct)
    (hopen : es.openTable path key = some es') : es'.Distinct := by
  refine h.alter (fun h hopen => ?_) hopen
  split at hopen <;> cases hopen
  · next hget => exact h.append hget (distinct_table.2 .nil)
  · next sub hget => exact h.replace (distinct_table.2 (distinct_table.1 (h.get? hget)))

theorem Distinct.openArray {path : List String} (h : es.Distinct)
    (hopen : es.openArray path key = some es') : es'.Distinct := by
  refine h.alter (fun h hopen => ?_) hopen
  split at hopen <;> cases hopen
  · next hget => exact h.append hget (distinct_tables.2 (by simp [Distinct.nil]))
  · next items hget =>
    exact h.replace (distinct_snoc (distinct_tables.1 (h.get? hget)) .nil)

end Entries

/-! ## Values -/

/-- What is read, if anything, is so. -/
def Yields {α : Type} (P : α → Prop) (read : Option (α × List Char)) : Prop := ∀ p ∈ read, P p.1

namespace Yields
variable {α β : Type} {P : α → Prop} {a : α} {r : List Char}

theorem none : Yields P none := fun _ h => by cases h

theorem some (h : P a) : Yields P (some (a, r)) := fun _ hp => by cases hp; exact h

theorem bind {o : Option β} {f : β → Option (α × List Char)} (h : ∀ b ∈ o, Yields P (f b)) :
    Yields P (o.bind f) := by
  cases o with
  | none => exact none
  | some b => exact h b rfl

theorem orElse {o o' : Option (α × List Char)} (h : Yields P o) (h' : Yields P o') :
    Yields P (o <|> o') := by
  cases o with
  | none => exact h'
  | some p => exact h

end Yields

section
open Yields

theorem distinct_string (s : List Char) :
    Yields Item.Distinct ((string s).map fun (t, r) => (.string t, r)) := by
  intro p hp
  obtain ⟨_, -, rfl⟩ := Option.map_eq_some_iff.1 hp
  exact .string _

theorem distinct_float (s : List Char) : Yields Item.Distinct (float s) := by
  unfold float
  obtain ⟨negative, r⟩ := Text.splitSign s
  dsimp only
  split
  · exact some (.float _)
  · exact some (.float _)
  · refine bind fun (intPart, r) _ => ?_
    dsimp only
    split <;> refine bind fun _ _ => ?_
    all_goals
      split
      · exact bind fun _ _ => bind fun _ _ => some (.float _)
      · split
        · exact bind fun _ _ => bind fun _ _ => some (.float _)
        · exact none

theorem distinct_integer (s : List Char) : Yields Item.Distinct (integer s) := by
  unfold integer
  dsimp only
  split
  all_goals exact bind fun _ _ => bind fun _ _ => some (.integer _)

theorem distinct_date (s : List Char) : Yields Item.Distinct (date s) := by
  unfold date
  dsimp only
  split
  · exact bind fun _ _ => some (.date _)
  · split
    · split_ifs
      · split
        · exact bind fun _ _ => some (.date _)
        · exact some (.date _)
      · exact some (.date _)
    · exact some (.date _)

theorem distinct_scalar (s : List Char) : Yields Item.Distinct (scalar s) := by
  unfold scalar
  split
  · exact distinct_string _
  · exact distinct_string _
  · exact some (.boolean true)
  · exact some (.boolean false)
  · exact orElse (distinct_date s) (orElse (distinct_float s) (distinct_integer s))

/-- Values, the items of an array and the entries in braces, each with the fuel of the last turn. -/
theorem distinct_values (fuel : Nat) :
    (∀ depth s, Yields Item.Distinct (value fuel depth s)) ∧
      (∀ depth s, Yields (∀ i ∈ ·, i.Distinct) (arrayItems fuel depth s)) ∧
      ∀ depth es s, es.Distinct → Yields Entries.Distinct (bracedEntries fuel depth es s) := by
  induction fuel with
  | zero => exact ⟨fun _ _ => none, fun _ _ => none, fun _ _ _ _ => none⟩
  | succ fuel ih =>
    obtain ⟨hvalue, hitems, hbraced⟩ := ih
    refine ⟨fun depth s => ?_, fun depth s => ?_, fun depth es s hes => ?_⟩
    · unfold value
      split
      · exact bind fun _ _ => bind fun p hp => some (.array (hitems _ _ p hp))
      · refine bind fun _ _ => ?_
        split
        · exact some (Entries.distinct_table.2 .nil)
        · exact bind fun p hp => some (Entries.distinct_table.2 (hbraced _ _ _ .nil p hp))
      · exact distinct_scalar _
    · unfold arrayItems
      split
      · exact some (by simp)
      · refine bind fun p hp => ?_
        have hitem : p.1.Distinct := hvalue _ _ p hp
        dsimp only
        split
        · exact some (by simpa using hitem)
        · exact bind fun q hq => some (List.forall_mem_cons.2 ⟨hitem, hitems _ _ q hq⟩)
        · exact none
    · unfold bracedEntries
      refine bind fun _ _ => bind fun _ _ => bind fun p hp => bind fun es' hadd => ?_
      have hes' : es'.Distinct := hes.addDotted (hvalue _ _ p hp) hadd
      split
      · exact some hes'
      · exact hbraced _ _ _ hes'
      · exact none

end

/-! ## Documents -/

namespace Builder
variable {b b' : Builder} {path : List String} {key : String} {item : Item}

theorem distinct_addItem (hb : b.root.Distinct) (hitem : item.Distinct)
    (hadd : b.addItem path key item = some b') : b'.root.Distinct := by
  obtain ⟨root, halter, rfl⟩ := Option.map_eq_some_iff.1 hadd
  exact hb.alter (fun hes hadd => hes.addDotted hitem hadd) halter

theorem distinct_openTable (hb : b.root.Distinct) (hopen : b.openTable path key = some b') :
    b'.root.Distinct := by
  obtain ⟨root, hroot, rfl⟩ := Option.map_eq_some_iff.1 hopen
  exact hb.openTable hroot

theorem distinct_openArray (hb : b.root.Distinct) (hopen : b.openArray path key = some b') :
    b'.root.Distinct := by
  obtain ⟨root, hroot, rfl⟩ := Option.map_eq_some_iff.1 hopen
  exact hb.openArray hroot

end Builder

/-- Line by line, as the fuel runs. -/
theorem distinct_document {fuel : Nat} {b : Builder} {s : List Char} {es : Entries}
    (hb : b.root.Distinct) (h : document fuel b s = some es) : es.Distinct := by
  induction fuel generalizing b s with
  | zero => cases h
  | succ fuel ih =>
    unfold document at h
    split at h
    · cases h
      exact hb
    · obtain ⟨_, -, h⟩ := Option.bind_eq_some_iff.1 h
      obtain ⟨_, -, h⟩ := Option.bind_eq_some_iff.1 h
      obtain ⟨_, -, h⟩ := Option.bind_eq_some_iff.1 h
      obtain ⟨b', hopen, h⟩ := Option.bind_eq_some_iff.1 h
      exact ih (Builder.distinct_openArray hb hopen) h
    · obtain ⟨_, -, h⟩ := Option.bind_eq_some_iff.1 h
      obtain ⟨_, -, h⟩ := Option.bind_eq_some_iff.1 h
      obtain ⟨_, -, h⟩ := Option.bind_eq_some_iff.1 h
      obtain ⟨b', hopen, h⟩ := Option.bind_eq_some_iff.1 h
      exact ih (Builder.distinct_openTable hb hopen) h
    · split at h
      · obtain ⟨_, -, h⟩ := Option.bind_eq_some_iff.1 h
        exact ih hb h
      · obtain ⟨_, -, h⟩ := Option.bind_eq_some_iff.1 h
        obtain ⟨_, -, h⟩ := Option.bind_eq_some_iff.1 h
        obtain ⟨p, hp, h⟩ := Option.bind_eq_some_iff.1 h
        obtain ⟨b', hadd, h⟩ := Option.bind_eq_some_iff.1 h
        obtain ⟨_, -, h⟩ := Option.bind_eq_some_iff.1 h
        exact ih (Builder.distinct_addItem hb ((distinct_values _).1 _ _ p hp) hadd) h

/-- However a document lays out its tables, none of them has a key twice. -/
theorem distinct_of_parse {text : String} {es : Entries} (h : parse? text = some es) :
    es.Distinct :=
  distinct_document .nil h

end JvmDebug.Toml
