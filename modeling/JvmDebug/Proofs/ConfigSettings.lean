import JvmDebug.Config.Read
import JvmDebug.Proofs.Repeats
import JvmDebug.Proofs.TomlTables
import Mathlib

/-!
Settings read from a document. Each is what the document gives for its key or else the default, and
the unknown keys are reported once each, in their order, and change no setting: main result
`Config.settings_read`.
-/
namespace JvmDebug
open Toml

/-- The entries of a table; other items have none. -/
def Toml.Item.entries : Item → Entries
  | .table _ es => es
  | _ => []

namespace Config

/-! ## Settings -/

/-- A setting's type. A count has 64 bits. -/
inductive Kind
  | text | flag | count

def Kind.Fits : Kind → Item → Prop
  | text, .string _ | flag, .boolean _ => True
  | count, .integer n => 0 ≤ n ∧ n.toNat < UInt64.size
  | _, _ => False

/-- A setting: its table and key in a document, its default, and how a document gives what a
configuration has. -/
structure Knob where
  table : String
  key : String
  kind : Kind
  standard : Option Item
  shown : Config → Option Item

def ofCount (n : UInt64) : Option Item := some (.integer n.toNat)

def knobs : List Knob :=
  [⟨"logging", "level", .text, some (.string "info"), fun c => some (.string c.logging.level)⟩,
    ⟨"logging", "json", .flag, some (.boolean false), fun c => some (.boolean c.logging.json)⟩,
    ⟨"logging", "stderr", .flag, some (.boolean true), fun c => some (.boolean c.logging.stderr)⟩,
    ⟨"logging", "file", .text, none, fun c => c.logging.file.map .string⟩,
    ⟨"session", "event_buffer_capacity", .count, some (.integer 1000),
      fun c => ofCount c.session.bufferCapacity⟩,
    ⟨"session", "event_poll_interval_ms", .count, some (.integer 1000),
      fun c => ofCount c.session.pollInterval⟩,
    ⟨"session", "default_wait_timeout_ms", .count, some (.integer 30000),
      fun c => ofCount c.session.waitTimeout⟩,
    ⟨"session", "track_thread_lifecycle", .flag, some (.boolean true),
      fun c => some (.boolean c.session.trackThreads)⟩,
    ⟨"jdwp", "handshake_timeout_ms", .count, some (.integer 5000),
      fun c => ofCount c.wire.handshakeTimeout⟩,
    ⟨"jdwp", "reply_timeout_ms", .count, some (.integer 10000),
      fun c => ofCount c.wire.replyTimeout⟩,
    ⟨"jdwp", "event_channel_size", .count, some (.integer 256),
      fun c => ofCount c.wire.eventBacklog⟩,
    ⟨"jdwp", "java", .text, some (.string "java"), fun c => some (.string c.wire.java)⟩]

def IsTable (name : String) : Prop := ∃ k ∈ knobs, k.table = name

def IsKey (table key : String) : Prop := ∃ k ∈ knobs, k.table = table ∧ k.key = key

instance (name : String) : Decidable (IsTable name) :=
  inferInstanceAs (Decidable (∃ k ∈ knobs, k.table = name))

instance (table key : String) : Decidable (IsKey table key) :=
  inferInstanceAs (Decidable (∃ k ∈ knobs, k.table = table ∧ k.key = key))

/-- What the document gives for a key of one of its tables. -/
def given? (doc : Entries) (table key : String) : Option Item :=
  (doc.get? table).bind fun item => item.entries.get? key

/-- The tables of settings are tables, and what they give for the settings is of their types. -/
structure WellTyped (doc : Entries) : Prop where
  tables : ∀ {name item}, IsTable name → doc.get? name = some item →
    ∃ form es, item = .table form es
  values : ∀ k ∈ knobs, ∀ item, given? doc k.table k.key = some item → k.kind.Fits item

def strayKeys (table : String) (es : Entries) : List String :=
  es.flatMap fun e => if IsKey table e.1 then [] else [e.1]

/-- The dotted paths of the keys in an entry of a document that are no settings. A table that is not
one of settings is one such key. -/
def strayPaths (e : String × Item) : List String :=
  if IsTable e.1 then (strayKeys e.1 e.2.entries).map fun key => e.1 ++ "." ++ key else [e.1]

def strays (doc : Entries) : List String := doc.flatMap strayPaths

/-! ## What settings show -/

@[simp] theorem ofCount_inj {m n : UInt64} : ofCount m = ofCount n ↔ m = n := by
  rw [ofCount, ofCount, Option.some.injEq, Item.integer.injEq, Int.ofNat_inj, UInt64.toNat_inj]

/-- There is nothing else in a configuration. -/
theorem ext_shown {c c' : Config} (h : ∀ k ∈ knobs, k.shown c = k.shown c') : c = c' := by
  obtain ⟨⟨_, _, _, file⟩, ⟨_, _, _, _⟩, ⟨_, _, _, _⟩⟩ := c
  obtain ⟨⟨_, _, _, file'⟩, ⟨_, _, _, _⟩, ⟨_, _, _, _⟩⟩ := c'
  simp only [knobs, List.forall_mem_cons, Option.some.injEq, Item.string.injEq,
    Item.boolean.injEq, ofCount_inj] at h
  obtain ⟨rfl, rfl, rfl, hfile, rfl, rfl, rfl, rfl, rfl, rfl, rfl, rfl, -⟩ := h
  rw [Option.map_injective (fun _ _ => Item.string.inj) hfile]

theorem shown_missing : ∀ k ∈ knobs, k.shown {} = k.standard := by simp [knobs, ofCount]

theorem isTable_iff {name : String} :
    IsTable name ↔ name = "logging" ∨ name = "session" ∨ name = "jdwp" := by
  simp [IsTable, knobs, eq_comm]

/-! ## Entries one after the other -/

/-- Each entry gives what it owns and notes what it leaves, so entries of distinct keys together
give what each owns. -/
theorem exists_entered {σ κ : Type} {K : κ → Prop} {es : Entries}
    {enter : σ × List String → String × Item → Option (σ × List String)} (owner : κ → String)
    (gives : κ → Item → Option Item) (shown : κ → σ → Option Item)
    (noted : String × Item → List String) (hes : (es.map Prod.fst).Nodup)
    (hstep : ∀ e ∈ es, ∀ x seen, ∃ x', enter (x, seen) e = some (x', seen ++ noted e) ∧
      ∀ k, K k → shown k x' = if owner k = e.1 then gives k e.2 else shown k x)
    (x : σ) (seen : List String) :
    ∃ x', es.foldlM enter (x, seen) = some (x', seen ++ es.flatMap noted) ∧
      ∀ k, K k → shown k x' = ((es.get? (owner k)).map (gives k)).getD (shown k x) := by
  induction es generalizing x seen with
  | nil => exact ⟨x, by simp, fun k _ => rfl⟩
  | cons e es ih =>
    obtain ⟨hnew, hrest⟩ := List.nodup_cons.1 hes
    obtain ⟨x₁, henter, hfirst⟩ := hstep e List.mem_cons_self x seen
    obtain ⟨x₂, hfold, hshown⟩ := ih hrest (fun e he => hstep e (List.mem_cons_of_mem _ he)) x₁
      (seen ++ noted e)
    refine ⟨x₂, ?_, fun k hk => ?_⟩
    · rw [List.foldlM_cons, henter, List.flatMap_cons, ← List.append_assoc]
      exact hfold
    · -- no later entry has the key of this one, so what it gives stays
      rw [hshown k hk, hfirst k hk, Entries.get?_cons]
      by_cases howner : owner k = e.1
      · have hlast : Entries.get? es e.1 = none := named_eq_none_iff.2 hnew
        rw [howner, hlast, if_pos rfl, if_pos rfl]
        rfl
      · rw [if_neg howner, if_neg (Ne.symm howner)]

/-! ## Sections -/

/-- The setting takes what fits it and puts it in its own place only. -/
def Puts {σ : Type} (name : String) (put : σ → Config → Config) (s : Setting σ) : Prop :=
  ∀ item, (∀ k ∈ knobs, k.table = name → k.key = s.key → k.kind.Fits item) → ∀ x c,
    ∃ x', s.put item x = some x' ∧ ∀ k ∈ knobs, k.table = name →
      k.shown (put x' c) = if k.key = s.key then some item else k.shown (put x c)

/-- The settings are those of the section: they have its keys, and what is not given is at its
default. -/
structure Reads {σ : Type} (name : String) (settings : List (Setting σ)) (defaults : σ)
    (put : σ → Config → Config) : Prop where
  keys : ∀ key, (settings.find? fun s => s.key == key) = none ↔ ¬IsKey name key
  standard : ∀ k ∈ knobs, k.table = name → ∀ c, k.shown (put defaults c) = k.standard
  puts : ∀ s ∈ settings, Puts name put s
  others : ∀ k ∈ knobs, k.table ≠ name → ∀ x c, k.shown (put x c) = k.shown c

namespace Reads
variable {σ : Type} {name : String} {settings : List (Setting σ)} {defaults : σ}
  {put : σ → Config → Config}

theorem enter (h : Reads name settings defaults put) {e : String × Item}
    (htyped : ∀ k ∈ knobs, k.table = name → k.key = e.1 → k.kind.Fits e.2) (x : σ)
    (seen : List String) (c : Config) :
    ∃ x', Setting.enter settings (x, seen) e =
        some (x', seen ++ if IsKey name e.1 then [] else [e.1]) ∧
      ∀ k, k ∈ knobs ∧ k.table = name →
        k.shown (put x' c) = if k.key = e.1 then some e.2 else k.shown (put x c) := by
  rw [Setting.enter]
  cases hfind : settings.find? fun s => s.key == e.1 with
  | none =>
    have hstray : ¬IsKey name e.1 := (h.keys e.1).1 hfind
    refine ⟨x, by rw [if_neg hstray], fun k hk => ?_⟩
    rw [if_neg fun hkey => hstray ⟨k, hk.1, hk.2, hkey⟩]
  | some s =>
    have hkey : s.key = e.1 := by simpa using List.find?_some hfind
    have hknown : IsKey name e.1 := by
      by_contra hstray
      rw [(h.keys e.1).2 hstray] at hfind
      cases hfind
    rw [← hkey] at htyped
    obtain ⟨x', hput, hshown⟩ := h.puts s (List.mem_of_find?_eq_some hfind) e.2 htyped x c
    refine ⟨x', by simp [hput, hknown], fun k hk => ?_⟩
    rw [hshown k hk.1 hk.2, hkey]

theorem read (h : Reads name settings defaults put) (form : Form) {es : Entries}
    (hes : (es.map Prod.fst).Nodup) (htyped : ∀ k ∈ knobs, k.table = name → ∀ item,
      es.get? k.key = some item → k.kind.Fits item) (c : Config) :
    ∃ x, readSection settings defaults (.table form es) = some (x, strayKeys name es) ∧
      ∀ k ∈ knobs, k.table = name → k.shown (put x c) = (es.get? k.key).or k.standard := by
  have hstep (e : String × Item) (he : e ∈ es) (x : σ) (seen : List String) :=
    h.enter (e := e) (fun k hk htable hkey =>
      htyped k hk htable e.2 ((named_eq_some_iff hes).2 (hkey ▸ he))) x seen c
  obtain ⟨x, hread, hshown⟩ := exists_entered Knob.key (fun _ item => some item)
    (fun k x => k.shown (put x c)) (fun e => if IsKey name e.1 then [] else [e.1]) hes hstep
    defaults []
  refine ⟨x, hread, fun k hk htable => ?_⟩
  rw [hshown k ⟨hk, htable⟩, h.standard k hk htable c]
  cases es.get? k.key <;> rfl

end Reads

/-! ## The three sections -/

theorem Puts.of {σ α : Type} {name key : String} {kind : Kind} {read : Item → Option α}
    {place : α → Option Item} {put : σ → Config → Config} {set : σ → α → σ}
    (hread : ∀ item, kind.Fits item → ∃ a, read item = some a ∧ place a = some item)
    (hkind : ∃ k ∈ knobs, k.table = name ∧ k.key = key ∧ k.kind = kind)
    (hset : ∀ a x c, ∀ k ∈ knobs, k.table = name →
      k.shown (put (set x a) c) = if k.key = key then place a else k.shown (put x c)) :
    Puts name put (.of key read set) := by
  intro item hfits x c
  obtain ⟨k, hk, htable, hkey, rfl⟩ := hkind
  obtain ⟨a, ha, hplace⟩ := hread item (hfits k hk htable hkey)
  exact ⟨set x a, congrArg (Option.map (set x)) ha, hplace ▸ hset a x c⟩

theorem Kind.read_text (item : Item) (h : text.Fits item) :
    ∃ s, item.string? = some s ∧ some (.string s) = some item := by
  cases item with
  | string s => exact ⟨s, rfl, rfl⟩
  | _ => exact h.elim

theorem Kind.read_flag (item : Item) (h : flag.Fits item) :
    ∃ b, item.boolean? = some b ∧ some (.boolean b) = some item := by
  cases item with
  | boolean b => exact ⟨b, rfl, rfl⟩
  | _ => exact h.elim

theorem Kind.read_count (item : Item) (h : count.Fits item) :
    ∃ n, item.count? = some n ∧ ofCount n = some item := by
  cases item with
  | integer z =>
    obtain ⟨hz, hsmall⟩ := h
    have hmod : z % 2 ^ 64 = z := Int.emod_eq_of_lt hz ((Int.toNat_lt hz).1 hsmall)
    have hnat : (UInt64.ofInt z).toNat = z.toNat := by
      rw [UInt64.ofInt, hmod, UInt64.toNat_ofNat_of_lt' hsmall]
    exact ⟨.ofInt z, if_pos hz, by rw [ofCount, hnat, Int.toNat_of_nonneg hz]⟩
  | _ => exact h.elim

theorem reads_logging : Reads "logging" LoggingConfig.settings LoggingConfig.keyDefaults
    fun logging c => { c with logging } where
  keys key := by simp [LoggingConfig.settings, IsKey, knobs, Setting.of]
  standard := by simp [knobs, LoggingConfig.keyDefaults]
  puts := by
    simp only [LoggingConfig.settings, List.forall_mem_cons]
    exact ⟨.of Kind.read_text (by simp [knobs]) (by simp [knobs]),
      .of Kind.read_flag (by simp [knobs]) (by simp [knobs]),
      .of Kind.read_flag (by simp [knobs]) (by simp [knobs]),
      .of Kind.read_text (by simp [knobs]) (by simp [knobs]), by simp⟩
  others := by simp [knobs]

theorem reads_session : Reads "session" SessionConfig.settings SessionConfig.keyDefaults
    fun session c => { c with session } where
  keys key := by simp [SessionConfig.settings, IsKey, knobs, Setting.of]
  standard := by simp [knobs, SessionConfig.keyDefaults, ofCount]
  puts := by
    simp only [SessionConfig.settings, List.forall_mem_cons]
    exact ⟨.of Kind.read_count (by simp [knobs]) (by simp [knobs]),
      .of Kind.read_count (by simp [knobs]) (by simp [knobs]),
      .of Kind.read_count (by simp [knobs]) (by simp [knobs]),
      .of Kind.read_flag (by simp [knobs]) (by simp [knobs]), by simp⟩
  others := by simp [knobs]

theorem reads_wire : Reads "jdwp" WireConfig.settings WireConfig.keyDefaults
    fun wire c => { c with wire } where
  keys key := by simp [WireConfig.settings, IsKey, knobs, Setting.of]
  standard := by simp [knobs, WireConfig.keyDefaults, ofCount]
  puts := by
    simp only [WireConfig.settings, List.forall_mem_cons]
    exact ⟨.of Kind.read_count (by simp [knobs]) (by simp [knobs]),
      .of Kind.read_count (by simp [knobs]) (by simp [knobs]),
      .of Kind.read_count (by simp [knobs]) (by simp [knobs]),
      .of Kind.read_text (by simp [knobs]) (by simp [knobs]), by simp⟩
  others := by simp [knobs]

/-! ## Documents -/

section
variable {doc : Entries} (hdoc : doc.Distinct) (htyped : WellTyped doc)
include hdoc htyped

theorem Reads.enter_table {σ : Type} {name : String} {settings : List (Setting σ)} {defaults : σ}
    {put : σ → Config → Config} (h : Reads name settings defaults put)
    (henter : ∀ c seen item, Config.enter (c, seen) (name, item) =
      (readSection settings defaults item).map fun (x, keys) =>
        (put x c, seen ++ keys.map fun key => name ++ "." ++ key))
    (hname : IsTable name) {item : Item} (hitem : (name, item) ∈ doc) (c : Config)
    (seen : List String) :
    ∃ c', Config.enter (c, seen) (name, item) = some (c', seen ++ strayPaths (name, item)) ∧
      ∀ k ∈ knobs, k.shown c' =
        if k.table = name then (item.entries.get? k.key).or k.standard else k.shown c := by
  have hget : doc.get? name = some item := (named_eq_some_iff hdoc.keys).2 hitem
  obtain ⟨form, es, rfl⟩ := htyped.tables hname hget
  have hes : Entries.Distinct es := Entries.distinct_table.1 (hdoc.get? hget)
  have hfits : ∀ k ∈ knobs, k.table = name → ∀ item, Entries.get? es k.key = some item →
      k.kind.Fits item := by
    rintro k hk rfl item hgiven
    exact htyped.values k hk item (by rw [given?, hget]; exact hgiven)
  obtain ⟨x, hread, hshown⟩ := h.read form hes.keys hfits c
  refine ⟨put x c, by rw [henter, hread, strayPaths, if_pos hname]; rfl, fun k hk => ?_⟩
  split
  · next htable => exact hshown k hk htable
  · next htable => exact h.others k hk htable x c

theorem exists_enter {e : String × Item} (he : e ∈ doc) (c : Config) (seen : List String) :
    ∃ c', Config.enter (c, seen) e = some (c', seen ++ strayPaths e) ∧ ∀ k, k ∈ knobs → k.shown c' =
      if k.table = e.1 then (e.2.entries.get? k.key).or k.standard else k.shown c := by
  obtain ⟨name, item⟩ := e
  by_cases hname : IsTable name
  · rcases isTable_iff.1 hname with rfl | rfl | rfl
    · exact reads_logging.enter_table hdoc htyped (fun _ _ _ => rfl) hname he c seen
    · exact reads_session.enter_table hdoc htyped (fun _ _ _ => rfl) hname he c seen
    · exact reads_wire.enter_table hdoc htyped (fun _ _ _ => rfl) hname he c seen
  · have hne := isTable_iff.not.1 hname
    simp only [not_or] at hne
    refine ⟨c, ?_, fun k hk => ?_⟩
    · rw [strayPaths, if_neg hname]
      simp only [Config.enter, if_neg hne.1, if_neg hne.2.1, if_neg hne.2.2]
    · rw [if_neg fun htable => hname ⟨k, hk, htable⟩]

/-- A section that is missing is at the defaults of its type, one that is there at those of its keys;
they are the same. -/
theorem exists_config :
    ∃ c, doc.foldlM Config.enter ({}, []) = some (c, strays doc) ∧
      ∀ k ∈ knobs, k.shown c = (given? doc k.table k.key).or k.standard := by
  obtain ⟨c, hread, hshown⟩ := exists_entered Knob.table
    (fun k item => (item.entries.get? k.key).or k.standard) Knob.shown strayPaths hdoc.keys
    (fun e he c seen => exists_enter hdoc htyped he c seen) {} []
  refine ⟨c, hread, fun k hk => ?_⟩
  rw [hshown k hk, given?]
  cases doc.get? k.table with
  | none => exact shown_missing k hk
  | some item => rfl

end

/-! ## The report -/

theorem pairwise_sorted (keys : List String) : (sorted keys).Pairwise (· < ·) := by
  have hordered : (keys.mergeSort fun a b => !decide (b < a)).Pairwise (· ≤ ·) := by
    have hle (a b : String) : (!decide (b < a)) = true ↔ a ≤ b := by
      rw [Bool.not_eq_true', decide_eq_false_iff_not, String.not_lt]
    refine (List.pairwise_mergeSort (fun a b c hab hbc => ?_) (fun a b => ?_) keys).imp (hle _ _).1
    · exact (hle a c).2 (String.le_trans ((hle a b).1 hab) ((hle b c).1 hbc))
    · rw [Bool.or_eq_true, hle, hle]
      exact String.le_total a b
  refine (pairwise_eraseReps (fun _ _ => String.le_antisymm) hordered).imp fun {a b} h => ?_
  exact Std.lt_of_le_of_ne h.1 h.2

theorem mem_sorted {key : String} {keys : List String} : key ∈ sorted keys ↔ key ∈ keys := by
  rw [sorted, mem_eraseReps, List.mem_mergeSort]

theorem reported_eq {path : String} (h : path.toList.head? ≠ some '.') : reported path = path := by
  have hdrop : path.toList.dropWhile (· == '.') = path.toList := by
    cases hpath : path.toList with
    | nil => rfl
    | cons c text =>
      rw [hpath] at h
      exact List.dropWhile_cons_of_neg (by simpa using h)
  rw [reported, hdrop, String.ofList_toList]

/-! ## Unknown keys -/

/-- The documents differ in keys that are no settings: those of the later one have come, gone or
changed, at its root or in a table of settings, and that table may have come for them. -/
inductive Alike (doc : Entries) : Entries → Prop
  | refl : Alike doc doc
  | root {before old new after : Entries} : Alike doc (before ++ (old ++ after)) →
    (∀ e ∈ old ++ new, ¬IsTable e.1) → Alike doc (before ++ (new ++ after))
  | table {before first old new last after : Entries} {name : String} {form form' : Form} :
    Alike doc (before ++ (name, .table form (first ++ (old ++ last))) :: after) →
    (∀ e ∈ old ++ new, ¬IsKey name e.1) →
    Alike doc (before ++ (name, .table form' (first ++ (new ++ last))) :: after)
  | missing {before after : Entries} {name : String} {form : Form} :
    Alike doc (before ++ after) → (before ++ after).get? name = none →
    Alike doc (before ++ (name, .table form []) :: after)

/-- What a document may have in place of a table's item for it to be alike. -/
inductive Matches (name : String) : Option Item → Option Item → Prop
  | same (item : Option Item) : Matches name item item
  | table {es es' : Entries} (form form' : Form) :
    (∀ key, IsKey name key → es'.get? key = es.get? key) →
    Matches name (some (.table form es)) (some (.table form' es'))
  | missing (form : Form) : Matches name none (some (.table form []))

theorem get?_changed {P : String → Prop} {before old new after : Entries} {key : String}
    (hstray : ∀ e ∈ old ++ new, ¬P e.1) (hkey : P key) :
    (before ++ (new ++ after)).get? key = (before ++ (old ++ after)).get? key := by
  have hnone {es : Entries} (hes : ∀ e ∈ es, e ∈ old ++ new) : es.get? key = none := by
    refine named_eq_none_iff.2 fun hmem => ?_
    obtain ⟨e, he, rfl⟩ := List.mem_map.1 hmem
    exact hstray e (hes e he) hkey
  simp only [Entries.get?_append, hnone fun e => List.mem_append_left new,
    hnone fun e => List.mem_append_right old]

/-- The documents give the same for every setting. -/
structure Same (doc doc' : Entries) : Prop where
  given : ∀ k ∈ knobs, given? doc' k.table k.key = given? doc k.table k.key
  typed : WellTyped doc → WellTyped doc'

theorem same_of_matches {doc doc' : Entries}
    (h : ∀ name, IsTable name → Matches name (doc.get? name) (doc'.get? name)) : Same doc doc' := by
  have hgiven : ∀ k ∈ knobs, given? doc' k.table k.key = given? doc k.table k.key := by
    intro k hk
    have hmatch := h k.table ⟨k, hk, rfl⟩
    rw [given?, given?]
    generalize doc.get? k.table = o at hmatch ⊢
    generalize doc'.get? k.table = o' at hmatch ⊢
    cases hmatch with
    | same => rfl
    | table form form' hkeys => exact hkeys k.key ⟨k, hk, rfl, rfl⟩
    | missing form => rfl
  refine ⟨hgiven, fun htyped => ⟨fun {name item} hname hget => ?_, fun k hk item hitem => ?_⟩⟩
  · have hmatch := h name hname
    rw [hget] at hmatch
    generalize ho : doc.get? name = o at hmatch
    cases hmatch with
    | same => exact htyped.tables hname ho
    | table form form' hkeys => exact ⟨form', _, rfl⟩
    | missing form => exact ⟨form, [], rfl⟩
  · exact htyped.values k hk item (hgiven k hk ▸ hitem)

theorem Alike.same {doc doc' : Entries} (h : Alike doc doc') : Same doc doc' := by
  have htrans {doc' doc'' : Entries} (h : Same doc doc') (h' : ∀ name, IsTable name →
      Matches name (doc'.get? name) (doc''.get? name)) : Same doc doc'' :=
    have hlast := same_of_matches h'
    ⟨fun k hk => (hlast.given k hk).trans (h.given k hk),
      fun htyped => hlast.typed (h.typed htyped)⟩
  induction h with
  | refl => exact ⟨fun _ _ => rfl, id⟩
  | root h hstray ih =>
    refine htrans ih fun name hname => ?_
    rw [get?_changed hstray hname]
    exact .same _
  | @table before first old new last after name form form' h hstray ih =>
    refine htrans ih fun key hkey => ?_
    simp only [Entries.get?_append, Entries.get?_cons]
    cases before.get? key with
    | some item => exact .same _
    | none =>
      split
      · next hname =>
        exact .table form form' fun key hkey => get?_changed hstray (hname ▸ hkey)
      · exact .same _
  | @missing before after name form h hmissing ih =>
    refine htrans ih fun key hkey => ?_
    simp only [Entries.get?_append, Entries.get?_cons] at hmissing ⊢
    split
    · next hname =>
      obtain ⟨hbefore, hafter⟩ := Option.or_eq_none_iff.1 (hname ▸ hmissing)
      rw [hbefore, hafter]
      exact .missing form
    · exact .same _

/-! ## Configurations -/

/-- One setting and a misspelt key. -/
def misspelt : Entries := [("jdwp", .table .header [("java", .string "j"), ("jvm", .integer 1)])]

theorem wellTyped_misspelt : WellTyped misspelt := by
  refine ⟨fun {name item} _ hget => ?_, ?_⟩
  · obtain ⟨-, rfl⟩ : "jdwp" = name ∧ _ = item := by simpa [misspelt, Entries.get?] using hget
    exact ⟨_, _, rfl⟩
  · simp [knobs, given?, misspelt, Entries.get?, Item.entries, Kind.Fits]

end Config

end JvmDebug
