import JvmDebug.Event
import JvmDebug.Proofs.NamedEntries

/-!
Events as JSON objects. The payload's fields stand beside those of every event and none takes the
name of another, so an event is read again from the object it is written as, in whatever order the
fields come. Main result: `DebugEvent.read_back`.
-/
namespace JvmDebug

namespace Json

/-! ## The order of fields -/

/-- The same value with the fields of its objects in another order, also of objects that are fields
of objects. -/
inductive Reordered : Json → Json → Prop
  | refl (j : Json) : Reordered j j
  | trans {j k l : Json} (h : Reordered j k) (h' : Reordered k l) : Reordered j l
  | order {fs gs : List (String × Json)} (hnames : (fs.map Prod.fst).Nodup) (h : fs.Perm gs) :
      Reordered (.object fs) (.object gs)
  | inside {before after : List (String × Json)} {name : String} {j k : Json}
      (h : Reordered j k) :
      Reordered (.object (before ++ (name, j) :: after)) (.object (before ++ (name, k) :: after))

/-- What is no object has no fields to reorder. -/
theorem Reordered.cases {j k : Json} (h : Reordered j k) :
    j = k ∨ ∃ fs gs, j = .object fs ∧ k = .object gs := by
  induction h with
  | refl => exact .inl rfl
  | order => exact .inr ⟨_, _, rfl, rfl⟩
  | inside => exact .inr ⟨_, _, rfl, rfl⟩
  | trans _ _ ih ih' =>
    rcases ih with rfl | ⟨fs, gs, rfl, rfl⟩
    · exact ih'
    · rcases ih' with rfl | ⟨_, hs, -, rfl⟩
      · exact .inr ⟨_, _, rfl, rfl⟩
      · exact .inr ⟨_, _, rfl, rfl⟩

/-- The reader gives the same for a value in every order. -/
def Orderless {α : Type} (read : Json → Option α) : Prop :=
  ∀ {j k : Json}, Reordered j k → read j = read k

/-- The fields of the two lists have the same names, and the same values but for their order. -/
def SameFields (fs gs : List (String × Json)) : Prop :=
  ∀ name, Option.Rel Reordered (lookup name fs) (lookup name gs)

section
variable {α β : Type} {fs gs : List (String × Json)}

theorem orderless_of_scalar {read : Json → Option α} (h : ∀ fs, read (.object fs) = none) :
    Orderless read := by
  intro j k hjk
  rcases hjk.cases with rfl | ⟨fs, gs, rfl, rfl⟩
  · rfl
  · rw [h, h]

theorem orderless_string? : Orderless string? := orderless_of_scalar fun _ => rfl

theorem orderless_bool? : Orderless bool? := orderless_of_scalar fun _ => rfl

theorem orderless_intIn? (low high : Int) : Orderless (intIn? low high) :=
  orderless_of_scalar fun _ => rfl

theorem orderless_natBelow? (bound : Nat) : Orderless (natBelow? bound) :=
  orderless_of_scalar fun _ => rfl

/-- A reader of objects that goes by the names and the reordered values gives the same in every
order. -/
theorem orderless_of_fields {read : Json → Option α}
    (h : ∀ fs gs, SameFields fs gs → read (.object fs) = read (.object gs)) : Orderless read := by
  intro j k hjk
  induction hjk with
  | refl => rfl
  | trans _ _ ih ih' => exact ih.trans ih'
  | @order fs gs hnames hperm =>
    refine h fs gs fun name => ?_
    have hsame : lookup name fs = lookup name gs := named_perm hnames hperm
    rw [hsame]
    cases lookup name gs with
    | none => exact .none
    | some j => exact .some (.refl j)
  | @inside before after name j k hjk =>
    refine h _ _ fun other => ?_
    simp only [lookup, List.find?_append, List.find?_cons]
    cases before.find? fun p => p.1 == other with
    | some p => exact .some (.refl _)
    | none =>
      by_cases hname : (name == other) = true
      · simpa [hname] using Option.Rel.some hjk
      · simp only [hname]
        cases after.find? fun p => p.1 == other with
        | none => exact .none
        | some p => exact .some (.refl _)

namespace SameFields

theorem bind {f g : Json → Option β} (h : SameFields fs gs) (name : String)
    (hfg : ∀ j k, Reordered j k → f j = g k) :
    (lookup name fs).bind f = (lookup name gs).bind g := by
  have hrel := h name
  generalize lookup name fs = x at hrel
  generalize lookup name gs = y at hrel
  cases hrel with
  | none => rfl
  | some hjk => exact hfg _ _ hjk

theorem optional {read : Json → Option α} (h : SameFields fs gs) (name : String)
    (hread : Orderless read) :
    Json.optional read (lookup name fs) = Json.optional read (lookup name gs) := by
  have hrel := h name
  generalize lookup name fs = x at hrel
  generalize lookup name gs = y at hrel
  cases hrel with
  | none => rfl
  | some hjk =>
    rcases hjk.cases with rfl | ⟨fs, gs, rfl, rfl⟩
    · rfl
    · exact congrArg (Option.map Option.some) (hread hjk)

end SameFields

end

/-! ## Numbers and texts -/

theorem natBelow?_ofNat {n bound : Nat} (h : n < bound) : natBelow? bound (ofNat n) = some n := by
  simp [natBelow?, intIn?, ofNat, h]

theorem intIn?_ofInt {low high z : Int} (hlow : low ≤ z) (hhigh : z < high) :
    intIn? low high (ofInt z) = some z :=
  if_pos ⟨hlow, hhigh⟩

theorem optional_number (x : Option UInt32) :
    Json.optional (natBelow? UInt32.size) (some (ofOption (fun n => ofNat n.toNat) x)) =
      some (x.map UInt32.toNat) := by
  cases x with
  | none => rfl
  | some n =>
    rw [ofOption, Json.optional, natBelow?_ofNat n.toNat_lt_size]
    · rfl
    · exact nofun

theorem optional_text (x : Option String) :
    Json.optional string? (some (ofOption string x)) = some x := by
  cases x <;> rfl

def fields : Json → List (String × Json)
  | object fs => fs
  | _ => []

/-- The names of an object's fields. -/
def names (j : Json) : List String := j.fields.map Prod.fst

/-- A field whose name no other has is found, wherever it stands. -/
theorem lookup_of_getElem? {fields all : List (String × Json)} (hnames : (all.map Prod.fst).Nodup)
    (hall : fields ⊆ all) (i : Nat) {name : String} {j : Json} (h : fields[i]? = some (name, j)) :
    lookup name all = some j :=
  (named_eq_some_iff hnames).2 (hall (List.mem_of_getElem? h))

end Json

open Json

/-! ## Places -/

namespace ThreadPlace

theorem orderless_ofJson? : Orderless ofJson? := by
  refine orderless_of_fields fun fs gs h => ?_
  refine h.bind _ fun _ _ hid => h.bind _ fun _ _ hthread => h.bind _ fun _ _ hclass =>
    h.bind _ fun _ _ hmethod => ?_
  simp only [ofParts?, orderless_natBelow? _ hid, orderless_string? hthread,
    orderless_string? hclass, orderless_string? hmethod, h.optional _ orderless_string?,
    h.optional _ (orderless_natBelow? _)]

theorem nodup_names (p : ThreadPlace) : p.toJson.names.Nodup := by
  simp [toJson, names, Json.fields]

theorem ofParts?_toJson (p : ThreadPlace) :
    ofParts? (.ofNat p.threadId.toNat) (.string p.threadName) (.string p.className)
      (.string p.methodName) (some (.ofOption (fun n => .ofNat n.toNat) p.line))
      (some (.ofOption .string p.sourceName)) = some p := by
  have hid := natBelow?_ofNat p.threadId.toNat_lt_size
  have hback : (p.line.map UInt32.toNat).map UInt32.ofNat = p.line := by
    cases p.line <;> simp
  rw [ofParts?, hid, optional_number, optional_text]
  simp only [Option.bind_eq_bind, Option.bind_some, string?, hback, UInt64.ofNat_toNat]
  rfl

-- The parts are variables here and below: on written numbers the kernel would compute the bounds.
theorem ofJson?_object {all : List (String × Json)}
    {threadId threadName className methodName : Json}
    (hid : lookup "thread_id" all = some threadId)
    (hthread : lookup "thread_name" all = some threadName)
    (hclass : lookup "class_name" all = some className)
    (hmethod : lookup "method_name" all = some methodName) :
    ofJson? (.object all) = ofParts? threadId threadName className methodName (lookup "line" all)
      (lookup "source_name" all) := by
  simp only [ofJson?, hid, hthread, hclass, hmethod, Option.bind_eq_bind, Option.bind_some]

theorem ofJson?_toJson (p : ThreadPlace) : ofJson? p.toJson = some p := by
  have hfind := lookup_of_getElem? p.nodup_names (List.Subset.refl p.toJson.fields)
  show ofJson? (.object p.toJson.fields) = some p
  rw [ofJson?_object (hfind 0 rfl) (hfind 1 rfl) (hfind 2 rfl) (hfind 3 rfl), hfind 4 rfl,
    hfind 5 rfl, ofParts?_toJson]

end ThreadPlace

/-! ## Payloads -/

namespace Payload

theorem ofFields?_congr (kind : EventKind) {fs gs : List (String × Json)} (h : SameFields fs gs) :
    ofFields? kind fs = ofFields? kind gs := by
  cases kind with
  | breakpointHit =>
    rw [ofFields?, ofFields?]
    simp only [h.optional _ orderless_string?]
    refine congrArg _ (funext fun _ => ?_)
    exact h.bind _ fun _ _ hplace => by rw [ThreadPlace.orderless_ofJson? hplace]
  | stepCompleted =>
    exact h.bind _ fun _ _ hplace => by rw [ThreadPlace.orderless_ofJson? hplace]
  | exceptionThrown =>
    refine h.bind _ fun _ _ hclass => ?_
    simp only [h.optional _ orderless_string?, orderless_string? hclass]
    refine congrArg _ (funext fun _ => congrArg _ (funext fun _ => ?_))
    refine h.bind _ fun _ _ hcaught => ?_
    simp only [orderless_bool? hcaught]
    refine congrArg _ (funext fun _ => ?_)
    exact h.bind _ fun _ _ hplace => by rw [ThreadPlace.orderless_ofJson? hplace]
  | threadStart | threadDeath =>
    have hid := h.bind "thread_id" fun _ _ hid => orderless_natBelow? UInt64.size hid
    simp only [ofFields?, hid]
    refine congrArg _ (funext fun _ => ?_)
    exact h.bind _ fun _ _ hname => by rw [orderless_string? hname]
  | vmDeath => exact h.bind _ fun _ _ hcode => by rw [orderless_intIn? _ _ hcode]
  | vmDisconnect => exact h.bind _ fun _ _ hreason => by rw [orderless_string? hreason]

section
variable {all : List (String × Json)} {j : Json} {place : ThreadPlace} {threadId : ThreadId}
  {name : String}

theorem ofFields?_hit {id : Option String}
    (hid : lookup "breakpoint_id" all = some (.ofOption .string id))
    (hplace : lookup "location" all = some j) (hread : ThreadPlace.ofJson? j = some place) :
    ofFields? .breakpointHit all = some (.breakpointHit id place) := by
  simp only [ofFields?, hid, hplace, hread, optional_text, Option.bind_eq_bind, Option.bind_some,
    Option.pure_def]

theorem ofFields?_step (hplace : lookup "location" all = some j)
    (hread : ThreadPlace.ofJson? j = some place) :
    ofFields? .stepCompleted all = some (.stepCompleted place) := by
  simp only [ofFields?, hplace, hread, Option.bind_eq_bind, Option.bind_some, Option.pure_def]

theorem ofFields?_exception {exceptionClass : String} {message : Option String} {caught : Bool}
    (hclass : lookup "exception_class" all = some (.string exceptionClass))
    (hmessage : lookup "message" all = some (.ofOption .string message))
    (hcaught : lookup "caught" all = some (.bool caught))
    (hplace : lookup "location" all = some j) (hread : ThreadPlace.ofJson? j = some place) :
    ofFields? .exceptionThrown all =
      some (.exceptionThrown exceptionClass message caught place) := by
  simp only [ofFields?, hclass, hmessage, hcaught, hplace, hread, string?, bool?, optional_text,
    Option.bind_eq_bind, Option.bind_some, Option.pure_def]

theorem ofFields?_thread (hid : lookup "thread_id" all = some j)
    (hread : j.natBelow? UInt64.size = some threadId.toNat)
    (hname : lookup "name" all = some (.string name)) :
    ofFields? .threadStart all = some (.threadStart threadId name) ∧
      ofFields? .threadDeath all = some (.threadDeath threadId name) := by
  simp only [ofFields?, hid, hread, hname, string?, UInt64.ofNat_toNat, Option.bind_eq_bind,
    Option.bind_some, Option.pure_def, and_self]

theorem ofFields?_death {exitCode : Int32} (hcode : lookup "exit_code" all = some j)
    (hread : j.intIn? Int32.minValue.toInt (Int32.maxValue.toInt + 1) = some exitCode.toInt) :
    ofFields? .vmDeath all = some (.vmDeath exitCode) := by
  simp only [ofFields?, hcode, hread, Int32.ofInt_toInt, Option.bind_eq_bind, Option.bind_some,
    Option.pure_def]

theorem ofFields?_disconnect {reason : String}
    (hreason : lookup "reason" all = some (.string reason)) :
    ofFields? .vmDisconnect all = some (.vmDisconnect reason) := by
  simp only [ofFields?, hreason, string?, Option.bind_eq_bind, Option.bind_some, Option.pure_def]

end

/-- The payload is found among all fields of which no two have one name. -/
theorem ofFields?_fields {payload : Payload} {all : List (String × Json)}
    (hnames : (all.map Prod.fst).Nodup) (hall : payload.fields ⊆ all) :
    ofFields? payload.kind all = some payload := by
  have hfind := lookup_of_getElem? hnames hall
  cases payload with
  | breakpointHit id place => exact ofFields?_hit (hfind 0 rfl) (hfind 1 rfl) place.ofJson?_toJson
  | stepCompleted place => exact ofFields?_step (hfind 0 rfl) place.ofJson?_toJson
  | exceptionThrown exceptionClass message caught place =>
    exact ofFields?_exception (hfind 0 rfl) (hfind 1 rfl) (hfind 2 rfl) (hfind 3 rfl)
      place.ofJson?_toJson
  | threadStart threadId name =>
    exact (ofFields?_thread (hfind 0 rfl) (natBelow?_ofNat threadId.toNat_lt_size) (hfind 1 rfl)).1
  | threadDeath threadId name =>
    exact (ofFields?_thread (hfind 0 rfl) (natBelow?_ofNat threadId.toNat_lt_size) (hfind 1 rfl)).2
  | vmDeath exitCode =>
    exact ofFields?_death (hfind 0 rfl)
      (intIn?_ofInt exitCode.minValue_le_toInt (Int.lt_add_one_iff.2 exitCode.toInt_le))
  | vmDisconnect reason => exact ofFields?_disconnect (hfind 0 rfl)

end Payload

theorem EventKind.ofName?_name (k : EventKind) : ofName? k.name = some k := by
  cases k <;> rfl

theorem EventKind.orderless_ofJson? : Orderless EventKind.ofJson? :=
  orderless_of_scalar fun _ => rfl

/-! ## Events -/

namespace DebugEvent

theorem orderless_ofJson? : Orderless ofJson? := by
  refine orderless_of_fields fun fs gs h => ?_
  refine h.bind _ fun _ _ hsequence => ?_
  simp only [orderless_natBelow? _ hsequence]
  refine congrArg _ (funext fun _ => h.bind _ fun _ _ htimestamp => ?_)
  simp only [orderless_natBelow? _ htimestamp]
  refine congrArg _ (funext fun _ => h.bind _ fun _ _ hsession => ?_)
  simp only [orderless_string? hsession]
  refine congrArg _ (funext fun _ => h.bind _ fun _ _ hkind => ?_)
  simp only [EventKind.orderless_ofJson? hkind, Payload.ofFields?_congr _ h]

/-- The fields of every event; the last one tells the kind of the payload. -/
def envelope : List String := ["sequence", "timestamp_ms", "session_id", "type"]

theorem names_toJson (e : DebugEvent) :
    e.toJson.names = envelope ++ e.payload.fields.map Prod.fst := by
  simp [toJson, names, Json.fields, envelope]

theorem nodup_names (e : DebugEvent) : e.toJson.names.Nodup := by
  rw [names_toJson]
  cases e.payload <;> simp [envelope, Payload.fields]

theorem ofJson?_object {e : DebugEvent} {all : List (String × Json)} {sequence timestamp : Json}
    (hsequence : lookup "sequence" all = some sequence)
    (htimestamp : lookup "timestamp_ms" all = some timestamp)
    (hsession : lookup "session_id" all = some (.string e.sessionId))
    (hkind : lookup "type" all = some (.string e.kind.name))
    (hnumber : sequence.natBelow? UInt64.size = some e.sequence.toNat)
    (htime : timestamp.natBelow? UInt64.size = some e.timestamp.toNat)
    (hpayload : Payload.ofFields? e.kind all = some e.payload) :
    ofJson? (.object all) = some e := by
  simp only [ofJson?, hsequence, htimestamp, hsession, hkind, hnumber, htime, string?,
    EventKind.ofJson?, EventKind.ofName?_name, hpayload, UInt64.ofNat_toNat, Option.bind_eq_bind,
    Option.bind_some, Option.pure_def]

theorem ofJson?_toJson (e : DebugEvent) : ofJson? e.toJson = some e := by
  have hfind := lookup_of_getElem? e.nodup_names (List.Subset.refl e.toJson.fields)
  exact ofJson?_object (hfind 0 rfl) (hfind 1 rfl) (hfind 2 rfl) (hfind 3 rfl)
    (natBelow?_ofNat e.sequence.toNat_lt_size) (natBelow?_ofNat e.timestamp.toNat_lt_size)
    (Payload.ofFields?_fields e.nodup_names (List.subset_append_right _ _))

/-- The fields of the payload stand beside those of every event, no two fields have one name, and an
event is read again from its object, with the fields in every order. -/
theorem read_back (e : DebugEvent) :
    e.toJson.names = envelope ++ e.payload.fields.map Prod.fst ∧ e.toJson.names.Nodup ∧
      (∀ p ∈ e.payload.fields, p.1 ∉ envelope) ∧
      ∀ j, Reordered e.toJson j → ofJson? j = some e := by
  refine ⟨e.names_toJson, e.nodup_names, fun p hp hmem => ?_, fun j hj => ?_⟩
  · have hnames := e.nodup_names
    rw [names_toJson] at hnames
    exact (List.nodup_append'.1 hnames).2.2 hmem (List.mem_map_of_mem hp)
  · rw [← orderless_ofJson? hj, ofJson?_toJson]

def samplePlace : ThreadPlace :=
  ⟨UInt64.ofNat (UInt64.size - 1), "main", "app.Main", "run", none, some "Main.java"⟩

/-- An exception without message, at the largest numbers. -/
def sampleThrown : DebugEvent :=
  ⟨UInt64.ofNat (UInt64.size - 1), UInt64.ofNat (UInt64.size - 1), "a",
    .exceptionThrown "app.Fault" none true samplePlace⟩

/-- The fields of the event, with those of the place from the last to the first. -/
def samplePlaceReversed : List (String × Json) :=
  sampleThrown.toJson.fields.dropLast ++ [("location", .object samplePlace.toJson.fields.reverse)]

theorem read_back_reversed :
    Reordered sampleThrown.toJson (.object samplePlaceReversed.reverse) ∧
      ofJson? (.object samplePlaceReversed.reverse) = some sampleThrown := by
  have hplace : Reordered samplePlace.toJson (.object samplePlace.toJson.fields.reverse) :=
    .order samplePlace.nodup_names (List.reverse_perm _).symm
  have hinside : Reordered
      (.object (sampleThrown.toJson.fields.dropLast ++ [("location", samplePlace.toJson)]))
      (.object samplePlaceReversed) := .inside hplace
  have hreversed : Reordered sampleThrown.toJson (.object samplePlaceReversed.reverse) :=
    hinside.trans (.order sampleThrown.nodup_names (List.reverse_perm _).symm)
  exact ⟨hreversed, sampleThrown.read_back.2.2.2 _ hreversed⟩

end DebugEvent

end JvmDebug
