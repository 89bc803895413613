import JvmDebug.Proofs.KnownTypes
import JvmDebug.Vm.Answer
import Mathlib.Data.List.Nodup

/-!
The places of a line in the code of a class. A target on the wire gives one place of the line for
each method, the first in the order of the code, so it misses the others of a line that was compiled
to several places: `Work.lists_every_place_iff`. The places that it gives are reported under the
line that was asked for: `Work.reports_line_asked_for`.
-/
namespace JvmDebug.Wire

/-! ## The best of the entries -/

/-- The entry is one of them and comes first if `R` is the order of the indices. -/
def Leads (R : UInt64 → UInt64 → Prop) (entries : List LineEntry) (e : LineEntry) : Prop :=
  e ∈ entries ∧ ∀ o ∈ entries, R e.index o.index

/-- Of the best entry so far and the next one, the one whose index comes first is kept. -/
structure Picks (R : UInt64 → UInt64 → Prop)
    (pick : Option LineEntry → LineEntry → Option LineEntry) : Prop where
  refl : ∀ i, R i i
  trans : ∀ i j k, R i j → R j k → R i k
  first : ∀ e, pick none e = some e
  next : ∀ b e, pick (some b) e = some b ∧ R b.index e.index ∨
    pick (some b) e = some e ∧ R e.index b.index

section
variable {R : UInt64 → UInt64 → Prop} {pick : Option LineEntry → LineEntry → Option LineEntry}

theorem Picks.step (hpick : Picks R pick) {seen : List LineEntry} {b : LineEntry}
    (h : Leads R seen b) (e : LineEntry) :
    ∃ b', pick (some b) e = some b' ∧ Leads R (seen ++ [e]) b' := by
  rcases hpick.next b e with ⟨hkept, hR⟩ | ⟨hnew, hR⟩
  · refine ⟨b, hkept, List.mem_append_left _ h.1, List.forall_mem_append.2 ⟨h.2, ?_⟩⟩
    exact List.forall_mem_singleton.2 hR
  · refine ⟨e, hnew, List.mem_append_right _ List.mem_cons_self, List.forall_mem_append.2 ⟨?_, ?_⟩⟩
    · exact fun o ho => hpick.trans _ _ _ hR (h.2 o ho)
    · exact List.forall_mem_singleton.2 (hpick.refl _)

theorem Picks.run (hpick : Picks R pick) {seen : List LineEntry} {b : LineEntry}
    (h : Leads R seen b) (entries : List LineEntry) :
    ∃ e, entries.foldl pick (some b) = some e ∧ Leads R (seen ++ entries) e := by
  induction entries generalizing seen b with
  | nil => exact ⟨b, rfl, by rwa [List.append_nil]⟩
  | cons o entries ih =>
    obtain ⟨b', hb', hleads⟩ := hpick.step h o
    rw [List.foldl_cons, hb', List.append_cons]
    exact ih hleads

theorem Picks.leads (hpick : Picks R pick) {entries : List LineEntry} (hne : entries ≠ []) :
    ∃ e, entries.foldl pick none = some e ∧ Leads R entries e := by
  cases entries with
  | nil => contradiction
  | cons b entries =>
    rw [List.foldl_cons, hpick.first]
    have hb : Leads R [b] b :=
      ⟨List.mem_cons_self, List.forall_mem_singleton.2 (hpick.refl _)⟩
    exact hpick.run hb entries

end

namespace LineTable

theorem picks_earlier : Picks (· ≤ ·) earlier where
  refl _ := UInt64.le_refl _
  trans _ _ _ := UInt64.le_trans
  first _ := rfl
  next b e := by
    simp only [earlier]
    split
    · next hlt => exact .inr ⟨rfl, UInt64.le_of_lt hlt⟩
    · next hge => exact .inl ⟨rfl, UInt64.not_lt.1 hge⟩

theorem picks_later : Picks (· ≥ ·) later where
  refl _ := UInt64.le_refl _
  trans _ _ _ hij hjk := UInt64.le_trans hjk hij
  first _ := rfl
  next b e := by
    simp only [later]
    split
    · next hle => exact .inr ⟨rfl, hle⟩
    · next hgt => exact .inl ⟨rfl, UInt64.le_of_lt (UInt64.not_le.1 hgt)⟩

/-! ## Lines and indices -/

/-- The entries that map to the line. -/
def entriesOf (t : LineTable) (line : UInt32) : List LineEntry :=
  t.lines.filter fun e => e.line.toInt = (line.toNat : Int)

theorem mem_entriesOf {t : LineTable} {line : UInt32} {e : LineEntry} :
    e ∈ t.entriesOf line ↔ e ∈ t.lines ∧ e.line.toInt = (line.toNat : Int) := by
  simp [entriesOf]

/-- The index of a line is the least one of its entries. -/
theorem indexOf?_eq_some_iff {t : LineTable} {line : UInt32} {index : UInt64} :
    t.indexOf? line = some index ↔ ∃ e, e.index = index ∧ Leads (· ≤ ·) (t.entriesOf line) e := by
  show ((t.entriesOf line).foldl earlier none).map LineEntry.index = some index ↔ _
  by_cases hne : t.entriesOf line = []
  · rw [hne]
    exact ⟨fun h => (by cases h), fun ⟨e, _, hmem, _⟩ => absurd hmem List.not_mem_nil⟩
  · obtain ⟨e, he, hleads⟩ := picks_earlier.leads hne
    rw [he, Option.map_some, Option.some.injEq]
    constructor
    · exact fun hindex => ⟨e, hindex, hleads⟩
    · rintro ⟨o, rfl, ho⟩
      exact UInt64.le_antisymm (hleads.2 o ho.1) (ho.2 e hleads.1)

/-- At the index of an entry the line is that of the entry, unless another has the same index. -/
theorem lineAt?_of_mem {t : LineTable} (hnodup : (t.lines.map LineEntry.index).Nodup)
    {line : UInt32} {e : LineEntry} (he : e ∈ t.entriesOf line) :
    t.lineAt? e.index = some line := by
  obtain ⟨hmem, hline⟩ := mem_entriesOf.1 he
  have hreached : e ∈ t.lines.filter fun o => o.index ≤ e.index := by simp [hmem]
  obtain ⟨b, hb, hreachedb, hleads⟩ := picks_later.leads (List.ne_nil_of_mem hreached)
  obtain ⟨hbmem, hle⟩ := List.mem_filter.1 hreachedb
  obtain rfl : b = e := List.inj_on_of_nodup_map hnodup hbmem hmem
    (UInt64.le_antisymm (of_decide_eq_true hle) (hleads e hreached))
  have hnumber : UInt32.ofInt b.line.toInt = line := by
    have := line.toNat_lt
    rw [hline, UInt32.ofInt, Int.emod_eq_of_lt (by omega) (by omega), Int.toNat_natCast,
      UInt32.ofNat_toNat]
  rw [lineAt?, hb, Option.bind_some, if_pos (by omega), hnumber]

end LineTable

/-! ## The code of a class -/

/-- What a machine tells of the code of a class: of a method without lines it gives an error. -/
structure Code where
  signature : String
  methods : List Member
  table : MethodId → Except UInt16 LineTable

namespace Code
variable {ω : Type} {serve : (c : Command) → ω → c.Reply × ω} {c : TypeId}

structure ServedBy (k : Code) (c : TypeId) (serve : (c : Command) → ω → c.Reply × ω) : Prop where
  signature : ∀ x, (serve (.signature c) x).1 = .ok k.signature
  methods : ∀ x, (serve (.methods c) x).1 = .ok k.methods
  table : ∀ m x, (serve (.lineTable c m) x).1 = (k.table m).mapError .vm

variable (k : Code)

/-- The kind of the class in a target: the one it remembers, or else what the signature suggests. -/
def kindIn (c : TypeId) (s : TargetState) : TypeKind :=
  ((s.types.get? c).map TypeInfo.kind).getD
    (if isArraySignature k.signature then .array else .classType)

/-- The target takes the class to be of the kind. Of the methods it remembers those of the code, or
nothing. -/
structure SeenAs (c : TypeId) (kind : TypeKind) (s : TargetState) : Prop where
  kind : k.kindIn c s = kind
  declared : ∀ ms, s.declared.get? c = some ms → ms = k.methods

/-- Every place in a method of the class that maps to the line. -/
def placesOf (tag : UInt8) (c : TypeId) (line : UInt32) : List Location :=
  k.methods.flatMap fun m =>
    ((k.table m.id).toOption.map (·.entriesOf line)).toList.flatten.map fun e =>
      ⟨tag, c, m.id, e.index⟩

/-- The first place of the line in each method that has one. -/
def startsOf (tag : UInt8) (c : TypeId) (line : UInt32) : List Location :=
  k.methods.filterMap fun m =>
    ((k.table m.id).toOption.bind (·.indexOf? line)).map fun index => ⟨tag, c, m.id, index⟩

variable {k} {tag : UInt8} {line : UInt32} {l : Location}

theorem mem_placesOf : l ∈ k.placesOf tag c line ↔ ∃ m ∈ k.methods, ∃ t, k.table m.id = .ok t ∧
    ∃ e ∈ t.entriesOf line, l = ⟨tag, c, m.id, e.index⟩ := by
  simp only [placesOf, List.mem_flatMap]
  refine exists_congr fun m => and_congr_right fun _ => ?_
  cases k.table m.id with
  | error e => simp [Except.toOption]
  | ok t => simp [Except.toOption, eq_comm]

theorem mem_startsOf : l ∈ k.startsOf tag c line ↔ ∃ m ∈ k.methods, ∃ t, k.table m.id = .ok t ∧
    ∃ e, Leads (· ≤ ·) (t.entriesOf line) e ∧ l = ⟨tag, c, m.id, e.index⟩ := by
  simp only [startsOf, List.mem_filterMap]
  refine exists_congr fun m => and_congr_right fun _ => ?_
  cases k.table m.id with
  | error e => simp [Except.toOption]
  | ok t =>
    simp only [Except.toOption, Option.bind_some, Option.map_eq_some_iff,
      LineTable.indexOf?_eq_some_iff]
    constructor
    · rintro ⟨index, ⟨e, rfl, he⟩, rfl⟩
      exact ⟨t, rfl, e, he, rfl⟩
    · rintro ⟨t', ht, e, he, rfl⟩
      cases ht
      exact ⟨e.index, ⟨e, rfl, he⟩, rfl⟩

theorem eq_of_mem_placesOf {o : Location} (ho : o ∈ k.placesOf tag c line)
    (hl : l ∈ k.placesOf tag c line) (hmethod : o.methodId = l.methodId)
    (hindex : o.index = l.index) : o = l := by
  obtain ⟨m, -, t, -, e, -, rfl⟩ := mem_placesOf.1 ho
  obtain ⟨m', -, t', -, e', -, rfl⟩ := mem_placesOf.1 hl
  simp only at hmethod hindex
  rw [hmethod, hindex]

/-- The places of which none comes before them in their method. -/
theorem mem_startsOf_iff : l ∈ k.startsOf tag c line ↔ l ∈ k.placesOf tag c line ∧
    ∀ o ∈ k.placesOf tag c line, o.methodId = l.methodId → l.index ≤ o.index := by
  constructor
  · intro hl
    obtain ⟨m, hm, t, ht, e, he, rfl⟩ := mem_startsOf.1 hl
    refine ⟨mem_placesOf.2 ⟨m, hm, t, ht, e, he.1, rfl⟩, fun o ho hsame => ?_⟩
    obtain ⟨m', -, t', ht', e', he', rfl⟩ := mem_placesOf.1 ho
    have hid : m'.id = m.id := hsame
    rw [hid, ht] at ht'
    cases ht'
    exact he.2 e' he'
  · rintro ⟨hl, hfirst⟩
    obtain ⟨m, hm, t, ht, e, he, rfl⟩ := mem_placesOf.1 hl
    refine mem_startsOf.2 ⟨m, hm, t, ht, e, ⟨he, fun o ho => ?_⟩, rfl⟩
    exact hfirst ⟨tag, c, m.id, o.index⟩ (mem_placesOf.2 ⟨m, hm, t, ht, o, ho, rfl⟩) rfl

theorem find?_method (hids : (k.methods.map Member.id).Nodup) {m : Member} (hm : m ∈ k.methods) :
    (k.methods.find? fun o => o.id == m.id) = some m := by
  obtain ⟨o, ho⟩ := Option.isSome_iff_exists.1
    (List.find?_isSome (p := fun o => o.id == m.id).2 ⟨m, hm, beq_self_eq_true _⟩)
  have hid : o.id = m.id := by simpa using List.find?_some ho
  rwa [List.inj_on_of_nodup_map hids (List.mem_of_find?_eq_some ho) hm hid] at ho

end Code

/-! ## Routines that succeed -/

namespace Work
variable {ω α β : Type} {serve : (c : Command) → ω → c.Reply × ω} {I : TargetState → Prop}
  {w : Work α} {Q : α → Prop} {R : β → Prop}

/-- In a state with `I` the routine comes to a result with `Q`, whatever else becomes of the
machine, and leaves a state with `I`. -/
def Succeeds (serve : (c : Command) → ω → c.Reply × ω) (I : TargetState → Prop) (w : Work α)
    (Q : α → Prop) : Prop :=
  ∀ s x, I s → ∃ a s' x', (ExceptT.run w).run serve s x = (.ok a, s', x') ∧ I s' ∧ Q a

theorem Succeeds.bind {g : α → Work β} (h : w.Succeeds serve I Q)
    (hg : ∀ a, Q a → (g a).Succeeds serve I R) : (w >>= g).Succeeds serve I R := by
  intro s x hs
  obtain ⟨a, s', x', hrun, hs', ha⟩ := h s x hs
  rw [run_andThen, hrun]
  exact hg a ha s' x' hs'

theorem succeeds_pure {a : α} (ha : Q a) : (pure a : Work α).Succeeds serve I Q :=
  fun s x hs => ⟨a, s, x, rfl, hs, ha⟩

theorem succeeds_state : state.Succeeds serve I I := fun s x hs => ⟨s, s, x, rfl, hs, hs⟩

theorem succeeds_update {f : TargetState → TargetState} (h : ∀ s, I s → I (f s)) :
    (update f).Succeeds serve I fun _ => True :=
  fun s x hs => ⟨(), f s, x, rfl, h s hs, trivial⟩

theorem succeeds_ask {c : Command} {a : c.Answer} (h : ∀ x, (serve c x).1 = .ok a) :
    (ask c).Succeeds serve I (· = a) := by
  intro s x hs
  refine ⟨a, s, (serve c x).2, ?_, hs, rfl⟩
  rw [ask, run_askAs, h x]
  rfl

theorem succeeds_attempt (c : Command) :
    (attempt c).Succeeds serve I fun r => ∃ x, r = (serve c x).1 :=
  fun s x hs => ⟨(serve c x).1, s, (serve c x).2, rfl, hs, x, rfl⟩

section
variable {k : Code} {c : TypeId} {kind : TypeKind} (h : k.ServedBy c serve)
include h

theorem succeeds_typeInfo :
    (typeInfo c none).Succeeds serve (k.SeenAs c kind) fun info => info.kind = kind := by
  intro s x hs
  have hkind := hs.kind
  rw [typeInfo, run_andThen, run_state]
  dsimp only
  cases hknown : s.types.get? c with
  | some info =>
    rw [Code.kindIn, hknown] at hkind
    exact ⟨info, s, x, rfl, hs, hkind⟩
  | none =>
    rw [Code.kindIn, hknown] at hkind
    dsimp only
    rw [run_andThen, ask, run_askAs, h.signature]
    refine ⟨_, _, _, rfl, ⟨?_, hs.declared⟩, hkind⟩
    rw [Code.kindIn, Dict.get?_insert, if_pos rfl]
    exact hkind

theorem succeeds_declaredMethods :
    (declaredMethods c).Succeeds serve (k.SeenAs c kind) (· = k.methods) := by
  refine succeeds_state.bind fun s hs => ?_
  cases hknown : s.declared.get? c with
  | some methods => exact succeeds_pure (hs.declared methods hknown)
  | none =>
    refine (succeeds_ask h.methods).bind fun methods hmethods => ?_
    refine Succeeds.bind (succeeds_update fun s hs => ⟨hs.kind, fun ms hms => ?_⟩) fun _ _ =>
      succeeds_pure hmethods
    simp only [Dict.get?_insert, if_true, Option.some.injEq] at hms
    rw [← hms, hmethods]

theorem succeeds_lineTable? (m : MethodId) :
    (lineTable? c m).Succeeds serve I (· = (k.table m).toOption) := by
  refine (succeeds_attempt (.lineTable c m)).bind fun reply ⟨x, hreply⟩ => ?_
  rw [h.table m x] at hreply
  subst hreply
  cases k.table m with
  | ok t => exact succeeds_pure rfl
  | error e => exact succeeds_pure rfl

theorem succeeds_lineStarts (tag : UInt8) (line : UInt32) (members : List Member) :
    (lineStarts tag c line members).Succeeds serve I (· = members.filterMap fun m =>
      ((k.table m.id).toOption.bind (·.indexOf? line)).map fun index => ⟨tag, c, m.id, index⟩) := by
  induction members with
  | nil => exact succeeds_pure rfl
  | cons m members ih =>
    refine (succeeds_lineTable? h m.id).bind fun table htable => ?_
    refine ih.bind fun others hothers => succeeds_pure ?_
    rw [htable, hothers, List.filterMap_cons]
    cases (k.table m.id).toOption.bind (·.indexOf? line) <;> rfl

theorem succeeds_lineLocations (line : UInt32) :
    (answer (.lineLocations c line)).Succeeds serve (k.SeenAs c kind)
      (· = k.startsOf kind.tag c line) := by
  refine (succeeds_typeInfo h).bind fun info hinfo => ?_
  refine (succeeds_declaredMethods h).bind fun methods hmethods => ?_
  rw [hinfo, hmethods]
  exact succeeds_lineStarts h kind.tag line k.methods

theorem succeeds_place {l : Location} (hl : l.classId = c) :
    (answer (.place l)).Succeeds serve (k.SeenAs c kind) fun p =>
      p.methodName = ((k.methods.find? fun m => m.id == l.methodId).map Member.name).getD "" ∧
      p.line = (k.table l.methodId).toOption.bind (·.lineAt? l.index) := by
  subst hl
  refine (succeeds_typeInfo h).bind fun info _ => ?_
  refine (succeeds_declaredMethods h).bind fun methods hmethods => ?_
  refine (succeeds_lineTable? h l.methodId).bind fun table htable => ?_
  refine (succeeds_attempt _).bind fun source _ => succeeds_pure ?_
  exact ⟨by rw [hmethods], by rw [htable]⟩

/-! ## The places of a line -/

/-- A target on the wire gives the first place of the line in each method. So it gives every place
of the line, as the machine in memory does with the same code, if and only if no method has two. -/
theorem lists_every_place_iff {s : TargetState} (hs : k.SeenAs c kind s) (line : UInt32) (x : ω) :
    let places := k.placesOf kind.tag c line
    ∃ ls, ((ExceptT.run (answer (.lineLocations c line))).run serve s x).1 = .ok ls ∧
      (∀ l, l ∈ ls ↔
        l ∈ places ∧ ∀ o ∈ places, o.methodId = l.methodId → l.index ≤ o.index) ∧
      ((∀ l ∈ places, l ∈ ls) ↔ ∀ l ∈ places, ∀ o ∈ places, o.methodId = l.methodId → o = l) ∧
      ∀ (vm : Vm) (v : VmClass), vm.classes.get? c = some v →
        (∀ l, (line, l) ∈ v.lines ↔ l ∈ places) →
        ∃ all, (vm.answer (.lineLocations c line)).1 = .ok all ∧ ∀ l, l ∈ all ↔ l ∈ places := by
  intro places
  obtain ⟨ls, s', x', hrun, -, rfl⟩ := succeeds_lineLocations h line s x hs
  have hmem (l : Location) : l ∈ k.startsOf kind.tag c line ↔
      l ∈ places ∧ ∀ o ∈ places, o.methodId = l.methodId → l.index ≤ o.index :=
    Code.mem_startsOf_iff
  refine ⟨_, by rw [hrun], hmem, ⟨fun hall l hl o ho hsame => ?_, fun honce l hl => ?_⟩, ?_⟩
  · have hle := ((hmem l).1 (hall l hl)).2 o ho hsame
    have hge := ((hmem o).1 (hall o ho)).2 l hl hsame.symm
    exact Code.eq_of_mem_placesOf ho hl hsame (UInt64.le_antisymm hge hle)
  · refine (hmem l).2 ⟨hl, fun o ho hsame => ?_⟩
    rw [honce l hl o ho hsame]
    exact UInt64.le_refl _
  · intro vm v hv hlines
    refine ⟨_, rfl, fun l => ?_⟩
    rw [hv, ← hlines, Option.map_some, Option.getD_some]
    simp only [List.mem_map, List.mem_filter, beq_iff_eq]
    constructor
    · rintro ⟨⟨_, _⟩, ⟨hl, rfl⟩, rfl⟩
      exact hl
    · exact fun hl => ⟨_, ⟨hl, rfl⟩, rfl⟩

/-- If the ids of the methods differ, and the indices in each table, then a place that was given for
a line is reported under that line and under the name of its method. -/
theorem reports_line_asked_for (hids : (k.methods.map Member.id).Nodup)
    (hindices : ∀ m ∈ k.methods, ∀ t, k.table m.id = .ok t → (t.lines.map LineEntry.index).Nodup)
    {s : TargetState} (hs : k.SeenAs c kind s) (line : UInt32) (x : ω) :
    ∃ ls s' x', (ExceptT.run (answer (.lineLocations c line))).run serve s x = (.ok ls, s', x') ∧
      k.SeenAs c kind s' ∧
      ∀ l ∈ ls, ∃ m ∈ k.methods, m.id = l.methodId ∧
        ∀ kind' t y, k.SeenAs c kind' t →
          ∃ p, ((ExceptT.run (answer (.place l))).run serve t y).1 = .ok p ∧
            p.line = some line ∧ p.methodName = m.name := by
  obtain ⟨ls, s', x', hrun, hs', rfl⟩ := succeeds_lineLocations h line s x hs
  refine ⟨_, s', x', hrun, hs', fun l hl => ?_⟩
  obtain ⟨m, hm, table, htable, e, he, rfl⟩ := Code.mem_startsOf.1 hl
  refine ⟨m, hm, rfl, fun kind' t y ht => ?_⟩
  obtain ⟨p, t', y', hplace, -, hname, hline⟩ 
    := succeeds_place h (l := ⟨kind.tag, c, m.id, e.index⟩) rfl t y ht
  refine ⟨p, by rw [hplace], ?_, ?_⟩
  · rw [hline, htable]
    exact LineTable.lineAt?_of_mem (hindices m hm table htable) he.1
  · rw [hname, Code.find?_method hids hm]
    rfl

end

end Work

/-! ## A line compiled to several places -/

/-- A machine with the code of one class. -/
def Code.machine (k : Code) : (c : Command) → Unit → c.Reply × Unit
  | .signature _, x => (.ok k.signature, x)
  | .methods _, x => (.ok k.methods, x)
  | .lineTable _ m, x => ((k.table m).mapError .vm, x)
  | _, x => (.error (.vm WireError.absentInformation), x)

theorem Code.machine_served (k : Code) (c : TypeId) : k.ServedBy c k.machine where
  signature _ := rfl
  methods _ := rfl
  table _ _ := rfl

theorem Code.seenAs_empty (k : Code) (c : TypeId) (hsignature : ¬ isArraySignature k.signature) :
    k.SeenAs c .classType {} where
  kind := if_neg hsignature
  declared _ h := by cases h

/-- A method with two entries for line 7, as a block `finally` has them. -/
def finallyTwice : Code where
  signature := "Lapp/Main;"
  methods := [⟨400, "run", "()V", 1⟩]
  table _ := .ok ⟨0, 12, [⟨0, 5⟩, ⟨4, 7⟩, ⟨9, 7⟩]⟩

/-- With two entries for line 7 in a method, the second place of the line is missed. -/
theorem second_place_missed :
    finallyTwice.ServedBy 300 finallyTwice.machine ∧ finallyTwice.SeenAs 300 .classType {} ∧
      finallyTwice.placesOf 1 300 7 = [⟨1, 300, 400, 4⟩, ⟨1, 300, 400, 9⟩] ∧
      ((ExceptT.run (Work.answer (.lineLocations 300 7))).run finallyTwice.machine {} ()).1 =
        .ok [⟨1, 300, 400, 4⟩] :=
  ⟨finallyTwice.machine_served 300, finallyTwice.seenAs_empty 300 (by decide), by decide, by rfl⟩

/-- Two methods whose tables run against the code, and a native one. -/
def backwards : Code where
  signature := "Lapp/Main;"
  methods := [⟨400, "run", "()V", 1⟩, ⟨401, "stop", "()V", 1⟩, ⟨402, "exit", "()V", 0x101⟩]
  table m :=
    if m = 400 then .ok ⟨0, 12, [⟨9, 8⟩, ⟨4, 7⟩, ⟨0, 6⟩]⟩
    else if m = 401 then .ok ⟨0, 6, [⟨3, 8⟩, ⟨2, 7⟩]⟩
    else .error 511

theorem places_in_two_methods :
    backwards.ServedBy 300 backwards.machine ∧ backwards.SeenAs 300 .classType {} ∧
      ∃ ls, ((ExceptT.run (Work.answer (.lineLocations 300 7))).run backwards.machine {} ()).1 =
        .ok ls ∧ ∀ l, l ∈ ls ↔ l = ⟨1, 300, 400, 4⟩ ∨ l = ⟨1, 300, 401, 2⟩ := by
  have hserved := backwards.machine_served 300
  have hseen := backwards.seenAs_empty 300 (by decide)
  obtain ⟨ls, hls, hmem, hall, -⟩ := Work.lists_every_place_iff hserved hseen 7 ()
  have hplaces : backwards.placesOf TypeKind.classType.tag 300 7 =
    [⟨1, 300, 400, 4⟩, ⟨1, 300, 401, 2⟩] := by decide
  rw [hplaces] at hmem hall
  refine ⟨hserved, hseen, ls, hls, fun l => ⟨fun hl => ?_, fun hl => ?_⟩⟩
  · simpa using ((hmem l).1 hl).1
  · exact hall.2 (by decide) l (by simpa using hl)

theorem line_seven_reported :
    backwards.ServedBy 300 backwards.machine ∧ backwards.SeenAs 300 .classType {} ∧
      ∃ ls s' x', (ExceptT.run (Work.answer (.lineLocations 300 7))).run backwards.machine {} () =
        (.ok ls, s', x') ∧
        ∀ l ∈ ls, ∃ m ∈ backwards.methods, m.id = l.methodId ∧
          ∃ p, ((ExceptT.run (Work.answer (.place l))).run backwards.machine s' x').1 = .ok p ∧
            p.line = some 7 ∧ p.methodName = m.name := by
  have hserved := backwards.machine_served 300
  have hseen := backwards.seenAs_empty 300 (by decide)
  have hindices : ∀ m ∈ backwards.methods, ∀ t, backwards.table m.id = .ok t →
      (t.lines.map LineEntry.index).Nodup := by
    intro m hm t ht
    simp only [backwards, List.mem_cons, List.not_mem_nil, or_false] at hm
    rcases hm with rfl | rfl | rfl <;> cases ht <;> decide
  obtain ⟨ls, s', x', hrun, hs', hall⟩ :=
    Work.reports_line_asked_for hserved (by decide) hindices hseen 7 ()
  refine ⟨hserved, hseen, ls, s', x', hrun, fun l hl => ?_⟩
  obtain ⟨m, hm, hid, hplace⟩ := hall l hl
  exact ⟨m, hm, hid, hplace _ s' x' hs'⟩

end JvmDebug.Wire
