import JvmDebug.Proofs.TidyTables

/-!
A breakpoint table after any run of operations on it. Its maps index each other, and a breakpoint
that was taken from those that wait is on its way until its requests are booked; it may be removed
meanwhile. Where new breakpoints and requests are new, and each taken breakpoint is booked once at
most, the maps agree at every time: `TableHistory.consistent_of_fair`.
-/
namespace JvmDebug

/-! ## Runs -/

inductive TableEdit
  | insertInstalled (b : Breakpoint) (requests : List RequestId)
  | insertPending (b : Breakpoint) (watch : RequestId)
  | takePending (className : String)
  | materialize (id : String) (requests : List RequestId)
  | recordHit (r : RequestId)
  | setEnabled (id : String) (enabled : Bool)
  | remove (id : String)
  | clear
  deriving DecidableEq, Repr

/-- The ids of the breakpoints that are handed out when those that wait for a class are taken. -/
def BreakpointTable.handedOut (t : BreakpointTable) (className : String) : List String :=
  match (t.takePending className).1 with
  | some (_, breakpoints) => breakpoints.map Breakpoint.id
  | none => []

/-- A table with what was done to it: the ids that were inserted, the requests that came with
breakpoints, the ids that were handed out and those of them that were booked since. -/
structure TableHistory where
  table : BreakpointTable := {}
  inserted : List String := []
  requested : List RequestId := []
  handed : List String := []
  booked : List String := []

namespace TableHistory

def next (h : TableHistory) : TableEdit → TableHistory
  | .insertInstalled b requests =>
    { h with
      table := h.table.insertInstalled b requests
      inserted := h.inserted ++ [b.id]
      requested := h.requested ++ requests }
  | .insertPending b watch =>
    { h with
      table := h.table.insertPending b watch
      inserted := h.inserted ++ [b.id] }
  | .takePending className =>
    { h with
      table := (h.table.takePending className).2
      handed := h.handed ++ h.table.handedOut className }
  | .materialize id requests =>
    { h with
      table := (h.table.materialize id requests).2
      requested := h.requested ++ requests
      booked := h.booked ++ [id] }
  | .recordHit r => { h with table := (h.table.recordHit r).2 }
  | .setEnabled id enabled => { h with table := (h.table.setEnabled id enabled).2 }
  | .remove id => { h with table := (h.table.remove id).2 }
  | .clear => { h with table := {} }

def run (h : TableHistory) (edits : List TableEdit) : TableHistory := edits.foldl next h

/-- New ids and requests were never seen before, and only breakpoints that were handed out are
booked, each once. -/
def Allows (h : TableHistory) : TableEdit → Prop
  | .insertInstalled b requests => b.id ∉ h.inserted ∧ ∀ r ∈ requests, r ∉ h.requested
  | .insertPending b _ => b.id ∉ h.inserted
  | .materialize id requests =>
    id ∈ h.handed ∧ id ∉ h.booked ∧ ∀ r ∈ requests, r ∉ h.requested
  | _ => True

def Fair (h : TableHistory) : List TableEdit → Prop
  | [] => True
  | e :: edits => h.Allows e ∧ (h.next e).Fair edits

-- the list is run through, and not all requests that there could be
instance decidableNew (h : TableHistory) (requests : List RequestId) :
    Decidable (∀ r ∈ requests, r ∉ h.requested) := List.decidableBAll _ requests

instance (h : TableHistory) : (e : TableEdit) → Decidable (h.Allows e)
  | .insertInstalled b requests =>
    have := h.decidableNew requests
    inferInstanceAs (Decidable (b.id ∉ h.inserted ∧ _))
  | .insertPending b _ => inferInstanceAs (Decidable (b.id ∉ h.inserted))
  | .materialize id requests =>
    have := h.decidableNew requests
    inferInstanceAs (Decidable (id ∈ h.handed ∧ id ∉ h.booked ∧ _))
  | .takePending _ | .recordHit _ | .setEnabled _ _ | .remove _ | .clear => isTrue trivial

instance decidableFair : (edits : List TableEdit) → (h : TableHistory) → Decidable (h.Fair edits)
  | [], _ => isTrue trivial
  | e :: edits, h =>
    have := decidableFair edits (h.next e)
    inferInstanceAs (Decidable (_ ∧ _))

end TableHistory

/-! ## What agrees -/

/-- The breakpoint is one of those that wait behind the watch of the class. -/
def BreakpointTable.Waits (t : BreakpointTable) (id name : String) : Prop :=
  ∃ p, t.pending.get? name = some p ∧ id ∈ p.ids

/-- The breakpoint was handed out, and its requests are not booked yet. -/
def TableHistory.InFlight (h : TableHistory) (id : String) : Prop := id ∈ h.handed ∧ id ∉ h.booked

/-- The maps of the table agree with each other and with what was done. -/
structure TableHistory.Consistent (h : TableHistory) : Prop where
  /-- A request is found under the breakpoint that lists it. -/
  indexed : ∀ r id, h.table.owners.get? r = some id ↔
    ∃ e, h.table.entries.get? id = some e ∧ r ∈ e.requests
  /-- No request is that of two breakpoints. -/
  apart : ∀ id e id' e', h.table.entries.get? id = some e → h.table.entries.get? id' = some e' →
    ∀ r ∈ e.requests, r ∈ e'.requests → id = id'
  /-- A class is watched for breakpoints on it that are pending and have no requests, each counted
  once. -/
  waiting : ∀ name p, h.table.pending.get? name = some p → p.ids ≠ [] ∧ p.ids.Nodup ∧
    ∀ id ∈ p.ids, ∃ e, h.table.entries.get? id = some e ∧ e.breakpoint.className = name ∧
      e.breakpoint.pending = true ∧ e.requests = []
  /-- The places of a breakpoint are as many as its requests. -/
  resolved : ∀ id e, h.table.entries.get? id = some e →
    e.breakpoint.resolvedLocations = e.requests.length
  /-- No breakpoint was ever handed out twice. -/
  once : h.handed.Nodup
  /-- A breakpoint is pending while it waits and while it is on its way. -/
  pending : ∀ id e, h.table.entries.get? id = some e → (e.breakpoint.pending = true ↔
    h.table.Waits id e.breakpoint.className ∨ h.InFlight id)
  /-- A watch comes back with the last breakpoint that waits behind it. -/
  watch : ∀ id requests watch, (h.table.remove id).1 = some (requests, some watch) ↔
    ∃ e p, h.table.entries.get? id = some e ∧ e.requests = requests ∧
      h.table.pending.get? e.breakpoint.className = some p ∧ p.watch = watch ∧ p.ids = [id]
  /-- The breakpoints that are left are listed as they were inserted. -/
  listed : h.table.toList.map Breakpoint.id = h.inserted.filter h.table.entries.contains

/-- What the history says of a breakpoint in the table. -/
structure TableHistory.Knows (h : TableHistory) (id : String) (e : BreakpointEntry) : Prop where
  named : e.breakpoint.id = id
  inserted : id ∈ h.inserted
  requested : ∀ r ∈ e.requests, r ∈ h.requested
  resolved : e.breakpoint.resolvedLocations = e.requests.length
  blank : e.breakpoint.pending = true → e.requests = []
  pending : e.breakpoint.pending = true ↔
    h.table.Waits id e.breakpoint.className ∨ h.InFlight id

/-- What every operation keeps. -/
structure TableHistory.Books (h : TableHistory) : Prop where
  tidy : h.table.Tidy
  indexed : h.table.Indexed
  knows : ∀ id e, h.table.entries.get? id = some e → h.Knows id e
  queued : ∀ name p, h.table.pending.get? name = some p → p.ids.Nodup ∧ ∀ id ∈ p.ids, id ∉ h.handed
  once : h.handed.Nodup
  handed : ∀ id ∈ h.handed, id ∈ h.inserted
  booked : ∀ id ∈ h.booked, id ∈ h.handed
  listed : h.table.entries.keys = h.inserted.filter h.table.entries.contains

/-! ## Keys -/

namespace Dict
variable {κ ν : Type} [DecidableEq κ] {d : Dict κ ν} {k : κ}

theorem keys_insert (h : d.get? k = none) (v : ν) : (d.insert k v).keys = d.keys ++ [k] := by
  rw [keys, insert_entries_of_none h, List.map_append, List.map_singleton]
  rfl

theorem keys_modify (d : Dict κ ν) (k : κ) (f : ν → ν) : (d.modify k f).keys = d.keys := by
  rw [keys, modify, List.map_map]
  refine List.map_congr_left fun p _ => ?_
  rw [Function.comp_apply]
  split <;> rfl

theorem keys_erase (d : Dict κ ν) (k : κ) : (d.erase k).keys = d.keys.filter (· ≠ k) := by
  rw [keys, keys, erase, List.filter_map]
  rfl

theorem contains_insert (d : Dict κ ν) (k j : κ) (v : ν) :
    (d.insert k v).contains j = (decide (j = k) || d.contains j) := by
  rw [contains, get?_insert]
  by_cases h : j = k <;> simp [h, contains]

theorem contains_modify (d : Dict κ ν) (k j : κ) (f : ν → ν) :
    (d.modify k f).contains j = d.contains j := by
  rw [contains, get?_modify]
  by_cases h : j = k <;> simp [h, contains]

theorem contains_erase (d : Dict κ ν) (k j : κ) :
    (d.erase k).contains j = (decide (j ≠ k) && d.contains j) := by
  rw [contains, get?_erase]
  by_cases h : j = k <;> simp [h, contains]

end Dict

theorem PendingClass.mem_without? {id other : String} {p : PendingClass} :
    (∃ p', p.without? id = some p' ∧ other ∈ p'.ids) ↔ other ∈ p.ids ∧ other ≠ id := by
  have hmem : other ∈ p.ids.filter (· ≠ id) ↔ other ∈ p.ids ∧ other ≠ id := by simp
  rw [← hmem]
  constructor
  · rintro ⟨p', hp', hother⟩
    rwa [← (PendingClass.without?_eq_some hp').1]
  · intro hother
    have hsome : ¬(p.ids.filter (· ≠ id)).isEmpty := fun hnone =>
      List.ne_nil_of_mem hother (List.isEmpty_iff.1 hnone)
    exact ⟨_, if_neg hsome, hother⟩

/-- Nobody but this one waits. -/
theorem PendingClass.alone_iff {p : PendingClass} (hnodup : p.ids.Nodup) (hne : p.ids ≠ [])
    (id : String) : (p.ids.filter (· ≠ id)).isEmpty ↔ p.ids = [id] := by
  rw [List.isEmpty_iff, List.filter_eq_nil_iff]
  simp only [ne_eq, decide_not, Bool.not_eq_true', decide_eq_false_iff_not, not_not]
  refine ⟨fun hall => ?_, fun hids other hother => List.mem_singleton.1 (hids ▸ hother)⟩
  cases hids : p.ids with
  | nil => exact (hne hids).elim
  | cons first rest =>
    rw [hids] at hall hnodup
    obtain ⟨rfl, hrest⟩ := List.forall_mem_cons.1 hall
    have hnone : rest = [] := List.eq_nil_iff_forall_not_mem.2 fun other hother =>
      (List.nodup_cons.1 hnodup).1 (hrest other hother ▸ hother)
    rw [hnone]

/-! ## What an operation changes -/

/-- The entry with requests added, and no longer pending. -/
def BreakpointEntry.book (requests : List RequestId) (e : BreakpointEntry) : BreakpointEntry where
  requests := e.requests ++ requests
  breakpoint := { e.breakpoint with
    pending := false
    resolvedLocations := (e.requests ++ requests).length }

namespace BreakpointTable
variable {t : BreakpointTable} {id name other : String}

theorem waits_insertPending {b : Breakpoint} {watch : RequestId} :
    (t.insertPending b watch).Waits id name ↔ t.Waits id name ∨ id = b.id ∧ name = b.className := by
  rw [Waits, get?_pending_insertPending]
  by_cases hname : name = b.className
  · subst hname
    simp only [if_true, Option.some.injEq, exists_eq_left', and_true, Waits]
    cases t.pending.get? b.className <;> simp
  · simp [hname, Waits]

theorem entries_materialize (t : BreakpointTable) (id : String) (requests : List RequestId) :
    (t.materialize id requests).2.entries = t.entries.modify id (.book requests) := by
  cases he : t.entries.get? id with
  | none =>
    simp only [materialize, he]
    exact (Dict.modify_of_none he _).symm
  | some e =>
    simp only [materialize, he]
    refine Dict.eq_of_entries (List.map_congr_left fun p hp => ?_)
    split
    · next hid =>
      have hp : t.entries.get? id = some p.2 := Dict.mem_entries.1 (hid ▸ hp)
      obtain rfl := Option.some.inj (he.symm.trans hp)
      rfl
    · rfl

theorem pending_materialize (t : BreakpointTable) (id : String) (requests : List RequestId) :
    (t.materialize id requests).2.pending = t.pending := by
  rw [materialize]
  split <;> rfl

theorem entries_takePending (t : BreakpointTable) (name : String) :
    (t.takePending name).2.entries = t.entries := by
  rw [takePending]
  split <;> rfl

theorem get?_pending_takePending (t : BreakpointTable) (name other : String) :
    (t.takePending name).2.pending.get? other =
      if other = name then none else t.pending.get? other := by
  cases hp : t.pending.get? name with
  | none =>
    simp only [takePending, hp]
    split
    · next hname => rw [hname, hp]
    · rfl
  | some p => simp only [takePending, hp, Dict.get?_erase]

theorem waits_takePending :
    (t.takePending name).2.Waits id other ↔ t.Waits id other ∧ other ≠ name := by
  rw [Waits, get?_pending_takePending, Waits]
  by_cases hname : other = name <;> simp [hname]

theorem Tidy.waits_remove (ht : t.Tidy) :
    (t.remove id).2.Waits other name ↔ t.Waits other name ∧ other ≠ id := by
  rw [Waits, Waits, (ht.forgets_remove id).pending]
  cases t.pending.get? name with
  | none => simp
  | some p => simp [PendingClass.mem_without?]

end BreakpointTable

namespace TableHistory
variable {h h' : TableHistory} {id : String} {e : BreakpointEntry}

/-! ## What an operation keeps -/

theorem Knows.mono (hk : h.Knows id e) (hinserted : h.inserted ⊆ h'.inserted)
    (hrequested : h.requested ⊆ h'.requested)
    (hpending : h'.table.Waits id e.breakpoint.className ∨ h'.InFlight id ↔
      h.table.Waits id e.breakpoint.className ∨ h.InFlight id) : h'.Knows id e :=
  { hk with
    inserted := hinserted hk.inserted
    requested := fun r hr => hrequested (hk.requested r hr)
    pending := hk.pending.trans hpending.symm }

namespace Books

theorem empty (hb : h.Books) : Books { h with table := {} } where
  tidy := BreakpointTable.tidy_empty
  indexed := BreakpointTable.indexed_empty
  knows := nofun
  queued := nofun
  once := hb.once
  handed := hb.handed
  booked := hb.booked
  listed := (List.filter_eq_nil_iff.2 fun _ _ => Bool.false_ne_true).symm

theorem unlisted (hb : h.Books) (hid : id ∉ h.inserted) : h.table.entries.get? id = none :=
  Option.eq_none_iff_forall_ne_some.2 fun e he => hid (hb.knows id e he).inserted

theorem unowned (hb : h.Books) {r : RequestId} (hr : r ∉ h.requested) :
    h.table.owners.get? r = none := by
  refine Option.eq_none_iff_forall_ne_some.2 fun id hid => hr ?_
  obtain ⟨e, he, hmem⟩ := (hb.indexed r id).1 hid
  exact (hb.knows id e he).requested r hmem

theorem unqueued (hb : h.Books) (hid : id ∉ h.inserted) (name : String) :
    ¬h.table.Waits id name := by
  rintro ⟨p, hp, hmem⟩
  obtain ⟨e, he, -⟩ := hb.tidy.waiting name p hp id hmem
  exact hid (hb.knows id e he).inserted

/-- Those that wait for a class are in the table under this class. -/
theorem waits_entry (hb : h.Books) {name : String} (hw : h.table.Waits id name) :
    ∃ e, h.table.entries.get? id = some e ∧ e.breakpoint.className = name ∧
      e.breakpoint.pending = true ∧ e.requests = [] := by
  obtain ⟨p, hp, hmem⟩ := hw
  obtain ⟨e, he, hname⟩ := hb.tidy.waiting name p hp id hmem
  have hknows := hb.knows id e he
  have hpending := hknows.pending.2 (.inl ⟨p, hname.symm ▸ hp, hmem⟩)
  exact ⟨e, he, hname, hpending, hknows.blank hpending⟩

theorem unhanded (hb : h.Books) {name : String} (hw : h.table.Waits id name) : id ∉ h.handed := by
  obtain ⟨p, hp, hmem⟩ := hw
  exact (hb.queued name p hp).2 id hmem

/-- A breakpoint waits for its own class only. -/
theorem waits_class (hb : h.Books) {name : String} (he : h.table.entries.get? id = some e)
    (hw : h.table.Waits id name) : e.breakpoint.className = name := by
  obtain ⟨e', he', hname, -⟩ := hb.waits_entry hw
  rwa [Option.some.inj (he'.symm.trans he)] at hname

/-! ### Adding -/

theorem listed_insert (hb : h.Books) (hid : id ∉ h.inserted) (e : BreakpointEntry) :
    (h.table.entries.insert id e).keys =
      (h.inserted ++ [id]).filter (h.table.entries.insert id e).contains := by
  rw [Dict.keys_insert (hb.unlisted hid), hb.listed, List.filter_append]
  congr 1
  · refine List.filter_congr fun other hother => ?_
    have hne : other ≠ id := fun heq => hid (heq ▸ hother)
    rw [Dict.contains_insert, decide_eq_false hne, Bool.false_or]
  · simp [Dict.contains_insert]

theorem indexed_insert (hb : h.Books) {b : Breakpoint} (hid : b.id ∉ h.inserted)
    (requests : List RequestId) (hrequests : ∀ r ∈ requests, r ∉ h.requested) :
    (h.table.insert b requests).Indexed := by
  -- which requests are whose does not depend on the hits
  have hgains := BreakpointTable.gains_insert (t := h.table) (b := { b with hitCount := 0 })
    (hb.unlisted hid) rfl requests
  have hzero := hgains.indexed (fun r hr => hb.unowned (hrequests r hr)) hb.indexed
  intro r other
  rw [show (h.table.insert b requests).owners.get? r = some other ↔ _ from hzero r other]
  simp only [BreakpointTable.insert, Dict.get?_insert]
  by_cases hother : other = b.id <;> simp [hother]

theorem insertInstalled (hb : h.Books) {b : Breakpoint} {requests : List RequestId}
    (hnew : h.Allows (.insertInstalled b requests)) :
    (h.next (.insertInstalled b requests)).Books := by
  obtain ⟨hid, hrequests⟩ := hnew
  have hflight : ¬h.InFlight b.id := fun hf => hid (hb.handed _ hf.1)
  refine
    { tidy := hb.tidy.insert
        (b := { b with pending := false, resolvedLocations := requests.length })
        (hb.unlisted hid) requests
      indexed := hb.indexed_insert
        (b := { b with pending := false, resolvedLocations := requests.length }) hid requests
        hrequests
      knows := fun id e he => ?_
      queued := hb.queued
      once := hb.once
      handed := fun id hid => List.mem_append_left _ (hb.handed id hid)
      booked := hb.booked
      listed := hb.listed_insert hid _ }
  simp only [next, BreakpointTable.insertInstalled, BreakpointTable.insert, Dict.get?_insert] at he
  split at he
  · next heq =>
    cases he
    subst heq
    exact
      { named := rfl
        inserted := List.mem_append_right _ List.mem_cons_self
        requested := fun r hr => List.mem_append_right _ hr
        resolved := rfl
        blank := fun hpending => absurd hpending Bool.false_ne_true
        pending := iff_of_false Bool.false_ne_true fun hor =>
          hor.elim (hb.unqueued hid _) hflight }
  · exact (hb.knows id e he).mono (List.subset_append_left _ _) (List.subset_append_left _ _) .rfl

theorem insertPending (hb : h.Books) {b : Breakpoint} {watch : RequestId}
    (hid : h.Allows (.insertPending b watch)) : (h.next (.insertPending b watch)).Books := by
  have hid : b.id ∉ h.inserted := hid
  refine
    { tidy := hb.tidy.insertPending (hb.unlisted hid) watch
      indexed := hb.indexed_insert (b := { b with pending := true, resolvedLocations := 0 })
        hid [] (List.forall_mem_nil _)
      knows := fun id e he => ?_
      queued := fun name p hp => ?_
      once := hb.once
      handed := fun id hid => List.mem_append_left _ (hb.handed id hid)
      booked := hb.booked
      listed := hb.listed_insert hid _ }
  · simp only [next, BreakpointTable.insertPending, BreakpointTable.insert, Dict.get?_insert] at he
    split at he
    · next heq =>
      cases he
      subst heq
      exact
        { named := rfl
          inserted := List.mem_append_right _ List.mem_cons_self
          requested := List.forall_mem_nil _
          resolved := rfl
          blank := fun _ => rfl
          pending := iff_of_true rfl
            (.inl (BreakpointTable.waits_insertPending.2 (.inr ⟨rfl, rfl⟩))) }
    · next hne =>
      refine (hb.knows id e he).mono (List.subset_append_left _ _) (fun _ hr => hr) ?_
      show (h.table.insertPending b watch).Waits id _ ∨ h.InFlight id ↔ _
      rw [BreakpointTable.waits_insertPending]
      simp [hne]
  · have hp : (h.table.insertPending b watch).pending.get? name = some p := hp
    rw [BreakpointTable.get?_pending_insertPending] at hp
    split at hp
    · cases hp
      have hhanded : b.id ∉ h.handed := fun hmem => hid (hb.handed _ hmem)
      split
      · next p hold =>
        obtain ⟨hnodup, hnone⟩ := hb.queued _ p hold
        have hfirst : b.id ∉ p.ids := fun hmem => hb.unqueued hid _ ⟨p, hold, hmem⟩
        refine ⟨?_, List.forall_mem_append.2 ⟨hnone, List.forall_mem_singleton.2 hhanded⟩⟩
        rw [← List.concat_eq_append]
        exact hnodup.concat hfirst
      · exact ⟨List.nodup_singleton _, List.forall_mem_singleton.2 hhanded⟩
    · exact hb.queued name p hp

/-! ### Changing -/

theorem listed_modify (hb : h.Books) (id : String) (f : BreakpointEntry → BreakpointEntry) :
    (h.table.entries.modify id f).keys =
      h.inserted.filter (h.table.entries.modify id f).contains := by
  rw [Dict.keys_modify, hb.listed]
  exact List.filter_congr fun other _ => (Dict.contains_modify _ _ _ _).symm

/-- A breakpoint is changed in what neither the maps nor the history look at. -/
theorem modify (hb : h.Books) (id : String) {t : BreakpointTable}
    {f : BreakpointEntry → BreakpointEntry}
    (ht : t = { h.table with entries := h.table.entries.modify id f }) (hindexed : t.Indexed)
    (htidy : t.Tidy) (hrequests : ∀ e, (f e).requests = e.requests)
    (hf : ∀ e, (f e).breakpoint.id = e.breakpoint.id ∧
      (f e).breakpoint.className = e.breakpoint.className ∧
      (f e).breakpoint.resolvedLocations = e.breakpoint.resolvedLocations ∧
      (f e).breakpoint.pending = e.breakpoint.pending) : Books { h with table := t } := by
  subst ht
  refine { hb with
    tidy := htidy
    indexed := hindexed
    knows := fun other e he => ?_
    listed := hb.listed_modify id f }
  simp only [Dict.get?_modify] at he
  split at he
  · next hother =>
    subst hother
    obtain ⟨e, hold, rfl⟩ := Option.map_eq_some_iff.1 he
    have hk := hb.knows other e hold
    obtain ⟨hid, hclass, hresolved, hpending⟩ := hf e
    exact
      { named := hid.trans hk.named
        inserted := hk.inserted
        requested := hrequests e ▸ hk.requested
        resolved := by rw [hresolved, hrequests, hk.resolved]
        blank := by rw [hpending, hrequests]; exact hk.blank
        pending := by rw [hpending, hclass]; exact hk.pending }
  · exact (hb.knows other e he).mono (fun _ hid => hid) (fun _ hr => hr) .rfl

theorem recordHit (hb : h.Books) (r : RequestId) : (h.next (.recordHit r)).Books := by
  cases howner : h.table.owners.get? r with
  | none =>
    show Books { h with table := (h.table.recordHit r).2 }
    rw [BreakpointTable.recordHit_of_none howner]
    exact hb
  | some id =>
    refine hb.modify id (f := fun e =>
      { e with breakpoint := { e.breakpoint with hitCount := e.breakpoint.hitCount + 1 } }) ?_
      (hb.indexed.recordHit howner) (hb.tidy.recordHit r) (fun _ => rfl)
      fun _ => ⟨rfl, rfl, rfl, rfl⟩
    simp only [BreakpointTable.recordHit, howner]

theorem setEnabled (hb : h.Books) (id : String) (enabled : Bool) :
    (h.next (.setEnabled id enabled)).Books := by
  have hindexed := (h.table.thins_setEnabled id enabled).indexed hb.indexed
  have htidy := hb.tidy.setEnabled id enabled
  cases he : h.table.entries.get? id with
  | none =>
    show Books { h with table := (h.table.setEnabled id enabled).2 }
    simp only [BreakpointTable.setEnabled, he]
    exact hb
  | some e =>
    refine hb.modify id (f := fun e => { e with breakpoint := { e.breakpoint with enabled } }) ?_
      hindexed htidy (fun _ => rfl) fun _ => ⟨rfl, rfl, rfl, rfl⟩
    simp only [BreakpointTable.setEnabled, he]

theorem indexed_materialize (hb : h.Books) {requests : List RequestId}
    (hrequests : ∀ r ∈ requests, r ∉ h.requested) (id : String) :
    (h.table.materialize id requests).2.Indexed := by
  cases hbooked : (h.table.materialize id requests).1 with
  | none =>
    rw [BreakpointTable.materialize_of_none hbooked]
    exact hb.indexed
  | some enabled =>
    exact (BreakpointTable.gains_materialize hbooked).indexed
      (fun r hr => hb.unowned (hrequests r hr)) hb.indexed

theorem materialize (hb : h.Books) {requests : List RequestId}
    (hallowed : h.Allows (.materialize id requests)) :
    (h.next (.materialize id requests)).Books := by
  obtain ⟨hhanded, -, hrequests⟩ := hallowed
  have hpending := h.table.pending_materialize id requests
  have hentries := h.table.entries_materialize id requests
  refine
    { tidy := hb.tidy.materialize id requests
      indexed := hb.indexed_materialize hrequests id
      knows := fun other e he => ?_
      queued := by simp only [next, hpending]; exact hb.queued
      once := hb.once
      handed := hb.handed
      booked := List.forall_mem_append.2 ⟨hb.booked, List.forall_mem_singleton.2 hhanded⟩
      listed := by simp only [next, hentries]; exact hb.listed_modify id _ }
  simp only [next, hentries, Dict.get?_modify] at he
  split at he
  · next hother =>
    subst hother
    obtain ⟨e, hold, rfl⟩ := Option.map_eq_some_iff.1 he
    have hk := hb.knows other e hold
    exact
      { named := hk.named
        inserted := hk.inserted
        requested := List.forall_mem_append.2
          ⟨fun r hr => List.mem_append_left _ (hk.requested r hr),
            fun r hr => List.mem_append_right _ hr⟩
        resolved := rfl
        blank := fun hpending => absurd hpending Bool.false_ne_true
        pending := iff_of_false Bool.false_ne_true <| by
          rintro (⟨p, hp, hmem⟩ | hflight)
          · exact hb.unhanded ⟨p, hpending ▸ hp, hmem⟩ hhanded
          · exact hflight.2 (List.mem_append_right _ List.mem_cons_self) }
  · -- the others are on their way if they were before
    next hother =>
    refine (hb.knows other e he).mono (fun _ hid => hid) (List.subset_append_left _ _) ?_
    simp [next, BreakpointTable.Waits, hpending, InFlight, hother]

/-! ### Taking -/

theorem handedOut_eq (hb : h.Books) {name : String} {p : PendingClass}
    (hp : h.table.pending.get? name = some p) : h.table.handedOut name = p.ids := by
  have hentry : ∀ id ∈ p.ids, ∃ b, h.table.get? id = some b ∧ b.id = id := by
    intro id hid
    obtain ⟨e, he, -⟩ := hb.tidy.waiting name p hp id hid
    refine ⟨e.breakpoint, ?_, (hb.knows id e he).named⟩
    rw [BreakpointTable.get?, he, Option.map_some]
  simp only [BreakpointTable.handedOut, BreakpointTable.takePending, hp]
  generalize p.ids = ids at hentry
  induction ids with
  | nil => rfl
  | cons id ids ih =>
    obtain ⟨b, hget, hid⟩ := hentry id List.mem_cons_self
    rw [List.filterMap_cons, hget, List.map_cons, hid,
      ih fun other hother => hentry other (List.mem_cons_of_mem id hother)]

theorem mem_handedOut (hb : h.Books) {name : String} :
    id ∈ h.table.handedOut name ↔ h.table.Waits id name := by
  cases hp : h.table.pending.get? name with
  | none => simp [BreakpointTable.handedOut, BreakpointTable.takePending, BreakpointTable.Waits, hp]
  | some p => rw [hb.handedOut_eq hp, BreakpointTable.Waits, hp]; simp

theorem nodup_handedOut (hb : h.Books) (name : String) : (h.table.handedOut name).Nodup := by
  cases hp : h.table.pending.get? name with
  | none => simp [BreakpointTable.handedOut, BreakpointTable.takePending, hp]
  | some p =>
    rw [hb.handedOut_eq hp]
    exact (hb.queued name p hp).1

theorem takePending (hb : h.Books) (name : String) : (h.next (.takePending name)).Books := by
  have hentries := h.table.entries_takePending name
  refine
    { tidy := hb.tidy.takePending name
      indexed := (h.table.thins_takePending name).indexed hb.indexed
      knows := fun id e he => ?_
      queued := fun other p hp => ?_
      once := ?_
      handed := List.forall_mem_append.2 ⟨hb.handed, fun id hid => ?_⟩
      booked := fun id hid => List.mem_append_left _ (hb.booked id hid)
      listed := by simp only [next, hentries]; exact hb.listed }
  · -- those that were waiting for the class are on their way now
    have he : h.table.entries.get? id = some e := hentries ▸ he
    refine (hb.knows id e he).mono (fun _ hid => hid) (fun _ hr => hr) ?_
    show (h.table.takePending name).2.Waits id _ ∨
      id ∈ h.handed ++ h.table.handedOut name ∧ id ∉ h.booked ↔ _
    rw [BreakpointTable.waits_takePending, List.mem_append, hb.mem_handedOut, InFlight]
    have hunbooked (hw : h.table.Waits id name) : id ∉ h.booked := fun hmem =>
      hb.unhanded hw (hb.booked id hmem)
    by_cases hname : e.breakpoint.className = name
    · rw [hname]
      tauto
    · have hunwaited : ¬h.table.Waits id name := fun hw => hname (hb.waits_class he hw)
      tauto
  · simp only [next, BreakpointTable.get?_pending_takePending] at hp
    split at hp
    · cases hp
    · next hother =>
      refine ⟨(hb.queued other p hp).1, fun id hid => ?_⟩
      simp only [next, List.mem_append, hb.mem_handedOut, not_or]
      refine ⟨(hb.queued other p hp).2 id hid, fun hw => hother ?_⟩
      obtain ⟨e, he, hname, -⟩ := hb.waits_entry ⟨p, hp, hid⟩
      exact hname.symm.trans (hb.waits_class he hw)
  · refine List.nodup_append.2 ⟨hb.once, hb.nodup_handedOut name, fun id hid id' hid' heq => ?_⟩
    exact hb.unhanded (hb.mem_handedOut.1 hid') (heq ▸ hid)
  · obtain ⟨e, he, -⟩ := hb.waits_entry (hb.mem_handedOut.1 hid)
    exact (hb.knows id e he).inserted

/-! ### Removing -/

theorem remove (hb : h.Books) (id : String) : (h.next (.remove id)).Books := by
  have hforgets := hb.tidy.forgets_remove id
  have hentries := hforgets.entries
  refine
    { tidy := hb.tidy.remove id
      indexed := (h.table.thins_remove id).indexed hb.indexed
      knows := fun other e he => ?_
      queued := fun name p' hp' => ?_
      once := hb.once
      handed := hb.handed
      booked := hb.booked
      listed := ?_ }
  · simp only [next, hentries, Dict.get?_erase] at he
    split at he
    · cases he
    · next hother =>
      refine (hb.knows other e he).mono (fun _ hid => hid) (fun _ hr => hr) ?_
      show (h.table.remove id).2.Waits other _ ∨ h.InFlight other ↔ _
      rw [hb.tidy.waits_remove, and_iff_left hother]
  · simp only [next, hforgets.pending] at hp'
    obtain ⟨p, hp, hp'⟩ := Option.bind_eq_some_iff.1 hp'
    rw [(PendingClass.without?_eq_some hp').1]
    obtain ⟨hnodup, hnone⟩ := hb.queued name p hp
    exact ⟨hnodup.filter _, fun other hother => hnone other (List.mem_filter.1 hother).1⟩
  · simp only [next, hentries, Dict.keys_erase, hb.listed, List.filter_filter]
    refine List.filter_congr fun other _ => ?_
    rw [Dict.contains_erase]

/-- A watch comes back with a breakpoint if it alone waits behind it. -/
theorem watch (hb : h.Books) (id : String) (requests : List RequestId) (watch : RequestId) :
    (h.table.remove id).1 = some (requests, some watch) ↔
      ∃ e p, h.table.entries.get? id = some e ∧ e.requests = requests ∧
        h.table.pending.get? e.breakpoint.className = some p ∧ p.watch = watch ∧ p.ids = [id] := by
  cases he : h.table.entries.get? id with
  | none => simp [BreakpointTable.remove_of_none he]
  | some e =>
    rw [BreakpointTable.remove_fst he]
    cases hp : h.table.pending.get? e.breakpoint.className with
    | none => simp [hp]
    | some p =>
      have halone := PendingClass.alone_iff (hb.queued _ p hp).1 (hb.tidy.needed _ p hp) id
      by_cases hids : (p.ids.filter (· ≠ id)).isEmpty
      · rw [Option.bind_some, if_pos hids]
        simp [hp, halone.1 hids]
      · rw [Option.bind_some, if_neg hids]
        simp [hp, mt halone.2 hids]

/-! ### Runs -/

theorem next (hb : h.Books) : (e : TableEdit) → h.Allows e → (h.next e).Books
  | .insertInstalled _ _, hallowed => hb.insertInstalled hallowed
  | .insertPending _ _, hallowed => hb.insertPending hallowed
  | .takePending name, _ => hb.takePending name
  | .materialize _ _, hallowed => hb.materialize hallowed
  | .recordHit r, _ => hb.recordHit r
  | .setEnabled id enabled, _ => hb.setEnabled id enabled
  | .remove id, _ => hb.remove id
  | .clear, _ => hb.empty

theorem run {edits : List TableEdit} (hb : h.Books) (hfair : h.Fair edits) :
    (h.run edits).Books := by
  induction edits generalizing h with
  | nil => exact hb
  | cons e edits ih => exact ih (hb.next e hfair.1) hfair.2

theorem consistent (hb : h.Books) : h.Consistent where
  indexed := hb.indexed
  apart id e id' e' he he' r hr hr' := by
    have howner := (hb.indexed r id).2 ⟨e, he, hr⟩
    have howner' := (hb.indexed r id').2 ⟨e', he', hr'⟩
    exact Option.some.inj (howner.symm.trans howner')
  waiting name p hp :=
    ⟨hb.tidy.needed name p hp, (hb.queued name p hp).1, fun id hid => hb.waits_entry ⟨p, hp, hid⟩⟩
  resolved id e he := (hb.knows id e he).resolved
  once := hb.once
  pending id e he := (hb.knows id e he).pending
  watch := hb.watch
  listed := by
    rw [← hb.listed, BreakpointTable.toList, Dict.values, Dict.keys, List.map_map, List.map_map]
    refine List.map_congr_left fun p hp => ?_
    exact (hb.knows p.1 p.2 (Dict.mem_entries.1 hp)).named

end Books

theorem books_empty : Books {} where
  tidy := BreakpointTable.tidy_empty
  indexed := BreakpointTable.indexed_empty
  knows := nofun
  queued := nofun
  once := List.nodup_nil
  handed := nofun
  booked := nofun
  listed := rfl

/-- The maps of a table agree after every run that keeps to the rules. -/
theorem consistent_of_fair {edits : List TableEdit} (hfair : ({} : TableHistory).Fair edits) :
    (({} : TableHistory).run edits).Consistent :=
  (books_empty.run hfair).consistent

end TableHistory

def Breakpoint.onDemo (id : String) : Breakpoint :=
  ⟨id, "Demo", .line 3, none, true, 0, 0, 0, false⟩

/-- Two breakpoints are taken, the first is removed before its requests are booked, and a third
waits for the class anew. -/
def TableEdit.demo : List TableEdit :=
  [.insertPending (.onDemo "a") 7, .insertPending (.onDemo "b") 8, .takePending "Demo",
    .remove "a", .insertPending (.onDemo "c") 9, .materialize "a" [1], .materialize "b" [2, 3],
    .insertInstalled (.onDemo "d") [4], .recordHit 3]

/-- The breakpoint that was removed owns nothing, and the new watch is that of the third alone. -/
theorem TableHistory.consistent_of_fair_demo :
    ({} : TableHistory).Fair TableEdit.demo ∧ (({} : TableHistory).run TableEdit.demo).Consistent ∧
      (({} : TableHistory).run TableEdit.demo).handed = ["a", "b"] ∧
      (({} : TableHistory).run TableEdit.demo).table.toList.map Breakpoint.id = ["b", "c", "d"] ∧
      (({} : TableHistory).run TableEdit.demo).table.owners.get? 1 = none ∧
      ((({} : TableHistory).run TableEdit.demo).table.remove "c").1 = some ([], some 9) := by
  have hfair : ({} : TableHistory).Fair TableEdit.demo := by decide +kernel
  exact ⟨hfair, consistent_of_fair hfair, by decide +kernel, by decide +kernel, by decide +kernel,
    by decide +kernel⟩

end JvmDebug
