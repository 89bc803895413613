import JvmDebug.Proofs.Slots
import Mathlib.Data.Set.Function
import Mathlib.Order.Interval.Set.Basic

/-!
A session's tables and its target's requests, as they are read off slots, and what one operation on
a breakpoint does to the slots.
-/
namespace JvmDebug

open Op

/-- The id that a session gives to the breakpoint made as number `n` from now on. -/
def Session.nthId (s : Session) (n : Nat) : String := s.ids.text (s.ids.next + n)

def Session.FreshIds (s : Session) (n : Nat) : Prop :=
  Set.InjOn s.ids.text (Set.Ico s.ids.next (s.ids.next + n))

theorem Session.FreshIds.nthId_eq {s : Session} {n i j : Nat} (h : s.FreshIds n) (hi : i < n)
    (hj : j < n) : s.nthId i = s.nthId j ↔ i = j := by
  refine ⟨fun heq => ?_, fun heq => heq ▸ rfl⟩
  have := h ⟨Nat.le_add_right _ i, by omega⟩ ⟨Nat.le_add_right _ j, by omega⟩ heq
  omega

theorem Session.freshIds_of_nthId {s : Session} {n : Nat}
    (h : ∀ i < n, ∀ j < n, s.nthId i = s.nthId j → i = j) : s.FreshIds n := by
  rintro i ⟨hi, hi'⟩ j ⟨hj, hj'⟩ heq
  have hiff := h (i - s.ids.next) (by omega) (j - s.ids.next) (by omega)
  rw [nthId, nthId, Nat.add_sub_cancel' hi, Nat.add_sub_cancel' hj] at hiff
  have := hiff heq
  omega

/-- The breakpoint that is asked for in a class, of a session as it was at first. -/
def Item.breakpoint (s₀ : Session) (className : String) (i : Item) : Breakpoint where
  id := s₀.nthId i.number
  className
  kind := i.kind
  condition := i.condition
  enabled := i.enabled
  hitCount := 0
  createdAt := s₀.clock
  resolvedLocations := 0
  pending := false

namespace Slot

def breakpoint (s₀ : Session) (className : String) (t : Slot) : Breakpoint :=
  { t.item.breakpoint s₀ className with
    resolvedLocations := t.requests.length
    pending := t.block.isNone }

def entry (s₀ : Session) (className : String) (t : Slot) : String × BreakpointEntry :=
  (s₀.nthId t.item.number, ⟨t.breakpoint s₀ className, t.requests⟩)

theorem entry_switch (s₀ : Session) (className : String) (enabled : Bool) (t : Slot) :
    (t.switch enabled).entry s₀ className =
      (s₀.nthId t.item.number, ⟨{ t.breakpoint s₀ className with enabled }, t.requests⟩) := by
  obtain ⟨item, block⟩ := t
  simp only [entry, breakpoint, requests_switch]
  cases block <;> rfl

def Fits (vm : Vm) (c : TypeId) (t : Slot) : Prop :=
  ∀ block, t.block = some block →
    Lays block (vm.locationsOf c t.item.kind).eraseReps t.item.enabled

theorem Fits.switch {vm : Vm} {c : TypeId} {t : Slot} (h : t.Fits vm c) (enabled : Bool) :
    (t.switch enabled).Fits vm c := by
  intro block hblock
  obtain ⟨old, hold, rfl⟩ := Option.map_eq_some_iff.1 hblock
  exact (h old hold).switched enabled

end Slot

def watchEntry (className : String) (w : RequestId) : RequestId × Request :=
  (w, ⟨w, .classPrepare className, true⟩)

/-- A session and its target after some edits: `count` breakpoints were made since they were
`s₀` and `vm₀`, those that are left are in the slots, and `watch` stands for those that wait. -/
structure Laid (s₀ : Session) (vm₀ : Vm) (info : TypeInfo) (watch : Option RequestId)
    (slots : List Slot) (count : Nat) (s : Session) (vm : Vm) : Prop where
  entries : s.breakpoints.entries.entries = slots.map (Slot.entry s₀ info.name)
  pending : s.breakpoints.pending.entries =
    watch.toList.map fun w => (info.name, ⟨w, slots.map fun t => s₀.nthId t.item.number⟩)
  exceptions : s.exceptions = {}
  reachable : s.unreachable? = none
  clock : s.clock = s₀.clock
  ids : s.ids = ⟨s₀.ids.next + count, s₀.ids.text⟩
  numbers : (slots.map fun t => t.item.number).Nodup
  below : ∀ t ∈ slots, t.item.number < count
  requests : vm.requests.entries = (vm₀.requests.entries ++
    watch.toList.map (watchEntry info.name)) ++ slots.flatMap Slot.held
  fits : ∀ t ∈ slots, t.Fits vm₀ info.id
  needed : slots = [] → watch = none
  only : vm₀.OnlyRequests vm

namespace Laid
variable {s₀ s : Session} {vm₀ vm : Vm} {info : TypeInfo} {watch : Option RequestId}
  {slots : List Slot} {count total n : Nat}

theorem apart (h : Laid s₀ vm₀ info watch slots count s vm) :
    Apart (vm₀.requests.entries ++ watch.toList.map (watchEntry info.name)) slots := by
  rw [Apart, ← h.requests]
  exact vm.requests.nodup

theorem eq_of_number (h : Laid s₀ vm₀ info watch slots count s vm) {t u : Slot} (ht : t ∈ slots)
    (hu : u ∈ slots) (hn : u.item.number = t.item.number) : u = t :=
  List.inj_on_of_nodup_map h.numbers hu ht hn

theorem get?_of_mem (h : Laid s₀ vm₀ info watch slots count s vm) {t : Slot} (ht : t ∈ slots) :
    s.breakpoints.entries.get? (s₀.nthId t.item.number) =
      some ⟨t.breakpoint s₀ info.name, t.requests⟩ := by
  rw [← Dict.mem_entries, h.entries]
  exact List.mem_map_of_mem ht

theorem get?_of_notMem (h : Laid s₀ vm₀ info watch slots count s vm) (hids : s₀.FreshIds total)
    (hcount : count ≤ total) (hn : n < total) (hno : ∀ t ∈ slots, t.item.number ≠ n) :
    s.breakpoints.entries.get? (s₀.nthId n) = none := by
  rw [Dict.get?_eq_none, Dict.keys, h.entries, List.map_map, List.mem_map]
  rintro ⟨t, ht, heq⟩
  have hlt := h.below t ht
  exact hno t ht ((hids.nthId_eq (by omega) hn).1 heq)

theorem replace (h : Laid s₀ vm₀ info watch slots count s vm) (hids : s₀.FreshIds total)
    (hcount : count ≤ total) {t t' : Slot} (ht : t ∈ slots)
    (hnumber : t'.item.number = t.item.number) (hfits : t'.Fits vm₀ info.id)
    (change : BreakpointEntry → BreakpointEntry) (owners : Dict RequestId String)
    (hentry : t'.entry s₀ info.name = (s₀.nthId t.item.number,
      change ⟨t.breakpoint s₀ info.name, t.requests⟩)) {vm' : Vm}
    (hrequests : vm'.requests.entries = (vm₀.requests.entries ++
      watch.toList.map (watchEntry info.name)) ++ (t.replaceIn t' slots).flatMap Slot.held)
    (honly : vm.OnlyRequests vm') :
    Laid s₀ vm₀ info watch (t.replaceIn t' slots) count
      { s with breakpoints := { s.breakpoints with
        entries := s.breakpoints.entries.modify (s₀.nthId t.item.number) change, owners } } vm' := by
  have hkeep (u : Slot) :
      (if u.item.number = t.item.number then t' else u).item.number = u.item.number := by
    by_cases hu : u.item.number = t.item.number
    · rw [if_pos hu, hnumber, hu]
    · rw [if_neg hu]
  refine {
    entries := ?_, pending := ?_, exceptions := h.exceptions, reachable := h.reachable
    clock := h.clock, ids := h.ids, numbers := ?_, below := ?_, requests := hrequests, fits := ?_
    needed := fun hnil => h.needed (List.map_eq_nil_iff.1 hnil), only := h.only.trans honly }
  · show (s.breakpoints.entries.entries.map _) = _
    rw [h.entries, Slot.replaceIn, List.map_map, List.map_map]
    refine List.map_congr_left fun u hu => ?_
    have hiff : s₀.nthId u.item.number = s₀.nthId t.item.number ↔
        u.item.number = t.item.number := by
      have hu' := h.below u hu
      have ht' := h.below t ht
      exact hids.nthId_eq (by omega) (by omega)
    rw [Function.comp_apply, Function.comp_apply]
    by_cases hn : u.item.number = t.item.number
    · rw [if_pos hn, hentry, h.eq_of_number ht hu hn]
      exact if_pos rfl
    · rw [if_neg hn]
      exact if_neg fun heq => hn (hiff.1 heq)
  · show s.breakpoints.pending.entries = _
    simp only [Slot.replaceIn, h.pending, List.map_map, Function.comp_def, hkeep]
  · simpa only [Slot.replaceIn, List.map_map, Function.comp_def, hkeep] using h.numbers
  · intro u hu
    obtain ⟨v, hv, rfl⟩ := List.mem_map.1 hu
    rw [hkeep]
    exact h.below v hv
  · intro u hu
    obtain ⟨v, hv, rfl⟩ := List.mem_map.1 hu
    split
    · exact hfits
    · exact h.fits v hv

/-! ## Switching -/

theorem exec_setEnabled_of_notMem (h : Laid s₀ vm₀ info watch slots count s vm)
    (hids : s₀.FreshIds total) (hcount : count ≤ total) (hn : n < total)
    (hno : ∀ t ∈ slots, t.item.number ≠ n) (enabled : Bool) :
    (exec (Session.setEnabled (s₀.nthId n) enabled) s vm).2 = (s, vm) := by
  have hnone := h.get?_of_notMem hids hcount hn hno
  have hstore : Session.storeEnabled (s₀.nthId n) enabled s = (none, s) := by
    have hset : (s.exceptions.setEnabled (s₀.nthId n) enabled) = (none, s.exceptions) := by
      rw [h.exceptions]
      rfl
    simp only [Session.storeEnabled, BreakpointTable.setEnabled, hnone, hset, Option.map_none]
  simp only [Session.setEnabled, exec_bind, exec_updateGet, hstore]
  rfl

theorem exec_setEnabled (h : Laid s₀ vm₀ info watch slots count s vm)
    (hids : s₀.FreshIds total) (hcount : count ≤ total) {t : Slot} (ht : t ∈ slots)
    (enabled : Bool) :
    ∃ s', exec (Session.setEnabled (s₀.nthId t.item.number) enabled) s vm =
        (.ok (), s', vm.switched enabled t.requests) ∧
      Laid s₀ vm₀ info watch (t.replaceIn (t.switch enabled) slots) count s'
        (vm.switched enabled t.requests) := by
  have hget := h.get?_of_mem ht
  let change (e : BreakpointEntry) : BreakpointEntry :=
    { e with breakpoint := { e.breakpoint with enabled } }
  let s' : Session := { s with breakpoints := { s.breakpoints with
    entries := s.breakpoints.entries.modify (s₀.nthId t.item.number) change } }
  have hstore : Session.storeEnabled (s₀.nthId t.item.number) enabled s =
      (some t.requests, s') := by
    simp only [Session.storeEnabled, BreakpointTable.setEnabled, hget]
    rfl
  have hreach : s'.unreachable? = none := h.reachable
  have hkeys : ∀ r ∈ t.requests, r ∈ vm.requests.keys := by
    intro r hr
    rw [Dict.keys, h.requests, List.map_append, List.map_flatMap]
    exact List.mem_append_right _ (List.mem_flatMap.2 ⟨t, ht, hr⟩)
  refine ⟨s', ?_, ?_⟩
  · simp only [Session.setEnabled, exec_bind, exec_updateGet, hstore]
    by_cases hempty : t.requests = []
    · rw [hempty]
      rfl
    · have hsome : t.requests.isEmpty = false := by simpa using hempty
      simp only [hsome, Bool.false_eq_true, if_false, exec_bind, Session.exec_reach hreach,
        Session.exec_switchAll s' enabled hkeys]
  · refine h.replace hids hcount ht (t.switch_number enabled) ((h.fits t ht).switch enabled) change
      s.breakpoints.owners (t.entry_switch s₀ info.name enabled) ?_ rfl
    rw [Vm.entries_switched, h.requests]
    exact h.apart.switch ht (fun u hu hn => h.eq_of_number ht hu hn) enabled

/-! ## Removing -/

theorem exec_remove_of_notMem (h : Laid s₀ vm₀ info watch slots count s vm)
    (hids : s₀.FreshIds total) (hcount : count ≤ total) (hn : n < total)
    (hno : ∀ t ∈ slots, t.item.number ≠ n) :
    (exec (Session.removeBreakpoint (s₀.nthId n)) s vm).2 = (s, vm) := by
  have hnone := h.get?_of_notMem hids hcount hn hno
  have htake : Session.takeOut (s₀.nthId n) s = (none, s) := by
    have hremove : s.exceptions.remove (s₀.nthId n) = (none, s.exceptions) := by
      rw [h.exceptions]
      rfl
    simp only [Session.takeOut, BreakpointTable.remove_of_none hnone, hremove, Option.map_none]
  simp only [Session.removeBreakpoint, exec_bind, exec_updateGet, htake]
  rfl

theorem pending_get? (h : Laid s₀ vm₀ info watch slots count s vm) :
    s.breakpoints.pending.get? info.name =
      watch.map fun w => ⟨w, slots.map fun t => s₀.nthId t.item.number⟩ := by
  cases watch with
  | none =>
    rw [Option.map_none, Dict.get?_eq_none, Dict.keys, h.pending]
    exact List.not_mem_nil
  | some w =>
    rw [Option.map_some, ← Dict.mem_entries, h.pending]
    exact List.mem_singleton_self _

theorem table_remove (h : Laid s₀ vm₀ info watch slots count s vm) (hids : s₀.FreshIds total)
    (hcount : count ≤ total) {t : Slot} (ht : t ∈ slots) :
    ∃ table, s.breakpoints.remove (s₀.nthId t.item.number) =
        (some (t.requests, if (t.others slots).isEmpty then watch else none), table) ∧
      table.entries.entries = (t.others slots).map (Slot.entry s₀ info.name) ∧
      table.pending.entries = (if (t.others slots).isEmpty then none else watch).toList.map
        fun w => (info.name, ⟨w, (t.others slots).map fun t => s₀.nthId t.item.number⟩) := by
  have hiff (u : Slot) (hu : u ∈ slots) : s₀.nthId u.item.number = s₀.nthId t.item.number ↔
      u.item.number = t.item.number := by
    have hu' := h.below u hu
    have ht' := h.below t ht
    exact hids.nthId_eq (by omega) (by omega)
  have hentries : (s.breakpoints.entries.erase (s₀.nthId t.item.number)).entries =
      (t.others slots).map (Slot.entry s₀ info.name) := by
    show List.filter _ s.breakpoints.entries.entries = _
    rw [h.entries, List.filter_map]
    congr 1
    refine List.filter_congr fun u hu => ?_
    simp only [Function.comp_apply, Slot.entry, ne_eq, hiff u hu]
  have hwaiting : (slots.map fun t => s₀.nthId t.item.number).filter
      (· ≠ s₀.nthId t.item.number) = (t.others slots).map fun t => s₀.nthId t.item.number := by
    rw [List.filter_map]
    congr 1
    refine List.filter_congr fun u hu => ?_
    simp only [Function.comp_apply, ne_eq, hiff u hu]
  have hget := h.get?_of_mem ht
  have hpending := h.pending_get?
  simp only [BreakpointTable.remove, hget]
  cases watch with
  | none =>
    have hno : s.breakpoints.pending.get? (t.breakpoint s₀ info.name).className = none := hpending
    simp only [hno, ite_self]
    exact ⟨_, rfl, hentries, h.pending⟩
  | some w =>
    have hsome : s.breakpoints.pending.get? (t.breakpoint s₀ info.name).className =
        some ⟨w, slots.map fun t => s₀.nthId t.item.number⟩ := hpending
    simp only [hsome, hwaiting]
    cases hempty : t.others slots with
    | nil =>
      refine ⟨_, rfl, hempty ▸ hentries, ?_⟩
      show List.filter _ s.breakpoints.pending.entries = _
      rw [h.pending]
      simp [Slot.breakpoint, Item.breakpoint]
    | cons u us =>
      refine ⟨_, rfl, hempty ▸ hentries, ?_⟩
      show List.map _ s.breakpoints.pending.entries = _
      rw [h.pending]
      simp [Slot.breakpoint, Item.breakpoint]

theorem filter_watch (h : Laid s₀ vm₀ info watch slots count s vm) :
    (vm₀.requests.entries ++ watch.toList.map (watchEntry info.name)).filter
      (fun p => p.1 ∉ watch.toList) = vm₀.requests.entries := by
  have hapart := h.apart
  rw [Apart, List.map_append] at hapart
  have hnodup := (List.nodup_append'.1 hapart).1
  cases watch with
  | none => simp
  | some w =>
    rw [Option.toList_some, List.map_singleton, List.map_append] at hnodup
    have hdisjoint := (List.nodup_append'.1 hnodup).2.2
    rw [Option.toList_some, List.map_singleton, List.filter_append]
    have hbase : vm₀.requests.entries.filter (fun p => p.1 ∉ [w]) = vm₀.requests.entries := by
      refine List.filter_eq_self.2 fun p hp => decide_eq_true fun hmem => ?_
      exact hdisjoint (List.mem_map_of_mem hp) hmem
    rw [hbase]
    simp [watchEntry]

theorem exec_remove (h : Laid s₀ vm₀ info watch slots count s vm) (hids : s₀.FreshIds total)
    (hcount : count ≤ total) {t : Slot} (ht : t ∈ slots) :
    ∃ s' rs, exec (Session.removeBreakpoint (s₀.nthId t.item.number)) s vm =
        (.ok (), s', vm.without rs) ∧
      Laid s₀ vm₀ info (if (t.others slots).isEmpty then none else watch) (t.others slots) count
        s' (vm.without rs) := by
  obtain ⟨table, hremove, hentries, hpending⟩ := h.table_remove hids hcount ht
  let s' : Session := { s with breakpoints := table }
  let released := t.requests ++
    (if (t.others slots).isEmpty then watch else none).toList
  have htake : Session.takeOut (s₀.nthId t.item.number) s = (some released, s') := by
    simp only [Session.takeOut, hremove]
    rfl
  have hreach : s'.unreachable? = none := h.reachable
  have hattached : s'.attachment.isSome = true := by
    cases hattachment : s'.attachment with
    | some a => rfl
    | none =>
      rw [Session.unreachable?, hattachment] at hreach
      split at hreach
      · cases hreach
      · cases hreach
  refine ⟨s', released, ?_, ?_⟩
  · have hdelete : (Session.deleteAll released).run Vm.serve s' vm =
        ((), s', vm.without released) := by
      simp only [Session.deleteAll, Routine.get, Routine.bind_eq, Routine.bind, Routine.run, id_eq,
        hattached, if_true, run_deletions]
    simp only [Session.removeBreakpoint, exec_bind, exec_updateGet, htake, exec_lift, hdelete]
  · refine {
      entries := hentries, pending := hpending, exceptions := h.exceptions, reachable := hreach
      clock := h.clock, ids := h.ids, numbers := ?_, below := ?_, requests := ?_, fits := ?_
      needed := fun hnil => if_pos (List.isEmpty_iff.2 hnil), only := h.only.trans rfl }
    · exact h.numbers.sublist (List.filter_sublist.map _)
    · exact fun u hu => h.below u (List.mem_filter.1 hu).1
    · have hslots := h.apart.remove ht fun u hu hn => h.eq_of_number ht hu hn
      have hsplit : vm.requests.entries.filter (fun p => p.1 ∉ released) =
          (vm.requests.entries.filter fun p => p.1 ∉ t.requests).filter fun p =>
            p.1 ∉ (if (t.others slots).isEmpty then watch else none).toList := by
        rw [List.filter_filter]
        refine List.filter_congr fun p _ => ?_
        simp only [released, List.mem_append, not_or, Bool.decide_and]
        exact Bool.and_comm _ _
      rw [Vm.entries_without, hsplit, h.requests, hslots]
      cases hempty : t.others slots with
      | nil =>
        simp only [List.flatMap_nil, List.append_nil, List.isEmpty_nil, if_true]
        rw [h.filter_watch]
        simp
      | cons u us => simp
    · exact fun u hu => h.fits u (List.mem_filter.1 hu).1

/-! ## By number -/

/-- Where no slot has the number, switching it changes nothing. -/
theorem switched_of_notMem (h : Laid s₀ vm₀ info watch slots count s vm)
    (hno : ∀ t ∈ slots, t.item.number ≠ n) (enabled : Bool) :
    Laid s₀ vm₀ info watch (slots.map (Slot.switchAt n enabled)) count s vm := by
  have hsame : slots.map (Slot.switchAt n enabled) = slots :=
    (List.map_congr_left fun t ht => if_neg (hno t ht)).trans (List.map_id _)
  rwa [hsame]

theorem filtered_of_notMem (h : Laid s₀ vm₀ info watch slots count s vm)
    (hno : ∀ t ∈ slots, t.item.number ≠ n) :
    Laid s₀ vm₀ info (if (slots.filter fun t => t.item.number ≠ n).isEmpty then none else watch)
      (slots.filter fun t => t.item.number ≠ n) count s vm := by
  have hsame : (slots.filter fun t => t.item.number ≠ n) = slots :=
    List.filter_eq_self.2 fun t ht => decide_eq_true (hno t ht)
  have hwatch : (if slots.isEmpty then none else watch) = watch := by
    cases hslots : slots with
    | nil => exact (h.needed hslots).symm
    | cons t ts => rfl
  rwa [hsame, hwatch]

theorem setEnabled (h : Laid s₀ vm₀ info watch slots count s vm) (hids : s₀.FreshIds total)
    (hcount : count ≤ total) (hn : n < total) {room : Nat} (hroom : vm.Room room) (enabled : Bool) :
    ∃ s' vm', (exec (Session.setEnabled (s₀.nthId n) enabled) s vm).2 = (s', vm') ∧
      Laid s₀ vm₀ info watch (slots.map (Slot.switchAt n enabled)) count s' vm' ∧ vm'.Room room := by
  by_cases hleft : ∃ t ∈ slots, t.item.number = n
  · obtain ⟨t, ht, rfl⟩ := hleft
    obtain ⟨s', hrun, hlaid⟩ := h.exec_setEnabled hids hcount ht enabled
    rw [Slot.replaceIn_switch fun u hu hn => h.eq_of_number ht hu hn] at hlaid
    exact ⟨s', _, congrArg Prod.snd hrun, hlaid, hroom.switched _ _⟩
  · have hno : ∀ t ∈ slots, t.item.number ≠ n := fun t ht heq => hleft ⟨t, ht, heq⟩
    exact ⟨s, vm, h.exec_setEnabled_of_notMem hids hcount hn hno enabled,
      h.switched_of_notMem hno enabled, hroom⟩

theorem remove (h : Laid s₀ vm₀ info watch slots count s vm) (hids : s₀.FreshIds total)
    (hcount : count ≤ total) (hn : n < total) {room : Nat} (hroom : vm.Room room) :
    ∃ s' vm', (exec (Session.removeBreakpoint (s₀.nthId n)) s vm).2 = (s', vm') ∧
      Laid s₀ vm₀ info
        (if (slots.filter fun t => t.item.number ≠ n).isEmpty then none else watch)
        (slots.filter fun t => t.item.number ≠ n) count s' vm' ∧ vm'.Room room := by
  by_cases hleft : ∃ t ∈ slots, t.item.number = n
  · obtain ⟨t, ht, rfl⟩ := hleft
    obtain ⟨s', rs, hrun, hlaid⟩ := h.exec_remove hids hcount ht
    exact ⟨s', _, congrArg Prod.snd hrun, hlaid, hroom.without rs⟩
  · have hno : ∀ t ∈ slots, t.item.number ≠ n := fun t ht heq => hleft ⟨t, ht, heq⟩
    exact ⟨s, vm, h.exec_remove_of_notMem hids hcount hn hno, h.filtered_of_notMem hno, hroom⟩

end Laid

end JvmDebug
