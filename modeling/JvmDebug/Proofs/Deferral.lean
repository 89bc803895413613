import JvmDebug.Proofs.OwnershipEvents

/-!
Breakpoints that are not installed yet. While breakpoints are only added, each of them waits behind
the watch of its class or is in the hands of the event loop, which is about to install it.
-/
namespace JvmDebug

namespace BreakpointTable

def deferred (t : BreakpointTable) : Multiset (String × String) :=
  t.entries.sum fun id e => if e.breakpoint.pending then {(id, e.breakpoint.className)} else 0

def queued (t : BreakpointTable) : Multiset (String × String) :=
  t.pending.sum fun name p => (p.ids.map fun id => (id, name) : List (String × String))

def AllEnabled (t : BreakpointTable) : Prop :=
  ∀ id e, t.entries.get? id = some e → e.breakpoint.id = id ∧ e.breakpoint.enabled = true

variable {t : BreakpointTable}

theorem mem_deferred {id name : String} :
    (id, name) ∈ t.deferred ↔
      ∃ e, t.entries.get? id = some e ∧ e.breakpoint.pending = true ∧
        e.breakpoint.className = name := by
  rw [deferred, Dict.mem_sum]
  constructor
  · rintro ⟨k, e, he, hx⟩
    split at hx
    · next hpending =>
      cases Multiset.mem_singleton.1 hx
      exact ⟨e, he, hpending, rfl⟩
    · exact (Multiset.notMem_zero _ hx).elim
  · rintro ⟨e, he, hpending, rfl⟩
    exact ⟨id, e, he, by simp [hpending]⟩

theorem mem_queued {id name : String} :
    (id, name) ∈ t.queued ↔ ∃ p, t.pending.get? name = some p ∧ id ∈ p.ids := by
  rw [queued, Dict.mem_sum]
  constructor
  · rintro ⟨k, p, hp, hx⟩
    obtain ⟨_, hid, heq⟩ := List.mem_map.1 (Multiset.mem_coe.1 hx)
    cases heq
    exact ⟨p, hp, hid⟩
  · rintro ⟨p, hp, hid⟩
    exact ⟨name, p, hp, Multiset.mem_coe.2 (List.mem_map.2 ⟨id, hid, rfl⟩)⟩

/-! ## Adding -/

theorem deferred_insertInstalled {b : Breakpoint} (h : t.entries.get? b.id = none)
    (requests : List RequestId) : (t.insertInstalled b requests).deferred = t.deferred := by
  simp only [deferred, insertInstalled, insert]
  rw [Dict.sum_insert h]
  exact add_zero _

theorem deferred_insertPending {b : Breakpoint} (h : t.entries.get? b.id = none)
    (watch : RequestId) :
    (t.insertPending b watch).deferred = t.deferred + {(b.id, b.className)} := by
  simp only [deferred, insertPending, insert]
  rw [Dict.sum_insert h]
  rfl

theorem queued_insertPending (t : BreakpointTable) (b : Breakpoint) (watch : RequestId) :
    (t.insertPending b watch).queued = t.queued + {(b.id, b.className)} := by
  simp only [queued, insertPending, insert]
  cases hp : t.pending.get? b.className with
  | none =>
    rw [Dict.sum_insert hp]
    rfl
  | some p =>
    rw [Dict.sum_modify hp, Dict.sum_erase hp, List.map_append, ← Multiset.coe_add]
    exact add_right_comm _ _ _

theorem AllEnabled.insert {b : Breakpoint} {requests : List RequestId} (ht : t.AllEnabled)
    (hb : b.enabled = true) : (t.insert b requests).AllEnabled := by
  intro id e he
  simp only [BreakpointTable.insert, Dict.get?_insert] at he
  split at he
  · next h =>
    cases he
    exact ⟨h.symm, hb⟩
  · exact ht id e he

/-! ## Installing -/

theorem queued_takePending {name : String} {p : PendingClass}
    (h : t.pending.get? name = some p) :
    t.queued = (p.ids.map fun id => (id, name) : List (String × String)) +
      (t.takePending name).2.queued := by
  simp only [queued, takePending, h]
  rw [Dict.sum_erase h]

theorem taken_eq {name : String} {p : PendingClass} (h : t.pending.get? name = some p)
    (ht : t.AllEnabled) (hqueued : ∀ x ∈ t.queued, x ∈ t.deferred) :
    (p.ids.filterMap t.get?).map (fun b => (b.id, name)) = p.ids.map fun id => (id, name) := by
  have hget : ∀ id ∈ p.ids, ∃ b, t.get? id = some b ∧ b.id = id := by
    intro id hid
    obtain ⟨e, he, -⟩ := mem_deferred.1 (hqueued _ (mem_queued.2 ⟨p, h, hid⟩))
    exact ⟨e.breakpoint, by rw [get?, he, Option.map_some], (ht id e he).1⟩
  generalize p.ids = ids at hget
  induction ids with
  | nil => rfl
  | cons id ids ih =>
    obtain ⟨b, hb, hid⟩ := hget id List.mem_cons_self
    rw [List.filterMap_cons, hb, List.map_cons, List.map_cons, hid,
      ih fun id hid => hget id (List.mem_cons_of_mem _ hid)]

theorem deferred_materialize {id name : String} (h : (id, name) ∈ t.deferred)
    (requests : List RequestId) :
    t.deferred = {(id, name)} + (t.materialize id requests).2.deferred := by
  obtain ⟨e, he, hpending, rfl⟩ := mem_deferred.1 h
  simp only [deferred, materialize, he]
  rw [Dict.sum_modify he, Dict.sum_erase he, hpending]
  simp

theorem queued_materialize (t : BreakpointTable) (id : String) (requests : List RequestId) :
    (t.materialize id requests).2.queued = t.queued := by
  simp only [queued, materialize]
  split <;> rfl

theorem AllEnabled.modify {id : String} {f : BreakpointEntry → BreakpointEntry}
    {owners : Dict RequestId String} (ht : t.AllEnabled)
    (hid : ∀ e, (f e).breakpoint.id = e.breakpoint.id)
    (hon : ∀ e, e.breakpoint.enabled = true → (f e).breakpoint.enabled = true) :
    AllEnabled { t with entries := t.entries.modify id f, owners } := by
  intro j e he
  simp only [Dict.get?_modify] at he
  split at he
  · next h =>
    obtain ⟨e', he', rfl⟩ := Option.map_eq_some_iff.1 he
    obtain ⟨hj, hen⟩ := ht id e' he'
    exact ⟨(hid e').trans (hj.trans h.symm), hon e' hen⟩
  · exact ht j e he

theorem AllEnabled.materialize (ht : t.AllEnabled) (id : String) (requests : List RequestId) :
    (t.materialize id requests).2.AllEnabled ∧ (t.materialize id requests).1 ≠ some false := by
  simp only [BreakpointTable.materialize]
  cases he : t.entries.get? id with
  | none => exact ⟨ht, by simp⟩
  | some e =>
    obtain ⟨hid, hon⟩ := ht id e he
    refine ⟨fun j e' he' => ?_, by simp [hon]⟩
    simp only [Dict.get?_modify] at he'
    split at he'
    · next h =>
      rw [he] at he'
      cases he'
      exact ⟨hid.trans h.symm, hon⟩
    · exact ht j e' he'

/-! ## Hits -/

theorem recordHit_keeps (t : BreakpointTable) (r : RequestId) :
    (t.recordHit r).2.deferred = t.deferred ∧ (t.recordHit r).2.pending = t.pending ∧
      (t.AllEnabled → (t.recordHit r).2.AllEnabled) := by
  simp only [recordHit]
  split
  · exact ⟨rfl, rfl, id⟩
  · refine ⟨?_, rfl, fun ht => ht.modify (fun _ => rfl) fun _ h => h⟩
    simp only [deferred]
    rw [Dict.sum_modify_of_eq]
    intro v
    rfl

end BreakpointTable

end JvmDebug
