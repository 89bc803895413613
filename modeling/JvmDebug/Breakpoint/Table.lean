import JvmDebug.Breakpoint
import JvmDebug.Dict

/-!
The breakpoints of a session with the requests that stand for them on the target. The tables only
keep the books: making and deleting requests is left to their users.
-/
namespace JvmDebug

structure BreakpointEntry where
  breakpoint : Breakpoint
  requests : List RequestId
  deriving DecidableEq, Repr

/-- The watch for a class that is not loaded, and the breakpoints that wait for it. -/
structure PendingClass where
  watch : RequestId
  ids : List String
  deriving DecidableEq, Repr

structure BreakpointTable where
  entries : Dict String BreakpointEntry := .empty
  pending : Dict String PendingClass := .empty
  owners : Dict RequestId String := .empty
  deriving Repr, Inhabited

namespace BreakpointTable

def get? (t : BreakpointTable) (id : String) : Option Breakpoint :=
  (t.entries.get? id).map BreakpointEntry.breakpoint

def toList (t : BreakpointTable) : List Breakpoint :=
  t.entries.values.map BreakpointEntry.breakpoint

def own (t : BreakpointTable) (id : String) (requests : List RequestId) : Dict RequestId String :=
  requests.foldl (fun owners r => owners.insert r id) t.owners

def insert (t : BreakpointTable) (b : Breakpoint) (requests : List RequestId) : BreakpointTable :=
  { t with
    entries := t.entries.insert b.id ⟨b, requests⟩
    owners := t.own b.id requests }

def insertInstalled (t : BreakpointTable) (b : Breakpoint) (requests : List RequestId) :
    BreakpointTable :=
  t.insert { b with pending := false, resolvedLocations := requests.length } requests

/-- The breakpoint joins those that wait for its class; `watch` counts only if it is the first. -/
def insertPending (t : BreakpointTable) (b : Breakpoint) (watch : RequestId) : BreakpointTable :=
  let pending := match t.pending.get? b.className with
    | some p => t.pending.modify b.className fun _ => { p with ids := p.ids ++ [b.id] }
    | none => t.pending.insert b.className ⟨watch, [b.id]⟩
  { t with pending }.insert { b with pending := true, resolvedLocations := 0 } []

def watch? (t : BreakpointTable) (className : String) : Option RequestId :=
  (t.pending.get? className).map PendingClass.watch

/-- Take the watch of a class and the breakpoints that wait for it, to be installed. A second
taking finds nothing. -/
def takePending (t : BreakpointTable) (className : String) :
    Option (RequestId × List Breakpoint) × BreakpointTable :=
  match t.pending.get? className with
  | none => (none, t)
  | some p =>
    (some (p.watch, p.ids.filterMap t.get?), { t with pending := t.pending.erase className })

/-- Give a taken breakpoint its requests and return whether it is enabled; nothing is done for
one that was removed meanwhile. -/
def materialize (t : BreakpointTable) (id : String) (requests : List RequestId) :
    Option Bool × BreakpointTable :=
  match t.entries.get? id with
  | none => (none, t)
  | some e =>
    let all := e.requests ++ requests
    let b := { e.breakpoint with pending := false, resolvedLocations := all.length }
    (some b.enabled,
      { t with entries := t.entries.modify id fun _ => ⟨b, all⟩, owners := t.own id requests })

theorem materialize_of_none {t : BreakpointTable} {id : String} {requests : List RequestId}
    (h : (t.materialize id requests).1 = none) : (t.materialize id requests).2 = t := by
  simp only [materialize] at h ⊢
  split at h
  · rfl
  · cases h

def recordHit (t : BreakpointTable) (r : RequestId) : Option String × BreakpointTable :=
  match t.owners.get? r with
  | none => (none, t)
  | some id =>
    let hit (e : BreakpointEntry) : BreakpointEntry :=
      { e with breakpoint := { e.breakpoint with hitCount := e.breakpoint.hitCount + 1 } }
    (some id, { t with entries := t.entries.modify id hit })

def setEnabled (t : BreakpointTable) (id : String) (enabled : Bool) :
    Option (List RequestId) × BreakpointTable :=
  match t.entries.get? id with
  | none => (none, t)
  | some e =>
    let set (e : BreakpointEntry) : BreakpointEntry :=
      { e with breakpoint := { e.breakpoint with enabled } }
    (some e.requests, { t with entries := t.entries.modify id set })

/-- Remove a breakpoint and return its requests, and the watch of its class if no other
breakpoint waits for it. -/
def remove (t : BreakpointTable) (id : String) :
    Option (List RequestId × Option RequestId) × BreakpointTable :=
  match t.entries.get? id with
  | none => (none, t)
  | some e =>
    let owners := e.requests.foldl (fun owners r => owners.erase r) t.owners
    let entries := t.entries.erase id
    let className := e.breakpoint.className
    match t.pending.get? className with
    | none => (some (e.requests, none), { t with entries, owners })
    | some p =>
      let ids := p.ids.filter (· ≠ id)
      if ids.isEmpty then
        (some (e.requests, some p.watch),
          { entries, owners, pending := t.pending.erase className })
      else
        (some (e.requests, none),
          { entries, owners, pending := t.pending.modify className fun _ => { p with ids } })

section Remove
variable {t : BreakpointTable} {id : String} {e : BreakpointEntry}

theorem remove_of_none (hnone : t.entries.get? id = none) : t.remove id = (none, t) := by
  simp only [remove, hnone]

theorem entries_remove (he : t.entries.get? id = some e) :
    (t.remove id).2.entries = t.entries.erase id := by
  simp only [remove, he]
  split
  · rfl
  · split <;> rfl

theorem owners_remove (he : t.entries.get? id = some e) :
    (t.remove id).2.owners = e.requests.foldl (fun owners r => owners.erase r) t.owners := by
  simp only [remove, he]
  split
  · rfl
  · split <;> rfl

/-- With the requests of a breakpoint comes back the watch that nobody else waits behind. -/
theorem remove_fst (he : t.entries.get? id = some e) :
    (t.remove id).1 = some (e.requests, (t.pending.get? e.breakpoint.className).bind fun p =>
      if (p.ids.filter (· ≠ id)).isEmpty then some p.watch else none) := by
  simp only [remove, he]
  split
  · next hp => rw [hp, Option.bind_none]
  · next p hp =>
    rw [hp, Option.bind_some]
    split <;> rfl

theorem pending_remove (he : t.entries.get? id = some e) (name : String) :
    (t.remove id).2.pending.get? name =
      if name = e.breakpoint.className then (t.pending.get? name).bind fun p =>
        if (p.ids.filter (· ≠ id)).isEmpty then none else some { p with ids := p.ids.filter (· ≠ id) }
      else t.pending.get? name := by
  simp only [remove, he]
  split
  · next hp =>
    split
    · next hname => rw [hname, hp, Option.bind_none]
    · rfl
  · next p hp =>
    split
    · next hids =>
      rw [Dict.get?_erase]
      split
      · next hname => rw [hname, hp, Option.bind_some, if_pos hids]
      · rfl
    · next hids =>
      rw [Dict.get?_modify]
      split
      · next hname => rw [hname, hp, Option.bind_some, if_neg hids, Option.map_some]
      · rfl

end Remove

def allRequests (t : BreakpointTable) : List RequestId :=
  t.entries.values.flatMap BreakpointEntry.requests ++ t.pending.values.map PendingClass.watch

end BreakpointTable

structure ExceptionEntry where
  breakpoint : ExceptionBreakpoint
  request : RequestId
  deriving DecidableEq, Repr

structure ExceptionTable where
  entries : Dict String ExceptionEntry := .empty
  deriving Repr, Inhabited

namespace ExceptionTable

def toList (t : ExceptionTable) : List ExceptionBreakpoint :=
  t.entries.values.map ExceptionEntry.breakpoint

def insert (t : ExceptionTable) (b : ExceptionBreakpoint) (r : RequestId) : ExceptionTable :=
  ⟨t.entries.insert b.id ⟨b, r⟩⟩

def setEnabled (t : ExceptionTable) (id : String) (enabled : Bool) :
    Option RequestId × ExceptionTable :=
  ((t.entries.get? id).map ExceptionEntry.request,
    ⟨t.entries.modify id fun e => { e with breakpoint := { e.breakpoint with enabled } }⟩)

def remove (t : ExceptionTable) (id : String) : Option RequestId × ExceptionTable :=
  ((t.entries.get? id).map ExceptionEntry.request, ⟨t.entries.erase id⟩)

def allRequests (t : ExceptionTable) : List RequestId :=
  t.entries.values.map ExceptionEntry.request

end ExceptionTable

end JvmDebug
