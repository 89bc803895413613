import JvmDebug.Proofs.DictSum
import JvmDebug.Session
import JvmDebug.Vm.Answer
import Mathlib.Algebra.Order.Group.Multiset
import Mathlib.Data.Multiset.MapFold
import Mathlib.Tactic.Abel

/-!
The requests of the target and the tables of a session as accounts: which request is filed with the
target for what, and which the tables have booked. Each operation on a table moves accounts in or
out, and everything else leaves them as they are.
-/
namespace JvmDebug

/-- What a request that a table keeps is made for. -/
inductive Topic
  | breakpoint
  | classPrepare (name : String)
  | exception
  deriving DecidableEq, Repr

def RequestKind.topic? : RequestKind → Option Topic
  | .breakpoint _ => some .breakpoint
  | .classPrepare name => some (.classPrepare name)
  | .exception .. => some .exception
  | _ => none

/-- Requests with what they are for. -/
abbrev Accounts := Multiset (RequestId × Topic)

namespace Accounts

def one (r : RequestId) (topic : Topic) : Accounts := {(r, topic)}

def ofBreakpoints (requests : List RequestId) : Accounts :=
  (requests.map fun r => (r, Topic.breakpoint) : List (RequestId × Topic))

@[simp] theorem ofBreakpoints_nil : ofBreakpoints [] = 0 := rfl

theorem ofBreakpoints_append (rs qs : List RequestId) :
    ofBreakpoints (rs ++ qs) = ofBreakpoints rs + ofBreakpoints qs := by
  rw [ofBreakpoints, List.map_append]
  rfl

def Of (a : Accounts) (requests : List RequestId) : Prop := a.map Prod.fst = requests

theorem of_ofBreakpoints (requests : List RequestId) : (ofBreakpoints requests).Of requests := by
  simp [Of, ofBreakpoints, Function.comp_def]

theorem of_one (r : RequestId) (topic : Topic) : (one r topic).Of [r] := rfl

theorem Of.add {a b : Accounts} {rs qs : List RequestId} (ha : a.Of rs) (hb : b.Of qs) :
    (a + b).Of (rs ++ qs) := by
  simp only [Of] at *
  rw [Multiset.map_add, ha, hb, Multiset.coe_add]

theorem Of.cons {a : Accounts} {r : RequestId} {rs : List RequestId} (h : a.Of (r :: rs)) :
    ∃ topic b, a = one r topic + b ∧ b.Of rs := by
  have hr : r ∈ a.map Prod.fst := by
    rw [h]
    exact List.mem_cons_self
  obtain ⟨⟨_, topic⟩, hmem, rfl⟩ := Multiset.mem_map.1 hr
  obtain ⟨b, rfl⟩ := Multiset.exists_cons_of_mem hmem
  refine ⟨topic, b, rfl, ?_⟩
  simp only [Of, Multiset.map_cons, ← Multiset.cons_coe] at h ⊢
  exact (Multiset.cons_inj_right _).1 h

theorem Of.nil {a : Accounts} (h : a.Of []) : a = 0 := Multiset.map_eq_zero.1 h

theorem of_sum {β : Type} {weight : β → Accounts} {requests : β → List RequestId}
    (h : ∀ x, (weight x).Of (requests x)) (l : List β) :
    (l.map weight).sum.Of (l.flatMap requests) := by
  induction l with
  | nil => rfl
  | cons x l ih => simpa only [List.map_cons, List.sum_cons, List.flatMap_cons] using (h x).add ih

end Accounts

/-! ## The breakpoint table -/

namespace BreakpointTable

def accounts (t : BreakpointTable) : Accounts :=
  t.entries.sum (fun _ e => Accounts.ofBreakpoints e.requests) +
    t.pending.sum fun name p => Accounts.one p.watch (.classPrepare name)

def names (t : BreakpointTable) : Multiset String := t.entries.sum fun id _ => {id}

variable {t : BreakpointTable}

theorem accounts_insertInstalled {b : Breakpoint} (h : t.entries.get? b.id = none)
    (requests : List RequestId) :
    (t.insertInstalled b requests).accounts = t.accounts + Accounts.ofBreakpoints requests := by
  simp only [accounts, insertInstalled, insert]
  rw [Dict.sum_insert h, add_right_comm]

theorem names_insertInstalled {b : Breakpoint} (h : t.entries.get? b.id = none)
    (requests : List RequestId) : (t.insertInstalled b requests).names = t.names + {b.id} :=
  Dict.sum_insert h _ _

theorem accounts_insertPending_of_none {b : Breakpoint} (h : t.entries.get? b.id = none)
    (hw : t.watch? b.className = none) (watch : RequestId) :
    (t.insertPending b watch).accounts =
      t.accounts + Accounts.one watch (.classPrepare b.className) := by
  have hp : t.pending.get? b.className = none := by simpa [watch?] using hw
  simp only [accounts, insertPending, insert, hp]
  rw [Dict.sum_insert h, Dict.sum_insert hp, Accounts.ofBreakpoints_nil, add_zero, add_assoc]

theorem accounts_insertPending_of_some {b : Breakpoint} (h : t.entries.get? b.id = none)
    {old : RequestId} (hw : t.watch? b.className = some old) (watch : RequestId) :
    (t.insertPending b watch).accounts = t.accounts := by
  obtain ⟨p, hp, -⟩ := Option.map_eq_some_iff.1 hw
  simp only [accounts, insertPending, insert, hp]
  rw [Dict.sum_insert h, Dict.sum_modify hp, Accounts.ofBreakpoints_nil, add_zero]
  rw [Dict.sum_erase hp]

theorem names_insertPending {b : Breakpoint} (h : t.entries.get? b.id = none)
    (watch : RequestId) : (t.insertPending b watch).names = t.names + {b.id} := by
  simp only [names, insertPending, insert]
  exact Dict.sum_insert h _ _

theorem watch?_insertPending (t : BreakpointTable) (b : Breakpoint) (watch : RequestId) :
    (t.insertPending b watch).watch? b.className = some ((t.watch? b.className).getD watch) := by
  simp only [watch?, insertPending, insert]
  cases hp : t.pending.get? b.className with
  | none => simp [Dict.get?_insert]
  | some p => simp [Dict.get?_modify, hp]

theorem takePending_of_none {name : String} (h : t.pending.get? name = none) :
    t.takePending name = (none, t) := by
  simp only [takePending, h]

theorem accounts_takePending {name : String} {p : PendingClass}
    (h : t.pending.get? name = some p) :
    t.accounts = Accounts.one p.watch (.classPrepare name) + (t.takePending name).2.accounts := by
  simp only [accounts, takePending, h]
  rw [Dict.sum_erase h, add_left_comm]

theorem names_takePending (t : BreakpointTable) (name : String) :
    (t.takePending name).2.names = t.names := by
  simp only [takePending]
  split <;> rfl

theorem accounts_materialize (t : BreakpointTable) (id : String) (requests : List RequestId) :
    (t.materialize id requests).2.accounts = t.accounts +
      if (t.materialize id requests).1.isSome then Accounts.ofBreakpoints requests else 0 := by
  cases he : t.entries.get? id with
  | none => simp [materialize, he]
  | some e =>
    simp only [accounts, materialize, he, Option.isSome_some, if_true]
    rw [Dict.sum_modify he, Dict.sum_erase he, Accounts.ofBreakpoints_append]
    abel

theorem names_materialize (t : BreakpointTable) (id : String) (requests : List RequestId) :
    (t.materialize id requests).2.names = t.names := by
  cases he : t.entries.get? id with
  | none => simp [materialize, he]
  | some e =>
    simp only [names, materialize, he]
    rw [Dict.sum_modify_of_eq]
    intro v
    rfl

theorem accounts_recordHit (t : BreakpointTable) (r : RequestId) :
    (t.recordHit r).2.accounts = t.accounts := by
  simp only [accounts, recordHit]
  split
  · rfl
  · rw [Dict.sum_modify_of_eq]
    intro v
    rfl

theorem names_recordHit (t : BreakpointTable) (r : RequestId) :
    (t.recordHit r).2.names = t.names := by
  simp only [names, recordHit]
  split
  · rfl
  · rw [Dict.sum_modify_of_eq]
    intro v
    rfl

theorem accounts_setEnabled (t : BreakpointTable) (id : String) (enabled : Bool) :
    (t.setEnabled id enabled).2.accounts = t.accounts := by
  simp only [accounts, setEnabled]
  split
  · rfl
  · rw [Dict.sum_modify_of_eq]
    intro v
    rfl

theorem names_setEnabled (t : BreakpointTable) (id : String) (enabled : Bool) :
    (t.setEnabled id enabled).2.names = t.names := by
  simp only [names, setEnabled]
  split
  · rfl
  · rw [Dict.sum_modify_of_eq]
    intro v
    rfl

theorem accounts_remove {id : String} {requests : List RequestId} {watch : Option RequestId}
    (h : (t.remove id).1 = some (requests, watch)) :
    ∃ a : Accounts, a.Of (requests ++ watch.toList) ∧
      t.accounts = a + (t.remove id).2.accounts := by
  simp only [accounts, remove] at *
  cases he : t.entries.get? id with
  | none => simp [he] at h
  | some e =>
    simp only [he] at h ⊢
    cases hp : t.pending.get? e.breakpoint.className with
    | none =>
      simp only [hp, Option.some.injEq, Prod.mk.injEq] at h ⊢
      obtain ⟨rfl, rfl⟩ := h
      refine ⟨_, by simpa using Accounts.of_ofBreakpoints _, ?_⟩
      rw [Dict.sum_erase he, add_assoc]
    | some p =>
      simp only [hp] at h ⊢
      by_cases hlast : (p.ids.filter (· ≠ id)).isEmpty
      · rw [if_pos hlast] at h
        rw [if_pos hlast]
        simp only [Option.some.injEq, Prod.mk.injEq] at h
        obtain ⟨rfl, rfl⟩ := h
        refine ⟨_, (Accounts.of_ofBreakpoints _).add
          (Accounts.of_one p.watch (.classPrepare e.breakpoint.className)), ?_⟩
        rw [Dict.sum_erase he, Dict.sum_erase hp]
        abel
      · rw [if_neg hlast] at h
        rw [if_neg hlast]
        simp only [Option.some.injEq, Prod.mk.injEq] at h
        obtain ⟨rfl, rfl⟩ := h
        refine ⟨_, by simpa using Accounts.of_ofBreakpoints _, ?_⟩
        rw [Dict.sum_erase he, Dict.sum_modify hp, Dict.sum_erase hp]
        abel

theorem names_remove (t : BreakpointTable) (id : String) : (t.remove id).2.names ≤ t.names := by
  cases he : t.entries.get? id with
  | none => rw [remove_of_none he]
  | some e =>
    rw [names, names, entries_remove he, Dict.sum_erase he]
    exact Multiset.le_add_left _ _

theorem accounts_of_allRequests (t : BreakpointTable) : t.accounts.Of t.allRequests := by
  refine Accounts.Of.add ?_ ?_
  · rw [Dict.values, List.flatMap_map]
    exact Accounts.of_sum (fun p : String × BreakpointEntry => Accounts.of_ofBreakpoints p.2.requests) _
  · rw [Dict.values, List.map_map, List.map_eq_flatMap]
    exact Accounts.of_sum (fun p : String × PendingClass =>
      Accounts.of_one p.2.watch (.classPrepare p.1)) _

end BreakpointTable

/-! ## The exception table -/

namespace ExceptionTable

def accounts (t : ExceptionTable) : Accounts :=
  t.entries.sum fun _ e => Accounts.one e.request .exception

def names (t : ExceptionTable) : Multiset String := t.entries.sum fun id _ => {id}

variable {t : ExceptionTable}

theorem accounts_insert {b : ExceptionBreakpoint} (h : t.entries.get? b.id = none)
    (r : RequestId) : (t.insert b r).accounts = t.accounts + Accounts.one r .exception :=
  Dict.sum_insert h _ _

theorem names_insert {b : ExceptionBreakpoint} (h : t.entries.get? b.id = none)
    (r : RequestId) : (t.insert b r).names = t.names + {b.id} :=
  Dict.sum_insert h _ _

theorem accounts_setEnabled (t : ExceptionTable) (id : String) (enabled : Bool) :
    (t.setEnabled id enabled).2.accounts = t.accounts := by
  simp only [accounts, setEnabled]
  rw [Dict.sum_modify_of_eq]
  intro v
  rfl

theorem names_setEnabled (t : ExceptionTable) (id : String) (enabled : Bool) :
    (t.setEnabled id enabled).2.names = t.names := by
  simp only [names, setEnabled]
  rw [Dict.sum_modify_of_eq]
  intro v
  rfl

theorem accounts_remove (t : ExceptionTable) (id : String) :
    ∃ a : Accounts, a.Of (t.remove id).1.toList ∧ t.accounts = a + (t.remove id).2.accounts := by
  simp only [accounts, remove]
  cases he : t.entries.get? id with
  | none => exact ⟨0, rfl, by rw [Dict.sum_erase_of_none he, zero_add]⟩
  | some e => exact ⟨_, Accounts.of_one e.request .exception, Dict.sum_erase he _⟩

theorem names_remove (t : ExceptionTable) (id : String) : (t.remove id).2.names ≤ t.names := by
  simp only [names, remove]
  cases he : t.entries.get? id with
  | none => rw [Dict.sum_erase_of_none he]
  | some e =>
    rw [Dict.sum_erase he]
    exact Multiset.le_add_left _ _

theorem accounts_of_allRequests (t : ExceptionTable) : t.accounts.Of t.allRequests := by
  rw [allRequests, Dict.values, List.map_map, List.map_eq_flatMap]
  exact Accounts.of_sum (fun p : String × ExceptionEntry =>
    Accounts.of_one p.2.request .exception) _

end ExceptionTable

/-! ## Session and target -/

namespace Session

def booked (s : Session) : Accounts := s.breakpoints.accounts + s.exceptions.accounts

def names (s : Session) : Multiset String := s.breakpoints.names + s.exceptions.names

end Session

theorem Dict.get?_none_of_notMem_names {ν : Type} {d : Dict String ν} {id : String}
    (h : id ∉ d.sum fun id _ => ({id} : Multiset String)) : d.get? id = none := by
  cases hg : d.get? id with
  | none => rfl
  | some v =>
    rw [Dict.sum_erase hg] at h
    exact absurd (Multiset.mem_add.2 (.inl (Multiset.mem_singleton_self id))) h

def RequestKind.accounts (r : RequestId) (kind : RequestKind) : Accounts :=
  match kind.topic? with
  | some topic => Accounts.one r topic
  | none => 0

namespace Vm

def filed (vm : Vm) : Accounts := vm.requests.sum fun r q => q.kind.accounts r

variable {vm : Vm}

theorem filed_addRequest (h : vm.requests.get? vm.nextRequest = none) (kind : RequestKind) :
    (vm.addRequest kind).2.filed = vm.filed + kind.accounts vm.nextRequest :=
  Dict.sum_insert h _ _

theorem filed_switchRequest (vm : Vm) (r : RequestId) (enabled : Bool) :
    (vm.switchRequest r enabled).2.filed = vm.filed := by
  simp only [filed, switchRequest]
  split
  · rw [Dict.sum_modify_of_eq]
    intro v
    rfl
  · rfl

theorem mem_filed {r : RequestId} {topic : Topic} :
    (r, topic) ∈ vm.filed ↔ ∃ q, vm.requests.get? r = some q ∧ q.kind.topic? = some topic := by
  have hkind (k : RequestId) (q : Request) :
      (r, topic) ∈ q.kind.accounts k ↔ k = r ∧ q.kind.topic? = some topic := by
    rw [RequestKind.accounts]
    cases q.kind.topic? with
    | none => simp
    | some other => simp [Accounts.one, eq_comm]
  rw [filed, Dict.mem_sum]
  constructor
  · rintro ⟨k, q, hq, hx⟩
    obtain ⟨rfl, htopic⟩ := (hkind k q).1 hx
    exact ⟨q, hq, htopic⟩
  · rintro ⟨q, hq, htopic⟩
    exact ⟨r, q, hq, (hkind r q).2 ⟨rfl, htopic⟩⟩

theorem filed_keys_nodup (vm : Vm) : (vm.filed.map Prod.fst).Nodup := by
  have hle : vm.filed.map Prod.fst ≤ (vm.requests.entries.map Prod.fst : List RequestId) := by
    simp only [filed, Dict.sum]
    induction vm.requests.entries with
    | nil => rfl
    | cons p l ih =>
      have hp : (p.2.kind.accounts p.1).map Prod.fst ≤ {p.1} := by
        rw [RequestKind.accounts]
        cases p.2.kind.topic? with
        | none => exact Multiset.zero_le _
        | some topic => exact le_rfl
      rw [List.map_cons, List.sum_cons, Multiset.map_add, List.map_cons, ← Multiset.cons_coe,
        ← Multiset.singleton_add]
      exact add_le_add hp ih
  exact Multiset.nodup_of_le hle (Multiset.coe_nodup.2 vm.requests.nodup)

theorem filed_deleteRequest {r : RequestId} {topic : Topic} (h : (r, topic) ∈ vm.filed) :
    vm.filed = Accounts.one r topic + (vm.deleteRequest r).2.filed := by
  obtain ⟨q, hq, htopic⟩ := mem_filed.1 h
  have hc : vm.requests.contains r = true := by simp [Dict.contains, hq]
  simp only [filed, deleteRequest, hc, if_true]
  rw [Dict.sum_erase hq, RequestKind.accounts, htopic]

end Vm

end JvmDebug
