import JvmDebug.Proofs.OwnershipEvents
import Mathlib.Data.List.Infix
import Mathlib.Data.Multiset.Filter

/-!
Whenever no operation is in flight, the requests of the target are those of the session's tables:
each breakpoint request is one of one breakpoint, each class that breakpoints wait for has one
watch, and each exception request is one of one exception breakpoint.
-/
namespace JvmDebug

/-! ## Requests on a topic -/

def Vm.requestsOn (vm : Vm) (topic : Topic) : List RequestId :=
  vm.requests.entries.filterMap fun p => if p.2.kind.topic? = some topic then some p.1 else none

/-- The target's requests are those of the tables. -/
structure Session.Owns (s : Session) (vm : Vm) : Prop where
  breakpoints : (vm.requestsOn .breakpoint).Perm
    (s.breakpoints.entries.values.flatMap BreakpointEntry.requests)
  one_owner : (s.breakpoints.entries.values.flatMap BreakpointEntry.requests).Nodup
  watches : ∀ name, vm.requestsOn (.classPrepare name) = (s.breakpoints.watch? name).toList
  exceptions : (vm.requestsOn .exception).Perm s.exceptions.allRequests

namespace Accounts

def on (a : Accounts) (topic : Topic) : Multiset RequestId :=
  (a.filter fun x => x.2 = topic).map Prod.fst

theorem on_add (a b : Accounts) (topic : Topic) : (a + b).on topic = a.on topic + b.on topic := by
  simp only [on, Multiset.filter_add, Multiset.map_add]

@[simp] theorem on_zero (topic : Topic) : on 0 topic = 0 := rfl

theorem on_one (r : RequestId) (topic wanted : Topic) :
    (one r topic).on wanted = if topic = wanted then {r} else 0 := by
  by_cases h : topic = wanted
  · subst h
    rw [if_pos rfl, on, one, Multiset.filter_singleton, if_pos rfl, Multiset.map_singleton]
  · rw [if_neg h, on, one, Multiset.filter_singleton, if_neg h]
    rfl

theorem on_ofBreakpoints (requests : List RequestId) :
    (ofBreakpoints requests).on .breakpoint = requests := by
  rw [on, Multiset.filter_eq_self.2]
  · exact of_ofBreakpoints requests
  · intro x hx
    obtain ⟨r, -, rfl⟩ := List.mem_map.1 (Multiset.mem_coe.1 hx)
    rfl

theorem on_ofBreakpoints_of_ne (requests : List RequestId) {topic : Topic}
    (h : topic ≠ .breakpoint) : (ofBreakpoints requests).on topic = 0 := by
  rw [on, Multiset.filter_eq_nil.2]
  · rfl
  · intro x hx
    obtain ⟨r, -, rfl⟩ := List.mem_map.1 (Multiset.mem_coe.1 hx)
    exact h.symm

theorem on_sum {κ ν : Type} (d : Dict κ ν) (weight : κ → ν → Accounts) (topic : Topic) :
    (d.sum weight).on topic = d.sum fun k v => (weight k v).on topic := by
  simp only [Dict.sum]
  induction d.entries with
  | nil => rfl
  | cons p l ih => simp only [List.map_cons, List.sum_cons, on_add, ih]

end Accounts

namespace Dict
variable {κ ν : Type} [DecidableEq κ]

omit [DecidableEq κ] in
theorem sum_zero {M : Type} [AddCommMonoid M] (d : Dict κ ν) :
    d.sum (fun _ _ => (0 : M)) = 0 := by
  simp [sum]

omit [DecidableEq κ] in
theorem sum_coe {β : Type} (d : Dict κ ν) (items : ν → List β) :
    d.sum (fun _ v => (items v : Multiset β)) = (d.values.flatMap items : List β) := by
  simp only [sum, values]
  induction d.entries with
  | nil => rfl
  | cons p l ih => simp [ih]

theorem sum_key {M : Type} [AddCommMonoid M] (d : Dict κ ν) (j : κ) (weight : ν → M) :
    d.sum (fun k v => if k = j then weight v else 0) = (d.get? j).elim 0 weight := by
  have hno (d : Dict κ ν) (h : d.get? j = none) :
      d.sum (fun k v => if k = j then weight v else 0) = 0 := by
    refine List.sum_eq_zero fun x hx => ?_
    obtain ⟨p, hp, rfl⟩ := List.mem_map.1 hx
    refine if_neg fun hpj => ?_
    have := mem_entries.1 (hpj ▸ hp : (j, p.2) ∈ d.entries)
    rw [h] at this
    cases this
  cases h : d.get? j with
  | none => exact hno d h
  | some v =>
    rw [sum_erase h, if_pos rfl, hno _ (by rw [get?_erase, if_pos rfl]), add_zero]
    rfl

end Dict

theorem Vm.filed_on (vm : Vm) (topic : Topic) : vm.filed.on topic = vm.requestsOn topic := by
  rw [filed, Accounts.on_sum]
  simp only [Dict.sum, requestsOn]
  induction vm.requests.entries with
  | nil => rfl
  | cons p l ih =>
    rw [List.map_cons, List.sum_cons, ih, List.filterMap_cons, RequestKind.accounts]
    cases p.2.kind.topic? with
    | none => simp
    | some other =>
      by_cases h : other = topic
      · simp [Accounts.on_one, h]
      · simp [Accounts.on_one, h]

theorem BreakpointTable.accounts_on_breakpoint (t : BreakpointTable) :
    t.accounts.on .breakpoint =
      (t.entries.values.flatMap BreakpointEntry.requests : List RequestId) := by
  rw [accounts, Accounts.on_add, Accounts.on_sum, Accounts.on_sum]
  simp only [Accounts.on_ofBreakpoints, Accounts.on_one, reduceCtorEq, if_false]
  rw [Dict.sum_coe, Dict.sum_zero, add_zero]

theorem BreakpointTable.accounts_on_classPrepare (t : BreakpointTable) (name : String) :
    t.accounts.on (.classPrepare name) = ((t.watch? name).toList : List RequestId) := by
  rw [accounts, Accounts.on_add, Accounts.on_sum, Accounts.on_sum]
  simp only [Accounts.on_ofBreakpoints_of_ne _ (by simp : Topic.classPrepare name ≠ .breakpoint),
    Accounts.on_one, Topic.classPrepare.injEq]
  rw [Dict.sum_zero, zero_add,
    Dict.sum_key t.pending name fun p => ({p.watch} : Multiset RequestId), watch?]
  cases t.pending.get? name <;> rfl

theorem BreakpointTable.accounts_on_exception (t : BreakpointTable) :
    t.accounts.on .exception = 0 := by
  rw [accounts, Accounts.on_add, Accounts.on_sum, Accounts.on_sum]
  simp only [Accounts.on_ofBreakpoints_of_ne _ (by simp : Topic.exception ≠ .breakpoint),
    Accounts.on_one, reduceCtorEq, if_false]
  rw [Dict.sum_zero, Dict.sum_zero, add_zero]

theorem ExceptionTable.accounts_on (t : ExceptionTable) (topic : Topic) :
    t.accounts.on topic = if topic = .exception then (t.allRequests : Multiset RequestId) else 0 := by
  rw [accounts, Accounts.on_sum]
  simp only [Accounts.on_one]
  by_cases h : topic = .exception
  · simp only [h, if_true]
    rw [allRequests, List.map_eq_flatMap]
    exact Dict.sum_coe t.entries fun e => [e.request]
  · simp only [h, Ne.symm h, if_false]
    exact Dict.sum_zero _

theorem Balanced.owns {start : Nat} {s : Session} {vm : Vm} (hb : Balanced start 0 s vm) :
    s.Owns vm := by
  have hon (topic : Topic) : (vm.requestsOn topic : Multiset RequestId) =
      s.breakpoints.accounts.on topic + s.exceptions.accounts.on topic := by
    rw [← Vm.filed_on, hb.filed, Prod.fst_zero, add_zero, Session.booked, Accounts.on_add]
  have hbreakpoints : (vm.requestsOn .breakpoint).Perm
      (s.breakpoints.entries.values.flatMap BreakpointEntry.requests) := by
    rw [← Multiset.coe_eq_coe, hon, BreakpointTable.accounts_on_breakpoint,
      ExceptionTable.accounts_on, if_neg (by simp), add_zero]
  refine ⟨hbreakpoints, hbreakpoints.nodup_iff.1 ?_, fun name => ?_, ?_⟩
  · refine Multiset.coe_nodup.1 ?_
    rw [← Vm.filed_on]
    exact Multiset.nodup_of_le (Multiset.map_le_map (Multiset.filter_le _ _)) vm.filed_keys_nodup
  · have := hon (.classPrepare name)
    rw [BreakpointTable.accounts_on_classPrepare, ExceptionTable.accounts_on, if_neg (by simp),
      add_zero, Multiset.coe_eq_coe] at this
    cases hw : s.breakpoints.watch? name with
    | none =>
      rw [hw] at this
      exact List.perm_nil.1 this
    | some watch =>
      rw [hw] at this
      exact List.perm_singleton.1 this
  · rw [← Multiset.coe_eq_coe, hon, BreakpointTable.accounts_on_exception,
      ExceptionTable.accounts_on, if_pos rfl, zero_add]

/-! ## Schedules -/

namespace Scene

/-- Nothing is in flight, the tables are empty, and the target has been asked at most to report
the threads that start and end. -/
structure Fresh (c : Scene) : Prop where
  calls : c.calls = []
  loop : c.loop = .reading
  breakpoints : c.session.breakpoints = {}
  exceptions : c.session.exceptions = {}
  requests : ∀ r q, c.vm.requests.get? r = some q →
    r < c.vm.nextRequest ∧ (q.kind = .threadStart ∨ q.kind = .threadDeath)
  reports : c.vm.reports = []

theorem fresh_connected (origin : Origin) (description id : String) (settings : SessionConfig)
    (createdAt : UInt64) (ids : IdSupply) {vm : Vm} (hrequests : vm.requests = .empty)
    (hnext : vm.nextRequest = 1) (hreports : vm.reports = []) :
    (connected origin description (Session.new id settings createdAt ids) vm).Fresh := by
  rw [connected_eq]
  cases settings.trackThreads with
  | true =>
    refine ⟨rfl, rfl, rfl, rfl, fun r q hq => ?_, hreports⟩
    simp only [if_true, Vm.addRequest, Dict.get?_insert, hrequests, hnext] at hq ⊢
    split at hq
    · next hr =>
      subst hr
      cases hq
      exact ⟨by decide, .inr rfl⟩
    · split at hq
      · next hr =>
        subst hr
        cases hq
        exact ⟨by decide, .inl rfl⟩
      · cases hq
  | false =>
    refine ⟨rfl, rfl, rfl, rfl, fun r q hq => ?_, hreports⟩
    simp only [Bool.false_eq_true, if_false, hrequests] at hq
    cases hq

theorem Fresh.balanced {c : Scene} (hc : c.Fresh) :
    Balanced c.session.ids.next 0 c.session c.vm where
  filed := by
    have hbooked : c.session.booked = 0 := by
      rw [Session.booked, hc.breakpoints, hc.exceptions]
      rfl
    rw [hbooked, Prod.fst_zero, add_zero]
    refine Multiset.eq_zero_of_forall_notMem fun x hx => ?_
    obtain ⟨q, hq, htopic⟩ := Vm.mem_filed.1 hx
    rcases (hc.requests _ _ hq).2 with hkind | hkind
    · rw [hkind] at htopic
      cases htopic
    · rw [hkind] at htopic
      cases htopic
  below r q hq := (hc.requests r q hq).1
  drawn := by
    have hnames : c.session.names = 0 := by
      rw [Session.names, hc.breakpoints, hc.exceptions]
      rfl
    rw [hnames]
    exact c.session.ids.drawn_zero
  no_step r q hq := by
    rcases (hc.requests r q hq).2 with hkind | hkind
    · rw [hkind]
      rfl
    · rw [hkind]
      rfl
  no_step_unread := by
    simp [Vm.unread, hc.reports]

/-- However operations on breakpoints, class loads and the handling of events interleave, whenever
nothing is in flight the target's requests are those of the tables. -/
theorem tables_own_requests {c : Scene} (hc : c.Fresh) {choices : List Choice}
    (hchoices : ∀ x ∈ choices, x.Within (fun o => o.isOnBreakpoints) fun _ => True)
    (hsound : ∀ xs, xs <+: choices →
      Sound c.session.ids.next (c.run xs).session (c.run xs).vm)
    (hidle : (c.run choices).Idle) : (c.run choices).session.Owns (c.run choices).vm := by
  have hkept := Kept.run (ownership_rules c.session.ids.next)
    (Kept.of_fresh hc.calls hc.loop hc.balanced) hchoices hsound
  exact (hkept.idle hidle (hsound choices List.prefix_rfl)).owns

theorem sound_of_one_id {c : Scene} {choices : List Choice}
    (h : ∀ xs ∈ choices.inits, (c.run xs).session.unreachable? = none ∧
      (c.run xs).vm.nextRequest ≠ 0 ∧ (c.run xs).session.ids.next ≤ c.session.ids.next + 1) :
    ∀ xs, xs <+: choices → Sound c.session.ids.next (c.run xs).session (c.run xs).vm := by
  intro xs hxs
  obtain ⟨hreach, hnext, hids⟩ := h xs ((List.mem_inits _ _).2 hxs)
  exact ⟨hreach, hnext, .of_le hids⟩

theorem fresh_sample : sample.Fresh := fresh_connected _ _ _ _ _ _ rfl rfl rfl

/-- A breakpoint that waited for a class is removed while the loop installs it. -/
def removedMeanwhile : List Choice :=
  [.call (.addBreakpoint "app.Main" (.line 7) none), .go 0, .go 0, .go 0, .go 0, .go 0,
    .target (.load 1 2), .loop, .loop, .loop, .loop, .loop,
    .call (.remove "7f4a7c15"), .go 1,
    .loop, .loop, .loop, .loop, .loop]

theorem owns_removedMeanwhile :
    (sample.run removedMeanwhile).session.Owns (sample.run removedMeanwhile).vm := by
  refine tables_own_requests fresh_sample ?_ ?_ ?_
  · simp [removedMeanwhile, Choice.Within, Operation.isOnBreakpoints]
  · exact sound_of_one_id (by decide +kernel)
  · have hcalls : (sample.run removedMeanwhile).calls = [.done none, .done none] := rfl
    refine ⟨?_, trivial⟩
    simp [hcalls]

end Scene

end JvmDebug
