import JvmDebug.Proofs.FlagRules
import JvmDebug.Proofs.HitBooks

/-!
Breakpoints that are armed: the requests of each show its flag, each request is found under its own
number and by one breakpoint only, and those on exceptions ask for what their breakpoints are to
stop at. Between the storing of a flag and the last call that tells the target of it some requests
are still due.
-/
namespace JvmDebug

/-! ## Requests of the target -/

namespace Vm

/-- Requests may go, and others may come under numbers that were not given out before. -/
structure Moves (vm vm' : Vm) : Prop where
  next : vm.nextRequest ≤ vm'.nextRequest
  requests : ∀ r q, vm'.requests.get? r = some q →
    vm.requests.get? r = some q ∨ (vm.nextRequest ≤ r ∧ q.id = r)

variable {vm vm' : Vm}

theorem SameBooks.moves (h : vm.SameBooks vm') : vm.Moves vm' :=
  ⟨UInt32.le_of_eq h.nextRequest.symm, fun _ _ hq => .inl (h.requests ▸ hq)⟩

theorem moves_addRequest {kind : RequestKind} (hnext : (vm.addRequest kind).2.nextRequest ≠ 0) :
    vm.Moves (vm.addRequest kind).2 where
  next := UInt32.le_of_lt (lt_addRequest hnext)
  requests r q hq := by
    simp only [addRequest, Dict.get?_insert] at hq
    split at hq
    · next hr =>
      cases hq
      exact .inr ⟨UInt32.le_of_eq hr.symm, hr.symm⟩
    · exact .inl hq

theorem moves_deleteRequest (vm : Vm) (r : RequestId) : vm.Moves (vm.deleteRequest r).2 := by
  simp only [deleteRequest]
  split
  · refine ⟨UInt32.le_refl _, fun q p hp => .inl ?_⟩
    rw [Dict.get?_erase] at hp
    split at hp
    · cases hp
    · exact hp
  · exact SameBooks.rfl.moves

theorem moves_answer {c : Call} (hc : c.leavesFlags) (hnext : (vm.answer c).2.nextRequest ≠ 0) :
    vm.Moves (vm.answer c).2 := by
  have hinspects (h : c.inspects) : vm.Moves (vm.answer c).2 := by
    rw [vm.answer_inspects h]
    exact SameBooks.rfl.moves
  cases c with
  | deleteRequest r => exact vm.moves_deleteRequest r
  | createClassPrepareWatch name => exact moves_addRequest hnext
  | resumeEventSet set => exact (vm.resumeSet_books set).1.moves
  | _ => exact hinspects hc

theorem Moves.shows (h : vm.Moves vm') {r : RequestId} (hr : r < vm.nextRequest) {flag : Bool}
    (hshows : vm.Shows r flag) : vm'.Shows r flag := by
  intro q hq
  rcases h.requests r q hq with hq | ⟨hle, -⟩
  · exact hshows q hq
  · exact absurd (UInt32.lt_of_lt_of_le hr hle) (UInt32.lt_irrefl _)

theorem get?_switchRequest (vm : Vm) (r q : RequestId) (enabled : Bool) :
    (vm.switchRequest r enabled).2.requests.get? q =
      (vm.requests.get? q).map fun p => if q = r then { p with enabled } else p := by
  simp only [switchRequest]
  by_cases hq : q = r
  · subst hq
    split
    · simp [Dict.get?_modify]
    · next hr =>
      have hnone : vm.requests.get? q = none := by simpa [Dict.contains] using hr
      simp [hnone]
  · split <;> simp [Dict.get?_modify, hq]

theorem nextRequest_switchRequest (vm : Vm) (r : RequestId) (enabled : Bool) :
    (vm.switchRequest r enabled).2.nextRequest = vm.nextRequest := by
  simp only [switchRequest]
  split <;> rfl

/-- What an exception breakpoint on a class is narrowed to: the first loaded class of the name, or
nothing if there is none or the name stands for any class. -/
def scopeFor (vm : Vm) (className : String) : Option TypeId :=
  if Session.meansAny className then none
  else (vm.classes.values.find? fun k => k.loaded && k.info.name == className).map fun k => k.info.id

end Vm

/-! ## The invariant -/

/-- The breakpoints stand on the target as they are stored, but for the flags of the requests that
are due. `scope` is what each exception breakpoint is narrowed to, by its id and class name. -/
structure Armed (scope : String → String → Option TypeId) (due : List RequestId) (s : Session)
    (vm : Vm) : Prop where
  indexed : s.breakpoints.Indexed
  below : ∀ x, ∀ r ∈ s.requestsOf x, r < vm.nextRequest
  apart : ∀ x y, x ≠ y → ∀ r ∈ s.requestsOf x, r ∉ s.requestsOf y
  shows : ∀ x flag requests, s.spec? x = some (flag, requests) → ∀ r ∈ requests,
    r ∈ due ∨ vm.Shows r flag
  keyed : ∀ r q, vm.requests.get? r = some q → q.kind.topic?.isSome → q.id = r
  catching : ∀ id e, s.exceptions.entries.get? id = some e →
    ∀ q, vm.requests.get? e.request = some q → q.kind =
      .exception (scope id e.breakpoint.className) e.breakpoint.caught e.breakpoint.uncaught

/-- Requests that were just made: they are on and nobody has them. -/
def Spare (requests : List RequestId) (s : Session) (vm : Vm) : Prop :=
  ∀ r ∈ requests, r < vm.nextRequest ∧ vm.Shows r true ∧ ∀ x, r ∉ s.requestsOf x

/-- Breakpoints may lose their requests. -/
structure Session.Loses (s t : Session) : Prop extends s.Sheds t where
  indexed : s.breakpoints.Indexed → t.breakpoints.Indexed
  exceptions : ∀ id e, t.exceptions.entries.get? id = some e → s.exceptions.entries.get? id = some e

namespace Session
variable {s t : Session}

theorem Quiet.loses (h : s.Quiet t) : s.Loses t :=
  ⟨h.sheds, h.thins.breakpoints.indexed, fun _ _ he => h.exceptions ▸ he⟩

theorem loses_freshId (s : Session) : s.Loses s.freshId.2 :=
  ⟨s.sheds_freshId, s.thins_freshId.breakpoints.indexed, fun _ _ he => he⟩

theorem loses_takePending (name : String) (s : Session) : s.Loses (takePending name s).2 :=
  ⟨sheds_takePending name s, (s.thins_takePending name).breakpoints.indexed, fun _ _ he => he⟩

theorem loses_recordHit (request : Option RequestId) (s : Session) :
    s.Loses (recordHit request s).2 := by
  cases request with
  | none => exact Quiet.rfl.loses
  | some r =>
    refine ⟨sheds_recordHit (some r) s, fun hi => ?_, fun _ _ he => he⟩
    show (s.breakpoints.recordHit r).2.Indexed
    cases howner : s.breakpoints.owners.get? r with
    | none => rwa [BreakpointTable.recordHit_of_none howner]
    | some id => exact hi.recordHit howner

theorem loses_takeOut (id : String) (s : Session) : s.Loses (takeOut id s).2 := by
  refine ⟨sheds_takeOut id s, (thins_takeOut id s).breakpoints.indexed, fun other e he => ?_⟩
  cases hb : s.breakpoints.entries.get? id with
  | some b =>
    obtain ⟨requests, htake⟩ := takeOut_of_some hb
    rwa [htake] at he
  | none =>
    simp only [takeOut_of_none hb, ExceptionTable.remove, Dict.get?_erase] at he
    split at he
    · cases he
    · exact he

theorem loses_takeAll (s : Session) : s.Loses (takeAll s).2 :=
  ⟨sheds_takeAll s, (thins_takeAll s).breakpoints.indexed, fun _ _ he => by cases he⟩

end Session

namespace Armed
variable {scope scope' : String → String → Option TypeId} {due requests : List RequestId}
variable {s t : Session} {vm vm' : Vm}

theorem of_empty (hbreakpoints : s.breakpoints = {}) (hexceptions : s.exceptions = {})
    (hrequests : ∀ r q, vm.requests.get? r = some q → q.kind.topic? = none) :
    Armed scope [] s vm := by
  have hspec (x : SpecRef) : s.spec? x = none := by
    cases x with
    | breakpoint id =>
      simp only [Session.spec?, hbreakpoints]
      rfl
    | exception id =>
      simp only [Session.spec?, hexceptions]
      rfl
  have hnone (x : SpecRef) : s.requestsOf x = [] := by
    rw [Session.requestsOf, hspec]
    rfl
  refine ⟨?_, ?_, ?_, ?_, fun r q hq htopic => ?_, fun id e he => ?_⟩
  · rw [hbreakpoints]
    exact BreakpointTable.indexed_empty
  · simp [hnone]
  · simp [hnone]
  · simp [hspec]
  · rw [hrequests r q hq] at htopic
    cases htopic
  · rw [hexceptions] at he
    cases he

theorem rescope (ha : Armed scope due s vm) (h : ∀ id e, s.exceptions.entries.get? id = some e →
    scope' id e.breakpoint.className = scope id e.breakpoint.className) :
    Armed scope' due s vm where
  indexed := ha.indexed
  below := ha.below
  apart := ha.apart
  shows := ha.shows
  keyed := ha.keyed
  catching id e he q hq := by
    rw [h id e he]
    exact ha.catching id e he q hq

theorem mem_requestsOf {x : SpecRef} {flag : Bool} (hx : s.spec? x = some (flag, requests))
    {r : RequestId} (hr : r ∈ requests) : r ∈ s.requestsOf x := by
  rwa [Session.requestsOf_of_some hx]

theorem exception_below (ha : Armed scope due s vm) {id : String} {e : ExceptionEntry}
    (he : s.exceptions.entries.get? id = some e) : e.request < vm.nextRequest := by
  have hx : s.spec? (.exception id) = some (e.breakpoint.enabled, [e.request]) := by
    simp only [Session.spec?, he, Option.map_some]
  exact ha.below _ _ (mem_requestsOf hx (List.mem_singleton_self _))

/-! ### The target moves -/

theorem moves (ha : Armed scope due s vm) (h : vm.Moves vm') : Armed scope due s vm' where
  indexed := ha.indexed
  below x r hr := UInt32.lt_of_lt_of_le (ha.below x r hr) h.next
  apart := ha.apart
  shows x flag requests hx r hr :=
    (ha.shows x flag requests hx r hr).imp_right fun hon =>
      h.shows (ha.below x r (mem_requestsOf hx hr)) hon
  keyed r q hq htopic := by
    rcases h.requests r q hq with hq | ⟨-, hid⟩
    · exact ha.keyed r q hq htopic
    · exact hid
  catching id e he q hq := by
    rcases h.requests e.request q hq with hq | ⟨hle, -⟩
    · exact ha.catching id e he q hq
    · exact absurd (UInt32.lt_of_lt_of_le (ha.exception_below he) hle) (UInt32.lt_irrefl _)

/-- Switching changes nothing of a request but its flag. -/
theorem request_of_switch {r q : RequestId} {flag : Bool} {p : Request}
    (hp : (vm.switchRequest r flag).2.requests.get? q = some p) :
    ∃ p₀, vm.requests.get? q = some p₀ ∧ p.id = p₀.id ∧ p.kind = p₀.kind ∧
      p.enabled = if q = r then flag else p₀.enabled := by
  rw [vm.get?_switchRequest] at hp
  obtain ⟨p₀, hp₀, rfl⟩ := Option.map_eq_some_iff.1 hp
  refine ⟨p₀, hp₀, ?_⟩
  split <;> exact ⟨rfl, rfl, rfl⟩

/-- A request that is due is switched to the flag of its breakpoint. -/
theorem switch {x : SpecRef} {flag : Bool} {r : RequestId} (ha : Armed scope (r :: due) s vm)
    (hx : s.spec? x = some (flag, requests)) (hr : r ∈ requests) :
    Armed scope due s (vm.switchRequest r flag).2 where
  indexed := ha.indexed
  below y q hq := by
    rw [vm.nextRequest_switchRequest]
    exact ha.below y q hq
  apart := ha.apart
  shows y on qs hy q hq := by
    by_cases hqr : q = r
    · subst hqr
      -- it is nobody else's, so the flag that it shows now is the right one
      have hxy : y = x := by
        by_contra hne
        exact ha.apart y x hne q (mem_requestsOf hy hq) (mem_requestsOf hx hr)
      subst hxy
      obtain ⟨rfl, -⟩ := Prod.mk.inj (Option.some.inj (hx.symm.trans hy))
      refine .inr fun p hp => ?_
      obtain ⟨p₀, -, -, -, henabled⟩ := request_of_switch hp
      rwa [if_pos rfl] at henabled
    · rcases ha.shows y on qs hy q hq with hdue | hshows
      · exact .inl ((List.mem_cons.1 hdue).resolve_left hqr)
      · refine .inr fun p hp => ?_
        obtain ⟨p₀, hp₀, -, -, henabled⟩ := request_of_switch hp
        rw [henabled, if_neg hqr]
        exact hshows p₀ hp₀
  keyed q p hp htopic := by
    obtain ⟨p₀, hp₀, hid, hkind, -⟩ := request_of_switch hp
    rw [hid]
    exact ha.keyed q p₀ hp₀ (hkind ▸ htopic)
  catching id e he p hp := by
    obtain ⟨p₀, hp₀, -, hkind, -⟩ := request_of_switch hp
    rw [hkind]
    exact ha.catching id e he p₀ hp₀

/-! ### The session moves -/

theorem loses (ha : Armed scope due s vm) (h : s.Loses t) : Armed scope due t vm where
  indexed := h.indexed ha.indexed
  below x r hr := ha.below x r (h.mem_requestsOf hr)
  apart x y hne r hr hr' := ha.apart x y hne r (h.mem_requestsOf hr) (h.mem_requestsOf hr')
  shows x flag rs hx r hr := by
    rcases h.specs x with hs | hs
    · exact ha.shows x flag rs (hs ▸ hx) r hr
    · rw [Session.requestsOf_of_some hx] at hs
      rw [hs] at hr
      cases hr
  keyed := ha.keyed
  catching id e he := ha.catching id e (h.exceptions id e he)

/-- Requests that nobody had are booked. They are due, as they are on whatever the flag is. -/
theorem books {x : SpecRef} {flag : Bool} (ha : Armed scope [] s vm) (hspare : Spare requests s vm)
    (h : s.Books t x flag requests) (hindexed : t.breakpoints.Indexed)
    (hcatching : ∀ id e, t.exceptions.entries.get? id = some e →
      ∀ q, vm.requests.get? e.request = some q → q.kind =
        .exception (scope id e.breakpoint.className) e.breakpoint.caught e.breakpoint.uncaught) :
    Armed scope requests t vm where
  indexed := hindexed
  below y r hr := by
    rcases h.mem_requestsOf hr with ⟨-, hr⟩ | hr
    · exact (hspare r hr).1
    · exact ha.below y r hr
  apart y z hne r hr hr' := by
    rcases h.mem_requestsOf hr with ⟨rfl, hr⟩ | hr
    · rcases h.mem_requestsOf hr' with ⟨rfl, -⟩ | hr'
      · exact hne rfl
      · exact (hspare r hr).2.2 z hr'
    · rcases h.mem_requestsOf hr' with ⟨-, hr'⟩ | hr'
      · exact (hspare r hr').2.2 y hr
      · exact ha.apart y z hne r hr hr'
  shows y on rs hy r hr := by
    obtain ⟨⟨old, hx, hold⟩, hothers⟩ := h
    by_cases hyx : y = x
    · subst hyx
      obtain ⟨rfl, rfl⟩ := Prod.mk.inj (Option.some.inj (hx.symm.trans hy))
      rcases List.mem_append.1 hr with hr | hr
      · rcases hold with rfl | hold
        · cases hr
        · exact .inr ((ha.shows y _ _ hold r hr).resolve_left (List.not_mem_nil))
      · exact .inl hr
    · exact .inr ((ha.shows y on rs (hothers y hyx ▸ hy) r hr).resolve_left List.not_mem_nil)
  keyed := ha.keyed
  catching := hcatching

theorem books_on {x : SpecRef} (ha : Armed scope [] s vm) (hspare : Spare requests s vm)
    (h : s.Books t x true requests) (hindexed : t.breakpoints.Indexed)
    (hcatching : ∀ id e, t.exceptions.entries.get? id = some e →
      ∀ q, vm.requests.get? e.request = some q → q.kind =
        .exception (scope id e.breakpoint.className) e.breakpoint.caught e.breakpoint.uncaught) :
    Armed scope [] t vm := by
  have hb := ha.books hspare h hindexed hcatching
  refine { hb with shows := fun y on rs hy r hr => .inr ?_ }
  rcases hb.shows y on rs hy r hr with hdue | hshows
  · by_cases hyx : y = x
    · subst hyx
      obtain ⟨old, hx, -⟩ := h.here
      obtain ⟨rfl, -⟩ := Prod.mk.inj (Option.some.inj (hx.symm.trans hy))
      exact (hspare r hdue).2.1
    · refine absurd ?_ ((hspare r hdue).2.2 y)
      exact mem_requestsOf (h.others y hyx ▸ hy) hr
  · exact hshows

/-- A flag is stored anew: the requests of its breakpoint are due. -/
theorem stores {x : SpecRef} {flag : Bool} (ha : Armed scope [] s vm)
    (h : s.Stores t x flag requests) (hindexed : t.breakpoints.Indexed)
    (hexceptions : ∀ id e, t.exceptions.entries.get? id = some e →
      ∃ e₀ on, s.exceptions.entries.get? id = some e₀ ∧
        e = { e₀ with breakpoint := { e₀.breakpoint with enabled := on } }) :
    Armed scope requests t vm where
  indexed := hindexed
  below y r hr := ha.below y r (h.requestsOf ▸ hr)
  apart y z hne r := by
    rw [h.requestsOf, h.requestsOf]
    exact ha.apart y z hne r
  shows y on rs hy r hr := by
    by_cases hyx : y = x
    · subst hyx
      obtain ⟨-, rfl⟩ := Prod.mk.inj (Option.some.inj (h.here.symm.trans hy))
      exact .inl hr
    · exact .inr ((ha.shows y on rs (h.others y hyx ▸ hy) r hr).resolve_left List.not_mem_nil)
  keyed := ha.keyed
  catching id e he := by
    obtain ⟨e₀, on, he₀, rfl⟩ := hexceptions id e he
    exact ha.catching id e₀ he₀

end Armed

/-! ## Spare requests -/

namespace Spare
variable {requests : List RequestId} {s t : Session} {vm vm' : Vm}

theorem nil (s : Session) (vm : Vm) : Spare [] s vm := fun _ hr => by cases hr

theorem moves (h : Spare requests s vm) (hvm : vm.Moves vm') : Spare requests s vm' := by
  intro r hr
  obtain ⟨hlt, hon, hnot⟩ := h r hr
  exact ⟨UInt32.lt_of_lt_of_le hlt hvm.next, hvm.shows hlt hon, hnot⟩

theorem addRequest {scope : String → String → Option TypeId} {kind : RequestKind}
    (h : Spare requests s vm) (ha : Armed scope [] s vm)
    (hnext : (vm.addRequest kind).2.nextRequest ≠ 0) :
    Spare (requests ++ [vm.nextRequest]) s (vm.addRequest kind).2 := by
  intro r hr
  rcases List.mem_append.1 hr with hr | hr
  · exact h.moves (Vm.moves_addRequest hnext) r hr
  · obtain rfl := List.mem_singleton.1 hr
    refine ⟨Vm.lt_addRequest hnext, fun q hq => ?_, fun x hx => ?_⟩
    · simp only [Vm.addRequest, Dict.get?_insert, if_true] at hq
      cases hq
      rfl
    · exact UInt32.lt_irrefl _ (ha.below x _ hx)

/-- The table finds nobody for a request that nobody has. -/
theorem unowned (h : Spare requests s vm) (hi : s.breakpoints.Indexed) {r : RequestId}
    (hr : r ∈ requests) : s.breakpoints.owners.get? r = none := by
  cases howner : s.breakpoints.owners.get? r with
  | none => rfl
  | some id =>
    obtain ⟨e, he, hmem⟩ := (hi r id).1 howner
    have hx : s.spec? (.breakpoint id) = some (e.breakpoint.enabled, e.requests) := by
      simp only [Session.spec?, he, Option.map_some]
    exact absurd (Armed.mem_requestsOf hx hmem) ((h r hr).2.2 _)

end Spare

end JvmDebug
