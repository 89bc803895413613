import JvmDebug.Proofs.Crew
import JvmDebug.Proofs.Ledger
import JvmDebug.Proofs.QuietSteps

/-!
The flags of breakpoints and those of their requests on the target. Between the two stands what is
held by the routines in flight: requests that were made and are not booked yet, and calls that are
owed for the requests of a breakpoint since its flag was stored.
-/
namespace JvmDebug

/-! ## Breakpoints of either kind -/

/-- The breakpoint with an id on a line or method, or the one on exceptions. -/
inductive SpecRef
  | breakpoint (id : String)
  | exception (id : String)
  deriving DecidableEq, Repr

namespace Session

/-- The flag of a breakpoint and its requests. -/
def spec? (s : Session) : SpecRef → Option (Bool × List RequestId)
  | .breakpoint id => (s.breakpoints.entries.get? id).map fun e => (e.breakpoint.enabled, e.requests)
  | .exception id => (s.exceptions.entries.get? id).map fun e => (e.breakpoint.enabled, [e.request])

def requestsOf (s : Session) (x : SpecRef) : List RequestId := ((s.spec? x).map Prod.snd).getD []

variable {s t u : Session} {x y : SpecRef}

theorem requestsOf_of_some {flag : Bool} {requests : List RequestId}
    (h : s.spec? x = some (flag, requests)) : s.requestsOf x = requests := by
  rw [requestsOf, h, Option.map_some, Option.getD_some]

theorem requestsOf_congr (h : t.spec? x = s.spec? x) : t.requestsOf x = s.requestsOf x := by
  rw [requestsOf, h, requestsOf]

/-- Breakpoints may lose their requests, and a target that is in reach was so before. -/
structure Sheds (s t : Session) : Prop where
  specs : ∀ y, t.spec? y = s.spec? y ∨ t.requestsOf y = []
  reach : t.unreachable? = none → s.unreachable? = none

theorem Sheds.requestsOf (h : s.Sheds t) : t.requestsOf y = s.requestsOf y ∨ t.requestsOf y = [] :=
  (h.specs y).imp_left requestsOf_congr

theorem Sheds.mem_requestsOf {r : RequestId} (h : s.Sheds t) (hr : r ∈ t.requestsOf y) :
    r ∈ s.requestsOf y := by
  rcases h.requestsOf (y := y) with hy | hy
  · exact hy ▸ hr
  · rw [hy] at hr
    cases hr

theorem Quiet.sheds (h : s.Quiet t) : s.Sheds t where
  specs y := .inl (by cases y <;> simp only [spec?, h.breakpoints, h.exceptions])
  reach := h.reach

theorem sheds_freshId (s : Session) : s.Sheds s.freshId.2 :=
  ⟨fun y => .inl (by cases y <;> rfl), fun h => h⟩

theorem sheds_setBreakpoints {b : BreakpointTable}
    (h : ∀ id, b.entries.get? id = s.breakpoints.entries.get? id ∨
      ∀ e, b.entries.get? id = some e → e.requests = []) :
    s.Sheds { s with breakpoints := b } := by
  refine ⟨fun y => ?_, fun hu => hu⟩
  cases y with
  | exception id => exact .inl rfl
  | breakpoint id =>
    rcases h id with h | h
    · exact .inl (by simp only [spec?, h])
    · right
      simp only [Session.requestsOf, spec?]
      cases he : b.entries.get? id with
      | none => rfl
      | some e => exact h e he

theorem sheds_insertPending (s : Session) (b : Breakpoint) (watch : RequestId) :
    s.Sheds { s with breakpoints := s.breakpoints.insertPending b watch } := by
  refine sheds_setBreakpoints fun id => ?_
  simp only [BreakpointTable.insertPending, BreakpointTable.insert, Dict.get?_insert]
  split
  · right
    rintro e he
    cases he
    rfl
  · exact .inl rfl

theorem sheds_takePending (name : String) (s : Session) : s.Sheds (takePending name s).2 := by
  show s.Sheds { s with breakpoints := (s.breakpoints.takePending name).2 }
  refine sheds_setBreakpoints fun id => .inl ?_
  simp only [BreakpointTable.takePending]
  split <;> rfl

theorem sheds_recordHit (request : Option RequestId) (s : Session) :
    s.Sheds (recordHit request s).2 := by
  cases request with
  | none => exact Quiet.rfl.sheds
  | some r =>
    refine ⟨fun y => .inl ?_, fun hu => hu⟩
    cases y with
    | exception id => rfl
    | breakpoint id =>
      show ((s.breakpoints.recordHit r).2.entries.get? id).map _ = _
      simp only [spec?, BreakpointTable.recordHit]
      split
      · rfl
      · simp only [Dict.get?_modify]
        split
        · next h =>
          subst h
          rw [Option.map_map]
          rfl
        · rfl

theorem sheds_takeOut (id : String) (s : Session) : s.Sheds (takeOut id s).2 := by
  cases he : s.breakpoints.entries.get? id with
  | none =>
    rw [takeOut_of_none he]
    refine ⟨fun y => ?_, fun hu => hu⟩
    cases y with
    | breakpoint other => exact .inl rfl
    | exception other =>
      simp only [spec?, Session.requestsOf, ExceptionTable.remove, Dict.get?_erase]
      split
      · exact .inr rfl
      · exact .inl rfl
  | some e =>
    obtain ⟨requests, htake⟩ := takeOut_of_some he
    rw [htake]
    refine sheds_setBreakpoints fun other => ?_
    rw [BreakpointTable.entries_remove he, Dict.get?_erase]
    split
    · exact .inr fun e he => by cases he
    · exact .inl rfl

theorem sheds_takeAll (s : Session) : s.Sheds (takeAll s).2 :=
  ⟨fun y => .inr (by cases y <;> rfl), fun hu => hu⟩

/-! ### Booking and storing -/

/-- A breakpoint that is new, or not, gets requests. -/
structure Books (s t : Session) (x : SpecRef) (flag : Bool) (requests : List RequestId) : Prop where
  here : ∃ old, t.spec? x = some (flag, old ++ requests) ∧ (old = [] ∨ s.spec? x = some (flag, old))
  others : ∀ y, y ≠ x → t.spec? y = s.spec? y

/-- A request of a breakpoint after the booking was booked just now or belonged to it before. -/
theorem Books.mem_requestsOf {flag : Bool} {requests : List RequestId} {r : RequestId}
    (h : s.Books t x flag requests) (hr : r ∈ t.requestsOf y) :
    (y = x ∧ r ∈ requests) ∨ r ∈ s.requestsOf y := by
  obtain ⟨⟨old, hx, hold⟩, hothers⟩ := h
  by_cases hy : y = x
  · subst hy
    rw [requestsOf_of_some hx, List.mem_append] at hr
    rcases hr with hr | hr
    · rcases hold with rfl | hold
      · cases hr
      · exact .inr (by rwa [requestsOf_of_some hold])
    · exact .inl ⟨rfl, hr⟩
  · exact .inr (requestsOf_congr (hothers y hy) ▸ hr)

theorem books_insertInstalled (s : Session) (b : Breakpoint) (requests : List RequestId) :
    s.Books { s with breakpoints := s.breakpoints.insertInstalled b requests }
      (.breakpoint b.id) b.enabled requests := by
  refine ⟨⟨[], ?_, .inl rfl⟩, fun y hy => ?_⟩
  · simp [spec?, BreakpointTable.insertInstalled, BreakpointTable.insert, Dict.get?_insert]
  · cases y with
    | exception id => rfl
    | breakpoint id =>
      have hne : id ≠ b.id := fun h => hy (h ▸ rfl)
      simp only [spec?, BreakpointTable.insertInstalled, BreakpointTable.insert, Dict.get?_insert,
        if_neg hne]

theorem books_insertException (s : Session) (b : ExceptionBreakpoint) (r : RequestId) :
    s.Books { s with exceptions := s.exceptions.insert b r } (.exception b.id) b.enabled [r] := by
  refine ⟨⟨[], ?_, .inl rfl⟩, fun y hy => ?_⟩
  · simp [spec?, ExceptionTable.insert, Dict.get?_insert]
  · cases y with
    | breakpoint id => rfl
    | exception id =>
      have hne : id ≠ b.id := fun h => hy (h ▸ rfl)
      simp only [spec?, ExceptionTable.insert, Dict.get?_insert, if_neg hne]

theorem books_bookRequests {id : String} {requests : List RequestId} {flag : Bool}
    (h : (bookRequests id requests s).1 = some flag) :
    s.Books (bookRequests id requests s).2 (.breakpoint id) flag requests := by
  simp only [bookRequests, BreakpointTable.materialize] at h ⊢
  cases he : s.breakpoints.entries.get? id with
  | none =>
    simp only [he] at h
    cases h
  | some e =>
    simp only [he, Option.some.injEq] at h ⊢
    subst h
    refine ⟨⟨e.requests, ?_, .inr (by simp only [spec?, he, Option.map_some])⟩, fun y hy => ?_⟩
    · simp [spec?, Dict.get?_modify, he]
    · cases y with
      | exception other => rfl
      | breakpoint other =>
        have hne : other ≠ id := fun h => hy (h ▸ rfl)
        simp only [spec?, Dict.get?_modify, if_neg hne]

theorem bookRequests_of_none {id : String} {requests : List RequestId}
    (h : (bookRequests id requests s).1 = none) : (bookRequests id requests s).2 = s := by
  simp only [bookRequests, BreakpointTable.materialize_of_none h]

/-- The flag of a breakpoint is stored anew. -/
structure Stores (s t : Session) (x : SpecRef) (flag : Bool) (requests : List RequestId) : Prop where
  before : ∃ old, s.spec? x = some (old, requests)
  here : t.spec? x = some (flag, requests)
  others : ∀ y, y ≠ x → t.spec? y = s.spec? y
  reach : t.unreachable? = s.unreachable?

theorem Stores.requestsOf_here {flag : Bool} {requests : List RequestId}
    (h : s.Stores t x flag requests) : s.requestsOf x = requests := by
  obtain ⟨old, hx⟩ := h.before
  exact requestsOf_of_some hx

theorem Stores.requestsOf {flag : Bool} {requests : List RequestId}
    (h : s.Stores t x flag requests) : t.requestsOf y = s.requestsOf y := by
  by_cases hy : y = x
  · rw [hy, h.requestsOf_here, requestsOf_of_some h.here]
  · exact requestsOf_congr (h.others y hy)

theorem stores_storeEnabled {id : String} {enabled : Bool} {requests : List RequestId}
    (h : (storeEnabled id enabled s).1 = some requests) :
    ∃ x, s.Stores (storeEnabled id enabled s).2 x enabled requests := by
  cases he : s.breakpoints.entries.get? id with
  | some e =>
    rw [storeEnabled_of_some he] at h ⊢
    obtain rfl := Option.some.inj h
    simp only [BreakpointTable.setEnabled, he]
    refine ⟨.breakpoint id, ⟨e.breakpoint.enabled, by simp [spec?, he]⟩, ?_, fun y hy => ?_, rfl⟩
    · simp [spec?, Dict.get?_modify, he]
    · cases y with
      | exception other => rfl
      | breakpoint other =>
        have hne : other ≠ id := fun h => hy (h ▸ rfl)
        simp only [spec?, Dict.get?_modify, if_neg hne]
  | none =>
    rw [storeEnabled_of_none he] at h ⊢
    obtain ⟨e, he', rfl⟩ := Option.map_eq_some_iff.1 h
    simp only [ExceptionTable.setEnabled]
    refine ⟨.exception id, ⟨e.breakpoint.enabled, by simp [spec?, he']⟩, ?_, fun y hy => ?_, rfl⟩
    · simp [spec?, Dict.get?_modify, he']
    · cases y with
      | breakpoint other => rfl
      | exception other =>
        have hne : other ≠ id := fun h => hy (h ▸ rfl)
        simp only [spec?, Dict.get?_modify, if_neg hne]

theorem sheds_storeEnabled {id : String} {enabled : Bool}
    (h : (storeEnabled id enabled s).1 = none) : s.Sheds (storeEnabled id enabled s).2 := by
  cases he : s.breakpoints.entries.get? id with
  | some e =>
    rw [storeEnabled_of_some he] at h
    cases h
  | none =>
    rw [storeEnabled_of_none he] at h ⊢
    have hnone : s.exceptions.entries.get? id = none := by simpa using h
    simp only [ExceptionTable.setEnabled]
    refine ⟨fun y => .inl ?_, fun hu => hu⟩
    cases y with
    | breakpoint other => rfl
    | exception other =>
      simp only [spec?, Dict.get?_modify, hnone, Option.map_none]
      split
      · next h => rw [h, hnone]
      · rfl

end Session

end JvmDebug
