import JvmDebug.Proofs.BreakpointOperations
import JvmDebug.Proofs.DeferralRules
import JvmDebug.Proofs.TargetCalls

/-!
Who waits for a class, step by step. Adding breakpoints lets more of them wait; the event loop takes
away those that wait for a class when it begins to handle the report of the class, and only then.
-/
namespace JvmDebug

open Routine

/-- The breakpoint waits behind the watch of the class. -/
def Session.Waits (s : Session) (id name : String) : Prop :=
  ∃ p, s.breakpoints.pending.get? name = some p ∧ id ∈ p.ids

def Session.Grows (s t : Session) : Prop := ∀ id name, s.Waits id name → t.Waits id name

def Session.Still (s t : Session) : Prop := t.breakpoints.pending = s.breakpoints.pending

def TargetEvent.prepares : TargetEvent → Option String
  | classPrepare _ _ c => some c.name
  | _ => none

namespace Session

variable {s t u : Session}

theorem waits_iff_queued {id name : String} :
    s.Waits id name ↔ (id, name) ∈ s.breakpoints.queued :=
  BreakpointTable.mem_queued.symm

theorem Grows.rfl : s.Grows s := fun _ _ h => h

theorem Grows.trans (hst : s.Grows t) (htu : t.Grows u) : s.Grows u :=
  fun id name h => htu id name (hst id name h)

theorem Still.rfl : s.Still s := Eq.refl _

theorem Still.trans (hst : s.Still t) (htu : t.Still u) : s.Still u := Eq.trans htu hst

theorem Still.waits (hst : s.Still t) {id name : String} : t.Waits id name ↔ s.Waits id name := by
  rw [Waits, hst]
  rfl

theorem Quiet.still (hst : s.Quiet t) : s.Still t := by
  rw [Still, hst.breakpoints]

theorem still_recordHit (request : Option RequestId) (s : Session) :
    s.Still (recordHit request s).2 := by
  cases request with
  | none => exact Still.rfl
  | some r => exact (s.breakpoints.recordHit_keeps r).2.1

theorem still_bookRequests (id : String) (requests : List RequestId) (s : Session) :
    s.Still (bookRequests id requests s).2 := by
  show (s.breakpoints.materialize id requests).2.pending = s.breakpoints.pending
  simp only [BreakpointTable.materialize]
  split <;> exact Eq.refl _

theorem grows_insertPending (b : Breakpoint) (watch : RequestId) (s : Session) :
    s.Grows { s with breakpoints := s.breakpoints.insertPending b watch } := by
  intro id name h
  rw [waits_iff_queued] at h ⊢
  rw [BreakpointTable.queued_insertPending]
  exact Multiset.mem_add.2 (.inl h)

theorem waits_takePending {id name other : String} :
    (takePending other s).2.Waits id name ↔ s.Waits id name ∧ other ≠ name := by
  show (∃ p, (s.breakpoints.takePending other).2.pending.get? name = some p ∧ id ∈ p.ids) ↔ _
  simp only [BreakpointTable.takePending]
  cases hp : s.breakpoints.pending.get? other with
  | none =>
    constructor
    · rintro ⟨p, hp', hid⟩
      refine ⟨⟨p, hp', hid⟩, ?_⟩
      rintro rfl
      exact absurd (hp.symm.trans hp') (by simp)
    · exact fun h => h.1
  | some q =>
    simp only [Dict.get?_erase]
    constructor
    · rintro ⟨p, hp', hid⟩
      split at hp'
      · cases hp'
      · next hne => exact ⟨⟨p, hp', hid⟩, fun h => hne h.symm⟩
    · rintro ⟨⟨p, hp', hid⟩, hne⟩
      exact ⟨p, by rw [if_neg (Ne.symm hne)]; exact hp', hid⟩

end Session

/-! ## Adding -/

theorem grows_addBreakpoint (className : String) (kind : BreakpointKind)
    (condition : Option String) : Routine.Within (fun _ => True) Session.Grows
      (Session.addBreakpoint className kind condition).run :=
  Session.within_addBreakpoint (fun _ => .rfl) (fun _ _ => trivial) trivial (fun _ => .rfl)
    (fun s b watch => s.grows_insertPending b watch) fun _ _ _ => .rfl

theorem grows_operation {o : Operation} (ho : o.isAddBreakpoint) :
    o.task.Within (fun _ => True) Session.Grows := by
  cases o with
  | addBreakpoint className kind condition =>
    exact Op.within_failure (grows_addBreakpoint className kind condition)
  | addException | setEnabled | remove | clear | resume | suspend | resumeThread | suspendThread
  | step => cases ho

/-! ## Handling events -/

theorem still_quietly {α : Type} {m : Task Session α} (hm : Quietly m) :
    m.Within (fun _ => True) Session.Still :=
  hm.mono (fun _ _ => trivial) fun _ _ hst => hst.still

namespace Session

theorem handleEvent_classPrepare (request : Option RequestId) (t : ThreadId) (c : TypeInfo) :
    handleEvent (.classPrepare request t c) =
      .update (fun s => (takePending c.name s).2) fun s =>
        Routine.bind (installWaiting c (takePending c.name s).1) fun _ => .done true :=
  rfl

theorem still_installWaiting (c : TypeInfo) (taken : Option (RequestId × List Breakpoint)) :
    (installWaiting c taken).Within (fun _ => True) Still :=
  within_installWaiting (fun _ _ => trivial) (fun id requests s => s.still_bookRequests id requests)
    (fun _ => .rfl) c taken

end Session

/-- Handling an event takes out those that wait for the class reported, in its first block. -/
theorem handleEvent_waits (e : TargetEvent) (s : Session) :
    ((Session.handleEvent e).advance s).1.Within (fun _ => True) Session.Still ∧
      ∀ id name, ((Session.handleEvent e).advance s).2.Waits id name ↔
        s.Waits id name ∧ e.prepares ≠ some name := by
  have hstill (hm : (Session.handleEvent e).Within (fun _ => True) Session.Still)
      (hnone : e.prepares = none) :
      ((Session.handleEvent e).advance s).1.Within (fun _ => True) Session.Still ∧
        ∀ id name, ((Session.handleEvent e).advance s).2.Waits id name ↔
          s.Waits id name ∧ e.prepares ≠ some name := by
    obtain ⟨hst, hrest⟩ := hm.advance (fun _ => .rfl) (fun _ _ _ => .trans) s
    refine ⟨hrest, fun id name => ?_⟩
    rw [hst.waits, hnone]
    simp
  cases e with
  | breakpoint request t l =>
    refine hstill ?_ rfl
    rw [Session.handleEvent_breakpoint]
    exact fun s => ⟨s.still_recordHit request, still_quietly (Session.quietly_reportHit _ t l)⟩
  | step request t l =>
    refine hstill ?_ rfl
    rw [Session.handleEvent_step]
    refine fun s => ⟨(s.quiet_finishStep t request).still, ?_⟩
    beta_reduce
    split
    · exact ⟨trivial, fun _ => still_quietly (Session.quietly_reportStep t l)⟩
    · exact still_quietly (Session.quietly_reportStep t l)
  | classPrepare request t c =>
    rw [Session.handleEvent_classPrepare]
    have hrest : Routine.Within (fun _ => True) Session.Still (Routine.bind
        (Session.installWaiting c (Session.takePending c.name s).1) fun _ => .done true) :=
      within_bind (Session.still_installWaiting c _) fun _ => trivial
    obtain ⟨hst, hnow⟩ := hrest.advance (fun _ => .rfl) (fun _ _ _ => .trans)
      (Session.takePending c.name s).2
    refine ⟨hnow, fun id name => hst.waits.trans ?_⟩
    rw [Session.waits_takePending]
    simp [TargetEvent.prepares]
  | vmStart | exception | threadStart | threadDeath | vmDeath =>
    refine hstill (still_quietly (Session.quietly_handleEvent ?_)) rfl
    rfl

theorem still_resumeAfter (set : EventSet) :
    (Session.resumeAfter set).Within (fun _ => True) Session.Still := by
  simp only [Session.resumeAfter]
  split
  · trivial
  · refine ⟨trivial, fun r => ?_⟩
    cases r with
    | ok _ => trivial
    | error e =>
      show Routine.Within _ _ (if e.isDisconnect then _ else _)
      split
      · exact fun s => ⟨s.quiet_disconnected.still, trivial⟩
      · trivial

end JvmDebug
