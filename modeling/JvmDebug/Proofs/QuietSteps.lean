import JvmDebug.Proofs.Inspection

/-!
Steps of a session that leave its tables alone. Apart from the count of a hit and the installing of
breakpoints, the handling of an event consists of such steps.
-/
namespace JvmDebug

/-- The tables and the supply of ids stay, and a target that is in reach was so before. -/
structure Session.Quiet (s t : Session) : Prop where
  breakpoints : t.breakpoints = s.breakpoints
  exceptions : t.exceptions = s.exceptions
  ids : t.ids = s.ids
  reach : t.unreachable? = none → s.unreachable? = none

namespace Session

variable {s t u : Session}

theorem Quiet.rfl : s.Quiet s := ⟨Eq.refl _, Eq.refl _, Eq.refl _, fun h => h⟩

theorem Quiet.trans (hst : s.Quiet t) (htu : t.Quiet u) : s.Quiet u where
  breakpoints := htu.breakpoints.trans hst.breakpoints
  exceptions := htu.exceptions.trans hst.exceptions
  ids := htu.ids.trans hst.ids
  reach h := hst.reach (htu.reach h)

theorem quiet_enter (s : Session) (next : SessionState) : s.Quiet (s.enter next) := by
  simp only [enter]
  split
  · exact .rfl
  · next ht =>
    refine ⟨rfl, rfl, rfl, fun h => ?_⟩
    simp only [unreachable?] at h ⊢
    rw [if_neg ht]
    split at h
    · cases h
    · exact h

theorem quiet_emit (s : Session) (payload : Payload) : s.Quiet (s.emit payload) :=
  ⟨rfl, rfl, rfl, fun h => h⟩

theorem quiet_stopped (s : Session) (t : ThreadId) (breakpoint : Option (Option String)) :
    s.Quiet (s.stopped t breakpoint) := by
  refine Quiet.trans ?_ (quiet_enter _ _)
  exact ⟨rfl, rfl, rfl, fun h => h⟩

theorem quiet_forgetThread (s : Session) (t : ThreadId) : s.Quiet (s.forgetThread t) :=
  ⟨rfl, rfl, rfl, fun h => h⟩

theorem quiet_finishStep (s : Session) (t : ThreadId) (r : Option RequestId) :
    s.Quiet (s.finishStep t r).2 :=
  ⟨rfl, rfl, rfl, fun h => h⟩

theorem quiet_disconnected (s : Session) : s.Quiet s.disconnected := by
  simp only [disconnected]
  split
  · exact .rfl
  · exact (quiet_enter _ _).trans (quiet_emit _ _)

end Session

/-! ## Events -/

abbrev Routine.Quietly {α : Type} (m : Task Session α) : Prop :=
  m.Within (fun c => c.inspects) Session.Quiet

def TargetEvent.touchesBooks : TargetEvent → Bool
  | breakpoint .. | step .. | classPrepare .. => true
  | _ => false

open Routine

namespace Session

theorem quietly_of_inspects {α : Type} {m : Task Session α} (hm : Inspects m) : Quietly m :=
  hm.mono (fun _ hc => hc) fun _ _ hf => hf.elim

def reportHit (id : Option String) (t : ThreadId) (l : Location) : Task Session Bool := do
  let place ← threadPlace t l
  Routine.modify fun s => (s.stopped t (some id)).emit (.breakpointHit id place)
  return true

theorem handleEvent_breakpoint (request : Option RequestId) (t : ThreadId) (l : Location) :
    handleEvent (.breakpoint request t l) =
      .update (fun s => (recordHit request s).2) fun s => reportHit (recordHit request s).1 t l :=
  rfl

theorem quietly_reportHit (id : Option String) (t : ThreadId) (l : Location) :
    Quietly (reportHit id t l) := by
  refine within_bind (quietly_of_inspects (inspects_threadPlace t l)) fun place => ?_
  exact within_bind (within_modify fun s => (quiet_stopped s _ _).trans (quiet_emit _ _))
    fun _ => trivial

def reportStep (t : ThreadId) (l : Location) : Task Session Bool := do
  let place ← threadPlace t l
  Routine.modify fun s => (s.stopped t none).emit (.stepCompleted place)
  return true

theorem handleEvent_step (request : Option RequestId) (t : ThreadId) (l : Location) :
    handleEvent (.step request t l) =
      .update (fun s => (s.finishStep t request).2) fun s =>
        match (s.finishStep t request).1 with
        | some r => .request (.deleteRequest r) fun _ => reportStep t l
        | none => reportStep t l := by
  show Routine.update _ _ = _
  congr 1
  funext s
  dsimp only [Routine.bind]
  cases (s.finishStep t request).1 <;> rfl

theorem quietly_reportStep (t : ThreadId) (l : Location) : Quietly (reportStep t l) := by
  refine within_bind (quietly_of_inspects (inspects_threadPlace t l)) fun place => ?_
  exact within_bind (within_modify fun s => (quiet_stopped s _ _).trans (quiet_emit _ _))
    fun _ => trivial

theorem quietly_handleEvent {e : TargetEvent} (he : e.touchesBooks = false) :
    Quietly (handleEvent e) := by
  cases e with
  | breakpoint | step | classPrepare => cases he
  | vmStart t => trivial
  | exception request t l thrown catchAt =>
    refine within_bind (quietly_of_inspects (inspects_exceptionMessage thrown)) fun _ => ?_
    refine within_bind (quietly_of_inspects (inspects_threadPlace t l)) fun place => ?_
    exact within_bind (within_modify fun s => (quiet_stopped s _ _).trans (quiet_emit _ _))
      fun _ => trivial
  | threadStart t =>
    refine within_bind (quietly_of_inspects (inspects_threadName t)) fun name => ?_
    exact within_bind (within_modify fun s => quiet_emit s _) fun _ => trivial
  | threadDeath t =>
    refine within_bind (quietly_of_inspects (inspects_threadName t)) fun name => ?_
    exact within_bind (within_modify fun s => (quiet_forgetThread s t).trans (quiet_emit _ _))
      fun _ => trivial
  | vmDeath =>
    exact within_bind (within_modify fun s => (quiet_enter s _).trans (quiet_emit _ _))
      fun _ => trivial

section
variable {P : Call → Prop} {U : Session → Session → Prop}

/-- The handling of an event, other than the installing of breakpoints: it looks at the target, may
delete a request, counts a hit and leaves the tables alone otherwise. -/
theorem within_handleEvent {e : TargetEvent} (he : ∀ r t c, e ≠ .classPrepare r t c)
    (hlook : ∀ c : Call, c.inspects → P c) (hdelete : ∀ r, P (.deleteRequest r))
    (hquiet : ∀ s t : Session, s.Quiet t → U s t) (hhit : ∀ request s, U s (recordHit request s).2) :
    (handleEvent e).Within P U := by
  have hrest {α : Type} {m : Task Session α} (hm : Quietly m) : m.Within P U := hm.mono hlook hquiet
  cases e with
  | classPrepare r t c => exact absurd rfl (he r t c)
  | breakpoint request t l =>
    rw [handleEvent_breakpoint]
    exact fun s => ⟨hhit request s, hrest (quietly_reportHit _ t l)⟩
  | step request t l =>
    rw [handleEvent_step]
    refine fun s => ⟨hquiet _ _ (quiet_finishStep s t request), ?_⟩
    dsimp only
    split
    · exact ⟨hdelete _, fun _ => hrest (quietly_reportStep t l)⟩
    · exact hrest (quietly_reportStep t l)
  | vmStart | exception | threadStart | threadDeath | vmDeath => exact hrest (quietly_handleEvent rfl)

theorem within_resumeAfter {set : EventSet} (hresume : P (.resumeEventSet set))
    (hlost : ∀ s, U s s.disconnected) : (resumeAfter set).Within P U := by
  simp only [resumeAfter]
  split
  · trivial
  · refine within_bind (within_ask hresume) fun reply => ?_
    split
    · trivial
    · split
      · exact within_bind (within_modify hlost) fun _ => trivial
      · trivial

theorem within_handleEvents (hevent : ∀ e, (handleEvent e).Within P U) (events : List TargetEvent) :
    (handleEvents events).Within P U := by
  induction events with
  | nil => trivial
  | cons e es ih =>
    refine within_bind (hevent e) fun goesOn => ?_
    cases goesOn with
    | true => exact ih
    | false => trivial

theorem within_handleSet {set : EventSet} (hevent : ∀ e, (handleEvent e).Within P U)
    (hresume : P (.resumeEventSet set)) (hlost : ∀ s, U s s.disconnected) :
    (handleSet set).Within P U := by
  refine within_bind (within_handleEvents hevent set.events) fun goesOn => ?_
  cases goesOn with
  | true => exact within_resumeAfter hresume hlost
  | false => trivial

theorem within_handleReading (hevent : ∀ e, (handleEvent e).Within P U)
    (hresume : ∀ set, P (.resumeEventSet set)) (hlost : ∀ s, U s s.disconnected) (r : Reading) :
    (handleReading r).Within P U := by
  rcases r with e | _ | set
  · simp only [handleReading]
    split
    · exact within_bind (within_modify hlost) fun _ => trivial
    · trivial
  · trivial
  · exact within_handleSet hevent (hresume set) hlost

end

end Session

end JvmDebug
