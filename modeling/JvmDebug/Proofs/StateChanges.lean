import JvmDebug.Proofs.Lifetime
import Mathlib.Data.List.Induction

/-!
What becomes of the state of a session. Every operation leaves it alone until it has seen the
target in reach, and afterwards lets a live session run or stop; nothing but closing and the event
loop ends a session, and nothing brings it back.
-/
namespace JvmDebug

open Routine

/-! ## Steps of a session -/

/-- The changes of state that there are. -/
inductive SessionState.Allows : SessionState → SessionState → Prop
  | stays (s : SessionState) : Allows s s
  | connects : Allows created connected
  | goes {s t : SessionState} (hs : s = connected ∨ s = running ∨ s = suspended)
      (ht : t = running ∨ t = suspended) : Allows s t
  | ends {s t : SessionState} (hs : s.isTerminal = false) (ht : t.isTerminal = true) : Allows s t

theorem SessionState.Allows.of_terminal {s t : SessionState} (h : s.Allows t)
    (hs : s.isTerminal = true) : t = s := by
  cases h with
  | stays => rfl
  | connects => cases hs
  | goes hs' ht => rcases hs' with rfl | rfl | rfl <;> cases hs
  | ends hs' ht => rw [hs] at hs'; cases hs'

namespace Session

/-- The session stays connected or unconnected, and what was told to its event loop stays. -/
structure SameTies (s t : Session) : Prop where
  attachment : t.attachment = s.attachment
  stopping : t.stopping = s.stopping
  loopPending : t.loopPending = s.loopPending

/-- The state stays as well, and no event is emitted. -/
structure Stays (s t : Session) : Prop extends s.SameTies t where
  state : t.state = s.state
  sequence : t.sequence = s.sequence

/-- A live session may come to run, to stop or to its end. -/
def Shifts (s t : Session) : Prop :=
  t.state = s.state ∨ s.state.isTerminal = false ∧
    (t.state = .running ∨ t.state = .suspended ∨ t.state.isTerminal = true)

/-- The state may change, and no event is emitted. -/
structure Goes (s t : Session) : Prop extends s.SameTies t where
  state : s.Shifts t
  sequence : t.sequence = s.sequence

/-- The state may change, and events may be emitted. -/
structure Serves (s t : Session) : Prop extends s.SameTies t where
  state : s.Shifts t

variable {s t u : Session}

theorem SameTies.rfl : s.SameTies s := ⟨Eq.refl _, Eq.refl _, Eq.refl _⟩

theorem SameTies.trans (hst : s.SameTies t) (htu : t.SameTies u) : s.SameTies u :=
  ⟨htu.1.trans hst.1, htu.2.trans hst.2, htu.3.trans hst.3⟩

theorem Stays.rfl : s.Stays s := ⟨.rfl, Eq.refl _, Eq.refl _⟩

theorem Stays.goes (h : s.Stays t) : s.Goes t := ⟨h.toSameTies, .inl h.state, h.sequence⟩

theorem Goes.serves (h : s.Goes t) : s.Serves t := ⟨h.toSameTies, h.state⟩

theorem Goes.rfl : s.Goes s := Stays.rfl.goes

theorem Serves.rfl : s.Serves s := Goes.rfl.serves

theorem Viewed.stays (h : s.Viewed t) : s.Stays t := by
  have h : t = { s with
      name := t.name, selection := t.selection, events := t.events, listeners := t.listeners
      nextListener := t.nextListener } := h
  exact ⟨⟨(congrArg attachment h :), (congrArg stopping h :), (congrArg loopPending h :)⟩,
    (congrArg state h :), (congrArg sequence h :)⟩

theorem Rebooked.stays (h : s.Rebooked t) : s.Stays t := by
  have h : t = { s with breakpoints := t.breakpoints } := h
  exact ⟨⟨(congrArg attachment h :), (congrArg stopping h :), (congrArg loopPending h :)⟩,
    (congrArg state h :), (congrArg sequence h :)⟩

theorem SameButBreakpoints.stays (h : s.SameButBreakpoints t) : s.Stays t := by
  have h : t = { s with
      breakpoints := t.breakpoints, exceptions := t.exceptions, ids := t.ids } := h
  exact ⟨⟨(congrArg attachment h :), (congrArg stopping h :), (congrArg loopPending h :)⟩,
    (congrArg state h :), (congrArg sequence h :)⟩

theorem Shifts.allows (h : s.Shifts t) (hs : s.state ≠ .created) : s.state.Allows t.state := by
  rcases h with h | ⟨hlive, h⟩
  · rw [h]
    exact .stays _
  · rcases h with h | h | h
    · refine .goes ?_ (.inl h)
      cases hstate : s.state <;> simp_all [SessionState.isTerminal]
    · refine .goes ?_ (.inr h)
      cases hstate : s.state <;> simp_all [SessionState.isTerminal]
    · exact .ends hlive h

theorem goes_enter (s : Session) {next : SessionState}
    (hnext : next = .running ∨ next = .suspended ∨ next.isTerminal = true) :
    s.Goes (s.enter next) := by
  simp only [enter]
  split
  · exact .rfl
  · next h => exact ⟨⟨rfl, rfl, rfl⟩, .inr ⟨Bool.eq_false_iff.2 h, hnext⟩, rfl⟩

theorem Stays.goes_trans (hst : s.Stays t) (htu : t.Goes u) : s.Goes u where
  toSameTies := hst.toSameTies.trans htu.toSameTies
  state := by
    have h := htu.state
    rwa [Shifts, hst.state] at h
  sequence := htu.sequence.trans hst.sequence

theorem goes_resumed (s : Session) : s.Goes s.resumed := by
  refine Stays.goes_trans ?_ (goes_enter { s with atBreakpoint := .empty } (.inl rfl))
  exact ⟨⟨rfl, rfl, rfl⟩, rfl, rfl⟩

theorem goes_stopped (s : Session) (t : ThreadId) (breakpoint : Option (Option String)) :
    s.Goes (s.stopped t breakpoint) := by
  refine Stays.goes_trans ?_ (goes_enter _ (.inr (.inl rfl)))
  exact ⟨⟨rfl, rfl, rfl⟩, rfl, rfl⟩

theorem Goes.emit (h : s.Goes t) (payload : Payload) : s.Serves (t.emit payload) :=
  ⟨⟨h.attachment, h.stopping, h.loopPending⟩, h.state⟩

theorem serves_disconnected (s : Session) : s.Serves s.disconnected := by
  simp only [disconnected]
  split
  · exact .rfl
  · exact (goes_enter s (.inr (.inr rfl))).emit _

theorem stays_storeEnabled (s : Session) (id : String) (enabled : Bool) :
    s.Stays (storeEnabled id enabled s).2 := by
  simp only [storeEnabled]
  split <;> exact ⟨⟨rfl, rfl, rfl⟩, rfl, rfl⟩

end Session

/-! ## Operations -/

abbrev Routine.Calm {α : Type} (m : Task Session α) : Prop :=
  m.Within (fun _ => True) Session.Stays

abbrev Routine.Drives {α : Type} (m : Task Session α) : Prop :=
  m.Within (fun _ => True) Session.Goes

abbrev Routine.Serving {α : Type} (m : Task Session α) : Prop :=
  m.Within (fun _ => True) Session.Serves

section
variable {α : Type}

theorem Routine.Inspects.calm {m : Task Session α} (hm : Inspects m) : Calm m :=
  hm.mono (fun _ _ => trivial) fun _ _ hf => hf.elim

theorem Routine.Installs.calm {m : Task Session α} (hm : Installs m) : Calm m :=
  hm.mono (fun _ _ => trivial) fun _ _ h => h.stays

theorem Routine.Calm.drives {m : Task Session α} (hm : Calm m) : Drives m :=
  hm.mono (fun _ _ => trivial) fun _ _ h => h.goes

theorem Routine.Drives.serving {m : Task Session α} (hm : Drives m) : Serving m :=
  hm.mono (fun _ _ => trivial) fun _ _ h => h.serves

theorem calm_call (c : Call) : Calm (Op.call c : Op DebugError Session c.Answer).run :=
  Op.within_call trivial

end

namespace Session

theorem calm_addBreakpoint (className : String) (kind : BreakpointKind)
    (condition : Option String) : Calm (addBreakpoint className kind condition).run :=
  within_addBreakpoint (fun _ => .rfl) (fun _ _ => trivial) trivial
    (fun _ => ⟨⟨rfl, rfl, rfl⟩, rfl, rfl⟩) (fun _ _ _ => ⟨⟨rfl, rfl, rfl⟩, rfl, rfl⟩)
    fun _ _ _ => ⟨⟨rfl, rfl, rfl⟩, rfl, rfl⟩

theorem drives_letRun : Drives letRun.run :=
  Op.within_bind (calm_call _).drives fun _ => fun s => ⟨s.goes_resumed, trivial⟩

theorem drives_step (t : Option ThreadId) (depth : StepDepth) (size : StepSize) :
    Drives (step t depth size).run :=
  within_step (fun _ => trivial) (fun _ => trivial) (fun _ => trivial) (fun _ => .rfl)
    (fun _ _ => Stays.goes ⟨⟨rfl, rfl, rfl⟩, rfl, rfl⟩) drives_letRun

/-- An operation that begins with a look whether the target is in reach asks for nothing before. -/
theorem gated_reach_bind {α : Type} {P : Call → Prop} {V U : Session → Session → Prop}
    {g : Unit → Op DebugError Session α} (hV : ∀ s, V s s) (h : (reach >>= g).run.Within P U) :
    Op.Gated P V U (reach >>= g) := by
  rw [Op.run_bind, run_reach] at h
  rw [Op.Gated, Op.run_bind, run_reach]
  intro s
  refine ⟨hV s, ?_⟩
  have hrest := (h s).2
  cases hreach : s.unreachable? with
  | none =>
    dsimp only [Routine.bind] at hrest ⊢
    rw [hreach] at hrest ⊢
    exact .inl ⟨rfl, hrest⟩
  | some e =>
    dsimp only [Routine.bind]
    rw [hreach]
    exact .inr ⟨e, rfl⟩

theorem run_setEnabled (id : String) (enabled : Bool) :
    (setEnabled id enabled).run = .update (fun s => (storeEnabled id enabled s).2) fun s =>
      match (storeEnabled id enabled s).1 with
      | none => .done (.error (.breakpointNotFound id))
      | some requests =>
        if requests.isEmpty then .done (.ok ())
        else (reach >>= fun _ => switchAll enabled requests : Op DebugError Session Unit).run := by
  show Routine.update _ _ = _
  congr 1
  funext s
  dsimp only [Routine.bind, ExceptT.bindCont, Function.comp]
  cases (storeEnabled id enabled s).1 with
  | none => rfl
  | some requests =>
    dsimp only
    split <;> rfl

/-- A switch is stored before the target is looked for. -/
theorem gated_setEnabled (id : String) (enabled : Bool) :
    (setEnabled id enabled).failure?.Gated (fun _ => True) Session.Stays Session.Goes
      fun _ => True := by
  have hswitch (requests : List RequestId) :
      Drives (reach >>= fun _ => switchAll enabled requests : Op DebugError Session Unit).run :=
    Op.within_bind (within_reach fun _ => .rfl) fun _ =>
      within_switchAll (fun _ _ => trivial) enabled requests
  have hrun : (setEnabled id enabled).run.Gated (fun _ => True) Session.Stays Session.Goes
      fun _ => True := by
    rw [run_setEnabled]
    refine fun s => ⟨s.stays_storeEnabled id enabled, .inr ?_⟩
    dsimp only
    split
    · trivial
    · split
      · trivial
      · exact (gated_reach_bind (fun _ => .rfl) (hswitch _)).mono (fun _ h => h)
          (fun _ _ h => h) (fun _ _ h => h) fun _ _ => trivial
  exact hrun.bind (fun r => by cases r <;> trivial) fun r _ => by cases r <;> trivial

end Session

namespace Operation

/-- Taking breakpoints out is not refused when the target is out of reach. -/
def takesOut : Operation → Bool
  | remove _ | clear => true
  | _ => false

/-- All other operations look whether the target is in reach before they ask for anything. -/
theorem gated_task {o : Operation} (ho : o.takesOut = false) :
    o.task.Gated (fun _ => True) Session.Stays Session.Goes fun _ => True := by
  have hreach {α : Type} {g : Unit → Op DebugError Session α}
      (h : Drives (Session.reach >>= g).run) :
      (Session.reach >>= g).failure?.Gated (fun _ => True) Session.Stays Session.Goes
        fun _ => True :=
    (Session.gated_reach_bind (fun _ => .rfl) h).failure
  cases o with
  | addBreakpoint className kind condition =>
    exact hreach (Session.calm_addBreakpoint className kind condition).drives
  | addException className caught uncaught =>
    refine hreach (Session.within_addExceptionBreakpoint trivial (fun _ => trivial)
      (fun _ => .rfl) (fun _ => ?_) fun _ _ _ => ?_)
    · exact Session.Stays.goes ⟨⟨rfl, rfl, rfl⟩, rfl, rfl⟩
    · exact Session.Stays.goes ⟨⟨rfl, rfl, rfl⟩, rfl, rfl⟩
  | setEnabled id enabled => exact Session.gated_setEnabled id enabled
  | resume =>
    refine hreach (Op.within_bind (Session.within_reach fun _ => .rfl) fun _ => ?_)
    exact Session.drives_letRun
  | suspend =>
    refine hreach (Op.within_bind (Session.within_reach fun _ => .rfl) fun _ => ?_)
    exact Op.within_bind (calm_call _).drives fun _ => fun s =>
      ⟨s.goes_enter (.inr (.inl rfl)), trivial⟩
  | resumeThread t =>
    refine hreach (Op.within_bind (Session.within_reach fun _ => .rfl) fun _ => ?_)
    exact Op.within_bind (calm_call _).drives fun _ => fun s =>
      ⟨Session.Stays.goes ⟨⟨rfl, rfl, rfl⟩, rfl, rfl⟩, trivial⟩
  | suspendThread t =>
    refine hreach (Op.within_bind (Session.within_reach fun _ => .rfl) fun _ => ?_)
    exact (calm_call _).drives
  | step t depth size => exact hreach (Session.drives_step t depth size)
  | remove | clear => cases ho

theorem calm_task_of_takesOut {o : Operation} (ho : o.takesOut = true) : Calm o.task := by
  have hbreakpoints : o.isOnBreakpoints := by cases o <;> first | rfl | cases ho
  exact (within_onBreakpoints hbreakpoints).mono (fun _ _ => trivial) fun _ _ h => h.stays

end Operation

/-! ## Event handling -/

namespace Session

theorem serving_report {g : ThreadPlace → Session → Session}
    (hg : ∀ place s, Session.Serves s (g place s)) (t : ThreadId) (l : Location) :
    Serving (Routine.bind (threadPlace t l) fun place =>
      Routine.bind (Routine.modify (g place)) fun _ => .done true) :=
  within_bind (inspects_threadPlace t l).calm.drives.serving fun place =>
    within_bind (within_modify (hg place)) fun _ => trivial

theorem serving_handleEvent (e : TargetEvent) : Serving (handleEvent e) := by
  cases e with
  | vmStart t => trivial
  | breakpoint request t l =>
    rw [handleEvent_breakpoint]
    refine fun s => ⟨?_, serving_report (fun place s => (s.goes_stopped t _).emit _) t l⟩
    refine (Stays.goes ?_).serves
    simp only [recordHit]
    split <;> exact ⟨⟨rfl, rfl, rfl⟩, rfl, rfl⟩
  | step request t l =>
    rw [handleEvent_step]
    have hreport : Serving (reportStep t l) :=
      serving_report (fun place s => (s.goes_stopped t _).emit _) t l
    have hfinish (s : Session) : s.Stays (s.finishStep t request).2 := ⟨⟨rfl, rfl, rfl⟩, rfl, rfl⟩
    refine fun s => ⟨(hfinish s).goes.serves, ?_⟩
    dsimp only
    split
    · exact ⟨trivial, fun _ => hreport⟩
    · exact hreport
  | exception request t l thrown catchAt =>
    refine within_bind (inspects_exceptionMessage thrown).calm.drives.serving fun message => ?_
    exact serving_report (fun place s => (s.goes_stopped t none).emit _) t l
  | threadStart t =>
    refine within_bind (inspects_threadName t).calm.drives.serving fun name => ?_
    exact within_bind (within_modify fun s => Goes.rfl.emit _) fun _ => trivial
  | threadDeath t =>
    refine within_bind (inspects_threadName t).calm.drives.serving fun name => ?_
    refine within_bind (within_modify fun s => Goes.emit (Stays.goes ?_) _) fun _ => trivial
    exact ⟨⟨rfl, rfl, rfl⟩, rfl, rfl⟩
  | classPrepare request t c =>
    exact within_bind (installs_classLoaded c).calm.drives.serving fun _ => trivial
  | vmDeath =>
    exact within_bind (within_modify fun s => (s.goes_enter (.inr (.inr rfl))).emit _)
      fun _ => trivial

theorem serving_handleReading (r : Reading) : Serving (handleReading r) :=
  within_handleReading serving_handleEvent (fun _ => trivial) serves_disconnected r

end Session

end JvmDebug
