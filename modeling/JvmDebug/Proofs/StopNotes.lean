import JvmDebug.Proofs.Installing
import JvmDebug.Proofs.Waiting
import JvmDebug.Session.Control

/-!
How a session takes note of stops: the handling of a stop event ends with a note of it and does not
touch the state or the stopped threads before, the handling of other events never does. Resuming and
stepping end with one update that forgets all notes.
-/
namespace JvmDebug

open Routine

/-! ## Notes -/

abbrev StopNote := ThreadId × Option (Option String)

namespace Session

structure SameStops (s t : Session) : Prop where
  state : t.state = s.state
  atBreakpoint : t.atBreakpoint = s.atBreakpoint

def Alive (s : Session) : Prop := s.state.isTerminal = false

variable {s t u : Session}

theorem SameStops.rfl : s.SameStops s := ⟨Eq.refl _, Eq.refl _⟩

theorem SameStops.trans (hst : s.SameStops t) (htu : t.SameStops u) : s.SameStops u :=
  ⟨htu.state.trans hst.state, htu.atBreakpoint.trans hst.atBreakpoint⟩

theorem SameStops.stopped (h : s.SameStops t) (n : StopNote) :
    (s.stopped n.1 n.2).SameStops (t.stopped n.1 n.2) := by
  simp only [Session.stopped, enter, h.state, h.atBreakpoint]
  split <;> exact ⟨Eq.refl _, Eq.refl _⟩

theorem stopped_of_alive (h : s.Alive) (n : StopNote) :
    (s.stopped n.1 n.2).state = .suspended ∧ (s.stopped n.1 n.2).atBreakpoint =
      match n.2 with
      | some id => s.atBreakpoint.insert n.1 id
      | none => s.atBreakpoint := by
  have h : s.state.isTerminal = false := h
  simp only [Session.stopped, enter, h]
  exact ⟨rfl, rfl⟩

theorem resumed_of_alive (h : s.Alive) :
    s.resumed.state = .running ∧ s.resumed.atBreakpoint = .empty := by
  have h : s.state.isTerminal = false := h
  simp only [resumed, enter, h]
  exact ⟨rfl, rfl⟩

theorem alive_of_resumed (h : s.resumed.Alive) : s.Alive := by
  by_cases hs : s.state.isTerminal
  · simp only [Alive, resumed, enter, hs, if_true] at h
    cases h
  · exact Bool.eq_false_iff.2 hs

end Session

namespace TargetEvent

def isCalm : TargetEvent → Bool
  | threadDeath _ | vmDeath => false
  | _ => true

/-- The note that the session takes of the event. -/
def note (s : Session) : TargetEvent → Option StopNote
  | breakpoint r t _ => some (t, some (Session.recordHit r s).1)
  | step _ t _ | exception _ t .. => some (t, none)
  | _ => none

end TargetEvent

namespace Routine

/-- Run to its end the routine goes on and takes the note with its last update, if there is one to
take. -/
def Notes (note : Option StopNote) : Task Session Bool → Prop
  | done goesOn => goesOn = true ∧ note = none
  | request _ k => ∀ r, Notes note (k r)
  | update f k => ∀ s, (s.SameStops (f s) ∧ Notes note (k s)) ∨
    ∃ n : StopNote, note = some n ∧ (s.stopped n.1 n.2).SameStops (f s) ∧ k s = done true

variable {note : Option StopNote} {m : Task Session Bool}

theorem notes_of_inspects {α : Type} {m : Task Session α} {g : α → Task Session Bool}
    (hm : Inspects m) (hg : ∀ a, Notes note (g a)) : Notes note (bind m g) := by
  induction m with
  | done a => exact hg a
  | request c k ih => exact fun r => ih r (hm.2 r)
  | update f k _ => exact fun s => (hm s).1.elim

theorem notes_none {α : Type} {m : Task Session α}
    (hm : m.Within (fun _ => True) Session.SameStops) :
    Notes none (bind m fun _ => done true) := by
  induction m with
  | done a => exact ⟨rfl, rfl⟩
  | request c k ih => exact fun r => ih r (hm.2 r)
  | update f k ih => exact fun s => .inl ⟨(hm s).1, ih s (hm s).2⟩

theorem notes_modify {f : Session → Session} {n : StopNote}
    (hf : ∀ s : Session, (s.stopped n.1 n.2).SameStops (f s)) :
    Notes (some n) (do Routine.modify f; return true) :=
  fun s => .inr ⟨n, rfl, hf s, rfl⟩

/-- Up to its next request the routine leaves the books of stops alone, or it ends with the note. -/
theorem Notes.advance (hm : Notes note m) (s : Session) :
    (s.SameStops (m.advance s).2 ∧ Notes note (m.advance s).1) ∨
      ∃ n : StopNote, note = some n ∧ (s.stopped n.1 n.2).SameStops (m.advance s).2 ∧
        (m.advance s).1 = done true := by
  induction m generalizing s with
  | done goesOn => exact .inl ⟨.rfl, hm⟩
  | request c k _ => exact .inl ⟨.rfl, hm⟩
  | update f k ih =>
    rcases hm s with ⟨hsame, hk⟩ | ⟨n, hn, hf, hk⟩
    · rcases ih s hk (f s) with ⟨hsame', hk'⟩ | ⟨n, hn, hf, hend⟩
      · exact .inl ⟨hsame.trans hsame', hk'⟩
      · exact .inr ⟨n, hn, (hsame.stopped n).trans hf, hend⟩
    · refine .inr ⟨n, hn, ?_⟩
      simp only [Routine.advance, hk]
      exact ⟨hf, trivial⟩

theorem Notes.move (hm : Notes note m) (answer : (c : Call) → Vm → c.Reply × Vm) (s : Session)
    (vm : Vm) :
    (s.SameStops (m.move answer s vm).2.1 ∧ Notes note (m.move answer s vm).1) ∨
      ∃ n : StopNote, note = some n ∧ (s.stopped n.1 n.2).SameStops (m.move answer s vm).2.1 ∧
        (m.move answer s vm).1 = done true := by
  cases m with
  | done goesOn => exact .inl ⟨.rfl, hm⟩
  | request c k => exact .inl ⟨.rfl, hm _⟩
  | update f k => exact Notes.advance hm s

end Routine

/-! ## Events -/

namespace Session

theorem sameStops_recordHit (request : Option RequestId) (s : Session) :
    s.SameStops (recordHit request s).2 := by
  cases request <;> exact ⟨rfl, rfl⟩

theorem notes_reportHit (id : Option String) (t : ThreadId) (l : Location) :
    Notes (some (t, some id)) (reportHit id t l) :=
  notes_of_inspects (inspects_threadPlace t l) fun _ => notes_modify fun _ => ⟨rfl, rfl⟩

theorem notes_reportStep (t : ThreadId) (l : Location) :
    Notes (some (t, none)) (reportStep t l) :=
  notes_of_inspects (inspects_threadPlace t l) fun _ => notes_modify fun _ => ⟨rfl, rfl⟩

theorem Rebooked.sameStops {s t : Session} (h : s.Rebooked t) : s.SameStops t := by
  have h : t = { s with breakpoints := t.breakpoints } := h
  rw [h]
  exact ⟨Eq.refl _, Eq.refl _⟩

theorem sameStops_installWaiting (c : TypeInfo) (taken : Option (RequestId × List Breakpoint)) :
    (installWaiting c taken).Within (fun _ => True) SameStops :=
  (installs_installWaiting c taken).mono (fun _ _ => trivial) fun _ _ h => h.sameStops

/-- After its first updates the handling of a calm event ends with the note of the event. -/
theorem handleEvent_notes {e : TargetEvent} (he : e.isCalm = true) (s : Session) :
    ∃ (m : Task Session Bool) (t : Session), (handleEvent e).advance s = m.advance t ∧
      s.SameStops t ∧ Notes (e.note s) m := by
  cases e with
  | vmStart t => exact ⟨_, s, rfl, .rfl, rfl, rfl⟩
  | breakpoint request t l =>
    exact ⟨_, _, by rw [handleEvent_breakpoint]; rfl, sameStops_recordHit request s,
      notes_reportHit _ t l⟩
  | step request t l =>
    refine ⟨_, (s.finishStep t request).2, by rw [handleEvent_step]; rfl, ⟨rfl, rfl⟩, ?_⟩
    beta_reduce
    split
    · exact fun _ => notes_reportStep t l
    · exact notes_reportStep t l
  | exception request t l thrown catchAt =>
    refine ⟨_, s, rfl, .rfl, notes_of_inspects (inspects_exceptionMessage thrown) fun _ => ?_⟩
    exact notes_of_inspects (inspects_threadPlace t l) fun _ => notes_modify fun _ => ⟨rfl, rfl⟩
  | threadStart t =>
    refine ⟨_, s, rfl, .rfl, notes_of_inspects (inspects_threadName t) fun _ => ?_⟩
    exact fun s => .inl ⟨⟨rfl, rfl⟩, rfl, rfl⟩
  | classPrepare request t c =>
    refine ⟨_, (takePending c.name s).2, by rw [handleEvent_classPrepare]; rfl, ⟨rfl, rfl⟩, ?_⟩
    exact notes_none (sameStops_installWaiting c _)
  | threadDeath | vmDeath => cases he

end Session

/-! ## Letting the target run -/

def Operation.letsRun : Operation → Bool
  | resume | step .. => true
  | _ => false

namespace Routine

/-- The routine fails, or ends with the update that forgets all stops. It does not end the session. -/
def LetsRun : Task Session (Option DebugError) → Prop
  | done r => r ≠ none
  | request _ k => ∀ r, LetsRun (k r)
  | update f k => ∀ s, (s.Alive → (f s).Alive) ∧
    (LetsRun (k s) ∨ f = Session.resumed ∧ k s = done none)

variable {m : Task Session (Option DebugError)}

theorem LetsRun.advance (hm : LetsRun m) (s : Session) :
    (s.Alive → (m.advance s).2.Alive) ∧ (LetsRun (m.advance s).1 ∨
      (m.advance s).1 = done none ∧ ∃ t : Session, (m.advance s).2 = t.resumed) := by
  induction m generalizing s with
  | done r => exact ⟨id, .inl hm⟩
  | request c k _ => exact ⟨id, .inl hm⟩
  | update f k ih =>
    obtain ⟨halive, hk | ⟨rfl, hk⟩⟩ := hm s
    · obtain ⟨halive', hrest⟩ := ih s hk (f s)
      exact ⟨fun h => halive' (halive h), hrest⟩
    · simp only [Routine.advance, hk]
      exact ⟨halive, .inr ⟨trivial, s, rfl⟩⟩

theorem LetsRun.move (hm : LetsRun m) (answer : (c : Call) → Vm → c.Reply × Vm) (s : Session)
    (vm : Vm) :
    (s.Alive → (m.move answer s vm).2.1.Alive) ∧ (LetsRun (m.move answer s vm).1 ∨
      (m.move answer s vm).1 = done none ∧ ∃ t : Session, (m.move answer s vm).2.1 = t.resumed) := by
  cases m with
  | done r => exact ⟨id, .inl hm⟩
  | request c k => exact ⟨id, .inl (hm _)⟩
  | update f k =>
    obtain ⟨halive, hk | ⟨rfl, hk⟩⟩ := hm s
    · obtain ⟨halive', hrest⟩ := hk.advance (f s)
      exact ⟨fun h => halive' (halive h), hrest⟩
    · simp only [Routine.move, hk]
      exact ⟨halive, .inr ⟨rfl, s, rfl⟩⟩

theorem letsRun_failure {α : Type} {m : Op DebugError Session α}
    {g : α → Op DebugError Session Unit}
    (hm : m.run.Within (fun _ => True) fun s t => s.Alive → t.Alive)
    (hg : ∀ a, LetsRun (g a).failure?) : LetsRun (m >>= g).failure? := by
  rw [Op.failure?_bind]
  generalize m.run = m at hm
  induction m with
  | done r =>
    cases r with
    | ok a => exact hg a
    | error e => exact fun h => by cases h
  | request c k ih => exact fun r => ih r (hm.2 r)
  | update f k ih => exact fun s => ⟨(hm s).1, .inl (ih s (hm s).2)⟩

end Routine

namespace Session

theorem letsRun_letRun : LetsRun letRun.failure? := by
  refine fun r => ?_
  cases r with
  | ok _ =>
    refine fun s => ⟨fun h => ?_, .inr ⟨rfl, rfl⟩⟩
    rw [Alive, (resumed_of_alive h).1]
    rfl
  | error e => exact fun h => by cases h

theorem alive_reach :
    Routine.Within (fun _ => True) (fun s t => s.Alive → t.Alive) reach.run := by
  refine Op.within_bind (fun s => ⟨fun h => h, trivial⟩) fun s => ?_
  split <;> trivial

theorem letsRun_resume : LetsRun resume.failure? :=
  letsRun_failure alive_reach fun _ => letsRun_letRun

theorem letsRun_step (t : Option ThreadId) (depth : StepDepth) (size : StepSize) :
    LetsRun (step t depth size).failure? := by
  refine letsRun_failure alive_reach fun _ => ?_
  refine letsRun_failure ?_ fun t => ?_
  · refine Op.within_bind (fun s => ⟨fun h => h, trivial⟩) fun s => ?_
    split <;> trivial
  refine letsRun_failure (Op.within_call trivial) fun info => ?_
  split
  · exact fun h => by cases h
  · refine letsRun_failure (fun s => ⟨fun h => h, trivial⟩) fun previous => ?_
    have hrest : LetsRun (do
        let request : RequestId ← Op.call (.createStep t size depth)
        Op.update fun s => { s with steps := s.steps.insert t request }
        letRun : Op DebugError Session Unit).failure? := by
      refine letsRun_failure (Op.within_call trivial) fun request => ?_
      exact letsRun_failure (fun s => ⟨fun h => h, trivial⟩) fun _ => letsRun_letRun
    cases previous with
    | none => exact hrest
    | some previous =>
      exact letsRun_failure (Op.within_lift (m := Task.quietly (.deleteRequest previous))
        ⟨trivial, fun _ => trivial⟩) fun _ => hrest

end Session

theorem letsRun_operation {o : Operation} (ho : o.letsRun) : LetsRun o.task := by
  cases o with
  | resume => exact Session.letsRun_resume
  | step t depth size => exact Session.letsRun_step t depth size
  | addBreakpoint | addException | setEnabled | remove | clear | suspend | resumeThread
  | suspendThread => cases ho

end JvmDebug
