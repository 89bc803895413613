import JvmDebug.Proofs.SessionTurns
import JvmDebug.Proofs.StopNotes

/-!
How the parts of a session change what is selected. Selecting a thread writes both halves of the
selection, and so does the note of a stop; selecting a frame writes the frame alone, after it has
compared the index with the frames of the thread that was selected when it asked for them. A thread
that has died is no longer selected. Everything else leaves the selection alone.
-/
namespace JvmDebug

open Routine

def Session.SameSelection (s t : Session) : Prop := t.selection = s.selection

theorem Session.SameSelection.rfl {s : Session} : s.SameSelection s := Eq.refl _

theorem Session.SameSelection.trans {s t u : Session} (hst : s.SameSelection t)
    (htu : t.SameSelection u) : s.SameSelection u :=
  Eq.trans htu hst

theorem Session.sameSelection_enter (s : Session) (next : SessionState) :
    s.SameSelection (s.enter next) := by
  simp only [enter]
  split <;> rfl

theorem Session.sameSelection_disconnected (s : Session) : s.SameSelection s.disconnected := by
  simp only [disconnected]
  split
  · rfl
  · exact s.sameSelection_enter _

theorem Session.selection_stopped (s : Session) (t : ThreadId) (b : Option (Option String)) :
    (s.stopped t b).selection = ⟨some t, 0⟩ := by
  simp only [stopped, enter]
  split <;> rfl

abbrev Routine.KeepsSelection {α : Type} (m : Task Session α) : Prop :=
  m.Within (fun _ => True) Session.SameSelection

/-! ## What leaves the selection alone -/

section
variable {α : Type}

theorem Routine.Evaluates.keepsSelection {m : Task Session α} (hm : Evaluates m) :
    KeepsSelection m :=
  hm.mono (fun _ _ => trivial) fun _ _ hf => hf.elim

theorem Routine.Inspects.keepsSelection {m : Task Session α} (hm : Inspects m) :
    KeepsSelection m :=
  hm.evaluates.keepsSelection

theorem keepsSelection_call (c : Call) :
    KeepsSelection (Op.call c : Op DebugError Session c.Answer).run := Op.within_call trivial

theorem keepsSelection_state : KeepsSelection (Op.state : Op DebugError Session Session).run :=
  fun _ => ⟨.rfl, trivial⟩

theorem keepsSelection_update {f : Session → Session} (hf : ∀ s : Session, s.SameSelection (f s)) :
    KeepsSelection (Op.update f : Op DebugError Session Unit).run := fun s => ⟨hf s, trivial⟩

end

namespace Session

theorem keepsSelection_reach : KeepsSelection reach.run := within_reach fun _ => .rfl

theorem keepsSelection_chosenThread (t : Option ThreadId) :
    KeepsSelection (chosenThread t).run := by
  refine Op.within_bind keepsSelection_state fun s => ?_
  split <;> trivial

theorem keepsSelection_letRun : KeepsSelection letRun.run :=
  Op.within_bind (keepsSelection_call _) fun _ =>
    keepsSelection_update fun _ => sameSelection_enter _ _

theorem keepsSelection_chosenFrame (t : Option ThreadId) (index : Option Nat) :
    KeepsSelection (chosenFrame t index).run := by
  refine Op.within_bind keepsSelection_reach fun _ => ?_
  refine Op.within_bind (keepsSelection_chosenThread t) fun t => ?_
  refine Op.within_bind keepsSelection_state fun s => ?_
  refine Op.within_bind (keepsSelection_call _) fun all => ?_
  split <;> trivial

theorem keepsSelection_frameVariables (t : Option ThreadId) (index : Option Nat) :
    KeepsSelection (frameVariables t index).run := by
  refine Op.within_bind (keepsSelection_chosenFrame t index) fun p => ?_
  refine Op.within_bind (Scope.inspects_read _ _).keepsSelection fun scope => ?_
  split
  · exact (evaluates_variableInfos _).keepsSelection
  · refine Op.within_bind (Display.inspects_value _).keepsSelection fun _ => ?_
    exact Op.within_bind (evaluates_variableInfos _).keepsSelection fun _ => trivial

theorem keepsSelection_ofExcept {α : Type} (r : Except DebugError α) :
    KeepsSelection (Op.ofExcept r : Op DebugError Session α).run := trivial

theorem keepsSelection_setVariable (name source : String) :
    KeepsSelection (setVariable name source).run := by
  refine Op.within_bind (keepsSelection_ofExcept _) fun e => ?_
  refine Op.within_bind (keepsSelection_chosenFrame none none) fun p => ?_
  refine Op.within_bind (Scope.inspects_read _ _).keepsSelection fun scope => ?_
  split
  · refine Op.within_bind (Scope.evaluates_evaluate _ _).keepsSelection fun evaluation => ?_
    refine Op.within_bind (Scope.converts_assign _ _ _).evaluates.keepsSelection fun value => ?_
    refine Op.within_bind (keepsSelection_call _) fun _ => ?_
    exact Op.within_bind (Display.inspects_value _).keepsSelection fun _ => trivial
  · trivial

theorem keepsSelection_evaluate (t : Option ThreadId) (index : Option Nat) (source : String) :
    KeepsSelection (evaluate t index source).run := by
  refine Op.within_bind (keepsSelection_ofExcept _) fun e => ?_
  refine Op.within_bind (keepsSelection_chosenFrame t index) fun p => ?_
  refine Op.within_bind (Scope.inspects_read _ _).keepsSelection fun scope => ?_
  exact (Scope.evaluates_evaluate _ _).keepsSelection

theorem keepsSelection_status : KeepsSelection status.run := by
  refine Op.within_bind keepsSelection_reach fun _ => ?_
  refine Op.within_bind (keepsSelection_call _) fun all => ?_
  refine Op.within_bind keepsSelection_state fun s => ?_
  refine Op.within_bind (evaluates_suspendedThreads _ _).lift.keepsSelection fun _ => ?_
  exact Op.within_bind keepsSelection_state fun s => trivial

end Session

theorem keepsSelection_operation (o : Operation) : KeepsSelection o.task := by
  cases o with
  | addBreakpoint | addException | setEnabled | remove | clear =>
    refine (within_onBreakpoints rfl).mono (fun _ _ => trivial) fun s t hst => ?_
    have hst : t = { s with
        breakpoints := t.breakpoints, exceptions := t.exceptions, ids := t.ids } := hst
    exact (congrArg Session.selection hst :)
  | resume =>
    exact Op.within_failure
      (Op.within_bind Session.keepsSelection_reach fun _ => Session.keepsSelection_letRun)
  | suspend =>
    refine Op.within_failure (Op.within_bind Session.keepsSelection_reach fun _ => ?_)
    exact Op.within_bind (keepsSelection_call _) fun _ =>
      keepsSelection_update fun s => s.sameSelection_enter _
  | resumeThread t =>
    refine Op.within_failure (Op.within_bind Session.keepsSelection_reach fun _ => ?_)
    exact Op.within_bind (keepsSelection_call _) fun _ => keepsSelection_update fun _ => rfl
  | suspendThread t =>
    exact Op.within_failure
      (Op.within_bind Session.keepsSelection_reach fun _ => keepsSelection_call _)
  | step t depth size =>
    exact Op.within_failure (Session.within_step (fun _ => trivial) (fun _ => trivial)
      (fun _ => trivial) (fun _ => .rfl) (fun _ _ => rfl) Session.keepsSelection_letRun)

def Errand.selects : Errand → Bool
  | selectThread _ | selectFrame _ => true
  | _ => false

theorem keepsSelection_errand {e : Errand} (he : e.selects = false) : KeepsSelection e.task := by
  cases e with
  | selectThread | selectFrame => cases he
  | threads =>
    refine Op.within_failure (Op.within_bind Session.keepsSelection_reach fun _ => ?_)
    exact Op.within_bind (keepsSelection_call _) fun _ =>
      Op.within_bind keepsSelection_state fun _ => trivial
  | frames t start count =>
    refine Op.within_failure (Op.within_bind Session.keepsSelection_reach fun _ => ?_)
    refine Op.within_bind (Session.keepsSelection_chosenThread t) fun t => ?_
    refine Op.within_bind (keepsSelection_call _) fun all => ?_
    exact Op.within_bind (Session.evaluates_summaries _ _).lift.keepsSelection fun _ => trivial
  | frameVariables t index =>
    exact Op.within_failure (Session.keepsSelection_frameVariables t index)
  | variableNamed t index name =>
    refine Op.within_failure ?_
    refine Op.within_bind (Session.keepsSelection_frameVariables t index) fun all => ?_
    split <;> trivial
  | setVariable name source =>
    exact Op.within_failure (Session.keepsSelection_setVariable name source)
  | evaluate t index source =>
    exact Op.within_failure (Session.keepsSelection_evaluate t index source)
  | status => exact Op.within_failure Session.keepsSelection_status
  | rename | poll | pop | clearEvents | addListener | removeListener =>
    exact fun s => ⟨rfl, trivial⟩
  | close =>
    refine within_bind (fun s => ⟨rfl, trivial⟩) fun _ => within_bind ?_ fun _ => trivial
    exact Session.within_finishClose trivial (fun _ => .rfl) fun s => s.sameSelection_enter _

/-! ## Selecting -/

namespace Session

/-- What is left of selecting a frame when the index has been found to be good. -/
def frameJudged (index : Nat) : Task Session (Option DebugError) :=
  .update (fun s => { s with selection := { s.selection with frame := index } }) fun _ => .done none

/-- What is left of it when the frames of the thread are to be asked for. -/
def frameAsked (t : ThreadId) (index : Nat) : Task Session (Option DebugError) :=
  .request (.frames t) fun
    | .ok frames =>
      if frames.length ≤ index then .done (some (.invalidFrameIndex index frames.length))
      else frameJudged index
    | .error e => .done (some (.ofTarget e))

/-- What is left of selecting a thread when it has been found among the threads. -/
def threadJudged (t : ThreadId) : Task Session (Option DebugError) :=
  .update (fun s => { s with selection := ⟨some t, 0⟩ }) fun _ => .done none

def threadAsked (t : ThreadId) : Task Session (Option DebugError) :=
  .request .allThreads fun
    | .ok all => if !all.any (·.id == t) then .done (some (.threadNotFound t)) else threadJudged t
    | .error e => .done (some (.ofTarget e))

theorem chosenThread_none : (chosenThread none).run = .update (fun s => s) fun s =>
    .done (match s.selection.thread with
      | some t => .ok t
      | none => .error .noThreadSelected) := by
  show Routine.update _ _ = _
  congr 1
  funext s
  show Routine.bind _ _ = _
  dsimp only [Routine.bind, ExceptT.bindCont, Function.comp]
  cases s.selection.thread <;> rfl

theorem failure_call {α : Type} (c : Call) (g : c.Answer → Op DebugError Session α) :
    (Op.call c >>= g).failure? = .request c fun
      | .ok a => (g a).failure?
      | .error e => .done (some (.ofTarget e)) := by
  rw [Op.failure?_bind]
  show Routine.request c _ = _
  congr 1
  funext r
  cases r <;> rfl

theorem selectFrame_move (index : Nat) (s : Session) (vm : Vm) :
    (Errand.selectFrame index).task.move Vm.serve s vm =
      (match s.unreachable?, s.selection.thread with
        | some e, _ => .done (some e)
        | none, none => .done (some .noThreadSelected)
        | none, some t => frameAsked t index, s, vm) := by
  simp only [Errand.task, selectFrame, Op.failure?_bind reach, Op.failure?_bind (chosenThread none),
    run_reach, chosenThread_none, Routine.bind, Routine.move]
  cases s.unreachable? with
  | some e => rfl
  | none =>
    dsimp only [Routine.advance]
    cases s.selection.thread with
    | none => rfl
    | some t =>
      dsimp only [Routine.advance]
      rw [failure_call (.frames t)]
      dsimp only [Routine.advance, frameAsked]
      congr 2
      funext r
      cases r with
      | error e => rfl
      | ok all =>
        dsimp only
        split <;> rfl

theorem selectThread_move (t : ThreadId) (s : Session) (vm : Vm) :
    (Errand.selectThread t).task.move Vm.serve s vm =
      (match s.unreachable? with
        | some e => .done (some e)
        | none => threadAsked t, s, vm) := by
  simp only [Errand.task, selectThread, Op.failure?_bind reach, run_reach, Routine.bind,
    Routine.move]
  cases s.unreachable? with
  | some e => rfl
  | none =>
    dsimp only
    rw [failure_call .allThreads]
    dsimp only [Routine.advance, threadAsked]
    congr 2
    funext r
    cases r with
    | error e => rfl
    | ok all =>
      dsimp only
      split <;> rfl

end Session

open Session

namespace Routine

/-- The stages of an operation or an errand, as far as the selection is concerned. -/
inductive Selecting : Task Session (Option DebugError) → Prop
  | other {m : Task Session (Option DebugError)} (hm : KeepsSelection m) : Selecting m
  | frame (index : Nat) : Selecting (Errand.selectFrame index).task
  | frameAsked (t : ThreadId) (index : Nat) : Selecting (frameAsked t index)
  | frameJudged (index : Nat) : Selecting (frameJudged index)
  | thread (t : ThreadId) : Selecting (Errand.selectThread t).task
  | threadAsked (t : ThreadId) : Selecting (threadAsked t)
  | threadJudged (t : ThreadId) : Selecting (threadJudged t)

theorem selecting_operation (o : Operation) : Selecting o.task :=
  .other (keepsSelection_operation o)

theorem selecting_errand (e : Errand) : Selecting e.task := by
  cases he : e.selects with
  | false => exact .other (keepsSelection_errand he)
  | true =>
    cases e with
    | selectThread t => exact .thread t
    | selectFrame index => exact .frame index
    | _ => cases he

/-- What a step does that takes one stage to another: to the selection, and with which answer. -/
inductive Selects (vm : Vm) : Task Session (Option DebugError) → Selection →
    Task Session (Option DebugError) → Selection → Prop
  | other {m m' : Task Session (Option DebugError)} {x : Selection} (hm : KeepsSelection m') :
    Selects vm m x m' x
  | askFrames {m : Task Session (Option DebugError)} {x : Selection} {t : ThreadId} (index : Nat)
    (ht : x.thread = some t) : Selects vm m x (frameAsked t index) x
  | judgeFrame {x : Selection} {t : ThreadId} {index : Nat} {frames : List Frame}
    (hframes : (vm.answer (.frames t)).1 = .ok frames) (hindex : index < frames.length) :
    Selects vm (frameAsked t index) x (frameJudged index) x
  | setFrame {x : Selection} (index : Nat) :
    Selects vm (frameJudged index) x (.done none) { x with frame := index }
  | askThreads {m : Task Session (Option DebugError)} {x : Selection} (t : ThreadId) :
    Selects vm m x (threadAsked t) x
  | judgeThread {x : Selection} (t : ThreadId) : Selects vm (threadAsked t) x (threadJudged t) x
  | setThread {x : Selection} (t : ThreadId) :
    Selects vm (threadJudged t) x (.done none) ⟨some t, 0⟩

variable {m m' : Task Session (Option DebugError)}

theorem Selecting.move (hm : Selecting m) (s : Session) (vm : Vm) :
    Selecting (m.move Vm.serve s vm).1 ∧ Selects vm m s.selection (m.move Vm.serve s vm).1
      (m.move Vm.serve s vm).2.1.selection := by
  cases hm with
  | other hm =>
    obtain ⟨hsame, hrest⟩ := Within.move hm Vm.serve (fun _ => .rfl) (fun _ _ _ => .trans) s vm
    refine ⟨.other hrest, ?_⟩
    rw [hsame]
    exact .other hrest
  | frame index =>
    rw [selectFrame_move]
    split
    · exact ⟨.other trivial, .other trivial⟩
    · exact ⟨.other trivial, .other trivial⟩
    · next t _ ht => exact ⟨.frameAsked t index, .askFrames index ht⟩
  | frameAsked t index =>
    simp only [Session.frameAsked, Routine.move, Vm.serve]
    split
    · next frames hframes =>
      split
      · exact ⟨.other trivial, .other trivial⟩
      · next hindex => exact ⟨.frameJudged index, .judgeFrame hframes (Nat.lt_of_not_le hindex)⟩
    · exact ⟨.other trivial, .other trivial⟩
  | frameJudged index => exact ⟨.other trivial, .setFrame index⟩
  | thread t =>
    rw [selectThread_move]
    split
    · exact ⟨.other trivial, .other trivial⟩
    · exact ⟨.threadAsked t, .askThreads t⟩
  | threadAsked t =>
    simp only [Session.threadAsked, Routine.move, Vm.serve]
    split
    · split
      · exact ⟨.other trivial, .other trivial⟩
      · exact ⟨.threadJudged t, .judgeThread t⟩
    · exact ⟨.other trivial, .other trivial⟩
  | threadJudged t => exact ⟨.other trivial, .setThread t⟩

section
variable {vm : Vm} {x x' : Selection} {t : ThreadId} {index : Nat}

theorem frameJudged_changes (index : Nat) : ¬KeepsSelection (frameJudged index) := by
  intro h
  let s : Session :=
    { Session.new "" {} 0 {} with selection := { frame := index + 1 } }
  have hsame : (⟨none, index⟩ : Selection) = ⟨none, index + 1⟩ := (h s).1
  simp at hsame

theorem frameAsked_changes (t : ThreadId) (index : Nat) : ¬KeepsSelection (frameAsked t index) := by
  intro h
  refine frameJudged_changes index ?_
  have hrest := h.2 (.ok (List.replicate (index + 1) default))
  dsimp only at hrest
  rwa [if_neg (by simp)] at hrest

/-- What an errand begins with is none of the later stages of selecting a frame. -/
theorem errand_ne {e : Errand} (he : e.selects = true) :
    (∀ t index, e.task ≠ frameAsked t index) ∧ ∀ index, e.task ≠ frameJudged index := by
  have hjudged {index : Nat}
      (hmove : ∀ s vm, (e.task.move Vm.serve s vm).2.1.selection = s.selection) :
      e.task ≠ frameJudged index := by
    intro h
    let s : Session := { Session.new "" {} 0 {} with selection := { frame := index + 1 } }
    have hsame : (⟨none, index⟩ : Selection) = ⟨none, index + 1⟩ := by
      have hs := hmove s {}
      rwa [h] at hs
    simp at hsame
  cases e with
  | selectThread t => exact ⟨nofun, fun index => hjudged fun s vm => by rw [selectThread_move]⟩
  | selectFrame i => exact ⟨nofun, fun index => hjudged fun s vm => by rw [selectFrame_move]⟩
  | _ => cases he

theorem frameAsked_inj {u : ThreadId} {i : Nat} (h : frameAsked t index = frameAsked u i) :
    t = u := by
  injection h with h
  injection h

theorem frameJudged_inj {i : Nat} (h : frameJudged index = frameJudged i) : index = i := by
  injection h with h
  exact congrArg (fun s : Session => s.selection.frame) (congrFun h (Session.new "" {} 0 {}))

theorem frameJudged_ne_threadJudged (index : Nat) (t : ThreadId) :
    frameJudged index ≠ threadJudged t := by
  intro h
  injection h with hf
  have := congrArg (fun s : Session => s.selection.thread) (congrFun hf (Session.new "" {} 0 {}))
  cases this

/-- The thread whose frames are asked for is the selected one. -/
theorem Selects.asked (h : Selects vm m x (frameAsked t index) x') : x.thread = some t := by
  generalize hm' : frameAsked t index = m' at h
  cases h with
  | other hm => exact absurd (hm' ▸ hm) (frameAsked_changes t index)
  | askFrames i ht => rw [ht, frameAsked_inj hm']
  | judgeFrame | setFrame | setThread | judgeThread => cases hm'
  | askThreads u =>
    injection hm' with hc
    cases hc

/-- An index is found to be good by the frames that were asked for. -/
theorem Selects.judged (h : Selects vm m x (frameJudged index) x') :
    ∃ t frames, m = frameAsked t index ∧ (vm.answer (.frames t)).1 = .ok frames ∧
      index < frames.length := by
  generalize hm' : frameJudged index = m' at h
  cases h with
  | other hm => exact absurd (hm' ▸ hm) (frameJudged_changes index)
  | judgeFrame hframes hindex =>
    obtain rfl := frameJudged_inj hm'
    exact ⟨_, _, rfl, hframes, hindex⟩
  | askFrames | setFrame | setThread | askThreads => cases hm'
  | judgeThread u => exact absurd hm' (frameJudged_ne_threadJudged index u)

/-- Nothing but the last stages changes the selection. -/
theorem Selects.same (h : Selects vm m x m' x') (hframe : ∀ i, m ≠ frameJudged i)
    (hthread : ∀ u, m ≠ threadJudged u) : x' = x := by
  cases h with
  | setFrame i => exact absurd rfl (hframe i)
  | setThread u => exact absurd rfl (hthread u)
  | other | askFrames | judgeFrame | askThreads | judgeThread => rfl

end

end Routine

/-! ## The event loop -/

namespace Session

/-- What is left of handling the stop of a thread when the target has been looked at. -/
def stopNote (t : ThreadId) (b : Option (Option String)) (p : Payload) : Task Session Bool :=
  .update (fun s => (s.stopped t b).emit p) fun _ => .done true

def deathNote (t : ThreadId) (p : Payload) : Task Session Bool :=
  .update (fun s => (s.forgetThread t).emit p) fun _ => .done true

end Session

namespace Routine

inductive ChangesSelection : Task Session Bool → Prop
  | stop (t : ThreadId) (b : Option (Option String)) (p : Payload) :
    ChangesSelection (stopNote t b p)
  | death (t : ThreadId) (p : Payload) : ChangesSelection (deathNote t p)

/-- The routine leaves the selection alone, unless an answer is followed by a note that changes
it. -/
def Settling : Task Session Bool → Prop
  | done _ => True
  | request _ k => ∀ r, Settling (k r) ∨ ChangesSelection (k r)
  | update f k => ∀ s, s.SameSelection (f s) ∧ Settling (k s)

variable {m : Task Session Bool}

theorem KeepsSelection.settling (hm : KeepsSelection m) : Settling m := by
  induction m with
  | done a => trivial
  | request c k ih => exact fun r => .inl (ih r (hm.2 r))
  | update f k ih => exact fun s => ⟨(hm s).1, ih s (hm s).2⟩

theorem settling_of_inspects {α : Type} {m : Task Session α} {g : α → Task Session Bool}
    (hm : Inspects m) (hg : ∀ a, Settling (g a) ∨ ChangesSelection (g a)) :
    Settling (bind m g) ∨ ChangesSelection (bind m g) := by
  induction m with
  | done a => exact hg a
  | request c k ih => exact .inl fun r => ih r (hm.2 r)
  | update f k _ => exact .inl fun s => (hm s).1.elim

theorem Settling.advance (hm : Settling m) (s : Session) :
    s.SameSelection (m.advance s).2 ∧ Settling (m.advance s).1 := by
  induction m generalizing s with
  | done a => exact ⟨.rfl, hm⟩
  | request c k _ => exact ⟨.rfl, hm⟩
  | update f k ih =>
    obtain ⟨hstep, hrest⟩ := ih s (hm s).2 (f s)
    exact ⟨(hm s).1.trans hstep, hrest⟩

theorem Settling.move (hm : Settling m) (s : Session) (vm : Vm) :
    s.SameSelection (m.move Vm.serve s vm).2.1 ∧ (Settling (m.move Vm.serve s vm).1 ∨
      ChangesSelection (m.move Vm.serve s vm).1) := by
  cases m with
  | done a => exact ⟨.rfl, .inl hm⟩
  | request c k => exact ⟨.rfl, hm _⟩
  | update f k =>
    obtain ⟨hstep, hrest⟩ := (hm s).2.advance (f s)
    exact ⟨(hm s).1.trans hstep, .inl hrest⟩

end Routine

namespace Session

theorem settling_threadPlace {t : ThreadId} {l : Location} {g : ThreadPlace → Task Session Bool}
    (hg : ∀ p, ChangesSelection (g p)) : Settling (Routine.bind (threadPlace t l) g) :=
  (settling_of_inspects (inspects_threadPlace t l) fun p => .inr (hg p)).resolve_right nofun

theorem settling_handleEvent (e : TargetEvent) : Settling (handleEvent e) := by
  cases e with
  | vmStart t => trivial
  | breakpoint request t l =>
    rw [handleEvent_breakpoint]
    refine fun s => ⟨?_, settling_threadPlace fun _ => .stop t _ _⟩
    cases request <;> rfl
  | step request t l =>
    have hreport : Settling (reportStep t l) := settling_threadPlace fun _ => .stop t _ _
    rw [handleEvent_step]
    refine fun s => ⟨rfl, ?_⟩
    dsimp only
    split
    · exact fun _ => .inl hreport
    · exact hreport
  | exception request t l thrown catchAt =>
    have hplace (message : Option String) : Settling (do
        let place ← threadPlace t l
        Routine.modify fun s => (s.stopped t none).emit
          (.exceptionThrown thrown.runtimeType message catchAt.isSome place)
        return true) := settling_threadPlace fun _ => .stop t _ _
    exact (settling_of_inspects (inspects_exceptionMessage thrown) fun message =>
      .inl (hplace message)).resolve_right nofun
  | threadStart t =>
    refine KeepsSelection.settling (within_bind (inspects_threadName t).keepsSelection fun _ => ?_)
    exact within_bind (within_modify fun s => rfl) fun _ => trivial
  | threadDeath t =>
    exact (settling_of_inspects (inspects_threadName t) fun _ =>
      .inr (.death t _)).resolve_right nofun
  | classPrepare request t c =>
    rw [handleEvent_classPrepare]
    refine fun s => ⟨rfl, KeepsSelection.settling (within_bind ?_ fun _ => trivial)⟩
    refine (installs_installWaiting c _).mono (fun _ _ => trivial) fun s s' hst => ?_
    have hst : s' = { s with breakpoints := s'.breakpoints } := hst
    exact (congrArg Session.selection hst :)
  | vmDeath => exact fun s => ⟨sameSelection_enter s _, trivial⟩

theorem keepsSelection_resumeAfter (set : EventSet) : KeepsSelection (resumeAfter set) :=
  within_resumeAfter trivial sameSelection_disconnected

end Session

namespace Loop

/-- The loop changes the selection by a note after an answer, or not at all. -/
def Settling : Loop → Prop
  | handling _ _ now _ => now.Settling ∨ ChangesSelection now
  | resuming now => KeepsSelection now
  | reading | ready .. | ended => True

theorem settling_afterEvent {set : EventSet} {e : TargetEvent} {later : List TargetEvent}
    {now : Task Session Bool} (hnow : now.Settling ∨ ChangesSelection now) :
    (afterEvent set e later now).Settling :=
  of_afterEvent hnow fun _ _ => ⟨trivial, trivial⟩

theorem settling_afterResume {now : Task Session Bool} (hnow : KeepsSelection now) :
    (afterResume now).Settling :=
  of_afterResume hnow fun _ _ => ⟨trivial, trivial⟩

/-- The loop is about to note the stop of the thread. -/
def NotesStop (t : ThreadId) (l : Loop) : Prop :=
  ∃ set e b p later, l = handling set e (stopNote t b p) later

def NotesDeath (t : ThreadId) (l : Loop) : Prop :=
  ∃ set e p later, l = handling set e (deathNote t p) later

variable {l : Loop} {s : Session} {vm : Vm} {t : ThreadId}

theorem NotesStop.selection (h : l.NotesStop t) (s : Session) (vm : Vm) :
    (l.step s vm).2.1.selection = ⟨some t, 0⟩ := by
  obtain ⟨set, e, b, p, later, rfl⟩ := h
  exact s.selection_stopped t b

theorem NotesDeath.selection (h : l.NotesDeath t) (s : Session) (vm : Vm) :
    (l.step s vm).2.1.selection = if s.selection.thread = some t then {} else s.selection := by
  obtain ⟨set, e, p, later, rfl⟩ := h
  rfl

theorem Settling.step (hl : l.Settling) (s : Session) (vm : Vm) : (l.step s vm).1.Settling ∧
    (s.SameSelection (l.step s vm).2.1 ∨ (∃ t, l.NotesStop t) ∨ ∃ t, l.NotesDeath t) := by
  cases l with
  | reading =>
    simp only [Loop.step]
    split
    · exact ⟨trivial, .inl .rfl⟩
    · exact ⟨trivial, .inl .rfl⟩
    · exact ⟨trivial, .inl s.sameSelection_disconnected⟩
  | ready set later =>
    cases later with
    | nil =>
      obtain ⟨hsame, hrest⟩ := Within.advance (keepsSelection_resumeAfter set) (fun _ => .rfl)
        (fun _ _ _ => .trans) s
      exact ⟨settling_afterResume hrest, .inl hsame⟩
    | cons e later =>
      obtain ⟨hsame, hrest⟩ := (settling_handleEvent e).advance s
      exact ⟨settling_afterEvent (.inl hrest), .inl hsame⟩
  | handling set e now later =>
    rcases hl with hl | ⟨t, b, p⟩ | ⟨t, p⟩
    · obtain ⟨hsame, hrest⟩ := Routine.Settling.move hl s vm
      exact ⟨settling_afterEvent hrest, .inl hsame⟩
    · exact ⟨trivial, .inr (.inl ⟨t, set, e, b, p, later, rfl⟩)⟩
    · exact ⟨trivial, .inr (.inr ⟨t, set, e, p, later, rfl⟩)⟩
  | resuming now =>
    obtain ⟨hsame, hrest⟩ := Within.move hl Vm.serve (fun _ => .rfl) (fun _ _ _ => .trans) s vm
    exact ⟨settling_afterResume hrest, .inl hsame⟩
  | ended => exact ⟨trivial, .inl .rfl⟩

end Loop

end JvmDebug
