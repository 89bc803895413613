import JvmDebug.Proofs.BreakpointOperations
import JvmDebug.Proofs.Evaluation
import JvmDebug.Proofs.Scene
import JvmDebug.Session.Inspect

/-!
Scenes in which everything may happen that a session is made for: besides the operations on
breakpoints and threads its user looks around in the target, evaluates expressions, takes events
and closes the session, and the target may report any set of events.
-/
namespace JvmDebug

/-! ## What else a user asks for -/

/-- What a user asks of a session besides its breakpoints, its steps and the running of the
target. The end of the event loop, which closing waits for, is left to the schedule. -/
inductive Errand
  | threads
  | selectThread (t : ThreadId)
  | frames (t : Option ThreadId) (start count : Nat)
  | selectFrame (index : Nat)
  | frameVariables (t : Option ThreadId) (index : Option Nat)
  | variableNamed (t : Option ThreadId) (index : Option Nat) (name : String)
  | setVariable (name source : String)
  | evaluate (t : Option ThreadId) (index : Option Nat) (source : String)
  | status
  | rename (name : String)
  | poll (limit : Nat) (filter : List EventKind)
  | pop (filter : List EventKind)
  | clearEvents
  | addListener (name : String)
  | removeListener (id : UInt64)
  | close

def Errand.task : Errand → Task Session (Option DebugError)
  | threads => Session.threads.failure?
  | selectThread t => (Session.selectThread t).failure?
  | frames t start count => (Session.frames t start count).failure?
  | selectFrame index => (Session.selectFrame index).failure?
  | frameVariables t index => (Session.frameVariables t index).failure?
  | variableNamed t index name => (Session.variableNamed t index name).failure?
  | setVariable name source => (Session.setVariable name source).failure?
  | evaluate t index source => (Session.evaluate t index source).failure?
  | status => Session.status.failure?
  | rename name => Routine.bind (Routine.modify (·.rename name)) fun _ => .done none
  | poll limit filter => Routine.bind (Routine.modifyGet (·.poll limit filter)) fun _ => .done none
  | pop filter => Routine.bind (Routine.modifyGet (·.pop filter)) fun _ => .done none
  | clearEvents => Routine.bind (Routine.modify Session.clearEvents) fun _ => .done none
  | addListener name => Routine.bind (Routine.modifyGet (·.addListener name)) fun _ => .done none
  | removeListener id => Routine.bind (Routine.modifyGet (·.removeListener id)) fun _ => .done none
  | close => Routine.bind (Routine.modifyGet Session.beginClose) fun _ =>
      Routine.bind Session.finishClose fun _ => .done none

/-! ## Calls that leave the requests alone -/

/-- The call evaluates something or sets a variable. -/
def Call.visits : Call → Bool
  | setLocalValue .. => true
  | c => c.evaluates

theorem Call.visits_of_evaluates {c : Call} (h : c.evaluates) : c.visits := by
  cases c <;> first | rfl | cases h

theorem Vm.answer_visits (vm : Vm) {c : Call} (h : c.visits) : vm.SameBooks (vm.answer c).2 := by
  by_cases he : c.evaluates
  · exact vm.answer_books he
  · cases c with
    | setLocalValue =>
      simp only [answer, setLocal]
      split <;> exact ⟨rfl, rfl⟩
    | _ => exact absurd h he

def Call.leavesRequests : Call → Bool
  | suspendThread _ | resumeThread _ | suspendAll | resumeAll | resumeEventSet _ | dispose => true
  | c => c.visits

theorem Call.leavesRequests_of_visits {c : Call} (h : c.visits) : c.leavesRequests := by
  cases c <;> first | rfl | cases h

theorem Vm.answer_leavesRequests (vm : Vm) {c : Call} (h : c.leavesRequests) :
    vm.SameBooks (vm.answer c).2 := by
  by_cases hv : c.visits
  · exact vm.answer_visits hv
  · cases c with
    | suspendThread | resumeThread =>
      simp only [answer, switchThread]
      split <;> exact ⟨rfl, rfl⟩
    | suspendAll | resumeAll | dispose => exact ⟨rfl, rfl⟩
    | resumeEventSet set => exact (vm.resumeSet_books set).1
    | _ => exact absurd h hv

namespace Vm
variable {vm : Vm}

theorem lt_addRequest {kind : RequestKind} (hnext : (vm.addRequest kind).2.nextRequest ≠ 0) :
    vm.nextRequest < (vm.addRequest kind).2.nextRequest := by
  refine UInt32.lt_add_one fun h => hnext ?_
  simp only [addRequest, h]
  rfl

theorem nextRequest_deleteRequest (vm : Vm) (r : RequestId) :
    (vm.deleteRequest r).2.nextRequest = vm.nextRequest := by
  simp only [deleteRequest]
  split <;> rfl

/-- A call that makes at most one request does not turn the numbers back, unless they come round. -/
theorem nextRequest_le_answer {c : Call} (hc : c ≠ .watchThreadLifecycle)
    (hnext : (vm.answer c).2.nextRequest ≠ 0) :
    vm.nextRequest ≤ (vm.answer c).2.nextRequest := by
  by_cases hl : c.leavesRequests
  · exact UInt32.le_of_eq (vm.answer_leavesRequests hl).nextRequest.symm
  · cases c with
    | createBreakpoint | createExceptionRequest | createClassPrepareWatch =>
      exact UInt32.le_of_lt (lt_addRequest hnext)
    | createStep t size depth =>
      simp only [answer] at hnext ⊢
      split at hnext
      · next h =>
        rw [if_pos h]
        exact UInt32.le_of_lt (lt_addRequest hnext)
      · next h =>
        rw [if_neg h]
        exact UInt32.le_refl _
    | setRequestEnabled r enabled =>
      simp only [answer, switchRequest]
      split <;> exact UInt32.le_refl _
    | deleteRequest r => exact UInt32.le_of_eq (vm.nextRequest_deleteRequest r).symm
    | watchThreadLifecycle => exact absurd rfl hc
    | arraySet | setField =>
      simp only [answer, setElement]
      repeat' split
      all_goals exact UInt32.le_refl _
    | _ => exact absurd rfl hl

theorem reportSet_books (vm : Vm) (set : EventSet) : vm.SameBooks (vm.reportSet set) := by
  simp only [reportSet]
  split <;> exact ⟨rfl, rfl⟩

end Vm

open Routine

/-! ## Looking whether the target is in reach -/

/-- The routine makes no request before it has seen the target in reach. Until then its updates are
in `V` and it may end with a result in `Q`; afterwards requests are in `P` and updates in `U`. -/
def Routine.Gated {α : Type} (P : Call → Prop) (V U : Session → Session → Prop) (Q : α → Prop) :
    Task Session α → Prop
  | .done a => Q a
  | .request .. => False
  | .update f k => ∀ s, V s (f s) ∧
      (s.unreachable? = none ∧ (k s).Within P U ∨ Gated P V U Q (k s))

section
variable {α β : Type} {P : Call → Prop} {V U : Session → Session → Prop} {Q : α → Prop}

theorem Routine.Gated.within {m : Task Session α} (hm : m.Gated P V U Q)
    (hVU : ∀ s t, V s t → U s t) : m.Within P U := by
  induction m with
  | done a => trivial
  | request c k => exact hm.elim
  | update f k ih =>
    intro s
    exact ⟨hVU _ _ (hm s).1, (hm s).2.elim And.right (ih s)⟩

theorem Routine.Gated.bind {Q' : β → Prop} {m : Task Session α} {g : α → Task Session β}
    (hm : m.Gated P V U Q) (hg : ∀ a, (g a).Within P U) (hearly : ∀ a, Q a → (g a).Gated P V U Q') :
    (Routine.bind m g).Gated P V U Q' := by
  induction m with
  | done a => exact hearly a hm
  | request c k => exact hm.elim
  | update f k ih =>
    intro s
    exact ⟨(hm s).1, (hm s).2.imp (fun h => ⟨h.1, within_bind h.2 hg⟩) (ih s)⟩

theorem Routine.Gated.mono {P' : Call → Prop} {V' U' : Session → Session → Prop} {Q' : α → Prop}
    {m : Task Session α} (hm : m.Gated P V U Q) (hP : ∀ c, P c → P' c)
    (hV : ∀ s t, V s t → V' s t) (hU : ∀ s t, U s t → U' s t) (hQ : ∀ a, Q a → Q' a) :
    m.Gated P' V' U' Q' := by
  induction m with
  | done a => exact hQ a hm
  | request c k => exact hm.elim
  | update f k ih =>
    exact fun s => ⟨hV _ _ (hm s).1, (hm s).2.imp (fun h => ⟨h.1, h.2.mono hP hU⟩) (ih s)⟩

/-- An operation that has ended before it has seen the target in reach has failed. -/
abbrev Op.Gated (P : Call → Prop) (V U : Session → Session → Prop) (m : Op DebugError Session α) :
    Prop :=
  m.run.Gated P V U fun r => ∃ e, r = .error e

theorem Op.Gated.bind {m : Op DebugError Session α} {g : α → Op DebugError Session β}
    (hm : m.Gated P V U) (hg : ∀ a, (g a).run.Within P U) : Op.Gated P V U (m >>= g) := by
  refine Routine.Gated.bind hm (fun r => ?_) ?_
  · cases r with
    | ok a => exact hg a
    | error e => trivial
  · rintro _ ⟨e, rfl⟩
    exact ⟨e, rfl⟩

theorem Op.Gated.failure {m : Op DebugError Session α} (hm : m.Gated P V U) :
    m.failure?.Gated P V U fun _ => True :=
  Routine.Gated.bind hm (fun r => by cases r <;> trivial) fun r _ => by cases r <;> trivial

theorem Session.run_reach : reach.run = .update (fun s => s) fun s =>
    .done (match s.unreachable? with | some e => .error e | none => .ok ()) := by
  show Routine.update _ _ = _
  congr 1
  funext s
  show Routine.bind _ _ = _
  dsimp only [Routine.bind, ExceptT.bindCont, Function.comp]
  cases s.unreachable? <;> rfl

theorem Session.gated_reach (hV : ∀ s, V s s) : Op.Gated P V U reach := by
  rw [Op.Gated, run_reach]
  intro s
  refine ⟨hV s, ?_⟩
  cases h : s.unreachable? with
  | none => exact .inl ⟨rfl, trivial⟩
  | some e => exact .inr ⟨e, by rw [h]⟩

end

/-! ## What an errand leaves alone -/

/-- The books of the session: the tables, the steps under way and the supply of ids. -/
structure Session.SameTables (s t : Session) : Prop where
  breakpoints : t.breakpoints = s.breakpoints
  exceptions : t.exceptions = s.exceptions
  steps : t.steps = s.steps
  ids : t.ids = s.ids

theorem Session.SameTables.rfl {s : Session} : s.SameTables s :=
  ⟨Eq.refl _, Eq.refl _, Eq.refl _, Eq.refl _⟩

theorem Session.sameTables_enter (s : Session) (next : SessionState) :
    s.SameTables (s.enter next) := by
  simp only [enter]
  split <;> exact ⟨rfl, rfl, rfl, rfl⟩

abbrev Routine.Looks {α : Type} (m : Task Session α) : Prop :=
  m.Within (fun c => c.leavesRequests) Session.SameTables

/-- The sessions differ at most in the name, in what their user has chosen and taken from them, and
in who listens. -/
def Session.Viewed (s t : Session) : Prop :=
  t = { s with
    name := t.name, selection := t.selection, events := t.events, listeners := t.listeners
    nextListener := t.nextListener }

theorem Session.Viewed.rfl {s : Session} : s.Viewed s := Eq.refl s

abbrev Routine.Views {α : Type} (m : Task Session α) : Prop :=
  m.Within (fun c => c.visits) Session.Viewed

section
variable {α β : Type}

theorem Routine.Evaluates.views {m : Task Session α} (hm : Evaluates m) : Views m :=
  hm.mono (fun _ hc => Call.visits_of_evaluates hc) fun _ _ hf => hf.elim

theorem Routine.Views.looks {m : Task Session α} (hm : Views m) : Looks m := by
  refine hm.mono (fun _ hc => Call.leavesRequests_of_visits hc) fun s t hst => ?_
  have hst : t = { s with
      name := t.name, selection := t.selection, events := t.events, listeners := t.listeners
      nextListener := t.nextListener } := hst
  exact ⟨(congrArg Session.breakpoints hst :), (congrArg Session.exceptions hst :),
    (congrArg Session.steps hst :), (congrArg Session.ids hst :)⟩

theorem Routine.Evaluates.looks {m : Task Session α} (hm : Evaluates m) : Looks m :=
  hm.views.looks

theorem views_call {c : Call} (h : c.visits) :
    Views (Op.call c : Op DebugError Session c.Answer).run := Op.within_call h

theorem views_state : Views (Op.state : Op DebugError Session Session).run :=
  fun _ => ⟨.rfl, trivial⟩

theorem views_update {f : Session → Session} (hf : ∀ s : Session, s.Viewed (f s)) :
    Views (Op.update f : Op DebugError Session Unit).run := fun s => ⟨hf s, trivial⟩

theorem looks_call {c : Call} (h : c.leavesRequests) :
    Looks (Op.call c : Op DebugError Session c.Answer).run := Op.within_call h

theorem looks_update {f : Session → Session} (hf : ∀ s : Session, s.SameTables (f s)) :
    Looks (Op.update f : Op DebugError Session Unit).run := fun s => ⟨hf s, trivial⟩

theorem looks_reach : Looks Session.reach.run := Session.within_reach fun _ => .rfl

/-- The operation looks whether the target is in reach before it asks for anything, and changes
what the user has chosen at most. -/
abbrev Op.Visits (m : Op DebugError Session α) : Prop :=
  m.Gated (fun c => c.visits) Session.Viewed Session.Viewed

theorem visits_reach : Op.Visits Session.reach := Session.gated_reach fun _ => .rfl

end

namespace Session

theorem views_chosenThread (t : Option ThreadId) : Views (chosenThread t).run := by
  refine Op.within_bind views_state fun s => ?_
  split <;> trivial

theorem looks_chosenThread (t : Option ThreadId) : Looks (chosenThread t).run :=
  (views_chosenThread t).looks

theorem visits_chosenFrame (t : Option ThreadId) (index : Option Nat) :
    Op.Visits (chosenFrame t index) := by
  refine visits_reach.bind fun _ => Op.within_bind (views_chosenThread t) fun t => ?_
  refine Op.within_bind views_state fun s => Op.within_bind (views_call rfl) fun all => ?_
  split <;> trivial

theorem evaluates_summaries (index : Nat) (frames : List Frame) :
    Evaluates (summaries index frames) := by
  induction frames generalizing index with
  | nil => exact evaluates_done _
  | cons f fs ih =>
    exact (inspects_placeOf _).evaluates.bind fun _ => (ih _).bind fun _ => evaluates_done _

theorem evaluates_variableInfos (values : List (Variable × Value)) :
    Evaluates (variableInfos values).run := by
  induction values with
  | nil => exact evaluates_done _
  | cons p rest ih =>
    exact (Display.inspects_value _).evaluates.op_bind fun _ => ih.op_bind fun _ => evaluates_done _

theorem visits_frameVariables (t : Option ThreadId) (index : Option Nat) :
    Op.Visits (frameVariables t index) := by
  refine (visits_chosenFrame t index).bind fun p => ?_
  refine Op.within_bind (Scope.inspects_read _ _).evaluates.views fun scope => ?_
  split
  · exact (evaluates_variableInfos _).views
  · refine Op.within_bind (Display.inspects_value _).evaluates.views fun _ => ?_
    exact Op.within_bind (evaluates_variableInfos _).views fun _ => trivial

/-- A malformed expression is found before anything else. -/
theorem visits_ofExcept_bind {α β : Type} (r : Except DebugError α)
    {g : α → Op DebugError Session β} (hg : ∀ a, Op.Visits (g a)) :
    Op.Visits (Op.ofExcept r >>= g) := by
  cases r with
  | ok a => exact hg a
  | error e => exact ⟨e, rfl⟩

theorem visits_setVariable (name source : String) : Op.Visits (setVariable name source) := by
  refine visits_ofExcept_bind _ fun e => (visits_chosenFrame none none).bind fun p => ?_
  refine Op.within_bind (Scope.inspects_read _ _).evaluates.views fun scope => ?_
  split
  · refine Op.within_bind (Scope.evaluates_evaluate _ _).views fun evaluation => ?_
    refine Op.within_bind (Scope.converts_assign _ _ _).evaluates.views fun value => ?_
    refine Op.within_bind (views_call rfl) fun _ => ?_
    exact Op.within_bind (Display.inspects_value _).evaluates.views fun _ => trivial
  · trivial

theorem visits_evaluate (t : Option ThreadId) (index : Option Nat) (source : String) :
    Op.Visits (evaluate t index source) := by
  refine visits_ofExcept_bind _ fun e => (visits_chosenFrame t index).bind fun p => ?_
  refine Op.within_bind (Scope.inspects_read _ _).evaluates.views fun scope => ?_
  exact (Scope.evaluates_evaluate _ _).views

theorem evaluates_topPlace (t : ThreadId) : Evaluates (topPlace t) := by
  refine (evaluates_attempt rfl).bind fun r => ?_
  split
  · exact evaluates_done _
  · split
    · exact evaluates_done _
    · exact (inspects_threadPlace _ _).evaluates.bind fun _ => evaluates_done _

theorem evaluates_suspendedThreads (atBreakpoint : Dict ThreadId (Option String))
    (threads : List ThreadInfo) : Evaluates (suspendedThreads atBreakpoint threads) := by
  induction threads with
  | nil => exact evaluates_done _
  | cons t ts ih => exact (evaluates_topPlace _).bind fun _ => ih.bind fun _ => evaluates_done _

theorem visits_status : Op.Visits status := by
  refine visits_reach.bind fun _ => Op.within_bind (views_call rfl) fun all => ?_
  refine Op.within_bind views_state fun s => ?_
  refine Op.within_bind (evaluates_suspendedThreads _ _).lift.views fun _ => ?_
  exact Op.within_bind views_state fun s => trivial

theorem within_finishClose {P : Call → Prop} {U : Session → Session → Prop} (hdispose : P .dispose)
    (hU : ∀ s, U s s) (hend : ∀ s : Session, U s (s.enter .disconnected)) :
    finishClose.Within P U := by
  refine within_bind (fun s => ⟨hU s, trivial⟩) fun s => ?_
  split
  · exact within_bind ⟨hdispose, fun _ => trivial⟩ fun _ => within_modify hend
  · exact within_modify hend

end Session

/-- Every errand but closing looks whether the target is in reach before it asks for anything, and
leaves all of the session alone but what belongs to its user. -/
theorem gated_errand {e : Errand} (he : e ≠ .close) :
    e.task.Gated (fun c => c.visits) Session.Viewed Session.Viewed fun _ => True := by
  cases e with
  | threads =>
    refine Op.Gated.failure (visits_reach.bind fun _ => ?_)
    exact Op.within_bind (views_call rfl) fun _ => Op.within_bind views_state fun _ => trivial
  | selectThread t =>
    refine Op.Gated.failure (visits_reach.bind fun _ => ?_)
    refine Op.within_bind (views_call rfl) fun all => ?_
    split
    · trivial
    · exact views_update fun s => rfl
  | frames t start count =>
    refine Op.Gated.failure (visits_reach.bind fun _ => ?_)
    refine Op.within_bind (Session.views_chosenThread t) fun t => ?_
    refine Op.within_bind (views_call rfl) fun all => ?_
    exact Op.within_bind (Session.evaluates_summaries _ _).lift.views fun _ => trivial
  | selectFrame index =>
    refine Op.Gated.failure (visits_reach.bind fun _ => ?_)
    refine Op.within_bind (Session.views_chosenThread none) fun t => ?_
    refine Op.within_bind (views_call rfl) fun all => ?_
    split
    · trivial
    · exact views_update fun s => rfl
  | frameVariables t index => exact (Session.visits_frameVariables t index).failure
  | variableNamed t index name =>
    refine Op.Gated.failure ((Session.visits_frameVariables t index).bind fun all => ?_)
    split <;> trivial
  | setVariable name source => exact (Session.visits_setVariable name source).failure
  | evaluate t index source => exact (Session.visits_evaluate t index source).failure
  | status => exact Session.visits_status.failure
  | rename | poll | pop | clearEvents | addListener | removeListener =>
    exact fun s => ⟨rfl, .inr trivial⟩
  | close => exact absurd rfl he

/-- An errand leaves the books of session and target alone. -/
theorem looks_errand (e : Errand) : Looks e.task := by
  by_cases he : e = .close
  · subst he
    refine within_bind (fun s => ⟨⟨rfl, rfl, rfl, rfl⟩, trivial⟩) fun _ => ?_
    refine within_bind ?_ fun _ => trivial
    exact Session.within_finishClose rfl (fun _ => .rfl) fun s => s.sameTables_enter _
  · exact Routine.Views.looks ((gated_errand he).within fun _ _ h => h)

/-! ## Operations on breakpoints -/

def Call.isOnBreakpoints : Call → Bool
  | createExceptionRequest .. | createClassPrepareWatch _ => true
  | c => c.installs

/-- Nothing but the tables of breakpoints is different, and the ids that were given out. -/
def Session.SameButBreakpoints (s t : Session) : Prop :=
  t = { s with breakpoints := t.breakpoints, exceptions := t.exceptions, ids := t.ids }

theorem Session.SameButBreakpoints.rfl {s : Session} : s.SameButBreakpoints s := Eq.refl s

/-- What the operations on breakpoints ask for and change. -/
theorem within_onBreakpoints {o : Operation} (ho : o.isOnBreakpoints) :
    o.task.Within (fun c => c.isOnBreakpoints) Session.SameButBreakpoints := by
  have hinstall (c : Call) (hc : c.installs) : c.isOnBreakpoints := by
    cases c <;> first | rfl | exact hc
  cases o with
  | addBreakpoint className kind condition =>
    refine Op.within_failure ?_
    exact Session.within_addBreakpoint (fun _ => .rfl) hinstall rfl (fun _ => Eq.refl _)
      (fun _ _ _ => Eq.refl _) fun _ _ _ => Eq.refl _
  | addException className caught uncaught =>
    refine Op.within_failure ?_
    exact Session.within_addExceptionBreakpoint rfl (fun _ => rfl) (fun _ => .rfl)
      (fun _ => Eq.refl _) fun _ _ _ => Eq.refl _
  | setEnabled id enabled =>
    refine Op.within_failure ?_
    refine Session.within_setEnabled (fun _ _ => rfl) (fun _ => .rfl) fun s => ?_
    simp only [Session.storeEnabled]
    split <;> exact Eq.refl _
  | remove id =>
    refine Op.within_failure ?_
    refine Session.within_removeBreakpoint (fun _ => rfl) (fun _ => .rfl) fun s => ?_
    simp only [Session.takeOut]
    split <;> exact Eq.refl _
  | clear =>
    refine within_bind ?_ fun _ => trivial
    exact Session.within_clearBreakpoints (fun _ => rfl) (fun _ => .rfl) fun _ => Eq.refl _
  | resume | suspend | resumeThread | suspendThread | step => cases ho

/-! ## Letting the target run -/

def Operation.runs : Operation → Bool
  | resume | suspend | resumeThread _ | suspendThread _ => true
  | _ => false

theorem Session.looks_letRun : Looks letRun.run := by
  refine Op.within_bind (looks_call rfl) fun _ => looks_update fun s => ?_
  simp only [resumed, enter]
  split <;> exact ⟨rfl, rfl, rfl, rfl⟩

section
variable {P : Call → Prop} {U : Session → Session → Prop}

theorem Session.within_step {t : Option ThreadId} {depth : StepDepth} {size : StepSize}
    (hthread : ∀ t, P (.thread t)) (hdelete : ∀ r, P (.deleteRequest r))
    (hcreate : ∀ t, P (.createStep t size depth)) (hU : ∀ s, U s s)
    (hsteps : ∀ (s : Session) steps, U s { s with steps }) (hrun : letRun.run.Within P U) :
    (step t depth size).run.Within P U := by
  have hchosen : (chosenThread t).run.Within P U := by
    refine Op.within_bind (fun s => ⟨hU s, trivial⟩) fun s => ?_
    split <;> trivial
  have hrest (t : ThreadId) (request : RequestId) : Routine.Within P U (ExceptT.run do
      Op.update fun s : Session => { s with steps := s.steps.insert t request }
      letRun) := Op.within_bind (fun s => ⟨hsteps s _, trivial⟩) fun _ => hrun
  refine Op.within_bind (within_reach hU) fun _ => Op.within_bind hchosen fun t => ?_
  refine Op.within_bind (Op.within_call (hthread t)) fun info => ?_
  split
  · trivial
  · refine Op.within_bind (fun s => ⟨hsteps s _, trivial⟩) fun previous => ?_
    cases previous with
    | none => exact Op.within_bind (Op.within_call (hcreate t)) (hrest t)
    | some previous =>
      refine Op.within_bind (Op.within_lift ⟨hdelete previous, fun _ => trivial⟩) fun _ => ?_
      exact Op.within_bind (Op.within_call (hcreate t)) (hrest t)

end

/-- To let the target or a thread run, or stop, leaves the books alone as well. -/
theorem looks_runs {o : Operation} (ho : o.runs) : Looks o.task := by
  cases o with
  | resume => exact Op.within_failure (Op.within_bind looks_reach fun _ => Session.looks_letRun)
  | suspend =>
    refine Op.within_failure (Op.within_bind looks_reach fun _ => ?_)
    exact Op.within_bind (looks_call rfl) fun _ => looks_update fun s => s.sameTables_enter _
  | resumeThread t =>
    refine Op.within_failure (Op.within_bind looks_reach fun _ => ?_)
    exact Op.within_bind (looks_call rfl) fun _ => looks_update fun _ => ⟨rfl, rfl, rfl, rfl⟩
  | suspendThread t =>
    exact Op.within_failure (Op.within_bind looks_reach fun _ => looks_call rfl)
  | addBreakpoint | addException | setEnabled | remove | clear | step => cases ho

/-! ## Turns -/

namespace Scene

/-- What comes next in a scene: a choice as before, an errand begins, or the target reports a set of
events, whatever they are. -/
inductive Turn
  | choice (x : Choice)
  | errand (e : Errand)
  | report (set : EventSet)

def next (c : Scene) : Turn → Scene
  | .choice x => c.step x
  | .errand e => { c with calls := c.calls ++ [e.task] }
  | .report set => { c with vm := c.vm.reportSet set }

def play (c : Scene) (turns : List Turn) : Scene := turns.foldl next c

theorem play_append (c : Scene) (xs ys : List Turn) : c.play (xs ++ ys) = (c.play xs).play ys :=
  List.foldl_append

theorem play_snoc (c : Scene) (xs : List Turn) (x : Turn) :
    c.play (xs ++ [x]) = (c.play xs).next x := c.play_append xs [x]

theorem play_induction {P : List Turn → Scene → Prop} (c : Scene) (turns : List Turn)
    (hc : P [] c) (hnext : ∀ xs x, xs ++ [x] <+: turns → P xs (c.play xs) →
      P (xs ++ [x]) ((c.play xs).next x)) : P turns (c.play turns) := by
  induction turns using List.reverseRecOn with
  | nil => exact hc
  | append_singleton xs x ih =>
    rw [play_snoc]
    refine hnext xs x List.prefix_rfl (ih fun ys y hy => hnext ys y ?_)
    exact hy.trans (List.prefix_append _ _)

end Scene

end JvmDebug
