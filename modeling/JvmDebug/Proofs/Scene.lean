import JvmDebug.Proofs.RoutineSteps
import JvmDebug.Session.Control
import JvmDebug.Session.EventLoop
import JvmDebug.Vm.Answer
import JvmDebug.Vm.Report
import Mathlib.Data.List.Induction

/-!
One session before its target, with operations in flight and an event loop, interleaved in any
order. A schedule is a list of choices; each lets one operation or the loop make one step, begins
an operation, or lets something happen in the target.
-/
namespace JvmDebug

def Vm.serve (c : Call) (vm : Vm) : c.Reply × Vm := vm.answer c

def Op.failure? {ε σ α : Type} (m : Op ε σ α) : Task σ (Option ε) :=
  Routine.bind m.run fun
    | .ok _ => .done none
    | .error e => .done (some e)

theorem Op.failure?_bind {ε σ α β : Type} (m : Op ε σ α) (g : α → Op ε σ β) :
    (m >>= g).failure? = Routine.bind m.run fun
      | .ok a => (g a).failure?
      | .error e => .done (some e) := by
  simp only [failure?, run_bind, Routine.bind_assoc]
  congr 1
  funext r
  cases r <;> rfl

theorem Op.within_failure {ε σ α : Type} {P : Call → Prop} {U : σ → σ → Prop} {m : Op ε σ α}
    (hm : m.run.Within P U) : m.failure?.Within P U :=
  Routine.within_bind hm fun r => by cases r <;> trivial

/-- What a user of a session asks for. -/
inductive Operation
  | addBreakpoint (className : String) (kind : BreakpointKind) (condition : Option String)
  | addException (className : String) (caught uncaught : Bool)
  | setEnabled (id : String) (enabled : Bool)
  | remove (id : String)
  | clear
  | resume
  | suspend
  | resumeThread (t : ThreadId)
  | suspendThread (t : ThreadId)
  | step (t : Option ThreadId) (depth : StepDepth) (size : StepSize)

namespace Operation

def task : Operation → Task Session (Option DebugError)
  | addBreakpoint className kind condition =>
    (Session.addBreakpoint className kind condition).failure?
  | addException className caught uncaught =>
    (Session.addExceptionBreakpoint className caught uncaught).failure?
  | setEnabled id enabled => (Session.setEnabled id enabled).failure?
  | remove id => (Session.removeBreakpoint id).failure?
  | clear => Routine.bind Session.clearBreakpoints fun _ => .done none
  | resume => Session.resume.failure?
  | suspend => Session.suspend.failure?
  | resumeThread t => (Session.resumeThread t).failure?
  | suspendThread t => (Session.suspendThread t).failure?
  | step t depth size => (Session.step t depth size).failure?

def isOnBreakpoints : Operation → Bool
  | addBreakpoint .. | addException .. | setEnabled .. | remove _ | clear => true
  | _ => false

end Operation

/-- What happens in the target of its own accord. -/
inductive Happening
  | load (t : ThreadId) (c : TypeId)
  | hit (t : ThreadId) (l : Location)
  | finishStep (t : ThreadId) (l : Location)
  | throw (t : ThreadId) (l : Location) (thrown : ObjectRef) (catchAt : Option Location)
  | startThread (name : String)
  | die
  | hangUp

def Happening.apply (vm : Vm) : Happening → Vm
  | load t c => (vm.loadClass t c).2
  | hit t l => (vm.hit t l).2
  | finishStep t l => (vm.finishStep t l).2
  | throw t l thrown catchAt => (vm.throwException t l thrown catchAt).2
  | startThread name => (vm.startThread name).2
  | die => vm.die
  | hangUp => vm.hangUp

/-! ## The event loop -/

/-- Where an event loop is. Of the set it has read, `later` is the part that it has not begun. -/
inductive Loop
  | reading
  | ready (set : EventSet) (later : List TargetEvent)
  | handling (set : EventSet) (event : TargetEvent) (now : Task Session Bool)
      (later : List TargetEvent)
  | resuming (now : Task Session Bool)
  | ended

namespace Loop

def afterEvent (set : EventSet) (event : TargetEvent) (later : List TargetEvent) :
    Task Session Bool → Loop
  | .done true => ready set later
  | .done false => ended
  | now => handling set event now later

def afterResume : Task Session Bool → Loop
  | .done true => reading
  | .done false => ended
  | now => resuming now

/-- A step of the handling leaves the loop where it was, or the handling is done. -/
theorem of_afterEvent {P : Loop → Prop} {set : EventSet} {e : TargetEvent}
    {later : List TargetEvent} {now : Task Session Bool} (hhandling : P (handling set e now later))
    (hdone : ∀ goesOn, now = .done goesOn → P (ready set later) ∧ P ended) :
    P (afterEvent set e later now) := by
  cases now with
  | done goesOn =>
    cases goesOn with
    | true => exact (hdone true rfl).1
    | false => exact (hdone false rfl).2
  | request c k => exact hhandling
  | update f k => exact hhandling

theorem of_afterResume {P : Loop → Prop} {now : Task Session Bool} (hresuming : P (resuming now))
    (hdone : ∀ goesOn, now = .done goesOn → P reading ∧ P ended) : P (afterResume now) := by
  cases now with
  | done goesOn =>
    cases goesOn with
    | true => exact (hdone true rfl).1
    | false => exact (hdone false rfl).2
  | request c k => exact hresuming
  | update f k => exact hresuming

/-- The next step of the loop. Handling an event begins with its first block of updates. -/
def step (s : Session) (vm : Vm) : Loop → Loop × Session × Vm
  | reading =>
    match vm.reports with
    | [] => (reading, s, vm)
    | .events set :: reports => (ready set set.events, s, { vm with reports })
    | .hangUp :: reports => (ended, s.disconnected, { vm with reports })
  | ready set [] =>
    let (now, s) := (Session.resumeAfter set).advance s
    (afterResume now, s, vm)
  | ready set (e :: later) =>
    let (now, s) := (Session.handleEvent e).advance s
    (afterEvent set e later now, s, vm)
  | handling set e now later =>
    let (now, s, vm) := now.move Vm.serve s vm
    (afterEvent set e later now, s, vm)
  | resuming now =>
    let (now, s, vm) := now.move Vm.serve s vm
    (afterResume now, s, vm)
  | ended => (ended, s, vm)

def Idle : Loop → Prop
  | reading | ended => True
  | _ => False

def later : Loop → List TargetEvent
  | ready _ later | handling _ _ _ later => later
  | _ => []

theorem later_afterResume (now : Task Session Bool) : (afterResume now).later = [] :=
  of_afterResume (P := fun l => l.later = []) rfl fun _ _ => ⟨rfl, rfl⟩

def finish (set : EventSet) (later : List TargetEvent) : Task Session Bool :=
  Routine.bind (Session.handleEvents later) fun goesOn =>
    if goesOn then Session.resumeAfter set else .done false

def task : Loop → Task Session Bool
  | reading => .done true
  | ready set later => finish set later
  | handling set _ now later => Routine.bind now fun goesOn =>
    if goesOn then finish set later else .done false
  | resuming now => now
  | ended => .done false

theorem task_afterEvent (set : EventSet) (e : TargetEvent) (later : List TargetEvent)
    (now : Task Session Bool) :
    (afterEvent set e later now).task = (handling set e now later).task := by
  cases now with
  | done goesOn => cases goesOn <;> rfl
  | request c k => rfl
  | update f k => rfl

theorem task_afterResume (now : Task Session Bool) : (afterResume now).task = now := by
  cases now with
  | done goesOn => cases goesOn <;> rfl
  | request c k => rfl
  | update f k => rfl

theorem step_reading (s : Session) (vm : Vm) (set : EventSet) (reports : List Report)
    (h : vm.reports = .events set :: reports) :
    reading.step s vm = (ready set set.events, s, { vm with reports }) := by
  simp only [step, h]

theorem task_ready (set : EventSet) : (ready set set.events).task = Session.handleSet set := rfl

/-- Left to itself the loop does with a set what the session's routine for it does. -/
theorem run_step (s : Session) (vm : Vm) (l : Loop) (hl : l ≠ reading) :
    (l.step s vm).1.task.run Vm.serve (l.step s vm).2.1 (l.step s vm).2.2 =
      l.task.run Vm.serve s vm := by
  have hadvance (m : Task Session Bool) (g : Bool → Task Session Bool) :
      (Routine.bind (m.advance s).1 g).run Vm.serve (m.advance s).2 vm =
        (Routine.bind m g).run Vm.serve s vm := by
    have := Routine.run_move Vm.serve (.update id fun _ => m) s vm
    simp only [Routine.move, id_eq, Routine.run] at this
    rw [Routine.run_bind, Routine.run_bind, this]
  cases l with
  | reading => exact absurd rfl hl
  | ready set later =>
    cases later with
    | nil =>
      have := hadvance (Session.resumeAfter set) .done
      simp only [Routine.bind_done] at this
      simp only [step, task_afterResume]
      exact this
    | cons e later =>
      simp only [step, task_afterEvent]
      refine (hadvance (Session.handleEvent e) _).trans ?_
      simp only [task, finish, Session.handleEvents, Routine.bind_eq, Routine.bind_assoc]
      congr 2
      funext goesOn
      cases goesOn <;> rfl
  | handling set e now later =>
    simp only [step, task_afterEvent]
    show (Routine.bind _ _).run _ _ _ = (Routine.bind _ _).run _ _ _
    rw [Routine.run_bind, Routine.run_bind, Routine.run_move]
  | resuming now =>
    simp only [step, task_afterResume]
    exact Routine.run_move _ _ _ _
  | ended => rfl

end Loop

/-! ## Scenes -/

/-- A session, its target, the operations begun and the event loop. -/
structure Scene where
  session : Session
  vm : Vm
  calls : List (Task Session (Option DebugError)) := []
  loop : Loop := .reading

/-- What comes next: an operation begins, a begun one makes a step, the loop makes a step, or
something happens in the target. -/
inductive Choice
  | call (o : Operation)
  | go (n : Nat)
  | loop
  | target (h : Happening)

namespace Scene

def step (c : Scene) : Choice → Scene
  | .call o => { c with calls := c.calls ++ [o.task] }
  | .go n =>
    match c.calls[n]? with
    | none => c
    | some m =>
      let (m, session, vm) := m.move Vm.serve c.session c.vm
      { c with session, vm, calls := c.calls.set n m }
  | .loop =>
    let (loop, session, vm) := c.loop.step c.session c.vm
    { c with loop, session, vm }
  | .target h => { c with vm := h.apply c.vm }

theorem step_go_some {c : Scene} {n : Nat} {m : Task Session (Option DebugError)}
    (hn : c.calls[n]? = some m) : c.step (.go n) = { c with
      session := (m.move Vm.serve c.session c.vm).2.1
      vm := (m.move Vm.serve c.session c.vm).2.2
      calls := c.calls.set n (m.move Vm.serve c.session c.vm).1 } := by
  simp only [step, hn]

theorem step_go_none {c : Scene} {n : Nat} (hn : c.calls[n]? = none) : c.step (.go n) = c := by
  simp only [step, hn]

def run (c : Scene) (choices : List Choice) : Scene := choices.foldl step c

@[simp] theorem run_nil (c : Scene) : c.run [] = c := rfl

@[simp] theorem run_cons (c : Scene) (x : Choice) (xs : List Choice) :
    c.run (x :: xs) = (c.step x).run xs := rfl

def connected (origin : Origin) (description : String) (s : Session) (vm : Vm) : Scene :=
  let (_, session, vm) := (Session.connect origin description).run.run Vm.serve s vm
  { session, vm }

theorem connected_eq (origin : Origin) (description id : String) (settings : SessionConfig)
    (createdAt : UInt64) (ids : IdSupply) (vm : Vm) :
    connected origin description (Session.new id settings createdAt ids) vm =
      if settings.trackThreads then
        { session := { Session.new id settings createdAt ids with
            lifecycleRequests := [vm.nextRequest, vm.nextRequest + 1]
            attachment := some ⟨origin, description⟩
            loopPending := true
            state := .connected }
          vm := ((vm.addRequest .threadStart).2.addRequest .threadDeath).2 }
      else
        { session := { Session.new id settings createdAt ids with
            attachment := some ⟨origin, description⟩
            loopPending := true
            state := .connected }
          vm } := by
  have hnew : (Session.new id settings createdAt ids).settings = settings := rfl
  simp only [connected, Session.connect, Op.run_bind, Op.run_state, Routine.bind, Routine.run]
  rw [hnew]
  cases settings.trackThreads <;> rfl
/-- Connected to a machine with one thread, and one class that is not loaded. -/
def sample : Scene :=
  let (_, vm) := ({} : Vm).addThread "main"
  let (c, vm) := vm.addClass "app.Main" .classType none false
  let (m, vm) := vm.addMethod c "run" "()V" false none
  let (_, vm) := vm.addLine m 7
  connected .attachedRemote "sample" (Session.new "s" {} 0 {}) vm

theorem run_append (c : Scene) (xs ys : List Choice) : c.run (xs ++ ys) = (c.run xs).run ys :=
  List.foldl_append

def Idle (c : Scene) : Prop := (∀ m ∈ c.calls, ∃ r, m = .done r) ∧ c.loop.Idle

theorem run_induction {P : Scene → Prop} (c : Scene) (choices : List Choice) (hc : P c)
    (hstep : ∀ xs x, xs ++ [x] <+: choices → P (c.run xs) → P ((c.run xs).step x)) :
    P (c.run choices) := by
  induction choices using List.reverseRecOn with
  | nil => exact hc
  | append_singleton xs x ih =>
    rw [run_append]
    refine hstep xs x List.prefix_rfl (ih fun ys y hy => hstep ys y ?_)
    exact hy.trans (List.prefix_append _ _)

end Scene

end JvmDebug
