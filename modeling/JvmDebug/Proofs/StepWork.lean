import JvmDebug.Proofs.Installing
import JvmDebug.Proofs.QuietSteps
import JvmDebug.Proofs.SessionTurns

/-!
What becomes of the request of a step while routines run. A session records the request of a step
under its thread; between the record and the target a routine has it in hand, after it was made or
before it is deleted. Only two routines touch the record: a step takes an old request over and
records a new one, and the handling of a completed step or of a dead thread takes one out.
-/
namespace JvmDebug

/-! ## Changes of the record -/

/-- What a routine that works on steps has in hand between two of its steps: a request that it is
about to delete, or one that it has made and not recorded. -/
inductive Hand
  | empty
  | taken (r : RequestId)
  | made (t : ThreadId) (r : RequestId)
  deriving DecidableEq

def Hand.ofTaken : Option RequestId → Hand
  | some r => taken r
  | none => empty

/-- Where the event makes a session drop the record of a step without deleting its request: when
another step of the thread is reported to be done, and when the thread is reported dead. -/
def TargetEvent.Forgets (t : ThreadId) (r : RequestId) : TargetEvent → Prop
  | step (some q) u _ => u = t ∧ q ≠ r
  | threadDeath u => u = t
  | _ => False

/-- How a routine may change the record and its hand in one block of updates; `event` is the event
that it handles, if it handles one. -/
inductive Change (event : Option TargetEvent) : Hand → Session → Session → Hand → Prop
  | aside {hand : Hand} {s s' : Session} (hsteps : s'.steps = s.steps) : Change event hand s s' hand
  | takeOut {s s' : Session} (t : ThreadId) {hand : Hand} (hsteps : s'.steps = s.steps.erase t)
      (hhand : hand = .empty ∨ ∃ r, hand = .taken r)
      (hold : ∀ r, s.steps.get? t = some r →
        hand = .taken r ∨ ∃ e, event = some e ∧ e.Forgets t r) :
      Change event .empty s s' hand
  | record {s s' : Session} (t : ThreadId) (r : RequestId) (hevent : event = none)
      (hsteps : s'.steps = s.steps.insert t r) : Change event (.made t r) s s' .empty

variable {event : Option TargetEvent} {hand hand' : Hand} {s t u : Session}

theorem Change.after_aside (hsteps : t.steps = s.steps) (h : Change event hand t u hand') :
    Change event hand s u hand' := by
  cases h with
  | aside h => exact .aside (h.trans hsteps)
  | takeOut i h hhand hold => exact .takeOut i (hsteps ▸ h) hhand (hsteps ▸ hold)
  | record i r hevent h => exact .record i r hevent (hsteps ▸ h)

/-! ## Routines -/

def Call.leavesSteps : Call → Bool
  | createBreakpoint _ | createExceptionRequest .. | createClassPrepareWatch _
  | setRequestEnabled .. | deleteRequest _ => true
  | c => c.leavesRequests

theorem Call.leavesSteps_of_leavesRequests {c : Call} (h : c.leavesRequests) : c.leavesSteps := by
  cases c <;> first | rfl | cases h

theorem Call.leavesSteps_of_installs {c : Call} (h : c.installs) : c.leavesSteps := by
  cases c <;> first | rfl | cases h

def Session.SameSteps (s t : Session) : Prop := t.steps = s.steps

theorem Session.SameSteps.rfl {s : Session} : s.SameSteps s := Eq.refl _

theorem Session.SameSteps.trans (hst : s.SameSteps t) (htu : t.SameSteps u) : s.SameSteps u :=
  Eq.trans htu hst

open Routine

abbrev Routine.Aside {α : Type} (m : Task Session α) : Prop :=
  m.Within (fun c => c.leavesSteps) Session.SameSteps

/-- The routine, which has `hand` in hand between two of its steps, gives up nothing but what the
event makes a session forget, and ends with an empty hand. -/
inductive Follows (event : Option TargetEvent) {α : Type} : Hand → Task Session α → Prop
  | done (a : α) : Follows event .empty (.done a)
  | ask {c : Call} {k : c.Reply → Task Session α} (hc : c.leavesSteps)
      (hk : ∀ reply, Follows event .empty (k reply)) : Follows event .empty (.request c k)
  | create {t : ThreadId} {size : StepSize} {depth : StepDepth}
      {k : Call.Reply (.createStep t size depth) → Task Session α}
      (herror : ∀ e, Follows event .empty (k (.error e)))
      (hok : ∀ r : RequestId, Follows event (.made t r) (k (.ok r))) :
      Follows event .empty (.request (.createStep t size depth) k)
  | delete {r : RequestId} {k : Call.Reply (.deleteRequest r) → Task Session α}
      (hk : ∀ reply, Follows event .empty (k reply)) :
      Follows event (.taken r) (.request (.deleteRequest r) k)
  | block {hand : Hand} {f : Session → Session} {k : Session → Task Session α}
      (after : Session → Hand)
      (hchange : ∀ s, Change event hand s ((k s).advance (f s)).2 (after s))
      (hnext : ∀ s, Follows event (after s) ((k s).advance (f s)).1) :
      Follows event hand (.update f k)

section
variable {α β : Type} {m : Task Session α}

theorem Follows.advance (hm : Follows event hand m) (s : Session) :
    ∃ hand', Change event hand s (m.advance s).2 hand' ∧
      Follows event hand' (m.advance s).1 := by
  cases hm with
  | block after hchange hnext => exact ⟨after s, hchange s, hnext s⟩
  | done a => exact ⟨.empty, .aside rfl, .done a⟩
  | ask hc hk => exact ⟨.empty, .aside rfl, .ask hc hk⟩
  | create herror hok => exact ⟨.empty, .aside rfl, .create herror hok⟩
  | delete hk => exact ⟨_, .aside rfl, .delete hk⟩

theorem Routine.Aside.follows_bind {g : α → Task Session β} (hm : Aside m)
    (hg : ∀ a, Follows event .empty (g a)) : Follows event .empty (bind m g) := by
  induction m with
  | done a => exact hg a
  | request c k ih => exact .ask hm.1 fun reply => ih reply (hm.2 reply)
  | update f k ih =>
    have hnext (s : Session) := (ih s (hm s).2).advance (f s)
    choose after hchange hfollows using hnext
    exact .block after (fun s => (hchange s).after_aside (hm s).1) hfollows

theorem Routine.Aside.follows (hm : Aside m) : Follows event .empty m := by
  have hbind : Follows event .empty (bind m .done) := hm.follows_bind fun a => .done a
  rwa [bind_done] at hbind

/-- The block of updates that a routine begins with, from a given state on. -/
theorem Routine.Aside.begin (hm : Aside m) (s : Session) :
    s.SameSteps (m.advance s).2 ∧ Aside (m.advance s).1 :=
  hm.advance (fun _ => .rfl) (fun _ _ _ => .trans) s

theorem Follows.map (hm : Follows event hand m) (g : α → β) :
    Follows event hand (m.bind fun a => .done (g a)) := by
  induction hm with
  | done a => exact .done _
  | ask hc _ ih => exact .ask hc ih
  | create _ _ herror hok => exact .create herror hok
  | delete _ ih => exact .delete ih
  | @block hand f k after hchange _ ih =>
    have hadvance (m : Task Session α) (s : Session) :
        (m.bind fun a => .done (g a)).advance s =
          ((m.advance s).1.bind fun a => .done (g a), (m.advance s).2) := by
      induction m generalizing s with
      | done | request => rfl
      | update f k ih => exact ih s (f s)
    refine .block after (fun s => ?_) fun s => ?_
    · rw [hadvance]
      exact hchange s
    · rw [hadvance]
      exact ih s

theorem Follows.failure {m : Op DebugError Session α} (hm : Follows event hand m.run) :
    Follows event hand m.failure? := by
  have hmap : m.failure? = m.run.bind fun r => .done (match r with
      | .ok _ => none
      | .error e => some e) := by
    refine congrArg m.run.bind (funext fun r => ?_)
    cases r <;> rfl
  rw [hmap]
  exact hm.map _

theorem Routine.Aside.follows_op_bind {ε : Type} {m : Op ε Session α} {g : α → Op ε Session β}
    (hm : Aside m.run) (hg : ∀ a, Follows event .empty (g a).run) :
    Follows event .empty (m >>= g).run := by
  rw [Op.run_bind]
  refine hm.follows_bind fun r => ?_
  cases r with
  | ok a => exact hg a
  | error e => exact .done _

end

/-! ## Operations -/

section
variable {α : Type}

theorem Routine.Looks.aside {m : Task Session α} (hm : Looks m) : Aside m :=
  hm.mono (fun _ hc => Call.leavesSteps_of_leavesRequests hc) fun _ _ hst => hst.steps

theorem Routine.Inspects.aside {m : Task Session α} (hm : Inspects m) : Aside m :=
  hm.evaluates.looks.aside

theorem Routine.Installs.aside {m : Task Session α} (hm : Installs m) : Aside m := by
  refine hm.mono (fun _ hc => Call.leavesSteps_of_installs hc) fun s t hst => ?_
  rw [Session.SameSteps, hst]

theorem aside_call {c : Call} (h : c.leavesSteps) :
    Aside (Op.call c : Op DebugError Session c.Answer).run := Op.within_call h

end

namespace Session

theorem sameSteps_enter (s : Session) (next : SessionState) : s.SameSteps (s.enter next) :=
  (s.sameTables_enter next).steps

theorem sameSteps_stopped (s : Session) (t : ThreadId) (breakpoint : Option (Option String)) :
    s.SameSteps (s.stopped t breakpoint) := by
  refine SameSteps.trans ?_ (sameSteps_enter _ _)
  exact Eq.refl _

/-- What a step does once it has taken over the request of the thread's last step. -/
def replaceStep (t : ThreadId) (depth : StepDepth) (size : StepSize)
    (previous : Option RequestId) : Op DebugError Session Unit := do
  if let some previous := previous then Op.lift (Task.quietly (.deleteRequest previous))
  let request : RequestId ← Op.call (.createStep t size depth)
  Op.update fun s => { s with steps := s.steps.insert t request }
  letRun

theorem follows_replaceStep (t : ThreadId) (depth : StepDepth) (size : StepSize)
    (previous : Option RequestId) :
    Follows none (.ofTaken previous) (replaceStep t depth size previous).run := by
  have hcreate : Follows none .empty (replaceStep t depth size none).run := by
    refine .create (fun e => .done _) fun r => ?_
    refine .block (fun _ => .empty) (fun s => .record t r rfl rfl) fun s => ?_
    exact looks_letRun.aside.follows
  cases previous with
  | none => exact hcreate
  | some previous => exact .delete fun _ => hcreate

/-- A step takes the request of the thread's last step over, deletes it and records its own. -/
theorem follows_step (t : Option ThreadId) (depth : StepDepth) (size : StepSize) :
    Follows none .empty (step t depth size).run := by
  refine looks_reach.aside.follows_op_bind fun _ => ?_
  refine (looks_chosenThread t).aside.follows_op_bind fun t => ?_
  refine (aside_call rfl).follows_op_bind fun info => ?_
  split
  · exact .done _
  · have hwaits (previous : Option RequestId) (s : Session) :
        (replaceStep t depth size previous).run.advance s =
          ((replaceStep t depth size previous).run, s) := by
      cases previous <;> rfl
    refine .block (fun s => .ofTaken (s.steps.get? t)) (fun s => ?_) fun s => ?_
    · show Change none .empty s ((replaceStep t depth size (s.steps.get? t)).run.advance
        { s with steps := s.steps.erase t }).2 _
      rw [hwaits]
      refine .takeOut t rfl ?_ fun r hr => .inl (by rw [hr]; rfl)
      cases s.steps.get? t with
      | none => exact .inl rfl
      | some r => exact .inr ⟨r, rfl⟩
    · show Follows none _ ((replaceStep t depth size (s.steps.get? t)).run.advance
        { s with steps := s.steps.erase t }).1
      rw [hwaits]
      exact follows_replaceStep t depth size _

end Session

theorem aside_onBreakpoints {o : Operation} (ho : o.isOnBreakpoints) : Aside o.task := by
  refine (within_onBreakpoints ho).mono (fun c hc => ?_) fun s t hst => ?_
  · cases c <;> first | rfl | cases hc
  · have hst : t = { s with
        breakpoints := t.breakpoints, exceptions := t.exceptions, ids := t.ids } := hst
    exact (congrArg Session.steps hst :)

theorem follows_operation (o : Operation) : Follows none .empty o.task := by
  cases o with
  | addBreakpoint | addException | setEnabled | remove | clear =>
    exact (aside_onBreakpoints rfl).follows
  | resume | suspend | resumeThread | suspendThread => exact (looks_runs rfl).aside.follows
  | step t depth size => exact (Session.follows_step t depth size).failure

/-! ## Events -/

namespace Session

theorem aside_stop (t : ThreadId) (breakpoint : Option (Option String)) (payload : Payload) :
    Aside (Routine.modify fun s : Session => (s.stopped t breakpoint).emit payload) :=
  within_modify fun s => s.sameSteps_stopped t breakpoint

theorem aside_reportStep (t : ThreadId) (l : Location) : Aside (reportStep t l) :=
  within_bind (inspects_threadPlace t l).aside fun _ =>
    within_bind (aside_stop t none _) fun _ => trivial

theorem follows_handleStep (request : Option RequestId) (t : ThreadId) (l : Location) :
    Follows (some (.step request t l)) .empty (handleEvent (.step request t l)) := by
  rw [handleEvent_step]
  have hfound (s : Session) : (s.finishStep t request).1 = (request <|> s.steps.get? t) := rfl
  refine .block (fun s => .ofTaken (request <|> s.steps.get? t)) (fun s => ?_) fun s => ?_
  · rw [hfound]
    have hforgets (r : RequestId) (hr : s.steps.get? t = some r) :
        Hand.ofTaken (request <|> s.steps.get? t) = .taken r ∨
          ∃ e, some (TargetEvent.step request t l) = some e ∧ e.Forgets t r := by
      cases request with
      | none => exact .inl (by rw [hr]; rfl)
      | some q =>
        by_cases hqr : q = r
        · exact .inl (by rw [hqr]; rfl)
        · exact .inr ⟨_, rfl, rfl, hqr⟩
    cases hq : (request <|> s.steps.get? t) with
    | none =>
      rw [hq] at hforgets
      refine .takeOut t ?_ (.inl rfl) hforgets
      exact ((aside_reportStep t l).begin _).1
    | some q =>
      rw [hq] at hforgets
      exact .takeOut t rfl (.inr ⟨q, rfl⟩) hforgets
  · rw [hfound]
    cases (request <|> s.steps.get? t) with
    | none => exact ((aside_reportStep t l).begin _).2.follows
    | some q => exact .delete fun _ => (aside_reportStep t l).follows

theorem follows_handleDeath (t : ThreadId) :
    Follows (some (.threadDeath t)) .empty (handleEvent (.threadDeath t)) := by
  refine (inspects_threadName t).aside.follows_bind fun name => ?_
  refine .block (fun _ => .empty) (fun s => ?_) fun s => .done true
  exact .takeOut t rfl (.inl rfl) fun r _ => .inr ⟨_, rfl, rfl⟩

theorem aside_disconnected (s : Session) : s.SameSteps s.disconnected := by
  simp only [disconnected]
  split
  · exact .rfl
  · exact sameSteps_enter _ _

theorem follows_handleEvent (e : TargetEvent) : Follows (some e) .empty (handleEvent e) := by
  cases e with
  | step request t l => exact follows_handleStep request t l
  | threadDeath t => exact follows_handleDeath t
  | vmStart t => exact .done true
  | breakpoint request t l =>
    rw [handleEvent_breakpoint]
    refine Aside.follows fun s => ⟨?_, ?_⟩
    · cases request <;> exact Eq.refl _
    · exact within_bind (inspects_threadPlace t l).aside fun _ =>
        within_bind (aside_stop t _ _) fun _ => trivial
  | exception request t l thrown catchAt =>
    refine Aside.follows (within_bind (inspects_exceptionMessage thrown).aside fun _ => ?_)
    exact within_bind (inspects_threadPlace t l).aside fun _ =>
      within_bind (aside_stop t none _) fun _ => trivial
  | threadStart t =>
    refine Aside.follows (within_bind (inspects_threadName t).aside fun name => ?_)
    exact within_bind (within_modify fun _ => .rfl) fun _ => trivial
  | classPrepare request t c =>
    exact Aside.follows (within_bind (installs_classLoaded c).aside fun _ => trivial)
  | vmDeath =>
    exact Aside.follows (within_bind (within_modify fun s => s.sameSteps_enter _) fun _ => trivial)

theorem aside_resumeAfter (set : EventSet) : Aside (resumeAfter set) := by
  simp only [resumeAfter]
  split
  · trivial
  · refine within_bind (within_ask rfl) fun reply => ?_
    split
    · trivial
    · split
      · exact within_bind (within_modify aside_disconnected) fun _ => trivial
      · trivial

end Session

end JvmDebug
