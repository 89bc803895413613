import JvmDebug.Proofs.SessionTurns
import JvmDebug.Proofs.StopSurvival
import JvmDebug.Proofs.Suspension

/-!
Whether the threads that are recorded at a breakpoint are stopped. What lets a thread run on behalf
of the user forgets afterwards that it was stopped. The event loop forgets nothing, and it resumes
every set without stops, whoever is stopped at that time.
-/
namespace JvmDebug

open Routine

/-! ## Forgetting a stop -/

namespace Routine

/-- All that is left of the routine is to forget that the thread was stopped. -/
def Forgets (t : ThreadId) : Task Session (Option DebugError) → Prop
  | update f k => ∀ s, (f s).atBreakpoint.get? t = none ∧ ∃ r, k s = done r
  | done _ | request .. => False

/-- The routine records no stop of the thread, and whenever it has let the thread run, all that is
left is to forget its stop. -/
def Forgetful (t : ThreadId) : Task Session (Option DebugError) → Prop
  | done _ => True
  | request c k => (∀ r, Forgetful t (k r)) ∧ (c.releases t → ∀ a, Forgets t (k (.ok a)))
  | update f k => ∀ s,
    (s.atBreakpoint.get? t = none → (f s).atBreakpoint.get? t = none) ∧ Forgetful t (k s)

/-- The routine neither lets the thread run nor changes which threads are recorded. -/
abbrev Holds {α : Type} (t : ThreadId) (m : Task Session α) : Prop :=
  m.Within (fun c => c.releases t = false) fun s s' => s'.atBreakpoint = s.atBreakpoint

variable {t : ThreadId} {m : Task Session (Option DebugError)}

theorem forgetful_bind {α : Type} {m : Task Session α}
    {g : α → Task Session (Option DebugError)} (hm : Holds t m) (hg : ∀ a, Forgetful t (g a)) :
    Forgetful t (bind m g) := by
  induction m with
  | done a => exact hg a
  | request c k ih =>
    refine ⟨fun r => ih r (hm.2 r), fun hc => ?_⟩
    rw [hm.1] at hc
    cases hc
  | update f k ih => exact fun s => ⟨fun h => by rw [(hm s).1, h], ih s (hm s).2⟩

theorem Holds.forgetful (hm : Holds t m) : Forgetful t m := by
  rw [← bind_done m]
  exact forgetful_bind hm fun _ => trivial

theorem forgetful_failure {α : Type} {m : Op DebugError Session α}
    {g : α → Op DebugError Session Unit} (hm : Holds t m.run)
    (hg : ∀ a, Forgetful t (g a).failure?) : Forgetful t (m >>= g).failure? := by
  rw [Op.failure?_bind]
  refine forgetful_bind hm fun r => ?_
  cases r with
  | ok a => exact hg a
  | error e => trivial

theorem Forgetful.advance (hm : Forgetful t m) (s : Session) :
    (s.atBreakpoint.get? t = none → (m.advance s).2.atBreakpoint.get? t = none) ∧
      Forgetful t (m.advance s).1 := by
  induction m generalizing s with
  | done r => exact ⟨id, hm⟩
  | request c k _ => exact ⟨id, hm⟩
  | update f k ih =>
    obtain ⟨hstays, hrest⟩ := ih s (hm s).2 (f s)
    exact ⟨fun h => hstays ((hm s).1 h), hrest⟩

theorem Forgets.move (hm : Forgets t m) (s : Session) (vm : Vm) :
    (m.move Vm.serve s vm).2.1.atBreakpoint.get? t = none := by
  cases m with
  | done r => exact hm.elim
  | request c k => exact hm.elim
  | update f k =>
    obtain ⟨hget, r, hk⟩ := hm s
    simp only [Routine.move, hk]
    exact hget

/-- A step of the routine leaves a suspended thread suspended, or what is left is to forget it. -/
theorem Forgetful.move (hm : Forgetful t m) (s : Session) (vm : Vm) :
    Forgetful t (m.move Vm.serve s vm).1 ∧
      (s.atBreakpoint.get? t = none → (m.move Vm.serve s vm).2.1.atBreakpoint.get? t = none) ∧
      (vm.isSuspended t →
        (m.move Vm.serve s vm).2.2.isSuspended t ∨ Forgets t (m.move Vm.serve s vm).1) := by
  cases m with
  | done r => exact ⟨trivial, id, .inl⟩
  | request c k =>
    refine ⟨hm.1 _, id, fun h => ?_⟩
    cases hc : c.releases t with
    | false => exact .inl (Vm.isSuspended_answer hc h)
    | true =>
      obtain ⟨a, ha⟩ := Vm.answer_releases hc h
      refine .inr ?_
      show Forgets t (k (vm.answer c).1)
      rw [ha]
      exact hm.2 hc a
  | update f k =>
    obtain ⟨hstays, hrest⟩ := Forgetful.advance (hm s).2 (f s)
    exact ⟨hrest, fun h => hstays ((hm s).1 h), .inl⟩

end Routine

/-! ## Operations -/

section
variable (t : ThreadId)

theorem holds_reach : Holds t Session.reach.run := Session.within_reach fun _ => rfl

theorem holds_call {c : Call} (hc : c.releases t = false) :
    Holds t (Op.call c : Op DebugError Session c.Answer).run := Op.within_call hc

theorem Routine.Views.holds {α : Type} {m : Task Session α} (hm : Views m) : Holds t m := by
  refine hm.mono (fun c hc => ?_) fun s s' hst => ?_
  · cases c <;> first | rfl | cases hc
  · have hst : s' = { s with
        name := s'.name, selection := s'.selection, events := s'.events
        listeners := s'.listeners, nextListener := s'.nextListener } := hst
    exact (congrArg Session.atBreakpoint hst :)

theorem holds_onBreakpoints {o : Operation} (ho : o.isOnBreakpoints) : Holds t o.task := by
  refine (within_onBreakpoints ho).mono (fun c hc => ?_) fun s s' hst => ?_
  · cases c <;> first | rfl | cases hc
  · have hst : s' = { s with
        breakpoints := s'.breakpoints, exceptions := s'.exceptions, ids := s'.ids } := hst
    exact (congrArg Session.atBreakpoint hst :)

theorem Session.atBreakpoint_enter (s : Session) (next : SessionState) :
    (s.enter next).atBreakpoint = s.atBreakpoint := by
  simp only [enter]
  split <;> rfl

theorem Session.get?_resumed (s : Session) : s.resumed.atBreakpoint.get? t = none := by
  rw [resumed, atBreakpoint_enter]
  rfl

theorem forgetful_letRun : Forgetful t Session.letRun.failure? := by
  refine ⟨fun r => ?_, fun _ a s => ⟨s.get?_resumed t, none, rfl⟩⟩
  cases r with
  | ok a => exact fun s => ⟨fun _ => s.get?_resumed t, trivial⟩
  | error e => trivial

theorem forgetful_resumeThread (u : ThreadId) : Forgetful t (Session.resumeThread u).failure? := by
  refine forgetful_failure (holds_reach t) fun _ => ⟨fun r => ?_, fun hu a s => ?_⟩
  · cases r with
    | ok a =>
      refine fun s => ⟨fun h => ?_, trivial⟩
      rw [Dict.get?_erase, h, ite_self]
    | error e => trivial
  · have hu : u = t := by simpa [Call.releases] using hu
    refine ⟨?_, none, rfl⟩
    rw [Dict.get?_erase, hu, if_pos rfl]

theorem forgetful_step (u : Option ThreadId) (depth : StepDepth) (size : StepSize) :
    Forgetful t (Session.step u depth size).failure? := by
  refine forgetful_failure (holds_reach t) fun _ => ?_
  refine forgetful_failure ((Session.views_chosenThread u).holds t) fun u => ?_
  refine forgetful_failure (holds_call t rfl) fun info => ?_
  split
  · trivial
  · refine forgetful_failure (fun s => ⟨rfl, trivial⟩) fun previous => ?_
    have hrest : Forgetful t (do
        let request : RequestId ← Op.call (.createStep u size depth)
        Op.update fun s => { s with steps := s.steps.insert u request }
        Session.letRun : Op DebugError Session Unit).failure? := by
      refine forgetful_failure (holds_call t rfl) fun request => ?_
      exact forgetful_failure (fun s => ⟨rfl, trivial⟩) fun _ => forgetful_letRun t
    cases previous with
    | none => exact hrest
    | some previous =>
      exact forgetful_failure (Op.within_lift (m := Task.quietly (.deleteRequest previous))
        ⟨rfl, fun _ => trivial⟩) fun _ => hrest

theorem forgetful_operation (o : Operation) : Forgetful t o.task := by
  cases o with
  | addBreakpoint | addException | setEnabled | remove | clear =>
    exact (holds_onBreakpoints t rfl).forgetful
  | resume => exact forgetful_failure (holds_reach t) fun _ => forgetful_letRun t
  | suspend =>
    refine Holds.forgetful (Op.within_failure ?_)
    refine Op.within_bind (holds_reach t) fun _ => Op.within_bind (holds_call t rfl) fun _ => ?_
    exact fun s => ⟨s.atBreakpoint_enter _, trivial⟩
  | resumeThread u => exact forgetful_resumeThread t u
  | suspendThread u =>
    exact Holds.forgetful (Op.within_failure
      (Op.within_bind (holds_reach t) fun _ => holds_call t rfl))
  | step u depth size => exact forgetful_step t u depth size

theorem forgetful_errand (e : Errand) : Forgetful t e.task := by
  by_cases he : e = .close
  · subst he
    refine Holds.forgetful (within_bind (fun s => ⟨rfl, trivial⟩) fun _ => ?_)
    refine within_bind ?_ fun _ => trivial
    exact Session.within_finishClose rfl (fun _ => rfl) fun s => s.atBreakpoint_enter _
  · exact (Routine.Views.holds t ((gated_errand he).within fun _ _ h => h)).forgetful

end

/-! ## The event loop -/

theorem Call.releases_of_installs (t : ThreadId) {c : Call} (hc : c.installs) :
    c.releases t = false := by
  cases c <;> first | rfl | cases hc

namespace Loop

/-- Whatever the loop does about an event does not let the thread run. -/
def Holds (t : ThreadId) : Loop → Prop
  | handling _ _ now _ => now.Within (fun c => c.releases t = false) fun _ _ => True
  | reading | ready .. | resuming _ | ended => True

variable {t : ThreadId} {l : Loop} {s : Session} {vm : Vm}

theorem holds_handleEvent (t : ThreadId) (e : TargetEvent) :
    (Session.handleEvent e).Within (fun c => c.releases t = false) fun _ _ => True := by
  cases e with
  | classPrepare r u c =>
    refine within_bind ?_ fun _ => trivial
    exact Session.within_classLoaded (fun _ => Call.releases_of_installs t) (fun _ _ _ => trivial)
      (fun _ => trivial) (fun _ _ => trivial) c
  | _ =>
    refine Session.within_handleEvent (fun r u c h => by cases h) (fun c hc => ?_) (fun _ => rfl)
      (fun _ _ _ => trivial) fun _ _ => trivial
    exact Call.releases_of_installs t (Call.installs_of_inspects hc)

theorem holds_afterEvent {set : EventSet} {e : TargetEvent} {later : List TargetEvent}
    {now : Task Session Bool}
    (hnow : now.Within (fun c => c.releases t = false) fun _ _ => True) :
    (afterEvent set e later now).Holds t :=
  of_afterEvent hnow fun _ _ => ⟨trivial, trivial⟩

theorem holds_afterResume (t : ThreadId) (now : Task Session Bool) : (afterResume now).Holds t :=
  of_afterResume trivial fun _ _ => ⟨trivial, trivial⟩

theorem Holds.step (hl : l.Holds t) (s : Session) (vm : Vm) : (l.step s vm).1.Holds t := by
  cases l with
  | reading =>
    simp only [Loop.step]
    split <;> trivial
  | ready set later =>
    cases later with
    | nil => exact holds_afterResume t _
    | cons e later =>
      exact holds_afterEvent ((holds_handleEvent t e).advance (fun _ => trivial)
        (fun _ _ _ _ _ => trivial) s).2
  | handling set e now later =>
    exact holds_afterEvent (Within.move hl Vm.serve (fun _ => trivial)
      (fun _ _ _ _ _ => trivial) s vm).2
  | resuming now => exact holds_afterResume t _
  | ended => trivial

/-- The loop lets a thread run by resuming a set without stops, and in no other way. -/
theorem isSuspended_step (hl : l.Holds t) (hnoting : l.Noting fun _ _ => True)
    (h : vm.isSuspended t) : (l.step s vm).2.2.isSuspended t ∨
      ∃ set k, set.shouldResume ∧ l = resuming (.request (.resumeEventSet set) k) := by
  cases l with
  | reading =>
    refine .inl ?_
    simp only [Loop.step]
    split <;> exact h
  | ready set later => cases later <;> exact .inl h
  | handling set e now later =>
    cases now with
    | done goesOn => exact .inl h
    | request c k => exact .inl (Vm.isSuspended_answer hl.1 h)
    | update f k => exact .inl h
  | resuming now =>
    obtain ⟨set, rfl⟩ := hnoting
    cases hset : set.shouldResume with
    | false =>
      refine .inl ?_
      simp only [Loop.step, Session.resumeAfter, hset]
      exact h
    | true =>
      simp only [Session.resumeAfter, hset]
      exact .inr ⟨set, _, hset, rfl⟩
  | ended => exact .inl h

end Loop

/-! ## Stops that slip -/

theorem Happening.Fits.isCalm {h : Happening} {vm : Vm} (hx : h.Fits vm) : h.isCalm = true := by
  cases h with
  | die | hangUp => exact hx.elim
  | load | hit | finishStep | throw | startThread => rfl

namespace Session
variable {t : ThreadId} {s s' : Session}

theorem atBreakpoint_stopped (s : Session) (n : StopNote) :
    (s.stopped n.1 n.2).atBreakpoint = match n.2 with
      | some id => s.atBreakpoint.insert n.1 id
      | none => s.atBreakpoint :=
  atBreakpoint_enter _ _

/-- The note of an event that is no hit of the thread does not tell of the thread. -/
theorem Takes.get?_eq {e : TargetEvent} {note : Option StopNote}
    (hnote : e.Noted (fun _ _ => True) note) (hst : s.Takes note s')
    (he : ∀ r l, e ≠ .breakpoint r t l) : s'.atBreakpoint.get? t = s.atBreakpoint.get? t := by
  cases note with
  | none =>
    have hst : s.SameStops s' := hst
    rw [hst.atBreakpoint]
  | some n =>
    have hst : (s.stopped n.1 n.2).SameStops s' := hst
    rw [hst.atBreakpoint, atBreakpoint_stopped]
    cases e with
    | breakpoint r u l =>
      obtain ⟨id, -, hn⟩ := hnote
      cases hn
      refine (Dict.get?_insert _ _ _ _).trans (if_neg ?_)
      rintro rfl
      exact he r l rfl
    | step r u l | exception r u l thrown catchAt =>
      cases hnote
      rfl
    | vmStart | threadStart | threadDeath | classPrepare | vmDeath => cases hnote

end Session

namespace Scene

/-- What happens of its own accord can come about in the target. -/
def Turn.Fits (vm : Vm) : Turn → Prop
  | choice (.target x) => x.Fits vm
  | choice (.call _) | choice (.go _) | choice .loop | errand _ => True
  | report _ => False

def Fitting (c : Scene) : List Turn → Prop
  | [] => True
  | x :: xs => x.Fits c.vm ∧ (c.next x).Fitting xs

theorem fitting_append (c : Scene) (xs ys : List Turn) :
    c.Fitting (xs ++ ys) ↔ c.Fitting xs ∧ (c.play xs).Fitting ys := by
  induction xs generalizing c with
  | nil => simp [Fitting, play]
  | cons x xs ih =>
    rw [List.cons_append, Fitting, Fitting, ih, and_assoc]
    rfl

/-- Nothing is in flight or reported, and no thread is recorded at a breakpoint. -/
structure Unstopped (c : Scene) : Prop where
  calls : c.calls = []
  loop : c.loop = .reading
  reports : c.vm.reports = []
  atBreakpoint : c.session.atBreakpoint = .empty

variable {c : Scene} {t : ThreadId} {x : Turn} {turns : List Turn}

/-- A hit of the thread has been reported and is not noted yet. -/
def Expects (c : Scene) (t : ThreadId) : Prop := ∃ r l, .breakpoint r t l ∈ c.unnoted

/-- The event loop asks the target to resume a set without stops. -/
def ResumesSet (c : Scene) (x : Turn) : Prop :=
  x = .choice .loop ∧
    ∃ set k, set.shouldResume ∧ c.loop = .resuming (.request (.resumeEventSet set) k)

/-- The turn lets the thread run although a hit of it is not noted yet, or on behalf of the event
loop although the thread is recorded. -/
structure LetsSlip (c : Scene) (t : ThreadId) (x : Turn) : Prop where
  stopped : c.vm.isSuspended t = true
  runs : (c.next x).vm.isSuspended t = false
  early : c.Expects t ∨ c.ResumesSet x ∧ (c.session.atBreakpoint.get? t).isSome

/-- The thread has run since a turn that let it slip. -/
def Slipped (c : Scene) (turns : List Turn) (t : ThreadId) : Prop :=
  ∃ xs x ys, turns = xs ++ x :: ys ∧ (c.play xs).LetsSlip t x ∧
    ∀ zs, zs <+: ys → (c.play (xs ++ x :: zs)).vm.isSuspended t = false

theorem slipped_of_letsSlip (h : (c.play turns).LetsSlip t x) : c.Slipped (turns ++ [x]) t := by
  refine ⟨turns, x, [], rfl, h, fun zs hzs => ?_⟩
  rw [List.prefix_nil.1 hzs, play_snoc]
  exact h.runs

theorem Slipped.snoc (h : c.Slipped turns t)
    (hx : ((c.play turns).next x).vm.isSuspended t = false) : c.Slipped (turns ++ [x]) t := by
  obtain ⟨xs, y, ys, rfl, hy, hys⟩ := h
  refine ⟨xs, y, ys ++ [x], by simp, hy, fun zs hzs => ?_⟩
  rcases List.prefix_concat_iff.1 hzs with rfl | hzs
  · rw [← List.cons_append, ← List.append_assoc, play_snoc]
    exact hx
  · exact hys zs hzs

theorem Slipped.not_suspended (h : c.Slipped turns t) :
    (c.play turns).vm.isSuspended t = false := by
  obtain ⟨xs, x, ys, rfl, -, hys⟩ := h
  exact hys ys List.prefix_rfl

/-! ### Runs -/

/-- The operations in flight forget the stop of the thread when they let it run, the event loop
notes what it handles, and nothing that ends the session is under way. -/
structure Minds (t : ThreadId) (c : Scene) : Prop where
  calls : ∀ m ∈ c.calls, Forgetful t m
  noting : c.loop.Noting fun _ _ => True
  holds : c.loop.Holds t
  calm : ∀ e ∈ c.unnoted, e.isCalm = true
  hangUp : .hangUp ∉ c.vm.reports

theorem Minds.advances (hc : c.Minds t) :
    Loop.Advances (fun _ _ => True) c.loop c.session c.vm (c.step .loop).loop
      (c.step .loop).session (c.step .loop).vm :=
  Loop.step_advances hc.noting (fun _ => trivial) hc.calm hc.hangUp

theorem Minds.next (hc : c.Minds t) (hx : x.Fits c.vm) : (c.next x).Minds t := by
  have hjoin {m : Task Session (Option DebugError)} (hm : Forgetful t m) :
      Minds t { c with calls := c.calls ++ [m] } := by
    refine ⟨fun m' hm' => ?_, hc.noting, hc.holds, hc.calm, hc.hangUp⟩
    rcases List.mem_append.1 hm' with hm' | hm'
    · exact hc.calls m' hm'
    · rw [List.mem_singleton.1 hm']
      exact hm
  cases x with
  | errand e => exact hjoin (forgetful_errand t e)
  | report set => exact hx.elim
  | choice x =>
    cases x with
    | call o => exact hjoin (forgetful_operation t o)
    | go n =>
      obtain ⟨hloop, hvm⟩ := c.step_go n
      show Minds t (c.step (.go n))
      refine ⟨fun m' hm' => ?_, ?_, ?_, ?_, ?_⟩
      · cases hn : c.calls[n]? with
        | none =>
          rw [step_go_none hn] at hm'
          exact hc.calls m' hm'
        | some m =>
          rw [step_go_some hn] at hm'
          rcases List.mem_or_eq_of_mem_set hm' with hm' | rfl
          · exact hc.calls m' hm'
          · exact ((hc.calls m (List.mem_of_getElem? hn)).move c.session c.vm).1
      · rw [hloop]
        exact hc.noting
      · rw [hloop]
        exact hc.holds
      · rw [unnoted_go]
        exact hc.calm
      · rw [hvm.reports]
        exact hc.hangUp
    | loop =>
      exact ⟨hc.calls, hc.advances.noting, hc.holds.step c.session c.vm,
        fun e he => hc.calm e (hc.advances.mem_unnoted he), Loop.hangUp_step hc.hangUp⟩
    | target h =>
      have hcalm : h.isCalm = true := Happening.Fits.isCalm hx
      exact ⟨hc.calls, hc.noting, hc.holds, calm_target hc.calm hcalm,
        Happening.hangUp_apply hcalm hc.hangUp⟩

/-- Nothing will have the thread recorded once all that is under way has ended. -/
structure Cleared (t : ThreadId) (c : Scene) : Prop where
  noHit : ¬c.Expects t
  forgotten : c.session.atBreakpoint.get? t = none ∨ ∃ m ∈ c.calls, Forgets t m

theorem Minds.cleared_go (hc : c.Minds t) (h : c.Cleared t) (n : Nat) :
    (c.step (.go n)).Cleared t := by
  refine ⟨by simpa only [Expects, unnoted_go] using h.noHit, ?_⟩
  cases hn : c.calls[n]? with
  | none =>
    rw [step_go_none hn]
    exact h.forgotten
  | some m =>
    rw [step_go_some hn]
    rcases h.forgotten with hget | ⟨m', hm', hforgets⟩
    · exact .inl (((hc.calls m (List.mem_of_getElem? hn)).move c.session c.vm).2.1 hget)
    · obtain ⟨i, hi⟩ := List.mem_iff_getElem?.1 hm'
      by_cases hin : n = i
      · rw [hin, hi, Option.some.injEq] at hn
        exact .inl ((hn ▸ hforgets).move c.session c.vm)
      · refine .inr ⟨m', ?_, hforgets⟩
        exact List.mem_of_getElem? ((List.getElem?_set_ne hin).trans hi)

theorem Minds.cleared_loop (hc : c.Minds t) (h : c.Cleared t) : (c.step .loop).Cleared t := by
  rcases hc.advances.notes with ⟨hunnoted, hsame⟩ | ⟨e, note, hunnoted, hnote, htakes⟩
  · have hunnoted : c.unnoted = (c.step .loop).unnoted := hunnoted
    refine ⟨?_, ?_⟩
    · rw [Expects, ← hunnoted]
      exact h.noHit
    · rw [hsame.atBreakpoint]
      exact h.forgotten
  · have hunnoted : c.unnoted = e :: (c.step .loop).unnoted := hunnoted
    have hnone (r : Option RequestId) (l : Location) : .breakpoint r t l ∉ c.unnoted :=
      fun hhit => h.noHit ⟨r, l, hhit⟩
    rw [hunnoted] at hnone
    refine ⟨?_, ?_⟩
    · rintro ⟨r, l, hhit⟩
      exact hnone r l (List.mem_cons_of_mem _ hhit)
    · rw [htakes.get?_eq hnote fun r l he => hnone r l (he ▸ List.mem_cons_self)]
      exact h.forgotten

/-- The thread is recorded again only after it has been stopped again. -/
theorem Minds.cleared_next (hc : c.Minds t) (h : c.Cleared t) (hx : x.Fits c.vm) :
    (c.next x).Cleared t ∨ (c.next x).vm.isSuspended t = true := by
  have hjoin (m : Task Session (Option DebugError)) :
      Cleared t { c with calls := c.calls ++ [m] } :=
    ⟨h.noHit, h.forgotten.imp_right fun ⟨m', hm', hforgets⟩ =>
      ⟨m', List.mem_append_left _ hm', hforgets⟩⟩
  cases x with
  | errand e => exact .inl (hjoin _)
  | report set => exact hx.elim
  | choice x =>
    cases x with
    | call o => exact .inl (hjoin _)
    | go n => exact .inl (hc.cleared_go h n)
    | loop => exact .inl (hc.cleared_loop h)
    | target x =>
      by_cases hhit : ∃ r l, .breakpoint r t l ∈ x.events c.vm
      · obtain ⟨r, l, hhit⟩ := hhit
        exact .inr (Happening.isSuspended_of_hit hx hhit)
      · refine .inl ⟨?_, h.forgotten⟩
        rintro ⟨r, l, hmem⟩
        rcases List.mem_append.1 (c.unnoted_target x ▸ hmem) with hmem | hmem
        · exact h.noHit ⟨r, l, hmem⟩
        · exact hhit ⟨r, l, hmem⟩

/-- A turn leaves the thread suspended, lets it slip, or leaves nothing to have it recorded. -/
theorem Minds.suspended_next (hc : c.Minds t) (h : c.vm.isSuspended t = true) (hx : x.Fits c.vm) :
    (c.next x).vm.isSuspended t = true ∨ c.LetsSlip t x ∨ (c.next x).Cleared t := by
  by_cases hafter : (c.next x).vm.isSuspended t = true
  · exact .inl hafter
  refine .inr ?_
  have hruns : (c.next x).vm.isSuspended t = false := Bool.eq_false_iff.2 hafter
  by_cases hexpects : c.Expects t
  · exact .inl ⟨h, hruns, .inl hexpects⟩
  cases x with
  | errand e => exact absurd h hafter
  | report set => exact hx.elim
  | choice x =>
    cases x with
    | call o => exact absurd h hafter
    | target x => exact absurd (Happening.isSuspended_apply hx h) hafter
    | loop =>
      rcases Loop.isSuspended_step (s := c.session) hc.holds hc.noting h with hstill | hresumes
      · exact absurd hstill hafter
      · cases hget : c.session.atBreakpoint.get? t with
        | some id => exact .inl ⟨h, hruns, .inr ⟨⟨rfl, hresumes⟩, by rw [hget]; rfl⟩⟩
        | none => exact .inr (hc.cleared_loop ⟨hexpects, .inl hget⟩)
    | go n =>
      have hafter : ¬(c.step (.go n)).vm.isSuspended t = true := hafter
      refine .inr (show Cleared t (c.step (.go n)) from ⟨?_, ?_⟩)
      · rwa [Expects, unnoted_go]
      cases hn : c.calls[n]? with
      | none =>
        rw [step_go_none hn] at hafter
        exact absurd h hafter
      | some m =>
        rw [step_go_some hn] at hafter ⊢
        have hmove := ((hc.calls m (List.mem_of_getElem? hn)).move c.session c.vm).2.2 h
        refine .inr ⟨_, List.mem_set (List.getElem?_eq_some_iff.1 hn).1 _, ?_⟩
        exact hmove.resolve_left hafter

theorem Unstopped.minds (hc : c.Unstopped) (t : ThreadId) : c.Minds t := by
  have hunnoted : c.unnoted = [] := by
    rw [unnoted, hc.loop, Vm.unread, hc.reports]
    rfl
  refine ⟨?_, ?_, ?_, ?_, ?_⟩
  · simp [hc.calls]
  · rw [hc.loop]
    trivial
  · rw [hc.loop]
    trivial
  · simp [hunnoted]
  · simp [hc.reports]

theorem Unstopped.cleared (hc : c.Unstopped) (t : ThreadId) : c.Cleared t := by
  refine ⟨?_, .inl (by rw [hc.atBreakpoint]; rfl)⟩
  rintro ⟨r, l, hhit⟩
  rw [unnoted, hc.loop, Vm.unread, hc.reports] at hhit
  cases hhit

theorem Unstopped.minds_play (hc : c.Unstopped) (hfits : c.Fitting turns) (t : ThreadId) :
    (c.play turns).Minds t ∧ ((c.play turns).vm.isSuspended t = true ∨ c.Slipped turns t ∨
      (c.play turns).Cleared t) := by
  -- the thread is suspended, or it slipped, or nothing is left that would have it recorded
  induction turns using List.reverseRecOn with
  | nil => exact ⟨hc.minds t, .inr (.inr (hc.cleared t))⟩
  | append_singleton xs x ih =>
    rw [fitting_append] at hfits
    have hx : x.Fits (c.play xs).vm := hfits.2.1
    obtain ⟨hminds, hcases⟩ := ih hfits.1
    rw [play_snoc]
    refine ⟨hminds.next hx, ?_⟩
    by_cases hafter : ((c.play xs).next x).vm.isSuspended t = true
    · exact .inl hafter
    refine .inr ?_
    rcases hcases with hsuspended | hslipped | hcleared
    · rcases hminds.suspended_next hsuspended hx with h | h | h
      · exact absurd h hafter
      · exact .inl (slipped_of_letsSlip h)
      · exact .inr h
    · exact .inl (hslipped.snoc (Bool.eq_false_iff.2 hafter))
    · exact .inr ((hminds.cleared_next hcleared hx).resolve_right hafter)

/-- When everything has been handled, a thread that is recorded at a breakpoint is suspended, unless
it slipped. -/
theorem suspended_iff_not_slipped (hc : c.Unstopped) (hfits : c.Fitting turns)
    (hsettled : (c.play turns).Settled)
    (hrecorded : ((c.play turns).session.atBreakpoint.get? t).isSome) :
    (c.play turns).vm.isSuspended t = true ↔ ¬c.Slipped turns t := by
  constructor
  · intro hsuspended hslipped
    rw [hslipped.not_suspended] at hsuspended
    cases hsuspended
  · intro hslipped
    rcases (hc.minds_play hfits t).2 with h | h | h
    · exact h
    · exact absurd h hslipped
    · rcases h.forgotten with hget | ⟨m, hm, hforgets⟩
      · rw [hget] at hrecorded
        cases hrecorded
      · obtain ⟨r, rfl⟩ := hsettled.calls m hm
        exact hforgets.elim

/-- Connected to a machine with one thread, and two classes of which one is loaded. -/
def twoClasses : Scene :=
  let (_, vm) := ({} : Vm).addThread "main"
  let (c, vm) := vm.addClass "app.Main" .classType none true
  let (m, vm) := vm.addMethod c "run" "()V" false none
  let (_, vm) := vm.addLine m 7
  let (_, vm) := vm.addClass "app.Late" .classType none false
  connected .attachedRemote "sample" (Session.new "s" {} 0 {}) vm

theorem unstopped_twoClasses : twoClasses.Unstopped := ⟨rfl, rfl, rfl, rfl⟩

/-- A thread stops at a breakpoint; then a class is loaded that another breakpoint waits for. -/
def lateLoad : List Turn :=
  ([.call (.addBreakpoint "app.Main" (.line 7) none), .go 0, .go 0, .go 0, .go 0, .go 0,
    .call (.addBreakpoint "app.Late" (.line 7) none), .go 1, .go 1, .go 1, .go 1, .go 1,
    .target (.hit 1 ⟨1, 2, 3, 0⟩), .loop, .loop, .loop, .loop, .loop, .loop,
    .target (.load 1 4), .loop, .loop, .loop, .loop, .loop, .loop, .loop] : List Choice).map .choice

theorem fitting_lateLoad : twoClasses.Fitting lateLoad := by
  have hthread : (twoClasses.play (lateLoad.take 12)).vm.threads.contains 1 := rfl
  simp only [lateLoad, List.map_cons, List.map_nil, Fitting, Turn.Fits, Happening.Fits, true_and,
    and_true]
  exact hthread

theorem settled_lateLoad : (twoClasses.play lateLoad).Settled := by
  have hcalls : (twoClasses.play lateLoad).calls = [.done none, .done none] := rfl
  refine ⟨?_, rfl, rfl⟩
  simp [hcalls]

theorem slipped_lateLoad : twoClasses.Slipped lateLoad 1 := by
  by_contra hslipped
  have hsuspended := (suspended_iff_not_slipped unstopped_twoClasses fitting_lateLoad
    settled_lateLoad rfl).2 hslipped
  cases hsuspended

/-- A thread that is recorded at a breakpoint can be running. -/
theorem not_suspended_after_late_load :
    ¬∀ (c : Scene) (turns : List Turn) (t : ThreadId), c.Unstopped → c.Fitting turns →
      (c.play turns).Settled → ((c.play turns).session.atBreakpoint.get? t).isSome →
      (c.play turns).vm.isSuspended t = true := by
  intro h
  have hsuspended := h twoClasses lateLoad 1 unstopped_twoClasses fitting_lateLoad
    settled_lateLoad rfl
  cases hsuspended

end Scene

end JvmDebug
