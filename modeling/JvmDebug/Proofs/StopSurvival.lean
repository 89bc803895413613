import JvmDebug.Proofs.SceneEvents
import JvmDebug.Proofs.StopNotes

/-!
When a stop survives the operation that let the target run. The operation forgets all stops when it
ends, which is after the target has begun to run: a stop that the event loop notes in between is
forgotten, and exactly those that it notes afterwards are kept.
-/
namespace JvmDebug

open Routine

/-! ## Events that are not noted yet -/

def Loop.unnoted : Loop → List TargetEvent
  | ready _ later => later
  | handling _ e _ later => e :: later
  | _ => []

def Happening.isCalm : Happening → Bool
  | die | hangUp => false
  | _ => true

namespace Scene

def unnoted (c : Scene) : List TargetEvent := c.loop.unnoted ++ c.vm.unread

def reported (c : Scene) : List Choice → List TargetEvent
  | [] => []
  | x :: xs => x.events c.vm ++ (c.step x).reported xs

theorem reported_snoc (c : Scene) (xs : List Choice) (x : Choice) :
    c.reported (xs ++ [x]) = c.reported xs ++ x.events (c.run xs).vm := by
  induction xs generalizing c with
  | nil => exact List.append_nil _
  | cons y ys ih =>
    rw [List.cons_append, reported, reported, ih, List.append_assoc]
    rfl

end Scene

/-! ## Notes of events -/

/-- What is known of the breakpoint of a request. -/
abbrev Knowledge := Option RequestId → Option String → Prop

/-- The note fits the event. -/
def TargetEvent.Noted (known : Knowledge) (note : Option StopNote) : TargetEvent → Prop
  | breakpoint r t _ => ∃ id, known r id ∧ note = some (t, some id)
  | step _ t _ | exception _ t .. => note = some (t, none)
  | _ => note = none

def Session.Takes (s : Session) (note : Option StopNote) (t : Session) : Prop :=
  match note with
  | some n => (s.stopped n.1 n.2).SameStops t
  | none => s.SameStops t

theorem TargetEvent.noted_note {known : Knowledge} {s : Session}
    (hknown : ∀ r, known r (Session.recordHit r s).1) (e : TargetEvent) :
    e.Noted known (e.note s) := by
  cases e with
  | breakpoint r t l => exact ⟨_, hknown r, rfl⟩
  | vmStart | step | exception | threadStart | threadDeath | classPrepare | vmDeath => rfl

def lastHit (t : ThreadId) (events : List TargetEvent) : Option (Option RequestId) :=
  events.foldl (fun found e =>
    match e with
    | .breakpoint r u _ => if u = t then some r else found
    | _ => found) none

/-- The session has noted the events, from the first to the last, since it forgot all stops. -/
structure Session.Recorded (known : Knowledge) (events : List TargetEvent) (s : Session) :
    Prop where
  alive : s.Alive
  suspended : s.state = .suspended ↔ ∃ e ∈ events, e.isStop = true
  threads : ∀ t, match lastHit t events with
    | none => s.atBreakpoint.get? t = none
    | some r => ∃ id, known r id ∧ s.atBreakpoint.get? t = some id

namespace Session
variable {known : Knowledge} {events : List TargetEvent} {s t : Session}

theorem Takes.alive {note : Option StopNote} (hst : s.Takes note t) (h : s.Alive) : t.Alive := by
  cases note with
  | none =>
    have hst : s.SameStops t := hst
    rw [Alive, hst.state]
    exact h
  | some n =>
    have hst : (s.stopped n.1 n.2).SameStops t := hst
    rw [Alive, hst.state, (stopped_of_alive h n).1]
    rfl

theorem recorded_resumed (h : s.resumed.Alive) : s.resumed.Recorded known [] := by
  obtain ⟨hstate, hat⟩ := resumed_of_alive (alive_of_resumed h)
  refine ⟨h, ?_, fun t => ?_⟩
  · rw [hstate]
    simp
  · show s.resumed.atBreakpoint.get? t = none
    rw [hat]
    rfl

theorem Recorded.same (h : s.Recorded known events) (hst : s.SameStops t) :
    t.Recorded known events where
  alive := by rw [Alive, hst.state]; exact h.alive
  suspended := by rw [hst.state]; exact h.suspended
  threads := by rw [hst.atBreakpoint]; exact h.threads

theorem Recorded.snoc (h : s.Recorded known events) {e : TargetEvent} {note : Option StopNote}
    (he : e.Noted known note) (hst : s.Takes note t) : t.Recorded known (events ++ [e]) := by
  have hmem : (∃ e' ∈ events ++ [e], e'.isStop = true) ↔
      (∃ e' ∈ events, e'.isStop = true) ∨ e.isStop = true := by
    simp [or_and_right, exists_or]
  -- an event that stops no thread changes nothing
  have hquiet (hnone : note = none) (hstop : e.isStop = false)
      (hhit : ∀ u, lastHit u (events ++ [e]) = lastHit u events) :
      t.Recorded known (events ++ [e]) := by
    subst hnone
    have hs := h.same hst
    refine ⟨hs.alive, ?_, fun u => ?_⟩
    · rw [hmem, hstop]
      simpa using hs.suspended
    · rw [hhit]
      exact hs.threads u
  have hstopped (n : StopNote) (hn : note = some n) : t.Alive ∧ t.state = .suspended ∧
      t.atBreakpoint = (s.stopped n.1 n.2).atBreakpoint := by
    subst hn
    obtain ⟨hstate, -⟩ := stopped_of_alive h.alive n
    have hst : (s.stopped n.1 n.2).SameStops t := hst
    rw [Alive, hst.state, hst.atBreakpoint, hstate]
    exact ⟨rfl, rfl, rfl⟩
  cases e with
  | breakpoint r u l =>
    obtain ⟨id, hid, hn⟩ := he
    obtain ⟨halive, hstate, hat⟩ := hstopped _ hn
    have hinsert : t.atBreakpoint = s.atBreakpoint.insert u id :=
      hat.trans (stopped_of_alive h.alive (u, some id)).2
    refine ⟨halive, ?_, fun v => ?_⟩
    · rw [hmem, hstate]
      simp [TargetEvent.isStop]
    · rw [lastHit, List.foldl_append, hinsert]
      simp only [List.foldl_cons, List.foldl_nil, Dict.get?_insert]
      by_cases hv : v = u
      · rw [if_pos hv, if_pos hv.symm]
        exact ⟨id, hid, rfl⟩
      · rw [if_neg hv, if_neg (Ne.symm hv)]
        exact h.threads v
  | step r u l | exception r u l thrown catchAt =>
    obtain ⟨halive, hstate, hat⟩ := hstopped _ he
    have hsame : t.atBreakpoint = s.atBreakpoint :=
      hat.trans (stopped_of_alive h.alive (u, none)).2
    refine ⟨halive, ?_, fun v => ?_⟩
    · rw [hmem, hstate]
      simp [TargetEvent.isStop]
    · rw [lastHit, List.foldl_append, hsame]
      exact h.threads v
  | vmStart | threadStart | threadDeath | classPrepare | vmDeath =>
    exact hquiet he rfl fun u => by rw [lastHit, List.foldl_append]; rfl

end Session

/-! ## The loop -/

/-- Whatever the loop is in the middle of ends with the note of its event. -/
def Loop.Noting (known : Knowledge) : Loop → Prop
  | handling _ e now _ => ∃ note, e.Noted known note ∧ Notes note now
  | resuming now => ∃ set, now = Session.resumeAfter set
  | _ => True

/-- A step of the loop either notes the first of the events that are not noted, or notes none. -/
structure Loop.Advances (known : Knowledge) (l : Loop) (s : Session) (vm : Vm) (l' : Loop)
    (s' : Session) (vm' : Vm) : Prop where
  noting : l'.Noting known
  notes : l.unnoted ++ vm.unread = l'.unnoted ++ vm'.unread ∧ s.SameStops s' ∨
    ∃ e note, l.unnoted ++ vm.unread = e :: (l'.unnoted ++ vm'.unread) ∧ e.Noted known note ∧
      s.Takes note s'

namespace Loop
variable {known : Knowledge}

theorem Advances.mem_unnoted {l l' : Loop} {s s' : Session} {vm vm' : Vm}
    (h : Advances known l s vm l' s' vm') {e : TargetEvent} (he : e ∈ l'.unnoted ++ vm'.unread) :
    e ∈ l.unnoted ++ vm.unread := by
  rcases h.notes with ⟨h, -⟩ | ⟨e', note, h, -⟩
  · rwa [h]
  · rw [h]
    exact List.mem_cons_of_mem _ he

theorem afterEvent_advances (set : EventSet) {e : TargetEvent} (later : List TargetEvent)
    {note : Option StopNote} {m : Task Session Bool} {s s' : Session} (hnote : e.Noted known note)
    (hm : s.SameStops s' ∧ Notes note m ∨
      ∃ n : StopNote, note = some n ∧ (s.stopped n.1 n.2).SameStops s' ∧ m = .done true) :
    (afterEvent set e later m).Noting known ∧
      ((afterEvent set e later m).unnoted = e :: later ∧ s.SameStops s' ∨
        (afterEvent set e later m).unnoted = later ∧ s.Takes note s') := by
  rcases hm with ⟨hsame, hm⟩ | ⟨n, rfl, hstop, rfl⟩
  · cases m with
    | done goesOn =>
      obtain ⟨rfl, rfl⟩ := hm
      exact ⟨trivial, .inr ⟨rfl, hsame⟩⟩
    | request c k => exact ⟨⟨note, hnote, hm⟩, .inl ⟨rfl, hsame⟩⟩
    | update f k => exact ⟨⟨note, hnote, hm⟩, .inl ⟨rfl, hsame⟩⟩
  · exact ⟨trivial, .inr ⟨rfl, hstop⟩⟩

theorem resumeAfter_advance (set : EventSet) (s : Session) :
    (Session.resumeAfter set).advance s = (Session.resumeAfter set, s) := by
  simp only [Session.resumeAfter]
  split <;> rfl

theorem afterResume_noting (known : Knowledge) (set : EventSet) :
    (afterResume (Session.resumeAfter set)).Noting known ∧
      (afterResume (Session.resumeAfter set)).unnoted = [] := by
  exact of_afterResume (P := fun l => l.Noting known ∧ l.unnoted = []) ⟨⟨set, rfl⟩, rfl⟩
    fun _ _ => ⟨⟨trivial, rfl⟩, trivial, rfl⟩

theorem resumeAfter_move (set : EventSet) (s : Session) (vm : Vm) :
    ((Session.resumeAfter set).move Vm.serve s vm).1 = .done true ∧
      ((Session.resumeAfter set).move Vm.serve s vm).2.1 = s := by
  simp only [Session.resumeAfter]
  split <;> exact ⟨rfl, rfl⟩

theorem step_advances {l : Loop} {s : Session} {vm : Vm} (hl : l.Noting known)
    (hknown : ∀ r, known r (Session.recordHit r s).1)
    (hcalm : ∀ e ∈ l.unnoted ++ vm.unread, e.isCalm = true) (hhang : .hangUp ∉ vm.reports) :
    Advances known l s vm (l.step s vm).1 (l.step s vm).2.1 (l.step s vm).2.2 := by
  cases l with
  | reading =>
    simp only [step]
    cases hr : vm.reports with
    | nil => exact ⟨trivial, .inl ⟨rfl, .rfl⟩⟩
    | cons r reports =>
      cases r with
      | events set => exact ⟨trivial, .inl ⟨Vm.unread_cons hr, .rfl⟩⟩
      | hangUp => exact absurd (by simp [hr]) hhang
  | ready set later =>
    cases later with
    | nil =>
      simp only [step, resumeAfter_advance]
      obtain ⟨hnoting, hunnoted⟩ := afterResume_noting known set
      exact ⟨hnoting, .inl ⟨by rw [hunnoted]; rfl, .rfl⟩⟩
    | cons e later =>
      obtain ⟨m, t, hadvance, hst, hm⟩ :=
        Session.handleEvent_notes (hcalm e (by simp [unnoted])) s
      simp only [step, hadvance]
      have hnote := TargetEvent.noted_note hknown e
      have hnotes : s.SameStops (m.advance t).2 ∧ Notes (e.note s) (m.advance t).1 ∨
          ∃ n : StopNote, e.note s = some n ∧ (s.stopped n.1 n.2).SameStops (m.advance t).2 ∧
            (m.advance t).1 = .done true := by
        rcases hm.advance t with ⟨hsame, hrest⟩ | ⟨n, hn, hstop, hend⟩
        · exact .inl ⟨hst.trans hsame, hrest⟩
        · exact .inr ⟨n, hn, (hst.stopped n).trans hstop, hend⟩
      obtain ⟨hnoting, hcases⟩ := afterEvent_advances set later hnote hnotes
      refine ⟨hnoting, ?_⟩
      rcases hcases with ⟨h, hsame⟩ | ⟨h, htakes⟩
      · refine .inl ⟨?_, hsame⟩
        rw [h]
        rfl
      · refine .inr ⟨e, _, ?_, hnote, htakes⟩
        rw [h]
        rfl
  | handling set e now later =>
    obtain ⟨note, hnote, hm⟩ := hl
    have hunread := (move_undisturbed now s vm).unread
    obtain ⟨hnoting, hcases⟩ := afterEvent_advances set later hnote
      (hm.move Vm.serve s vm)
    refine ⟨hnoting, ?_⟩
    rcases hcases with ⟨h, hsame⟩ | ⟨h, htakes⟩
    · refine .inl ⟨?_, hsame⟩
      simp only [step, h, hunread]
      rfl
    · refine .inr ⟨e, note, ?_, hnote, htakes⟩
      simp only [step, h, hunread]
      rfl
  | resuming now =>
    obtain ⟨set, rfl⟩ := hl
    have hunread := (move_undisturbed (Session.resumeAfter set) s vm).unread
    obtain ⟨hend, hsame⟩ := resumeAfter_move set s vm
    simp only [step, hend, hsame]
    exact ⟨trivial, .inl ⟨by rw [hunread]; rfl, .rfl⟩⟩
  | ended => exact ⟨trivial, .inl ⟨rfl, .rfl⟩⟩

theorem hangUp_step {l : Loop} {s : Session} {vm : Vm} (h : .hangUp ∉ vm.reports) :
    .hangUp ∉ (l.step s vm).2.2.reports := by
  cases l with
  | reading =>
    simp only [step]
    cases hr : vm.reports with
    | nil => simp [hr]
    | cons r reports =>
      have hreports : .hangUp ∉ reports := fun hmem => h (by simp [hr, hmem])
      cases r <;> exact hreports
  | ready set later => cases later <;> exact h
  | handling set e now later =>
    simp only [step]
    rwa [(move_undisturbed now s vm).reports]
  | resuming now =>
    simp only [step]
    rwa [(move_undisturbed now s vm).reports]
  | ended => exact h

end Loop

/-! ## Scenes -/

namespace Happening

theorem isCalm_events {x : Happening} (hx : x.isCalm = true) (vm : Vm) :
    ∀ e ∈ x.events vm, e.isCalm = true := by
  intro e he
  cases x <;> simp only [events] at he
  case load t c =>
    split at he
    · cases he
    · obtain ⟨r, q, -, -, -, rfl⟩ := Vm.mem_eventsFor.1 he
      rfl
  case hit t l | finishStep t l | throw t l thrown catchAt =>
    obtain ⟨r, q, -, -, -, rfl⟩ := Vm.mem_eventsFor.1 he
    rfl
  case startThread name =>
    split at he
    · rw [List.mem_singleton.1 he]
      rfl
    · cases he
  case die | hangUp => cases hx

theorem hangUp_apply {x : Happening} (hx : x.isCalm = true) {vm : Vm} (h : .hangUp ∉ vm.reports) :
    .hangUp ∉ (x.apply vm).reports := by
  have hreport (vm : Vm) (h : .hangUp ∉ vm.reports) (events : List TargetEvent) :
      .hangUp ∉ (vm.reportAny events).2.reports := by
    simp only [Vm.reportAny]
    split
    · exact h
    · simpa [Vm.reportSet, Vm.report, Vm.setAllSuspended] using h
  cases x with
  | load t c =>
    simp only [apply, Vm.loadClass]
    split
    · exact h
    · refine hreport _ ?_ _
      exact h
  | hit | finishStep | throw => exact hreport _ h _
  | startThread name =>
    simp only [apply, Vm.startThread]
    split
    · simpa [Vm.report, Vm.addThread, Vm.allocate] using h
    · exact h
  | die | hangUp => cases hx

end Happening

namespace Scene

/-- The loop notes what it handles, the operations in flight let the target run, and nothing that
ends the session is under way. -/
structure Watching (known : Knowledge) (c : Scene) : Prop where
  noting : c.loop.Noting known
  calls : ∀ m ∈ c.calls, (∃ r, m = .done r) ∨ LetsRun m
  alive : c.session.Alive
  calm : ∀ e ∈ c.unnoted, e.isCalm = true
  hangUp : .hangUp ∉ c.vm.reports

variable {known : Knowledge} {c : Scene}

theorem unnoted_go (c : Scene) (n : Nat) : (c.step (.go n)).unnoted = c.unnoted := by
  obtain ⟨hloop, hvm⟩ := c.step_go n
  rw [unnoted, unnoted, hloop, hvm.unread]

theorem unnoted_target (c : Scene) (x : Happening) :
    (c.step (.target x)).unnoted = c.unnoted ++ x.events c.vm := by
  show c.loop.unnoted ++ (x.apply c.vm).unread = _
  rw [x.unread_apply, unnoted, List.append_assoc]

theorem calm_target (hc : ∀ e ∈ c.unnoted, e.isCalm = true) {x : Happening}
    (hx : x.isCalm = true) : ∀ e ∈ (c.step (.target x)).unnoted, e.isCalm = true := by
  intro e he
  rw [unnoted_target] at he
  rcases List.mem_append.1 he with he | he
  · exact hc e he
  · exact Happening.isCalm_events hx _ e he

theorem Watching.loop (hc : c.Watching known)
    (hknown : ∀ r, known r (Session.recordHit r c.session).1) :
    Loop.Advances known c.loop c.session c.vm (c.step .loop).loop (c.step .loop).session
      (c.step .loop).vm :=
  Loop.step_advances hc.noting hknown hc.calm hc.hangUp

theorem step_go_done (hcalls : ∀ m ∈ c.calls, ∃ r, m = .done r) (n : Nat) :
    c.step (.go n) = c := by
  cases hn : c.calls[n]? with
  | none => exact step_go_none hn
  | some m =>
    obtain ⟨r, rfl⟩ := hcalls m (List.mem_of_getElem? hn)
    rw [step_go_some hn]
    obtain ⟨hlt, hget⟩ := List.getElem?_eq_some_iff.1 hn
    show { c with calls := c.calls.set n (.done r) } = c
    rw [← hget, List.set_getElem_self]

theorem Watching.step (hc : c.Watching known)
    (hknown : ∀ r, known r (Session.recordHit r c.session).1) {x : Choice}
    (hx : x.Within (fun o => o.letsRun) fun h => h.isCalm) : (c.step x).Watching known := by
  cases x with
  | call o =>
    refine ⟨hc.noting, fun m hm => ?_, hc.alive, hc.calm, hc.hangUp⟩
    rcases List.mem_append.1 hm with hm | hm
    · exact hc.calls m hm
    · rw [List.mem_singleton.1 hm]
      exact .inr (letsRun_operation hx)
  | go n =>
    obtain ⟨hloop, hvm⟩ := c.step_go n
    refine ⟨by rw [hloop]; exact hc.noting, ?_, ?_, by rw [unnoted_go]; exact hc.calm, ?_⟩
    · cases hn : c.calls[n]? with
      | none =>
        rw [step_go_none hn]
        exact hc.calls
      | some m =>
        rw [step_go_some hn]
        intro m' hm'
        rcases List.mem_or_eq_of_mem_set hm' with hm' | rfl
        · exact hc.calls m' hm'
        · rcases hc.calls m (List.mem_of_getElem? hn) with ⟨r, rfl⟩ | hm
          · exact .inl ⟨r, rfl⟩
          · rcases (hm.move Vm.serve c.session c.vm).2 with hm | ⟨hm, -⟩
            · exact .inr hm
            · exact .inl ⟨none, hm⟩
    · cases hn : c.calls[n]? with
      | none =>
        rw [step_go_none hn]
        exact hc.alive
      | some m =>
        rw [step_go_some hn]
        rcases hc.calls m (List.mem_of_getElem? hn) with ⟨r, rfl⟩ | hm
        · exact hc.alive
        · exact (hm.move Vm.serve c.session c.vm).1 hc.alive
    · rw [hvm.reports]
      exact hc.hangUp
  | loop =>
    obtain ⟨hnoting, hnotes⟩ := hc.loop hknown
    refine ⟨hnoting, hc.calls, ?_, ?_, Loop.hangUp_step hc.hangUp⟩
    · rcases hnotes with ⟨-, hsame⟩ | ⟨e, note, -, -, htakes⟩
      · rw [Session.Alive, hsame.state]
        exact hc.alive
      · exact htakes.alive hc.alive
    · exact fun e he => hc.calm e ((hc.loop hknown).mem_unnoted he)
  | target h =>
    exact ⟨hc.noting, hc.calls, hc.alive, calm_target hc.calm hx,
      Happening.hangUp_apply hx hc.hangUp⟩

/-- Nothing is in flight, and nothing that ends the session has been reported. -/
structure Ready (c : Scene) : Prop where
  calls : ∀ m ∈ c.calls, ∃ r, m = .done r
  loop : c.loop = .reading
  alive : c.session.Alive
  calm : ∀ e ∈ c.vm.unread, e.isCalm = true
  hangUp : .hangUp ∉ c.vm.reports

theorem Ready.watching (hc : c.Ready) : c.Watching known where
  noting := by
    rw [hc.loop]
    trivial
  calls m hm := .inl (hc.calls m hm)
  alive := hc.alive
  calm := by
    rw [unnoted, hc.loop]
    exact hc.calm
  hangUp := hc.hangUp

theorem Watching.run (hc : c.Watching known) {choices : List Choice}
    (hchoices : ∀ x ∈ choices, x.Within (fun o => o.letsRun) fun h => h.isCalm)
    (hknown : ∀ xs, xs <+: choices → ∀ r, known r (Session.recordHit r (c.run xs).session).1) :
    (c.run choices).Watching known := by
  refine run_induction c choices hc fun xs x hxs hwatching => ?_
  refine hwatching.step (hknown xs ((List.prefix_append _ _).trans hxs)) (hchoices x ?_)
  exact hxs.subset (by simp)

/-- From the moment when all stops are forgotten and nothing but the loop goes on, exactly the
events that were not noted then, and those reported since, are noted. -/
theorem recorded_run (hc : c.Watching known) (hcalls : ∀ m ∈ c.calls, ∃ r, m = .done r)
    (hforgot : c.session.Recorded known []) {choices : List Choice}
    (hchoices : ∀ x ∈ choices, x.Within (fun _ => False) fun h => h.isCalm)
    (hknown : ∀ xs, xs <+: choices → ∀ r, known r (Session.recordHit r (c.run xs).session).1) :
    (∀ m ∈ (c.run choices).calls, ∃ r, m = .done r) ∧
      ∃ events, c.unnoted ++ c.reported choices = events ++ (c.run choices).unnoted ∧
        (c.run choices).session.Recorded known events := by
  have hletsRun : ∀ x ∈ choices, x.Within (fun o => o.letsRun) fun h => h.isCalm := by
    intro x hx
    have := hchoices x hx
    cases x with
    | call o => exact this.elim
    | go | loop | target => exact this
  induction choices using List.reverseRecOn with
  | nil => exact ⟨hcalls, [], List.append_nil _, hforgot⟩
  | append_singleton xs x ih =>
    have hpre : xs <+: xs ++ [x] := List.prefix_append _ _
    have hwatching := hc.run (fun y hy => hletsRun y (hpre.subset hy))
      fun ys hys => hknown ys (hys.trans hpre)
    obtain ⟨hdone, events, hevents, hrecorded⟩ := ih (fun y hy => hchoices y (hpre.subset hy))
      (fun ys hys => hknown ys (hys.trans hpre)) fun y hy => hletsRun y (hpre.subset hy)
    rw [run_append, reported_snoc, ← List.append_assoc, hevents]
    show (∀ m ∈ ((c.run xs).step x).calls, _) ∧ ∃ events', _ ++ _ =
      events' ++ ((c.run xs).step x).unnoted ∧ ((c.run xs).step x).session.Recorded known events'
    cases x with
    | call o => exact (hchoices (.call o) (by simp)).elim
    | go n =>
      rw [step_go_done hdone]
      exact ⟨hdone, events, List.append_nil _, hrecorded⟩
    | loop =>
      refine ⟨hdone, ?_⟩
      rcases (hwatching.loop (hknown xs hpre)).notes with ⟨h, hsame⟩ | ⟨e, note, h, hnote, htakes⟩
      · refine ⟨events, ?_, hrecorded.same hsame⟩
        rw [unnoted, h]
        exact List.append_nil _
      · refine ⟨events ++ [e], ?_, hrecorded.snoc hnote htakes⟩
        rw [unnoted, h]
        simp [Choice.events, unnoted]
    | target h =>
      refine ⟨hdone, events, ?_, hrecorded⟩
      rw [unnoted_target, List.append_assoc]
      rfl

/-- An operation that let the target run forgets all stops with its last step. -/
theorem Watching.ends (hc : c.Watching known) {n : Nat}
    (hothers : ∀ i m, c.calls[i]? = some m → i ≠ n → ∃ r, m = .done r)
    (hending : ∀ r, c.calls[n]? ≠ some (.done r))
    (hended : (c.step (.go n)).calls[n]? = some (.done none)) :
    (∀ m ∈ (c.step (.go n)).calls, ∃ r, m = .done r) ∧
      ∃ s : Session, (c.step (.go n)).session = s.resumed := by
  cases hn : c.calls[n]? with
  | none =>
    rw [step_go_none hn, hn] at hended
    cases hended
  | some m =>
    have hlt := (List.getElem?_eq_some_iff.1 hn).1
    rcases hc.calls m (List.mem_of_getElem? hn) with ⟨r, rfl⟩ | hm
    · exact absurd hn (hending r)
    · simp only [step_go_some hn] at hended ⊢
      rw [List.getElem?_set_self hlt, Option.some.injEq] at hended
      refine ⟨fun m' hm' => ?_, ?_⟩
      · obtain ⟨i, hi⟩ := List.mem_iff_getElem?.1 hm'
        by_cases hin : n = i
        · subst hin
          rw [List.getElem?_set_self hlt, hended] at hi
          exact ⟨none, (Option.some.inj hi).symm⟩
        · rw [List.getElem?_set_ne hin] at hi
          exact hothers i m' hi (Ne.symm hin)
      · rcases (hm.move Vm.serve c.session c.vm).2 with hm' | ⟨-, hs⟩
        · rw [hended] at hm'
          exact absurd rfl hm'
        · exact hs

/-- After an operation that let the target run has ended, and once everything is handled, the session
is suspended if and only if some stop was not noted when it ended, or was reported since; a thread
is at the breakpoint of the last such hit, if there is one. -/
theorem stopped_iff_not_noted {n : Nat} {before after : List Choice} (hc : c.Ready)
    (hbefore : ∀ x ∈ before, x.Within (fun o => o.letsRun) fun h => h.isCalm)
    (hothers : ∀ i m, (c.run before).calls[i]? = some m → i ≠ n → ∃ r, m = .done r)
    (hending : ∀ r, (c.run before).calls[n]? ≠ some (.done r))
    (hended : ((c.run before).step (.go n)).calls[n]? = some (.done none))
    (hafter : ∀ x ∈ after, x.Within (fun _ => False) fun h => h.isCalm)
    (hsettled : (c.run (before ++ .go n :: after)).Settled) :
    let ended := (c.run before).step (.go n)
    let events := ended.unnoted ++ ended.reported after
    let final := (c.run (before ++ .go n :: after)).session
    (final.state = .suspended ↔ ∃ e ∈ events, e.isStop = true) ∧
      ∀ t, match lastHit t events with
        | none => final.atBreakpoint.get? t = none
        | some r => ∃ xs, xs <+: before ++ .go n :: after ∧
          final.atBreakpoint.get? t = some (Session.recordHit r (c.run xs).session).1 := by
  intro ended events final
  let known : Knowledge := fun r id => ∃ xs, xs <+: before ++ .go n :: after ∧
    id = (Session.recordHit r (c.run xs).session).1
  have hknown (xs : List Choice) (hxs : xs <+: before ++ .go n :: after) (r : Option RequestId) :
      known r (Session.recordHit r (c.run xs).session).1 := ⟨xs, hxs, rfl⟩
  have hpre : before <+: before ++ .go n :: after := List.prefix_append _ _
  have hwatching : (c.run before).Watching known :=
    hc.watching.run hbefore fun xs hxs => hknown xs (hxs.trans hpre)
  have hwatching' : ended.Watching known := by
    refine hwatching.step (hknown before hpre) ?_
    trivial
  obtain ⟨hdone, s, hs⟩ := hwatching.ends hothers hending hended
  have hrecorded : ended.session.Recorded known [] := by
    have := hwatching'.alive
    rw [hs] at this ⊢
    exact Session.recorded_resumed this
  have hrun (xs : List Choice) : c.run (before ++ .go n :: xs) = ended.run xs := run_append _ _ _
  obtain ⟨-, noted, hnoted, hfinal⟩ := recorded_run hwatching' hdone hrecorded hafter
    fun xs hxs => by
      rw [← hrun]
      exact hknown _ (List.prefix_append_right_inj _ |>.2 (List.cons_prefix_cons.2 ⟨rfl, hxs⟩))
  have hnone : (ended.run after).unnoted = [] := by
    rw [← hrun, unnoted, hsettled.loop, Vm.unread, hsettled.reports]
    rfl
  rw [hnone, List.append_nil] at hnoted
  have hfinal : final.Recorded known events := by
    show (c.run (before ++ .go n :: after)).session.Recorded known events
    rw [hrun]
    rw [← hnoted] at hfinal
    exact hfinal
  refine ⟨hfinal.suspended, fun t => ?_⟩
  have := hfinal.threads t
  cases hlast : lastHit t events with
  | none =>
    rw [hlast] at this
    exact this
  | some r =>
    rw [hlast] at this
    obtain ⟨id, ⟨xs, hxs, rfl⟩, hget⟩ := this
    exact ⟨xs, hxs, hget⟩

def withBreakpoint : Scene :=
  sample.run [.target (.load 1 2), .call (.addBreakpoint "app.Main" (.line 7) none),
    .go 0, .go 0, .go 0, .go 0, .go 0]

theorem ready_withBreakpoint : withBreakpoint.Ready := by
  have hcalls : withBreakpoint.calls = [.done none] := rfl
  have hreports : withBreakpoint.vm.reports = [] := rfl
  refine ⟨?_, rfl, rfl, ?_, ?_⟩
  · simp [hcalls]
  · simp [Vm.unread, hreports]
  · simp [hreports]

/-- A thread hits the breakpoint after the target was resumed, and the loop begins to handle it. -/
def hitAfterResume : List Choice :=
  [.call .resume, .go 1, .go 1, .target (.hit 1 ⟨1, 2, 3, 0⟩), .loop, .loop, .loop, .loop]

theorem calls_hitAfterResume :
    ∃ m : Task Session (Option DebugError), (∀ r, m ≠ .done r) ∧
      (withBreakpoint.run hitAfterResume).calls = [.done none, m] := by
  refine ⟨.update Session.resumed fun _ => .done none, fun r h => ?_, rfl⟩
  cases h

theorem suspended_hitAfterResume :
    (withBreakpoint.run (hitAfterResume ++ .go 1 :: [.loop, .loop])).session.state =
      .suspended := by
  obtain ⟨m, hm, hcalls⟩ := calls_hitAfterResume
  have hsettled : (withBreakpoint.run (hitAfterResume ++ .go 1 :: [.loop, .loop])).Settled := by
    have hdone : (withBreakpoint.run (hitAfterResume ++ .go 1 :: [.loop, .loop])).calls =
        [.done none, .done none] := rfl
    refine ⟨?_, rfl, rfl⟩
    simp [hdone]
  refine (stopped_iff_not_noted ready_withBreakpoint ?_ ?_ ?_ rfl ?_ hsettled).1.2
    ⟨.breakpoint (some 3) 1 ⟨1, 2, 3, 0⟩, ?_, rfl⟩
  · simp [hitAfterResume, Choice.Within, Operation.letsRun, Happening.isCalm]
  · intro i m' hi hne
    rw [hcalls] at hi
    match i, hi with
    | 0, hi => exact ⟨none, (Option.some.inj hi).symm⟩
    | 1, _ => exact absurd rfl hne
    | i + 2, hi => cases hi
  · intro r hr
    rw [hcalls] at hr
    exact hm r (Option.some.inj hr)
  · simp [Choice.Within]
  · exact List.mem_append_left _ (List.mem_append_left _ List.mem_cons_self)

/-- A stop that comes after the target was resumed can be forgotten. -/
theorem not_suspended_after_each_stop :
    ¬∀ (c : Scene) (o : Operation) (n : Nat) (before between after : List Choice) (h : Happening)
        (k : Call.Reply .resumeAll → Task Session (Option DebugError)), c.Ready → o.letsRun →
      (∀ x ∈ before ++ between ++ .target h :: after,
        x.Within (fun _ => False) fun h => h.isCalm) →
      (c.run (.call o :: before)).calls[n]? = some (.request .resumeAll k) →
      (∃ e ∈ h.events (c.run (.call o :: before ++ .go n :: between)).vm, e.isStop = true) →
      (c.run (.call o :: before ++ .go n :: between ++ .target h :: after)).Settled →
      (c.run (.call o :: before ++ .go n :: between ++ .target h :: after)).session.state =
        .suspended := by
  intro h
  have hstate := h withBreakpoint .resume 1 [.go 1] [] [.loop, .loop, .loop, .loop, .loop, .loop, .go 1]
    (.hit 1 ⟨1, 2, 3, 0⟩) _ ready_withBreakpoint rfl ?_ rfl
    ⟨.breakpoint (some 3) 1 ⟨1, 2, 3, 0⟩, List.mem_cons_self, rfl⟩ ?_
  · cases hstate
  · simp [Choice.Within, Happening.isCalm]
  · refine ⟨?_, rfl, rfl⟩
    have hdone : (withBreakpoint.run (.call .resume :: [.go 1] ++ .go 1 :: [] ++
        .target (.hit 1 ⟨1, 2, 3, 0⟩) :: [.loop, .loop, .loop, .loop, .loop, .loop, .go 1])).calls =
        [.done none, .done none] := rfl
    simp only [hdone]
    simp

end Scene

end JvmDebug
