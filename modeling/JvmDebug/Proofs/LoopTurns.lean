import JvmDebug.Proofs.Exchanges
import JvmDebug.Proofs.Installing
import JvmDebug.Proofs.QuietSteps
import Mathlib.Data.List.Forall2

/-!
What a session's event loop makes of what it reads, however its calls are answered. The loop takes
its readings turn by turn: it tells the user about the events that matter to him, passes a set
without stops on to be resumed when it is through with it, and ends with the death of the machine
or the loss of the connection.
-/
namespace JvmDebug

/-! ## Turns -/

/-- Up to the death of the machine. -/
def untilDeath : List TargetEvent → List TargetEvent
  | [] => []
  | e :: es => if e = .vmDeath then [e] else e :: untilDeath es

theorem mem_untilDeath (events : List TargetEvent) :
    .vmDeath ∈ untilDeath events ↔ .vmDeath ∈ events := by
  induction events with
  | nil => rfl
  | cons e es ih =>
    by_cases he : e = .vmDeath
    · simp [untilDeath, he]
    · simp [untilDeath, he, ih]

theorem untilDeath_eq {events : List TargetEvent} (h : .vmDeath ∈ events) :
    ∃ before, untilDeath events = before ++ [.vmDeath] ∧ .vmDeath ∉ before := by
  induction events with
  | nil => cases h
  | cons e es ih =>
    by_cases he : e = .vmDeath
    · exact ⟨[], by simp [untilDeath, he], by simp⟩
    · have hmem : .vmDeath ∈ es := by
        rcases List.mem_cons.1 h with h | h
        · exact absurd h.symm he
        · exact h
      obtain ⟨before, hsplit, hbefore⟩ := ih hmem
      refine ⟨e :: before, by rw [untilDeath, if_neg he, hsplit, List.cons_append], ?_⟩
      simp [Ne.symm he, hbefore]

def TargetEvent.isTold : TargetEvent → Bool
  | vmStart _ | classPrepare .. => false
  | _ => true

namespace Payload

/-- What the user is told about an event. -/
def Tells : Payload → TargetEvent → Prop
  | breakpointHit _ place, .breakpoint _ t _ => place.threadId = t
  | stepCompleted place, .step _ t _ => place.threadId = t
  | exceptionThrown name _ caught place, .exception _ t _ thrown catchAt =>
    name = thrown.runtimeType ∧ caught = catchAt.isSome ∧ place.threadId = t
  | threadStart u _, .threadStart t => u = t
  | threadDeath u _, .threadDeath t => u = t
  | vmDeath code, .vmDeath => code = 0
  | _, _ => False

theorem Tells.isTold {p : Payload} {e : TargetEvent} (h : p.Tells e) : e.isTold := by
  cases e with
  | vmStart | classPrepare => cases p <;> exact h.elim
  | _ => rfl

def isFinal : Payload → Bool
  | vmDeath _ | vmDisconnect _ => true
  | _ => false

end Payload

def isLoss {α : Type} : Except TargetError α → Bool
  | .ok _ => false
  | .error e => e.isDisconnect

/-- What the loop has read, what it has told about it, and the answer to the call that resumes the
set, if it was made. -/
structure LoopTurn where
  reading : Reading
  told : List Payload
  answer : Option (Except TargetError Unit)

namespace LoopTurn

def set? (x : LoopTurn) : Option EventSet := x.reading.toOption.join

def events (x : LoopTurn) : List TargetEvent := (x.set?.map EventSet.events).getD []

def isDeath (x : LoopTurn) : Bool := x.events.contains .vmDeath

def isLost (x : LoopTurn) : Bool := isLoss x.reading || x.answer.any isLoss

def isStop (x : LoopTurn) : Bool := (untilDeath x.events).any TargetEvent.isStop

def isEnd (x : LoopTurn) : Bool := x.isDeath || x.isLost

@[simp] theorem events_set (set : EventSet) (told : List Payload)
    (answer : Option (Except TargetError Unit)) :
    (LoopTurn.mk (.ok (some set)) told answer).events = set.events := rfl

@[simp] theorem isLost_ok (set : Option EventSet) (told : List Payload)
    (answer : Option (Except TargetError Unit)) :
    (LoopTurn.mk (.ok set) told answer).isLost = answer.any isLoss := rfl

def payloads (x : LoopTurn) : List Payload :=
  x.told ++ if x.isLost then [.vmDisconnect "VM disconnected"] else []

def resumed? (x : LoopTurn) : Option (EventSet × Except TargetError Unit) := do
  return (← x.set?, ← x.answer)

/-- Each event that matters is told about, and the set is resumed if all of it was handled and no
stop was among it. -/
structure Fair (x : LoopTurn) : Prop where
  tells : List.Forall₂ Payload.Tells x.told ((untilDeath x.events).filter TargetEvent.isTold)
  resumed : x.answer.isSome = (x.set?.any EventSet.shouldResume && !x.isDeath)

/-- The event that the loop ends with. -/
def finale (turns : List LoopTurn) : Option Payload :=
  if turns.any isDeath then some (.vmDeath 0)
  else if turns.any isLost then some (.vmDisconnect "VM disconnected")
  else none

end LoopTurn

def SessionState.after (turns : List LoopTurn) (state : SessionState) : SessionState :=
  match LoopTurn.finale turns with
  | some (.vmDeath _) => .terminated
  | some _ => .disconnected
  | none => if turns.any LoopTurn.isStop then .suspended else state

namespace Session

/-- All that the emitting of events reads and writes. -/
def outgoing (s : Session) :
    (String × UInt64 × List (UInt64 × String)) × EventBuffer × UInt64 ×
      List (String × UInt64 × EventKind) :=
  ((s.id, s.clock, s.listeners), s.events, s.sequence, s.heard)

/-- As far as events go, the session has emitted these and done nothing else. -/
def Emits (s : Session) (payloads : List Payload) (t : Session) : Prop :=
  t.outgoing = (payloads.foldl emit s).outgoing

end Session

def resumedSet? : ((c : Call) × c.Reply) → Option (EventSet × Except TargetError Unit)
  | ⟨.resumeEventSet set, reply⟩ => some (set, reply)
  | _ => none

/-- How the loop of session `s` got along with its readings: it took them in turn, all of them if it
goes on and otherwise up to a turn that ended it. It emitted what it told in these turns, the end
last, and passed each set to be resumed once. -/
structure TurnsTaken (readings : List Reading) (turns : List LoopTurn) (s : Session)
    (goesOn : Bool) (t : Session) (log : List ((c : Call) × c.Reply)) : Prop where
  read : turns.map LoopTurn.reading <+: readings
  readAll : goesOn = true → turns.map LoopTurn.reading = readings
  goesOn : goesOn = !turns.any LoopTurn.isEnd
  goOn : ∀ x ∈ turns.dropLast, x.isEnd = false
  fair : ∀ x ∈ turns, x.Fair
  emitted : s.Emits (turns.flatMap LoopTurn.payloads) t
  finale : ∃ before, turns.flatMap LoopTurn.payloads = before ++ (LoopTurn.finale turns).toList ∧
    ∀ p ∈ before, p.isFinal = false
  resumed : log.filterMap resumedSet? = turns.filterMap LoopTurn.resumed?
  state : t.state = s.state.after turns

/-! ## Emitting -/

namespace Session
variable {s t u : Session} {told more : List Payload}

theorem outgoing_emit (h : t.outgoing = s.outgoing) (p : Payload) :
    (t.emit p).outgoing = (s.emit p).outgoing := by
  simp only [outgoing, Prod.mk.injEq] at h
  obtain ⟨⟨hid, hclock, hlisteners⟩, hevents, hsequence, hheard⟩ := h
  simp [outgoing, emit, hid, hclock, hlisteners, hevents, hsequence, hheard]

theorem outgoing_foldl_emit (h : t.outgoing = s.outgoing) (told : List Payload) :
    (told.foldl emit t).outgoing = (told.foldl emit s).outgoing := by
  induction told generalizing s t with
  | nil => exact h
  | cons p told ih => exact ih (outgoing_emit h p)

theorem Emits.nil (h : t.outgoing = s.outgoing) : s.Emits [] t := h

theorem Emits.single (h : t.outgoing = s.outgoing) (p : Payload) : s.Emits [p] (t.emit p) :=
  outgoing_emit h p

theorem Emits.append (h : s.Emits told t) (h' : t.Emits more u) : s.Emits (told ++ more) u := by
  have h' : u.outgoing = _ := h'
  have hfold := outgoing_foldl_emit h more
  rw [← List.foldl_append] at hfold
  exact h'.trans hfold

end Session

/-! ## Events -/

open Routine

namespace Session

/-- Nothing is said, stopped or ended. -/
structure Silent (s t : Session) : Prop where
  outgoing : t.outgoing = s.outgoing
  state : t.state = s.state
  stopping : t.stopping = s.stopping

variable {s t u : Session}

theorem Silent.rfl : s.Silent s := ⟨Eq.refl _, Eq.refl _, Eq.refl _⟩

theorem Rebooked.silent (h : s.Rebooked t) : s.Silent t := by
  have h : t = { s with breakpoints := t.breakpoints } := h
  rw [h]
  exact ⟨Eq.refl _, Eq.refl _, Eq.refl _⟩

/-- What becomes of a live session with these events. -/
structure Reacts (s : Session) (events : List TargetEvent) (told : List Payload) (t : Session) :
    Prop where
  tells : List.Forall₂ Payload.Tells told (events.filter TargetEvent.isTold)
  emitted : s.Emits told t
  stopping : t.stopping = s.stopping
  state : t.state = if .vmDeath ∈ events then .terminated
    else if events.any TargetEvent.isStop then .suspended else s.state

theorem Silent.reacts (h : s.Silent t) : s.Reacts [] [] t :=
  ⟨.nil, h.outgoing, h.stopping, by simp [h.state]⟩

theorem Reacts.append {events more : List TargetEvent} {told later : List Payload}
    (h : s.Reacts events told t) (hdeath : .vmDeath ∉ events) (h' : t.Reacts more later u) :
    s.Reacts (events ++ more) (told ++ later) u := by
  refine ⟨?_, h.emitted.append h'.emitted, h'.stopping.trans h.stopping, ?_⟩
  · rw [List.filter_append]
    exact List.rel_append h.tells h'.tells
  · rw [h'.state, h.state]
    by_cases hstop : events.any TargetEvent.isStop <;>
      by_cases hlater : more.any TargetEvent.isStop <;>
      simp [hdeath, hstop, hlater]

/-- The answer of a step that makes no call to resume. -/
def Handles (events : List TargetEvent) (s : Session) (goesOn : Bool) (t : Session)
    (log : List ((c : Call) × c.Reply)) : Prop :=
  goesOn = !events.contains .vmDeath ∧ log.filterMap resumedSet? = [] ∧ ∃ told, s.Reacts events told t

theorem resumedSet_of_installs {log : List ((c : Call) × c.Reply)}
    (h : ∀ x ∈ log, x.1.installs) : log.filterMap resumedSet? = [] := by
  rw [List.filterMap_eq_nil_iff]
  rintro ⟨c, reply⟩ hx
  have hc := h _ hx
  cases c with
  | resumeEventSet set => cases hc
  | _ => rfl

theorem always_inspects {α : Type} {m : Task Session α} (hm : Inspects m) (s : Session) :
    Always (fun _ t log => t = s ∧ log.filterMap resumedSet? = []) m s := by
  have hsame : m.Within (fun c => c.inspects) fun s t => t = s :=
    hm.mono (fun _ hc => hc) fun _ _ hf => hf.elim
  refine (always_of_within hsame (fun _ => rfl) (fun _ _ _ h h' => h'.trans h) s).mono ?_
  intro _ t log h
  exact ⟨h.1, resumedSet_of_installs fun x hx => Call.installs_of_inspects (h.2 x hx)⟩

theorem always_threadPlace (t : ThreadId) (l : Location) (s : Session) :
    Always (fun place u log => place.threadId = t ∧ u = s ∧ log.filterMap resumedSet? = [])
      (threadPlace t l) s := by
  refine always_bind ((always_inspects (inspects_placeOf l) s).mono ?_)
  rintro place u log ⟨rfl, hlog⟩
  refine always_bind ((always_inspects (inspects_threadName t) u).mono ?_)
  rintro name _ more ⟨rfl, hmore⟩
  exact ⟨rfl, rfl, by simp [hlog, hmore]⟩

/-- A routine that has looked around ends with one update. -/
theorem always_update {α : Type} {P : α → Prop} {m : Task Session α} {f : α → Session → Session}
    (hm : Always (fun a t log => P a ∧ t = s ∧ log.filterMap resumedSet? = []) m s) :
    Always (fun goesOn t log =>
        goesOn = true ∧ log.filterMap resumedSet? = [] ∧ ∃ a, P a ∧ t = f a s)
      (Routine.bind m fun a => Routine.bind (Routine.modify (f a)) fun _ => done true) s := by
  refine always_bind (hm.mono ?_)
  rintro a _ log ⟨ha, rfl, hlog⟩
  exact ⟨rfl, by simpa using hlog, a, ha, rfl⟩

theorem reacts_quiet {e : TargetEvent} (he : e.isTold = false) (h : s.Silent t) :
    s.Reacts [e] [] t := by
  refine ⟨?_, h.outgoing, h.stopping, ?_⟩
  · rw [List.filter_cons_of_neg (by simp [he])]
    exact .nil
  · rw [h.state]
    cases e with
    | vmStart | classPrepare => simp [TargetEvent.isStop]
    | _ => cases he

theorem enter_live (h : s.state.isTerminal = false) (next : SessionState) :
    s.enter next = { s with state := next } := by
  simp [enter, h]

theorem reacts_stop {e : TargetEvent} {p : Payload} (he : e.isStop) (hp : p.Tells e)
    (hlive : s.state.isTerminal = false) (h : s.Silent t) (thread : ThreadId)
    (breakpoint : Option (Option String)) :
    s.Reacts [e] [p] ((t.stopped thread breakpoint).emit p) := by
  have hstopped : t.stopped thread breakpoint = { t with
      atBreakpoint := (t.stopped thread breakpoint).atBreakpoint
      selection := ⟨some thread, 0⟩
      state := .suspended } := by
    simp [stopped, enter, h.state, hlive]
  have hdeath : e ≠ .vmDeath := by rintro rfl; cases he
  refine ⟨?_, ?_, ?_, ?_⟩
  · rw [List.filter_cons_of_pos hp.isTold]
    exact .cons hp .nil
  · apply Emits.single
    rw [hstopped]
    exact h.outgoing
  · rw [hstopped]
    exact h.stopping
  · rw [hstopped]
    simp [emit, he, hdeath.symm]

theorem reacts_thread {e : TargetEvent} {p : Payload} (hstop : e.isStop = false)
    (hdeath : e ≠ .vmDeath) (hp : p.Tells e) (h : s.Silent t) : s.Reacts [e] [p] (t.emit p) := by
  refine ⟨?_, .single h.outgoing p, h.stopping, ?_⟩
  · rw [List.filter_cons_of_pos hp.isTold]
    exact .cons hp .nil
  · simp [emit, hstop, hdeath.symm, h.state]

theorem always_reportHit (id : Option String) (t : ThreadId) (l : Location) (s : Session) :
    Always (fun goesOn u log => goesOn = true ∧ log.filterMap resumedSet? = [] ∧
        ∃ place : ThreadPlace, place.threadId = t ∧
          u = (s.stopped t (some id)).emit (.breakpointHit id place)) (reportHit id t l) s :=
  always_update (f := fun place s => (s.stopped t (some id)).emit (.breakpointHit id place))
    (always_threadPlace t l s)

theorem always_reportStep (t : ThreadId) (l : Location) (s : Session) :
    Always (fun goesOn u log => goesOn = true ∧ log.filterMap resumedSet? = [] ∧
        ∃ place : ThreadPlace, place.threadId = t ∧
          u = (s.stopped t none).emit (.stepCompleted place)) (reportStep t l) s :=
  always_update (f := fun place s => (s.stopped t none).emit (.stepCompleted place))
    (always_threadPlace t l s)

theorem always_handleEvent (hlive : s.state.isTerminal = false) (e : TargetEvent) :
    Always (Handles [e] s) (handleEvent e) s := by
  cases e with
  | vmStart t => exact ⟨rfl, rfl, [], reacts_quiet rfl .rfl⟩
  | breakpoint request t l =>
    rw [handleEvent_breakpoint]
    have hsilent : s.Silent (recordHit request s).2 := by cases request <;> exact ⟨rfl, rfl, rfl⟩
    refine (always_reportHit _ t l (recordHit request s).2).mono ?_
    rintro _ _ log ⟨rfl, hlog, place, hplace, rfl⟩
    exact ⟨rfl, hlog, _, reacts_stop (e := .breakpoint request t l)
      (p := .breakpointHit _ place) rfl hplace hlive hsilent t _⟩
  | step request t l =>
    rw [handleEvent_step]
    have hsilent : s.Silent (s.finishStep t request).2 := ⟨rfl, rfl, rfl⟩
    have hreport := always_reportStep t l (s.finishStep t request).2
    have htold : Always (Handles [.step request t l] s) (reportStep t l)
        (s.finishStep t request).2 := by
      refine hreport.mono ?_
      rintro _ _ log ⟨rfl, hlog, place, hplace, rfl⟩
      exact ⟨rfl, hlog, _, reacts_stop (e := .step request t l)
        (p := .stepCompleted place) rfl hplace hlive hsilent t none⟩
    simp only [Always]
    cases (s.finishStep t request).1 with
    | none => exact htold
    | some r => exact fun _ => htold
  | exception request t l thrown catchAt =>
    refine always_bind ((always_inspects (inspects_exceptionMessage thrown) s).mono ?_)
    rintro message u log ⟨rfl, hlog⟩
    refine (always_update (always_threadPlace t l u)).mono ?_
    rintro _ _ more ⟨rfl, hmore, place, hplace, rfl⟩
    refine ⟨rfl, by simp [hlog, hmore], _, reacts_stop
      (p := .exceptionThrown thrown.runtimeType message catchAt.isSome place) rfl ?_ hlive .rfl t none⟩
    exact ⟨rfl, rfl, hplace⟩
  | threadStart t =>
    have hname := (always_inspects (inspects_threadName t) s).mono fun name u log h =>
      (⟨trivial, h⟩ : True ∧ _)
    refine (always_update hname).mono ?_
    rintro _ _ log ⟨rfl, hlog, name, -, rfl⟩
    exact ⟨rfl, hlog, _, reacts_thread (p := .threadStart t name) rfl (by simp) rfl .rfl⟩
  | threadDeath t =>
    have hname := (always_inspects (inspects_threadName t) s).mono fun name u log h =>
      (⟨trivial, h⟩ : True ∧ _)
    refine (always_update hname).mono ?_
    rintro _ _ log ⟨rfl, hlog, name, -, rfl⟩
    exact ⟨rfl, hlog, _, reacts_thread (p := .threadDeath t name) rfl (by simp) rfl ⟨rfl, rfl, rfl⟩⟩
  | classPrepare request t c =>
    refine always_bind ((always_of_within (installs_classLoaded c) (fun _ => .rfl)
      (fun _ _ _ => .trans) s).mono ?_)
    intro _ u log h
    refine ⟨rfl, ?_, [], reacts_quiet rfl h.1.silent⟩
    rw [List.append_nil]
    exact resumedSet_of_installs h.2
  | vmDeath =>
    show Handles [.vmDeath] s false ((s.enter .terminated).emit (.vmDeath 0)) []
    rw [enter_live hlive]
    have htells : (Payload.vmDeath 0).Tells .vmDeath := rfl
    exact ⟨rfl, rfl, _, .cons htells .nil, .single rfl _, rfl, by simp [emit]⟩

/-! ## Sets -/

theorem always_handleEvents (hlive : s.state.isTerminal = false) (events : List TargetEvent) :
    Always (fun goesOn t log => goesOn = !events.contains .vmDeath ∧
        log.filterMap resumedSet? = [] ∧ ∃ told, s.Reacts (untilDeath events) told t)
      (handleEvents events) s := by
  induction events generalizing s with
  | nil => exact ⟨rfl, rfl, [], Silent.rfl.reacts⟩
  | cons e es ih =>
    refine always_bind ((always_handleEvent hlive e).mono ?_)
    rintro _ t log ⟨rfl, hlog, told, hreacts⟩
    by_cases hdeath : e = .vmDeath
    · subst hdeath
      exact ⟨rfl, by simpa using hlog, told, hreacts⟩
    · have hgoesOn : (!([e] : List TargetEvent).contains .vmDeath) = true := by
        simpa using Ne.symm hdeath
      have hstate : t.state.isTerminal = false := by
        rw [hreacts.state, if_neg (by simpa using Ne.symm hdeath)]
        split
        · rfl
        · exact hlive
      rw [hgoesOn]
      refine (ih hstate).mono ?_
      rintro _ u more ⟨rfl, hmore, later, hlater⟩
      refine ⟨by simp [Ne.symm hdeath], by simp [hlog, hmore], told ++ later, ?_⟩
      have happend := hreacts.append (by simpa using Ne.symm hdeath) hlater
      rw [untilDeath, if_neg hdeath]
      exact happend

theorem emits_disconnected (hlive : s.state.isTerminal = false) (hstopping : s.stopping = false) :
    s.Emits [.vmDisconnect "VM disconnected"] s.disconnected ∧
      s.disconnected.state = .disconnected ∧ s.disconnected.stopping = false := by
  have hend : s.disconnected =
      ({ s with state := .disconnected }).emit (.vmDisconnect "VM disconnected") := by
    simp [disconnected, hlive, hstopping, enter_live]
  rw [hend]
  exact ⟨.single rfl _, rfl, hstopping⟩

theorem always_resumeAfter (set : EventSet) (s : Session) :
    Always (fun goesOn t log => ∃ answer : Option (Except TargetError Unit),
        answer.isSome = set.shouldResume ∧
        log.filterMap resumedSet? = (answer.map fun r => (set, r)).toList ∧
        goesOn = !answer.any isLoss ∧ t = if answer.any isLoss then s.disconnected else s)
      (resumeAfter set) s := by
  by_cases hresume : set.shouldResume
  · simp only [resumeAfter, hresume, Bool.not_true, Bool.false_eq_true, if_false]
    intro r
    cases r with
    | ok _ => exact ⟨some (.ok ()), rfl, rfl, rfl, rfl⟩
    | error e =>
      by_cases hloss : e.isDisconnect
      · simp only [Routine.bind, hloss, if_true]
        exact ⟨some (.error e), rfl, rfl, by simp [isLoss, hloss], by simp [isLoss, hloss]⟩
      · simp only [Routine.bind, hloss, Bool.false_eq_true, if_false]
        exact ⟨some (.error e), rfl, rfl, by simp [isLoss, hloss], by simp [isLoss, hloss]⟩
  · simp only [resumeAfter, hresume, Bool.not_false, if_true]
    exact ⟨none, rfl, rfl, rfl, rfl⟩

/-- One turn of the loop of a live session. -/
structure TurnTaken (x : LoopTurn) (s : Session) (goesOn : Bool) (t : Session)
    (log : List ((c : Call) × c.Reply)) : Prop where
  fair : x.Fair
  emitted : s.Emits x.payloads t
  resumed : log.filterMap resumedSet? = x.resumed?.toList
  goesOn : goesOn = !x.isEnd
  stopping : t.stopping = false
  state : t.state = s.state.after [x]

/-- A turn in which the events are handled, followed by the loss of the connection if it is lost. -/
theorem Reacts.turnTaken (x : LoopTurn) (log : List ((c : Call) × c.Reply))
    (hlive : s.state.isTerminal = false) (hstopping : s.stopping = false)
    (h : s.Reacts (untilDeath x.events) x.told t) (hlost : x.isLost → x.isDeath = false)
    (hanswer : x.answer.isSome = (x.set?.any EventSet.shouldResume && !x.isDeath))
    (hlog : log.filterMap resumedSet? = x.resumed?.toList) :
    TurnTaken x s (!x.isEnd) (if x.isLost then t.disconnected else t) log := by
  have hfair : x.Fair := ⟨h.tells, hanswer⟩
  have hstate := h.state
  have hon : t.stopping = false := h.stopping.trans hstopping
  simp only [mem_untilDeath] at hstate
  by_cases hl : x.isLost
  · have hdeath : .vmDeath ∉ x.events := by simpa [LoopTurn.isDeath] using hlost hl
    rw [if_neg hdeath] at hstate
    have hlive' : t.state.isTerminal = false := by
      rw [hstate]
      split
      · rfl
      · exact hlive
    obtain ⟨hemits, hend, hquiet⟩ := emits_disconnected hlive' hon
    rw [if_pos hl]
    refine ⟨hfair, ?_, hlog, rfl, hquiet, ?_⟩
    · simpa [LoopTurn.payloads, hl] using h.emitted.append hemits
    · rw [hend]
      simp [SessionState.after, LoopTurn.finale, hl, hlost hl]
  · rw [if_neg hl]
    refine ⟨hfair, ?_, hlog, rfl, hon, ?_⟩
    · simpa [LoopTurn.payloads, hl] using h.emitted
    · rw [hstate]
      by_cases hdeath : x.isDeath
      · have hmem : .vmDeath ∈ x.events := by simpa [LoopTurn.isDeath] using hdeath
        simp [SessionState.after, LoopTurn.finale, hdeath, hmem]
      · have hmem : .vmDeath ∉ x.events := by simpa [LoopTurn.isDeath] using hdeath
        simp [SessionState.after, LoopTurn.finale, hdeath, hmem, hl, LoopTurn.isStop]

theorem always_handleSet (hlive : s.state.isTerminal = false) (hstopping : s.stopping = false)
    (set : EventSet) :
    Always (fun goesOn t log => ∃ x : LoopTurn, x.reading = .ok (some set) ∧
        TurnTaken x s goesOn t log) (handleSet set) s := by
  refine always_bind ((always_handleEvents hlive set.events).mono ?_)
  rintro _ t log ⟨rfl, hlog, told, hreacts⟩
  by_cases hdeath : .vmDeath ∈ set.events
  · have hturn := hreacts.turnTaken ⟨.ok (some set), told, none⟩ log
      hlive hstopping (fun h => by simp at h) (by simp [LoopTurn.isDeath, hdeath]) hlog
    have hend : (!(LoopTurn.mk (.ok (some set)) told none).isEnd) = false := by
      simp [LoopTurn.isEnd, LoopTurn.isDeath, hdeath]
    rw [hend] at hturn
    have hstops : (!set.events.contains .vmDeath) = false := by simp [hdeath]
    rw [hstops]
    refine ⟨⟨.ok (some set), told, none⟩, rfl, ?_⟩
    rw [List.append_nil]
    exact hturn
  · have hgoesOn : (!set.events.contains .vmDeath) = true := by simp [hdeath]
    rw [hgoesOn]
    refine (always_resumeAfter set t).mono ?_
    rintro _ _ more ⟨answer, hanswer, hmore, rfl, rfl⟩
    have hturn := hreacts.turnTaken ⟨.ok (some set), told, answer⟩ (log ++ more)
      hlive hstopping (fun _ => by simp [LoopTurn.isDeath, hdeath])
      (by simp [LoopTurn.isDeath, hdeath, hanswer, LoopTurn.set?, Except.toOption])
      (by rw [List.filterMap_append, hlog, hmore]; cases answer <;> rfl)
    have hend : (LoopTurn.mk (.ok (some set)) told answer).isEnd = answer.any isLoss := by
      simp [LoopTurn.isEnd, LoopTurn.isDeath, hdeath]
    rw [hend] at hturn
    exact ⟨_, rfl, hturn⟩

theorem always_handleReading (hlive : s.state.isTerminal = false) (hstopping : s.stopping = false)
    (r : Reading) :
    Always (fun goesOn t log => ∃ x : LoopTurn, x.reading = r ∧ TurnTaken x s goesOn t log)
      (handleReading r) s := by
  cases r with
  | error e =>
    have hturn := Silent.rfl.reacts.turnTaken ⟨.error e, [], none⟩ [] hlive
      hstopping (fun _ => rfl) rfl rfl
    have hend : (LoopTurn.mk (.error e) [] none).isEnd = e.isDisconnect := by
      simp [LoopTurn.isEnd, LoopTurn.isDeath, LoopTurn.isLost, LoopTurn.events, LoopTurn.set?,
        Except.toOption, isLoss]
    have hlost : (LoopTurn.mk (.error e) [] none).isLost = e.isDisconnect := by
      simp [LoopTurn.isLost, isLoss]
    rw [hend, hlost] at hturn
    by_cases hloss : e.isDisconnect
    · simp only [handleReading, hloss, if_true] at hturn ⊢
      exact ⟨_, rfl, hturn⟩
    · simp only [handleReading, hloss, Bool.false_eq_true, if_false] at hturn ⊢
      exact ⟨_, rfl, hturn⟩
  | ok set =>
    cases set with
    | none =>
      have hturn := Silent.rfl.reacts.turnTaken ⟨.ok none, [], none⟩ [] hlive
        hstopping (fun _ => rfl) rfl rfl
      exact ⟨_, rfl, hturn⟩
    | some set => exact always_handleSet hlive hstopping set

end Session

/-! ## The end -/

namespace LoopTurn
variable {x : LoopTurn} {turns : List LoopTurn}

theorem isEnd_eq_false : x.isEnd = false ↔ x.isDeath = false ∧ x.isLost = false := by
  simp [isEnd]

theorem finale_cons (h : x.isEnd = false) : finale (x :: turns) = finale turns := by
  obtain ⟨hdeath, hlost⟩ := isEnd_eq_false.1 h
  simp [finale, hdeath, hlost]

theorem after_cons (h : x.isEnd = false) (state : SessionState) :
    state.after (x :: turns) = (state.after [x]).after turns := by
  simp only [SessionState.after, finale_cons h]
  by_cases hstop : x.isStop <;> by_cases hlater : turns.any isStop <;>
    simp [finale, hstop, hlater]

theorem Fair.not_death (h : x.Fair) (hlost : x.isLost) : x.isDeath = false := by
  obtain ⟨reading, told, answer⟩ := x
  cases reading with
  | error e => rfl
  | ok set =>
    have hanswer := h.resumed
    have hsome : answer.isSome = true := by
      cases answer with
      | none => cases hlost
      | some _ => rfl
    have hboth : (Option.any EventSet.shouldResume _ && !LoopTurn.isDeath _) = true :=
      hanswer.symm.trans hsome
    simpa using (Bool.and_eq_true_iff.1 hboth).2

theorem not_final_of_tells {told : List Payload} {events : List TargetEvent}
    (h : List.Forall₂ Payload.Tells told events) (hdeath : .vmDeath ∉ events) :
    ∀ p ∈ told, p.isFinal = false := by
  induction h with
  | nil => simp
  | cons hp _ ih =>
    rename_i p e _ _ _
    have hfinal : p.isFinal = false := by
      cases p with
      | vmDeath => cases e <;> first | exact hp.elim | simp at hdeath
      | vmDisconnect => cases e <;> exact hp.elim
      | _ => rfl
    have hrest := ih fun hmem => hdeath (List.mem_cons_of_mem _ hmem)
    simpa [hfinal] using hrest

/-- The payloads of a turn end with the end of the loop, if the turn ends it. -/
theorem Fair.payloads_eq (h : x.Fair) : ∃ before, x.payloads = before ++ (finale [x]).toList ∧
    ∀ p ∈ before, p.isFinal = false := by
  by_cases hdeath : x.isDeath
  · have hlost : x.isLost = false := by
      by_contra hlost
      rw [h.not_death (by simpa using hlost)] at hdeath
      cases hdeath
    obtain ⟨before, hsplit, hbefore⟩ := untilDeath_eq (List.contains_iff_mem.1 hdeath)
    have htells := h.tells
    have hlast : [TargetEvent.vmDeath].filter TargetEvent.isTold = [.vmDeath] := rfl
    rw [hsplit, List.filter_append, hlast] at htells
    generalize hn : (before.filter TargetEvent.isTold).length = n
    have hfirst := List.forall₂_take_append _ _ _ htells
    have hdrop := List.forall₂_drop_append _ _ _ htells
    rw [hn] at hfirst hdrop
    have hdead : x.told.drop n = [.vmDeath 0] := by
      rcases List.forall₂_cons_right_iff.1 hdrop with ⟨p, rest, hp, hrest, htold⟩
      rw [htold, List.forall₂_nil_right_iff.1 hrest]
      cases p with
      | vmDeath code => rw [show code = 0 from hp]
      | _ => exact hp.elim
    refine ⟨x.told.take n, ?_, not_final_of_tells hfirst ?_⟩
    · simp [payloads, finale, hdeath, hlost, ← hdead]
    · intro hmem
      exact hbefore (List.mem_filter.1 hmem).1
  · have hdeath : x.isDeath = false := Bool.eq_false_iff.2 hdeath
    have hmem : .vmDeath ∉ (untilDeath x.events).filter TargetEvent.isTold := by
      intro hmem
      have hin := (mem_untilDeath x.events).1 (List.mem_filter.1 hmem).1
      rw [isDeath, List.contains_iff_mem.2 hin] at hdeath
      cases hdeath
    refine ⟨x.told, ?_, not_final_of_tells h.tells hmem⟩
    by_cases hlost : x.isLost <;> simp [payloads, finale, hdeath, hlost]

theorem exists_finale (hfair : ∀ x ∈ turns, x.Fair) (hend : ∀ x ∈ turns.dropLast, x.isEnd = false) :
    ∃ before, turns.flatMap payloads = before ++ (finale turns).toList ∧
      ∀ p ∈ before, p.isFinal = false := by
  induction turns with
  | nil => exact ⟨[], rfl, by simp⟩
  | cons x turns ih =>
    obtain ⟨first, hfirst, hplain⟩ := (hfair x (by simp)).payloads_eq
    cases turns with
    | nil => exact ⟨first, by simpa using hfirst, hplain⟩
    | cons y turns =>
      have hx : x.isEnd = false := hend x (by simp)
      obtain ⟨rest, hrest, hquiet⟩ := ih (fun z hz => hfair z (by simp [hz]))
        fun z hz => hend z (by simp [hz])
      refine ⟨first ++ rest, ?_, ?_⟩
      · rw [finale_cons hx] at hfirst ⊢
        rw [List.flatMap_cons, hrest, hfirst]
        simp [finale]
      · intro p hp
        rcases List.mem_append.1 hp with hp | hp
        · exact hplain p hp
        · exact hquiet p hp

end LoopTurn

/-! ## Runs -/

namespace Session
variable {s : Session}

theorem always_handleReadings (hlive : s.state.isTerminal = false)
    (hstopping : s.stopping = false) (readings : List Reading) :
    Always (fun goesOn t log => ∃ turns, TurnsTaken readings turns s goesOn t log)
      (handleReadings readings) s := by
  induction readings generalizing s with
  | nil =>
    have hfinale := @LoopTurn.exists_finale [] (by simp) (by simp)
    exact ⟨[], List.prefix_rfl, fun _ => rfl, rfl, by simp, by simp, .nil rfl, hfinale, rfl, rfl⟩
  | cons r rs ih =>
    refine always_bind ((always_handleReading hlive hstopping r).mono ?_)
    rintro goesOn t log ⟨x, rfl, hturn⟩
    have hgoesOn := hturn.goesOn
    subst hgoesOn
    by_cases hend : x.isEnd
    · have hfalse : (!x.isEnd) = false := by simp [hend]
      rw [hfalse] at hturn ⊢
      have hfair : ∀ y ∈ [x], y.Fair := by simpa using hturn.fair
      refine ⟨[x], ?_, (fun h => by cases h), ?_, by simp, hfair, ?_, ?_, ?_, hturn.state⟩
      · exact ⟨rs, rfl⟩
      · simp [hend]
      · simpa using hturn.emitted
      · exact LoopTurn.exists_finale hfair (by simp)
      · rw [List.append_nil, hturn.resumed]
        cases hx : x.resumed? <;> simp [hx]
    · have htrue : (!x.isEnd) = true := by simp [hend]
      rw [htrue] at hturn ⊢
      have hend : x.isEnd = false := Bool.eq_false_iff.2 hend
      have hlive' : t.state.isTerminal = false := by
        have hnone : LoopTurn.finale [x] = none := LoopTurn.finale_cons hend
        rw [hturn.state, SessionState.after, hnone]
        dsimp only
        split
        · rfl
        · exact hlive
      refine (ih hlive' hturn.stopping).mono ?_
      rintro goesOn u more ⟨turns, hturns⟩
      have hfair : ∀ y ∈ x :: turns, y.Fair := by
        simpa using ⟨hturn.fair, hturns.fair⟩
      have hon : ∀ y ∈ (x :: turns).dropLast, y.isEnd = false := by
        cases turns with
        | nil => simp
        | cons y turns => simpa using ⟨hend, hturns.goOn⟩
      refine ⟨x :: turns, ?_, ?_, ?_, hon, hfair, ?_, LoopTurn.exists_finale hfair hon, ?_, ?_⟩
      · obtain ⟨unread, hread⟩ := hturns.read
        exact ⟨unread, by simp [← hread]⟩
      · intro hgo
        rw [List.map_cons, hturns.readAll hgo]
      · simpa [hend] using hturns.goesOn
      · exact hturn.emitted.append hturns.emitted
      · rw [List.filterMap_append, hturn.resumed, hturns.resumed]
        cases hx : x.resumed? <;> simp [hx]
      · rw [hturns.state, hturn.state, ← LoopTurn.after_cons hend]

/-- After each part of its readings the loop is where it would be had it read no more. -/
theorem handleReadings_append (readings more : List Reading) :
    handleReadings (readings ++ more) =
      Routine.bind (handleReadings readings) fun goesOn =>
        if goesOn then handleReadings more else done false := by
  induction readings with
  | nil => rfl
  | cons r rs ih =>
    show Routine.bind (handleReading r) _ = Routine.bind (Routine.bind (handleReading r) _) _
    rw [Routine.bind_assoc]
    congr 1
    funext goesOn
    cases goesOn with
    | true => exact ih
    | false => rfl

def connected : Session := { Session.new "s" {} 0 {} with state := .connected }

/-- A stop, a failure, and a death before the start of a thread. -/
def lastReadings : List Reading :=
  [.ok (some ⟨.all, [.threadStart 1, .breakpoint none 1 default]⟩), .error .timeout,
    .ok (some ⟨.none, [.vmDeath, .threadStart 2]⟩), .ok none]

/-- A connection on which all calls fail. -/
def refuse (c : Call) (_ : Unit) : c.Reply × Unit := (.error .timeout, ())

example : ((handleReadings lastReadings).run refuse connected ()).2.1.state = .terminated := rfl

end Session

end JvmDebug
