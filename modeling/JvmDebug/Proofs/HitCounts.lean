import JvmDebug.Proofs.HitRules
import JvmDebug.Proofs.Installing
import Mathlib.Data.List.Infix

/-!
Whether the hits of a breakpoint are counted and told under its id. A hit that the loop handles is
told once and in turn, under the id of the breakpoint that has its request at that moment. A request
is live on the target before the table has booked it, so a hit can be handled too early; those are
the hits that the count of a breakpoint lacks.
-/
namespace JvmDebug

/-! ## What is handled and what is told -/

namespace Hit

def isOn (h : Hit) (e : BreakpointEntry) : Bool := h.request.any fun r => e.requests.contains r

/-- What is to be told of the hit. -/
def report (h : Hit) : Option String × ThreadId := (h.owner, h.thread)

end Hit

/-- The hit that the loop begins to handle with its next step. -/
def Loop.hit? (s : Session) : Loop → Option Hit
  | ready _ (.breakpoint request t _ :: _) => some (s.hit request t)
  | _ => none

def Payload.hit? : Payload → Option (Option String × ThreadId)
  | breakpointHit id place => some (id, place.threadId)
  | _ => none

/-- The hit that the session tells with the event it has emitted on the way to `t`, if it has. -/
def Session.tells? (s t : Session) : Option (Option String × ThreadId) :=
  if t.sequence = s.sequence then none
  else t.events.events.getLast?.bind fun e => e.payload.hit?

namespace Scene

def hit? (c : Scene) : Turn → Option Hit
  | .choice .loop => c.loop.hit? c.session
  | _ => none

def tells? (c : Scene) : Turn → Option (Option String × ThreadId)
  | .choice .loop => c.session.tells? (c.next (.choice .loop)).session
  | _ => none

def gather {α : Type} (c : Scene) (f : Scene → Turn → Option α) : List Turn → List α
  | [] => []
  | x :: xs => (f c x).toList ++ (c.next x).gather f xs

theorem gather_snoc {α : Type} (c : Scene) (f : Scene → Turn → Option α) (xs : List Turn)
    (x : Turn) : c.gather f (xs ++ [x]) = c.gather f xs ++ (f (c.play xs) x).toList := by
  induction xs generalizing c with
  | nil => simp [gather, play]
  | cons y ys ih =>
    rw [List.cons_append, gather, gather, ih, List.append_assoc]
    rfl

/-- The hits that the loop handles, in turn. -/
def hits (c : Scene) (turns : List Turn) : List Hit := c.gather hit? turns

/-- The hits that the loop tells, in turn. -/
def told (c : Scene) (turns : List Turn) : List (Option String × ThreadId) := c.gather tells? turns

end Scene

/-- Breakpoints are added, threads hit them and the loop handles the hits. -/
def Scene.Turn.isOnHits : Turn → Bool
  | .choice (.call (.addBreakpoint ..)) | .choice (.go _) | .choice .loop
  | .choice (.target (.hit ..)) => true
  | _ => false

/-! ## Telling -/

namespace Session
variable {s t u : Session}

/-- No hit is told: either nothing is emitted, or something else was emitted last. -/
def Hushed (s t : Session) : Prop :=
  (t.events = s.events ∧ t.sequence = s.sequence) ∨
    ∃ e, t.events.events.getLast? = some e ∧ e.payload.hit? = none

theorem Hushed.rfl : s.Hushed s := .inl ⟨Eq.refl _, Eq.refl _⟩

theorem Hushed.trans (hst : s.Hushed t) (htu : t.Hushed u) : s.Hushed u := by
  rcases htu with ⟨hevents, hsequence⟩ | hlast
  · rcases hst with ⟨hevents', hsequence'⟩ | ⟨e, hlast, he⟩
    · exact .inl ⟨hevents.trans hevents', hsequence.trans hsequence'⟩
    · exact .inr ⟨e, hevents ▸ hlast, he⟩
  · exact .inr hlast

theorem Hushed.tells? (h : s.Hushed t) : s.tells? t = none := by
  rw [Session.tells?]
  rcases h with ⟨-, hsequence⟩ | ⟨e, hlast, he⟩
  · rw [if_pos hsequence]
  · rw [hlast]
    split
    · rfl
    · exact he

theorem Hushed.append_told (h : s.Hushed t) (due : List (Option String × ThreadId)) :
    (s.tells? t).toList ++ due = due := by
  rw [h.tells?]
  rfl

theorem getLast?_emit (s : Session) (p : Payload) :
    (s.emit p).events.events.getLast?.map DebugEvent.payload = some p := by
  simp [emit, EventBuffer.push]

theorem hushed_emit (s t : Session) {p : Payload} (hp : p.hit? = none) : s.Hushed (t.emit p) := by
  obtain ⟨e, he, rfl⟩ := Option.map_eq_some_iff.1 (t.getLast?_emit p)
  exact .inr ⟨e, he, hp⟩

theorem hushed_disconnected (s : Session) : s.Hushed s.disconnected := by
  simp only [disconnected]
  split
  · exact .rfl
  · exact hushed_emit _ _ rfl

theorem tells?_breakpointHit (s : Session) (t : ThreadId) (id : Option String)
    (place : ThreadPlace) :
    s.tells? ((s.stopped t (some id)).emit (.breakpointHit id place)) =
      some (id, place.threadId) := by
  have hsequence : (s.stopped t (some id)).sequence = s.sequence := by
    simp only [stopped, enter]
    split <;> rfl
  obtain ⟨e, he, hpayload⟩ := Option.map_eq_some_iff.1
    ((s.stopped t (some id)).getLast?_emit (.breakpointHit id place))
  have hnew : ((s.stopped t (some id)).emit (.breakpointHit id place)).sequence ≠ s.sequence := by
    show (s.stopped t (some id)).sequence + 1 ≠ s.sequence
    rw [hsequence]
    simp
  rw [tells?, if_neg hnew, he, Option.bind_some, hpayload]
  rfl

end Session

/-- The routine asks the target and then tells a hit on the thread under the id, once. -/
def Routine.TellsHit (id : Option String) (t : ThreadId) : Task Session Bool → Prop
  | .done _ => False
  | .request _ k => ∀ reply, (k reply).TellsHit id t
  | .update f k => ∀ s, k s = .done true ∧ ∃ place : ThreadPlace, place.threadId = t ∧
      f s = (s.stopped t (some id)).emit (.breakpointHit id place)

abbrev Routine.Hushes {α : Type} (m : Task Session α) : Prop :=
  m.Within (fun _ => True) Session.Hushed

/-- The routine is yet to tell this hit, or none. -/
def Routine.Owes (m : Task Session Bool) : Option (Option String × ThreadId) → Prop
  | some (id, t) => m.TellsHit id t
  | none => m.Hushes

open Routine

namespace Session

theorem tellsHit_reportHit (id : Option String) (t : ThreadId) (l : Location) :
    (reportHit id t l).TellsHit id t := by
  intro place
  cases place <;> intro info <;> cases info <;> exact fun s => ⟨rfl, _, rfl, rfl⟩

theorem hushes_inspects {α : Type} {m : Task Session α} (hm : Inspects m) : Hushes m :=
  hm.mono (fun _ _ => trivial) fun _ _ hf => hf.elim

theorem hushes_reportStep (t : ThreadId) (l : Location) : Hushes (reportStep t l) :=
  within_bind (hushes_inspects (inspects_threadPlace t l)) fun _ =>
    within_bind (within_modify fun s => hushed_emit s _ rfl) fun _ => trivial

theorem hushes_handleEvent {e : TargetEvent} (he : ∀ request t l, e ≠ .breakpoint request t l) :
    Hushes (handleEvent e) := by
  cases e with
  | breakpoint request t l => exact absurd rfl (he request t l)
  | vmStart t => trivial
  | step request t l =>
    rw [handleEvent_step]
    refine fun s => ⟨.inl ⟨rfl, rfl⟩, ?_⟩
    dsimp only
    split
    · exact ⟨trivial, fun _ => hushes_reportStep t l⟩
    · exact hushes_reportStep t l
  | exception request t l thrown catchAt =>
    refine within_bind (hushes_inspects (inspects_exceptionMessage thrown)) fun _ => ?_
    refine within_bind (hushes_inspects (inspects_threadPlace t l)) fun _ => ?_
    exact within_bind (within_modify fun s => hushed_emit s _ rfl) fun _ => trivial
  | threadStart t | threadDeath t =>
    refine within_bind (hushes_inspects (inspects_threadName t)) fun _ => ?_
    exact within_bind (within_modify fun s => hushed_emit s _ rfl) fun _ => trivial
  | classPrepare request t c =>
    have hrebooked (s t : Session) (hst : s.Rebooked t) : s.Hushed t := by
      have hst : t = { s with breakpoints := t.breakpoints } := hst
      rw [hst]
      exact .inl ⟨rfl, rfl⟩
    exact within_bind ((installs_classLoaded c).mono (fun _ _ => trivial) hrebooked)
      fun _ => trivial
  | vmDeath => exact within_bind (within_modify fun s => hushed_emit s _ rfl) fun _ => trivial

theorem hushes_resumeAfter (set : EventSet) : Hushes (resumeAfter set) :=
  within_resumeAfter trivial hushed_disconnected

end Session

namespace Loop

/-- What the loop is yet to tell of the event that it handles. -/
def Owes (due : Option (Option String × ThreadId)) : Loop → Prop
  | handling _ _ now _ => Routine.Owes now due
  | resuming now => due = none ∧ Hushes now
  | _ => due = none

variable {due : Option (Option String × ThreadId)} {s : Session} {vm : Vm} {l : Loop}

theorem owes_afterEvent {set : EventSet} {e : TargetEvent} {later : List TargetEvent}
    {now : Task Session Bool} (h : Routine.Owes now due) :
    (afterEvent set e later now).Owes due := by
  refine of_afterEvent h fun goesOn hdone => ?_
  subst hdone
  cases due with
  | some p => exact h.elim
  | none => exact ⟨rfl, rfl⟩

theorem owes_afterResume {now : Task Session Bool} (h : Hushes now) :
    (afterResume now).Owes none :=
  of_afterResume ⟨rfl, h⟩ fun _ _ => ⟨rfl, rfl⟩

/-- What is told in a step of a routine, and what is still to be told after it. -/
theorem owes_move {now : Task Session Bool} (h : Routine.Owes now due) (s : Session) (vm : Vm) :
    ∃ due', Routine.Owes (now.move Vm.serve s vm).1 due' ∧
      (s.tells? (now.move Vm.serve s vm).2.1).toList ++ due'.toList = due.toList := by
  cases due with
  | none =>
    have hmove := Within.move h Vm.serve (fun _ => .rfl) (fun _ _ _ => .trans) s vm
    exact ⟨none, hmove.2, hmove.1.append_told []⟩
  | some p =>
    obtain ⟨id, t⟩ := p
    cases now with
    | done goesOn => exact h.elim
    | request c k => exact ⟨some (id, t), h _, Session.Hushed.rfl.append_told [(id, t)]⟩
    | update f k =>
      obtain ⟨hdone, place, rfl, hf⟩ := h s
      refine ⟨none, ?_, ?_⟩
      · simp only [Routine.move, hdone, Routine.advance]
        trivial
      · simp only [Routine.move, hdone, Routine.advance, hf, Session.tells?_breakpointHit]
        rfl

/-- What is told and what is still to be told grow by the hit that the loop begins to handle. -/
theorem owes_step (h : l.Owes due) (hi : ∀ request t, (s.hit request t).owner =
      (Session.recordHit request s).1) (vm : Vm) :
    ∃ due', (l.step s vm).1.Owes due' ∧
      (s.tells? (l.step s vm).2.1).toList ++ due'.toList =
        due.toList ++ (l.hit? s).toList.map Hit.report := by
  cases l with
  | reading =>
    obtain rfl : due = none := h
    simp only [Loop.step]
    cases vm.reports with
    | nil => exact ⟨none, rfl, Session.Hushed.rfl.append_told []⟩
    | cons r reports =>
      cases r with
      | events set => exact ⟨none, rfl, Session.Hushed.rfl.append_told []⟩
      | hangUp => exact ⟨none, rfl, (Session.hushed_disconnected s).append_told []⟩
  | ready set later =>
    obtain rfl : due = none := h
    cases later with
    | nil =>
      obtain ⟨hhushed, hrest⟩ := Within.advance (Session.hushes_resumeAfter set) (fun _ => .rfl)
        (fun _ _ _ => .trans) s
      exact ⟨none, owes_afterResume hrest, hhushed.append_told []⟩
    | cons e later =>
      by_cases he : ∃ request t l, e = .breakpoint request t l
      · obtain ⟨request, t, l, rfl⟩ := he
        refine ⟨some ((Session.recordHit request s).1, t),
          Session.tellsHit_reportHit (Session.recordHit request s).1 t l, ?_⟩
        have hsame : s.Hushed (Session.recordHit request s).2 := by
          cases request <;> exact .inl ⟨rfl, rfl⟩
        refine (hsame.append_told _).trans ?_
        -- the breakpoint found by the books is the one that the hit belongs to
        rw [← hi request t]
        rfl
      · have hother : ∀ request t l, e ≠ .breakpoint request t l := fun request t l h =>
          he ⟨request, t, l, h⟩
        obtain ⟨hhushed, hrest⟩ := Within.advance (Session.hushes_handleEvent hother)
          (fun _ => .rfl) (fun _ _ _ => .trans) s
        refine ⟨none, owes_afterEvent hrest, ?_⟩
        cases e with
        | breakpoint request t l => exact absurd rfl (hother request t l)
        | _ => exact hhushed.append_told []
  | handling set e now later =>
    obtain ⟨due', howes, htold⟩ := owes_move h s vm
    refine ⟨due', owes_afterEvent howes, ?_⟩
    exact htold.trans (List.append_nil _).symm
  | resuming now =>
    obtain ⟨rfl, hhushes⟩ := h
    have hmove := Within.move hhushes Vm.serve (fun _ => .rfl) (fun _ _ _ => .trans) s vm
    exact ⟨none, owes_afterResume hmove.2, hmove.1.append_told []⟩
  | ended =>
    obtain rfl : due = none := h
    exact ⟨none, rfl, Session.Hushed.rfl.append_told []⟩

end Loop

/-! ## Counting -/

open Discipline

section
variable {start : Nat} {k rest : Unbooked} {s : Session} {vm : Vm} {hits : List Hit}

theorem tally_move {α : Type} (m : Task Session α) (s : Session) (vm : Vm) (hits : List Hit) :
    m.move (tally start).answer s (vm, hits) = ((m.move Vm.serve s vm).1,
      (m.move Vm.serve s vm).2.1, ((m.move Vm.serve s vm).2.2, hits)) := by
  cases m <;> rfl

theorem tally_moved {now : Task Session Bool} (hnow : (tally start).Settles k now)
    (ht : Tallied start (k + rest) s (vm, hits)) (hg : Numbered start s vm)
    (hg' : Numbered start (now.move Vm.serve s vm).2.1 (now.move Vm.serve s vm).2.2) :
    ∃ k', (tally start).Settles k' (now.move Vm.serve s vm).1 ∧
      Tallied start (k' + rest) (now.move Vm.serve s vm).2.1
        ((now.move Vm.serve s vm).2.2, hits) := by
  have hmoved := hnow.move ht hg
  rw [tally_move] at hmoved
  obtain ⟨k', ht', hnow'⟩ := hmoved hg'
  exact ⟨k', hnow', ht'⟩

theorem Tallied.append_none {l : Loop} (ht : Tallied start k s (vm, hits)) {t : Session}
    (hnone : l.hit? t = none) : Tallied start k s (vm, hits ++ (l.hit? t).toList) := by
  rwa [hnone, Option.toList_none, List.append_nil]

/-- The loop begins to handle an event. -/
theorem tally_begin {set : EventSet} {e : TargetEvent} {later : List TargetEvent}
    (hfree : Tallied start rest s (vm, hits))
    (hg' : Numbered start ((Loop.ready set (e :: later)).step s vm).2.1
      ((Loop.ready set (e :: later)).step s vm).2.2) :
    ∃ k', (tally start).Settles k' ((Loop.ready set (e :: later)).step s vm).1.now ∧
      Tallied start (k' + rest) ((Loop.ready set (e :: later)).step s vm).2.1
        (((Loop.ready set (e :: later)).step s vm).2.2,
          hits ++ ((Loop.ready set (e :: later)).hit? s).toList) := by
  by_cases he : ∃ request t l, e = .breakpoint request t l
  · obtain ⟨request, t, l, rfl⟩ := he
    -- the first block of updates counts the hit; what follows only tells it
    refine ⟨0, settles_thinning (thinning_reportHit _ t l), ?_⟩
    rw [zero_add]
    exact hfree.hit request t
  · have hother : ∀ request t l, e ≠ .breakpoint request t l := fun request t l h =>
      he ⟨request, t, l, h⟩
    obtain ⟨k', ht', hl'⟩ := settles_advance
      (tally_handleEvent hother rest s (vm, hits) fun _ => (zero_add rest).symm ▸ hfree) hg'
    refine ⟨k', Scene.settles_afterEvent hl', ?_⟩
    cases e with
    | breakpoint request t l => exact absurd rfl (hother request t l)
    | _ => exact ht'.append_none rfl

/-- A step of the loop keeps the books. The hit that it begins to handle is counted in it. -/
theorem tally_loop {l : Loop} (hl : (tally start).Settles k l.now)
    (ht : Tallied start (k + rest) s (vm, hits)) (hg : Numbered start s vm)
    (hg' : Numbered start (l.step s vm).2.1 (l.step s vm).2.2) :
    ∃ k', (tally start).Settles k' (l.step s vm).1.now ∧
      Tallied start (k' + rest) (l.step s vm).2.1
        ((l.step s vm).2.2, hits ++ (l.hit? s).toList) := by
  cases l with
  | reading =>
    simp only [Loop.step, Loop.hit?, Option.toList_none, List.append_nil]
    cases vm.reports with
    | nil => exact ⟨k, hl, ht⟩
    | cons r reports =>
      have hread : Tallied start (k + rest) s ({ vm with reports }, hits) :=
        ht.of_vm (UInt32.le_refl vm.nextRequest)
      cases r with
      | events set => exact ⟨k, hl, hread⟩
      | hangUp => exact ⟨k, hl, hread.thins s.quiet_disconnected.thins⟩
  | ready set later =>
    have hfree : Tallied start rest s (vm, hits) := hl.done ht hg
    cases later with
    | nil =>
      obtain ⟨k', ht', hl'⟩ := settles_advance (settles_thinning (thinning_resumeAfter set) rest s
        (vm, hits) fun _ => (zero_add rest).symm ▸ hfree) hg'
      exact ⟨k', Scene.settles_afterResume hl', ht'.append_none rfl⟩
    | cons e later => exact tally_begin hfree hg'
  | handling set e now later =>
    obtain ⟨k', hl', ht'⟩ := tally_moved hl ht hg hg'
    exact ⟨k', Scene.settles_afterEvent hl', ht'.append_none rfl⟩
  | resuming now =>
    obtain ⟨k', hl', ht'⟩ := tally_moved hl ht hg hg'
    exact ⟨k', Scene.settles_afterResume hl', ht'.append_none rfl⟩
  | ended => exact ⟨k, hl, ht.append_none rfl⟩

end

/-! ## Schedules -/

namespace Scene

/-- Nothing is in flight and no breakpoint is set. -/
structure Bare (c : Scene) : Prop where
  calls : c.calls = []
  loop : c.loop = .reading
  breakpoints : c.session.breakpoints = {}

/-- The hits so far are counted in the books, and told but for the one that is being handled. -/
def Accounts (start : Nat) (hits : List Hit) (told : List (Option String × ThreadId))
    (c : Scene) : Prop :=
  ∃ k due, (tally start).Settles k c.loop.now ∧
    (tally start).Shared c.calls k c.session (c.vm, hits) ∧
    c.loop.Owes due ∧ told ++ due.toList = hits.map Hit.report

variable {start : Nat} {hits : List Hit} {told : List (Option String × ThreadId)} {c : Scene}

theorem Bare.accounts (hc : c.Bare) : c.Accounts c.session.ids.next [] [] := by
  refine ⟨0, none, ?_, ?_, ?_, rfl⟩
  · rw [hc.loop]
    exact fun _ _ _ hh => hh
  · rw [hc.calls]
    exact shared_nil (.of_empty hc.breakpoints c.vm)
  · rw [hc.loop]
    exact rfl

theorem Accounts.join (h : c.Accounts start hits told) {m : Task Session (Option DebugError)}
    (hm : (tally start).Settles 0 m) :
    { c with calls := c.calls ++ [m] }.Accounts start hits told := by
  obtain ⟨k, due, hl, hshared, howes, htold⟩ := h
  refine ⟨k, due, hl, hshared.join fun k ht => ⟨0, ?_, hm⟩, howes, htold⟩
  rwa [zero_add]

theorem Accounts.happen (h : c.Accounts start hits told) {vm : Vm} (hbooks : c.vm.SameBooks vm) :
    { c with vm }.Accounts start hits told := by
  obtain ⟨k, due, hl, hshared, howes, htold⟩ := h
  exact ⟨k, due, hl, hshared.mono fun k ht => ht.of_vm (UInt32.le_of_eq hbooks.nextRequest.symm),
    howes, htold⟩

theorem Accounts.go (h : c.Accounts start hits told) (n : Nat)
    (hg : Numbered start c.session c.vm)
    (hg' : Numbered start (c.step (.go n)).session (c.step (.go n)).vm) :
    (c.step (.go n)).Accounts start hits told := by
  obtain ⟨k, due, hl, hshared, howes, htold⟩ := h
  cases hn : c.calls[n]? with
  | none =>
    rw [step_go_none hn]
    exact ⟨k, due, hl, hshared, howes, htold⟩
  | some m =>
    rw [step_go_some hn] at hg' ⊢
    have hmove := hshared.move hn hg
    rw [tally_move] at hmove
    exact ⟨k, due, hl, hmove hg', howes, htold⟩

theorem Accounts.loop (h : c.Accounts start hits told) (hg : Numbered start c.session c.vm)
    (hg' : Numbered start (c.step .loop).session (c.step .loop).vm) :
    (c.step .loop).Accounts start (hits ++ (c.hit? (.choice .loop)).toList)
      (told ++ (c.tells? (.choice .loop)).toList) := by
  obtain ⟨k, due, hl, ⟨held, hcalls, hheld, ht⟩, howes, htold⟩ := h
  rw [add_comm] at ht
  obtain ⟨k', hl', ht'⟩ := tally_loop hl ht hg hg'
  obtain ⟨due', howes', htold'⟩ :=
    Loop.owes_step howes (fun request t => ht.owner_hit request t) c.vm
  rw [add_comm] at ht'
  refine ⟨k', due', hl', ⟨held, hcalls, hheld, ht'⟩, howes', ?_⟩
  rw [List.map_append, ← htold, List.append_assoc, List.append_assoc]
  exact congrArg (told ++ ·) htold'

theorem Accounts.next (h : c.Accounts start hits told) (x : Turn)
    (hg : Numbered start c.session c.vm)
    (hg' : Numbered start (c.next x).session (c.next x).vm) :
    (c.next x).Accounts start (hits ++ (c.hit? x).toList) (told ++ (c.tells? x).toList) := by
  have hkeep (hhit : c.hit? x = none) (htells : c.tells? x = none)
      (h : (c.next x).Accounts start hits told) :
      (c.next x).Accounts start (hits ++ (c.hit? x).toList) (told ++ (c.tells? x).toList) := by
    rwa [hhit, htells, Option.toList_none, Option.toList_none, List.append_nil, List.append_nil]
  cases x with
  | errand e => exact hkeep rfl rfl (h.join (settles_thinning (looks_errand e).thinning))
  | report set => exact hkeep rfl rfl (h.happen (c.vm.reportSet_books set))
  | choice x =>
    cases x with
    | call o => exact hkeep rfl rfl (h.join (tally_operation o))
    | target x => exact hkeep rfl rfl (h.happen (x.apply_books c.vm))
    | go n => exact hkeep rfl rfl (h.go n hg hg')
    | loop => exact h.loop hg hg'

theorem Bare.accounts_play (hc : c.Bare) {turns : List Turn}
    (hnumbered : ∀ xs, xs <+: turns →
      Numbered c.session.ids.next (c.play xs).session (c.play xs).vm) :
    (c.play turns).Accounts c.session.ids.next (c.hits turns) (c.told turns) := by
  refine play_induction
    (P := fun xs c' => c'.Accounts c.session.ids.next (c.hits xs) (c.told xs))
    c turns hc.accounts fun xs x hxs h => ?_
  have hnext := hnumbered _ hxs
  rw [play_snoc] at hnext
  rw [Scene.hits, Scene.told, gather_snoc, gather_snoc]
  exact h.next x (hnumbered _ ((List.prefix_append _ _).trans hxs)) hnext

theorem Accounts.idle (h : c.Accounts start hits told) (hi : c.Idle)
    (hg : Numbered start c.session c.vm) :
    Tallied start 0 c.session (c.vm, hits) ∧ told = hits.map Hit.report := by
  obtain ⟨k, due, hl, hshared, howes, htold⟩ := h
  have ht : Tallied start k c.session (c.vm, hits) := hshared.done hi.1 hg
  have hrest : ∃ goesOn, c.loop.now = .done goesOn ∧ due = none := by
    cases h : c.loop with
    | reading | ended =>
      rw [h] at howes
      exact ⟨true, rfl, howes⟩
    | ready | handling | resuming => have := hi.2; rw [h] at this; exact this.elim
  obtain ⟨goesOn, hnow, rfl⟩ := hrest
  refine ⟨ht.of_le ⟨Multiset.zero_le _, Multiset.zero_le _⟩, ?_⟩
  rwa [Option.toList_none, List.append_nil] at htold

end Scene

/-! ## Where the counts stand -/

/-- The hits on the requests of a breakpoint were counted for it, or for nobody. -/
theorem Tallied.owner_of_isOn {start : Nat} {k : Unbooked} {s : Session} {vm : Vm}
    {hits : List Hit} (ht : Tallied start k s (vm, hits)) {id : String} {e : BreakpointEntry}
    (he : s.breakpoints.entries.get? id = some e) {h : Hit} (hh : h ∈ hits) :
    (h.isOn e = true → h.owner = some id ∨ h.owner = none) ∧
      (h.owner = some id → h.isOn e = true) := by
  constructor
  · intro hon
    cases howner : h.owner with
    | none => exact .inr rfl
    | some other =>
      obtain ⟨r, hr, ha⟩ := ht.attributed h hh other howner
      have hmem : r ∈ e.requests := by simpa [Hit.isOn, hr] using hon
      rw [ha.owner id ((ht.indexed r id).2 ⟨e, he, hmem⟩)]
      exact .inl rfl
  · intro howner
    obtain ⟨r, hr, ha⟩ := ht.attributed h hh id howner
    simpa [Hit.isOn, hr] using ha.listed e he

theorem Tallied.countP_isOn {start : Nat} {k : Unbooked} {s : Session} {vm : Vm}
    {hits : List Hit} (ht : Tallied start k s (vm, hits)) {id : String} {e : BreakpointEntry}
    (he : s.breakpoints.entries.get? id = some e) :
    hits.countP (Hit.isOn · e) = (hits.countP fun h => h.owner = some id) +
      hits.countP fun h => h.isOn e && h.owner.isNone := by
  rw [List.countP_eq_countP_filter_add hits _ fun h => decide (h.owner = some id),
    List.countP_filter, List.countP_filter]
  congr 1
  · refine List.countP_congr fun h hh => ?_
    have := (ht.owner_of_isOn he hh).2
    simpa using this
  · refine List.countP_congr fun h hh => ?_
    have := (ht.owner_of_isOn he hh).1
    cases howner : h.owner with
    | none => simp
    | some other => simp_all

namespace Scene

/-- The count of the breakpoint is the number of hits on its requests, and each of these hits was
told under its id. -/
def Faithful (c : Scene) (turns : List Turn) (id : String) (e : BreakpointEntry) : Prop :=
  e.breakpoint.hitCount = UInt64.ofNat ((c.hits turns).countP (Hit.isOn · e)) ∧
    List.Forall₂ (fun h told => h.isOn e → told = (some id, h.thread)) (c.hits turns)
      (c.told turns)

variable {c : Scene} {turns : List Turn} {id : String} {e : BreakpointEntry}

/-- When nothing is in flight, a breakpoint was counted all its hits and each was told under its id
if and only if none was handled before its request was booked. -/
theorem faithful_iff_booked (hc : c.Bare) (hnumbered : ∀ xs, xs <+: turns →
      Numbered c.session.ids.next (c.play xs).session (c.play xs).vm)
    (hidle : (c.play turns).Idle)
    (he : (c.play turns).session.breakpoints.entries.get? id = some e) :
    c.Faithful turns id e ↔ ∀ h ∈ c.hits turns, h.isOn e → h.owner.isSome := by
  obtain ⟨ht, htold⟩ :=
    (hc.accounts_play hnumbered).idle hidle (hnumbered turns List.prefix_rfl)
  rw [Faithful, htold, List.forall₂_map_right_iff, List.forall₂_same]
  constructor
  · rintro ⟨-, htells⟩ h hh hon
    have howner : h.owner = some id := congrArg Prod.fst (htells h hh hon)
    rw [howner]
    rfl
  · intro hbooked
    have hmine : ∀ h ∈ c.hits turns, h.isOn e → h.owner = some id := by
      intro h hh hon
      refine ((ht.owner_of_isOn he hh).1 hon).resolve_right fun hnone => ?_
      have := hbooked h hh hon
      rw [hnone] at this
      cases this
    refine ⟨?_, fun h hh hon => by rw [Hit.report, hmine h hh hon]⟩
    -- the count lacks just the hits that belonged to nobody, and there are none
    have hlate : (c.hits turns).countP (fun h => h.isOn e && h.owner.isNone) = 0 := by
      refine List.countP_eq_zero.2 fun h hh hearly => ?_
      obtain ⟨hon, hnone⟩ := Bool.and_eq_true_iff.1 hearly
      rw [hmine h hh hon] at hnone
      cases hnone
    rw [ht.countP_isOn he, hlate, Nat.add_zero]
    exact ht.counted id e he

theorem numbered_of_inits (h : ∀ xs ∈ turns.inits, (c.play xs).vm.nextRequest ≠ 0 ∧
      (c.play xs).session.ids.next ≤ c.session.ids.next + 1) :
    ∀ xs, xs <+: turns → Numbered c.session.ids.next (c.play xs).session (c.play xs).vm := by
  intro xs hxs
  obtain ⟨hnext, hids⟩ := h xs ((List.mem_inits _ _).2 hxs)
  exact ⟨hnext, .of_le hids⟩

/-- The class is loaded from the start. -/
def loadedSample : Scene := sample.step (.target (.load 1 2))

theorem bare_loadedSample : loadedSample.Bare := ⟨rfl, rfl, rfl⟩

/-- A thread hits a breakpoint that was just set. -/
def lateHit : List Turn :=
  ([.call (.addBreakpoint "app.Main" (.line 7) none), .go 0, .go 0, .go 0, .go 0, .go 0,
    .target (.hit 1 ⟨1, 2, 3, 0⟩), .loop, .loop, .loop, .loop, .loop, .loop] :
    List Choice).map .choice

theorem faithful_lateHit : ∃ e,
    (loadedSample.play lateHit).session.breakpoints.entries.get? "7f4a7c15" = some e ∧
      loadedSample.Faithful lateHit "7f4a7c15" e := by
  have hidle : (loadedSample.play lateHit).Idle := by
    have hcalls : (loadedSample.play lateHit).calls = [.done none] := rfl
    exact ⟨by simp [hcalls], trivial⟩
  have hhits : loadedSample.hits lateHit = [⟨some 3, 1, some "7f4a7c15"⟩] := by decide +kernel
  obtain ⟨e, he⟩ := Option.isSome_iff_exists.1 (show
    ((loadedSample.play lateHit).session.breakpoints.entries.get? "7f4a7c15").isSome by
      decide +kernel)
  refine ⟨e, he, (faithful_iff_booked bare_loadedSample (numbered_of_inits (by decide +kernel))
    hidle he).2 ?_⟩
  simp [hhits]

/-- A thread hits a breakpoint whose request is made and not booked. -/
def earlyHit : List Turn :=
  ([.call (.addBreakpoint "app.Main" (.line 7) none), .go 0, .go 0, .go 0, .go 0,
    .target (.hit 1 ⟨1, 2, 3, 0⟩), .loop, .loop, .loop, .loop, .loop, .loop, .go 0] :
    List Choice).map .choice

/-- The hit of a breakpoint can go uncounted and be told without an id. -/
theorem not_faithful_earlyHit :
    ¬∀ (c : Scene) (turns : List Turn), c.Bare → (∀ x ∈ turns, x.isOnHits) →
      (∀ xs, xs <+: turns →
        Numbered c.session.ids.next (c.play xs).session (c.play xs).vm) →
      (c.play turns).Idle → ∀ id e,
        (c.play turns).session.breakpoints.entries.get? id = some e → c.Faithful turns id e := by
  intro h
  have hidle : (loadedSample.play earlyHit).Idle := by
    have hcalls : (loadedSample.play earlyHit).calls = [.done none] := rfl
    exact ⟨by simp [hcalls], trivial⟩
  have hhits : loadedSample.hits earlyHit = [⟨some 3, 1, none⟩] := by decide +kernel
  have hentry : ((loadedSample.play earlyHit).session.breakpoints.entries.get? "7f4a7c15").map
      (fun e => (e.requests, e.breakpoint.hitCount)) = some ([3], 0) := by decide +kernel
  obtain ⟨e, he, hbooked⟩ := Option.map_eq_some_iff.1 hentry
  obtain ⟨hrequests, hcount⟩ := Prod.mk.inj hbooked
  have hfaithful := (h loadedSample earlyHit bare_loadedSample (by decide)
    (numbered_of_inits (by decide +kernel)) hidle _ e he).1
  rw [hcount, hhits] at hfaithful
  simp [Hit.isOn, hrequests] at hfaithful

end Scene

end JvmDebug
