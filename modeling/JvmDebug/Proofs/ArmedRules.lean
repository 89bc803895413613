import JvmDebug.Proofs.ArmedBooks
import JvmDebug.Proofs.Deeds

/-!
Every deed on breakpoints leaves them armed: once an operation or the handling of a report is
through, no request is due any more.
-/
namespace JvmDebug

open Routine

/-! ## Routines that lose requests at most -/

abbrev Routine.Losing {α : Type} (m : Task Session α) : Prop :=
  m.Within (fun c => c.leavesFlags) Session.Loses

section
variable {α : Type}

theorem losing_deletions (requests : List RequestId) :
    Losing (Task.quietlyAll (deletions requests) : Task Session Unit) :=
  Session.within_deletions (fun _ => rfl) requests

theorem losing_remove (id : String) : Losing (Operation.remove id).task := by
  refine within_bind ?_ fun r => by cases r <;> trivial
  exact Session.within_removeBreakpoint (fun _ => rfl) (fun _ => Session.Quiet.rfl.loses)
    (Session.loses_takeOut id)

theorem losing_clear : Losing Operation.clear.task := by
  refine within_bind ?_ fun _ => trivial
  exact Session.within_clearBreakpoints (fun _ => rfl) (fun _ => Session.Quiet.rfl.loses)
    Session.loses_takeAll

theorem losing_handleEvent {e : TargetEvent} (he : ∀ r t c, e ≠ .classPrepare r t c) :
    Losing (Session.handleEvent e) :=
  Session.within_handleEvent he (fun _ => Call.leavesFlags_of_inspects) (fun _ => rfl)
    (fun _ _ h => h.loses) Session.loses_recordHit

theorem losing_resumeAfter (set : EventSet) : Losing (Session.resumeAfter set) :=
  Session.within_resumeAfter rfl fun s => s.quiet_disconnected.loses

end

/-! ## Rules -/

section
variable {scope : String → String → Option TypeId} {due : List RequestId} {start : Nat}
variable {s : Session} {vm : Vm} {α : Type}

theorem leads_losing {m : Task Session α} (hm : Losing m) (ha : Armed scope due s vm) :
    m.Leads Vm.serve (Sound start) (fun _ => Armed scope due) s vm :=
  leads_of_within (fun _ hc _ _ ha hg => ha.moves (Vm.moves_answer hc hg.2.1))
    (fun _ _ h _ ha => ha.loses h) hm ha

theorem leads_getBreakpoint {I : Session → Vm → Prop} {id : String} (h : I s vm) :
    (Session.getBreakpoint id).run.Leads Vm.serve (Sound start) (fun _ => I) s vm := by
  show Leads Vm.serve (Sound start) _ (ExceptT.run (Op.state >>= _)) s vm
  refine leads_op_bind (leads_state ?_)
  dsimp only
  cases s.breakpoints.get? id <;> exact h

theorem leads_install {Q : Except DebugError (List RequestId) → Session → Vm → Prop}
    (hQ : ∀ requests vm, Armed scope [] s vm → Spare requests s vm → Q (.ok requests) s vm)
    {locations : List Location} (first : List RequestId) (ha : Armed scope [] s vm)
    (hspare : Spare first s vm) :
    (install first locations).run.Leads Vm.serve (Sound start) Q s vm := by
  induction locations generalizing first vm with
  | nil => exact hQ first vm ha hspare
  | cons l ls ih =>
    refine leads_op_bind fun hg hg' => ?_
    exact ih _ (ha.moves (Vm.moves_addRequest hg'.2.1)) (hspare.addRequest ha hg'.2.1)

/-! ### Setting breakpoints -/

theorem Armed.insertInstalled {b : Breakpoint} {requests : List RequestId}
    (ha : Armed scope [] s vm) (hspare : Spare requests s vm) (hon : b.enabled = true)
    (hhits : b.hitCount = 0) (hnew : s.breakpoints.entries.get? b.id = none) :
    Armed scope [] { s with breakpoints := s.breakpoints.insertInstalled b requests } vm := by
  have hgains := BreakpointTable.gains_insertInstalled hnew hhits requests
  have hbooks := s.books_insertInstalled b requests
  rw [hon] at hbooks
  refine ha.books_on hspare hbooks (hgains.indexed (fun _ hr => ?_) ha.indexed) ha.catching
  exact hspare.unowned ha.indexed hr

theorem Armed.insertPending {b : Breakpoint} (ha : Armed scope [] s vm) (hhits : b.hitCount = 0)
    (hnew : s.breakpoints.entries.get? b.id = none) (watch : RequestId) :
    Armed scope [] { s with breakpoints := s.breakpoints.insertPending b watch } vm := by
  have hgains := BreakpointTable.gains_insertPending hnew hhits watch
  refine ha.loses ⟨s.sheds_insertPending b watch, fun hi => ?_, fun _ _ he => he⟩
  exact hgains.indexed (fun r hr => by cases hr) hi

theorem leads_addPending {b : Breakpoint} (hhits : b.hitCount = 0)
    (hnew : s.breakpoints.entries.get? b.id = none) (ha : Armed scope [] s vm) :
    (Session.addPending b).run.Leads Vm.serve (Sound start) (fun _ => Armed scope []) s vm := by
  show Leads Vm.serve (Sound start) _ (ExceptT.run (Op.state >>= _)) s vm
  refine leads_op_bind (leads_state ?_)
  dsimp only
  cases s.breakpoints.watch? b.className with
  | some watch => exact leads_op_bind (leads_getBreakpoint (ha.insertPending hhits hnew watch))
  | none =>
    refine leads_op_bind fun hg hg' => ?_
    have hwaits := (ha.moves (Vm.moves_addRequest hg'.2.1)).insertPending hhits hnew vm.nextRequest
    refine leads_op_bind (leads_op_bind (leads_state ?_))
    dsimp only
    split
    · refine leads_op_bind (leads_lift fun _ hg => ?_)
      exact leads_getBreakpoint (hwaits.moves (Vm.moves_deleteRequest _ _))
    · exact leads_getBreakpoint hwaits

theorem leads_addBreakpoint (className : String) (kind : BreakpointKind) (condition : Option String)
    (hb : Balanced start 0 s vm) (ha : Armed scope [] s vm) :
    (Operation.addBreakpoint className kind condition).task.Leads Vm.serve (Sound start)
      (fun _ => Armed scope []) s vm := by
  refine leads_failure (leads_op_bind (leads_reach (fun _ _ => ha) fun _ => ?_))
  refine leads_op_bind (leads_op_bind (leads_state (leads_op_bind (leads_look rfl fun hg r => ?_))))
  have hnew : s.freshId.2.breakpoints.entries.get? s.freshId.1 = none := (hb.freshId hg).unused.1
  have ha : Armed scope [] s.freshId.2 vm := ha.loses s.loses_freshId
  cases r with
  | error e => exact ha
  | ok classes =>
    dsimp only
    split
    · exact leads_addPending rfl hnew ha
    · refine leads_op_bind (leads_inspects (inspects_resolveLocations _ _) fun r => ?_)
      cases r with
      | error e => exact ha
      | ok locations =>
        dsimp only
        split
        · exact ha
        · refine leads_op_bind (leads_install (fun requests vm ha hspare => ?_) [] ha (.nil _ vm))
          exact leads_op_bind (leads_getBreakpoint (ha.insertInstalled hspare rfl rfl hnew))

/-! ### Exceptions -/

/-- An exception breakpoint that is new is narrowed to what it was asked to be. -/
theorem Armed.insertException {b : ExceptionBreakpoint} {narrow : Option TypeId}
    (ha : Armed scope [] s vm) (hon : b.enabled = true) (hnarrow : scope b.id b.className = narrow)
    (hnext : (vm.addRequest (.exception narrow b.caught b.uncaught)).2.nextRequest ≠ 0) :
    Armed scope [] { s with exceptions := s.exceptions.insert b vm.nextRequest }
      (vm.addRequest (.exception narrow b.caught b.uncaught)).2 := by
  have hmoved := ha.moves (Vm.moves_addRequest hnext)
  have hspare := Spare.addRequest (.nil s vm) ha hnext
  have hbooks := s.books_insertException b vm.nextRequest
  rw [hon] at hbooks
  refine hmoved.books_on hspare hbooks hmoved.indexed fun id e he q hq => ?_
  simp only [ExceptionTable.insert, Dict.get?_insert] at he
  split at he
  · next hid =>
    subst hid
    cases he
    simp only [Vm.addRequest, Dict.get?_insert, if_true] at hq
    cases hq
    rw [hnarrow]
  · exact hmoved.catching id e he q hq

theorem freshId_unused (hb : Balanced start 0 s vm) (hdiffer : s.freshId.2.IdsDiffer start) :
    s.exceptions.entries.get? s.freshId.1 = none := by
  have hnot := (Session.drawn_freshId hb.drawn hdiffer).notMem
  rw [Prod.snd_zero, add_zero, Session.names, Multiset.mem_add, not_or] at hnot
  exact Dict.get?_none_of_notMem_names hnot.2

theorem leads_addException (className : String) (caught uncaught : Bool)
    (hb : Balanced start 0 s vm) (ha : Armed scope [] s vm)
    (hscope : ∀ id name, s.exceptions.entries.get? id = none → scope id name = vm.scopeFor name) :
    (Operation.addException className caught uncaught).task.Leads Vm.serve (Sound start)
      (fun _ s vm => Sound start s vm → Armed scope [] s vm) s vm := by
  have hmake (name : String) (narrow : Option TypeId) (hnarrow : vm.scopeFor name = narrow) :
      (ExceptT.run do
        let request : RequestId ← Op.call (.createExceptionRequest narrow caught uncaught)
        let id ← Op.updateGet Session.freshId
        let b : ExceptionBreakpoint :=
          { id, caught, uncaught
            className := name
            enabled := true
            createdAt := (← Op.state).clock }
        Op.update fun s => { s with exceptions := s.exceptions.insert b request }
        return b).Leads Vm.serve (Sound start)
          (fun _ s vm => Sound start s vm → Armed scope [] s vm) s vm := by
    refine leads_op_bind fun _ hg' => ?_
    refine leads_op_bind (leads_op_bind (leads_state (leads_op_bind fun hs => ?_)))
    have hnew := freshId_unused hb hs.2.2
    refine (ha.loses s.loses_freshId).insertException rfl ?_ hg'.2.1
    exact (hscope _ name hnew).trans hnarrow
  refine leads_failure (leads_op_bind (leads_reach (fun _ _ _ => ha) fun _ => ?_))
  dsimp only
  rcases em (Session.meansAny className) with hany | hany
  · rw [if_pos hany]
    refine leads_op_bind (hmake _ none ?_)
    rw [if_pos hany]
    rfl
  · rw [if_neg hany]
    refine leads_op_bind fun _ _ => leads_op_bind (hmake _ _ ?_)
    rw [if_neg hany, Vm.scopeFor, if_neg hany, List.head?_map, List.head?_filter, Option.map_map]
    rfl

/-! ### Switching -/

theorem Balanced.filed_of_booked (hb : Balanced start 0 s vm) {x : SpecRef} {flag : Bool}
    {requests : List RequestId} (hx : s.spec? x = some (flag, requests)) {r : RequestId}
    (hr : r ∈ requests) : vm.requests.contains r := by
  have hmem : ∃ topic, r ∈ vm.requestsOn topic := by
    cases x with
    | breakpoint id =>
      obtain ⟨e, he, hpair⟩ := Option.map_eq_some_iff.1 hx
      obtain ⟨-, rfl⟩ := Prod.mk.inj hpair
      refine ⟨.breakpoint, hb.owns.breakpoints.mem_iff.2 (List.mem_flatMap.2 ⟨e, ?_, hr⟩)⟩
      exact Dict.mem_values.2 ⟨id, he⟩
    | exception id =>
      obtain ⟨e, he, hpair⟩ := Option.map_eq_some_iff.1 hx
      obtain ⟨-, rfl⟩ := Prod.mk.inj hpair
      obtain rfl := List.mem_singleton.1 hr
      refine ⟨.exception, hb.owns.exceptions.mem_iff.2 (List.mem_map.2 ⟨e, ?_, rfl⟩)⟩
      exact Dict.mem_values.2 ⟨id, he⟩
  obtain ⟨topic, hmem⟩ := hmem
  obtain ⟨p, hp, hpr⟩ := List.mem_filterMap.1 hmem
  split at hpr
  · cases hpr
    have := Dict.mem_entries.1 (show (p.1, p.2) ∈ vm.requests.entries from hp)
    simp [Dict.contains, this]
  · cases hpr

theorem leads_switchAll {x : SpecRef} {enabled : Bool} {requests : List RequestId}
    (hx : s.spec? x = some (enabled, requests)) (hdue : ∀ r ∈ due, r ∈ requests)
    (hfiled : ∀ r ∈ due, vm.requests.contains r) (ha : Armed scope due s vm) :
    (Session.switchAll enabled due).run.Leads Vm.serve (Sound start) (fun _ => Armed scope []) s
      vm := by
  induction due generalizing vm with
  | nil => exact ha
  | cons r rs ih =>
    rw [List.forall_mem_cons] at hdue hfiled
    have hreply : (vm.switchRequest r enabled).1 = .ok () := by
      simp only [Vm.switchRequest, if_pos hfiled.1]
    refine leads_op_bind fun _ _ => ?_
    show Leads Vm.serve (Sound start) _
      (.done ((vm.switchRequest r enabled).1.mapError DebugError.ofTarget)) s
      (vm.switchRequest r enabled).2
    rw [hreply]
    refine ih hdue.2 (fun q hq => ?_) (ha.switch hx hdue.1)
    have hq := hfiled.2 q hq
    simp only [Dict.contains, vm.get?_switchRequest, Option.isSome_map] at hq ⊢
    exact hq

/-- The storing of a flag changes nothing else of an exception breakpoint. -/
theorem Session.exceptions_storeEnabled (id : String) (enabled : Bool) (s : Session)
    {other : String} {e : ExceptionEntry}
    (he : (storeEnabled id enabled s).2.exceptions.entries.get? other = some e) :
    ∃ e₀ on, s.exceptions.entries.get? other = some e₀ ∧
      e = { e₀ with breakpoint := { e₀.breakpoint with enabled := on } } := by
  cases hb : s.breakpoints.entries.get? id with
  | some b =>
    rw [storeEnabled_of_some hb] at he
    exact ⟨e, e.breakpoint.enabled, he, rfl⟩
  | none =>
    simp only [storeEnabled_of_none hb, ExceptionTable.setEnabled, Dict.get?_modify] at he
    split at he
    · next hother =>
      obtain ⟨e₀, he₀, rfl⟩ := Option.map_eq_some_iff.1 he
      exact ⟨e₀, enabled, hother ▸ he₀, rfl⟩
    · exact ⟨e, e.breakpoint.enabled, he, rfl⟩

theorem Session.loses_storeEnabled {id : String} {enabled : Bool}
    (h : (storeEnabled id enabled s).1 = none) : s.Loses (storeEnabled id enabled s).2 := by
  refine ⟨sheds_storeEnabled h, (thins_storeEnabled id enabled s).breakpoints.indexed,
    fun other e he => ?_⟩
  cases hb : s.breakpoints.entries.get? id with
  | some b =>
    rw [storeEnabled_of_some hb] at h
    cases h
  | none =>
    rw [storeEnabled_of_none hb] at h he
    have hnone : s.exceptions.entries.get? id = none := by simpa using h
    simpa only [ExceptionTable.setEnabled, Dict.modify_of_none hnone] using he

theorem leads_setEnabled (id : String) (enabled : Bool) (hb : Balanced start 0 s vm)
    (ha : Armed scope [] s vm) :
    (Operation.setEnabled id enabled).task.Leads Vm.serve (Sound start)
      (fun _ s vm => Sound start s vm → Armed scope [] s vm) s vm := by
  refine leads_failure (leads_op_bind (leads_updateGet ?_))
  have hindexed := (Session.thins_storeEnabled id enabled s).breakpoints.indexed ha.indexed
  cases hstored : (Session.storeEnabled id enabled s).1 with
  | none => exact fun _ => ha.loses (Session.loses_storeEnabled hstored)
  | some requests =>
    obtain ⟨x, hstores⟩ := Session.stores_storeEnabled hstored
    have hdue := ha.stores hstores hindexed fun _ _ he => Session.exceptions_storeEnabled _ _ _ he
    obtain ⟨old, hbefore⟩ := hstores.before
    dsimp only
    split
    · next hempty =>
      rw [List.isEmpty_iff.1 hempty] at hdue
      exact fun _ => hdue
    · refine leads_op_bind (leads_reach (fun e he hs => ?_) fun _ => ?_)
      · rw [hs.1] at he
        cases he
      · refine (leads_switchAll hstores.here (fun _ hr => hr) (fun r hr => ?_) hdue).granted
        exact hb.filed_of_booked hbefore hr

/-! ### Loaded classes -/

theorem leads_switches {x : SpecRef} {enabled : Bool} {requests : List RequestId}
    (hx : s.spec? x = some (enabled, requests)) (hdue : ∀ r ∈ due, r ∈ requests)
    (ha : Armed scope due s vm) :
    (Task.quietlyAll (due.map fun r => .setRequestEnabled r enabled)).Leads Vm.serve (Sound start)
      (fun _ => Armed scope []) s vm := by
  induction due generalizing vm with
  | nil => exact ha
  | cons r rs ih =>
    rw [List.forall_mem_cons] at hdue
    exact fun _ _ => ih hdue.2 (ha.switch hx hdue.1)

theorem leads_followUp {requests : List RequestId} (id : String) (hspare : Spare requests s vm)
    (ha : Armed scope [] s vm) :
    (Session.followUp requests (Session.bookRequests id requests s).1).Leads Vm.serve (Sound start)
      (fun _ => Armed scope []) (Session.bookRequests id requests s).2 vm := by
  cases hbooked : (Session.bookRequests id requests s).1 with
  | none =>
    rw [Session.bookRequests_of_none hbooked]
    exact leads_losing (losing_deletions requests) ha
  | some flag =>
    have hbooks := Session.books_bookRequests hbooked
    have hgains : s.breakpoints.Gains (Session.bookRequests id requests s).2.breakpoints id
        requests := BreakpointTable.gains_materialize hbooked
    have hindexed := hgains.indexed (fun _ hr => hspare.unowned ha.indexed hr) ha.indexed
    cases flag with
    | true => exact ha.books_on hspare hbooks hindexed ha.catching
    | false =>
      obtain ⟨old, hx, -⟩ := hbooks.here
      exact leads_switches hx (fun _ hr => List.mem_append_right _ hr)
        (ha.books hspare hbooks hindexed ha.catching)

theorem leads_materialize (c : TypeInfo) (b : Breakpoint) (ha : Armed scope [] s vm) :
    (Session.materialize c b).Leads Vm.serve (Sound start) (fun _ => Armed scope []) s vm := by
  refine leads_bind (leads_op_bind (leads_inspects (inspects_resolveLocations _ _) fun r => ?_))
  cases r with
  | error e => exact leads_followUp b.id (.nil s vm) ha
  | ok locations =>
    refine leads_install (fun requests vm ha hspare => ?_) [] ha (.nil s vm)
    exact leads_followUp b.id hspare ha

theorem leads_materializeAll (c : TypeInfo) (waiting : List Breakpoint) (ha : Armed scope [] s vm) :
    (Session.materializeAll c waiting).Leads Vm.serve (Sound start) (fun _ => Armed scope []) s
      vm := by
  induction waiting generalizing s vm with
  | nil => exact ha
  | cons b bs ih => exact leads_bind ((leads_materialize c b ha).mono fun _ _ _ ha => ih ha)

theorem leads_classLoaded (c : TypeInfo) (ha : Armed scope [] s vm) :
    (Session.classLoaded c).Leads Vm.serve (Sound start) (fun _ => Armed scope []) s vm := by
  show Leads Vm.serve (Sound start) _ (Session.installWaiting c (Session.takePending c.name s).1)
    (Session.takePending c.name s).2 vm
  have ha : Armed scope [] (Session.takePending c.name s).2 vm :=
    ha.loses (Session.loses_takePending c.name s)
  generalize Session.takePending c.name s = p at ha ⊢
  obtain ⟨taken, s⟩ := p
  cases taken with
  | none => exact ha
  | some taken =>
    show Leads Vm.serve (Sound start) _ (if s.unreachable?.isSome then _ else _) s vm
    split
    · exact ha
    · exact fun _ _ => leads_materializeAll c taken.2 (ha.moves (vm.moves_deleteRequest taken.1))

/-! ### Reports -/

theorem leads_handleEvent (e : TargetEvent) (ha : Armed scope [] s vm) :
    (Session.handleEvent e).Leads Vm.serve (Sound start) (fun _ => Armed scope []) s vm := by
  cases e with
  | classPrepare r t c => exact leads_bind (leads_classLoaded c ha)
  | vmStart | breakpoint | step | exception | threadStart | threadDeath | vmDeath =>
    exact leads_losing (losing_handleEvent nofun) ha

theorem leads_handleEvents (events : List TargetEvent) (ha : Armed scope [] s vm) :
    (Session.handleEvents events).Leads Vm.serve (Sound start) (fun _ => Armed scope []) s vm := by
  induction events generalizing s vm with
  | nil => exact ha
  | cons e es ih =>
    refine leads_bind ((leads_handleEvent e ha).mono fun goesOn s vm ha => ?_)
    cases goesOn with
    | true => exact ih ha
    | false => exact ha

theorem leads_handleSet (set : EventSet) (ha : Armed scope [] s vm) :
    (Session.handleSet set).Leads Vm.serve (Sound start) (fun _ => Armed scope []) s vm := by
  refine leads_bind ((leads_handleEvents set.events ha).mono fun goesOn s vm ha => ?_)
  cases goesOn with
  | true => exact leads_losing (losing_resumeAfter set) ha
  | false => exact ha

end

/-! ## Deeds -/

variable {scope : String → String → Option TypeId} {start : Nat} {c : Scene} {d : Deed}

theorem leads_operation {o : Operation} (ho : o.isOnBreakpoints)
    (hb : Balanced start 0 c.session c.vm) (ha : Armed scope [] c.session c.vm)
    (hscope : ∀ id name, c.session.exceptions.entries.get? id = none →
      scope id name = c.vm.scopeFor name) :
    o.task.Leads Vm.serve (Sound start) (fun _ s vm => Sound start s vm → Armed scope [] s vm)
      c.session c.vm := by
  cases o with
  | addBreakpoint className kind condition =>
    exact (leads_addBreakpoint className kind condition hb ha).granted
  | addException className caught uncaught =>
    exact leads_addException className caught uncaught hb ha hscope
  | setEnabled id enabled => exact leads_setEnabled id enabled hb ha
  | remove id => exact (leads_losing (losing_remove id) ha).granted
  | clear => exact (leads_losing losing_clear ha).granted
  | resume | suspend | resumeThread | suspendThread | step => cases ho

/-- A deed leaves the breakpoints armed. What is new is narrowed as the target then is. -/
theorem Armed.perform (ha : Armed scope [] c.session c.vm) (hb : Balanced start 0 c.session c.vm)
    (h : Scene.Smooth start c [d])
    (hscope : ∀ id name, c.session.exceptions.entries.get? id = none →
      scope id name = c.vm.scopeFor name) :
    Armed scope [] (c.perform d).session (c.perform d).vm := by
  refine h.leads (I := fun s vm => Sound start s vm → Armed scope [] s vm) ?_ h.after
  cases d with
  | operation o =>
    exact leads_bind (leads_operation (h.onBreakpoints _ (List.mem_singleton_self _)) hb ha hscope)
  | happening x => exact fun _ => ha.moves (x.apply_books c.vm).moves
  | handling =>
    simp only [Deed.begun]
    split
    · exact fun _ => ha
    · refine leads_bind ((leads_handleSet _ (ha.moves ?_)).granted)
      exact Vm.SameBooks.moves ⟨rfl, rfl⟩
    · refine fun _ => (ha.moves ?_).loses c.session.quiet_disconnected.loses
      exact Vm.SameBooks.moves ⟨rfl, rfl⟩

end JvmDebug
