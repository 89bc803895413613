import JvmDebug.Proofs.Deferral

/-!
Adding breakpoints and handling events keep the books of deferred breakpoints: what is pending waits
behind a watch that is switched on, or is in the hands of the event loop.
-/
namespace JvmDebug

open Discipline

/-- The ids that additions have drawn, and the breakpoints that the loop has taken out. -/
abbrev InHand := Multiset String × Multiset (String × String)

structure Deferring (start : Nat) (held : InHand) (s : Session) (vm : Vm) : Prop where
  drawn : s.ids.Drawn start (s.breakpoints.names + held.1)
  deferred : s.breakpoints.deferred = s.breakpoints.queued + held.2
  enabled : s.breakpoints.AllEnabled
  watching : ∀ r q name, vm.requests.get? r = some q → q.kind = .classPrepare name →
    q.enabled = true

abbrev deferring (start : Nat) : Discipline Call Call.Reply Session Vm InHand :=
  .ofScene (Sound start) (Deferring start)

def Call.asks : Call → Bool
  | createBreakpoint _ | createClassPrepareWatch _ | deleteRequest _ | resumeEventSet _ => true
  | c => c.inspects

variable {start : Nat} {h rest k : InHand} {s : Session} {vm : Vm} {α : Type}

namespace Deferring

theorem of_vm {vm' : Vm} (hd : Deferring start k s vm)
    (hkeep : ∀ r q name, vm'.requests.get? r = some q → q.kind = .classPrepare name →
      vm.requests.get? r = some q ∨ q.enabled = true) : Deferring start k s vm' where
  drawn := hd.drawn
  deferred := hd.deferred
  enabled := hd.enabled
  watching r q name hq hkind := by
    rcases hkeep r q name hq hkind with hq | hon
    · exact hd.watching r q name hq hkind
    · exact hon

theorem answer {c : Call} (hc : c.asks) (hd : Deferring start k s vm) :
    Deferring start k s (vm.answer c).2 := by
  by_cases hlook : c.inspects
  · rw [vm.answer_inspects hlook]
    exact hd
  cases c with
  | createBreakpoint l | createClassPrepareWatch name =>
    refine hd.of_vm fun r q name hq hkind => ?_
    simp only [Vm.answer, Vm.success, Vm.addRequest, Dict.get?_insert] at hq
    split at hq
    · cases hq
      exact .inr rfl
    · exact .inl hq
  | deleteRequest r =>
    refine hd.of_vm fun r' q name hq hkind => .inl ?_
    simp only [Vm.answer, Vm.deleteRequest] at hq
    split at hq
    · rw [Dict.get?_erase] at hq
      split at hq
      · cases hq
      · exact hq
    · exact hq
  | resumeEventSet set =>
    refine hd.of_vm fun r q name hq hkind => .inl ?_
    rwa [← (vm.resumeSet_books set).1.requests]
  | _ => exact absurd hc hlook

theorem quiet (s t : Session) (vm : Vm) (hst : s.Quiet t) (hs : Sound start t vm) :
    Sound start s vm ∧ ∀ k, Deferring start k s vm → Deferring start k t vm := by
  refine ⟨(balanced_quiet s t vm hst hs).1, fun k hd => ?_⟩
  refine ⟨?_, ?_, ?_, hd.watching⟩
  · rw [hst.ids, hst.breakpoints]
    exact hd.drawn
  · rw [hst.breakpoints]
    exact hd.deferred
  · rw [hst.breakpoints]
    exact hd.enabled

theorem unused {id : String} (hd : Deferring start (({id}, 0) + k) s vm) :
    s.breakpoints.entries.get? id = none := by
  refine Dict.get?_none_of_notMem_names (IdSupply.Drawn.notMem (hd.drawn.mono ?_))
  exact Multiset.add_le_add_left (Multiset.le_add_right _ _)

theorem drop {names : Multiset String} (hd : Deferring start ((names, 0) + k) s vm) :
    Deferring start (0 + k) s vm where
  drawn := hd.drawn.mono (Multiset.add_le_add_left (Multiset.add_le_add_right (Multiset.zero_le _)))
  deferred := hd.deferred
  enabled := hd.enabled
  watching := hd.watching

end Deferring

/-! ## Adding -/

theorem wp_asks {Q : α → InHand → Session → Vm → Prop} {m : Task Session α}
    (hm : m.Within (fun c => c.asks) Session.Quiet) (hh : (deferring start).Holds h rest s vm)
    (hQ : ∀ a rest s vm, (deferring start).Holds h rest s vm → Q a rest s vm) :
    (deferring start).wp Q m rest s vm := by
  refine wp_of_within ?_ ?_ hm hQ hh
  · exact fun c hc k s vm hd _ => Deferring.answer hc hd
  · exact fun s t hst vm => Deferring.quiet s t vm hst

theorem asks_of_inspects {m : Task Session α} (hm : Routine.Inspects m) :
    m.Within (fun c => c.asks) Session.Quiet := by
  refine hm.mono (fun c hc => ?_) fun _ _ hf => hf.elim
  cases c <;> first | exact hc | rfl

theorem asks_deletions (requests : List RequestId) :
    Routine.Within (fun c => c.asks) Session.Quiet (Task.quietlyAll (deletions requests)) := by
  induction requests with
  | nil => trivial
  | cons r rs ih => exact ⟨rfl, fun _ => ih⟩

theorem asks_install (made : List RequestId) (locations : List Location) :
    Routine.Within (fun c => c.asks) Session.Quiet (install made locations).run := by
  induction locations generalizing made with
  | nil => trivial
  | cons l ls ih =>
    refine Op.within_bind ⟨rfl, fun _ => trivial⟩ fun reply => ?_
    cases reply with
    | ok r => exact ih _
    | error e => exact Op.within_bind (Op.within_lift (asks_deletions made)) fun _ => trivial

variable {b : Breakpoint}

theorem holds_insertPending (hb : b.enabled = true) (watch : RequestId)
    (hh : (deferring start).Holds (({b.id}, 0) + h) rest s vm) :
    (deferring start).Holds h rest
      { s with breakpoints := s.breakpoints.insertPending b watch } vm := by
  intro hs
  have hd := hh hs
  rw [add_assoc] at hd
  refine ⟨?_, ?_, BreakpointTable.AllEnabled.insert hd.enabled hb, hd.watching⟩
  · have := hd.drawn
    rwa [Prod.fst_add, ← add_assoc, ← BreakpointTable.names_insertPending hd.unused watch] at this
  · show (s.breakpoints.insertPending b watch).deferred = _
    rw [BreakpointTable.deferred_insertPending hd.unused, BreakpointTable.queued_insertPending,
      hd.deferred, Prod.snd_add, zero_add]
    exact add_right_comm _ _ _

theorem holds_installed (hb : b.enabled = true) (requests : List RequestId)
    (hh : (deferring start).Holds (({b.id}, 0) + h) rest s vm) :
    (deferring start).Holds h rest
      { s with breakpoints := s.breakpoints.insertInstalled b requests } vm := by
  intro hs
  have hd := hh hs
  rw [add_assoc] at hd
  refine ⟨?_, ?_, BreakpointTable.AllEnabled.insert hd.enabled hb, hd.watching⟩
  · have := hd.drawn
    rwa [Prod.fst_add, ← add_assoc, ← BreakpointTable.names_insertInstalled hd.unused requests]
      at this
  · show (s.breakpoints.insertInstalled b requests).deferred = _
    rw [BreakpointTable.deferred_insertInstalled hd.unused, hd.deferred, Prod.snd_add, zero_add]
    rfl

theorem wp_addPending_deferring (hb : b.enabled = true)
    (hh : (deferring start).Holds ({b.id}, 0) rest s vm) :
    (deferring start).wp (fun _ => (deferring start).Holds 0) (Session.addPending b).run rest s vm := by
  have hget (rest : InHand) (s : Session) (vm : Vm) (hh : (deferring start).Holds 0 rest s vm) :
      (deferring start).wp (fun _ => (deferring start).Holds 0) (Session.getBreakpoint b.id).run
        rest s vm := wp_getBreakpoint fun _ => hh
  show (deferring start).wp _ (ExceptT.run (Op.state >>= _)) rest s vm
  refine wp_op_bind (wp_state ?_)
  dsimp only
  cases s.breakpoints.watch? b.className with
  | some watch =>
    refine wp_op_bind (wp_update (hget _ _ _ ?_))
    exact holds_insertPending hb watch (by rwa [add_zero])
  | none =>
    refine wp_op_bind (wp_asks ⟨rfl, fun _ => trivial⟩ hh fun r rest s vm hh => ?_)
    cases r with
    | error e => exact fun hs => (hh hs).drop
    | ok watch =>
      refine wp_op_bind (wp_update (wp_op_bind (wp_state ?_)))
      have hjoined := holds_insertPending hb watch (by rwa [add_zero])
      dsimp only
      split
      · refine wp_op_bind (wp_asks (Op.within_lift ⟨rfl, fun _ => trivial⟩) hjoined
          fun r rest s vm hh => ?_)
        cases r with
        | error e => exact hh
        | ok _ => exact hget _ _ _ hh
      · exact hget _ _ _ hjoined

theorem deferring_addBreakpoint (className : String) (kind : BreakpointKind)
    (condition : Option String) :
    (deferring start).Settles 0 (Operation.addBreakpoint className kind condition).task := by
  refine settles_failure fun rest s vm hh => ?_
  refine wp_op_bind (wp_reach (fun _ _ => hh) fun _ => wp_op_bind (wp_updateGet ?_))
  refine wp_op_bind (wp_state ?_)
  have hmine : (deferring start).Holds ({s.freshId.1}, 0) rest s.freshId.2 vm := by
    intro hs
    have hd := hh hs.of_freshId
    refine ⟨?_, ?_, hd.enabled, hd.watching⟩
    · have := Session.drawn_freshId hd.drawn hs.2.2
      rwa [add_assoc, Prod.fst_add, Prod.fst_zero, zero_add, add_comm rest.1] at this
    · exact hd.deferred
  generalize s.freshId.1 = id at hmine ⊢
  generalize s.freshId.2 = s at hmine ⊢
  have hdrop (rest : InHand) (s : Session) (vm : Vm)
      (hh : (deferring start).Holds ({id}, 0) rest s vm) :
      (deferring start).Holds 0 rest s vm := fun hs => (hh hs).drop
  refine wp_op_bind (wp_asks (asks_of_inspects (Routine.inspects_call rfl)) hmine
    fun r rest s vm hh => ?_)
  cases r with
  | error e => exact hdrop _ _ _ hh
  | ok classes =>
    dsimp only
    split
    · exact wp_addPending_deferring rfl hh
    · refine wp_op_bind (wp_asks (asks_of_inspects (inspects_resolveLocations _ _)) hh
        fun r rest s vm hh => ?_)
      cases r with
      | error e => exact hdrop _ _ _ hh
      | ok locations =>
        dsimp only
        split
        · exact hdrop _ _ _ hh
        · refine wp_op_bind (wp_asks (asks_install _ _) hh fun r rest s vm hh => ?_)
          cases r with
          | error e => exact hdrop _ _ _ hh
          | ok requests =>
            refine wp_op_bind (wp_update (wp_getBreakpoint fun _ => ?_))
            exact holds_installed rfl requests (by rwa [add_zero])

/-! ## Loaded classes -/

theorem wp_quietlyAll_of_absurd {Q : Unit → InHand → Session → Vm → Prop} {calls : List Call}
    (hno : ¬Sound start s vm)
    (hQ : ∀ rest s vm, (deferring start).Holds h rest s vm → Q () rest s vm) :
    (deferring start).wp Q (Task.quietlyAll calls) rest s vm := by
  cases calls with
  | nil => exact hQ _ _ _ fun hs => absurd hs hno
  | cons c cs => exact fun hs => absurd hs hno

/-- A breakpoint that was taken out is booked. It is enabled, as all of them are. -/
theorem Deferring.book {name : String} (hd : Deferring start ((0, {(b.id, name)}) + k) s vm)
    (requests : List RequestId) :
    Deferring start k (Session.bookRequests b.id requests s).2 vm ∧
      (Session.bookRequests b.id requests s).1 = some true := by
  have hmem : (b.id, name) ∈ s.breakpoints.deferred := by
    rw [hd.deferred]
    simp
  have hen := hd.enabled.materialize b.id requests
  refine ⟨⟨?_, ?_, hen.1, hd.watching⟩, ?_⟩
  · show s.ids.Drawn start ((s.breakpoints.materialize b.id requests).2.names + _)
    rw [BreakpointTable.names_materialize]
    have := hd.drawn
    rwa [Prod.fst_add, zero_add] at this
  · show (s.breakpoints.materialize b.id requests).2.deferred =
      (s.breakpoints.materialize b.id requests).2.queued + _
    have := hd.deferred
    rw [BreakpointTable.deferred_materialize hmem requests, Prod.snd_add, add_left_comm] at this
    rw [BreakpointTable.queued_materialize]
    exact add_left_cancel this
  · obtain ⟨e, he, -⟩ := BreakpointTable.mem_deferred.1 hmem
    show (s.breakpoints.materialize b.id requests).1 = some true
    cases hfst : (s.breakpoints.materialize b.id requests).1 with
    | none => simp [BreakpointTable.materialize, he] at hfst
    | some on =>
      cases on with
      | true => rfl
      | false => exact absurd hfst hen.2

/-- What follows the booking tells the target nothing, as the breakpoint is enabled. -/
theorem wp_book_deferring {name : String} {Q : Unit → InHand → Session → Vm → Prop}
    (hQ : ∀ rest s vm, (deferring start).Holds h rest s vm → Q () rest s vm)
    (hh : (deferring start).Holds ((0, {(b.id, name)}) + h) rest s vm)
    (requests : List RequestId) :
    (deferring start).wp Q
      (do Session.followUp requests (← Routine.modifyGet (Session.bookRequests b.id requests)))
      rest s vm := by
  have hbooked : Sound start (Session.bookRequests b.id requests s).2 vm →
      Deferring start (h + rest) (Session.bookRequests b.id requests s).2 vm ∧
        (Session.bookRequests b.id requests s).1 = some true := by
    intro hs
    have hd := hh hs
    rw [add_assoc] at hd
    exact hd.book requests
  show (deferring start).wp Q
    (Session.followUp requests (Session.bookRequests b.id requests s).1) rest
    (Session.bookRequests b.id requests s).2 vm
  generalize Session.bookRequests b.id requests s = p at hbooked ⊢
  obtain ⟨on, s⟩ := p
  rcases on with _ | _ | _
  · exact wp_quietlyAll_of_absurd (fun hs => by cases (hbooked hs).2) hQ
  · exact wp_quietlyAll_of_absurd (fun hs => by cases (hbooked hs).2) hQ
  · exact hQ _ _ _ fun hs => (hbooked hs).1

theorem wp_materialize_deferring {c : TypeInfo} (name : String)
    {Q : Unit → InHand → Session → Vm → Prop}
    (hQ : ∀ rest s vm, (deferring start).Holds h rest s vm → Q () rest s vm)
    (hh : (deferring start).Holds ((0, {(b.id, name)}) + h) rest s vm) :
    (deferring start).wp Q (Session.materialize c b) rest s vm := by
  refine wp_bind (wp_op_bind (wp_asks (asks_of_inspects (inspects_resolveLocations _ _)) hh
    fun r rest s vm hh => ?_))
  cases r with
  | error e => exact wp_book_deferring hQ hh []
  | ok locations =>
    refine wp_asks (asks_install _ _) hh fun r rest s vm hh => ?_
    cases r with
    | error e => exact wp_book_deferring hQ hh []
    | ok requests => exact wp_book_deferring hQ hh requests

theorem wp_materializeAll_deferring {c : TypeInfo} {name : String}
    {Q : Unit → InHand → Session → Vm → Prop}
    (hQ : ∀ rest s vm, (deferring start).Holds 0 rest s vm → Q () rest s vm)
    {waiting : List Breakpoint}
    (hh : (deferring start).Holds
      (0, (waiting.map fun b => (b.id, name) : List (String × String))) rest s vm) :
    (deferring start).wp Q (Session.materializeAll c waiting) rest s vm := by
  induction waiting generalizing rest s vm with
  | nil => exact hQ _ _ _ hh
  | cons b bs ih =>
    refine wp_bind (wp_materialize_deferring name (fun _ _ _ hh => ih hh) ?_)
    exact hh

theorem holds_takePending_deferring {name : String} {watch : RequestId} {waiting : List Breakpoint}
    (htaken : (Session.takePending name s).1 = some (watch, waiting))
    (hh : (deferring start).Holds 0 rest s vm) :
    (deferring start).Holds (0, (waiting.map fun b => (b.id, name) : List (String × String))) rest
      (Session.takePending name s).2 vm := by
  intro hs
  have hd := hh hs
  rw [zero_add] at hd
  cases hp : s.breakpoints.pending.get? name with
  | none =>
    simp only [Session.takePending, BreakpointTable.takePending_of_none hp] at htaken
    cases htaken
  | some p =>
    have hwaiting : p.ids.filterMap s.breakpoints.get? = waiting := by
      simp only [Session.takePending, BreakpointTable.takePending, hp] at htaken
      cases htaken
      rfl
    have hall := BreakpointTable.taken_eq hp hd.enabled fun x hx => by
      rw [hd.deferred]
      exact Multiset.mem_add.2 (.inl hx)
    rw [hwaiting] at hall
    have hentries : (s.breakpoints.takePending name).2.entries = s.breakpoints.entries := by
      simp only [BreakpointTable.takePending, hp]
    refine ⟨?_, ?_, ?_, hd.watching⟩
    · show s.ids.Drawn start ((s.breakpoints.takePending name).2.names + _)
      rw [BreakpointTable.names_takePending, Prod.fst_add, zero_add]
      exact hd.drawn
    · show (s.breakpoints.takePending name).2.deferred =
        (s.breakpoints.takePending name).2.queued + _
      have := hd.deferred
      rw [BreakpointTable.queued_takePending hp, ← hall, add_comm (Multiset.ofList _),
        add_assoc] at this
      rw [BreakpointTable.deferred, hentries]
      exact this
    · show (s.breakpoints.takePending name).2.AllEnabled
      rw [BreakpointTable.AllEnabled, hentries]
      exact hd.enabled

theorem deferring_classLoaded (c : TypeInfo) {Q : Unit → InHand → Session → Vm → Prop}
    (hQ : ∀ rest s vm, (deferring start).Holds 0 rest s vm → Q () rest s vm)
    (hh : (deferring start).Holds 0 rest s vm) :
    (deferring start).wp Q (Session.classLoaded c) rest s vm := by
  show (deferring start).wp Q (Session.installWaiting c (Session.takePending c.name s).1) rest
    (Session.takePending c.name s).2 vm
  cases htaken : (Session.takePending c.name s).1 with
  | none =>
    rw [Session.takePending_of_none htaken]
    exact hQ _ _ _ hh
  | some taken =>
    obtain ⟨watch, waiting⟩ := taken
    have hheld := holds_takePending_deferring htaken hh
    generalize (Session.takePending c.name s).2 = s at hheld ⊢
    show (deferring start).wp Q (if s.unreachable?.isSome then _ else _) rest s vm
    split
    · next hno =>
      refine hQ _ _ _ fun hs => ?_
      rw [hs.1] at hno
      cases hno
    · refine wp_bind (wp_asks ⟨rfl, fun _ => trivial⟩ hheld fun _ rest s vm hh => ?_)
      exact wp_materializeAll_deferring hQ hh

/-! ## Events and happenings -/

theorem deferring_event (e : TargetEvent) :
    (deferring start).Settles 0 (Session.handleEvent e) := by
  have hquiet {m : Task Session Bool} (hm : Routine.Quietly m) (rest : InHand) (s : Session)
      (vm : Vm) (hh : (deferring start).Holds 0 rest s vm) :
      (deferring start).wp (fun _ => (deferring start).Holds 0) m rest s vm :=
    wp_quietly Deferring.quiet hm hh fun _ _ _ _ hh => hh
  intro rest s vm hh
  cases e with
  | breakpoint request t l =>
    show (deferring start).wp _ (Session.reportHit _ t l) rest (Session.recordHit request s).2 vm
    refine hquiet (Session.quietly_reportHit _ t l) _ _ _ ?_
    cases request with
    | none => exact hh
    | some r =>
      intro hs
      have hd := hh hs
      obtain ⟨hdeferred, hpending, hen⟩ := s.breakpoints.recordHit_keeps r
      refine ⟨?_, ?_, hen hd.enabled, hd.watching⟩
      · show s.ids.Drawn start ((s.breakpoints.recordHit r).2.names + _)
        rw [BreakpointTable.names_recordHit]
        exact hd.drawn
      · show (s.breakpoints.recordHit r).2.deferred = (s.breakpoints.recordHit r).2.queued + _
        rw [hdeferred, BreakpointTable.queued, hpending]
        exact hd.deferred
  | step request t l =>
    rw [Session.handleEvent_step]
    have hfinish : (deferring start).Holds 0 rest (s.finishStep t request).2 vm := by
      intro hs
      obtain ⟨hs, hkeep⟩ := Deferring.quiet s _ vm (s.quiet_finishStep t request) hs
      exact hkeep _ (hh hs)
    show (deferring start).wp _ _ rest (s.finishStep t request).2 vm
    beta_reduce
    cases (s.finishStep t request).1 with
    | none => exact hquiet (Session.quietly_reportStep t l) _ _ _ hfinish
    | some r =>
      refine wp_request hfinish fun rest s vm hinv hs hs' => ?_
      refine ⟨0, Deferring.answer rfl hinv, fun rest s vm' hh => ?_⟩
      exact hquiet (Session.quietly_reportStep t l) _ _ _ hh
  | classPrepare request t c => exact wp_bind (deferring_classLoaded c (fun _ _ _ hh => hh) hh)
  | vmStart | exception | threadStart | threadDeath | vmDeath =>
    refine hquiet (Session.quietly_handleEvent ?_) _ _ _ hh
    rfl

theorem deferring_resumeAfter (set : EventSet) :
    (deferring start).Settles 0 (Session.resumeAfter set) := by
  intro rest s vm hh
  simp only [Session.resumeAfter]
  split
  · exact hh
  · refine wp_request hh fun rest s vm hinv hs hs' => ?_
    exact ⟨0, Deferring.answer rfl hinv, fun rest s vm' hh => hh⟩

def Operation.isAddBreakpoint : Operation → Bool
  | addBreakpoint .. => true
  | _ => false

theorem deferring_operation {o : Operation} (ho : o.isAddBreakpoint) :
    (deferring start).Settles 0 o.task := by
  cases o with
  | addBreakpoint className kind condition => exact deferring_addBreakpoint className kind condition
  | addException | setEnabled | remove | clear | resume | suspend | resumeThread | suspendThread
  | step => cases ho

theorem deferring_rules (start : Nat) :
    Rules (Sound start) (Deferring start) (fun o => o.isAddBreakpoint) (fun _ => True)
      (fun _ => True) where
  operation _ ho := deferring_operation ho
  event e _ := deferring_event e
  resumeAfter := deferring_resumeAfter
  reported _ _ _ _ _ _ _ _ := trivial
  read _ _ _ _ _ hd _ := ⟨hd.drawn, hd.deferred, hd.enabled, hd.watching⟩
  disconnected h s vm hd hs := (Deferring.quiet s _ vm s.quiet_disconnected hs).2 h hd
  happening x _ _ s vm hd _ := hd.of_vm fun r q name hq _ => by
    rw [(x.apply_books vm).requests] at hq
    exact .inl hq

end JvmDebug
