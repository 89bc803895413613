import JvmDebug.Proofs.OwnershipOperations
import JvmDebug.Proofs.TargetCalls

/-!
The event loop and the target keep the books of requests: the loop hands the requests it makes for
waiting breakpoints to the table, or deletes them, and what happens in the target files nothing.
-/
namespace JvmDebug

open Discipline

variable {start : Nat} {h rest : Held} {s : Session} {vm : Vm}

/-! ## Small steps of a session -/

theorem balanced_quiet (s t : Session) (vm : Vm) (hst : s.Quiet t) (hs : Sound start t vm) :
    Sound start s vm ∧ ∀ k, Balanced start k s vm → Balanced start k t vm := by
  refine ⟨⟨hst.reach hs.1, hs.2.1, hs.2.2.of_eq hst.ids⟩, fun k hb => ?_⟩
  refine hb.of_session hst.ids ?_ ?_
  · rw [Session.booked, hst.breakpoints, hst.exceptions, Session.booked]
  · rw [Session.names, hst.breakpoints, hst.exceptions, Session.names]

theorem holds_recordHit (request : Option RequestId)
    (hh : (ownership start).Holds h rest s vm) :
    (ownership start).Holds h rest (Session.recordHit request s).2 vm := by
  cases request with
  | none => exact hh
  | some r =>
    refine holds_of_eq hh rfl ?_ ?_ fun hu => hu
    · exact congrArg (· + s.exceptions.accounts) (s.breakpoints.accounts_recordHit r)
    · exact congrArg (· + s.exceptions.names) (s.breakpoints.names_recordHit r)

/-! ## Loaded classes -/

theorem wp_switches {enabled : Bool} {Q : Unit → Held → Session → Vm → Prop}
    (hQ : ∀ rest s vm, (ownership start).Holds h rest s vm → Q () rest s vm)
    {requests : List RequestId} (hh : (ownership start).Holds h rest s vm) :
    (ownership start).wp Q
      (Task.quietlyAll (requests.map fun r => .setRequestEnabled r enabled)) rest s vm := by
  induction requests generalizing rest s vm with
  | nil => exact hQ _ _ _ hh
  | cons r rs ih => exact wp_setRequestEnabled (fun _ _ _ _ hh => ih hh) hh

theorem holds_bookRequests (id : String) {requests : List RequestId}
    (hh : (ownership start).Holds (Held.requests (.ofBreakpoints requests)) rest s vm) :
    (ownership start).Holds
      (if (Session.bookRequests id requests s).1.isSome then 0
        else Held.requests (.ofBreakpoints requests))
      rest (Session.bookRequests id requests s).2 vm := by
  have haccounts := s.breakpoints.accounts_materialize id requests
  have hnames := s.breakpoints.names_materialize id requests
  show (ownership start).Holds
    (if (s.breakpoints.materialize id requests).1.isSome then 0
      else Held.requests (.ofBreakpoints requests))
    rest { s with breakpoints := (s.breakpoints.materialize id requests).2 } vm
  split at haccounts
  · next hsome =>
    rw [if_pos hsome]
    refine fun hs => (hh hs).setBreakpoints ?_ ?_
    · rw [haccounts]
      simp only [Held.requests, Prod.fst_add, zero_add]
      abel
    · rw [hnames]
      simp only [Held.requests, Prod.snd_add, zero_add]
      exact le_rfl
  · next hnone =>
    rw [if_neg hnone]
    refine holds_of_eq hh rfl ?_ ?_ fun hu => hu
    · exact congrArg (· + s.exceptions.accounts) (haccounts.trans (add_zero _))
    · exact congrArg (· + s.exceptions.names) hnames

theorem wp_materialize {c : TypeInfo} {b : Breakpoint} {Q : Unit → Held → Session → Vm → Prop}
    (hQ : ∀ rest s vm, (ownership start).Holds 0 rest s vm → Q () rest s vm)
    (hh : (ownership start).Holds 0 rest s vm) :
    (ownership start).wp Q (Session.materialize c b) rest s vm := by
  have hbook (requests : List RequestId) (rest : Held) (s : Session) (vm : Vm)
      (hh : (ownership start).Holds (Held.requests (.ofBreakpoints requests)) rest s vm) :
      (ownership start).wp Q
        (do Session.followUp requests (← Routine.modifyGet (Session.bookRequests b.id requests)))
        rest s vm := by
    have hbooked := holds_bookRequests b.id hh
    show (ownership start).wp Q
      (Session.followUp requests (Session.bookRequests b.id requests s).1) rest
      (Session.bookRequests b.id requests s).2 vm
    generalize Session.bookRequests b.id requests s = p at hbooked ⊢
    obtain ⟨enabled, s⟩ := p
    rcases enabled with _ | enabled
    · exact wp_deletions hQ (Accounts.of_ofBreakpoints requests) (by rwa [add_zero])
    · cases enabled with
      | true => exact hQ _ _ _ hbooked
      | false => exact wp_switches hQ hbooked
  refine wp_bind (wp_op_bind (wp_inspects (inspects_resolveLocations _ _) hh
    fun r rest s vm hh => ?_))
  cases r with
  | error e => exact hbook [] rest s vm hh
  | ok locations =>
    refine wp_install (h := 0) (fun requests rest s vm hh => ?_) [] (by simpa using hh)
    rw [add_zero] at hh
    exact hbook requests rest s vm hh

theorem wp_materializeAll {c : TypeInfo} {waiting : List Breakpoint}
    {Q : Unit → Held → Session → Vm → Prop}
    (hQ : ∀ rest s vm, (ownership start).Holds 0 rest s vm → Q () rest s vm)
    (hh : (ownership start).Holds 0 rest s vm) :
    (ownership start).wp Q (Session.materializeAll c waiting) rest s vm := by
  induction waiting generalizing rest s vm with
  | nil => exact hQ _ _ _ hh
  | cons b bs ih => exact wp_bind (wp_materialize (fun _ _ _ hh => ih hh) hh)

theorem Session.takePending_of_none {name : String} (h : (takePending name s).1 = none) :
    (takePending name s).2 = s := by
  have hnone : s.breakpoints.pending.get? name = none := by
    cases hp : s.breakpoints.pending.get? name with
    | none => rfl
    | some p => simp [takePending, BreakpointTable.takePending, hp] at h
  simp only [takePending, BreakpointTable.takePending_of_none hnone]

theorem holds_takePending {name : String} {watch : RequestId} {waiting : List Breakpoint}
    (htaken : (Session.takePending name s).1 = some (watch, waiting))
    (hh : (ownership start).Holds 0 rest s vm) :
    (ownership start).Holds (Held.requests (.one watch (.classPrepare name))) rest
      (Session.takePending name s).2 vm := by
  cases hp : s.breakpoints.pending.get? name with
  | none =>
    simp only [Session.takePending, BreakpointTable.takePending_of_none hp] at htaken
    cases htaken
  | some p =>
    have hw : p.watch = watch := by
      simp only [Session.takePending, BreakpointTable.takePending, hp] at htaken
      cases htaken
      rfl
    subst hw
    refine fun hs => (hh hs).setBreakpoints ?_ ?_
    · show (s.breakpoints.takePending name).2.accounts + _ = _
      rw [BreakpointTable.accounts_takePending hp]
      simp only [Held.requests, Prod.fst_add, zero_add]
      abel
    · show (s.breakpoints.takePending name).2.names + _ ≤ _
      rw [BreakpointTable.names_takePending]
      simp only [Held.requests, Prod.snd_add, zero_add]
      exact le_rfl

theorem wp_classLoaded (c : TypeInfo) {Q : Unit → Held → Session → Vm → Prop}
    (hQ : ∀ rest s vm, (ownership start).Holds 0 rest s vm → Q () rest s vm)
    (hh : (ownership start).Holds 0 rest s vm) :
    (ownership start).wp Q (Session.classLoaded c) rest s vm := by
  show (ownership start).wp Q (Session.installWaiting c (Session.takePending c.name s).1) rest
    (Session.takePending c.name s).2 vm
  cases htaken : (Session.takePending c.name s).1 with
  | none =>
    rw [Session.takePending_of_none htaken]
    exact hQ _ _ _ hh
  | some taken =>
    obtain ⟨watch, waiting⟩ := taken
    have hheld := holds_takePending htaken hh
    generalize (Session.takePending c.name s).2 = s at hheld ⊢
    show (ownership start).wp Q (if s.unreachable?.isSome then _ else _) rest s vm
    split
    · next hno =>
      refine hQ _ _ _ fun hs => ?_
      rw [hs.1] at hno
      cases hno
    · refine wp_request hheld fun rest s vm hinv hs hs' => ?_
      refine ⟨0, ?_, fun rest s vm' hh => wp_materializeAll hQ hh⟩
      rw [zero_add]
      exact hinv.deleteRequest

/-! ## Events -/

theorem settles_event (e : TargetEvent) (he : e.isStep = false) :
    (ownership start).Settles 0 (Session.handleEvent e) := by
  intro rest s vm hh
  cases e with
  | breakpoint request t l =>
    show (ownership start).wp _ (Session.reportHit _ t l) rest (Session.recordHit request s).2 vm
    exact wp_quietly balanced_quiet (Session.quietly_reportHit _ t l) (holds_recordHit request hh)
      fun _ _ _ _ hh => hh
  | step request t l => cases he
  | classPrepare request t c => exact wp_bind (wp_classLoaded c (fun _ _ _ hh => hh) hh)
  | vmStart | exception | threadStart | threadDeath | vmDeath =>
    refine wp_quietly balanced_quiet (Session.quietly_handleEvent ?_) hh fun _ _ _ _ hh => hh
    rfl

theorem settles_resumeAfter (set : EventSet) :
    (ownership start).Settles 0 (Session.resumeAfter set) := by
  intro rest s vm hh
  simp only [Session.resumeAfter]
  split
  · exact hh
  · refine wp_request hh fun rest s vm hinv hs hs' => ?_
    obtain ⟨hsame, hunread⟩ := vm.resumeSet_books set
    refine ⟨0, hinv.of_vm hsame ?_, fun rest s vm' hh => ?_⟩
    · show ∀ e ∈ (vm.resumeSet set).unread, _
      rw [hunread]
      exact hinv.no_step_unread
    · exact hh

/-! ## The target -/

theorem Happening.events_not_step {x : Happening} {k : Held} (hb : Balanced start k s vm) :
    ∀ e ∈ x.events vm, e.isStep = false := by
  intro e he
  cases x <;> simp only [events] at he
  case load t c =>
    split at he
    · cases he
    · obtain ⟨r, q, -, -, -, rfl⟩ := Vm.mem_eventsFor.1 he
      rfl
  case hit t l | throw t l thrown catchAt =>
    obtain ⟨r, q, -, -, -, rfl⟩ := Vm.mem_eventsFor.1 he
    rfl
  case finishStep t l =>
    obtain ⟨r, q, hq, -, hkind, rfl⟩ := Vm.mem_eventsFor.1 he
    have := hb.no_step r q hq
    cases hk : q.kind with
    | step u size depth =>
      rw [hk] at this
      cases this
    | breakpoint | exception | classPrepare | threadStart | threadDeath =>
      rw [hk] at hkind
      cases hkind
  case startThread name =>
    split at he
    · rw [List.mem_singleton.1 he]
      rfl
    · cases he
  case die =>
    rw [List.mem_singleton.1 he]
    rfl
  case hangUp => cases he

theorem Balanced.happening {k : Held} (hb : Balanced start k s vm) (x : Happening) :
    Balanced start k s (x.apply vm) := by
  refine hb.of_vm (x.apply_books vm) fun e he => ?_
  rw [x.unread_apply] at he
  rcases List.mem_append.1 he with he | he
  · exact hb.no_step_unread e he
  · exact Happening.events_not_step hb e he

theorem Balanced.read {k : Held} {r : Report} {reports : List Report}
    (hb : Balanced start k s vm) (hr : vm.reports = r :: reports) :
    Balanced start k s { vm with reports } := by
  refine hb.of_vm ⟨rfl, rfl⟩ fun e he => hb.no_step_unread e ?_
  rw [Vm.unread_cons hr]
  exact List.mem_append_right _ he

theorem ownership_operation {o : Operation} (ho : o.isOnBreakpoints) :
    (ownership start).Settles 0 o.task := by
  cases o with
  | addBreakpoint className kind condition => exact settles_addBreakpoint className kind condition
  | addException className caught uncaught => exact settles_addException className caught uncaught
  | setEnabled id enabled => exact settles_setEnabled id enabled
  | remove id => exact settles_remove id
  | clear => exact settles_clear
  | resume | suspend | resumeThread | suspendThread | step => cases ho

theorem ownership_rules (start : Nat) :
    Rules (Sound start) (Balanced start) (fun o => o.isOnBreakpoints) (fun e => e.isStep = false)
      (fun _ => True) where
  operation _ ho := ownership_operation ho
  event := settles_event
  resumeAfter := settles_resumeAfter
  reported _ _ _ _ hb hset _ he := hb.no_step_unread _ (Vm.mem_unread hset he)
  read _ _ _ _ _ hb hr := hb.read hr
  disconnected h s _ hb hs := (balanced_quiet _ _ _ s.quiet_disconnected hs).2 h hb
  happening x _ _ _ _ hb _ := hb.happening x

end JvmDebug
