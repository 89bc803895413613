import JvmDebug.Proofs.BreakpointOperations
import JvmDebug.Proofs.FlagDues
import JvmDebug.Proofs.SessionRules
import JvmDebug.Proofs.TargetCalls

/-!
Every operation on breakpoints and the handling of every event keep the books of flags: each step
moves requests and calls that are owed for them between the target, the session and its own hands.
-/
namespace JvmDebug

open Discipline Dues

/-- The flags of the session's breakpoints and of their requests are left alone. -/
def Call.leavesFlags : Call → Bool
  | deleteRequest _ | createClassPrepareWatch _ | resumeEventSet _ => true
  | c => c.inspects

theorem Call.leavesFlags_of_inspects {c : Call} (h : c.inspects) : c.leavesFlags := by
  cases c <;> simp_all [leavesFlags, inspects]

namespace Agreeing
variable {x : SpecRef} {k : Dues} {s : Session} {l : NotedLink}

theorem deleteRequest {r : RequestId} {l' : NotedLink} (ha : Agreeing x k s l)
    (hnotes : l'.notes = l.notes) (hvm : l'.vm = (l.vm.deleteRequest r).2) :
    Agreeing x k s l' := by
  have hsame : l'.vm.nextRequest = l.vm.nextRequest ∧ ∀ q q', l'.vm.requests.get? q = some q' →
      l.vm.requests.get? q = some q' := by
    rw [hvm]
    simp only [Vm.deleteRequest]
    split
    · refine ⟨rfl, fun q q' hq => ?_⟩
      rw [Dict.get?_erase] at hq
      split at hq
      · cases hq
      · exact hq
    · exact ⟨rfl, fun q q' hq => hq⟩
  exact ha.of_target hnotes (UInt32.le_of_eq hsame.1.symm) fun q _ flag h q' hq' =>
    h q' (hsame.2 q q' hq')

theorem answer {c : Call} (hc : c.leavesFlags) (ha : Agreeing x k s l)
    (hnext : (l.answer c).2.vm.nextRequest ≠ 0) : Agreeing x k s (l.answer c).2 := by
  have hnotes : (l.answer c).2.notes = l.notes :=
    l.notes_answer fun reply => by cases c <;> first | rfl | cases hc
  rcases l.answer_cases c with ⟨-, hvm⟩ | ⟨-, hvm⟩
  · exact ha.of_sameBooks hnotes (hvm ▸ .rfl)
  · have hinspects (h : c.inspects) : Agreeing x k s (l.answer c).2 := by
      rw [l.vm.answer_inspects h] at hvm
      exact ha.of_sameBooks hnotes (hvm ▸ .rfl)
    cases c with
    | deleteRequest r => exact ha.deleteRequest hnotes hvm
    | createClassPrepareWatch name => exact (ha.addRequest hnotes hvm hnext).drop_made
    | resumeEventSet set =>
      refine ha.of_sameBooks hnotes ?_
      rw [hvm]
      exact (l.vm.resumeSet_books set).1
    | _ => exact hinspects hc

/-- A call that makes a request fails, or there is one request more to be booked. -/
theorem create {c : Call} (kind : RequestKind) (hnote : ∀ reply, NotedLink.note? c reply = none)
    (hc : (l.vm.answer c).2 = (l.vm.addRequest kind).2) (ha : Agreeing x k s l)
    (hnext : (l.answer c).2.vm.nextRequest ≠ 0) :
    ((∃ e, (l.answer c).1 = .error e) ∧ Agreeing x k s (l.answer c).2) ∨
      ((l.answer c).1 = (l.vm.answer c).1 ∧
        Agreeing x (made [l.vm.nextRequest] + k) s (l.answer c).2) := by
  have hnotes := l.notes_answer hnote
  rcases l.answer_cases c with ⟨he, hvm⟩ | ⟨hreply, hvm⟩
  · exact .inl ⟨he, ha.of_sameBooks hnotes (hvm ▸ .rfl)⟩
  · exact .inr ⟨hreply, ha.addRequest hnotes (hvm.trans hc) hnext⟩

end Agreeing

/-! ## Routines that leave the flags alone -/

abbrev Routine.Shedding {α : Type} (m : Task Session α) : Prop :=
  m.Within (fun c => c.leavesFlags) Session.Sheds

section
open Routine
variable {α : Type}

theorem shedding_of_inspects {m : Task Session α} (hm : Inspects m) : Shedding m :=
  hm.mono (fun _ hc => Call.leavesFlags_of_inspects hc) fun _ _ hf => hf.elim

theorem shedding_deletions (requests : List RequestId) :
    Shedding (Task.quietlyAll (deletions requests)) :=
  Session.within_deletions (fun _ => rfl) requests

theorem Session.Sheds.rfl {s : Session} : s.Sheds s := Session.Quiet.rfl.sheds

theorem shedding_addPending (b : Breakpoint) : Shedding (Session.addPending b).run :=
  Session.within_addPending (fun _ => .rfl) rfl (fun _ => rfl) fun s watch =>
    s.sheds_insertPending b watch

theorem shedding_remove (id : String) : Shedding (Operation.remove id).task :=
  Op.within_failure (Session.within_removeBreakpoint (fun _ => rfl) (fun _ => .rfl) fun s =>
    s.sheds_takeOut id)

theorem shedding_clear : Shedding Operation.clear.task :=
  within_bind (Session.within_clearBreakpoints (fun _ => rfl) (fun _ => .rfl) Session.sheds_takeAll)
    fun _ => trivial

theorem shedding_handleEvent {e : TargetEvent} (he : ∀ r t c, e ≠ .classPrepare r t c) :
    Shedding (Session.handleEvent e) :=
  Session.within_handleEvent he (fun _ => Call.leavesFlags_of_inspects) (fun _ => rfl)
    (fun _ _ h => h.sheds) Session.sheds_recordHit

theorem shedding_resumeAfter (set : EventSet) : Shedding (Session.resumeAfter set) :=
  Session.within_resumeAfter rfl fun s => s.quiet_disconnected.sheds

end

/-! ## Rules -/

abbrev agreement (x : SpecRef) : Discipline Call Call.Reply Session NotedLink Dues :=
  ⟨NotedLink.answer, Reaching, Agreeing x⟩

namespace Agreeing
variable {x : SpecRef} {h rest : Dues} {s t : Session} {l : NotedLink} {α : Type}

theorem reaching_of_sheds (hst : s.Sheds t) (hg : Reaching t l) : Reaching s l :=
  ⟨hst.reach hg.1, hg.2⟩

theorem wp_shedding {Q : α → Dues → Session → NotedLink → Prop} {m : Task Session α}
    (hm : Routine.Shedding m) (hh : (agreement x).Holds h rest s l)
    (hQ : ∀ a rest s l, (agreement x).Holds h rest s l → Q a rest s l) :
    (agreement x).wp Q m rest s l := by
  refine wp_of_within ?_ ?_ hm hQ hh
  · exact fun c hc _ _ _ ha hg => ha.answer hc hg.2
  · exact fun s t hst l hg => ⟨reaching_of_sheds hst hg, fun k ha => ha.sheds hst⟩

theorem settles_shedding {m : Task Session α} (hm : Routine.Shedding m) :
    (agreement x).Settles 0 m :=
  fun _ _ _ hh => wp_shedding hm hh fun _ _ _ _ hh => hh

theorem holds_books_on {y : SpecRef} {rs : List RequestId}
    (hh : (agreement x).Holds (made rs + h) rest s l) (hst : s.Books t y true rs)
    (hreach : t.unreachable? = none → s.unreachable? = none) :
    (agreement x).Holds h rest t l := by
  intro hg
  have ha := hh ⟨hreach hg.1, hg.2⟩
  rw [add_assoc] at ha
  exact ha.books_on hst

/-! ### Making requests -/

theorem wp_install {Q : Except DebugError (List RequestId) → Dues → Session → NotedLink → Prop}
    (hfailed : ∀ e rest s l, (agreement x).Holds h rest s l → Q (.error e) rest s l)
    (hQ : ∀ requests rest s l, (agreement x).Holds (made requests + h) rest s l →
      Q (.ok requests) rest s l)
    {locations : List Location} (first : List RequestId)
    (hh : (agreement x).Holds (made first + h) rest s l) :
    (agreement x).wp Q (install first locations).run rest s l := by
  induction locations generalizing first rest s l with
  | nil => exact hQ _ _ _ _ hh
  | cons c cs ih =>
    refine wp_op_bind (wp_request hh fun rest s l ha hg hg' => ?_)
    rcases ha.create (.breakpoint c) (fun _ => rfl) rfl hg'.2 with
      ⟨⟨e, he⟩, ha'⟩ | ⟨hreply, ha'⟩
    · refine ⟨made first + h, ha', fun rest s l' hh => ?_⟩
      have he : ((agreement x).answer (.createBreakpoint c) l).1 = .error e := he
      rw [he]
      refine wp_op_bind (wp_lift (wp_shedding (shedding_deletions first) hh fun _ rest s l hh => ?_))
      refine hfailed _ _ _ _ fun hg => ?_
      have ha := hh hg
      rw [add_assoc] at ha
      exact ha.drop_made
    · refine ⟨made (first ++ [l.vm.nextRequest]) + h, ?_, fun rest s l' hh => ?_⟩
      · rw [made_append, add_comm (made first), add_assoc, add_assoc, ← add_assoc (made first)]
        exact ha'
      · have hreply : ((agreement x).answer (.createBreakpoint c) l).1 = .ok l.vm.nextRequest :=
          hreply
        rw [hreply]
        exact ih _ hh

theorem settles_addBreakpoint (className : String) (kind : BreakpointKind)
    (condition : Option String) :
    (agreement x).Settles 0 (Operation.addBreakpoint className kind condition).task := by
  refine settles_failure fun rest s l hh => ?_
  refine wp_op_bind (wp_reach (fun _ _ => hh) fun _ => wp_op_bind (wp_updateGet ?_))
  refine wp_op_bind (wp_state ?_)
  have hh : (agreement x).Holds 0 rest s.freshId.2 l := fun hg =>
    (hh (reaching_of_sheds s.sheds_freshId hg)).sheds s.sheds_freshId
  generalize s.freshId.1 = id at hh ⊢
  generalize s.freshId.2 = s at hh ⊢
  refine wp_op_bind (wp_shedding (shedding_of_inspects (Routine.inspects_call rfl)) hh
    fun r rest s l hh => ?_)
  cases r with
  | error e => exact hh
  | ok classes =>
    dsimp only
    split
    · exact wp_shedding (shedding_addPending _) hh fun _ _ _ _ hh => hh
    · refine wp_op_bind (wp_shedding (shedding_of_inspects (inspects_resolveLocations _ _)) hh
        fun r rest s l hh => ?_)
      cases r with
      | error e => exact hh
      | ok locations =>
        dsimp only
        split
        · exact hh
        · refine wp_op_bind (wp_install (h := 0) (fun _ _ _ _ hh => hh) ?_ [] (by simpa using hh))
          intro requests rest s l hh
          refine wp_op_bind (wp_update (wp_getBreakpoint fun _ => ?_))
          exact holds_books_on hh (s.books_insertInstalled _ requests) fun hu => hu

theorem wp_makeException {className : String} {scope : Option TypeId} {caught uncaught : Bool}
    (hh : (agreement x).Holds 0 rest s l) :
    (agreement x).wp (fun _ => (agreement x).Holds 0)
      (Session.makeException className scope caught uncaught).run rest s l := by
  refine wp_op_bind (wp_request hh fun rest s l ha hg hg' => ?_)
  rw [zero_add] at ha
  rcases ha.create (.exception scope caught uncaught) (fun _ => rfl) rfl hg'.2 with
    ⟨⟨e, he⟩, ha'⟩ | ⟨hreply, ha'⟩
  · refine ⟨0, (zero_add rest).symm ▸ ha', fun rest s l' hh => ?_⟩
    have he : ((agreement x).answer (.createExceptionRequest scope caught uncaught) l).1 =
      .error e := he
    rw [he]
    exact hh
  · refine ⟨made [l.vm.nextRequest], ha', fun rest s l' hh => ?_⟩
    have hreply : ((agreement x).answer (.createExceptionRequest scope caught uncaught) l).1 =
      .ok l.vm.nextRequest := hreply
    rw [hreply]
    refine wp_op_bind (wp_updateGet (wp_op_bind (wp_state (wp_op_bind (wp_update ?_)))))
    have hh : (agreement x).Holds (made [l.vm.nextRequest] + 0) rest s.freshId.2 l' := fun hg => by
      rw [add_zero]
      exact (hh (reaching_of_sheds s.sheds_freshId hg)).sheds s.sheds_freshId
    exact holds_books_on hh (s.freshId.2.books_insertException _ _) fun hu => hu

theorem settles_addException (className : String) (caught uncaught : Bool) :
    (agreement x).Settles 0 (Operation.addException className caught uncaught).task := by
  refine settles_failure fun rest s l hh => ?_
  rw [Session.addExceptionBreakpoint_eq]
  refine wp_op_bind (wp_reach (fun _ _ => hh) fun _ => ?_)
  dsimp only
  split
  · exact wp_makeException hh
  · refine wp_op_bind (wp_shedding (shedding_of_inspects (Routine.inspects_call rfl)) hh
      fun r rest s l hh => ?_)
    cases r with
    | error e => exact hh
    | ok classes => exact wp_makeException hh

/-! ### Switching -/

theorem wp_switches {enabled : Bool} {Q : Unit → Dues → Session → NotedLink → Prop}
    (hQ : ∀ rest s l, (agreement x).Holds h rest s l → Q () rest s l) {requests : List RequestId}
    (hh : (agreement x).Holds (owed requests + h) rest s l) :
    (agreement x).wp Q
      (Task.quietlyAll (requests.map fun r => .setRequestEnabled r enabled)) rest s l := by
  induction requests generalizing rest s l with
  | nil =>
    refine hQ _ _ _ fun hg => ?_
    have ha := hh hg
    rw [add_assoc] at ha
    exact ha.drop_owed_nil
  | cons r rs ih =>
    refine wp_request hh fun rest s l ha hg hg' => ⟨owed rs + h, ?_, fun rest s l' hh => ih hh⟩
    rw [add_assoc] at ha ⊢
    exact ha.switch

theorem wp_switchAll {enabled : Bool} {requests : List RequestId}
    (hh : (agreement x).Holds (owed requests) rest s l) :
    (agreement x).wp (fun _ => (agreement x).Holds 0) (Session.switchAll enabled requests).run
      rest s l := by
  induction requests generalizing rest s l with
  | nil => exact fun hg => (zero_add rest).symm ▸ (hh hg).drop_owed_nil
  | cons r rs ih =>
    refine wp_op_bind (wp_request hh fun rest s l ha hg hg' => ?_)
    cases hreply : ((agreement x).answer (.setRequestEnabled r enabled) l).1 with
    | ok _ => exact ⟨owed rs, ha.switch, fun rest s l' hh => ih hh⟩
    | error e =>
      refine ⟨0, (zero_add rest).symm ▸ ha.switch_failed ?_, fun rest s l' hh => hh⟩
      exact congrArg Except.isOk hreply

/-- A toggling that begins on a breakpoint forgets the calls before it. -/
theorem wp_setEnabled (id : String) (enabled : Bool) (ha : Agreeing x rest s l) :
    (agreement x).wp (fun _ => (agreement x).Holds 0) (Operation.setEnabled id enabled).task rest s
      (l.forget ((Session.storeEnabled id enabled s).1.getD [])) := by
  have hrun : (agreement x).wp (fun _ => (agreement x).Holds 0) (Session.setEnabled id enabled).run
      rest s (l.forget ((Session.storeEnabled id enabled s).1.getD [])) := by
    refine wp_op_bind (wp_updateGet ?_)
    cases hstored : (Session.storeEnabled id enabled s).1 with
    | none =>
      rw [Option.getD_none, l.forget_nil]
      exact fun hg => (zero_add rest).symm ▸ ha.sheds (Session.sheds_storeEnabled hstored)
    | some requests =>
      obtain ⟨y, hstores⟩ := Session.stores_storeEnabled hstored
      rw [Option.getD_some]
      have hh : (agreement x).Holds (owed requests) rest (Session.storeEnabled id enabled s).2
          (l.forget requests) := fun _ => ha.stores hstores
      generalize (Session.storeEnabled id enabled s).2 = s at hh ⊢
      dsimp only
      split
      · next hempty =>
        rw [List.isEmpty_iff.1 hempty] at hh ⊢
        exact fun hg => (zero_add rest).symm ▸ (hh hg).drop_owed_nil
      · refine wp_op_bind (wp_reach (fun e he hg => ?_) fun _ => wp_switchAll hh)
        rw [hg.1] at he
        cases he
  refine wp_bind (wp_mono (fun r rest s l hr => ?_) hrun)
  cases r <;> exact hr

/-! ### Loaded classes -/

theorem wp_followUp {requests : List RequestId} (id : String)
    {Q : Unit → Dues → Session → NotedLink → Prop}
    (hQ : ∀ rest s l, (agreement x).Holds 0 rest s l → Q () rest s l)
    (hh : (agreement x).Holds (made requests) rest s l) :
    (agreement x).wp Q (Session.followUp requests (Session.bookRequests id requests s).1) rest
      (Session.bookRequests id requests s).2 l := by
  cases hbooked : (Session.bookRequests id requests s).1 with
  | none =>
    rw [Session.bookRequests_of_none hbooked]
    refine wp_shedding (shedding_deletions requests) hh fun _ rest s l hh => hQ _ _ _ fun hg => ?_
    exact (zero_add rest).symm ▸ (hh hg).drop_made
  | some flag =>
    have hbooks := Session.books_bookRequests hbooked
    have hreach (hg : Reaching (Session.bookRequests id requests s).2 l) : Reaching s l := hg
    generalize (Session.bookRequests id requests s).2 = t at hbooks hreach ⊢
    cases flag with
    | true => exact hQ _ _ _ fun hg => (zero_add rest).symm ▸ (hh (hreach hg)).books_on hbooks
    | false =>
      refine wp_switches hQ fun hg => ?_
      rw [add_zero]
      exact (hh (hreach hg)).books hbooks

theorem wp_materializeAll {c : TypeInfo} {waiting : List Breakpoint}
    {Q : Unit → Dues → Session → NotedLink → Prop}
    (hQ : ∀ rest s l, (agreement x).Holds 0 rest s l → Q () rest s l)
    (hh : (agreement x).Holds 0 rest s l) :
    (agreement x).wp Q (Session.materializeAll c waiting) rest s l := by
  induction waiting generalizing rest s l with
  | nil => exact hQ _ _ _ hh
  | cons b bs ih =>
    have hnone (rest : Dues) (s : Session) (l : NotedLink) (hh : (agreement x).Holds 0 rest s l) :
        (agreement x).wp (fun _ => (agreement x).wp Q (Session.materializeAll c bs))
          (do Session.followUp [] (← Routine.modifyGet (Session.bookRequests b.id []))) rest s l :=
      wp_followUp b.id (fun _ _ _ hh => ih hh) (by simpa using hh)
    refine wp_bind (wp_bind (wp_op_bind (wp_shedding
      (shedding_of_inspects (inspects_resolveLocations _ _)) hh fun r rest s l hh => ?_)))
    cases r with
    | error e => exact hnone rest s l hh
    | ok locations =>
      refine wp_install (h := 0) (fun _ rest s l hh => hnone rest s l hh)
        (fun requests rest s l hh => ?_) [] (by simpa using hh)
      exact wp_followUp b.id (fun _ _ _ hh => ih hh) (by simpa using hh)

theorem wp_classLoaded (c : TypeInfo) {Q : Unit → Dues → Session → NotedLink → Prop}
    (hQ : ∀ rest s l, (agreement x).Holds 0 rest s l → Q () rest s l)
    (hh : (agreement x).Holds 0 rest s l) :
    (agreement x).wp Q (Session.classLoaded c) rest s l := by
  show (agreement x).wp Q (Session.installWaiting c (Session.takePending c.name s).1) rest
    (Session.takePending c.name s).2 l
  have hh : (agreement x).Holds 0 rest (Session.takePending c.name s).2 l := fun hg =>
    (hh hg).sheds (Session.sheds_takePending c.name s)
  generalize Session.takePending c.name s = p at hh ⊢
  obtain ⟨taken, s⟩ := p
  cases taken with
  | none => exact hQ _ _ _ hh
  | some taken =>
    show (agreement x).wp Q (if s.unreachable?.isSome then _ else _) rest s l
    split
    · exact hQ _ _ _ hh
    · exact wp_bind (wp_shedding (m := Task.quietly (.deleteRequest taken.1)) ⟨rfl, fun _ => trivial⟩
        hh fun _ _ _ _ hh => wp_materializeAll hQ hh)

theorem settles_event (e : TargetEvent) : (agreement x).Settles 0 (Session.handleEvent e) := by
  cases e with
  | classPrepare request t c =>
    exact fun rest s l hh => wp_bind (wp_classLoaded c (fun _ _ _ hh => hh) hh)
  | vmStart | breakpoint | step | exception | threadStart | threadDeath | vmDeath =>
    exact settles_shedding (shedding_handleEvent nofun)

end Agreeing

end JvmDebug
