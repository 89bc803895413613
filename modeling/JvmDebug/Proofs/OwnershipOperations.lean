import JvmDebug.Proofs.BreakpointOperations
import JvmDebug.Proofs.Ownership
import JvmDebug.Proofs.SessionRules

/-!
The operations on breakpoints keep the books of requests: each step of theirs moves requests and
ids between the target, the tables and its own hands.
-/
namespace JvmDebug

theorem Balanced.drop {start : Nat} {k : Held} {id : String} {s : Session} {vm : Vm}
    (hb : Balanced start (Held.name id + k) s vm) : Balanced start k s vm := by
  refine hb.of_session rfl ?_ ?_
  · simp only [Held.name, Prod.fst_add, zero_add]
  · simp only [Held.name, Prod.snd_add]
    exact Multiset.add_le_add_left (Multiset.le_add_left _ _)

abbrev ownership (start : Nat) : Discipline Call Call.Reply Session Vm Held :=
  .ofScene (Sound start) (Balanced start)

open Discipline

variable {start : Nat} {h rest : Held} {s : Session} {vm : Vm} {α : Type}

/-! ## Making and deleting requests -/

theorem wp_deletions {Q : Unit → Held → Session → Vm → Prop}
    (hQ : ∀ rest s vm, (ownership start).Holds h rest s vm → Q () rest s vm)
    {requests : List RequestId} {a : Accounts} (ha : a.Of requests)
    (hh : (ownership start).Holds (Held.requests a + h) rest s vm) :
    (ownership start).wp Q (Task.quietlyAll (deletions requests)) rest s vm := by
  induction requests generalizing a rest s vm with
  | nil =>
    rw [ha.nil, Held.requests_zero, zero_add] at hh
    exact hQ _ _ _ hh
  | cons r rs ih =>
    obtain ⟨topic, b, rfl, hb⟩ := ha.cons
    refine wp_request hh fun rest s vm hinv hs hs' => ?_
    rw [Held.requests_add, add_assoc, add_assoc] at hinv
    refine ⟨Held.requests b + h, ?_, fun rest s vm hh => ih hb hh⟩
    rw [add_assoc]
    exact hinv.deleteRequest

theorem wp_install {Q : Except DebugError (List RequestId) → Held → Session → Vm → Prop}
    (hQ : ∀ requests rest s vm,
      (ownership start).Holds (Held.requests (.ofBreakpoints requests) + h) rest s vm →
        Q (.ok requests) rest s vm)
    {locations : List Location} (made : List RequestId)
    (hh : (ownership start).Holds (Held.requests (.ofBreakpoints made) + h) rest s vm) :
    (ownership start).wp Q (install made locations).run rest s vm := by
  induction locations generalizing made rest s vm with
  | nil => exact hQ _ _ _ _ hh
  | cons l ls ih =>
    refine wp_op_bind (wp_request hh fun rest s vm hinv hs hs' => ?_)
    refine ⟨Held.requests (.ofBreakpoints (made ++ [vm.nextRequest])) + h, ?_,
      fun rest s' vm' hh => ih _ hh⟩
    have hadd := hinv.addRequest (.breakpoint l) rfl hs'.2.1
    rw [Accounts.ofBreakpoints_append, Held.requests_add, add_comm (Held.requests _), add_assoc,
      add_assoc, ← add_assoc (Held.requests _) h]
    exact hadd

theorem wp_setRequestEnabled {β : Type} {Q : β → Held → Session → Vm → Prop} {r : RequestId}
    {enabled : Bool} {k : Call.Reply (.setRequestEnabled r enabled) → Task Session β}
    (hQ : ∀ a rest s vm, (ownership start).Holds h rest s vm → (ownership start).wp Q (k a) rest s vm)
    (hh : (ownership start).Holds h rest s vm) :
    (ownership start).wp Q (.request (.setRequestEnabled r enabled) k) rest s vm :=
  wp_request hh fun _ _ _ hinv _ _ =>
    ⟨h, hinv.switchRequest r enabled, fun _ _ _ hh => hQ _ _ _ _ hh⟩

/-! ## Setting breakpoints -/

variable {b : Breakpoint}

theorem holds_insertInstalled {requests : List RequestId}
    (hh : (ownership start).Holds (Held.requests (.ofBreakpoints requests) + Held.name b.id) rest
      s vm) :
    (ownership start).Holds 0 rest
      { s with breakpoints := s.breakpoints.insertInstalled b requests } vm := by
  intro hs
  have hb := hh hs
  rw [add_comm (Held.requests _), add_assoc] at hb
  have hfree := hb.unused.1
  refine hb.setBreakpoints ?_ ?_
  · rw [BreakpointTable.accounts_insertInstalled hfree]
    simp only [Held.requests, Held.name, Prod.fst_add, zero_add]
    abel
  · rw [BreakpointTable.names_insertInstalled hfree]
    simp only [Held.requests, Held.name, Prod.snd_add, zero_add]
    exact (add_assoc _ _ _).le

theorem holds_insertPending_of_some {old : RequestId}
    (hw : s.breakpoints.watch? b.className = some old) (watch : RequestId)
    (hh : (ownership start).Holds (Held.name b.id + h) rest s vm) :
    (ownership start).Holds h rest
      { s with breakpoints := s.breakpoints.insertPending b watch } vm := by
  intro hs
  have hb := hh hs
  rw [add_assoc] at hb
  have hfree := hb.unused.1
  refine hb.setBreakpoints ?_ ?_
  · rw [BreakpointTable.accounts_insertPending_of_some hfree hw]
    simp only [Held.name, Prod.fst_add, zero_add]
  · rw [BreakpointTable.names_insertPending hfree]
    simp only [Held.name, Prod.snd_add]
    exact (add_assoc _ _ _).le

theorem holds_insertPending_of_none {watch : RequestId}
    (hw : s.breakpoints.watch? b.className = none)
    (hh : (ownership start).Holds
      (Held.requests (.one watch (.classPrepare b.className)) + Held.name b.id) rest s vm) :
    (ownership start).Holds 0 rest
      { s with breakpoints := s.breakpoints.insertPending b watch } vm := by
  intro hs
  have hb := hh hs
  rw [add_comm (Held.requests _), add_assoc] at hb
  have hfree := hb.unused.1
  refine hb.setBreakpoints ?_ ?_
  · rw [BreakpointTable.accounts_insertPending_of_none hfree hw]
    simp only [Held.requests, Held.name, Prod.fst_add, zero_add]
    abel
  · rw [BreakpointTable.names_insertPending hfree]
    simp only [Held.requests, Held.name, Prod.snd_add, zero_add]
    exact (add_assoc _ _ _).le

theorem mem_booked_of_watch {s : Session} {name : String} {watch : RequestId}
    (hw : s.breakpoints.watch? name = some watch) :
    (watch, .classPrepare name) ∈ s.booked := by
  obtain ⟨p, hp, rfl⟩ := Option.map_eq_some_iff.1 hw
  rw [Session.booked, BreakpointTable.accounts, Dict.sum_erase hp]
  simp [Accounts.one]

/-- The rest of waiting for a class, once a watch was made: it is booked, or deleted again. -/
theorem wp_joinPending {watch : RequestId}
    (hh : (ownership start).Holds
      (Held.requests (.one watch (.classPrepare b.className)) + Held.name b.id) rest s vm) :
    (ownership start).wp (fun _ => (ownership start).Holds 0)
      (ExceptT.run do
        Op.update fun s => { s with breakpoints := s.breakpoints.insertPending b watch }
        if (← Op.state).breakpoints.watch? b.className != some watch then
          Op.lift (Task.quietly (.deleteRequest watch))
        Session.getBreakpoint b.id) rest s vm := by
  refine wp_op_bind (wp_update (wp_op_bind (wp_state ?_)))
  dsimp only
  rw [BreakpointTable.watch?_insertPending]
  cases hw : s.breakpoints.watch? b.className with
  | none =>
    simp only [Option.getD_none, bne_self_eq_false, Bool.false_eq_true, if_false]
    exact wp_getBreakpoint fun _ => holds_insertPending_of_none hw hh
  | some old =>
    rw [Option.getD_some]
    have hmine := holds_insertPending_of_some hw watch (add_comm (Held.requests _) _ ▸ hh)
    by_cases hne : old = watch
    · -- the table has booked another watch than the one held here
      subst hne
      have hno : ¬Sound start s vm := fun hs =>
        (hh hs).disjoint (mem_booked_of_watch hw) (by simp [Held.requests, Accounts.one]) rfl
      simp only [bne_self_eq_false, Bool.false_eq_true, if_false]
      exact wp_getBreakpoint fun _ hs => absurd hs hno
    · have hcond : (some old != some watch) = true := by simpa using hne
      rw [hcond, if_pos rfl]
      refine wp_op_bind (wp_lift (wp_request hmine fun rest s vm hinv hs hs' => ?_))
      refine ⟨0, ?_, fun rest s vm' hh => wp_getBreakpoint fun _ => hh⟩
      rw [zero_add]
      exact hinv.deleteRequest

theorem wp_addPending
    (hh : (ownership start).Holds (Held.name b.id) rest s vm) :
    (ownership start).wp (fun _ => (ownership start).Holds 0) (Session.addPending b).run rest s vm := by
  show (ownership start).wp _ (ExceptT.run (Op.state >>= _)) rest s vm
  refine wp_op_bind (wp_state ?_)
  dsimp only
  cases hw : s.breakpoints.watch? b.className with
  | some watch =>
    refine wp_op_bind (wp_update (wp_getBreakpoint fun _ => ?_))
    exact holds_insertPending_of_some hw watch (by rwa [add_zero])
  | none =>
    refine wp_op_bind (wp_request hh fun rest s vm hinv hs hs' => ?_)
    refine ⟨Held.requests (.one vm.nextRequest (.classPrepare b.className)) + Held.name b.id, ?_,
      fun rest s vm' hh => ?_⟩
    · rw [add_assoc]
      exact hinv.addRequest _ rfl hs'.2.1
    · exact wp_joinPending hh

theorem holds_insertException {b : ExceptionBreakpoint} {r : RequestId}
    (hh : (ownership start).Holds (Held.name b.id + Held.requests (.one r .exception)) rest s vm) :
    (ownership start).Holds 0 rest { s with exceptions := s.exceptions.insert b r } vm := by
  intro hs
  have hb := hh hs
  rw [add_assoc] at hb
  have hfree := hb.unused.2
  refine hb.setExceptions ?_ ?_
  · rw [ExceptionTable.accounts_insert hfree]
    simp only [Held.requests, Held.name, Prod.fst_add, zero_add]
    exact add_assoc _ _ _
  · rw [ExceptionTable.names_insert hfree]
    simp only [Held.requests, Held.name, Prod.snd_add, zero_add]
    exact (add_assoc _ _ _).le

theorem holds_freshId (hh : (ownership start).Holds h rest s vm) :
    (ownership start).Holds (Held.name s.freshId.1 + h) rest s.freshId.2 vm := by
  intro hs
  rw [add_assoc]
  exact (hh hs.of_freshId).freshId hs

theorem holds_drop {id : String} (hh : (ownership start).Holds (Held.name id + h) rest s vm) :
    (ownership start).Holds h rest s vm := by
  intro hs
  have := hh hs
  rw [add_assoc] at this
  exact this.drop

theorem settles_addBreakpoint (className : String) (kind : BreakpointKind)
    (condition : Option String) :
    (ownership start).Settles 0 (Operation.addBreakpoint className kind condition).task := by
  refine settles_failure fun rest s vm hh => ?_
  refine wp_op_bind (wp_reach (fun _ _ => hh) fun _ => wp_op_bind (wp_updateGet ?_))
  refine wp_op_bind (wp_state ?_)
  have hmine := holds_freshId hh
  rw [add_zero] at hmine
  generalize s.freshId.1 = id at hmine ⊢
  generalize s.freshId.2 = s at hmine ⊢
  refine wp_op_bind (wp_inspects (Routine.inspects_call rfl) hmine fun r rest s vm hmine => ?_)
  cases r with
  | error e => exact holds_drop (by rwa [add_zero])
  | ok classes =>
    dsimp only
    split
    · exact wp_addPending hmine
    · refine wp_op_bind (wp_inspects (inspects_resolveLocations _ _) hmine
        fun r rest s vm hmine => ?_)
      cases r with
      | error e => exact holds_drop (by rwa [add_zero])
      | ok locations =>
        dsimp only
        split
        · exact holds_drop (by rwa [add_zero])
        · refine wp_op_bind (wp_install (h := Held.name id) ?_ [] (by simpa using hmine))
          intro requests rest s vm hh
          refine wp_op_bind (wp_update (wp_getBreakpoint fun _ => ?_))
          exact holds_insertInstalled hh

theorem wp_makeException {className : String} {scope : Option TypeId} {caught uncaught : Bool}
    (hh : (ownership start).Holds 0 rest s vm) :
    (ownership start).wp (fun _ => (ownership start).Holds 0)
      (Session.makeException className scope caught uncaught).run rest s vm := by
  refine wp_op_bind (wp_request hh fun rest s vm hinv hs hs' => ?_)
  refine ⟨Held.requests (.one vm.nextRequest .exception), ?_, fun rest s vm' hh => ?_⟩
  · rw [zero_add] at hinv
    exact hinv.addRequest _ rfl hs'.2.1
  · refine wp_op_bind (wp_updateGet (wp_op_bind (wp_state (wp_op_bind (wp_update ?_)))))
    exact holds_insertException (holds_freshId hh)

theorem settles_addException (className : String) (caught uncaught : Bool) :
    (ownership start).Settles 0 (Operation.addException className caught uncaught).task := by
  refine settles_failure fun rest s vm hh => ?_
  rw [Session.addExceptionBreakpoint_eq]
  refine wp_op_bind (wp_reach (fun _ _ => hh) fun _ => ?_)
  dsimp only
  split
  · exact wp_makeException hh
  · refine wp_op_bind (wp_inspects (Routine.inspects_call rfl) hh fun r rest s vm hh => ?_)
    cases r with
    | error e => exact hh
    | ok classes => exact wp_makeException hh

/-! ## Switching and removing -/

theorem holds_of_eq {t : Session} (hh : (ownership start).Holds h rest s vm)
    (hids : t.ids = s.ids) (hbooked : t.booked = s.booked) (hnames : t.names = s.names)
    (hreach : t.unreachable? = none → s.unreachable? = none) :
    (ownership start).Holds h rest t vm := by
  intro hs
  refine (hh ⟨hreach hs.1, hs.2.1, hs.2.2.of_eq hids⟩).of_session hids (by rw [hbooked]) ?_
  rw [hnames]

theorem wp_switchAll {enabled : Bool} {requests : List RequestId}
    (hh : (ownership start).Holds 0 rest s vm) :
    (ownership start).wp (fun _ => (ownership start).Holds 0)
      (Session.switchAll enabled requests).run rest s vm := by
  induction requests generalizing rest s vm with
  | nil => exact hh
  | cons r rs ih =>
    refine wp_op_bind (wp_setRequestEnabled (fun reply rest s vm hh => ?_) hh)
    cases reply with
    | error e => exact hh
    | ok _ => exact ih hh

theorem holds_storeEnabled (id : String) (enabled : Bool)
    (hh : (ownership start).Holds h rest s vm) :
    (ownership start).Holds h rest (Session.storeEnabled id enabled s).2 vm := by
  cases he : s.breakpoints.entries.get? id with
  | none =>
    rw [Session.storeEnabled_of_none he]
    refine holds_of_eq hh rfl ?_ ?_ fun hu => hu
    · exact congrArg (s.breakpoints.accounts + ·) (s.exceptions.accounts_setEnabled id enabled)
    · exact congrArg (s.breakpoints.names + ·) (s.exceptions.names_setEnabled id enabled)
  | some e =>
    rw [Session.storeEnabled_of_some he]
    refine holds_of_eq hh rfl ?_ ?_ fun hu => hu
    · exact congrArg (· + s.exceptions.accounts) (s.breakpoints.accounts_setEnabled id enabled)
    · exact congrArg (· + s.exceptions.names) (s.breakpoints.names_setEnabled id enabled)

theorem settles_setEnabled (id : String) (enabled : Bool) :
    (ownership start).Settles 0 (Operation.setEnabled id enabled).task := by
  refine settles_failure fun rest s vm hh => ?_
  refine wp_op_bind (wp_updateGet ?_)
  have hstored := holds_storeEnabled id enabled hh
  generalize Session.storeEnabled id enabled s = p at hstored ⊢
  obtain ⟨stored, s⟩ := p
  cases stored with
  | none => exact hstored
  | some requests =>
    dsimp only
    split
    · exact hstored
    · exact wp_op_bind (wp_reach (fun _ _ => hstored) fun _ => wp_switchAll hstored)

theorem Sound.attached (hs : Sound start s vm) : s.attachment.isSome := by
  have hu := hs.1
  simp only [Session.unreachable?] at hu
  split at hu
  · cases hu
  · split at hu
    · cases hu
    · next ha => simpa [Option.isSome_iff_ne_none] using ha

theorem wp_deleteAll {Q : Unit → Held → Session → Vm → Prop}
    (hQ : ∀ rest s vm, (ownership start).Holds h rest s vm → Q () rest s vm)
    {requests : List RequestId} {a : Accounts} (ha : a.Of requests)
    (hh : (ownership start).Holds (Held.requests a + h) rest s vm) :
    (ownership start).wp Q (Session.deleteAll requests) rest s vm := by
  show (ownership start).wp Q (if s.attachment.isSome then _ else _) rest s vm
  split
  · exact wp_deletions hQ ha hh
  · next hno => exact hQ _ _ _ fun hs => absurd hs.attached hno

theorem holds_takeOut (id : String) (hh : (ownership start).Holds 0 rest s vm) :
    ∃ a : Accounts, a.Of ((Session.takeOut id s).1.getD []) ∧
      (ownership start).Holds (Held.requests a) rest (Session.takeOut id s).2 vm := by
  have hremove := s.breakpoints.names_remove id
  simp only [Session.takeOut]
  rcases hr : s.breakpoints.remove id with ⟨_ | ⟨requests, watch⟩, table⟩
  · obtain ⟨a, ha, haccounts⟩ := s.exceptions.accounts_remove id
    refine ⟨a, ?_, fun hs => ?_⟩
    · cases hq : (s.exceptions.remove id).1 with
      | none => simpa [hq] using ha
      | some r => simpa [hq] using ha
    · refine (hh hs).setExceptions ?_ ?_
      · rw [haccounts]
        simp only [Held.requests, Prod.fst_add, zero_add]
        abel
      · simp only [Held.requests, Prod.snd_add, zero_add]
        exact Multiset.add_le_add_right (s.exceptions.names_remove id)
  · obtain ⟨a, ha, haccounts⟩ := BreakpointTable.accounts_remove (congrArg Prod.fst hr)
    rw [hr] at hremove haccounts
    refine ⟨a, ha, fun hs => (hh hs).setBreakpoints ?_ ?_⟩
    · rw [haccounts]
      simp only [Held.requests, Prod.fst_add, zero_add]
      abel
    · simp only [Held.requests, Prod.snd_add, zero_add]
      exact Multiset.add_le_add_right hremove

theorem settles_remove (id : String) :
    (ownership start).Settles 0 (Operation.remove id).task := by
  refine settles_failure fun rest s vm hh => ?_
  refine wp_op_bind (wp_updateGet ?_)
  obtain ⟨a, ha, htaken⟩ := holds_takeOut id hh
  generalize Session.takeOut id s = p at ha htaken ⊢
  obtain ⟨stored, s⟩ := p
  cases stored with
  | none =>
    rw [ha.nil, Held.requests_zero] at htaken
    exact htaken
  | some requests => exact wp_lift (wp_deleteAll (fun _ _ _ hh => hh) ha (by rwa [add_zero]))

theorem holds_takeAll (hh : (ownership start).Holds 0 rest s vm) :
    (ownership start).Holds (Held.requests s.booked) rest (Session.takeAll s).2 vm := by
  intro hs
  refine (hh hs).of_session rfl ?_ ?_
  · simp only [Held.requests, Prod.fst_add, zero_add]
    exact zero_add _
  · simp only [Held.requests, Prod.snd_add, zero_add]
    exact Multiset.add_le_add_right (Multiset.zero_le _)

theorem settles_clear : (ownership start).Settles 0 Operation.clear.task := by
  intro rest s vm hh
  refine wp_bind ?_
  show (ownership start).wp _
    (Routine.bind (Session.deleteAll (Session.takeAll s).1.2) _) rest (Session.takeAll s).2 vm
  have hof : s.booked.Of (Session.takeAll s).1.2 :=
    s.breakpoints.accounts_of_allRequests.add s.exceptions.accounts_of_allRequests
  exact wp_bind (wp_deleteAll (fun _ _ _ hh => hh) hof (by
    rw [add_zero]
    exact holds_takeAll hh))

end JvmDebug
