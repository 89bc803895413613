import JvmDebug.Proofs.HitBooks
import JvmDebug.Proofs.SessionRules

/-!
Every routine of a session keeps the books that hits are counted in. Those that make requests for
breakpoints hold them until the table has booked them; all others take breakpoints out of the table
at most.
-/
namespace JvmDebug

open Discipline Routine

/-! ## Routines that book nothing -/

abbrev Routine.Thinning {α : Type} (m : Task Session α) : Prop :=
  m.Within (fun c => c ≠ .watchThreadLifecycle) Session.Thins

section
variable {α : Type}

theorem Routine.Looks.thinning {m : Task Session α} (hm : Looks m) : Thinning m := by
  refine hm.mono (fun c hc => ?_) fun _ _ h => h.thins
  rintro rfl
  cases hc

theorem Routine.Quietly.thinning {m : Task Session α} (hm : Quietly m) : Thinning m := by
  refine hm.mono (fun c hc => ?_) fun _ _ h => h.thins
  rintro rfl
  cases hc

theorem Routine.Inspects.thinning {m : Task Session α} (hm : Inspects m) : Thinning m :=
  hm.evaluates.looks.thinning

theorem thinning_step (t : Option ThreadId) (depth : StepDepth) (size : StepSize) :
    Thinning (Session.step t depth size).run :=
  Session.within_step (fun _ => nofun) (fun _ => nofun) (fun _ => nofun) (fun _ => .rfl)
    (fun _ _ => .of_eq rfl rfl) Session.looks_letRun.thinning

/-- Apart from the adding of breakpoints no operation books requests. -/
theorem thinning_operation {o : Operation}
    (ho : ∀ name kind cond, o ≠ .addBreakpoint name kind cond) : Thinning o.task := by
  cases o with
  | addBreakpoint className kind condition => exact absurd rfl (ho className kind condition)
  | addException className caught uncaught =>
    refine Op.within_failure ?_
    exact Session.within_addExceptionBreakpoint nofun (fun _ => nofun) (fun _ => .rfl)
      Session.thins_freshId fun _ _ _ => .of_eq rfl rfl
  | setEnabled id enabled =>
    refine Op.within_failure ?_
    exact Session.within_setEnabled (fun _ _ => nofun) (fun _ => .rfl)
      (Session.thins_storeEnabled id enabled)
  | remove id =>
    refine Op.within_failure ?_
    exact Session.within_removeBreakpoint (fun _ => nofun) (fun _ => .rfl)
      (Session.thins_takeOut id)
  | clear =>
    refine within_bind ?_ fun _ => trivial
    exact Session.within_clearBreakpoints (fun _ => nofun) (fun _ => .rfl) Session.thins_takeAll
  | resume | suspend | resumeThread | suspendThread => exact (looks_runs rfl).thinning
  | step t depth size => exact Op.within_failure (thinning_step t depth size)

theorem thinning_reportHit (id : Option String) (t : ThreadId) (l : Location) :
    Thinning (Session.reportHit id t l) :=
  Quietly.thinning (Session.quietly_reportHit id t l)

theorem thinning_resumeAfter (set : EventSet) : Thinning (Session.resumeAfter set) :=
  Session.within_resumeAfter nofun fun s => s.quiet_disconnected.thins

end

/-! ## The discipline -/

/-- Neither ids nor numbers of requests have come round. -/
def Numbered (start : Nat) (s : Session) (vm : Vm) : Prop :=
  vm.nextRequest ≠ 0 ∧ s.IdsDiffer start

theorem Numbered.of_thins {start : Nat} {s t : Session} {vm : Vm} (hst : s.Thins t)
    (h : Numbered start t vm) : Numbered start s vm :=
  ⟨h.1, Session.IdsDiffer.of_thins hst h.2⟩

/-- The calls of a session go to the target and leave the hits that were handled as they are. -/
abbrev tally (start : Nat) : Discipline Call Call.Reply Session (Vm × List Hit) Unbooked where
  answer c w := ((w.1.answer c).1, (w.1.answer c).2, w.2)
  Given s w := Numbered start s w.1
  Inv := Tallied start

variable {start : Nat} {h rest : Unbooked} {s : Session} {w : Vm × List Hit} {α : Type}

theorem wp_thinning {Q : α → Unbooked → Session → Vm × List Hit → Prop} {m : Task Session α}
    (hm : Thinning m) (hh : (tally start).Holds h rest s w)
    (hQ : ∀ a rest s w, (tally start).Holds h rest s w → Q a rest s w) :
    (tally start).wp Q m rest s w := by
  refine wp_of_within ?_ ?_ hm hQ hh
  · exact fun c hc _ _ _ ht hg => ht.of_vm (Vm.nextRequest_le_answer hc hg.1)
  · exact fun s t hst w hg => ⟨hg.of_thins hst, fun k ht => ht.thins hst⟩

theorem settles_thinning {m : Task Session α} (hm : Thinning m) : (tally start).Settles 0 m :=
  fun _ _ _ hh => wp_thinning hm hh fun _ _ _ _ hh => hh

theorem holds_without {k : Unbooked} (hh : (tally start).Holds (k + h) rest s w) :
    (tally start).Holds h rest s w := by
  intro hg
  have ht := hh hg
  rw [add_assoc] at ht
  exact ht.drop

/-! ## Adding breakpoints -/

theorem holds_drawn (hh : (tally start).Holds h rest s w) :
    (tally start).Holds (Unbooked.name s.freshId.1 + h) rest s.freshId.2 w := by
  intro hg
  rw [add_assoc]
  exact (hh (hg.of_thins s.thins_freshId)).freshId hg.2

theorem wp_making {Q : Except DebugError (List RequestId) → Unbooked → Session →
      Vm × List Hit → Prop}
    (hQ : ∀ requests rest s w, (tally start).Holds (Unbooked.requests requests + h) rest s w →
      Q (.ok requests) rest s w)
    {locations : List Location} (made : List RequestId)
    (hh : (tally start).Holds (Unbooked.requests made + h) rest s w) :
    (tally start).wp Q (install made locations).run rest s w := by
  induction locations generalizing made rest s w with
  | nil => exact hQ _ _ _ _ hh
  | cons l ls ih =>
    refine wp_op_bind (wp_request hh fun rest s w ht hg hg' => ?_)
    refine ⟨Unbooked.requests (made ++ [w.1.nextRequest]) + h, ?_, fun rest s w' hh => ih _ hh⟩
    rw [Unbooked.requests_append, add_comm (Unbooked.requests made), add_assoc, add_assoc,
      ← add_assoc (Unbooked.requests made)]
    exact ht.addRequest (Vm.lt_addRequest hg'.1)

section
variable {b : Breakpoint}

theorem holds_installs (hb : b.hitCount = 0) {requests : List RequestId}
    (hh : (tally start).Holds (Unbooked.requests requests + Unbooked.name b.id) rest s w) :
    (tally start).Holds 0 rest
      { s with breakpoints := s.breakpoints.insertInstalled b requests } w := by
  intro hg
  have ht := hh hg
  rw [Unbooked.requests_add_name] at ht
  have hnew := ht.unused b.id (Multiset.mem_add.2 (.inl (Multiset.mem_singleton_self _)))
  rw [zero_add]
  exact ht.gains (BreakpointTable.gains_insertInstalled hnew hb requests)
    fun _ => Multiset.mem_singleton_self _

theorem holds_waits (hb : b.hitCount = 0) (watch : RequestId)
    (hh : (tally start).Holds (Unbooked.name b.id) rest s w) :
    (tally start).Holds 0 rest
      { s with breakpoints := s.breakpoints.insertPending b watch } w := by
  intro hg
  have ht : Tallied start (((([] : List RequestId) : Multiset RequestId), {b.id}) + rest) s w :=
    hh hg
  have hnew := ht.unused b.id (Multiset.mem_add.2 (.inl (Multiset.mem_singleton_self _)))
  rw [zero_add]
  exact ht.gains (BreakpointTable.gains_insertPending hnew hb watch)
    fun _ => Multiset.mem_singleton_self _

theorem wp_waiting (hb : b.hitCount = 0)
    (hh : (tally start).Holds (Unbooked.name b.id) rest s w) :
    (tally start).wp (fun _ => (tally start).Holds 0) (Session.addPending b).run rest s w := by
  have hget (rest : Unbooked) (s : Session) (w : Vm × List Hit)
      (hh : (tally start).Holds 0 rest s w) : (tally start).wp (fun _ => (tally start).Holds 0)
        (Session.getBreakpoint b.id).run rest s w := wp_getBreakpoint fun _ => hh
  show (tally start).wp _ (ExceptT.run (Op.state >>= _)) rest s w
  refine wp_op_bind (wp_state ?_)
  dsimp only
  cases s.breakpoints.watch? b.className with
  | some watch => exact wp_op_bind (wp_update (hget _ _ _ (holds_waits hb watch hh)))
  | none =>
    refine wp_op_bind (wp_thinning ⟨nofun, fun _ => trivial⟩ hh fun r rest s w hh => ?_)
    cases r with
    | error e => exact holds_without (by rwa [add_zero])
    | ok watch =>
      refine wp_op_bind (wp_update (wp_op_bind (wp_state ?_)))
      have hjoined := holds_waits hb watch hh
      dsimp only
      split
      · refine wp_op_bind (wp_thinning (Op.within_lift ⟨nofun, fun _ => trivial⟩) hjoined
          fun r rest s w hh => ?_)
        cases r with
        | error e => exact hh
        | ok _ => exact hget _ _ _ hh
      · exact hget _ _ _ hjoined

end

theorem tally_addBreakpoint (className : String) (kind : BreakpointKind)
    (condition : Option String) :
    (tally start).Settles 0 (Operation.addBreakpoint className kind condition).task := by
  refine settles_failure fun rest s w hh => ?_
  refine wp_op_bind (wp_reach (fun _ _ => hh) fun _ => wp_op_bind (wp_updateGet ?_))
  refine wp_op_bind (wp_state ?_)
  have hmine := holds_drawn hh
  rw [add_zero] at hmine
  generalize s.freshId.1 = id at hmine ⊢
  generalize s.freshId.2 = s at hmine ⊢
  refine wp_op_bind (wp_thinning (inspects_call rfl).thinning hmine fun r rest s w hmine => ?_)
  have hgiveUp : (tally start).Holds 0 rest s w := holds_without (by rwa [add_zero])
  cases r with
  | error e => exact hgiveUp
  | ok classes =>
    dsimp only
    split
    · exact wp_waiting rfl hmine
    · refine wp_op_bind (wp_thinning (inspects_resolveLocations _ _).thinning hmine
        fun r rest s w hmine => ?_)
      have hgiveUp : (tally start).Holds 0 rest s w := holds_without (by rwa [add_zero])
      cases r with
      | error e => exact hgiveUp
      | ok locations =>
        dsimp only
        split
        · exact hgiveUp
        · refine wp_op_bind (wp_making (h := Unbooked.name id) ?_ [] (by simpa using hmine))
          intro requests rest s w hh
          exact wp_op_bind (wp_update (wp_getBreakpoint fun _ => holds_installs rfl hh))

theorem tally_operation (o : Operation) : (tally start).Settles 0 o.task := by
  cases o with
  | addBreakpoint className kind condition => exact tally_addBreakpoint className kind condition
  | _ => exact settles_thinning (thinning_operation nofun)

/-! ## Loaded classes -/

theorem holds_books (id : String) {requests : List RequestId}
    (hh : (tally start).Holds (Unbooked.requests requests) rest s w) :
    (tally start).Holds 0 rest (Session.bookRequests id requests s).2 w := by
  intro hg
  have ht : Tallied start (((requests : Multiset RequestId), 0) + rest) s w := hh hg
  rw [zero_add]
  show Tallied start rest
    { s with breakpoints := (s.breakpoints.materialize id requests).2 } w
  cases hbooked : (s.breakpoints.materialize id requests).1 with
  | none =>
    rw [BreakpointTable.materialize_of_none hbooked]
    exact ht.drop
  | some enabled =>
    refine ht.gains (BreakpointTable.gains_materialize hbooked) fun hnone => ?_
    simp [BreakpointTable.materialize, hnone] at hbooked

theorem thinning_followUp (requests : List RequestId) (enabled : Option Bool) :
    Thinning (Session.followUp requests enabled) := by
  rcases enabled with _ | _ | _
  · exact Session.within_deletions (fun _ => nofun) requests
  · refine Task.within_quietlyAll ?_ requests
    exact fun _ => nofun
  · trivial

theorem tally_materialize (c : TypeInfo) (b : Breakpoint) :
    (tally start).Settles 0 (Session.materialize c b) := by
  intro rest s w hh
  have hbook (requests : List RequestId) (rest : Unbooked) (s : Session) (w : Vm × List Hit)
      (hh : (tally start).Holds (Unbooked.requests requests) rest s w) :
      (tally start).wp (fun _ => (tally start).Holds 0)
        (do Session.followUp requests (← Routine.modifyGet (Session.bookRequests b.id requests)))
        rest s w :=
    settles_thinning (thinning_followUp requests _) _ _ _ (holds_books b.id hh)
  refine wp_bind (wp_op_bind (wp_thinning (inspects_resolveLocations _ _).thinning hh
    fun r rest s w hh => ?_))
  cases r with
  | error e => exact hbook [] rest s w hh
  | ok locations =>
    refine wp_making (h := 0) (fun requests rest s w hh => ?_) [] (by simpa using hh)
    rw [add_zero] at hh
    exact hbook requests rest s w hh

theorem tally_materializeAll (c : TypeInfo) (waiting : List Breakpoint) :
    (tally start).Settles 0 (Session.materializeAll c waiting) := by
  induction waiting with
  | nil => exact fun _ _ _ hh => hh
  | cons b bs ih =>
    exact fun rest s w hh => wp_bind (wp_mono (fun _ => ih) (tally_materialize c b rest s w hh))

theorem tally_classLoaded (c : TypeInfo) : (tally start).Settles 0 (Session.classLoaded c) := by
  intro rest s w hh
  have htaken : (tally start).Holds 0 rest (Session.takePending c.name s).2 w := fun hg =>
    (hh (hg.of_thins (s.thins_takePending c.name))).thins (s.thins_takePending c.name)
  show (tally start).wp _ (Session.installWaiting c (Session.takePending c.name s).1) rest
    (Session.takePending c.name s).2 w
  generalize Session.takePending c.name s = p at htaken ⊢
  obtain ⟨taken, s⟩ := p
  cases taken with
  | none => exact htaken
  | some taken =>
    obtain ⟨watch, waiting⟩ := taken
    show (tally start).wp _ (if s.unreachable?.isSome then _ else _) rest s w
    split
    · exact htaken
    · refine wp_bind (wp_thinning ⟨nofun, fun _ => trivial⟩ htaken fun _ rest s w hh => ?_)
      exact tally_materializeAll c waiting rest s w hh

/-! ## Events -/

/-- Only the counting of a hit, which comes first when it is handled, adds to the books. -/
theorem tally_handleEvent {e : TargetEvent} (he : ∀ request t l, e ≠ .breakpoint request t l) :
    (tally start).Settles 0 (Session.handleEvent e) := by
  cases e with
  | breakpoint request t l => exact absurd rfl (he request t l)
  | step request t l =>
    rw [Session.handleEvent_step]
    refine settles_thinning fun s => ⟨(s.quiet_finishStep t request).thins, ?_⟩
    have hrest := Quietly.thinning (Session.quietly_reportStep t l)
    dsimp only
    split
    · exact ⟨nofun, fun _ => hrest⟩
    · exact hrest
  | classPrepare request t c =>
    exact fun rest s w hh => wp_bind (tally_classLoaded c rest s w hh)
  | vmStart | exception | threadStart | threadDeath | vmDeath =>
    exact settles_thinning (Quietly.thinning (Session.quietly_handleEvent rfl))

end JvmDebug
