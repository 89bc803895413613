import JvmDebug.Proofs.ArmedRules
import JvmDebug.Proofs.Installing

/-!
What the handling of reports does to the breakpoints: each stays and keeps its requests, and a set of
hits adds to the count of a breakpoint what there is of hits on its requests.
-/
namespace JvmDebug

open Routine

/-! ## Keeping requests -/

/-- Each breakpoint stays and keeps its requests. -/
def Session.Retains (s t : Session) : Prop :=
  ∀ id e, s.breakpoints.entries.get? id = some e →
    ∃ e', t.breakpoints.entries.get? id = some e' ∧ e.requests ⊆ e'.requests

namespace Session
variable {s t u : Session}

theorem Retains.trans (hst : s.Retains t) (htu : t.Retains u) : s.Retains u := by
  intro id e he
  obtain ⟨e', he', hsub⟩ := hst id e he
  obtain ⟨e'', he'', hsub'⟩ := htu id e' he'
  exact ⟨e'', he'', fun _ hr => hsub' (hsub hr)⟩

theorem Quiet.retains (h : s.Quiet t) : s.Retains t :=
  fun _ e he => ⟨e, by rw [h.breakpoints, he], fun _ hr => hr⟩

theorem Retains.rfl : s.Retains s := Quiet.rfl.retains

theorem retains_takePending (name : String) (s : Session) : s.Retains (takePending name s).2 := by
  refine fun id e he => ⟨e, ?_, fun _ hr => hr⟩
  show (s.breakpoints.takePending name).2.entries.get? id = some e
  simp only [BreakpointTable.takePending]
  split <;> exact he

theorem retains_bookRequests (id : String) (requests : List RequestId) (s : Session) :
    s.Retains (bookRequests id requests s).2 := by
  intro other e he
  show ∃ e', (s.breakpoints.materialize id requests).2.entries.get? other = some e' ∧ _
  simp only [BreakpointTable.materialize]
  split
  · exact ⟨e, he, fun _ hr => hr⟩
  · next e₀ he₀ =>
    simp only [Dict.get?_modify]
    split
    · next hother =>
      subst hother
      obtain rfl := Option.some.inj (he₀.symm.trans he)
      exact ⟨_, by rw [he]; rfl, List.subset_append_left _ _⟩
    · exact ⟨e, he, fun _ hr => hr⟩

theorem retains_recordHit (request : Option RequestId) (s : Session) :
    s.Retains (recordHit request s).2 := by
  cases request with
  | none => exact .rfl
  | some r =>
    intro id e he
    show ∃ e', (s.breakpoints.recordHit r).2.entries.get? id = some e' ∧ _
    cases howner : s.breakpoints.owners.get? r with
    | none =>
      rw [BreakpointTable.recordHit_of_none howner]
      exact ⟨e, he, fun _ hr => hr⟩
    | some owner =>
      rw [BreakpointTable.get?_recordHit howner, he]
      exact ⟨_, rfl, fun _ hr => hr⟩

theorem retains_handleEvent (e : TargetEvent) : (handleEvent e).Within (fun _ => True) Retains := by
  cases e with
  | classPrepare request t c =>
    refine within_bind ?_ fun _ => trivial
    exact within_classLoaded (fun _ _ => trivial) retains_bookRequests (fun _ => .rfl)
      retains_takePending c
  | vmStart | breakpoint | step | exception | threadStart | threadDeath | vmDeath =>
    exact within_handleEvent nofun (fun _ _ => trivial) (fun _ => trivial)
      (fun _ _ h => h.retains) retains_recordHit

theorem retains_handleSet (set : EventSet) : (handleSet set).Within (fun _ => True) Retains :=
  within_handleSet retains_handleEvent trivial fun s => s.quiet_disconnected.retains

end Session

/-! ## Reports -/

theorem Routine.run_undisturbed {σ α : Type} (m : Task σ α) (s : σ) (vm : Vm) :
    vm.Undisturbed (m.run Vm.serve s vm).2.2 := by
  induction m generalizing s vm with
  | done a => exact .rfl
  | request c k ih => exact (vm.answer_undisturbed c).trans (ih _ _ _)
  | update f k ih => exact ih _ _ _

namespace Scene

theorem perform_handling_nil {c : Scene} (h : c.vm.reports = []) : c.perform .handling = c := by
  simp only [perform, Deed.begun, h, Routine.run]

theorem perform_handling_events {c : Scene} {set : EventSet} {reports : List Report}
    (h : c.vm.reports = .events set :: reports) : c.perform .handling = { c with
      session := ((Session.handleSet set).run Vm.serve c.session { c.vm with reports }).2.1
      vm := ((Session.handleSet set).run Vm.serve c.session { c.vm with reports }).2.2 } := by
  simp only [perform, Deed.begun, h, Routine.run_bind, Routine.run]

theorem perform_handling_hangUp {c : Scene} {reports : List Report}
    (h : c.vm.reports = .hangUp :: reports) : c.perform .handling = { c with
      session := c.session.disconnected
      vm := { c.vm with reports } } := by
  simp only [perform, Deed.begun, h, Routine.modify, Routine.run]

theorem reports_handling (c : Scene) : (c.perform .handling).vm.reports = c.vm.reports.tail := by
  cases h : c.vm.reports with
  | nil => rw [perform_handling_nil h, h, List.tail_nil]
  | cons r reports =>
    cases r with
    | events set =>
      rw [perform_handling_events h]
      exact (Routine.run_undisturbed _ _ _).reports
    | hangUp => rw [perform_handling_hangUp h, List.tail_cons]

theorem retains_handling (c : Scene) : c.session.Retains (c.perform .handling).session := by
  cases h : c.vm.reports with
  | nil =>
    rw [perform_handling_nil h]
    exact .rfl
  | cons r reports =>
    cases r with
    | events set =>
      rw [perform_handling_events h]
      exact (Session.retains_handleSet set).run _ (fun _ => .rfl) (fun _ _ _ => .trans) _ _
    | hangUp =>
      rw [perform_handling_hangUp h]
      exact c.session.quiet_disconnected.retains

/-- Reports are handled in the order in which they came. -/
theorem handle_all (c : Scene) (n : Nat) :
    (c.performAll (List.replicate n .handling)).vm.reports = c.vm.reports.drop n ∧
      c.session.Retains (c.performAll (List.replicate n .handling)).session := by
  induction n with
  | zero => exact ⟨rfl, .rfl⟩
  | succ n ih =>
    rw [List.replicate_succ', performAll_snoc, reports_handling, ih.1, List.tail_drop]
    exact ⟨rfl, ih.2.trans (retains_handling _)⟩

end Scene

/-! ## Counting hits -/

/-- On the way to `t` the hits on these requests are counted. -/
structure Session.Counts (s : Session) (requests : List RequestId) (t : Session) : Prop where
  owners : t.breakpoints.owners = s.breakpoints.owners
  hits : ∀ id, (t.breakpoints.entries.get? id).map (fun e => e.breakpoint.hitCount) =
    (s.breakpoints.entries.get? id).map fun e => e.breakpoint.hitCount +
      UInt64.ofNat (requests.countP fun r => s.breakpoints.owners.get? r = some id)

namespace Session
variable {s t u : Session} {requests others : List RequestId}

theorem Quiet.counts (h : s.Quiet t) : s.Counts [] t where
  owners := by rw [h.breakpoints]
  hits id := by simp [h.breakpoints]

theorem Counts.append (hst : s.Counts requests t) (htu : t.Counts others u) :
    s.Counts (requests ++ others) u where
  owners := htu.owners.trans hst.owners
  hits id := by
    have ht := hst.hits id
    rw [htu.hits, hst.owners]
    cases hs : s.breakpoints.entries.get? id with
    | none =>
      rw [hs] at ht
      rw [Option.map_eq_none_iff.1 ht]
      rfl
    | some e =>
      rw [hs] at ht
      obtain ⟨e', he', hcount⟩ := Option.map_eq_some_iff.1 ht
      rw [he', Option.map_some, Option.map_some, hcount, List.countP_append, UInt64.ofNat_add,
        UInt64.add_assoc]

theorem counts_recordHit (r : RequestId) (s : Session) :
    s.Counts [r] (recordHit (some r) s).2 := by
  show s.Counts [r] { s with breakpoints := (s.breakpoints.recordHit r).2 }
  refine ⟨s.breakpoints.owners_recordHit r, fun id => ?_⟩
  dsimp only
  cases howner : s.breakpoints.owners.get? r with
  | none => simp [BreakpointTable.recordHit_of_none howner, howner]
  | some owner =>
    rw [BreakpointTable.get?_recordHit howner, Option.map_map]
    by_cases hid : id = owner
    · simp [hid, howner, Function.comp_def]
    · have hne : owner ≠ id := fun h => hid h.symm
      simp [hid, howner, hne, Function.comp_def]

theorem leads_handleEvents_hits {Given : Session → Vm → Prop} (t : ThreadId) (l : Location)
    (requests : List RequestId) (s : Session) (vm : Vm) :
    (handleEvents (requests.map fun r => .breakpoint (some r) t l)).Leads Vm.serve Given
      (fun goesOn u _ => goesOn = true ∧ s.Counts requests u) s vm := by
  induction requests generalizing s vm with
  | nil => exact ⟨rfl, Quiet.rfl.counts⟩
  | cons r rs ih =>
    refine leads_bind ?_
    rw [handleEvent_breakpoint]
    refine leads_bind (leads_inspects (inspects_threadPlace t l) fun place => ?_)
    generalize (recordHit (some r) s).1 = id
    have hcounted := (counts_recordHit r s).append
      ((quiet_stopped (recordHit (some r) s).2 t (some id)).trans
        (quiet_emit _ (.breakpointHit id place))).counts
    rw [List.append_nil] at hcounted
    refine (ih _ vm).mono fun goesOn u _ hu => ⟨hu.1, ?_⟩
    exact hcounted.append hu.2

/-- A set of hits is counted hit by hit. -/
theorem counts_handleSet (t : ThreadId) (l : Location) (requests : List RequestId)
    (policy : SuspendPolicy) (s : Session) (vm : Vm) :
    s.Counts requests ((handleSet ⟨policy, requests.map fun r => .breakpoint (some r) t l⟩).run
      Vm.serve s vm).2.1 := by
  generalize hset : (⟨policy, requests.map fun r => .breakpoint (some r) t l⟩ : EventSet) = set
  have hresume : (resumeAfter set).Within (fun _ => True) Quiet :=
    within_resumeAfter trivial quiet_disconnected
  have hleads : (handleSet set).Leads Vm.serve (fun _ _ => True)
      (fun _ u _ => s.Counts requests u) s vm := by
    have hevents := @leads_handleEvents_hits (fun _ _ => True) t l requests s vm
    rw [← hset]
    refine leads_bind (hevents.mono fun goesOn u vm hu => ?_)
    obtain ⟨rfl, hcounts⟩ := hu
    rw [hset]
    refine leads_of_within (fun _ _ _ _ hu _ => hu) (fun u v huv _ hu => ?_) hresume hcounts
    have hcounts := hu.append huv.counts
    rwa [List.append_nil] at hcounts
  exact hleads.run fun _ _ => trivial

end Session

end JvmDebug
