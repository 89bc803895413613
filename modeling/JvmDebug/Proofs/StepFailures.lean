import JvmDebug.Proofs.Execution
import JvmDebug.Proofs.FailingCalls
import JvmDebug.Proofs.StepRequests

/-!
Steps that fail. A step gives up the last one of its thread before it asks for a request, and has its
request on record before it lets the target run, so what it leaves behind depends on the call that
failed: `Session.step_failure_traceless_iff`.
-/
namespace JvmDebug

open Routine

/-- The requests of the target that are for steps. -/
def Vm.stepRequests (vm : Vm) : List (RequestId × Request) :=
  vm.requests.entries.filter fun p => p.2.kind.stepThread?.isSome

namespace Session
variable {size : StepSize} {depth : StepDepth} {s : Session} {vm : Vm}

/-- The request is deleted, if there is one and the call for it does not fail. -/
def Drops (vm : Vm) (previous : Option RequestId) (vm' : Vm) : Prop :=
  vm' = vm ∨ ∃ r, previous = some r ∧ vm' = (vm.deleteRequest r).2

theorem Drops.nextRequest {previous : Option RequestId} {vm' : Vm} (h : Drops vm previous vm') :
    vm'.nextRequest = vm.nextRequest := by
  rcases h with rfl | ⟨r, -, rfl⟩
  · rfl
  · exact vm.nextRequest_deleteRequest r

theorem Drops.onlyRequests {previous : Option RequestId} {vm' : Vm} (h : Drops vm previous vm') :
    vm.OnlyRequests vm' := by
  rcases h with rfl | ⟨r, -, rfl⟩
  · exact .rfl
  · rw [vm.deleteRequest_eq]
    exact Eq.refl _

/-- What a failed step leaves of the session and the target, and the calls it has made. -/
inductive StepLeaves (size : StepSize) (depth : StepDepth) (s : Session) (vm : Vm) :
    Session → Vm × List Call → Prop
  | nothing {made : List Call} (hmade : ∀ c ∈ made, c.inspects) :
      StepLeaves size depth s vm s (vm, made)
  | givenUp (t : ThreadId) {vm' : Vm} (hdrops : Drops vm (s.steps.get? t) vm') :
      StepLeaves size depth s vm { s with steps := s.steps.erase t }
        (vm', .thread t :: deletions (s.steps.get? t).toList ++ [.createStep t size depth])
  | underWay (t : ThreadId) {vm' : Vm} (hdrops : Drops vm (s.steps.get? t) vm') :
      StepLeaves size depth s vm { s with steps := s.steps.insert t vm.nextRequest }
        ((vm'.addRequest (.step t size depth)).2,
          .thread t :: deletions (s.steps.get? t).toList ++ [.createStep t size depth, .resumeAll])

variable {fails : Failures}

theorem ends_replaceStep_none {t : ThreadId} {vm' : Vm} {made : List Call}
    (hmade : made = .thread t :: deletions (s.steps.get? t).toList)
    (hdrops : Drops vm (s.steps.get? t) vm') :
    (replaceStep t depth size none).run.Ends fails Vm.serve
      (fun r s' w => ∀ e, r = .error e → StepLeaves size depth s vm s' w)
      { s with steps := s.steps.erase t } (vm', made) := by
  subst hmade
  refine leads_op_bind (ends_call (c := .createStep t size depth) (fun e _ => ?_) fun _ => ?_)
  · exact fun _ _ => .givenUp t hdrops
  · by_cases ht : vm'.threads.contains t
    · have hnext := hdrops.nextRequest
      have hcreate : Vm.serve (.createStep t size depth) vm' =
          (.ok vm'.nextRequest, (vm'.addRequest (.step t size depth)).2) := by
        simp only [Vm.serve, Vm.answer, if_pos ht]
        rfl
      rw [hcreate]
      refine leads_op_bind (leads_op_bind (ends_call (c := .resumeAll) (fun e _ => ?_) fun _ => ?_))
      · intro _ _
        simp only [Dict.insert_erase, List.append_assoc, List.cons_append, List.nil_append, hnext]
        exact .underWay t hdrops
      · exact fun _ h => by cases h
    · have hcreate : Vm.serve (.createStep t size depth) vm' = (.error (.invalidThread t), vm') := by
        simp only [Vm.serve, Vm.answer, if_neg ht]
      rw [hcreate]
      exact fun _ _ => .givenUp t hdrops

theorem ends_replaceStep (t : ThreadId) :
    (replaceStep t depth size (s.steps.get? t)).run.Ends fails Vm.serve
      (fun r s' w => ∀ e, r = .error e → StepLeaves size depth s vm s' w)
      { s with steps := s.steps.erase t } (vm, [.thread t]) := by
  cases hprevious : s.steps.get? t with
  | none => exact ends_replaceStep_none (by rw [hprevious]; rfl) (.inl rfl)
  | some r =>
    refine leads_op_bind (leads_lift (ends_quietly (fun _ _ => ?_) fun _ => ?_))
    · exact ends_replaceStep_none (by rw [hprevious]; rfl) (.inl rfl)
    · exact ends_replaceStep_none (by rw [hprevious]; rfl) (.inr ⟨r, hprevious, rfl⟩)

/-- What a step does at each moment, until one of its calls fails. -/
theorem ends_step (t : Option ThreadId) (depth : StepDepth) (size : StepSize) :
    (step t depth size).run.Ends fails Vm.serve
      (fun r s' w => ∀ e, r = .error e → StepLeaves size depth s vm s' w) s (vm, []) := by
  have hnothing {made : List Call} (hmade : ∀ c ∈ made, c.inspects) :
      StepLeaves size depth s vm s (vm, made) := .nothing hmade
  refine leads_op_bind (leads_reach (fun _ _ _ _ => hnothing (by simp)) fun _ => ?_)
  refine leads_op_bind (ends_chosenThread (fun _ _ _ => hnothing (by simp)) fun t _ => ?_)
  have hasked : StepLeaves size depth s vm s (vm, [.thread t]) :=
    hnothing (by simp [Call.inspects])
  refine leads_op_bind (ends_call (c := .thread t) (fun e _ _ _ => hasked) fun _ => ?_)
  have hsame : (Vm.serve (.thread t) vm).2 = vm := vm.answer_inspects rfl
  rw [hsame]
  cases (Vm.serve (.thread t) vm).1 with
  | error e => exact fun _ _ => hasked
  | ok info =>
    show Leads _ _ _ (ExceptT.run (if !info.suspended then _ else _)) _ _
    split
    · exact fun _ _ => hasked
    · exact ends_replaceStep t

/-! ## Traces -/

theorem StepLeaves.rest {s' : Session} {w : Vm × List Call} (h : StepLeaves size depth s vm s' w) :
    s' = { s with steps := s'.steps } ∧ vm.OnlyRequests w.1 := by
  cases h with
  | nothing hmade => exact ⟨rfl, .rfl⟩
  | givenUp t hdrops => exact ⟨rfl, hdrops.onlyRequests⟩
  | underWay t hdrops => exact ⟨rfl, hdrops.onlyRequests.trans (Eq.refl _)⟩

/-- Nothing was changed on the record of steps and with the requests for them. -/
def StepTraceless (s s' : Session) (vm vm' : Vm) : Prop :=
  s'.steps = s.steps ∧ vm'.stepRequests = vm.stepRequests

theorem StepLeaves.traceless_iff {s' : Session} {w : Vm × List Call}
    (hfresh : vm.requests.get? vm.nextRequest = none) (h : StepLeaves size depth s vm s' w) :
    StepTraceless s s' vm w.1 ↔ .resumeAll ∉ w.2 ∧
      ∀ t size depth, .createStep t size depth ∈ w.2 → s.steps.get? t = none := by
  cases h with
  | nothing hmade =>
    refine iff_of_true ⟨rfl, rfl⟩ ⟨fun hc => ?_, fun t size depth hc => ?_⟩
    · cases hmade _ hc
    · cases hmade _ hc
  | @givenUp t vm' hdrops =>
    have hmade : .resumeAll ∉ .thread t :: deletions (s.steps.get? t).toList ++
        [.createStep t size depth] := by simp [deletions]
    constructor
    · rintro ⟨hsteps, -⟩
      have hnone : s.steps.get? t = none := by
        rw [← hsteps, Dict.get?_erase, if_pos rfl]
      refine ⟨hmade, fun u _ _ hu => ?_⟩
      obtain ⟨rfl, -⟩ : u = t ∧ _ := by simpa [deletions] using hu
      exact hnone
    · rintro ⟨-, hnone⟩
      have hnone : s.steps.get? t = none := hnone t size depth (by simp)
      rcases hdrops with rfl | ⟨r, hr, -⟩
      · exact ⟨Dict.eq_of_entries (Dict.erase_entries_of_none hnone), rfl⟩
      · rw [hnone] at hr
        cases hr
  | @underWay t vm' hdrops =>
    refine iff_of_false ?_ fun h => h.1 (by simp)
    rintro ⟨-, hrequests⟩
    have hfiled : (vm'.addRequest (.step t size depth)).2.requests.get? vm.nextRequest =
        some ⟨vm.nextRequest, .step t size depth, true⟩ := by
      rw [← hdrops.nextRequest]
      simp only [Vm.addRequest, Dict.get?_insert, if_pos]
    have hstep : (vm.nextRequest, ⟨vm.nextRequest, .step t size depth, true⟩) ∈
        (vm'.addRequest (.step t size depth)).2.stepRequests :=
      List.mem_filter.2 ⟨Dict.mem_entries.2 hfiled, rfl⟩
    -- the request was there before, but then it had another number
    have hold := Dict.mem_entries.1 (List.mem_filter.1 (hrequests ▸ hstep)).1
    rw [hold] at hfresh
    cases hfresh

/-- A step that fails changes nothing but the record of steps and the requests of the target. It
leaves these as they were if and only if it did not come to let the target run, and was not refused
its request after it had given up an earlier step of the thread. -/
theorem step_failure_traceless_iff (t : Option ThreadId) (depth : StepDepth) (size : StepSize)
    (fails : Failures) (s : Session) (vm : Vm) (hfresh : vm.requests.get? vm.nextRequest = none) :
    let run := (step t depth size).run.run (fails.answer Vm.serve) s (vm, [])
    ∀ e, run.1 = .error e →
      run.2.1 = { s with steps := run.2.1.steps } ∧ vm.OnlyRequests run.2.2.1 ∧
        (StepTraceless s run.2.1 vm run.2.2.1 ↔ .resumeAll ∉ run.2.2.2 ∧
          ∀ t size depth, .createStep t size depth ∈ run.2.2.2 → s.steps.get? t = none) := by
  intro run e herror
  have hleaves : StepLeaves size depth s vm run.2.1 run.2.2 := (ends_step t depth size).run e herror
  exact ⟨hleaves.rest.1, hleaves.rest.2, hleaves.traceless_iff hfresh⟩

/-- The one thread of the sample is suspended. -/
def suspendedVm : Vm := Scene.sample.vm.setSuspended 1 true

/-- The target cannot be told to run on. -/
def resumeFails : Failures := fun _ c => if c = .resumeAll then some .timeout else none

theorem step_failure_traceless_iff_resume :
    let run := (step (some 1) .over .line).run.run (resumeFails.answer Vm.serve)
      Scene.sample.session (suspendedVm, [])
    ¬StepTraceless Scene.sample.session run.2.1 suspendedVm run.2.2.1 := by
  intro run htraceless
  have herror : run.1 = .error (.ofTarget .timeout) := by decide +kernel
  have htold : .resumeAll ∈ run.2.2.2 := by decide +kernel
  have hiff := (step_failure_traceless_iff (some 1) .over .line resumeFails Scene.sample.session
    suspendedVm rfl _ herror).2.2
  exact (hiff.1 htraceless).1 htold

/-- A step that cannot let the target run keeps its request, on the target and on record. -/
theorem step_failure_leaves_request :
    ¬∀ (t : Option ThreadId) (depth : StepDepth) (size : StepSize) (fails : Failures) (s : Session)
      (vm : Vm),
      let run := (step t depth size).run.run (fails.answer Vm.serve) s (vm, [])
      ∀ e, run.1 = .error e → StepTraceless s run.2.1 vm run.2.2.1 := by
  intro h
  have htraceless := h (some 1) .over .line resumeFails Scene.sample.session suspendedVm
    (.ofTarget .timeout) (by decide +kernel)
  have hrecord := congrArg (fun steps => (steps.get? 1).isSome) htraceless.1
  revert hrecord
  decide +kernel

end Session

end JvmDebug
