import JvmDebug.Proofs.Execution
import JvmDebug.Proofs.FailingCalls
import JvmDebug.Proofs.Ledger
import JvmDebug.Proofs.TidyLives

/-!
Breakpoints on a connection whose calls fail. One that cannot be added leaves nothing behind, if
only requests can be deleted; one that is taken out is out of the tables even if its requests
cannot: `Lifetime.failures_keep_tables`.
-/
namespace JvmDebug

open Routine

/-! ## Requests made and deleted again -/

namespace Vm
variable {vm vm' : Vm} {made : List RequestId} {n : Nat}

/-- The target has got the requests `made` and has numbers for `n` more. -/
structure Grown (vm : Vm) (made : List RequestId) (n : Nat) (vm' : Vm) : Prop where
  only : vm.OnlyRequests vm'
  entries : ∃ block, vm'.requests.entries = vm.requests.entries ++ block ∧
    block.map Prod.fst = made
  fresh : ∀ p ∈ vm.requests.entries, p.1 ∉ made
  room : vm'.Room n

theorem Room.grown (h : vm.Room n) : vm.Grown [] n vm where
  only := .rfl
  entries := ⟨[], (List.append_nil _).symm, rfl⟩
  fresh _ _ := List.not_mem_nil
  room := h

theorem Grown.addRequest (h : vm.Grown made (n + 1) vm') (kind : RequestKind) :
    vm.Grown (made ++ [vm'.nextRequest]) n (vm'.addRequest kind).2 := by
  obtain ⟨block, hblock, hmade⟩ := h.entries
  obtain ⟨hentries, hroom⟩ := h.room.addRequest kind
  refine ⟨h.only.trans (Eq.refl _), ⟨block ++ [(vm'.nextRequest, ⟨vm'.nextRequest, kind, true⟩)],
    ?_, ?_⟩, fun p hp => ?_, hroom⟩
  · rw [hentries, hblock, List.append_assoc]
  · rw [List.map_append, hmade]
    rfl
  · have hbelow : p.1 < vm'.nextRequest :=
      h.room.below p (hblock ▸ List.mem_append_left _ hp)
    rw [List.mem_append, List.mem_singleton, not_or]
    exact ⟨h.fresh p hp, UInt32.ne_of_lt hbelow⟩

/-- When what was made is deleted again, nothing is left of it but its numbers. -/
theorem Grown.without (h : vm.Grown made n vm') :
    vm'.without made = { vm with nextRequest := vm'.nextRequest } := by
  obtain ⟨block, hblock, hmade⟩ := h.entries
  have hold : vm.requests.entries.filter (fun p => p.1 ∉ made) = vm.requests.entries :=
    List.filter_eq_self.2 fun p hp => decide_eq_true (h.fresh p hp)
  have hnew : block.filter (fun p => p.1 ∉ made) = [] := by
    refine List.filter_eq_nil_iff.2 fun p hp => ?_
    simpa using hmade ▸ List.mem_map_of_mem hp
  have hrequests : (vm'.without made).requests = vm.requests := by
    refine Dict.eq_of_entries ?_
    rw [entries_without, hblock, List.filter_append, hold, hnew, List.append_nil]
  have honly := h.only
  calc vm'.without made = { vm' with requests := vm.requests } := by rw [← hrequests]; rfl
    _ = { vm with nextRequest := vm'.nextRequest } := by rw [honly]

end Vm

section
variable {σ : Type} {fails : Failures} {s : σ} {vm vm' : Vm}

theorem ends_deletions (hdelete : ∀ made r, fails made (.deleteRequest r) = none)
    {Q : Unit → σ → Vm × List Call → Prop} {made : List Call} (requests : List RequestId)
    (hQ : ∀ more, made.length ≤ more.length → Q () s (vm'.without requests, more)) :
    (Task.quietlyAll (deletions requests)).Ends fails Vm.serve Q s (vm', made) := by
  induction requests generalizing vm' made with
  | nil => exact hQ made le_rfl
  | cons r rs ih =>
    refine leads_bind (ends_quietly (fun e h => ?_) fun _ => ?_)
    · rw [hdelete] at h
      cases h
    · have hfirst : (Vm.serve (.deleteRequest r) vm').2 = vm'.without [r] := vm'.deleteRequest_eq r
      rw [hfirst]
      refine ih fun more hmore => hQ more ?_
      rw [List.length_append] at hmore
      omega

/-- The target is as it was but for the number of the next request, as long as there are numbers
for all the calls that were made. -/
def Vm.Restored (vm : Vm) (w : Vm × List Call) : Prop :=
  vm.Room w.2.length → w.1 = { vm with nextRequest := w.1.nextRequest }

/-- If one of the requests cannot be made, those made before it are deleted. -/
theorem ends_install (hdelete : ∀ made r, fails made (.deleteRequest r) = none)
    {Q : Except DebugError (List RequestId) → σ → Vm × List Call → Prop}
    (hok : ∀ requests w, Q (.ok requests) s w) (herror : ∀ e w, vm.Restored w → Q (.error e) s w)
    {made : List RequestId} {locations : List Location} {calls : List Call}
    (hgrown : ∀ n, vm.Room (calls.length + n) → vm.Grown made n vm') :
    (install made locations).run.Ends fails Vm.serve Q s (vm', calls) := by
  induction locations generalizing made vm' calls with
  | nil => exact hok _ _
  | cons l ls ih =>
    refine leads_op_bind (ends_attempt (c := .createBreakpoint l) (fun e _ => ?_) fun _ => ?_)
    · refine leads_op_bind (leads_lift (ends_deletions hdelete made fun more hmore => ?_))
      refine herror _ _ fun hroom => ?_
      have hroom : vm.Room more.length := hroom
      rw [List.length_append] at hmore
      exact (hgrown 0 (hroom.mono (by omega))).without
    · refine ih fun n hroom => ?_
      refine (hgrown (n + 1) (hroom.mono ?_)).addRequest (.breakpoint l)
      rw [List.length_append, List.length_singleton]
      omega

end

/-! ## Adding -/

theorem BreakpointTable.isSome_insert (t : BreakpointTable) (b : Breakpoint) (requests : List RequestId) :
    ((t.insert b requests).entries.get? b.id).isSome := by
  rw [BreakpointTable.insert, Dict.get?_insert, if_pos rfl]
  rfl

namespace Session
variable {s : Session} {vm : Vm} {fails : Failures}

/-- What an addition has left behind when it failed. -/
def Undone {α : Type} (s : Session) (vm : Vm) (r : Except DebugError α) (s' : Session)
    (w : Vm × List Call) : Prop :=
  ∀ e, r = .error e → s' = { s with ids := s'.ids } ∧ vm.Restored w

theorem undone_ok {α : Type} {a : α} {s' : Session} {w : Vm × List Call} :
    s.Undone vm (.ok a) s' w := fun _ h => nomatch h

theorem undone_untouched {α : Type} {r : Except DebugError α} {s' : Session} {made : List Call}
    (hs : s' = { s with ids := s'.ids }) : s.Undone vm r s' (vm, made) :=
  fun _ _ => ⟨hs, fun _ => rfl⟩

theorem ends_getBreakpoint {s' : Session} {w : Vm × List Call} {id : String}
    (h : (s'.breakpoints.entries.get? id).isSome) :
    (getBreakpoint id).run.Ends fails Vm.serve (s.Undone vm) s' w := by
  obtain ⟨e, he⟩ := Option.isSome_iff_exists.1 h
  have hget : s'.breakpoints.get? id = some e.breakpoint := by
    rw [BreakpointTable.get?, he]
    rfl
  refine leads_op_bind (leads_state ?_)
  simp only [hget]
  exact undone_ok

theorem ends_addPending {b : Breakpoint} {s' : Session} {made : List Call}
    (hs : s' = { s with ids := s'.ids }) :
    (addPending b).run.Ends fails Vm.serve (s.Undone vm) s' (vm, made) := by
  have hlisted (watch : RequestId) :
      ((s'.breakpoints.insertPending b watch).entries.get? b.id).isSome :=
    s'.breakpoints.isSome_insert { b with pending := true, resolvedLocations := 0 } []
  refine leads_op_bind (leads_state ?_)
  dsimp only
  split
  · exact leads_op_bind (leads_update (ends_getBreakpoint (hlisted _)))
  · next hnone =>
    refine leads_op_bind (ends_call (c := .createClassPrepareWatch b.className)
      (fun e _ => undone_untouched hs) fun _ => ?_)
    refine leads_op_bind (leads_update (leads_op_bind (leads_state ?_)))
    dsimp only
    split
    · next hother =>
      have hwatch := s'.breakpoints.watch?_insertPending b vm.nextRequest
      rw [hnone, Option.getD_none] at hwatch
      exact absurd hwatch (bne_iff_ne.1 hother)
    · exact ends_getBreakpoint (hlisted _)

theorem ends_addBreakpoint (hdelete : ∀ made r, fails made (.deleteRequest r) = none)
    (className : String) (kind : BreakpointKind) (condition : Option String) :
    (addBreakpoint className kind condition).run.Ends fails Vm.serve (s.Undone vm) s (vm, []) := by
  refine leads_op_bind (leads_reach (fun e _ => undone_untouched rfl) fun _ => ?_)
  refine leads_op_bind (leads_updateGet (leads_op_bind (leads_state ?_)))
  have hdrawn : s.freshId.2 = { s with ids := s.freshId.2.ids } := rfl
  generalize s.freshId.2 = s' at hdrawn ⊢
  refine leads_op_bind (ends_inspects (inspects_call (c := .classesByName className) rfl)
    fun r made _ => ?_)
  cases r with
  | error e => exact undone_untouched hdrawn
  | ok classes =>
    dsimp only
    split
    · exact ends_addPending hdrawn
    · refine leads_op_bind (ends_inspects (inspects_resolveLocations _ _) fun r made _ => ?_)
      cases r with
      | error e => exact undone_untouched hdrawn
      | ok locations =>
        dsimp only
        split
        · exact undone_untouched hdrawn
        · refine leads_op_bind (ends_install hdelete (fun requests w => ?_)
            (fun e w (hrestored : vm.Restored w) _ _ => ⟨hdrawn, hrestored⟩)
            fun n hroom => (hroom.mono (by omega)).grown)
          exact leads_op_bind (leads_update (ends_getBreakpoint (BreakpointTable.isSome_insert _ _ _)))

theorem ends_makeException (className : String) (scope : Option TypeId) (caught uncaught : Bool)
    {made : List Call} : (makeException className scope caught uncaught).run.Ends fails Vm.serve
      (s.Undone vm) s (vm, made) := by
  refine leads_op_bind (ends_call (c := .createExceptionRequest scope caught uncaught)
    (fun e _ => undone_untouched rfl) fun _ => ?_)
  exact leads_op_bind (leads_updateGet (leads_op_bind (leads_state
    (leads_op_bind (leads_update undone_ok)))))

theorem ends_addExceptionBreakpoint (className : String) (caught uncaught : Bool) :
    (addExceptionBreakpoint className caught uncaught).run.Ends fails Vm.serve (s.Undone vm) s
      (vm, []) := by
  rw [addExceptionBreakpoint_eq]
  refine leads_op_bind (leads_reach (fun e _ => undone_untouched rfl) fun _ => ?_)
  dsimp only
  split
  · exact ends_makeException _ _ _ _
  · refine leads_op_bind (ends_inspects (inspects_call (c := .classesByName className) rfl)
      fun r made _ => ?_)
    cases r with
    | error e => exact undone_untouched rfl
    | ok classes => exact ends_makeException _ _ _ _

/-! ## Removing -/

theorem isSome_takeOut {id : String} (h : ¬s.Unknown id) : (takeOut id s).1.isSome := by
  cases he : s.breakpoints.entries.get? id with
  | none =>
    obtain ⟨e, hexception⟩ := Option.ne_none_iff_exists'.1 fun hnone => h ⟨he, hnone⟩
    rw [takeOut_of_none he, hexception]
    rfl
  | some e =>
    obtain ⟨requests, htake⟩ := takeOut_of_some he
    rw [htake]
    rfl

theorem ends_deleteAll {requests : List RequestId} {w : Vm × List Call}
    {Q : Unit → Session → Vm × List Call → Prop} (hQ : ∀ w, Q () s w) :
    (deleteAll requests).Ends fails Vm.serve Q s w := by
  have hsame : (deleteAll requests).Within (fun _ => True) Eq :=
    within_deleteAll (fun _ => trivial) (fun _ => rfl) requests
  have hkeeps : (deleteAll requests).Ends fails Vm.serve (fun _ t _ => s = t) s w :=
    leads_of_within (fun _ _ _ _ h _ => h) (fun _ _ hst _ h => h.trans hst) hsame rfl
  exact hkeeps.mono fun _ _ w h => h ▸ hQ w

theorem ends_removeBreakpoint {id : String} (h : ¬s.Unknown id) {w : Vm × List Call} :
    (removeBreakpoint id).run.Ends fails Vm.serve
      (fun r s' _ => r = .ok () ∧ s' = (takeOut id s).2) s w := by
  obtain ⟨requests, hrequests⟩ := Option.isSome_iff_exists.1 (isSome_takeOut h)
  refine leads_op_bind (leads_updateGet ?_)
  simp only [hrequests]
  exact leads_lift (ends_deleteAll fun _ => ⟨rfl, rfl⟩)

theorem ends_clearBreakpoints {w : Vm × List Call} :
    clearBreakpoints.Ends fails Vm.serve (fun _ s' _ => s' = (takeAll s).2) s w :=
  leads_bind (leads_bind (ends_deleteAll fun _ => rfl))

end Session

/-! ## Sessions -/

namespace Lifetime
open Session

/-- As long as requests can be deleted, a breakpoint that cannot be added leaves the session as it was
but for ids that it has drawn, and the target but for the number of its next request. Whatever
fails, a breakpoint that is known can be taken out and leaves nothing behind in the tables. -/
theorem failures_keep_tables (id : String) (settings : SessionConfig) (createdAt : UInt64)
    (ids : IdSupply) (turns : List Turn)
    (hdiffer : ((born id settings createdAt ids).run turns).session.IdsDiffer ids.next) (vm : Vm)
    (fails : Failures) :
    let s := ((born id settings createdAt ids).run turns).session
    ((∀ made r, fails made (.deleteRequest r) = none) →
      (∀ className kind condition,
        let run := (addBreakpoint className kind condition).run.run (fails.answer Vm.serve) s (vm, [])
        s.Undone vm run.1 run.2.1 run.2.2) ∧
      ∀ className caught uncaught,
        let run := (addExceptionBreakpoint className caught uncaught).run.run
          (fails.answer Vm.serve) s (vm, [])
        s.Undone vm run.1 run.2.1 run.2.2) ∧
    (∀ key, ¬s.Unknown key →
      let run := (removeBreakpoint key).run.run (fails.answer Vm.serve) s (vm, [])
      run.1 = .ok () ∧ s.Forgets key run.2.1) ∧
    let run := clearBreakpoints.run (fails.answer Vm.serve) s (vm, [])
    run.2.1 = { s with breakpoints := {}, exceptions := {} } := by
  intro s
  obtain ⟨names, horder⟩ := inOrder_run id settings createdAt ids turns hdiffer
  refine ⟨fun hdelete => ⟨fun className kind condition => ?_, fun className caught uncaught => ?_⟩,
    fun key hkey => ?_, ?_⟩
  · exact (ends_addBreakpoint hdelete className kind condition).run
  · exact (ends_addExceptionBreakpoint className caught uncaught).run
  · have hends : (removeBreakpoint key).run.Ends fails Vm.serve
        (fun r s' _ => r = .ok () ∧ s' = (takeOut key s).2) s (vm, []) := ends_removeBreakpoint hkey
    exact ⟨hends.run.1, hends.run.2 ▸ horder.forgets_takeOut key⟩
  · exact ends_clearBreakpoints.run

/-- No class is loaded. -/
def classless : Replies
  | .classesByName _ => .ok []
  | .createClassPrepareWatch _ => .ok 5
  | _ => .error .timeout

/-- The session is connected, and a breakpoint waits for its class. -/
def expecting : List Turn :=
  joining ++ .begin (.operation (.addBreakpoint "app.Main" (.line 3) none)) ::
    List.replicate 8 (.go 1 classless)

/-- Line 7 of the class is in two methods. -/
def twofold : Vm :=
  let (c, vm) := Vm.addClass {} "app.Cart" .classType none true
  let (m, vm) := vm.addMethod c "add" "()V" false none
  let (_, vm) := vm.addLine m 7
  let (m, vm) := vm.addMethod c "clear" "()V" false none
  (vm.addLine m 7).2

/-- There is one request for a breakpoint at most. -/
def secondFails : Failures := fun made c =>
  match c with
  | .createBreakpoint _ => if made.any (·.name == c.name) then some .timeout else none
  | _ => none

def deletionFails : Failures := fun _ c => if c.name = "delete_request" then some .timeout else none

theorem failures_keep_tables_expecting :
    let s := (sample.run expecting).session
    let added := (addBreakpoint "app.Cart" (.line 7) none).run.run (secondFails.answer Vm.serve) s
      (twofold, [])
    let removed := (removeBreakpoint "7f4a7c15").run.run (deletionFails.answer Vm.serve) s
      (twofold, [])
    added.1 = .error (.ofTarget .timeout) ∧
      added.2.2.1 = { twofold with nextRequest := added.2.2.1.nextRequest } ∧
      removed.1 = .ok () ∧ s.Forgets "7f4a7c15" removed.2.1 := by
  have hdiffer : (sample.run expecting).session.IdsDiffer 0 := .of_le (by decide +kernel)
  have hkept := (failures_keep_tables "s" {} 0 {} expecting hdiffer twofold secondFails).1
    fun _ _ => rfl
  have hremoved := (failures_keep_tables "s" {} 0 {} expecting hdiffer twofold deletionFails).2.1
  intro s added removed
  have herror : added.1 = .error (.ofTarget .timeout) := by decide +kernel
  have hroom : twofold.Room added.2.2.2.length := ⟨nofun, by decide +kernel⟩
  have hknown : ¬s.Unknown "7f4a7c15" := by
    intro hunknown
    have hsome : (s.breakpoints.entries.get? "7f4a7c15").isSome := by decide +kernel
    rw [hunknown.1] at hsome
    cases hsome
  exact ⟨herror, (hkept.1 _ _ _ _ herror).2 hroom, hremoved _ hknown⟩

end Lifetime

end JvmDebug
