import JvmDebug.Proofs.FreshIds
import JvmDebug.Proofs.Ledger
import JvmDebug.Proofs.SceneInvariant
import JvmDebug.Proofs.TargetReports
import Mathlib.Algebra.Group.Prod

/-!
Who owns the requests of a target while operations are in flight. A request that is filed with the
target is either booked in a table of the session or held by the operation that made it or is about
to delete it, and by one of them only; an id that was drawn is in use or held by the operation that
drew it.
-/
namespace JvmDebug

/-! ## Resources -/

/-- The requests and the ids that somebody holds. -/
abbrev Held := Accounts × Multiset String

namespace Held

def requests (a : Accounts) : Held := (a, 0)

def name (id : String) : Held := (0, {id})

theorem requests_add (a b : Accounts) : requests (a + b) = requests a + requests b := rfl

@[simp] theorem requests_zero : requests 0 = 0 := rfl

end Held

/-! ## The invariant -/

def RequestKind.isStep : RequestKind → Bool
  | .step .. => true
  | _ => false

def TargetEvent.isStep : TargetEvent → Bool
  | .step .. => true
  | _ => false

/-- The session reaches its target, and neither ids nor numbers of requests have come round: ids
drawn from `start` on are different, and the number 0 is not given out again. -/
def Sound (start : Nat) (s : Session) (vm : Vm) : Prop :=
  s.unreachable? = none ∧ vm.nextRequest ≠ 0 ∧ s.IdsDiffer start

/-- The books of session and target balance with what is held. Nobody steps. -/
structure Balanced (start : Nat) (held : Held) (s : Session) (vm : Vm) : Prop where
  filed : vm.filed = s.booked + held.1
  below : ∀ r q, vm.requests.get? r = some q → r < vm.nextRequest
  drawn : s.ids.Drawn start (s.names + held.2)
  no_step : ∀ r q, vm.requests.get? r = some q → q.kind.isStep = false
  no_step_unread : ∀ e ∈ vm.unread, e.isStep = false

namespace Balanced
variable {start : Nat} {k k' : Held} {s : Session} {vm : Vm}

/-! ## The target moves -/

theorem of_vm {vm' : Vm} (hb : Balanced start k s vm) (hsame : vm.SameBooks vm')
    (hunread : ∀ e ∈ vm'.unread, e.isStep = false) : Balanced start k s vm' where
  filed := by rw [Vm.filed, hsame.requests]; exact hb.filed
  below := by rw [hsame.requests, hsame.nextRequest]; exact hb.below
  drawn := hb.drawn
  no_step := by rw [hsame.requests]; exact hb.no_step
  no_step_unread := hunread

theorem fresh_request (hb : Balanced start k s vm) : vm.requests.get? vm.nextRequest = none := by
  cases h : vm.requests.get? vm.nextRequest with
  | none => rfl
  | some q => exact absurd (hb.below _ _ h) (UInt32.lt_irrefl _)

theorem addRequest (hb : Balanced start k s vm) (kind : RequestKind) {topic : Topic}
    (htopic : kind.topic? = some topic) (hnext : (vm.addRequest kind).2.nextRequest ≠ 0) :
    Balanced start (Held.requests (Accounts.one vm.nextRequest topic) + k) s
      (vm.addRequest kind).2 where
  filed := by
    rw [Vm.filed_addRequest hb.fresh_request, hb.filed, RequestKind.accounts, htopic]
    simp only [Held.requests, Prod.fst_add]
    abel
  below := by
    intro r q hr
    have hlt : vm.nextRequest < (vm.addRequest kind).2.nextRequest := by
      refine UInt32.lt_add_one fun h => hnext ?_
      simp only [Vm.addRequest, h]
      rfl
    simp only [Vm.addRequest, Dict.get?_insert] at hr
    split at hr
    · next h => exact h ▸ hlt
    · exact UInt32.lt_trans (hb.below r q hr) hlt
  drawn := by simpa [Held.requests] using hb.drawn
  no_step := by
    intro r q hr
    simp only [Vm.addRequest, Dict.get?_insert] at hr
    split at hr
    · cases hr
      cases kind <;> first | rfl | cases htopic
    · exact hb.no_step r q hr
  no_step_unread := hb.no_step_unread

theorem deleteRequest {r : RequestId} {topic : Topic}
    (hb : Balanced start (Held.requests (Accounts.one r topic) + k) s vm) :
    Balanced start k s (vm.deleteRequest r).2 := by
  have hmem : (r, topic) ∈ vm.filed := by
    rw [hb.filed]
    simp [Held.requests, Accounts.one]
  obtain ⟨q, hq, -⟩ := Vm.mem_filed.1 hmem
  have hc : vm.requests.contains r = true := by simp [Dict.contains, hq]
  have hkeep : ∀ r' q', (vm.deleteRequest r).2.requests.get? r' = some q' →
      vm.requests.get? r' = some q' := by
    intro r' q' h
    simp only [Vm.deleteRequest, hc, if_true, Dict.get?_erase] at h
    split at h
    · cases h
    · exact h
  have hnext : (vm.deleteRequest r).2.nextRequest = vm.nextRequest := by
    simp only [Vm.deleteRequest, hc, if_true]
  have hunread : (vm.deleteRequest r).2.unread = vm.unread := by
    simp only [Vm.deleteRequest, hc, if_true]
    rfl
  refine ⟨?_, fun r' q' h => ?_, ?_, fun r' q' h => hb.no_step r' q' (hkeep _ _ h), ?_⟩
  · have hfiled := Vm.filed_deleteRequest hmem
    rw [hb.filed] at hfiled
    simp only [Held.requests, Prod.fst_add] at hfiled
    rw [add_left_comm] at hfiled
    exact (add_left_cancel hfiled).symm
  · rw [hnext]
    exact hb.below r' q' (hkeep _ _ h)
  · simpa [Held.requests] using hb.drawn
  · rw [hunread]
    exact hb.no_step_unread

theorem switchRequest (hb : Balanced start k s vm) (r : RequestId) (enabled : Bool) :
    Balanced start k s (vm.switchRequest r enabled).2 := by
  have hget : ∀ r' q', (vm.switchRequest r enabled).2.requests.get? r' = some q' →
      ∃ q, vm.requests.get? r' = some q ∧ q'.kind = q.kind := by
    intro r' q' h
    simp only [Vm.switchRequest] at h
    split at h
    · simp only [Dict.get?_modify] at h
      split at h
      · next hr =>
        obtain ⟨q, hq, rfl⟩ := Option.map_eq_some_iff.1 h
        exact ⟨q, hr ▸ hq, rfl⟩
      · exact ⟨q', h, rfl⟩
    · exact ⟨q', h, rfl⟩
  have hnext : (vm.switchRequest r enabled).2.nextRequest = vm.nextRequest := by
    simp only [Vm.switchRequest]
    split <;> rfl
  have hunread : (vm.switchRequest r enabled).2.unread = vm.unread := by
    simp only [Vm.switchRequest]
    split <;> rfl
  refine ⟨?_, fun r' q' h => ?_, hb.drawn, fun r' q' h => ?_, ?_⟩
  · rw [Vm.filed_switchRequest, hb.filed]
  · obtain ⟨q, hq, -⟩ := hget _ _ h
    rw [hnext]
    exact hb.below _ _ hq
  · obtain ⟨q, hq, hkind⟩ := hget _ _ h
    rw [hkind]
    exact hb.no_step _ _ hq
  · rw [hunread]
    exact hb.no_step_unread

theorem disjoint (hb : Balanced start k s vm) {x y : RequestId × Topic} (hx : x ∈ s.booked)
    (hy : y ∈ k.1) : x.1 ≠ y.1 := by
  have hnodup := vm.filed_keys_nodup
  rw [hb.filed, Multiset.map_add, Multiset.nodup_add] at hnodup
  intro h
  exact Multiset.disjoint_left.1 hnodup.2.2 (Multiset.mem_map_of_mem _ hx)
    (h ▸ Multiset.mem_map_of_mem _ hy)

/-! ## The session moves -/

theorem of_session {t : Session} (hb : Balanced start k s vm) (hids : t.ids = s.ids)
    (hbooked : t.booked + k'.1 = s.booked + k.1) (hnames : t.names + k'.2 ≤ s.names + k.2) :
    Balanced start k' t vm where
  filed := hb.filed.trans hbooked.symm
  below := hb.below
  drawn := by
    rw [hids]
    exact hb.drawn.mono hnames
  no_step := hb.no_step
  no_step_unread := hb.no_step_unread

theorem setBreakpoints {t : BreakpointTable} (hb : Balanced start k s vm)
    (hbooked : t.accounts + k'.1 = s.breakpoints.accounts + k.1)
    (hnames : t.names + k'.2 ≤ s.breakpoints.names + k.2) :
    Balanced start k' { s with breakpoints := t } vm := by
  refine hb.of_session rfl ?_ ?_
  · show t.accounts + s.exceptions.accounts + k'.1 = _
    rw [add_right_comm, hbooked, add_right_comm]
    rfl
  · show t.names + s.exceptions.names + k'.2 ≤ _
    rw [add_right_comm]
    exact (Multiset.add_le_add_right hnames).trans_eq (add_right_comm _ _ _)

theorem setExceptions {t : ExceptionTable} (hb : Balanced start k s vm)
    (hbooked : t.accounts + k'.1 = s.exceptions.accounts + k.1)
    (hnames : t.names + k'.2 ≤ s.exceptions.names + k.2) :
    Balanced start k' { s with exceptions := t } vm := by
  refine hb.of_session rfl ?_ ?_
  · show s.breakpoints.accounts + t.accounts + k'.1 = _
    rw [add_assoc, hbooked, ← add_assoc]
    rfl
  · show s.breakpoints.names + t.names + k'.2 ≤ _
    rw [add_assoc]
    exact (Multiset.add_le_add_left hnames).trans_eq (add_assoc _ _ _).symm

theorem unused {id : String} (hb : Balanced start (Held.name id + k) s vm) :
    s.breakpoints.entries.get? id = none ∧ s.exceptions.entries.get? id = none := by
  have hnot : id ∉ s.names := by
    have hdrawn := hb.drawn
    simp only [Held.name, Prod.snd_add, ← add_assoc] at hdrawn
    exact (hdrawn.mono (Multiset.le_add_right _ _)).notMem
  rw [Session.names, Multiset.mem_add, not_or] at hnot
  exact ⟨Dict.get?_none_of_notMem_names hnot.1, Dict.get?_none_of_notMem_names hnot.2⟩

end Balanced

/-! ## Drawing ids -/

variable {start : Nat} {k : Held} {s : Session} {vm : Vm}

theorem Balanced.freshId (hb : Balanced start k s vm) (hsound : Sound start s.freshId.2 vm) :
    Balanced start (Held.name s.freshId.1 + k) s.freshId.2 vm where
  filed := by
    rw [Prod.fst_add]
    exact hb.filed.trans (by rw [Held.name, zero_add]; rfl)
  below := hb.below
  drawn := by
    have hdrawn := Session.drawn_freshId hb.drawn hsound.2.2
    rw [add_assoc, add_comm k.2] at hdrawn
    exact hdrawn
  no_step := hb.no_step
  no_step_unread := hb.no_step_unread

theorem Sound.of_freshId (hsound : Sound start s.freshId.2 vm) : Sound start s vm :=
  ⟨hsound.1, hsound.2.1, hsound.2.2.of_freshId⟩

end JvmDebug
