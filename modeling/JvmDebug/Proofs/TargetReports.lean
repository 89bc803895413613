import JvmDebug.Proofs.DictSum
import JvmDebug.Proofs.Scene

/-!
What happenings in the target leave behind: events for the debugger, and nothing else that its
requests depend on.
-/
namespace JvmDebug

def Report.content : Report → List TargetEvent
  | .events set => set.events
  | .hangUp => []

namespace Vm

def unread (vm : Vm) : List TargetEvent := vm.reports.flatMap Report.content

theorem mem_unread {vm : Vm} {set : EventSet} {e : TargetEvent} (hset : .events set ∈ vm.reports)
    (he : e ∈ set.events) : e ∈ vm.unread :=
  List.mem_flatMap.2 ⟨_, hset, he⟩

theorem unread_cons {vm : Vm} {r : Report} {reports : List Report} (h : vm.reports = r :: reports) :
    vm.unread = r.content ++ { vm with reports }.unread := by
  simp only [unread, h, List.flatMap_cons]

def eventsFor (vm : Vm) (wanted : RequestKind → Bool) (event : RequestId → TargetEvent) :
    List TargetEvent :=
  (vm.enabledRequests.filter fun r => wanted r.kind).map fun r => event r.id

theorem mem_eventsFor {vm : Vm} {wanted : RequestKind → Bool} {event : RequestId → TargetEvent}
    {e : TargetEvent} :
    e ∈ vm.eventsFor wanted event ↔
      ∃ r q, vm.requests.get? r = some q ∧ q.enabled ∧ wanted q.kind ∧ e = event q.id := by
  simp only [eventsFor, enabledRequests, List.mem_map, List.mem_filter, Dict.mem_values]
  constructor
  · rintro ⟨q, ⟨⟨⟨r, hr⟩, hon⟩, hkind⟩, rfl⟩
    exact ⟨r, q, hr, hon, hkind, rfl⟩
  · rintro ⟨r, q, hr, hon, hkind, rfl⟩
    exact ⟨q, ⟨⟨⟨r, hr⟩, hon⟩, hkind⟩, rfl⟩

structure SameBooks (vm vm' : Vm) : Prop where
  requests : vm'.requests = vm.requests
  nextRequest : vm'.nextRequest = vm.nextRequest

theorem SameBooks.rfl {vm : Vm} : vm.SameBooks vm := ⟨Eq.refl _, Eq.refl _⟩

theorem reportAny_books (vm : Vm) (events : List TargetEvent) :
    vm.SameBooks (vm.reportAny events).2 := by
  simp only [reportAny]
  split <;> exact ⟨Eq.refl _, Eq.refl _⟩

theorem unread_reportAny (vm : Vm) (events : List TargetEvent) :
    (vm.reportAny events).2.unread = vm.unread ++ events := by
  simp only [reportAny]
  split
  · next h => rw [List.isEmpty_iff.1 h, List.append_nil]
  · simp [unread, reportSet, report, setAllSuspended, Report.content]

theorem reportTo_books (vm : Vm) (wanted : RequestKind → Bool) (event : RequestId → TargetEvent) :
    vm.SameBooks (vm.reportTo wanted event).2 :=
  vm.reportAny_books _

theorem unread_reportTo (vm : Vm) (wanted : RequestKind → Bool) (event : RequestId → TargetEvent) :
    (vm.reportTo wanted event).2.unread = vm.unread ++ vm.eventsFor wanted event :=
  vm.unread_reportAny _

end Vm

namespace Happening

def events (vm : Vm) : Happening → List TargetEvent
  | load t c =>
    match vm.classes.get? c with
    | none => []
    | some k => vm.eventsFor (· == .classPrepare k.info.name) fun r => .classPrepare (some r) t k.info
  | hit t l => vm.eventsFor (· == .breakpoint l) fun r => .breakpoint (some r) t l
  | finishStep t l => vm.eventsFor (Vm.RequestKind.stepsOn t) fun r => .step (some r) t l
  | throw t l thrown catchAt =>
    vm.eventsFor (Vm.RequestKind.catches (vm.hierarchy thrown.typeId) catchAt.isSome) fun r =>
      .exception (some r) t l thrown catchAt
  | startThread _ =>
    if vm.enabledRequests.any (·.kind == .threadStart) then [.threadStart vm.nextId] else []
  | die => [.vmDeath]
  | hangUp => []

theorem apply_books (x : Happening) (vm : Vm) : vm.SameBooks (x.apply vm) := by
  cases x with
  | load t c =>
    simp only [apply, Vm.loadClass]
    split
    · exact .rfl
    · have := Vm.reportTo_books (vm.modifyClass c fun k => { k with loaded := true })
      exact ⟨(this _ _).requests, (this _ _).nextRequest⟩
  | hit t l => exact vm.reportTo_books _ _
  | finishStep t l => exact vm.reportTo_books _ _
  | throw t l thrown catchAt => exact vm.reportTo_books _ _
  | startThread name =>
    simp only [apply, Vm.startThread]
    split <;> exact ⟨rfl, rfl⟩
  | die => exact ⟨rfl, rfl⟩
  | hangUp => exact ⟨rfl, rfl⟩

theorem unread_apply (x : Happening) (vm : Vm) :
    (x.apply vm).unread = vm.unread ++ x.events vm := by
  cases x with
  | load t c =>
    cases hc : vm.classes.get? c with
    | none => simp [apply, Vm.loadClass, events, hc]
    | some k =>
      simp only [apply, Vm.loadClass, events, hc]
      exact Vm.unread_reportTo (vm.modifyClass c fun k => { k with loaded := true }) _ _
  | hit t l => exact vm.unread_reportTo _ _
  | finishStep t l => exact vm.unread_reportTo _ _
  | throw t l thrown catchAt => exact vm.unread_reportTo _ _
  | startThread name =>
    have hadd : (vm.addThread name).2.enabledRequests = vm.enabledRequests := rfl
    simp only [apply, Vm.startThread, events, hadd]
    split
    · simp [Vm.report, Vm.unread, Report.content, Vm.addThread, Vm.allocate]
    · rw [List.append_nil]
      rfl
  | die => simp [apply, Vm.die, Vm.report, Vm.unread, Report.content, events]
  | hangUp => simp [apply, Vm.hangUp, Vm.report, Vm.unread, Report.content, events]

end Happening

end JvmDebug
