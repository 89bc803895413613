import JvmDebug.Proofs.TargetCalls

/-!
Which threads of the target are suspended. A report that suspends stops all of them; afterwards only
three calls of the debugger let a suspended thread run again.
-/
namespace JvmDebug

theorem Dict.get?_mapValues {κ ν : Type} [DecidableEq κ] (d : Dict κ ν) (f : ν → ν) (k : κ) :
    (d.mapValues f).get? k = (d.get? k).map f := by
  obtain ⟨l, nodup⟩ := d
  simp only [get?, mapValues]
  induction l with
  | nil => rfl
  | cons p l ih =>
    simp only [List.map_cons, List.find?_cons]
    cases hk : decide (p.1 = k) with
    | true => rfl
    | false => exact ih (List.nodup_cons.1 nodup).2

namespace Vm
variable {vm vm' : Vm} {t u : ThreadId}

theorem isSuspended_eq (vm : Vm) (t : ThreadId) :
    vm.isSuspended t = (vm.threads.get? t).any fun d => d.info.suspended := by
  rw [isSuspended]
  cases vm.threads.get? t <;> rfl

theorem isSuspended_congr (h : vm'.threads = vm.threads) : vm'.isSuspended t = vm.isSuspended t := by
  rw [isSuspended_eq, isSuspended_eq, h]

theorem contains_of_isSuspended (h : vm.isSuspended t) : vm.threads.contains t := by
  rw [isSuspended_eq] at h
  rw [Dict.contains]
  cases hd : vm.threads.get? t with
  | none => simp [hd] at h
  | some d => rfl

@[simp] theorem isSuspended_setAllSuspended (vm : Vm) (on : Bool) :
    (vm.setAllSuspended on).isSuspended t = (on && vm.threads.contains t) := by
  rw [isSuspended_eq, setAllSuspended, Dict.get?_mapValues, Dict.contains]
  cases vm.threads.get? t <;> simp [VmThread.suspend]

@[simp] theorem isSuspended_setSuspended (vm : Vm) (on : Bool) :
    (vm.setSuspended u on).isSuspended t =
      if t = u then on && vm.threads.contains u else vm.isSuspended t := by
  rw [isSuspended_eq, setSuspended, Dict.get?_modify, Dict.contains]
  split
  · cases vm.threads.get? u <;> simp [VmThread.suspend]
  · rw [isSuspended_eq]

theorem isSuspended_modify (vm : Vm) {f : VmThread → VmThread}
    (hf : ∀ d, (f d).info.suspended = d.info.suspended) :
    { vm with threads := vm.threads.modify u f }.isSuspended t = vm.isSuspended t := by
  rw [isSuspended_eq, isSuspended_eq, Dict.get?_modify]
  split
  · next h =>
    subst h
    cases vm.threads.get? t <;> simp [hf]
  · rfl

end Vm

/-! ## Calls -/

/-- The call may let the thread run. -/
def Call.releases (t : ThreadId) : Call → Bool
  | resumeAll | resumeEventSet _ => true
  | resumeThread u => u == t
  | _ => false


namespace Vm
variable {vm : Vm} {t : ThreadId}

theorem SameButObjects.threads {vm vm' : Vm} (h : vm.SameButObjects vm') :
    vm'.threads = vm.threads :=
  (congrArg Vm.threads h :)

theorem threads_invoke (vm : Vm) (body : Option Body) (call : Invocation) :
    (vm.invoke body call).2.threads = vm.threads := by
  simp only [invoke]
  split
  · rfl
  · rfl
  · exact (body_objects _ _ _).threads

theorem threads_invokeInstance (vm : Vm) (t : ThreadId) (o : ObjectRef) (m : Method)
    (args : List Value) : (vm.invokeInstance t o m args).2.threads = vm.threads := by
  simp only [invokeInstance]
  split
  · rfl
  · exact vm.threads_invoke _ _

theorem threads_newInstance (vm : Vm) (t : ThreadId) (c : TypeId) (m : Method)
    (args : List Value) : (vm.newInstance t c m args).2.threads = vm.threads := by
  have hcall := threads_invoke (vm.newObject c).2 ((vm.newObject c).2.bodies.get? m.id)
    ⟨t, m, some (vm.newObject c).1, args⟩
  simp only [newInstance]
  split
  · rfl
  · split
    · next h =>
      rw [h] at hcall
      exact hcall
    · exact hcall

/-- A suspended thread stays suspended under every other call. -/
theorem isSuspended_answer {c : Call} (hc : c.releases t = false) (h : vm.isSuspended t) :
    (vm.answer c).2.isSuspended t := by
  cases c with
  | resumeAll | resumeEventSet => cases hc
  | resumeThread u =>
    have hu : t ≠ u := fun htu => by simp [Call.releases, htu] at hc
    simp only [answer, switchThread]
    split
    · rwa [isSuspended_setSuspended, if_neg hu]
    · exact h
  | suspendThread u =>
    simp only [answer, switchThread]
    split
    · next hu =>
      rw [isSuspended_setSuspended]
      split
      · exact hu
      · exact h
    · exact h
  | suspendAll => simpa [answer] using contains_of_isSuspended h
  | setLocalValue u f v value =>
    simp only [answer, setLocal]
    split
    · exact h
    · refine (isSuspended_modify vm (f := fun d => { d with frames := d.frames.map _ }) ?_).trans h
      exact fun d => rfl
  | invokeStatic u c m args => exact (isSuspended_congr (vm.threads_invoke _ _)).trans h
  | invokeInstance u o m args =>
    exact (isSuspended_congr (vm.threads_invokeInstance u o m args)).trans h
  | newInstance u c m args => exact (isSuspended_congr (vm.threads_newInstance u c m args)).trans h
  | _ =>
    simp only [answer, setElement, newArrayOf, switchRequest, deleteRequest, success]
    repeat' split
    all_goals exact h

/-- A call that may let a suspended thread run does not fail. -/
theorem answer_releases {c : Call} (hc : c.releases t) (h : vm.isSuspended t) :
    ∃ a, (vm.answer c).1 = .ok a := by
  cases c with
  | resumeAll | resumeEventSet => exact ⟨_, rfl⟩
  | resumeThread u =>
    have hu : u = t := by simpa [Call.releases] using hc
    simp [answer, switchThread, hu, contains_of_isSuspended h]
  | _ => cases hc

end Vm

/-! ## Happenings -/

namespace Happening
variable {vm : Vm} {t : ThreadId} {x : Happening}

/-- The happening can come about in the target: its thread exists, or the id of the new thread is
not taken; and it does not end the connection. -/
def Fits (vm : Vm) : Happening → Prop
  | hit t _ => vm.threads.contains t
  | startThread _ => vm.threads.contains vm.nextId = false
  | load .. | finishStep .. | throw .. => True
  | die | hangUp => False

theorem isSuspended_reportAny {events : List TargetEvent}
    (h : vm.isSuspended t ∨ events ≠ [] ∧ vm.threads.contains t) :
    (vm.reportAny events).2.isSuspended t := by
  have hcontains : vm.threads.contains t := h.elim Vm.contains_of_isSuspended And.right
  simp only [Vm.reportAny]
  split
  · next hnil => exact h.resolve_right fun h => h.1 (List.isEmpty_iff.1 hnil)
  · show (vm.setAllSuspended true).isSuspended t
    simpa using hcontains

theorem isSuspended_apply (hx : x.Fits vm) (h : vm.isSuspended t) : (x.apply vm).isSuspended t := by
  cases x with
  | load u c =>
    simp only [apply, Vm.loadClass]
    split
    · exact h
    · exact isSuspended_reportAny (.inl h)
  | hit | finishStep | throw => exact isSuspended_reportAny (.inl h)
  | startThread name =>
    have hne : t ≠ vm.nextId := fun heq => by
      have hx : vm.threads.contains vm.nextId = false := hx
      rw [← heq, Vm.contains_of_isSuspended h] at hx
      cases hx
    have hadd : (vm.addThread name).2.isSuspended t := by
      rw [Vm.isSuspended_eq] at h ⊢
      simpa only [Vm.addThread, Vm.allocate, Dict.get?_insert, if_neg hne] using h
    simp only [apply, Vm.startThread]
    split <;> exact hadd
  | die | hangUp => exact hx.elim

/-- A thread that is reported to have hit a breakpoint is suspended. -/
theorem isSuspended_of_hit (hx : x.Fits vm) {r : Option RequestId} {l : Location}
    (he : .breakpoint r t l ∈ x.events vm) : (x.apply vm).isSuspended t := by
  cases x with
  | hit u l' =>
    simp only [events] at he
    obtain ⟨q, p, -, -, -, heq⟩ := Vm.mem_eventsFor.1 he
    injection heq with _ htu
    subst htu
    exact isSuspended_reportAny (.inr ⟨List.ne_nil_of_mem he, hx⟩)
  | load u c =>
    simp only [events] at he
    split at he
    · cases he
    · obtain ⟨q, p, -, -, -, heq⟩ := Vm.mem_eventsFor.1 he
      cases heq
  | finishStep | throw =>
    simp only [events] at he
    obtain ⟨q, p, -, -, -, heq⟩ := Vm.mem_eventsFor.1 he
    cases heq
  | startThread name =>
    simp only [events] at he
    split at he <;> simp at he
  | die | hangUp => exact hx.elim

end Happening

end JvmDebug
