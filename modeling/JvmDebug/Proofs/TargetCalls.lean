import JvmDebug.Proofs.TargetReports

/-!
What the calls of a debugger leave alone in the target, and which classes a happening loads.
-/
namespace JvmDebug

namespace Vm

/-! ## Calls -/

/-- No class and no report comes, goes or changes. -/
structure Undisturbed (vm vm' : Vm) : Prop where
  classes : vm'.classes = vm.classes
  reports : vm'.reports = vm.reports

namespace Undisturbed
variable {vm vm' vm'' : Vm}

theorem rfl : vm.Undisturbed vm := ⟨Eq.refl _, Eq.refl _⟩

theorem trans (h : vm.Undisturbed vm') (h' : vm'.Undisturbed vm'') : vm.Undisturbed vm'' :=
  ⟨h'.classes.trans h.classes, h'.reports.trans h.reports⟩

end Undisturbed

/-- Code of the target ran: neither classes, reports nor requests come, go or change. -/
structure Ran (vm vm' : Vm) : Prop extends vm.Undisturbed vm', vm.SameBooks vm'

namespace Ran
variable {vm vm' vm'' : Vm}

theorem rfl : vm.Ran vm := ⟨.rfl, .rfl⟩

theorem trans (h : vm.Ran vm') (h' : vm'.Ran vm'') : vm.Ran vm'' where
  toUndisturbed := h.toUndisturbed.trans h'.toUndisturbed
  requests := h'.requests.trans h.requests
  nextRequest := h'.nextRequest.trans h.nextRequest

end Ran

/-- Nothing but the objects is different, and the ids that were given out. -/
def SameButObjects (vm vm' : Vm) : Prop :=
  vm' = { vm with objects := vm'.objects, nextId := vm'.nextId }

theorem SameButObjects.trans {vm vm' vm'' : Vm} (h : vm.SameButObjects vm')
    (h' : vm'.SameButObjects vm'') : vm.SameButObjects vm'' := by
  rw [SameButObjects] at h h' ⊢
  rw [h'] at ⊢
  rw [h]

theorem SameButObjects.ran {vm vm' : Vm} (h : vm.SameButObjects vm') : vm.Ran vm' := by
  rw [h]
  exact ⟨⟨rfl, rfl⟩, rfl, rfl⟩

/-- Nothing but the objects is different, the ids that were given out and the calls on record. -/
def SameButHeap (vm vm' : Vm) : Prop :=
  vm' = { vm with
    objects := vm'.objects, nextId := vm'.nextId, invocations := vm'.invocations }

namespace SameButHeap
variable {vm vm' vm'' : Vm}

theorem rfl : vm.SameButHeap vm := Eq.refl _

theorem trans (h : vm.SameButHeap vm') (h' : vm'.SameButHeap vm'') : vm.SameButHeap vm'' := by
  rw [SameButHeap] at h h' ⊢
  rw [h'] at ⊢
  rw [h]

end SameButHeap

theorem SameButObjects.sameButHeap {vm vm' : Vm} (h : vm.SameButObjects vm') :
    vm.SameButHeap vm' := by
  rw [h]
  rfl

section
variable (vm : Vm)

theorem setField_objects (o : ObjectRef) (name : String) (v : Value) :
    vm.SameButObjects (vm.setField o name v) := by
  simp only [setField]
  split <;> rfl

theorem newException_objects (c : TypeId) (message : Option String) :
    vm.SameButObjects (vm.newException c message).2 := by
  simp only [newException]
  cases message with
  | none => rfl
  | some message =>
    have hnew : vm.SameButObjects ((vm.newObject c).2.newString message).2 := rfl
    exact hnew.trans (setField_objects _ _ _ _)

theorem body_objects (call : Invocation) (b : Body) : vm.SameButObjects (b.run vm call).2 := by
  cases b with
  | writeField name =>
    simp only [Body.run]
    split
    · exact vm.setField_objects _ _ _
    · rfl
  | box type otherwise =>
    have hnew : vm.SameButObjects (vm.newObject (type.getD call.method.declaringType)).2 := rfl
    exact hnew.trans (setField_objects _ _ _ _)
  | throwNew type message => exact vm.newException_objects _ _
  | numberText name =>
    simp only [Body.run]
    split <;> rfl
  | constant | text | argument | receiver | readField | describe | identityText | identityHash
  | textLength => rfl

theorem invoke_ran (body : Option Body) (call : Invocation) : vm.Ran (vm.invoke body call).2 := by
  simp only [invoke]
  split
  · exact .rfl
  · exact .rfl
  · refine Ran.trans ?_ (body_objects _ _ _).ran
    exact ⟨⟨rfl, rfl⟩, rfl, rfl⟩

theorem invokeInstance_ran (t : ThreadId) (o : ObjectRef) (m : Method) (args : List Value) :
    vm.Ran (vm.invokeInstance t o m args).2 := by
  simp only [invokeInstance]
  split
  · exact .rfl
  · exact vm.invoke_ran _ _

theorem newInstance_ran (t : ThreadId) (c : TypeId) (m : Method) (args : List Value) :
    vm.Ran (vm.newInstance t c m args).2 := by
  simp only [newInstance]
  split
  · exact .rfl
  · have hnew : vm.Ran (vm.newObject c).2 := ⟨⟨rfl, rfl⟩, rfl, rfl⟩
    have hcall := invoke_ran (vm.newObject c).2 ((vm.newObject c).2.bodies.get? m.id)
      ⟨t, m, some (vm.newObject c).1, args⟩
    split
    · next h =>
      rw [h] at hcall
      exact hnew.trans hcall
    · exact hnew.trans hcall

theorem resumeSet_books (set : EventSet) :
    vm.SameBooks (vm.resumeSet set) ∧ (vm.resumeSet set).unread = vm.unread := by
  simp only [resumeSet]
  split
  · exact ⟨⟨rfl, rfl⟩, rfl⟩
  · split <;> exact ⟨⟨rfl, rfl⟩, rfl⟩
  · exact ⟨⟨rfl, rfl⟩, rfl⟩

theorem answer_undisturbed (c : Call) : vm.Undisturbed (vm.answer c).2 := by
  cases c with
  | invokeStatic => exact (vm.invoke_ran _ _).toUndisturbed
  | invokeInstance => exact (vm.invokeInstance_ran _ _ _ _).toUndisturbed
  | newInstance => exact (vm.newInstance_ran _ _ _ _).toUndisturbed
  | _ =>
    simp only [answer, switchThread, setLocal, setElement, newArrayOf, resumeSet, switchRequest,
      deleteRequest, success]
    repeat' split
    all_goals exact ⟨rfl, rfl⟩

end

/-! ## Loaded classes -/

def Loaded (vm : Vm) (name : String) : Prop :=
  ∃ c k, vm.classes.get? c = some k ∧ k.loaded ∧ k.info.name = name

def className? (vm : Vm) (c : TypeId) : Option String :=
  (vm.classes.get? c).map fun k => k.info.name

theorem Undisturbed.loaded {vm vm' : Vm} (h : vm.Undisturbed vm') (name : String) :
    vm'.Loaded name ↔ vm.Loaded name := by
  simp only [Loaded, h.classes]

theorem Undisturbed.unread {vm vm' : Vm} (h : vm.Undisturbed vm') : vm'.unread = vm.unread := by
  simp only [Vm.unread, h.reports]

end Vm

namespace Happening

def loads (vm : Vm) (name : String) : Happening → Prop
  | load _ c => vm.className? c = some name
  | _ => False

theorem classes_apply (x : Happening) (vm : Vm) :
    (x.apply vm).classes = match x with
      | load _ c => vm.classes.modify c fun k => { k with loaded := true }
      | _ => vm.classes := by
  have hreport (vm : Vm) (events : List TargetEvent) :
      (vm.reportAny events).2.classes = vm.classes := by
    simp only [Vm.reportAny]
    split <;> rfl
  cases x with
  | load t c =>
    simp only [apply, Vm.loadClass]
    cases h : vm.classes.get? c with
    | none => exact (Dict.modify_of_none h _).symm
    | some k => exact hreport _ _
  | hit | finishStep | throw => exact hreport _ _
  | startThread name =>
    simp only [apply, Vm.startThread]
    split <;> rfl
  | die | hangUp => rfl

theorem className?_apply (x : Happening) (vm : Vm) (c : TypeId) :
    (x.apply vm).className? c = vm.className? c := by
  simp only [Vm.className?, classes_apply]
  cases x with
  | load t d =>
    simp only [Dict.get?_modify]
    split
    · next h =>
      subst h
      cases vm.classes.get? c <;> rfl
    · rfl
  | _ => rfl

theorem loaded_apply (x : Happening) (vm : Vm) (name : String) :
    (x.apply vm).Loaded name ↔ vm.Loaded name ∨ x.loads vm name := by
  simp only [Vm.Loaded, classes_apply]
  cases x with
  | load t d =>
    simp only [Dict.get?_modify, loads, Vm.className?]
    constructor
    · rintro ⟨c, k, hk, hl, hn⟩
      split at hk
      · next h =>
        subst h
        obtain ⟨k', hk', rfl⟩ := Option.map_eq_some_iff.1 hk
        exact .inr (by rw [hk', Option.map_some, ← hn])
      · exact .inl ⟨c, k, hk, hl, hn⟩
    · rintro (⟨c, k, hk, hl, hn⟩ | hload)
      · by_cases h : c = d
        · subst h
          exact ⟨c, { k with loaded := true }, by rw [if_pos rfl, hk, Option.map_some], rfl, hn⟩
        · exact ⟨c, k, by rw [if_neg h]; exact hk, hl, hn⟩
      · obtain ⟨k, hk, hn⟩ := Option.map_eq_some_iff.1 hload
        exact ⟨d, { k with loaded := true }, by simp [hk], rfl, hn⟩
  | hit | finishStep | throw | startThread | die | hangUp => simp [loads]

end Happening

end JvmDebug
