import JvmDebug.Proofs.Evaluation

/-!
Which methods a routine runs on the machine when it succeeds: those that it calls, and between them
only such through which values convert.
-/
namespace JvmDebug

namespace Vm

theorem body_invocations (vm : Vm) (call : Invocation) (b : Body) :
    (b.run vm call).2.invocations = vm.invocations := by
  rw [vm.body_objects call b]

/-- The method has run, or the call failed before. -/
def Runs (vm : Vm) (name : String) (r : Except TargetError Outcome × Vm) : Prop :=
  r.2.invocations = vm.invocations ++ [name] ∨
    r.2.invocations = vm.invocations ∧ ∃ e, r.1 = .error e

theorem Runs.of_ok {vm : Vm} {name : String} {r : Except TargetError Outcome × Vm}
    (h : vm.Runs name r) {o : Outcome} (ho : r.1 = .ok o) :
    r.2.invocations = vm.invocations ++ [name] := by
  rcases h with hrun | ⟨-, e, he⟩
  · exact hrun
  · rw [he] at ho
    cases ho

theorem invoke_runs (vm : Vm) (body : Option Body) (call : Invocation) :
    vm.Runs call.method.name (vm.invoke body call) := by
  simp only [invoke]
  split
  · exact .inr ⟨rfl, _, rfl⟩
  · exact .inr ⟨rfl, _, rfl⟩
  · exact .inl (body_invocations _ _ _)

theorem invokeInstance_runs (vm : Vm) (t : ThreadId) (o : ObjectRef) (m : Method)
    (args : List Value) : vm.Runs m.name (vm.invokeInstance t o m args) := by
  simp only [invokeInstance]
  split
  · exact .inr ⟨rfl, _, rfl⟩
  · exact vm.invoke_runs _ _

theorem newInstance_runs (vm : Vm) (t : ThreadId) (c : TypeId) (m : Method) (args : List Value) :
    vm.Runs m.name (vm.newInstance t c m args) := by
  simp only [newInstance]
  split
  · exact .inr ⟨rfl, _, rfl⟩
  · have hcall := invoke_runs (vm.newObject c).2 ((vm.newObject c).2.bodies.get? m.id)
      ⟨t, m, some (vm.newObject c).1, args⟩
    split
    · next h =>
      rw [h] at hcall
      rcases hcall with hrun | ⟨-, e, he⟩
      · exact .inl hrun
      · cases he
    · exact hcall

end Vm

/-- The methods that were called, in their order, with those between them through which values were
converted. -/
inductive Spelled : List String → List String → Prop
  | nil : Spelled [] []
  | conversion {name : String} {called names : List String} (h : Conversion.isMethod name)
      (hrest : Spelled called names) : Spelled called (name :: names)
  | call {name : String} {called names : List String} (hrest : Spelled called names) :
      Spelled (name :: called) (name :: names)

theorem Spelled.append {called called' names names' : List String} (h : Spelled called names)
    (h' : Spelled called' names') : Spelled (called ++ called') (names ++ names') := by
  induction h with
  | nil => exact h'
  | conversion h _ ih => exact .conversion h ih
  | call _ ih => exact .call ih

theorem Vm.answer_converts (vm : Vm) {c : Call} (h : c.converts) :
    ∃ names, (vm.answer c).2.invocations = vm.invocations ++ names ∧ Spelled [] names := by
  have hruns {name : String} {r : Except TargetError Outcome × Vm} (hr : vm.Runs name r)
      (hname : Conversion.isMethod name) :
      ∃ names, r.2.invocations = vm.invocations ++ names ∧ Spelled [] names := by
    rcases hr with hrun | ⟨hsame, -⟩
    · exact ⟨[name], hrun, .conversion hname .nil⟩
    · exact ⟨[], by rw [hsame, List.append_nil], .nil⟩
  by_cases hi : c.inspects
  · exact ⟨[], by rw [vm.answer_inspects hi, List.append_nil], .nil⟩
  · cases c with
    | invokeStatic t k m args => exact hruns (vm.invoke_runs _ _) h
    | invokeInstance t o m args => exact hruns (vm.invokeInstance_runs _ _ _ _) h
    | createString text => exact ⟨[], (List.append_nil _).symm, .nil⟩
    | newArray k length =>
      refine ⟨[], ?_, .nil⟩
      rw [List.append_nil]
      simp only [answer, newArrayOf]
      repeat' split
      all_goals rfl
    | _ => exact absurd h hi

theorem Routine.Converts.run {σ α : Type} {m : Task σ α} (hm : Converts m) (x : σ) (vm : Vm) :
    ∃ names, (m.run Vm.serve x vm).2.2.invocations = vm.invocations ++ names ∧
      Spelled [] names := by
  induction m generalizing x vm with
  | done a => exact ⟨[], (List.append_nil _).symm, .nil⟩
  | request c k ih =>
    obtain ⟨names, hnames, hspelled⟩ := vm.answer_converts hm.1
    obtain ⟨names', hnames', hspelled'⟩ := ih _ (hm.2 _) x (vm.answer c).2
    refine ⟨names ++ names', ?_, hspelled.append hspelled'⟩
    rw [← List.append_assoc, ← hnames]
    exact hnames'
  | update f k ih => exact (hm x).1.elim

/-- If the routine succeeds, then with this result and this much run on the machine. -/
def Op.Spells {σ α : Type} (m : Op DebugError σ α) (Q : α → List String → Prop) : Prop :=
  ∀ x vm a, (m.run.run Vm.serve x vm).1 = .ok a →
    ∃ names, (m.run.run Vm.serve x vm).2.2.invocations = vm.invocations ++ names ∧ Q a names

namespace Op.Spells
variable {σ α β : Type} {Q : α → List String → Prop} {R : β → List String → Prop}

theorem mono {Q' : α → List String → Prop} {m : Op DebugError σ α} (hm : m.Spells Q)
    (h : ∀ a names, Q a names → Q' a names) : m.Spells Q' := fun x vm a ha =>
  have ⟨names, hnames, hQ⟩ := hm x vm a ha
  ⟨names, hnames, h a names hQ⟩

theorem pure {a : α} (h : Q a []) : (Pure.pure a : Op DebugError σ α).Spells Q := by
  intro x vm b hb
  cases hb
  exact ⟨[], (List.append_nil _).symm, h⟩

theorem throw (e : DebugError) : (MonadExcept.throw e : Op DebugError σ α).Spells Q :=
  fun _ _ _ h => nomatch h

theorem bind {m : Op DebugError σ α} {g : α → Op DebugError σ β} (hm : m.Spells Q)
    (hg : ∀ a names, Q a names → (g a).Spells fun b names' => R b (names ++ names')) :
    (m >>= g).Spells R := by
  intro x vm b hb
  rw [Op.run_bind, Routine.run_bind] at hb ⊢
  cases h : (m.run.run Vm.serve x vm).1 with
  | error e =>
    rw [h] at hb
    cases hb
  | ok a =>
    rw [h] at hb
    obtain ⟨names, hnames, hQ⟩ := hm x vm a h
    obtain ⟨names', hnames', hR⟩ := hg a names hQ _ _ b hb
    refine ⟨names ++ names', ?_, hR⟩
    rw [← List.append_assoc, ← hnames]
    exact hnames'

theorem of_converts {m : Op DebugError σ α} (hm : Routine.Converts m.run) :
    m.Spells fun _ names => Spelled [] names := fun x vm _ _ => hm.run x vm

/-- Conversions come first. -/
theorem after {m : Op DebugError σ α} {g : α → Op DebugError σ β} {called : List String}
    (hm : Routine.Converts m.run) (hg : ∀ a, (g a).Spells fun _ names => Spelled called names) :
    (m >>= g).Spells fun _ names => Spelled called names :=
  bind (of_converts hm) fun a _ hnames => (hg a).mono fun _ _ hnames' => hnames.append hnames'

end Op.Spells

open Routine Op

namespace Scope
variable {σ : Type}

theorem spells_returned (o : Outcome) :
    (returned o : Op DebugError σ Value).Spells fun _ names => names = [] := by
  cases o with
  | returned v => exact .pure rfl
  | threw e =>
    exact .bind (.of_converts (inspects_exceptionMessage e).converts.lift) fun _ _ _ => .throw _

theorem spells_call {c : Call} {name : String} (h : ∀ vm : Vm, ∀ a, (vm.answer c).1 = .ok a →
    (vm.answer c).2.invocations = vm.invocations ++ [name]) :
    (Op.call c : Op DebugError σ c.Answer).Spells fun _ names => names = [name] := by
  intro x vm a ha
  refine ⟨[name], ?_, rfl⟩
  change ((vm.answer c).1.mapError DebugError.ofTarget) = .ok a at ha
  cases hr : (vm.answer c).1 with
  | error e =>
    rw [hr] at ha
    cases ha
  | ok b => exact h vm b hr

theorem spells_thenReturned {m : Op DebugError σ Outcome} {name : String}
    (hm : m.Spells fun _ names => names = [name]) :
    (m >>= returned).Spells fun _ names => Spelled [name] names :=
  .bind hm fun o names hnames => (spells_returned o).mono fun _ _ hnames' => by
    rw [hnames, hnames']
    exact .call .nil

theorem spells_invokeStatic (t : ThreadId) (c : TypeId) (m : Method) (args : List Value) :
    (do returned (← Op.call (.invokeStatic t c m args)) : Op DebugError σ Value).Spells
      fun _ names => Spelled [m.name] names :=
  spells_thenReturned <| spells_call (c := .invokeStatic t c m args) fun vm _ =>
    (vm.invoke_runs _ _).of_ok

theorem spells_invokeInstance (t : ThreadId) (o : ObjectRef) (m : Method) (args : List Value) :
    (do returned (← Op.call (.invokeInstance t o m args)) : Op DebugError σ Value).Spells
      fun _ names => Spelled [m.name] names :=
  spells_thenReturned <| spells_call (c := .invokeInstance t o m args) fun vm _ =>
    (vm.invokeInstance_runs _ _ _ _).of_ok

theorem spells_newInstance (t : ThreadId) (c : TypeId) (m : Method) (args : List Value) :
    (do returned (← Op.call (.newInstance t c m args)) : Op DebugError σ Value).Spells
      fun _ names => Spelled [m.name] names :=
  spells_thenReturned <| spells_call (c := .newInstance t c m args) fun vm _ =>
    (vm.newInstance_runs _ _ _ _).of_ok

theorem spells_selectOverload (args : List Value) (methods : List Method) :
    (selectOverload args methods : Op DebugError σ (Option Method)).Spells fun found names =>
      Spelled [] names ∧ ∀ m ∈ found, m ∈ methods := by
  induction methods with
  | nil => exact .pure ⟨.nil, by simp⟩
  | cons m rest ih =>
    have hrest : (selectOverload args rest : Op DebugError σ (Option Method)).Spells
        fun found names => Spelled [] names ∧ ∀ o ∈ found, o ∈ m :: rest :=
      ih.mono fun _ _ h => ⟨h.1, fun o ho => List.mem_cons_of_mem _ (h.2 o ho)⟩
    simp only [selectOverload]
    split
    · refine .bind (.of_converts (inspects_allAssignable _).converts) fun fits names hnames => ?_
      split
      · exact .pure ⟨by simpa using hnames, by simp⟩
      · exact hrest.mono fun _ _ h => ⟨hnames.append h.1, h.2⟩
    · exact hrest

theorem name_of_named {name : String} {methods : List Method} {m : Method}
    (h : m ∈ named name methods) : m.name = name := by
  have := (List.mem_filter.1 h).2
  simp only [Bool.and_eq_true, beq_iff_eq] at this
  exact this.1

theorem spells_callInstance (s : Scope) (o : ObjectRef) (name : String) (args : List Value) :
    (callInstance s o name args : Op DebugError σ Value).Spells
      fun _ names => Spelled [name] names := by
  refine .after (converts_call rfl) fun methods => ?_
  refine .bind (spells_selectOverload _ _) fun found names hfound => ?_
  split
  · next m =>
    refine Spells.mono ?_ fun _ _ h => hfound.1.append h
    rw [← name_of_named (hfound.2 m rfl)]
    refine .after (converts_coerceAll s _) fun args => ?_
    split
    · exact spells_invokeStatic _ _ _ _
    · exact spells_invokeInstance _ _ _ _
  · exact .throw _

theorem spells_callStatic (s : Scope) (c : TypeId) (className name : String) (args : List Value) :
    (callStatic s c className name args : Op DebugError σ Value).Spells
      fun _ names => Spelled [name] names := by
  refine .after (converts_call rfl) fun methods => ?_
  refine .bind (spells_selectOverload _ _) fun found names hfound => ?_
  split
  · next m =>
    refine Spells.mono ?_ fun _ _ h => hfound.1.append h
    rw [← name_of_named (hfound.2 m rfl)]
    split
    · exact .after (converts_fail _) fun args => .after (converts_coerceAll s _) fun args =>
        spells_invokeStatic _ _ _ _
    · exact .after (converts_coerceAll s _) fun args => spells_invokeStatic _ _ _ _
  · exact .throw _

theorem spells_callUnqualified (s : Scope) (name : String) (args : List Value) :
    (callUnqualified s name args : Op DebugError σ Value).Spells
      fun _ names => Spelled [name] names := by
  simp only [callUnqualified]
  split
  · exact spells_callInstance s _ _ _
  · exact .after (converts_attempt rfl).lift fun _ => spells_callStatic s _ _ _ _

theorem spells_callOn (s : Scope) (receiver : Meaning) (name : String) (args : List Value) :
    (callOn s receiver name args : Op DebugError σ Value).Spells
      fun _ names => Spelled [name] names := by
  simp only [callOn]
  split
  · exact spells_callStatic s _ _ _ _
  · exact spells_callInstance s _ _ _
  · exact .throw _
  · exact .throw _

theorem spells_newObject (s : Scope) (typeName : String) (args : List Value) :
    (newObject s typeName args : Op DebugError σ Value).Spells
      fun _ names => Spelled ["<init>"] names := by
  refine .after (inspects_lookupType _).converts fun c => ?_
  split
  · next c =>
    extract_lets rest
    have hrest (u : Unit) : (rest u).Spells fun _ names => Spelled ["<init>"] names := by
      refine .after (converts_call rfl) fun methods => ?_
      refine .bind (spells_selectOverload _ _) fun found names hfound => ?_
      split
      · next m =>
        refine Spells.mono ?_ fun _ _ h => hfound.1.append h
        have hname : m.name = "<init>" := by
          have := (List.mem_filter.1 (hfound.2 m rfl)).2
          simp only [Bool.and_eq_true, Method.isConstructor, beq_iff_eq] at this
          exact this.1
        rw [← hname]
        exact .after (converts_coerceAll s _) fun args => spells_newInstance _ _ _ _
      · exact .throw _
    split
    · exact .after (converts_fail _) hrest
    · exact hrest ()
  · exact .throw _

end Scope

end JvmDebug
