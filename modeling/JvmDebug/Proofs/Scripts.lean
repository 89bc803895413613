import JvmDebug.Proofs.Evaluation

/-!
Methods of the simulated machine as scripts: what runs on it may read texts and fields, set fields,
make objects, and return or throw. Whatever the scripts do, evaluating on such a machine is confined
to the heap and the record of calls: `Scope.evaluation_confined`.
-/
namespace JvmDebug

/-- What a method may ask of the machine it runs on. -/
inductive Action
  | text (o : ObjectRef)
  | fieldValue (o : ObjectRef) (name : String)
  | classNamed (name : String)
  | newObject (c : TypeId)
  | newString (text : String)
  | setField (o : ObjectRef) (name : String) (v : Value)

def Action.Reply : Action → Type
  | text _ => Option String
  | fieldValue .. => Option Value
  | classNamed _ => Option TypeId
  | newObject _ | newString _ => ObjectRef
  | setField .. => Bool

abbrev Script := Routine Action Action.Reply Unit Outcome

/-- The scripts of methods; they may be other ones each time. -/
abbrev Scripts := Vm → MethodId → Option (Invocation → Script)

namespace Vm

def perform : (a : Action) → Vm → a.Reply × Vm
  | .text o, vm => (vm.textOf? o, vm)
  | .fieldValue o name, vm => (vm.fieldValue? o name, vm)
  | .classNamed name, vm => (vm.classNamed? name, vm)
  | .newObject c, vm => vm.newObject c
  | .newString text, vm => vm.newString text
  | .setField o name v, vm =>
    ((vm.fieldNamed? o.typeId name).isSome && vm.objects.contains o.id, vm.setField o name v)

def runScript (vm : Vm) (script : Script) : Outcome × Vm :=
  ((script.run perform () vm).1, (script.run perform () vm).2.2)

/-! ## A machine that runs scripts -/

section
variable (scripts : Scripts)

def dispatchBy (vm : Vm) (c : TypeId) (m : Method) : Option (Invocation → Script) :=
  let overriding (k : VmClass) : Option (Invocation → Script) :=
    (k.methods.find? fun o => o.name == m.name && o.signature == m.signature).bind fun o =>
      scripts vm o.id
  ((vm.knownHierarchy c).findSome? overriding) <|> scripts vm m.id

def invokeBy (vm : Vm) (script : Option (Invocation → Script)) (call : Invocation) :
    Except TargetError Outcome × Vm :=
  match vm.suspendedThread call.thread, script with
  | .error e, _ => (.error e, vm)
  | .ok _, none =>
    (.error (.unsupported ("mock method " ++ call.method.name ++ " has no body")), vm)
  | .ok _, some script =>
    let vm := { vm with invocations := vm.invocations ++ [call.method.name] }
    let (outcome, vm) := vm.runScript (script call)
    (.ok outcome, vm)

def newInstanceBy (vm : Vm) (t : ThreadId) (c : TypeId) (m : Method) (args : List Value) :
    Except TargetError Outcome × Vm :=
  match vm.suspendedThread t with
  | .error e => (.error e, vm)
  | .ok _ =>
    let (o, vm) := vm.newObject c
    match vm.invokeBy (scripts vm m.id) ⟨t, m, some o, args⟩ with
    | (.ok (.returned _), vm) => (.ok (.returned (.object o)), vm)
    | other => other

/-- The machine answers as ever, but for the methods that it runs. -/
def serveBy : (c : Call) → Vm → c.Reply × Vm
  | .invokeStatic t _ m args, vm => vm.invokeBy (scripts vm m.id) ⟨t, m, none, args⟩
  | .invokeInstance t o m args, vm =>
    match vm.objectOf o with
    | .error e => (.error e, vm)
    | .ok _ => vm.invokeBy (vm.dispatchBy scripts o.typeId m) ⟨t, m, some o, args⟩
  | .newInstance t c m args, vm => vm.newInstanceBy scripts t c m args
  | c, vm => vm.answer c

end

end Vm

/-! ## The bodies of the machine are scripts -/

namespace Body

def giveText (text : String) : Script :=
  .request (.newString text) fun o => .done (.returned (.object o))

def throwNewOf (message : Option String) (c : TypeId) : Script :=
  .request (.newObject c) fun o =>
    match message with
    | none => .done (.threw o)
    | some message => .request (.newString message) fun text =>
      .request (.setField o "detailMessage" (.object text)) fun _ => .done (.threw o)

/-- The body as a script. -/
def script (call : Invocation) : Body → Script
  | constant v => .done (.returned v)
  | text s => giveText s
  | argument n => .done (.returned (call.args[n]?.getD .void))
  | receiver => .done (.returned ((call.receiver.map .object).getD .null))
  | readField name otherwise =>
    match call.receiver with
    | none => .done (.returned otherwise)
    | some o => .request (.fieldValue o name) fun v => .done (.returned (Option.getD v otherwise))
  | writeField name =>
    match call.receiver, call.args with
    | some o, v :: _ => .request (.setField o name v) fun _ => .done (.returned .void)
    | _, _ => .done (.returned .void)
  | box type otherwise =>
    .request (.newObject (type.getD call.method.declaringType)) fun o =>
      .request (.setField o "value" (call.args.head?.getD otherwise)) fun _ =>
        .done (.returned (.object o))
  | throwNew (.id c) message => throwNewOf message c
  | throwNew (.named name) message =>
    .request (.classNamed name) fun c => throwNewOf message (Option.getD c 0)
  | describe => giveText (description call)
  | identityText => giveText ((call.receiver.map ObjectRef.identity).getD "")
  | identityHash =>
    .done (.returned (.int (Int32.ofInt ((call.receiver.map ObjectRef.id).getD 0).toNat)))
  | textLength =>
    match call.receiver with
    | none => .done (.returned (.int (Int32.ofInt (0 : Nat))))
    | some o => .request (.text o) fun text =>
      .done (.returned (.int (Int32.ofInt (Option.elim text 0 unitCount : Nat))))
  | numberText name =>
    match call.receiver with
    | none => giveText "0"
    | some o => .request (.fieldValue o name) fun v =>
      match v with
      | some (.int n) => giveText (toString n.toInt)
      | _ => giveText "0"

theorem run_eq (vm : Vm) (call : Invocation) (b : Body) :
    b.run vm call = vm.runScript (b.script call) := by
  cases b with
  | readField name otherwise =>
    simp only [run, script]
    cases call.receiver <;> rfl
  | writeField name =>
    simp only [run, script]
    cases call.receiver <;> cases call.args <;> rfl
  | throwNew type message =>
    cases type <;> cases message <;> rfl
  | textLength =>
    simp only [run, script]
    cases call.receiver with
    | none => rfl
    | some o =>
      rw [Option.bind_some, Vm.runScript, Routine.run, Vm.perform]
      cases vm.textOf? o <;> rfl
  | numberText name =>
    simp only [run, script]
    cases call.receiver with
    | none => rfl
    | some o =>
      rw [Option.bind_some, Vm.runScript, Routine.run, Vm.perform]
      rcases vm.fieldValue? o name with _ | (_ | _ | _ | _ | _ | _ | _ | _ | _ | _ | _) <;> rfl
  | _ => rfl

end Body

namespace Vm

/-- The scripts of a machine that keeps to its own bodies. -/
def ownScripts : Scripts := fun vm m => (vm.bodies.get? m).map fun b call => b.script call

section
variable (vm : Vm)

theorem invoke_eq (body : Option Body) (call : Invocation) :
    vm.invoke body call = vm.invokeBy (body.map fun b call => b.script call) call := by
  simp only [invoke, invokeBy]
  cases vm.suspendedThread call.thread with
  | error e => rfl
  | ok d =>
    cases body with
    | none => rfl
    | some b => simp only [Option.map_some, b.run_eq]

theorem dispatch_eq (c : TypeId) (m : Method) :
    (vm.dispatch c m).map (fun b call => b.script call) = vm.dispatchBy ownScripts c m := by
  simp only [dispatch, dispatchBy, ownScripts, Option.orElse_eq_orElse, ← Option.or_eq_orElse,
    Option.map_or, List.map_findSome?]
  congr 2
  funext k
  exact Option.map_bind

theorem newInstance_eq (t : ThreadId) (c : TypeId) (m : Method) (args : List Value) :
    vm.newInstance t c m args = vm.newInstanceBy ownScripts t c m args := by
  simp only [newInstance, newInstanceBy, invoke_eq]
  rfl

theorem answer_eq (c : Call) : vm.answer c = vm.serveBy ownScripts c := by
  cases c with
  | invokeStatic t k m args => exact vm.invoke_eq _ _
  | invokeInstance t o m args =>
    simp only [answer, invokeInstance, serveBy]
    cases vm.objectOf o with
    | error e => rfl
    | ok d =>
      show vm.invoke (vm.dispatch _ _) _ = vm.invokeBy (vm.dispatchBy ownScripts _ _) _
      rw [invoke_eq, dispatch_eq]
  | newInstance t c m args => exact vm.newInstance_eq t c m args
  | _ => rfl

/-! ## What a script can reach -/

theorem perform_objects (a : Action) : vm.SameButObjects (vm.perform a).2 := by
  cases a with
  | setField o name v => exact vm.setField_objects o name v
  | text | fieldValue | classNamed | newObject | newString => rfl

theorem runScript_objects (script : Script) : vm.SameButObjects (vm.runScript script).2 := by
  induction script generalizing vm with
  | done outcome => rfl
  | request a k ih => exact (vm.perform_objects a).trans (ih _ _)
  | update f k ih => exact ih () vm

theorem invokeBy_heap (script : Option (Invocation → Script)) (call : Invocation) :
    vm.SameButHeap (vm.invokeBy script call).2 := by
  simp only [invokeBy]
  split
  · exact .rfl
  · exact .rfl
  · have hrecord (names : List String) : vm.SameButHeap { vm with invocations := names } := rfl
    exact (hrecord _).trans (runScript_objects _ _).sameButHeap

variable (scripts : Scripts)

theorem newInstanceBy_heap (t : ThreadId) (c : TypeId) (m : Method) (args : List Value) :
    vm.SameButHeap (vm.newInstanceBy scripts t c m args).2 := by
  simp only [newInstanceBy]
  split
  · exact .rfl
  · have hnew : vm.SameButHeap (vm.newObject c).2 := rfl
    have hcall := (vm.newObject c).2.invokeBy_heap (scripts (vm.newObject c).2 m.id)
      ⟨t, m, some (vm.newObject c).1, args⟩
    split
    · next h =>
      rw [h] at hcall
      exact hnew.trans hcall
    · exact hnew.trans hcall

theorem serveBy_inspects {c : Call} (h : c.inspects) : (vm.serveBy scripts c).2 = vm := by
  have hanswer : vm.serveBy scripts c = vm.answer c := by
    cases c with
    | invokeStatic | invokeInstance | newInstance => exact absurd h Bool.false_ne_true
    | _ => rfl
  rw [hanswer, vm.answer_inspects h]

/-- Whatever the methods are, a call that serves to evaluate leaves all but the heap alone. -/
theorem serveBy_evaluates {c : Call} (h : c.evaluates) :
    vm.SameButHeap (vm.serveBy scripts c).2 := by
  by_cases hi : c.inspects
  · rw [vm.serveBy_inspects scripts hi]
    exact .rfl
  · cases c with
    | invokeStatic => exact vm.invokeBy_heap _ _
    | invokeInstance =>
      simp only [serveBy]
      split
      · exact .rfl
      · exact vm.invokeBy_heap _ _
    | newInstance => exact vm.newInstanceBy_heap scripts _ _ _ _
    | newArray =>
      simp only [serveBy, answer, newArrayOf]
      repeat' split
      all_goals exact Eq.refl _
    | createString => exact Eq.refl _
    | _ => exact absurd h hi

theorem answer_evaluates {c : Call} (h : c.evaluates) : vm.SameButHeap (vm.answer c).2 := by
  rw [answer_eq]
  exact vm.serveBy_evaluates ownScripts h

end

end Vm

/-! ## Evaluation -/

open Routine

namespace Scope
variable {σ : Type}

/-- Evaluating in a frame, whether it succeeds or fails and whatever the methods of the target are
scripted to do, keeps the threads and their frames, the classes and their static fields, the
requests and the reports that wait. An expression that only looks keeps the objects, too, and
nothing is called. -/
theorem evaluation_confined (scripts : Scripts) (t : ThreadId) (f : Frame) (e : Expr) (x : σ)
    (vm : Vm) :
    let run := (do (← read t f).evaluate e : Op DebugError σ Evaluation).run.run
      (Vm.serveBy scripts) x vm
    run.2.1 = x ∧ vm.SameButHeap run.2.2 ∧ (e.looksOnly → run.2.2 = vm) := by
  have hevaluates : Evaluates (do (← read t f).evaluate e : Op DebugError σ Evaluation).run :=
    (inspects_read t f).evaluates.op_bind fun s => evaluates_evaluate s e
  refine ⟨?_, ?_, fun hlooks => ?_⟩
  · exact ((hevaluates.mono (fun _ hc => hc) fun _ _ => False.elim).run _ Eq.refl
      (fun _ _ _ => Eq.trans) x vm).symm
  · exact hevaluates.run_surroundings (fun c vm hc => vm.serveBy_evaluates scripts hc)
      (fun _ => .rfl) (fun _ _ _ => .trans) x vm
  · have hinspects : Inspects (do (← read t f).evaluate e : Op DebugError σ Evaluation).run :=
      (inspects_read t f).op_bind fun s => inspects_evaluate s hlooks
    exact hinspects.run_surroundings (R := fun vm vm' => vm' = vm)
      (fun c vm hc => vm.serveBy_inspects scripts hc) (fun _ => rfl)
      (fun _ _ _ h h' => h'.trans h) x vm

/-- A suspended thread with one frame, where `xs` is an array of two numbers. -/
def arrayVm : Vm :=
  let (xs, vm) := Vm.newArray {} "int" [.int 5, .int 2]
  let (t, vm) := vm.addThread "main"
  let (_, vm) := vm.addFrame t ⟨1, 7, 8, 0⟩ none [(⟨"xs", "[I", 0, false⟩, .object xs)]
  vm.setSuspended t true

/-- The text `xs[1] - 1 < xs.length`. -/
def arrayComparison : Expr :=
  .binary .lt (.binary .sub (.index (.name "xs") (.literal (.int 1))) (.literal (.int 1)))
    (.field (.name "xs") "length")

theorem evaluation_confined_comparison :
    let run := (do (← read 3 ⟨4, ⟨1, 7, 8, 0⟩⟩).evaluate arrayComparison :
      Op DebugError Unit Evaluation).run.run (fun c vm => vm.answer c) () arrayVm
    arrayComparison.looksOnly ∧ run.1.toOption.map Evaluation.display = some "true" ∧
      run.2.2 = arrayVm := by
  have hown : (fun c vm => vm.answer c) = Vm.serveBy Vm.ownScripts :=
    funext fun c => funext fun vm => vm.answer_eq c
  refine ⟨by decide, by decide +kernel, ?_⟩
  rw [hown]
  exact (evaluation_confined Vm.ownScripts 3 ⟨4, ⟨1, 7, 8, 0⟩⟩ arrayComparison () arrayVm).2.2
    (by decide)

end Scope

end JvmDebug
