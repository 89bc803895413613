import JvmDebug.Proofs.EvaluationLog
import JvmDebug.Proofs.MethodRuns

/-!
The order in which an evaluation runs the methods that its expression calls, as its log tells it:
main result `Scope.calls_inOrder_iff`.
-/
namespace JvmDebug

open Routine Op

namespace Scope
variable {σ : Type}

/-! ## Logs and what runs meanwhile -/

/-- The parts that were evaluated and the names of the methods that ran meanwhile. -/
structure Covers (schedule : List (Expr × Nat)) (parts : List Evaluated) (names : List String) :
    Prop where
  schedule : parts.map (fun x => (x.expr, x.number)) = schedule
  logs : ∀ x ∈ parts, Logged x.expr x.meaning x.log
  names : Spelled (parts.flatMap fun x => x.expr.namesIn x.log) names

theorem covers_nil : Covers [] [] [] := ⟨rfl, by simp, .nil⟩

theorem Covers.append {l l' : List (Expr × Nat)} {parts parts' : List Evaluated}
    {names names' : List String} (h : Covers l parts names) (h' : Covers l' parts' names') :
    Covers (l ++ l') (parts ++ parts') (names ++ names') where
  schedule := by rw [List.map_append, h.schedule, h'.schedule]
  logs := List.forall_mem_append.2 ⟨h.logs, h'.logs⟩
  names := by
    rw [List.flatMap_append]
    exact h.names.append h'.names

theorem Covers.conversions {l : List (Expr × Nat)} {parts : List Evaluated}
    {names names' : List String} (h : Covers l parts names) (h' : Spelled [] names') :
    Covers l parts (names ++ names') where
  schedule := h.schedule
  logs := h.logs
  names := by simpa using h.names.append h'

/-- The log of the expression, and what ran during its evaluation. -/
def Tells (e : Expr) (r : Meaning × List Note) (names : List String) : Prop :=
  Logged e r.1 r.2 ∧ Spelled (e.namesIn r.2) names

theorem Tells.covers {e : Expr} {r : Meaning × List Note} {names : List String}
    (h : Tells e r names) (number : Nat) :
    Covers [(e, number)] [⟨number, e, r.1, r.2⟩] names where
  schedule := rfl
  logs := by simpa using h.1
  names := by simpa using h.2

theorem spells_noting {e : Expr} {parts : List Evaluated} {names : List String}
    (h : Covers (e.schedule (parts.head?.any fun x => e.decidedBy x.meaning)) parts names)
    {m : Op DebugError σ Meaning} (hm : m.Spells fun _ names' => Spelled e.called?.toList names') :
    (noting parts m).Spells fun r names' => Tells e r (names ++ names') := by
  refine .bind hm fun r names' hnames => .pure ⟨.intro r parts h.schedule h.logs, ?_⟩
  rw [Expr.namesIn_log (fun x hx => part_of_schedule h.schedule hx), List.append_nil]
  exact h.names.append hnames

theorem spells_ofValue {called : List String} {m : Op DebugError σ Value}
    (hm : m.Spells fun _ names => Spelled called names) :
    (ofValue m).Spells fun _ names => Spelled called names :=
  .bind hm fun _ _ hnames => .pure (by simpa using hnames)

theorem spells_asValue (m : Meaning) :
    (asValue m : Op DebugError σ Value).Spells fun v names => m = .value v ∧ names = [] := by
  cases m with
  | value v => exact .pure ⟨rfl, rfl⟩
  | type c => exact .throw _

/-- The value of a part, and the part with its log. -/
structure IsOperand (number : Nat) (e : Expr) (r : Value × Evaluated) (names : List String) :
    Prop where
  covers : Covers [(e, number)] [r.2] names
  meaning : r.2.meaning = .value r.1

theorem spells_operand {number : Nat} {e : Expr} {m : Op DebugError σ (Meaning × List Note)}
    (hm : m.Spells (Tells e)) : (operand number e m).Spells (IsOperand number e) := by
  refine .bind hm fun r names hr => .bind (spells_asValue r.1) fun v names' hv => .pure ?_
  rw [hv.2, List.append_nil, List.append_nil]
  exact ⟨hr.covers number, hv.1⟩

theorem spells_settle (op : BinaryOp) (left : Value) :
    (settle op left : Op DebugError σ (Option Value)).Spells fun settled names =>
      names = [] ∧ op.decidedBy left = settled.isSome := by
  have hboolean : (boolean op.symbol left : Op DebugError σ Bool).Spells fun b names =>
      left = .boolean b ∧ names = [] := by
    cases left with
    | boolean b => exact .pure ⟨rfl, rfl⟩
    | _ => exact .throw _
  cases op with
  | or | and =>
    refine .bind hboolean fun b names ⟨hb, hnames⟩ => ?_
    subst hb hnames
    cases b <;> exact .pure ⟨rfl, rfl⟩
  | _ => exact .pure ⟨rfl, by cases left <;> rfl⟩

theorem converts_combine (s : Scope) (op : BinaryOp) (left right : Value) :
    Converts (combine s op left right : Op DebugError σ Value).run := by
  simp only [combine]
  split
  · exact (inspects_boolean _ _).converts.op_bind fun _ => converts_done _
  · exact (inspects_boolean _ _).converts.op_bind fun _ => converts_done _
  · exact converts_done _
  · exact converts_ofExcept _
  · split
    · exact converts_concatenate s _ _
    · exact converts_ofExcept _

theorem schedule_of_segments {e : Expr} (h : e.segments?.isSome) (decided : Bool) :
    e.schedule decided = [] ∧ e.called? = none := by
  cases e with
  | name text => exact ⟨rfl, rfl⟩
  | field target member => exact ⟨if_pos h, rfl⟩
  | _ => simp [Expr.segments?, Expr.reverseSegments?] at h

theorem spells_chain (s : Scope) {e : Expr} {segments : List String}
    (h : e.segments? = some segments) (blamed : List String) :
    (noting [] (chainMeaning s segments blamed)).Spells (σ := σ) (Tells e) := by
  have hsome : e.segments?.isSome := by rw [h]; rfl
  have hschedule := schedule_of_segments hsome false
  have hnames : (chainMeaning s segments blamed : Op DebugError σ Meaning).Spells
      fun _ names => Spelled e.called?.toList names := by
    rw [hschedule.2]
    exact .of_converts (inspects_chainMeaning s _ _).converts
  show (noting [] (chainMeaning s segments blamed)).Spells fun r names => Tells e r ([] ++ names)
  exact spells_noting (hschedule.1 ▸ covers_nil) hnames

/-- An expression that is no call, of parts evaluated before. -/
theorem spells_converting {e : Expr} {parts : List Evaluated} {names : List String}
    (h : Covers (e.schedule (parts.head?.any fun x => e.decidedBy x.meaning)) parts names)
    (hcalled : e.called? = none) {m : Op DebugError σ Meaning} (hm : Converts m.run) :
    (noting parts m).Spells fun r names' => Tells e r (names ++ names') := by
  refine spells_noting h ?_
  rw [hcalled]
  exact .of_converts hm

theorem converts_ofValue {m : Op DebugError σ Value} (hm : Converts m.run) :
    Converts (ofValue m).run := hm.op_bind fun _ => converts_done _

mutual

theorem spells_logged (s : Scope) (e : Expr) :
    (logged s e : Op DebugError σ (Meaning × List Note)).Spells (Tells e) := by
  cases e with
  | literal l =>
    rw [logged, meaning]
    exact spells_converting (e := .literal l) covers_nil rfl (converts_ofValue (converts_literal l))
  | this =>
    rw [logged, meaning]
    refine spells_converting (e := .this) covers_nil rfl ?_
    split
    · exact converts_done _
    · exact converts_fail _
  | name text =>
    rw [logged, meaning]
    refine spells_converting (e := .name text) covers_nil rfl ?_
    refine (inspects_resolveName s _).converts.op_bind fun m => ?_
    split <;> exact converts_done _
  | field target member =>
    rw [logged]
    cases hchain : (Expr.field target member).segments? with
    | some segments => exact spells_chain s hchain _
    | none =>
      refine .bind (spells_logged s target) fun r names hr => ?_
      refine spells_converting ?_ rfl (inspects_member _ _).converts
      rw [Expr.schedule, hchain]
      exact hr.covers 0
  | call target method args =>
    cases target with
    | none =>
      rw [logged]
      refine .bind (spells_loggedArgs s 0 args) fun r names hr => ?_
      exact spells_noting (e := .call none method args) hr
        (spells_ofValue (spells_callUnqualified s _ _))
    | some target =>
      rw [logged]
      refine .bind (spells_loggedArgs s 1 args) fun r names hr => ?_
      have hreceiver : (match target.segments? with
          | some segments => noting [] (chainMeaning s segments segments)
          | none => logged s target : Op DebugError σ (Meaning × List Note)).Spells
          (Tells target) := by
        cases hchain : target.segments? with
        | some segments => exact spells_chain s hchain _
        | none => exact spells_logged s target
      refine .bind hreceiver fun r' names' hr' => ?_
      simp only [← List.append_assoc]
      exact spells_noting (e := .call (some target) method args) (hr.append (hr'.covers 0))
        (spells_ofValue (spells_callOn s _ _ _))
  | index array index =>
    rw [logged]
    refine .bind (spells_operand (spells_logged s array)) fun x names hx => ?_
    refine .bind (spells_operand (spells_logged s index)) fun y names' hy => ?_
    simp only [← List.append_assoc]
    exact spells_converting (e := .index array index) (hx.covers.append hy.covers) rfl
      (converts_ofValue (inspects_element _ _).converts)
  | binary op left right =>
    rw [logged]
    refine .bind (spells_operand (spells_logged s left)) fun x names hx => ?_
    have hdecided (parts : List Evaluated) : ((x.2 :: parts).head?.any fun x =>
        (Expr.binary op left right).decidedBy x.meaning) = op.decidedBy x.1 := by
      simp [Expr.decidedBy, hx.meaning]
    refine .bind (spells_settle op x.1) fun settled names' ⟨hnames, hsettled⟩ => ?_
    subst hnames
    cases settled with
    | some v =>
      have hv : Converts (pure v : Op DebugError σ Value).run := converts_done _
      refine spells_converting (e := .binary op left right) ?_ rfl (converts_ofValue hv)
      rw [hdecided, hsettled]
      exact hx.covers
    | none =>
      refine .bind (spells_operand (spells_logged s right)) fun y names' hy => ?_
      simp only [List.nil_append, ← List.append_assoc]
      refine spells_converting (e := .binary op left right) ?_ rfl
        (converts_ofValue (converts_combine s _ _ _))
      rw [hdecided, hsettled]
      exact hx.covers.append hy.covers
  | unary op e =>
    rw [logged]
    refine .bind (spells_operand (spells_logged s e)) fun x names hx => ?_
    exact spells_converting (e := .unary op e) hx.covers rfl
      (converts_ofValue (converts_ofExcept _))
  | cast typeName e =>
    rw [logged]
    refine .bind (spells_operand (spells_logged s e)) fun x names hx => ?_
    exact spells_converting (e := .cast typeName e) hx.covers rfl
      (converts_ofValue (converts_cast s _ _))
  | instanceOf e typeName =>
    rw [logged]
    refine .bind (spells_operand (spells_logged s e)) fun x names hx => ?_
    exact spells_converting (e := .instanceOf e typeName) hx.covers rfl
      ((inspects_instanceOf _ _).converts.op_bind fun _ => converts_done _)
  | newArray elementType e =>
    rw [logged]
    refine .bind (spells_operand (spells_logged s e)) fun x names hx => ?_
    exact spells_converting (e := .newArray elementType e) hx.covers rfl
      (converts_ofValue (converts_newArray _ _))
  | newObject typeName args =>
    rw [logged]
    refine .bind (spells_loggedArgs s 0 args) fun r names hr => ?_
    exact spells_noting (e := .newObject typeName args) hr
      (spells_ofValue (spells_newObject s _ _))

theorem spells_loggedArgs (s : Scope) (number : Nat) (es : List Expr) :
    (loggedArgs s number es : Op DebugError σ (List Value × List Evaluated)).Spells
      fun r names => Covers (es.zipIdx number) r.2 names := by
  cases es with
  | nil =>
    rw [loggedArgs]
    exact .pure covers_nil
  | cons e es =>
    rw [loggedArgs]
    refine .bind (spells_operand (spells_logged s e)) fun x names hx => ?_
    refine .bind (spells_loggedArgs s (number + 1) es) fun r names' hr => .pure ?_
    rw [List.append_nil]
    exact hx.covers.append hr

end

/-- What an evaluation does with the meaning of the expression. -/
def conclude (m : Meaning) : Op DebugError σ Evaluation := do
  let v ← asValue m
  return { value := v, display := ← Display.value v, typeName := v.typeName }

theorem converts_conclude (m : Meaning) : Converts (conclude m : Op DebugError σ Evaluation).run :=
  ((inspects_asValue m).op_bind fun v =>
    (Display.inspects_value v).op_bind fun _ => inspects_done _).converts

theorem meaning_of_conclude {m : Meaning} {x : σ} {vm : Vm} {r : Evaluation}
    (h : ((conclude m).run.run Vm.serve x vm).1 = .ok r) : m = .value r.value := by
  cases m with
  | type c => cases h
  | value v =>
    have hrun : (conclude (.value v) : Op DebugError σ Evaluation) = (do
        let d ← Display.value v
        return { value := v, display := d, typeName := v.typeName }) := rfl
    rw [hrun, Op.run_bind, Routine.run_bind] at h
    cases hd : ((Display.value v).run.run Vm.serve x vm).1 with
    | error err =>
      rw [hd] at h
      cases h
    | ok d =>
      rw [hd] at h
      cases h
      rfl

theorem evaluate_logged (s : Scope) (e : Expr) :
    (evaluate s e : Op DebugError σ Evaluation) =
      logged s e >>= fun r => conclude r.1 := by
  rw [evaluate, ← fst_logged, bind_map_left]
  rfl

/-- A successful evaluation runs the methods of the calls in its log in that order, and between them
only methods through which values convert. Every call of the expression is in the log, and once,
unless it is in a right operand of `&&` or `||` that the left one makes needless. The calls are in
the order of Java exactly if no call has calls in its receiver as well as in an argument: those in
the arguments come first. -/
theorem calls_inOrder_iff {s : Scope} {e : Expr} {x : σ} {vm : Vm} {r : Evaluation}
    (h : ((evaluate s e).run.run Vm.serve x vm).1 = .ok r) :
    ∃ l names, ((logged s e).run.run Vm.serve x vm).1 = .ok (.value r.value, l) ∧
      ((evaluate s e).run.run Vm.serve x vm).2.2.invocations = vm.invocations ++ names ∧
      Spelled (e.namesIn l) names ∧
      (e.callsIn l).Nodup ∧
      (∀ p, e.CallsAt p → (p ∈ e.callsIn l ↔ ¬e.Skips l p)) ∧
      ((e.callsIn l).Pairwise fun p q => p.precedes q ∨ e.Crosses p q) ∧
      ((e.callsIn l).Pairwise (fun p q => p.precedes q) ↔
        ∀ p ∈ e.callsIn l, ∀ q ∈ e.callsIn l, ¬e.Crosses p q) := by
  obtain ⟨m, l, hlog, hm⟩ : ∃ m l, ((logged s e).run.run Vm.serve x vm).1 = .ok (m, l) ∧
      m = .value r.value := by
    rw [evaluate_logged, Op.run_bind, Routine.run_bind] at h
    cases hlog : ((logged s e).run.run Vm.serve x vm).1 with
    | error err =>
      rw [hlog] at h
      cases h
    | ok p =>
      rw [hlog] at h
      exact ⟨p.1, p.2, rfl, meaning_of_conclude h⟩
  subst hm
  obtain ⟨names, hnames, htells, hspelled⟩ := spells_logged s e x vm _ hlog
  obtain ⟨names', hnames', hrest⟩ := (converts_conclude (.value r.value)).run
    ((logged s e).run.run Vm.serve x vm).2.1 ((logged s e).run.run Vm.serve x vm).2.2
  refine ⟨l, names ++ names', hlog, ?_, by simpa using hspelled.append hrest, ?_⟩
  · rw [evaluate_logged, Op.run_bind, Routine.run_bind, hlog]
    rw [← List.append_assoc, ← hnames, ← hnames']
  · refine ⟨htells.nodup.sublist List.filter_sublist, fun p hp => ?_, ?_, htells.inOrder_iff⟩
    · rw [Expr.callsIn, List.mem_filter, htells.mem_iff hp]
      simp [hp]
    · exact (htells.ordered.sublist List.filter_sublist).imp fun hpq =>
        hpq.symm.imp_left And.left

/-- A class with three methods, an object of it and a suspended thread. -/
def callSample : Vm :=
  let (c, vm) := Vm.addClass {} "app.Main" .classType none true
  let (_, vm) := vm.addMethod c "f" "()Lapp/Main;" false (some .receiver)
  let (_, vm) := vm.addMethod c "g" "(I)I" false (some (.argument 0))
  let (_, vm) := vm.addMethod c "h" "()I" false (some (.constant (.int 7)))
  let (_, vm) := vm.newObject c
  let (t, vm) := vm.addThread "main"
  vm.setSuspended t true

/-- In a frame of that object's. -/
def callScope : Scope := ⟨6, ⟨7, ⟨1, 1, 2, 0⟩⟩, [], some ⟨5, 1, "app.Main"⟩⟩

def nestedCall : Expr := .call none "g" [.call none "h" []]

def chainedCall : Expr := .call (some (.call none "f" [])) "g" [.call none "h" []]

theorem run_sample {α β : Type} {m : Op DebugError Unit α} {f : α → β} {b : β}
    (h : (m.run.run Vm.serve () callSample).1.toOption.map f = some b) :
    ∃ a, (m.run.run Vm.serve () callSample).1 = .ok a ∧ f a = b := by
  obtain ⟨a, ha, hb⟩ := Option.map_eq_some_iff.1 h
  cases hr : (m.run.run Vm.serve () callSample).1 with
  | error e =>
    rw [hr] at ha
    cases ha
  | ok a' =>
    rw [hr] at ha
    cases ha
    exact ⟨a, rfl, hb⟩

theorem calls_inOrder_nested :
    ∃ r l, ((evaluate callScope nestedCall).run.run Vm.serve () callSample).1 = .ok r ∧
      ((logged callScope nestedCall).run.run Vm.serve () callSample).1 = .ok (.value r.value, l) ∧
      (nestedCall.callsIn l).Pairwise fun p q => p.precedes q := by
  obtain ⟨r, hr, -⟩ := run_sample (m := evaluate callScope nestedCall) (f := Evaluation.value)
    (b := .int 7) (by decide +kernel)
  obtain ⟨l, names, hlog, -, -, -, -, -, hiff⟩ := calls_inOrder_iff hr
  obtain ⟨p, hp, hsites⟩ := run_sample (m := logged callScope nestedCall)
    (f := fun p => p.2.map Note.site) (b := [[0], []]) (by decide +kernel)
  rw [hlog] at hp
  cases hp
  have hcalls : nestedCall.callsIn l = [[0], []] := by
    rw [Expr.callsIn, hsites]
    decide
  refine ⟨r, l, hr, hlog, hiff.2 ?_⟩
  rw [hcalls]
  rintro p hp q - ⟨k, target, method, args, i, -, hpre, -⟩
  rcases List.mem_pair.1 hp with rfl | rfl <;> cases k <;> simp at hpre

/-- The method `h` that gives the argument runs before `f`, which gives the receiver. -/
theorem arguments_before_receiver :
    (∃ r, ((evaluate callScope chainedCall).run.run Vm.serve () callSample).1 = .ok r) ∧
      ((evaluate callScope chainedCall).run.run Vm.serve () callSample).2.2.invocations =
        ["h", "f", "g"] ∧
      ∃ m l, ((logged callScope chainedCall).run.run Vm.serve () callSample).1 = .ok (m, l) ∧
        ¬(chainedCall.callsIn l).Pairwise fun p q => p.precedes q := by
  obtain ⟨r, hr, -⟩ := run_sample (m := evaluate callScope chainedCall) (f := Evaluation.value)
    (b := .int 7) (by decide +kernel)
  obtain ⟨⟨m, l⟩, hlog, hsites⟩ := run_sample (m := logged callScope chainedCall)
    (f := fun p => p.2.map Note.site) (b := [[1], [0], []]) (by decide +kernel)
  refine ⟨⟨r, hr⟩, by decide +kernel, m, l, hlog, ?_⟩
  rw [Expr.callsIn, hsites]
  decide

end Scope

end JvmDebug
