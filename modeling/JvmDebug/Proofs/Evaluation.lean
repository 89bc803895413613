import JvmDebug.Proofs.Inspection
import JvmDebug.Proofs.TargetCalls

/-!
Evaluating an expression may run code of the target and make objects in it. It neither files nor
deletes a request there, and leaves the session as it is. Of methods that the expression does not
call itself, only those run through which values convert.
-/
namespace JvmDebug

/-- The methods that box and unbox a value, and the one that gives the text of an object. -/
def Conversion.isMethod (name : String) : Bool :=
  name == "valueOf" || name == "toString" || wrappers.any fun p => name == p.1 ++ "Value"

theorem Conversion.isMethod_accessor {wrapper primitive : String}
    (h : unboxed? wrapper = some primitive) : isMethod (primitive ++ "Value") := by
  obtain ⟨p, hp, rfl⟩ := Option.map_eq_some_iff.1 h
  have hany : wrappers.any (fun q => p.1 ++ "Value" == q.1 ++ "Value") = true :=
    List.any_eq_true.2 ⟨p, List.mem_of_find?_eq_some hp, beq_self_eq_true _⟩
  rw [isMethod, hany, Bool.or_true]

/-- The call looks at the target, makes an object or converts a value. -/
def Call.converts : Call → Bool
  | createString _ | newArray .. => true
  | invokeStatic _ _ m _ | invokeInstance _ _ m _ => Conversion.isMethod m.name
  | c => c.inspects

def Call.evaluates : Call → Bool
  | createString _ | invokeStatic .. | invokeInstance .. | newInstance ..
  | newArray .. => true
  | c => c.inspects

theorem Call.converts_of_inspects {c : Call} (h : c.inspects) : c.converts := by
  cases c <;> simp_all [converts, inspects]

theorem Call.evaluates_of_converts {c : Call} (h : c.converts) : c.evaluates := by
  cases c <;> simp_all [converts, evaluates, inspects]

/-- Nothing in the expression makes an object or runs code of the target. -/
def Expr.looksOnly : Expr → Bool
  | literal (.string _) | call .. | cast .. | newObject .. | newArray .. => false
  | literal _ | name _ | this => true
  | field target _ => target.looksOnly
  | index array i => array.looksOnly && i.looksOnly
  | binary op left right => op != .add && left.looksOnly && right.looksOnly
  | unary _ operand | instanceOf operand _ => operand.looksOnly

/-! ## The books of the target -/

theorem Vm.answer_books (vm : Vm) {c : Call} (h : c.evaluates) :
    vm.SameBooks (vm.answer c).2 := by
  by_cases hi : c.inspects
  · rw [vm.answer_inspects hi]
    exact .rfl
  · cases c with
    | invokeStatic => exact (vm.invoke_ran _ _).toSameBooks
    | invokeInstance => exact (vm.invokeInstance_ran _ _ _ _).toSameBooks
    | newInstance => exact (vm.newInstance_ran _ _ _ _).toSameBooks
    | newArray =>
      simp only [answer, newArrayOf]
      repeat' split
      all_goals exact ⟨rfl, rfl⟩
    | createString => exact ⟨rfl, rfl⟩
    | _ => exact absurd h hi

def Routine.Evaluates {σ α : Type} (m : Task σ α) : Prop :=
  m.Within (fun c => c.evaluates) fun _ _ => False

def Routine.Converts {σ α : Type} (m : Task σ α) : Prop :=
  m.Within (fun c => c.converts) fun _ _ => False

namespace Routine
variable {σ α β ε : Type}

theorem Evaluates.bind {m : Task σ α} {g : α → Task σ β} (hm : Evaluates m)
    (hg : ∀ a, Evaluates (g a)) : Evaluates (bind m g) := within_bind hm hg

theorem Converts.bind {m : Task σ α} {g : α → Task σ β} (hm : Converts m)
    (hg : ∀ a, Converts (g a)) : Converts (bind m g) := within_bind hm hg

theorem evaluates_done (a : α) : Evaluates (done a : Task σ α) := trivial

theorem converts_done (a : α) : Converts (done a : Task σ α) := trivial

theorem Inspects.converts {m : Task σ α} (hm : Inspects m) : Converts m :=
  hm.mono (fun _ hc => Call.converts_of_inspects hc) fun _ _ hf => hf

theorem Converts.evaluates {m : Task σ α} (hm : Converts m) : Evaluates m :=
  hm.mono (fun _ hc => Call.evaluates_of_converts hc) fun _ _ hf => hf

theorem Inspects.evaluates {m : Task σ α} (hm : Inspects m) : Evaluates m := hm.converts.evaluates

theorem evaluates_attempt {c : Call} (h : c.evaluates) :
    Evaluates (Task.attempt c : Task σ c.Reply) := within_ask h

theorem converts_attempt {c : Call} (h : c.converts) :
    Converts (Task.attempt c : Task σ c.Reply) := within_ask h

theorem Evaluates.op_bind {m : Op ε σ α} {g : α → Op ε σ β} (hm : Evaluates m.run)
    (hg : ∀ a, Evaluates (g a).run) : Evaluates (m >>= g).run := Op.within_bind hm hg

theorem Converts.op_bind {m : Op ε σ α} {g : α → Op ε σ β} (hm : Converts m.run)
    (hg : ∀ a, Converts (g a).run) : Converts (m >>= g).run := Op.within_bind hm hg

theorem evaluates_call {c : Call} (h : c.evaluates) :
    Evaluates (Op.call c : Op DebugError σ c.Answer).run := Op.within_call h

theorem converts_call {c : Call} (h : c.converts) :
    Converts (Op.call c : Op DebugError σ c.Answer).run := Op.within_call h

theorem converts_ofExcept (r : Except ε α) : Converts (Op.ofExcept r : Op ε σ α).run := trivial

theorem Evaluates.lift {m : Task σ α} (hm : Evaluates m) :
    Evaluates (Op.lift m : Op ε σ α).run := Op.within_lift hm

theorem Inspects.lift {m : Task σ α} (hm : Inspects m) :
    Inspects (Op.lift m : Op ε σ α).run := Op.within_lift hm

theorem Converts.lift {m : Task σ α} (hm : Converts m) :
    Converts (Op.lift m : Op ε σ α).run := Op.within_lift hm

end Routine

open Routine

variable {σ : Type}

/-! ## Texts of values -/

namespace Display

theorem inspects_value (v : Value) : Inspects (value v : Op DebugError σ String).run := by
  cases v with
  | object o =>
    simp only [value]
    split
    · exact (inspects_call rfl).op_bind fun _ => inspects_done _
    · split
      · exact (inspects_call rfl).op_bind fun _ => inspects_done _
      · exact inspects_done _
  | _ => exact inspects_done _

theorem converts_objectText? (t : ThreadId) (o : ObjectRef) :
    Converts (objectText? t o : Task σ (Option String)) := by
  refine (converts_attempt rfl).bind fun methods => ?_
  split
  · split
    · next m hm =>
      have hname : (m.name == "toString") = true := by
        have := List.find?_some hm
        simp only [isToString, Bool.and_eq_true] at this
        exact this.1.1
      have hconverts : Conversion.isMethod m.name := by simp [Conversion.isMethod, hname]
      refine (converts_attempt (c := .invokeInstance t o m []) hconverts).bind fun r => ?_
      split
      · split
        · exact (converts_attempt rfl).bind fun _ => converts_done _
        · exact converts_done _
      · exact converts_done _
      · exact converts_done _
    · exact converts_done _
  · exact converts_done _

theorem converts_plain (t : ThreadId) (v : Value) :
    Converts (plain t v : Op DebugError σ String).run := by
  cases v with
  | object o =>
    simp only [plain]
    split
    · exact converts_call rfl
    · exact (converts_objectText? t o).lift.op_bind fun _ => converts_done _
  | _ => exact converts_done _

end Display

/-! ## Subtypes -/

namespace Subtype

theorem inspects_search (name : String) (visited : Visited) (queue : List (TypeId × TypeKind)) :
    Inspects (search name visited queue : Op DebugError σ Bool).run := by
  induction visited, queue using search.induct (σ := σ) name with
  | case1 visited =>
    rw [search]
    exact inspects_done _
  | case2 visited c kind queue h ih =>
    rw [search, dif_pos h]
    exact ih
  | case3 visited c kind queue h hkind ih | case4 visited c kind queue h hkind ih =>
    rw [search, dif_neg h]
    extract_lets rest
    have hrest (above : Option TypeInfo) : Inspects (rest above).run := by
      unfold rest
      split
      · exact inspects_done _
      · refine (inspects_call rfl).op_bind fun interfaces => ?_
        split
        · exact inspects_done _
        · exact ih above interfaces
    by_cases hclass : (kind == .classType) = true
    · rw [if_pos hclass]
      exact (inspects_call rfl).op_bind hrest
    · rw [if_neg hclass]
      exact (inspects_done _).op_bind hrest

theorem inspects_holds (o : ObjectRef) (name : String) :
    Inspects (holds o name : Op DebugError σ Bool).run := by
  simp only [holds]
  split
  · exact inspects_done _
  · split
    · exact inspects_done _
    · exact inspects_search _ _ _

end Subtype

/-! ## Evaluation in a frame -/

namespace Scope

theorem converts_fail {α : Type} (text : String) :
    Converts (fail text : Op DebugError σ α).run := converts_done _

theorem inspects_read (t : ThreadId) (f : Frame) :
    Inspects (read t f : Op DebugError σ Scope).run := by
  refine (inspects_call rfl).op_bind fun locals => ?_
  extract_lets rest
  have hrest (values : List Value) : Inspects (rest values).run :=
    (inspects_call rfl).op_bind fun _ => inspects_done _
  split
  · exact (inspects_done _).op_bind hrest
  · exact (inspects_call rfl).op_bind hrest

theorem inspects_findField (c : TypeId) (name : String) :
    Inspects (findField c name : Op DebugError σ (Option Field)).run :=
  (inspects_call rfl).op_bind fun _ => inspects_done _

theorem inspects_readField (o : ObjectRef) (f : Field) :
    Inspects (readField o f : Op DebugError σ Value).run := by
  simp only [readField]
  split <;> exact inspects_call rfl

theorem inspects_findClass (name : String) :
    Inspects (findClass name : Op DebugError σ (Option TypeInfo)).run :=
  (inspects_call rfl).op_bind fun _ => inspects_done _

theorem inspects_lookupType (name : String) :
    Inspects (lookupType name : Op DebugError σ (Option TypeInfo)).run := by
  refine (inspects_findClass name).op_bind fun c => ?_
  split
  · exact inspects_done _
  · split
    · exact inspects_findClass _
    · exact inspects_done _

theorem inspects_resolveName (s : Scope) (name : String) :
    Inspects (resolveName s name : Op DebugError σ (Option Meaning)).run := by
  have htype : Inspects (do return (← lookupType name).map .type :
      Op DebugError σ (Option Meaning)).run :=
    (inspects_lookupType name).op_bind fun _ => inspects_done _
  simp only [resolveName]
  split
  · exact inspects_done _
  · split
    · refine (inspects_findField _ _).op_bind fun f => ?_
      split
      · exact (inspects_readField _ _).op_bind fun _ => inspects_done _
      · exact htype
    · refine (inspects_findField _ _).op_bind fun f => ?_
      split
      · split
        · exact (inspects_call rfl).op_bind fun _ => inspects_done _
        · exact htype
      · exact htype

theorem inspects_member (base : Meaning) (name : String) :
    Inspects (member base name : Op DebugError σ Meaning).run := by
  simp only [member]
  split
  · refine (inspects_findField _ _).op_bind fun f => ?_
    split
    · split
      · exact inspects_done _
      · exact (inspects_call rfl).op_bind fun _ => inspects_done _
    · exact inspects_done _
  · split
    · exact (inspects_call rfl).op_bind fun _ => inspects_done _
    · refine (inspects_findField _ _).op_bind fun f => ?_
      split
      · exact (inspects_readField _ _).op_bind fun _ => inspects_done _
      · exact inspects_done _
  · exact inspects_done _
  · exact inspects_done _

theorem inspects_members (base : Meaning) (names : List String) :
    Inspects (members base names : Op DebugError σ Meaning).run := by
  induction names generalizing base with
  | nil => exact inspects_done _
  | cons name names ih => exact (inspects_member base name).op_bind fun _ => ih _

theorem inspects_resolvePrefix (s : Scope) (names : List String) (n : Nat) :
    Inspects (resolvePrefix s names n : Op DebugError σ (Option Meaning)).run := by
  have hfirst : Inspects (resolvePrefix s names 0 : Op DebugError σ (Option Meaning)).run := by
    cases names with
    | nil => exact inspects_done _
    | cons name rest =>
      refine (inspects_resolveName s _).op_bind fun root => ?_
      split
      · exact (inspects_members _ _).op_bind fun _ => inspects_done _
      · exact inspects_done _
  induction n with
  | zero => exact hfirst
  | succ n ih =>
    cases n with
    | zero => exact hfirst
    | succ n =>
      refine (inspects_findClass _).op_bind fun c => ?_
      split
      · exact (inspects_members _ _).op_bind fun _ => inspects_done _
      · exact ih

theorem inspects_chainMeaning (s : Scope) (names blamed : List String) :
    Inspects (chainMeaning s names blamed : Op DebugError σ Meaning).run := by
  refine (inspects_resolvePrefix s names _).op_bind fun m => ?_
  split <;> exact inspects_done _

/-! ## Calls -/

theorem inspects_assignable (v : Value) (typeName : String) :
    Inspects (assignable v typeName : Op DebugError σ Bool).run := by
  simp only [assignable]
  split
  · exact inspects_done _
  · exact inspects_done _
  · split
    · exact inspects_done _
    · exact Subtype.inspects_holds _ _
  · split <;> exact inspects_done _

theorem inspects_allAssignable (pairs : List (Value × String)) :
    Inspects (allAssignable pairs : Op DebugError σ Bool).run := by
  induction pairs with
  | nil => exact inspects_done _
  | cons p pairs ih =>
    refine (inspects_assignable _ _).op_bind fun fits => ?_
    split
    · exact ih
    · exact inspects_done _

theorem inspects_selectOverload (args : List Value) (methods : List Method) :
    Inspects (selectOverload args methods : Op DebugError σ (Option Method)).run := by
  induction methods with
  | nil => exact inspects_done _
  | cons m rest ih =>
    simp only [selectOverload]
    split
    · refine (inspects_allAssignable _).op_bind fun fits => ?_
      split
      · exact inspects_done _
      · exact ih
    · exact ih

theorem inspects_returned (o : Outcome) :
    Inspects (returned o : Op DebugError σ Value).run := by
  cases o with
  | returned v => exact inspects_done _
  | threw e =>
    exact (inspects_exceptionMessage e).lift.op_bind fun _ => inspects_done _

theorem converts_unbox (s : Scope) (o : ObjectRef) :
    Converts (unbox s o : Op DebugError σ Value).run := by
  simp only [unbox]
  split
  · next primitive hprimitive =>
    refine (converts_call rfl).op_bind fun methods => ?_
    split
    · next m hm =>
      have hname : m.name = primitive ++ "Value" := by
        have := List.find?_some hm
        simp only [Bool.and_eq_true, beq_iff_eq] at this
        exact this.1.1
      have hconverts : Conversion.isMethod m.name := by
        rw [hname]
        exact Conversion.isMethod_accessor hprimitive
      exact (converts_call (c := .invokeInstance s.thread o m []) hconverts).op_bind fun _ =>
        (inspects_returned _).converts
    · exact converts_done _
  · exact converts_fail _

theorem converts_box (s : Scope) (v : Value) :
    Converts (box s v : Op DebugError σ Value).run := by
  simp only [box]
  split
  · refine (inspects_findClass _).converts.op_bind fun c => ?_
    split
    · refine (converts_call rfl).op_bind fun methods => ?_
      split
      · next m hm =>
        have hname : (m.name == "valueOf") = true := by
          have := List.find?_some hm
          simp only [Bool.and_eq_true] at this
          exact this.1.1
        have hconverts : Conversion.isMethod m.name := by simp [Conversion.isMethod, hname]
        exact (converts_call (c := .invokeStatic s.thread _ m [v]) hconverts).op_bind fun _ =>
          (inspects_returned _).converts
      · exact converts_done _
    · exact converts_done _
  · exact converts_fail _

theorem converts_coerce (s : Scope) (v : Value) (typeName : String) :
    Converts (coerce s v typeName : Op DebugError σ Value).run := by
  simp only [coerce]
  split
  · split
    · refine (converts_unbox s _).op_bind fun r => ?_
      split
      · exact converts_done _
      · exact converts_fail _
    · exact converts_done _
  · exact converts_done _
  · exact converts_done _
  · split
    · split
      · exact converts_done _
      · exact converts_fail _
    · exact converts_box s _

theorem converts_coerceAll (s : Scope) (pairs : List (Value × String)) :
    Converts (coerceAll s pairs : Op DebugError σ (List Value)).run := by
  induction pairs with
  | nil => exact converts_done _
  | cons p pairs ih =>
    exact (converts_coerce s _ _).op_bind fun _ => ih.op_bind fun _ => converts_done _

theorem converts_assign (s : Scope) (v : Value) (typeName : String) :
    Converts (assign s v typeName : Op DebugError σ Value).run := by
  refine (inspects_assignable _ _).converts.op_bind fun fits => ?_
  split
  · exact converts_coerce s _ _
  · exact converts_fail _

theorem evaluates_callInstance (s : Scope) (o : ObjectRef) (name : String) (args : List Value) :
    Evaluates (callInstance s o name args : Op DebugError σ Value).run := by
  refine (evaluates_call rfl).op_bind fun methods => ?_
  refine (inspects_selectOverload _ _).evaluates.op_bind fun m => ?_
  split
  · refine (converts_coerceAll s _).evaluates.op_bind fun args => ?_
    split <;> exact (evaluates_call rfl).op_bind fun _ => (inspects_returned _).evaluates
  · exact evaluates_done _

theorem evaluates_callStatic (s : Scope) (c : TypeId) (className name : String)
    (args : List Value) :
    Evaluates (callStatic s c className name args : Op DebugError σ Value).run := by
  refine (evaluates_call rfl).op_bind fun methods => ?_
  refine (inspects_selectOverload _ _).evaluates.op_bind fun m => ?_
  split
  · split
    · exact (converts_fail _).evaluates
    · refine (converts_coerceAll s _).evaluates.op_bind fun args => ?_
      exact (evaluates_call rfl).op_bind fun _ => (inspects_returned _).evaluates
  · exact evaluates_done _

theorem evaluates_callUnqualified (s : Scope) (name : String) (args : List Value) :
    Evaluates (callUnqualified s name args : Op DebugError σ Value).run := by
  simp only [callUnqualified]
  split
  · exact evaluates_callInstance s _ _ _
  · exact (evaluates_attempt rfl).lift.op_bind fun _ => evaluates_callStatic s _ _ _ _

theorem evaluates_callOn (s : Scope) (receiver : Meaning) (name : String) (args : List Value) :
    Evaluates (callOn s receiver name args : Op DebugError σ Value).run := by
  simp only [callOn]
  split
  · exact evaluates_callStatic s _ _ _ _
  · exact evaluates_callInstance s _ _ _
  · exact (converts_fail _).evaluates
  · exact (converts_fail _).evaluates

/-! ## Operations -/

theorem inspects_element (array index : Value) :
    Inspects (element array index : Op DebugError σ Value).run := by
  unfold element
  extract_lets refuse rest
  have hrest (a : ObjectRef) : Inspects (rest a).run := by
    unfold rest
    split
    · refine (inspects_call rfl).op_bind fun n => ?_
      split
      · exact (inspects_done _).op_bind fun _ => inspects_call rfl
      · exact inspects_call rfl
    · exact inspects_done _
  split
  · split
    · exact (inspects_done _).op_bind hrest
    · exact (inspects_done _).op_bind hrest
  · exact (inspects_done _).op_bind hrest
  · exact (inspects_done _).op_bind hrest

theorem converts_concatenate (s : Scope) (left right : Value) :
    Converts (concatenate s left right : Op DebugError σ Value).run :=
  (Display.converts_plain _ _).op_bind fun _ => (Display.converts_plain _ _).op_bind fun _ =>
    (converts_call rfl).op_bind fun _ => converts_done _

theorem inspects_boolean (symbol : String) (v : Value) :
    Inspects (boolean symbol v : Op DebugError σ Bool).run := by
  cases v <;> exact inspects_done _

theorem converts_cast (s : Scope) (v : Value) (typeName : String) :
    Converts (cast s v typeName : Op DebugError σ Value).run := by
  unfold cast
  extract_lets refuse rest
  have hrest (v : Value) : Converts (rest v).run := by
    unfold rest
    split
    · exact converts_done _
    · exact converts_fail _
  split
  · split
    · split
      · exact (converts_unbox s _).op_bind hrest
      · exact (converts_done _).op_bind hrest
    · exact (converts_done _).op_bind hrest
  · split
    · exact converts_done _
    · exact converts_done _
    · split
      · exact converts_box s _
      · exact converts_fail _

theorem inspects_instanceOf (v : Value) (typeName : String) :
    Inspects (instanceOf v typeName : Op DebugError σ Bool).run := by
  simp only [instanceOf]
  split
  · exact inspects_done _
  · refine (inspects_lookupType _).op_bind fun c => ?_
    split
    · exact Subtype.inspects_holds _ _
    · exact inspects_done _
  · exact inspects_done _

theorem evaluates_newObject (s : Scope) (typeName : String) (args : List Value) :
    Evaluates (newObject s typeName args : Op DebugError σ Value).run := by
  refine (inspects_lookupType _).evaluates.op_bind fun c => ?_
  split
  · split
    · exact (converts_fail _).evaluates
    · refine (evaluates_call rfl).op_bind fun methods => ?_
      refine (inspects_selectOverload _ _).evaluates.op_bind fun m => ?_
      split
      · refine (converts_coerceAll s _).evaluates.op_bind fun args => ?_
        exact (evaluates_call rfl).op_bind fun _ => (inspects_returned _).evaluates
      · exact evaluates_done _
  · exact evaluates_done _

theorem converts_newArray (elementType : String) (size : Value) :
    Converts (newArray elementType size : Op DebugError σ Value).run := by
  unfold newArray
  split
  · extract_lets rest make
    have hrest (element : String) : Converts (rest element).run := by
      refine (inspects_findClass _).converts.op_bind fun c => ?_
      split
      · exact (converts_call rfl).op_bind fun _ => converts_done _
      · exact converts_done _
    have hmake (u : Unit) : Converts (make u).run := by
      unfold make
      split
      · exact (converts_done _).op_bind hrest
      · exact (inspects_lookupType _).converts.op_bind fun _ => (converts_done _).op_bind hrest
    split
    · exact (converts_fail _).op_bind hmake
    · exact hmake ()
  · exact converts_fail _

theorem converts_literal (l : Literal) :
    Converts (literal l : Op DebugError σ Value).run := by
  cases l with
  | string text => exact (converts_call rfl).op_bind fun _ => converts_done _
  | _ => exact converts_done _

theorem inspects_asValue (m : Meaning) : Inspects (asValue m : Op DebugError σ Value).run := by
  cases m <;> exact inspects_done _

/-! ## Expressions -/

theorem eq_add_of_form {op : BinaryOp} (h : op.form = .compute .add) : op = .add := by
  cases op with
  | add => rfl
  | _ => cases h

/-! In what follows `P` holds of the calls that may be made: those that look at the target and,
unless an expression only looks, all others that its evaluation could make. -/

section
variable {P : Call → Prop} (hlook : ∀ c : Call, c.inspects → P c)
include hlook

theorem within_looking {α : Type} {m : Task σ α} (hm : Inspects m) :
    m.Within P fun _ _ => False := hm.mono hlook fun _ _ => id

theorem within_operand {m : Op DebugError σ Meaning} {g : Value → Op DebugError σ Meaning}
    (hm : m.run.Within P fun _ _ => False) (hg : ∀ v, (g v).run.Within P fun _ _ => False) :
    (m >>= fun x => asValue x >>= g).run.Within P fun _ _ => False :=
  Op.within_bind hm fun x => Op.within_bind (within_looking hlook (inspects_asValue x)) hg

theorem within_binary (s : Scope) {op : BinaryOp}
    (hmake : op ≠ .add ∨ ∀ c : Call, c.evaluates → P c) (left : Value)
    {right : Op DebugError σ Value} (hright : right.run.Within P fun _ _ => False) :
    (binary s op left right).run.Within P fun _ _ => False := by
  have hboolean (v : Value) :
      (boolean op.symbol v : Op DebugError σ Bool).run.Within P fun _ _ => False :=
    within_looking hlook (inspects_boolean _ v)
  have hlast : (do return .boolean (← boolean op.symbol (← right)) :
      Op DebugError σ Value).run.Within P fun _ _ => False :=
    Op.within_bind hright fun r => Op.within_bind (hboolean r) fun _ => trivial
  simp only [binary]
  split
  · refine Op.within_bind (hboolean left) fun done => ?_
    split
    · trivial
    · exact hlast
  · refine Op.within_bind (hboolean left) fun goesOn => ?_
    split
    · exact hlast
    · trivial
  · exact Op.within_bind hright fun _ => trivial
  · exact Op.within_bind hright fun _ => trivial
  · next a hform =>
    refine Op.within_bind hright fun r => ?_
    split
    · next hadd =>
      obtain rfl := eq_of_beq (Bool.and_eq_true_iff.1 hadd).1
      have hmake := hmake.resolve_left fun hop => hop (eq_add_of_form hform)
      exact (converts_concatenate s _ _).evaluates.mono hmake fun _ _ => id
    · trivial

mutual

theorem within_meaning (s : Scope) (e : Expr)
    (hmake : e.looksOnly ∨ ∀ c : Call, c.evaluates → P c) :
    (meaning s e : Op DebugError σ Meaning).run.Within P fun _ _ => False := by
  have hvalue {m : Op DebugError σ Value} (hm : m.run.Within P fun _ _ => False) :
      (ofValue m).run.Within P fun _ _ => False := Op.within_bind hm fun _ => trivial
  have hrun {m : Op DebugError σ Value} (h : ¬e.looksOnly) (hm : Evaluates m.run) :
      m.run.Within P fun _ _ => False := hm.mono (hmake.resolve_left h) fun _ _ => id
  cases e with
  | literal l =>
    rw [meaning]
    cases l with
    | string text => exact hvalue (hrun Bool.false_ne_true (converts_literal _).evaluates)
    | _ => trivial
  | this =>
    rw [meaning]
    split <;> trivial
  | name text =>
    rw [meaning]
    refine Op.within_bind (within_looking hlook (inspects_resolveName s _)) fun m => ?_
    split <;> trivial
  | field target name =>
    rw [meaning]
    split
    · exact within_looking hlook (inspects_chainMeaning s _ _)
    · exact Op.within_bind (within_meaning s target hmake) fun _ =>
        within_looking hlook (inspects_member _ _)
  | call target method args =>
    -- here, and with casts and `new`, the expression does more than to look, so all calls may be made
    have hargs := within_values s args (hmake.resolve_left Bool.false_ne_true)
    cases target with
    | none =>
      rw [meaning]
      exact Op.within_bind hargs fun _ =>
        hvalue (hrun Bool.false_ne_true (evaluates_callUnqualified s _ _))
    | some target =>
      rw [meaning]
      refine Op.within_bind hargs fun args => ?_
      extract_lets rest
      have hrest (receiver : Meaning) : (rest receiver).run.Within P fun _ _ => False :=
        hvalue (hrun Bool.false_ne_true (evaluates_callOn s _ _ _))
      split
      · exact Op.within_bind (within_looking hlook (inspects_chainMeaning s _ _)) hrest
      · exact Op.within_bind
          (within_meaning s target (.inr (hmake.resolve_left Bool.false_ne_true))) hrest
  | index array index =>
    simp only [Expr.looksOnly, Bool.and_eq_true] at hmake
    rw [meaning]
    refine within_operand hlook (within_meaning s array (hmake.imp_left And.left)) fun a => ?_
    refine within_operand hlook (within_meaning s index (hmake.imp_left And.right)) fun i => ?_
    exact hvalue (within_looking hlook (inspects_element _ _))
  | binary op left right =>
    simp only [Expr.looksOnly, Bool.and_eq_true, bne_iff_ne] at hmake
    rw [meaning]
    refine within_operand hlook (within_meaning s left (hmake.imp_left (·.1.2))) fun l => ?_
    refine hvalue (within_binary hlook s (hmake.imp_left (·.1.1)) l ?_)
    exact Op.within_bind (within_meaning s right (hmake.imp_left And.right)) fun r =>
      within_looking hlook (inspects_asValue r)
  | unary op operand =>
    rw [meaning]
    exact within_operand hlook (within_meaning s operand hmake) fun v => hvalue trivial
  | cast typeName operand =>
    rw [meaning]
    refine within_operand hlook
      (within_meaning s operand (.inr (hmake.resolve_left Bool.false_ne_true))) fun v => ?_
    exact hvalue (hrun Bool.false_ne_true (converts_cast s _ _).evaluates)
  | instanceOf operand typeName =>
    rw [meaning]
    refine within_operand hlook (within_meaning s operand hmake) fun v => ?_
    exact Op.within_bind (within_looking hlook (inspects_instanceOf _ _)) fun _ => trivial
  | newObject typeName args =>
    rw [meaning]
    refine Op.within_bind (within_values s args (hmake.resolve_left Bool.false_ne_true)) fun _ => ?_
    exact hvalue (hrun Bool.false_ne_true (evaluates_newObject s _ _))
  | newArray elementType size =>
    rw [meaning]
    refine within_operand hlook
      (within_meaning s size (.inr (hmake.resolve_left Bool.false_ne_true))) fun n => ?_
    exact hvalue (hrun Bool.false_ne_true (converts_newArray _ _).evaluates)

theorem within_values (s : Scope) (es : List Expr) (hmake : ∀ c : Call, c.evaluates → P c) :
    (values s es : Op DebugError σ (List Value)).run.Within P fun _ _ => False := by
  cases es with
  | nil =>
    rw [values]
    trivial
  | cons e es =>
    rw [values]
    refine Op.within_bind (within_meaning s e (.inr hmake)) fun m => ?_
    refine Op.within_bind (within_looking hlook (inspects_asValue m)) fun v => ?_
    exact Op.within_bind (within_values s es hmake) fun _ => trivial

end

theorem within_evaluate (s : Scope) (e : Expr)
    (hmake : e.looksOnly ∨ ∀ c : Call, c.evaluates → P c) :
    (evaluate s e : Op DebugError σ Evaluation).run.Within P fun _ _ => False := by
  refine Op.within_bind (within_meaning hlook s e hmake) fun m => ?_
  refine within_looking hlook ((inspects_asValue m).op_bind fun v => ?_)
  exact (Display.inspects_value v).op_bind fun _ => inspects_done _

end

theorem evaluates_evaluate (s : Scope) (e : Expr) :
    Evaluates (evaluate s e : Op DebugError σ Evaluation).run :=
  within_evaluate (fun _ h => Call.evaluates_of_converts (Call.converts_of_inspects h)) s e
    (.inr fun _ => id)

theorem evaluates_values (s : Scope) (es : List Expr) :
    Evaluates (values s es : Op DebugError σ (List Value)).run :=
  within_values (fun _ h => Call.evaluates_of_converts (Call.converts_of_inspects h)) s es
    fun _ => id

theorem inspects_evaluate (s : Scope) {e : Expr} (h : e.looksOnly) :
    Inspects (evaluate s e : Op DebugError σ Evaluation).run :=
  within_evaluate (fun _ => id) s e (.inl h)

end Scope

end JvmDebug
