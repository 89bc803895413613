import JvmDebug.Proofs.ParserRuns
import JvmDebug.Proofs.Scripts
import JvmDebug.Proofs.Wrapping

/-!
Chains of names that stand for nothing. What is reported about `a.b.c` or `a.b.c(...)` is decided by
the last name in front of `c` alone, although any of the later names may look like that of a class:
`Scope.qualifier_decides`.
-/
namespace JvmDebug

open Op

/-! ## Chains as texts -/

namespace Expr
open Grammar Text

def chain (first : String) (rest : List String) : Expr := rest.foldl .field (.name first)

variable {first : String} {rest : List String}

theorem chain_snoc (first : String) (rest : List String) (member : String) :
    chain first (rest ++ [member]) = .field (chain first rest) member := by
  rw [chain, List.foldl_append]
  rfl

theorem segments?_chain (first : String) (rest : List String) :
    (chain first rest).segments? = some (first :: rest) := by
  have hreverse : (chain first rest).reverseSegments? = some (first :: rest).reverse := by
    induction rest using List.reverseRecOn with
    | nil => rfl
    | append_singleton rest member ih =>
      rw [chain_snoc, reverseSegments?, ih, ← List.cons_append, List.reverse_append]
      rfl
  rw [segments?, hreverse, Option.map_some, List.reverse_reverse]

theorem sound_chain (kind : Literal → Prop) (hnames : ∀ n ∈ first :: rest, IsName n)
    (hfree : first ∉ reserved) : (chain first rest).Sound kind := by
  induction rest using List.reverseRecOn with
  | nil => exact .name (hnames first List.mem_cons_self) hfree
  | append_singleton rest member ih =>
    rw [chain_snoc]
    refine .field (ih fun n hn => hnames n ?_) (hnames member (by simp))
    rw [← List.cons_append]
    exact List.mem_append_left _ hn

theorem tokens_chain (first : String) (rest : List String) :
    (chain first rest).tokens = .word first :: rest.flatMap fun n => [.mark '.', .word n] := by
  induction rest using List.reverseRecOn with
  | nil => rfl
  | append_singleton rest member ih =>
    have hlevel : (chain first rest).level = 7 := by
      cases rest using List.reverseRecOn with
      | nil => rfl
      | append_singleton rest member => rw [chain_snoc]; rfl
    rw [chain_snoc, tokens, inPlace, if_neg (by omega), ih, List.flatMap_append]
    rfl

theorem toList_dotted (first : String) (rest : List String) :
    (".".intercalate (first :: rest)).toList = first.toList ++ qualifiers rest := by
  rw [String.toList_intercalate]
  induction rest generalizing first with
  | nil => simp [qualifiers]
  | cons n rest ih =>
    rw [List.map_cons, List.map_cons, List.intercalate_cons_cons, ← List.map_cons, ih n]
    simp [qualifiers]

/-- A token may follow at once, without blanks. -/
theorem laid_close {token : Token} {tokens : List Token} {text rest : List Char}
    (htext : token.Spelled text)
    (hapart : token.isWordOrNumber = true → startsWith isNamePart rest = false)
    (hrest : Grammar.Laid tokens rest) : Grammar.Laid (token :: tokens) (text ++ rest) :=
  @Grammar.Laid.cons [] token text tokens rest (by simp) htext hapart hrest

/-- The text of a chain is the names with dots between them. -/
theorem written_chain (hnames : ∀ n ∈ first :: rest, IsName n) :
    (chain first rest).Written (".".intercalate (first :: rest)) := by
  have hdots (names : List String) (hnames : ∀ n ∈ names, IsName n) :
      Grammar.Laid (names.flatMap fun n => [.mark '.', .word n]) (qualifiers names) ∧
        startsWith isNamePart (qualifiers names) = false := by
    induction names with
    | nil => exact ⟨@Grammar.Laid.nil [] (by simp), rfl⟩
    | cons n names ih =>
      rw [List.forall_mem_cons] at hnames
      obtain ⟨hlaid, hapart⟩ := ih hnames.2
      have hname := laid_close (.word hnames.1) (fun _ => hapart) hlaid
      have hdot := laid_close (.mark (by decide : '.' ∈ marks)) nofun hname
      exact ⟨hdot, rfl⟩
  rw [List.forall_mem_cons] at hnames
  obtain ⟨hlaid, hapart⟩ := hdots rest hnames.2
  rw [Written, tokens_chain, toList_dotted]
  exact laid_close (.word hnames.1) (fun _ => hapart) hlaid

theorem parse_dotted (hnames : ∀ n ∈ first :: rest, IsName n) (hfree : first ∉ reserved) :
    parse (".".intercalate (first :: rest)) = .ok (chain first rest) :=
  parse_of_written (sound_chain (fun _ => True) hnames hfree) (written_chain hnames)

end Expr

/-! ## Names that stand for nothing -/

namespace VmFrame

/-- The class whose fields a plain name may mean in the frame. -/
def fieldClass (d : VmFrame) : TypeId := (d.self.map ObjectRef.typeId).getD d.location.classId

def slotValue (d : VmFrame) (slot : UInt32) : Value :=
  ((d.locals.find? (·.1.slot == slot)).map Prod.snd).getD .void

/-- The frame as a debugger reads it. -/
def scope (d : VmFrame) (t : ThreadId) : Scope where
  thread := t
  frame := ⟨d.id, d.location⟩
  locals := d.locals.map fun p => (p.1, d.slotValue p.1.slot)
  self := d.self

/-- The name stands for no variable of the frame, for no field that can be read there without
naming an object or a class, and for no loaded class. -/
structure Unknown (d : VmFrame) (vm : Vm) (name : String) : Prop where
  locals : ∀ p ∈ d.locals, p.1.name ≠ name
  fields : ∀ f, vm.fieldNamed? d.fieldClass name = some f → d.self = none ∧ f.isStatic = false
  classes : vm.visible name = []
  standard : ¬Signature.isPrimitiveName name → vm.visible ("java.lang." ++ name) = []

variable {d : VmFrame} {vm vm' : Vm} {t : ThreadId} {name : String}

theorem Unknown.of_sameButHeap (h : d.Unknown vm name) (hvm : vm.SameButHeap vm') :
    d.Unknown vm' name := by
  have hclasses : vm'.classes = vm.classes := by rw [hvm]
  have hvisible (name : String) : vm'.visible name = vm.visible name := by
    rw [Vm.visible, Vm.visible, hclasses]
  refine ⟨h.locals, fun f hf => h.fields f ?_, ?_, ?_⟩
  · rwa [hvm.fieldNamed?] at hf
  · rw [hvisible, h.classes]
  · exact fun hname => (hvisible _).trans (h.standard hname)

end VmFrame

/-- No loaded class is spelled by the first two of the names or by more of them. -/
def Vm.NoPrefix (vm : Vm) (names : List String) : Prop :=
  ∀ k, 2 ≤ k → k ≤ names.length → vm.visible (".".intercalate (names.take k)) = []

namespace Scope
variable {σ : Type} {x : σ} {d : VmFrame} {vm vm' : Vm} {t : ThreadId}

theorem mapM_localIn {locals : List (Variable × Value)} {vs : List Variable}
    (hvs : ∀ v ∈ vs, ∃ p ∈ locals, p.1.slot = v.slot) :
    vs.mapM (Vm.localIn locals) = .ok (vs.map fun v =>
      ((locals.find? (·.1.slot == v.slot)).map Prod.snd).getD .void) := by
  induction vs with
  | nil => rfl
  | cons v vs ih =>
    rw [List.forall_mem_cons] at hvs
    obtain ⟨⟨p, hp, hslot⟩, hvs⟩ := hvs
    obtain ⟨q, hq⟩ : ∃ q, locals.find? (·.1.slot == v.slot) = some q :=
      Option.isSome_iff_exists.1 (List.find?_isSome.2 ⟨p, hp, by simp [hslot]⟩)
    have hlocal : Vm.localIn locals v = .ok q.2 := by
      simp only [Vm.localIn, hq]
    rw [List.mapM_cons, hlocal, ih hvs, List.map_cons, hq]
    rfl

theorem exec_read (hd : vm.frameOf t d.id = .ok d) :
    exec (read t ⟨d.id, d.location⟩ : Op DebugError σ Scope) x vm = (.ok (d.scope t), x, vm) := by
  have hvariables : exec (Op.call (.visibleVariables t ⟨d.id, d.location⟩) :
      Op DebugError σ (List Variable)) x vm = (.ok (d.locals.map Prod.fst), x, vm) := by
    show (Except.mapError _ ((vm.frameOf t d.id).map _), x, vm) = _
    rw [hd]
    rfl
  have hvalues : exec (Op.call (.localValues t ⟨d.id, d.location⟩ (d.locals.map Prod.fst)) :
      Op DebugError σ (List Value)) x vm =
        (.ok (d.locals.map fun p => d.slotValue p.1.slot), x, vm) := by
    show (Except.mapError _ ((vm.frameOf t d.id).bind _), x, vm) = _
    rw [hd]
    show (Except.mapError _ ((d.locals.map Prod.fst).mapM (Vm.localIn d.locals)), x, vm) = _
    rw [mapM_localIn fun v hv => ?_, List.map_map]
    · rfl
    · obtain ⟨p, hp, rfl⟩ := List.mem_map.1 hv
      exact ⟨p, hp, rfl⟩
  have hself : exec (Op.call (.thisObject t ⟨d.id, d.location⟩) :
      Op DebugError σ (Option ObjectRef)) x vm = (.ok d.self, x, vm) := by
    show (Except.mapError _ ((vm.frameOf t d.id).map _), x, vm) = _
    rw [hd]
    rfl
  have hzip : (d.locals.map Prod.fst).zip (d.locals.map fun p => d.slotValue p.1.slot) =
      d.locals.map fun p => (p.1, d.slotValue p.1.slot) := List.zip_map' ..
  simp only [read, exec_bind, hvariables]
  split
  · next hempty =>
    have hnil : d.locals = [] := by simpa using hempty
    simp only [exec_pure, exec_bind, hself, hnil, VmFrame.scope]
    rfl
  · simp only [hvalues, exec_pure, exec_bind, hself, hzip, VmFrame.scope]

theorem exec_findClass (name : String) :
    exec (findClass name : Op DebugError σ (Option TypeInfo)) x vm =
      (.ok (vm.visible name).head?, x, vm) := rfl

theorem exec_findField (c : TypeId) (name : String) :
    exec (findField c name : Op DebugError σ (Option Field)) x vm =
      (.ok (vm.fieldNamed? c name), x, vm) := rfl

theorem exec_lookupType {name : String} (h : d.Unknown vm name) :
    exec (lookupType name : Op DebugError σ (Option TypeInfo)) x vm = (.ok none, x, vm) := by
  simp only [lookupType, exec_bind, exec_findClass, h.classes, List.head?_nil]
  split
  · next hsimple =>
    have hname : ¬Signature.isPrimitiveName name := by
      rw [Bool.and_eq_true, Bool.not_eq_true'] at hsimple
      rw [Bool.not_eq_true, ← Bool.not_eq_true']
      exact hsimple.2
    rw [exec_findClass, h.standard hname, List.head?_nil]
  · rfl

theorem exec_resolveName {name : String} (h : d.Unknown vm name) :
    exec (resolveName (d.scope t) name : Op DebugError σ (Option Meaning)) x vm =
      (.ok none, x, vm) := by
  have hlocal : (d.scope t).locals.find? (·.1.name == name) = none := by
    simpa [VmFrame.scope] using h.locals
  have hself : (d.scope t).self = d.self := rfl
  have hplace : (d.scope t).frame.location.classId = d.location.classId := rfl
  simp only [resolveName, hlocal, hself, hplace]
  cases hd : d.self with
  | some self =>
    have hclass : d.fieldClass = self.typeId := by rw [VmFrame.fieldClass, hd]; rfl
    have hfield : vm.fieldNamed? self.typeId name = none := by
      refine Option.eq_none_iff_forall_not_mem.2 fun f hf => ?_
      have hstatic := (h.fields f (hclass ▸ hf)).1
      rw [hd] at hstatic
      cases hstatic
    simp only [exec_bind, exec_findField, hfield, exec_lookupType h]
    rfl
  | none =>
    have hclass : d.fieldClass = d.location.classId := by rw [VmFrame.fieldClass, hd]; rfl
    cases hfield : vm.fieldNamed? d.location.classId name with
    | none =>
      simp only [exec_bind, exec_findField, hfield, exec_lookupType h]
      rfl
    | some f =>
      have hinstance := (h.fields f (hclass ▸ hfield)).2
      simp only [exec_bind, exec_findField, hfield, hinstance, Bool.false_eq_true, if_false,
        exec_lookupType h]
      rfl

/-! ## Chains that stand for nothing -/

theorem exec_resolvePrefix {first : String} {rest : List String} (hfirst : d.Unknown vm first)
    (hunloaded : vm.NoPrefix (first :: rest)) {n : Nat} (hn : n ≤ (first :: rest).length) :
    exec (resolvePrefix (d.scope t) (first :: rest) n : Op DebugError σ (Option Meaning)) x vm =
      (.ok none, x, vm) := by
  induction n with
  | zero =>
    simp only [resolvePrefix, exec_bind, exec_resolveName hfirst]
    rfl
  | succ n ih =>
    cases n with
    | zero =>
      simp only [resolvePrefix, exec_bind, exec_resolveName hfirst]
      rfl
    | succ n =>
      rw [resolvePrefix]
      simp only [exec_bind, exec_findClass, hunloaded (n + 2) (by omega) hn, List.head?_nil]
      exact ih (by omega)

theorem exec_chainMeaning {first : String} {rest : List String} (hfirst : d.Unknown vm first)
    (hunloaded : vm.NoPrefix (first :: rest)) (blamed : List String) :
    exec (chainMeaning (d.scope t) (first :: rest) blamed : Op DebugError σ Meaning) x vm =
      (.error (unresolved blamed), x, vm) := by
  simp only [chainMeaning, resolveChain, exec_bind, exec_resolvePrefix hfirst hunloaded le_rfl]
  rfl

/-- The name starts like that of a class. -/
def looksLikeClass (name : String) : Bool := name.toList.head?.any Text.isCapital

theorem unresolved_cons (first : String) (rest : List String) :
    unresolved (first :: rest) =
      if looksLikeClass ((first :: rest).getLast (List.cons_ne_nil _ _)) then
        .classNotLoaded (".".intercalate (first :: rest))
      else .variableNotFound first := by
  simp only [unresolved, List.getLast?_eq_some_getLast (List.cons_ne_nil _ _), Option.any_some,
    List.head?_cons, Option.getD_some, looksLikeClass]
  rfl

theorem exec_evaluate {source : String} {e : Expr} (hd : vm.frameOf t d.id = .ok d)
    (hsource : parse source = .ok e) :
    exec (JvmDebug.evaluate t ⟨d.id, d.location⟩ source : Op DebugError σ Evaluation) x vm =
      exec ((d.scope t).evaluate e) x vm := by
  have hparse : exec (Op.ofExcept ((parse source).mapError .parse) : Op DebugError σ Expr) x vm =
      (.ok e, x, vm) := by
    rw [hsource]
    rfl
  simp only [JvmDebug.evaluate, exec_bind, hparse, exec_read hd]

theorem exec_evaluate_chain {first : String} {rest : List String} {member : String}
    (hd : vm.frameOf t d.id = .ok d)
    (hnames : ∀ n ∈ first :: (rest ++ [member]), Grammar.IsName n)
    (hfree : first ∉ Grammar.reserved) (hfirst : d.Unknown vm first)
    (hunloaded : vm.NoPrefix (first :: (rest ++ [member]))) :
    exec (JvmDebug.evaluate t ⟨d.id, d.location⟩ (".".intercalate (first :: (rest ++ [member]))) :
        Op DebugError σ Evaluation) x vm =
      (.error (unresolved (first :: rest)), x, vm) := by
  rw [exec_evaluate hd (Expr.parse_dotted hnames hfree), Expr.chain_snoc]
  have hsegments := Expr.segments?_chain first (rest ++ [member])
  rw [Expr.chain_snoc] at hsegments
  have hblamed : (first :: (rest ++ [member])).dropLast = first :: rest := by
    rw [← List.cons_append, List.dropLast_concat]
  simp only [evaluate, meaning, hsegments, exec_bind, exec_chainMeaning hfirst hunloaded, hblamed]

theorem exec_evaluate_call {first : String} {rest : List String} {member source : String}
    {args : List Expr} {vs : List Value} (hd : vm.frameOf t d.id = .ok d)
    (hsource : parse source = .ok (.call (some (Expr.chain first rest)) member args))
    (hargs : exec (values (d.scope t) args) x vm = (.ok vs, x, vm'))
    (hfirst : d.Unknown vm first) (hunloaded : vm.NoPrefix (first :: rest)) :
    exec (JvmDebug.evaluate t ⟨d.id, d.location⟩ source : Op DebugError σ Evaluation) x vm =
      (.error (unresolved (first :: rest)), x, vm') := by
  have hvm : vm.SameButHeap vm' := by
    have hkeeps : vm.SameButHeap (exec (values (d.scope t) args) x vm).2.2 :=
      (evaluates_values (d.scope t) args).run_surroundings (fun c vm hc => vm.answer_evaluates hc)
        (fun _ => .rfl) (fun _ _ _ => .trans) x vm
    rwa [hargs] at hkeeps
  have hunloaded' : vm'.NoPrefix (first :: rest) := by
    have hclasses : vm'.classes = vm.classes := by rw [hvm]
    intro k hk hlength
    rw [Vm.visible, hclasses]
    exact hunloaded k hk hlength
  rw [exec_evaluate hd hsource]
  simp only [evaluate, meaning, Expr.segments?_chain, exec_bind, hargs,
    exec_chainMeaning (hfirst.of_sameButHeap hvm) hunloaded']

/-- About a member of a chain that stands for nothing, or a call of one, is told what the name in
front of the member looks like: if it is that of a class, the class is not loaded, and otherwise the
first name is not known. The member and the names before do not count. -/
theorem qualifier_decides (hd : vm.frameOf t d.id = .ok d) {first : String} {rest : List String}
    {member : String} (hnames : ∀ n ∈ first :: (rest ++ [member]), Grammar.IsName n)
    (hfree : first ∉ Grammar.reserved) (hfirst : d.Unknown vm first) (x : σ) :
    let told : DebugError :=
      if looksLikeClass ((first :: rest).getLast (List.cons_ne_nil _ _)) then
        .classNotLoaded (".".intercalate (first :: rest))
      else .variableNotFound first
    (vm.NoPrefix (first :: (rest ++ [member])) →
      exec (JvmDebug.evaluate t ⟨d.id, d.location⟩ (".".intercalate (first :: (rest ++ [member]))) :
        Op DebugError σ Evaluation) x vm = (.error told, x, vm)) ∧
    (vm.NoPrefix (first :: rest) → ∀ source args vs vm',
      parse source = .ok (.call (some (Expr.chain first rest)) member args) →
      exec (values (d.scope t) args) x vm = (.ok vs, x, vm') →
      exec (JvmDebug.evaluate t ⟨d.id, d.location⟩ source : Op DebugError σ Evaluation) x vm =
        (.error told, x, vm')) := by
  intro told
  have htold : unresolved (first :: rest) = told := unresolved_cons first rest
  rw [← htold]
  refine ⟨exec_evaluate_chain hd hnames hfree hfirst, fun hunloaded source args vs vm' hs hargs => ?_⟩
  exact exec_evaluate_call hd hs hargs hfirst hunloaded

/-- A suspended thread in a static method without variables, and no class that is loaded. -/
def bareVm : Vm :=
  let (t, vm) := Vm.addThread {} "main"
  let (_, vm) := vm.addFrame t ⟨1, 7, 8, 0⟩ none []
  vm.setSuspended t true

def bareFrame : VmFrame := ⟨2, ⟨1, 7, 8, 0⟩, none, []⟩

theorem frameOf_bareVm : bareVm.frameOf 1 bareFrame.id = .ok bareFrame := by decide

theorem unknown_bareFrame (name : String) : bareFrame.Unknown bareVm name where
  locals p hp := absurd hp List.not_mem_nil
  fields f hf := by
    have hnone : bareVm.fieldNamed? bareFrame.fieldClass name = none := rfl
    rw [hnone] at hf
    cases hf
  classes := rfl
  standard _ := rfl

theorem noPrefix_bareVm (names : List String) : bareVm.NoPrefix names := fun _ _ _ => rfl

theorem qualifier_decides_missing :
    exec (JvmDebug.evaluate 1 ⟨2, ⟨1, 7, 8, 0⟩⟩ "com.foo.Bar.baz" : Op DebugError Unit Evaluation) ()
        bareVm = (.error (.classNotLoaded "com.foo.Bar"), (), bareVm) := by
  have hnames : ∀ n ∈ "com" :: (["foo", "Bar"] ++ ["baz"]), Grammar.IsName n := by decide
  exact (qualifier_decides frameOf_bareVm hnames (by decide) (unknown_bareFrame _) ()).1
    (noPrefix_bareVm _)

/-- A capital elsewhere than in front of the member goes unnoticed: `com.foo.Bar` is taken for a
member of a variable. -/
theorem not_any_capital_decides :
    ¬∀ (vm : Vm) (t : ThreadId) (d : VmFrame) (first : String) (rest : List String),
      vm.frameOf t d.id = .ok d → rest ≠ [] → (∀ n ∈ first :: rest, Grammar.IsName n) →
      first ∉ Grammar.reserved → d.Unknown vm first → vm.NoPrefix (first :: rest) →
      let told := (exec (JvmDebug.evaluate t ⟨d.id, d.location⟩ (".".intercalate (first :: rest)) :
        Op DebugError Unit Evaluation) () vm).1
      ((∃ n ∈ rest, looksLikeClass n) → ∃ name, told = .error (.classNotLoaded name)) ∧
        ((∀ n ∈ first :: rest, ¬looksLikeClass n) → told = .error (.variableNotFound first)) := by
  intro h
  have hnames : ∀ n ∈ "com" :: (["foo"] ++ ["Bar"]), Grammar.IsName n := by decide
  have htold := exec_evaluate_chain (x := ()) frameOf_bareVm hnames (by decide)
    (unknown_bareFrame "com") (noPrefix_bareVm _)
  obtain ⟨name, hname⟩ := (h bareVm 1 bareFrame "com" ["foo", "Bar"] frameOf_bareVm (by decide)
    hnames (by decide) (unknown_bareFrame "com") (noPrefix_bareVm _)).1 ⟨"Bar", by decide⟩
  have hfound := (congrArg Prod.fst htold).symm.trans hname
  rw [unresolved_cons, if_neg (by decide)] at hfound
  cases hfound

end Scope

end JvmDebug
