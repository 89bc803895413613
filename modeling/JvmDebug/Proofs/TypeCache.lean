import JvmDebug.Proofs.KnownTypes

/-!
The type cache of a target. What a target with a past answers is what a new one on the same machine
would answer, with each type shown as the target remembers it: main result
`Work.answers_as_remembered`.
-/
namespace JvmDebug

/-! ## Histories -/

/-- The type whose kind the call guesses if it is not known yet. -/
def Call.guessed? : Call → Option TypeId
  | place l => some l.classId
  | lineLocations c _ => some c
  | methodEntry m => some m.declaringType
  | _ => none

namespace Wire
variable {ω : Type} {serve : (c : Command) → ω → c.Reply × ω} {d : Classes}

/-- A use of a target: a call of the debugger, or a set of events that is converted for it. -/
inductive Use
  | call (c : Call)
  | events (set : WireEventSet)
  deriving DecidableEq

def Use.work : Use → Work Unit
  | call c => (fun _ => ()) <$> Work.answer c
  | events set => (fun _ => ()) <$> Work.eventSet set

/-- A target and its machine after some uses. -/
def Use.after (serve : (c : Command) → ω → c.Reply × ω) (uses : List Use) (s : TargetState)
    (x : ω) : TargetState × ω :=
  uses.foldl (fun (s, x) u => ((ExceptT.run u.work).run serve s x).2) (s, x)

/-- How what a target remembers about a type came about. Its name is the usual one, or another under
which it was asked for; its kind is its own, or it is an interface that was taken for a class when
its code was asked for. -/
def Classes.Explained (d : Classes) (uses : List Use) (info : TypeInfo) : Prop :=
  ∃ signature, d.reply (.signature info.id) = .ok signature ∧
    (info.name = Signature.toTypeName signature ∨
      Signature.ofTypeName info.name = signature ∧ Use.call (.classesByName info.name) ∈ uses) ∧
    (info.kind = d.kind info.id ∨
      info.kind = .classType ∧ d.kind info.id = .interface ∧
        ∃ c, Use.call c ∈ uses ∧ c.guessed? = some info.id)

namespace Classes

theorem explained_of_exact {uses : List Use} {info : TypeInfo} (h : d.Exact info) :
    d.Explained uses info := by
  obtain ⟨signature, hsignature, hname, hkind⟩ := h
  exact ⟨signature, hsignature, .inl hname, .inl hkind⟩

theorem explained_of_guess (h : d.ServedBy serve) {uses : List Use} {c : Call} {id : TypeId}
    (hc : Use.call c ∈ uses) (hid : c.guessed? = some id) {info : TypeInfo}
    (hinfo : d.learn id none = .ok info) : d.Explained uses info := by
  by_cases hinterface : d.kind id = .interface
  · obtain ⟨signature, hsignature, rfl⟩ := learn_ok hinfo
    have hclass : isArraySignature signature = false := by
      rw [Bool.eq_false_iff]
      intro hyes
      have := (h.array id signature hsignature).1 hyes
      rw [hinterface] at this
      cases this
    refine ⟨signature, hsignature, .inl rfl, .inr ⟨?_, hinterface, c, hc, hid⟩⟩
    simp only [hclass, Option.getD_none, Bool.false_eq_true, if_false]
  · exact explained_of_exact (h.exact_of_learn hinfo rfl fun _ => hinterface)

theorem explained_of_listed (h : d.ServedBy serve) {uses : List Use} {name : String}
    (hname : Use.call (.classesByName name) ∈ uses) {found : List LoadedType}
    (hfound : d.reply (.classesBySignature (Signature.ofTypeName name)) = .ok found)
    {t : LoadedType} (ht : t ∈ found) : d.Explained uses ⟨t.id, name, TypeKind.ofTag t.tag⟩ := by
  obtain ⟨hsignature, hkind⟩ := h.listed _ found hfound t ht
  exact ⟨_, hsignature, .inr ⟨rfl, hname⟩, .inl hkind⟩

end Classes

theorem Work.keeps_answer (h : d.ServedBy serve) {uses : List Use} {c : Call}
    (hc : Use.call c ∈ uses) :
    (answer c).Keeps serve d (d.Explained uses) fun _ => True := by
  have hexact : ∀ info, d.Exact info → d.Explained uses info := fun _ =>
    Classes.explained_of_exact
  have hguess {id : TypeId} (hid : c.guessed? = some id) (info : TypeInfo)
      (hinfo : d.learn id none = .ok info) : d.Explained uses info :=
    Classes.explained_of_guess h hc hid hinfo
  cases c with
  | version => exact (keeps_ask .version).bind fun _ _ => keeps_pure trivial
  | allThreads => exact (keeps_ask .allThreads).bind fun _ _ => keeps_threadInfos _
  | thread t => exact keeps_threadInfo t
  | suspendThread | resumeThread | frames | setLocalValue => exact (keeps_askThread _ _).any
  | suspendAll | resumeAll | setField | arrayLength | stringValue => exact (keeps_ask _).any
  | place l => exact (keeps_place h (hguess rfl)).any
  | visibleVariables t f => exact keeps_visibleVariables f
  | localValues t f vs =>
    simp only [answer]
    split
    · exact keeps_pure trivial
    · exact (keeps_askThread _ _).bind fun _ _ => keeps_values h hexact _
  | thisObject t f =>
    exact (keeps_askThread t (.thisObject t f.id)).bind fun this _ =>
      (keeps_object? h hexact this.id).any
  | classesByName name =>
    exact keeps_classesByName h fun found hfound t ht => Classes.explained_of_listed h hc hfound ht
  | superclass c => exact (keeps_superclass h hexact c).any
  | interfaces c => exact (keeps_interfaces h hexact c).any
  | methods c => exact keeps_methodsFrom h chainLimit c true []
  | fields c => exact keeps_fieldsFrom chainLimit c []
  | lineLocations c line => exact (keeps_lineLocations h line (hguess rfl)).any
  | methodEntry m => exact (keeps_methodEntry h (hguess rfl)).any
  | getField | getStaticField => exact (keeps_ask _).bind fun _ _ => keeps_firstValue h hexact _
  | arrayGet a i =>
    exact (keeps_checkIndex a i).bind fun _ _ => (keeps_ask _).bind fun _ _ =>
      keeps_firstValue h hexact _
  | arraySet a i x => exact (keeps_checkIndex a i).bind fun _ _ => (keeps_ask _).any
  | createString | newArray => exact (keeps_ask _).bind fun _ _ => keeps_object h hexact _ _
  | invokeStatic | invokeInstance | newInstance =>
    exact (keeps_askThread _ _).bind fun _ _ => keeps_outcome h hexact _
  | createBreakpoint | createStep | createExceptionRequest | createClassPrepareWatch =>
    exact keeps_install _ _ _
  | watchThreadLifecycle =>
    exact (keeps_install _ _ _).bind fun _ _ => (keeps_install _ _ _).bind fun _ _ =>
      keeps_pure trivial
  | setRequestEnabled r enabled => exact keeps_setEnabled r enabled
  | deleteRequest r => exact keeps_deleteRequest r
  | resumeEventSet set => exact keeps_resumeSet set
  | dispose => exact keeps_leave

namespace Use

theorem keeps_work (h : d.ServedBy serve) {uses : List Use}
    (hprepares : ∀ set, Use.events set ∈ uses → d.Prepares set) {u : Use} (hu : u ∈ uses) :
    u.work.Keeps serve d (d.Explained uses) fun _ => True := by
  have hdrop {α : Type} {w : Work α} (hw : w.Keeps serve d (d.Explained uses) fun _ => True) :
      Work.Keeps serve d (d.Explained uses) ((fun _ => ()) <$> w) fun _ => True := by
    intro s x hs
    rw [Work.run_map]
    exact ⟨(hw s x hs).1, fun _ _ => trivial⟩
  cases u with
  | call c => exact hdrop (Work.keeps_answer h hu)
  | events set =>
    exact hdrop (Work.keeps_eventSet h (fun _ => Classes.explained_of_exact) (hprepares set hu))

theorem remembers_after (h : d.ServedBy serve) {uses : List Use}
    (hprepares : ∀ set, Use.events set ∈ uses → d.Prepares set) (x : ω) :
    (after serve uses {} x).1.Remembers d (d.Explained uses) := by
  have hrun (past : List Use) (hpast : ∀ u ∈ past, u ∈ uses) (s : TargetState) (x : ω)
      (hs : s.Remembers d (d.Explained uses)) :
      (after serve past s x).1.Remembers d (d.Explained uses) := by
    induction past generalizing s x with
    | nil => exact hs
    | cons u past ih =>
      refine ih (fun u hu => hpast u (List.mem_cons_of_mem _ hu)) _ _ ?_
      exact (keeps_work h hprepares (hpast u List.mem_cons_self) s x hs).1
  exact hrun uses (fun _ hu => hu) {} x (TargetState.remembers_new _)

end Use

/-! ## Two targets on one machine -/

/-- Both fail alike, or both come to results that are related. -/
inductive Alike {ε α : Type} (R : α → α → Prop) : Except ε α → Except ε α → Prop
  | ok {a a₀ : α} (h : R a a₀) : Alike R (.ok a) (.ok a₀)
  | error (e : ε) : Alike R (.error e) (.error e)

theorem alike_refl {ε α : Type} (result : Except ε α) : Alike Eq result result := by
  cases result with
  | ok a => exact .ok rfl
  | error e => exact .error e

section
variable (known : Dict TypeId TypeInfo)

/-- A type as it is shown where types are known already. -/
def TypeInfo.shown (info : TypeInfo) : TypeInfo := (known.get? info.id).getD info

def Location.shown (l : Location) : Location :=
  { l with typeTag := ((known.get? l.classId).map fun info => info.kind.tag).getD l.typeTag }

def Place.shown (c : TypeId) (p : Place) : Place :=
  { p with className := ((known.get? c).map TypeInfo.name).getD p.className }

def ObjectRef.shown (o : ObjectRef) : ObjectRef :=
  { o with runtimeType := ((known.get? o.typeId).map TypeInfo.name).getD o.runtimeType }

end

theorem TypeInfo.shown_field {α : Type} (known : Dict TypeId TypeInfo) {info : TypeInfo}
    {id : TypeId} (hid : info.id = id) (field : TypeInfo → α) :
    field (shown known info) = ((known.get? id).map field).getD (field info) := by
  rw [shown, hid]
  cases known.get? id <;> rfl

/-- A target beside another on one machine. They see the same types, but this one shows them as they
are known. -/
structure Alongside (d : Classes) (known : Dict TypeId TypeInfo) (kind : Option TypeKind)
    (s s₀ : TargetState) : Prop where
  look : ∀ id, Alike (fun info info₀ => info₀.id = id ∧ info = TypeInfo.shown known info₀)
    (d.look s id kind) (d.look s₀ id kind)
  left : s.Remembers d fun _ => True
  right : s₀.Remembers d fun _ => True

theorem TargetState.Remembers.alongside {uses : List Use} {s : TargetState}
    (hs : s.Remembers d (d.Explained uses)) (kind : Option TypeKind) :
    Alongside d s.types kind s {} where
  look id := by
    show Alike _ (d.look s id kind) (d.learn id kind)
    unfold Classes.look
    cases hknown : s.types.get? id with
    | some info =>
      obtain ⟨hid, signature, hsignature, -⟩ := hs.types id info hknown
      rw [hid] at hsignature
      unfold Classes.learn
      rw [hsignature]
      refine .ok ⟨rfl, ?_⟩
      simp only [TypeInfo.shown, hknown, Option.getD_some]
    | none =>
      cases hlearn : d.learn id kind with
      | error e => exact .error e
      | ok info =>
        have hid := Classes.learn_id hlearn
        refine .ok ⟨hid, ?_⟩
        rw [TypeInfo.shown, hid, hknown, Option.getD_none]
  left := ⟨fun id info h => ⟨(hs.types id info h).1, trivial⟩, hs.declared⟩
  right := TargetState.remembers_new _

namespace Work
variable {α β : Type} {known : Dict TypeId TypeInfo} {kind : Option TypeKind} {w w₀ : Work α}
  {R : α → α → Prop} {R' : β → β → Prop}

/-- Two routines on targets one beside the other come to results that are related, whatever has
become of the machine in between. -/
def Mirrors (serve : (c : Command) → ω → c.Reply × ω) (d : Classes)
    (known : Dict TypeId TypeInfo) (kind : Option TypeKind) (w w₀ : Work α) (R : α → α → Prop) :
    Prop :=
  ∀ s s₀ x x₀, Alongside d known kind s s₀ →
    Alike R ((ExceptT.run w).run serve s x).1 ((ExceptT.run w₀).run serve s₀ x₀).1 ∧
      Alongside d known kind ((ExceptT.run w).run serve s x).2.1
        ((ExceptT.run w₀).run serve s₀ x₀).2.1

theorem Mirrors.bind {g g₀ : α → Work β} (h : Mirrors serve d known kind w w₀ R)
    (hg : ∀ a a₀, R a a₀ → Mirrors serve d known kind (g a) (g₀ a₀) R') :
    Mirrors serve d known kind (w >>= g) (w₀ >>= g₀) R' := by
  intro s s₀ x x₀ hs
  obtain ⟨hresult, hstate⟩ := h s s₀ x x₀ hs
  rw [run_andThen, run_andThen]
  rcases hrun : (ExceptT.run w).run serve s x with ⟨a, t, y⟩
  rcases hrun₀ : (ExceptT.run w₀).run serve s₀ x₀ with ⟨a₀, t₀, y₀⟩
  rw [hrun, hrun₀] at hresult hstate
  cases hresult with
  | ok hR => exact hg _ _ hR t t₀ y y₀ hstate
  | error e => exact ⟨.error e, hstate⟩

theorem mirrors_pure {a a₀ : α} (h : R a a₀) :
    Mirrors serve d known kind (pure a) (pure a₀) R := fun _ _ _ _ hs => ⟨.ok h, hs⟩

theorem mirrors_throw (e : TargetError) :
    Mirrors serve d known kind (throw e : Work α) (throw e) R := fun _ _ _ _ hs => ⟨.error e, hs⟩

section
variable (h : d.ServedBy serve)
include h

theorem mirrors_ask {c : Command} (hc : c.isOnClasses = true) :
    Mirrors serve d known kind (ask c) (ask c) Eq := by
  intro s s₀ x x₀ hs
  rw [ask, run_askAs, run_askAs, h.fixed c x hc, h.fixed c x₀ hc]
  exact ⟨alike_refl _, hs⟩

theorem mirrors_attempt {c : Command} (hc : c.isOnClasses = true) :
    Mirrors serve d known kind (attempt c) (attempt c) Eq := by
  intro s s₀ x x₀ hs
  refine ⟨?_, hs⟩
  show Alike Eq (.ok (serve c x).1) (.ok (serve c x₀).1)
  rw [h.fixed c x hc, h.fixed c x₀ hc]
  exact .ok rfl

theorem mirrors_typeInfo (id : TypeId) :
    Mirrors serve d known kind (typeInfo id kind) (typeInfo id kind) fun info info₀ =>
      info₀.id = id ∧ info = TypeInfo.shown known info₀ := by
  intro s s₀ x x₀ hs
  obtain ⟨hresult, hstate⟩ := run_typeInfo h id kind s x
  obtain ⟨hresult₀, hstate₀⟩ := run_typeInfo h id kind s₀ x₀
  rw [hresult, hresult₀, hstate, hstate₀]
  refine ⟨hs.look id, fun other => ?_, hs.left.looked fun _ _ => trivial,
    hs.right.looked fun _ _ => trivial⟩
  rw [Classes.look_looked, Classes.look_looked]
  exact hs.look other

theorem mirrors_declaredMethods (c : TypeId) :
    Mirrors serve d known kind (declaredMethods c) (declaredMethods c) Eq := by
  intro s s₀ x x₀ hs
  obtain ⟨hresult, htypes, hstate⟩ := run_declaredMethods h c x hs.left
  obtain ⟨hresult₀, htypes₀, hstate₀⟩ := run_declaredMethods h c x₀ hs.right
  refine ⟨?_, fun id => ?_, hstate, hstate₀⟩
  · rw [hresult, hresult₀]
    exact alike_refl _
  · have hlook := hs.look id
    unfold Classes.look at hlook ⊢
    rwa [htypes, htypes₀]

theorem mirrors_lineTable? (c : TypeId) (m : MethodId) :
    Mirrors serve d known kind (lineTable? c m) (lineTable? c m) Eq := by
  refine (mirrors_attempt h rfl).bind fun reply reply₀ hreply => ?_
  cases hreply
  rcases reply with e | table
  · cases e with
    | vm code => exact mirrors_pure rfl
    | _ => exact mirrors_throw _
  · exact mirrors_pure rfl

theorem mirrors_types (k : TypeKind) (ids : List TypeId) :
    Mirrors serve d known (some k) (types k ids) (types k ids) fun infos infos₀ =>
      infos = infos₀.map (TypeInfo.shown known) := by
  induction ids with
  | nil => exact mirrors_pure rfl
  | cons id ids ih =>
    refine (mirrors_typeInfo h id).bind fun info info₀ hinfo => ?_
    refine ih.bind fun infos infos₀ hinfos => ?_
    refine mirrors_pure ?_
    rw [hinfo.2, hinfos, List.map_cons]

theorem mirrors_lineStarts {tag tag₀ : UInt8} {c : TypeId} (line : UInt32) (members : List Member)
    (htag : ∀ m index, (⟨tag, c, m, index⟩ : Location) = Location.shown known ⟨tag₀, c, m, index⟩) :
    Mirrors serve d known kind (lineStarts tag c line members) (lineStarts tag₀ c line members)
      fun ls ls₀ => ls = ls₀.map (Location.shown known) := by
  induction members with
  | nil => exact mirrors_pure rfl
  | cons m members ih =>
    refine (mirrors_lineTable? h c m.id).bind fun table _ htable => ?_
    refine ih.bind fun others others₀ hothers => mirrors_pure ?_
    rw [← htable, hothers, List.map_append]
    congr 1
    cases table.bind (·.indexOf? line) with
    | none => rfl
    | some index => exact congrArg (fun l => [l]) (htag m.id index)

theorem mirrors_lineLocations (c : TypeId) (line : UInt32) :
    Mirrors serve d known none (lineLocations c line) (lineLocations c line) fun ls ls₀ =>
      ls = ls₀.map (Location.shown known) := by
  refine (mirrors_typeInfo h c).bind fun info info₀ ⟨hid, hinfo⟩ => ?_
  refine (mirrors_declaredMethods h c).bind fun members _ hmembers => ?_
  rw [← hmembers]
  refine mirrors_lineStarts h line members fun m index => ?_
  rw [hinfo, TypeInfo.shown_field known hid fun info => info.kind.tag]
  rfl

theorem mirrors_methodEntry (m : Method) :
    Mirrors serve d known none (methodEntry m) (methodEntry m) fun l l₀ =>
      l = l₀.map (Location.shown known) := by
  refine (mirrors_typeInfo h m.declaringType).bind fun info info₀ ⟨hid, hinfo⟩ => ?_
  refine (mirrors_lineTable? h m.declaringType m.id).bind fun table _ htable => mirrors_pure ?_
  rw [← htable, Option.map_map, hinfo, TypeInfo.shown_field known hid fun info => info.kind.tag]
  rfl

theorem mirrors_place (l : Location) :
    Mirrors serve d known none (place l) (place l) fun p p₀ =>
      p = Place.shown known l.classId p₀ := by
  refine (mirrors_typeInfo h l.classId).bind fun info info₀ ⟨hid, hinfo⟩ => ?_
  refine (mirrors_declaredMethods h l.classId).bind fun members _ hmembers => ?_
  refine (mirrors_lineTable? h l.classId l.methodId).bind fun table _ htable => ?_
  refine (mirrors_attempt h rfl).bind fun source _ hsource => mirrors_pure ?_
  rw [← hmembers, ← htable, ← hsource, hinfo, TypeInfo.shown_field known hid TypeInfo.name]
  rfl

theorem mirrors_superclass (c : TypeId) :
    Mirrors serve d known (some .classType) (answer (.superclass c)) (answer (.superclass c))
      fun up up₀ => up = up₀.map (TypeInfo.shown known) := by
  refine (mirrors_ask h rfl).bind fun up _ hup => ?_
  cases hup
  cases up with
  | none => exact mirrors_pure rfl
  | some up =>
    refine (mirrors_typeInfo h up).bind fun info info₀ hinfo => mirrors_pure ?_
    exact congrArg some hinfo.2

theorem mirrors_interfaces (c : TypeId) :
    Mirrors serve d known (some .interface) (answer (.interfaces c)) (answer (.interfaces c))
      fun infos infos₀ => infos = infos₀.map (TypeInfo.shown known) := by
  refine (mirrors_ask h rfl).bind fun ids _ hids => ?_
  cases hids
  exact mirrors_types h .interface ids

end

end Work

/-! ## Questions -/

/-- What is asked about types. -/
inductive Question
  | classesByName (name : String)
  | superclass (c : TypeId)
  | interfaces (c : TypeId)
  | lineLocations (c : TypeId) (line : UInt32)
  | methodEntry (m : Method)
  | place (l : Location)
  | object (id : ObjectId)
  deriving DecidableEq

namespace Question

abbrev Answer : Question → Type
  | classesByName _ | interfaces _ => List TypeInfo
  | superclass _ => Option TypeInfo
  | lineLocations .. => List Location
  | methodEntry _ => Option Location
  | place _ => Place
  | object _ => Option ObjectRef

def work : (q : Question) → Work q.Answer
  | classesByName name => Work.answer (.classesByName name)
  | superclass c => Work.answer (.superclass c)
  | interfaces c => Work.answer (.interfaces c)
  | lineLocations c line => Work.answer (.lineLocations c line)
  | methodEntry m => Work.answer (.methodEntry m)
  | place l => Work.answer (.place l)
  | object id => Work.object? id

/-- The answer of a target in a state, on a machine that stands so. -/
def answer (serve : (c : Command) → ω → c.Reply × ω) (q : Question) (s : TargetState) (x : ω) :
    Except TargetError q.Answer :=
  ((ExceptT.run q.work).run serve s x).1

/-- An answer as it is shown where types are known already. Types asked for by their name are not
looked up. -/
def shown (known : Dict TypeId TypeInfo) : (q : Question) → q.Answer → q.Answer
  | classesByName _, infos => infos
  | superclass _, up => Option.map (TypeInfo.shown known) up
  | interfaces _, infos => List.map (TypeInfo.shown known) infos
  | lineLocations .., ls => List.map (Location.shown known) ls
  | methodEntry _, l => Option.map (Location.shown known) l
  | place l, p => Place.shown known l.classId p
  | object _, o => Option.map (ObjectRef.shown known) o

/-- The type whose guessed kind shows in the answer. -/
def guessed? : Question → Option TypeId
  | lineLocations c _ => some c
  | methodEntry m => some m.declaringType
  | classesByName _ | superclass _ | interfaces _ | place _ | object _ => none

end Question

theorem Alike.eq_map {ε α : Type} {f : α → α} {result result₀ : Except ε α}
    (h : Alike (fun a a₀ => a = f a₀) result result₀) : result = result₀.map f := by
  cases h with
  | ok h => exact congrArg Except.ok h
  | error e => rfl

theorem Work.mirrors_resolve (h : d.ServedBy serve) {known : Dict TypeId TypeInfo} (id : ObjectId)
    (type : Tagged) :
    Mirrors serve d known (some (TypeKind.ofTag type.tag))
      (do
        let info ← typeInfo type.id (some (TypeKind.ofTag type.tag))
        return some (⟨id, type.id, info.name⟩ : ObjectRef))
      (do
        let info ← typeInfo type.id (some (TypeKind.ofTag type.tag))
        return some (⟨id, type.id, info.name⟩ : ObjectRef))
      fun o o₀ => o = o₀.map (ObjectRef.shown known) := by
  refine (mirrors_typeInfo h type.id).bind fun info info₀ ⟨hid, hinfo⟩ => mirrors_pure ?_
  rw [hinfo, TypeInfo.shown_field known hid TypeInfo.name]
  rfl

/-- The answer of a target is that of a new one, shown as the types are known. -/
theorem Question.answer_eq_shown (h : d.ServedBy serve) {uses : List Use} {s : TargetState}
    (hs : s.Remembers d (d.Explained uses)) (x : ω) (q : Question) :
    q.answer serve s x = (q.answer serve {} x).map (q.shown s.types) := by
  cases q with
  | classesByName name =>
    show ((ExceptT.run (Work.ask _ >>= _)).run serve s x).1 =
      Except.map _ ((ExceptT.run (Work.ask _ >>= _)).run serve {} x).1
    rw [Work.run_andThen, Work.run_andThen, Work.ask, Work.run_askAs, Work.run_askAs]
    cases (serve (.classesBySignature (Signature.ofTypeName name)) x).1 <;> rfl
  | superclass c =>
    exact ((Work.mirrors_superclass h c) s {} x x (hs.alongside _)).1.eq_map
  | interfaces c => exact ((Work.mirrors_interfaces h c) s {} x x (hs.alongside _)).1.eq_map
  | lineLocations c line =>
    exact ((Work.mirrors_lineLocations h c line) s {} x x (hs.alongside _)).1.eq_map
  | methodEntry m => exact ((Work.mirrors_methodEntry h m) s {} x x (hs.alongside _)).1.eq_map
  | place l => exact ((Work.mirrors_place h l) s {} x x (hs.alongside _)).1.eq_map
  | object id =>
    show ((ExceptT.run (Work.object? id)).run serve s x).1 =
      Except.map _ ((ExceptT.run (Work.object? id)).run serve {} x).1
    unfold Work.object?
    split
    · rfl
    · rw [Work.run_andThen, Work.run_andThen, Work.run_askAs, Work.run_askAs]
      cases (serve (.typeOf id) x).1 with
      | error e => rfl
      | ok type => exact ((Work.mirrors_resolve h id type) s {} _ _ (hs.alongside _)).1.eq_map

/-! ## What is remembered as it is -/

/-- A name that is written as a target writes it. -/
def UsualName (name : String) : Prop := Signature.toTypeName (Signature.ofTypeName name) = name

instance (name : String) : Decidable (UsualName name) := inferInstanceAs (Decidable (_ = _))

/-- Types were asked for by their usual names, and interfaces not for their code. -/
structure Use.Plain (d : Classes) (uses : List Use) : Prop where
  names : ∀ name, Use.call (.classesByName name) ∈ uses → UsualName name
  guesses : ∀ c id, Use.call c ∈ uses → c.guessed? = some id → d.kind id ≠ .interface

theorem Classes.Explained.exact {uses : List Use} {info : TypeInfo} (h : d.Explained uses info)
    (hplain : Use.Plain d uses) : d.Exact info := by
  obtain ⟨signature, hsignature, hname, hkind⟩ := h
  refine ⟨signature, hsignature, ?_, ?_⟩
  · rcases hname with hname | ⟨rfl, hname⟩
    · exact hname
    · exact (hplain.names info.name hname).symm
  · rcases hkind with hkind | ⟨-, hinterface, c, hc, hid⟩
    · exact hkind
    · exact absurd hinterface (hplain.guesses c info.id hc hid)

/-- The type has the name that its id stands for. -/
def Classes.Named (d : Classes) (info : TypeInfo) : Prop :=
  ∃ signature, d.reply (.signature info.id) = .ok signature ∧
    info.name = Signature.toTypeName signature

theorem Classes.Exact.named {info : TypeInfo} (h : d.Exact info) : d.Named info := by
  obtain ⟨signature, hsignature, hname, -⟩ := h
  exact ⟨signature, hsignature, hname⟩

theorem Classes.named_unique {info other : TypeInfo} (h : d.Named info) (h' : d.Named other)
    (hid : info.id = other.id) : info.name = other.name := by
  obtain ⟨signature, hsignature, hname⟩ := h
  obtain ⟨signature', hsignature', hname'⟩ := h'
  rw [hid, hsignature'] at hsignature
  rw [hname, hname', Except.ok.inj hsignature]

section
variable {s : TargetState}

theorem TypeInfo.shown_of_exact (hs : s.Remembers d d.Exact) {info : TypeInfo}
    (hinfo : d.Exact info) : TypeInfo.shown s.types info = info := by
  unfold shown
  cases hknown : s.types.get? info.id with
  | none => rfl
  | some known =>
    obtain ⟨hid, hexact⟩ := hs.types info.id known hknown
    exact Classes.exact_unique hexact hinfo hid

theorem shown_name (hs : s.Remembers d d.Exact) {info : TypeInfo} {id : TypeId}
    (hid : info.id = id) (hinfo : d.Named info) :
    ((s.types.get? id).map TypeInfo.name).getD info.name = info.name := by
  cases hknown : s.types.get? id with
  | none => rfl
  | some known =>
    obtain ⟨hid', hexact⟩ := hs.types id known hknown
    exact Classes.named_unique hexact.named hinfo (hid'.trans hid.symm)

theorem Location.shown_of_shows (hs : s.Remembers d d.Exact) {l : Location}
    (hl : Work.Shows d.Exact l) : Location.shown s.types l = l := by
  obtain ⟨info, hid, hinfo, htag⟩ := hl
  have hshown := TypeInfo.shown_field s.types hid fun info => info.kind.tag
  rw [TypeInfo.shown_of_exact hs hinfo, ← htag] at hshown
  rw [shown, ← hshown]

theorem Question.shown_answer (h : d.ServedBy serve) (hs : s.Remembers d d.Exact) {q : Question}
    (hq : ∀ id, q.guessed? = some id → d.kind id ≠ .interface) (x : ω) :
    (q.answer serve {} x).map (q.shown s.types) = q.answer serve {} x := by
  have hfresh {α : Type} {w : Work α} {P : TypeInfo → Prop} {Q : α → Prop} {f : α → α}
      (hw : w.Keeps serve d P Q) (hf : ∀ a, Q a → f a = a) :
      ((ExceptT.run w).run serve {} x).1.map f = ((ExceptT.run w).run serve {} x).1 := by
    have hresult := (hw {} x (TargetState.remembers_new P)).2
    cases hrun : ((ExceptT.run w).run serve {} x).1 with
    | error e => rfl
    | ok a => exact congrArg Except.ok (hf a (hresult a hrun))
  have hguess (c : TypeId) (hc : d.kind c ≠ .interface) (info : TypeInfo)
      (hinfo : d.learn c none = .ok info) : d.Exact info :=
    h.exact_of_learn hinfo rfl fun _ => hc
  have hmap {α : Type} {f : α → α} {P : α → Prop} (hf : ∀ a, P a → f a = a) (o : Option α)
      (ho : ∀ a ∈ o, P a) : o.map f = o := by
    cases o with
    | none => rfl
    | some a => exact congrArg some (hf a (ho a rfl))
  have hmapList {α : Type} {f : α → α} {P : α → Prop} (hf : ∀ a, P a → f a = a) (l : List α)
      (hl : ∀ a ∈ l, P a) : l.map f = l := by
    rw [List.map_congr_left fun a ha => hf a (hl a ha), List.map_id']
  cases q with
  | classesByName name =>
    show Except.map (fun infos => infos) _ = _
    rcases Question.answer serve (classesByName name) {} x with e | infos <;> rfl
  | superclass c =>
    exact hfresh (Work.keeps_superclass h (fun _ hinfo => hinfo) c)
      (hmap fun _ => TypeInfo.shown_of_exact hs)
  | interfaces c =>
    exact hfresh (Work.keeps_interfaces h (fun _ hinfo => hinfo) c)
      (hmapList fun _ => TypeInfo.shown_of_exact hs)
  | lineLocations c line =>
    exact hfresh (Work.keeps_lineLocations h line (hguess c (hq c rfl)))
      (hmapList fun _ => Location.shown_of_shows hs)
  | methodEntry m =>
    exact hfresh (Work.keeps_methodEntry h (hguess m.declaringType (hq m.declaringType rfl)))
      (hmap fun _ => Location.shown_of_shows hs)
  | place l =>
    have hnamed (info : TypeInfo) (hinfo : d.learn l.classId none = .ok info) : d.Named info := by
      obtain ⟨signature, hsignature, rfl⟩ := Classes.learn_ok hinfo
      exact ⟨signature, hsignature, rfl⟩
    refine hfresh (Work.keeps_place h hnamed) fun p ⟨info, hid, hinfo, hname⟩ => ?_
    rw [Question.shown, Place.shown, hname, shown_name hs hid hinfo, ← hname]
  | object id =>
    refine hfresh (Work.keeps_object? h (fun _ hinfo => hinfo) id) (hmap fun o ho => ?_)
    obtain ⟨info, hid, hinfo, hname⟩ := ho
    rw [ObjectRef.shown, hname, shown_name hs hid hinfo.named, ← hname]

end

/-! ## Transparency -/

/-- Whatever a target was used for before, it answers as a new target on the same machine would,
with each type shown as it is remembered; what is remembered of a type is explained by the uses. So
the past does not show at all if types were asked for by their usual names only, and interfaces
neither were nor are asked for their code. -/
theorem Work.answers_as_remembered (h : d.ServedBy serve) {uses : List Use}
    (hprepares : ∀ set, Use.events set ∈ uses → d.Prepares set) (x : ω) (q : Question) :
    let (s, y) := Use.after serve uses {} x
    q.answer serve s y = (q.answer serve {} y).map (q.shown s.types) ∧
      (∀ id info, s.types.get? id = some info → info.id = id ∧ d.Explained uses info) ∧
      (Use.Plain d uses → (∀ id, q.guessed? = some id → d.kind id ≠ .interface) →
        q.answer serve s y = q.answer serve {} y) := by
  have hs := Use.remembers_after h hprepares x
  generalize Use.after serve uses {} x = after at hs
  obtain ⟨s, y⟩ := after
  have hanswer := Question.answer_eq_shown h hs y q
  refine ⟨hanswer, hs.types, fun hplain hq => ?_⟩
  have hexact : s.Remembers d d.Exact :=
    ⟨fun id info hinfo => ⟨(hs.types id info hinfo).1, (hs.types id info hinfo).2.exact hplain⟩,
      hs.declared⟩
  rw [hanswer, Question.shown_answer h hexact hq y]

/-- A class that implements an interface; all that a machine has to say about them. -/
def mainAndShape : Classes where
  reply
    | .classesBySignature signature =>
      .ok (if signature = "Lapp/Main;" then [⟨1, 300, 7⟩]
        else if signature = "Lapp/Shape;" then [⟨2, 301, 7⟩] else [])
    | .signature c =>
      if c = 300 then .ok "Lapp/Main;" else if c = 301 then .ok "Lapp/Shape;" else .error (.vm 20)
    | .methods _ => .ok [⟨400, "run", "()V", 1⟩]
    | .sourceFile _ => .ok "Main.java"
    | .interfaces c => .ok (if c = 300 then [301] else [])
    | .superclass _ => .ok none
    | .lineTable _ _ => .ok ⟨0, 20, [⟨12, 7⟩]⟩
    | .typeOf _ => .ok ⟨1, 300⟩
    | _ => .error (.vm 99)
  kind c := if c = 301 then .interface else .classType

/-- A machine that has nothing but its classes. -/
def Classes.machine (d : Classes) (c : Command) (_ : Unit) : c.Reply × Unit := (d.reply c, ())

theorem mainAndShape_served : mainAndShape.ServedBy mainAndShape.machine where
  fixed _ _ _ := rfl
  listed signature found hfound t ht := by
    cases hfound
    split at ht
    · next hsignature =>
      rw [List.mem_singleton.1 ht, hsignature]
      exact ⟨rfl, rfl⟩
    · split at ht
      · next hsignature =>
        rw [List.mem_singleton.1 ht, hsignature]
        exact ⟨rfl, rfl⟩
      · exact absurd ht List.not_mem_nil
  array id signature hsignature := by
    have hkind : mainAndShape.kind id ≠ .array := by
      show (if id = 301 then TypeKind.interface else .classType) ≠ .array
      split <;> decide
    refine iff_of_false (fun harray => ?_) hkind
    change (if id = 300 then Except.ok "Lapp/Main;" else if id = 301 then .ok "Lapp/Shape;"
      else .error (WireError.vm 20)) = Except.ok signature at hsignature
    split at hsignature
    · cases hsignature
      revert harray
      decide
    · split at hsignature
      · cases hsignature
        revert harray
        decide
      · cases hsignature
  superclass c up hup := by cases hup
  interfaces c ids hids id hid := by
    cases hids
    split at hid
    · rw [List.mem_singleton.1 hid]
      rfl
    · exact absurd hid List.not_mem_nil
  typeOf o x type htype := by
    cases htype
    rfl

theorem place_after_usual_name :
    mainAndShape.ServedBy mainAndShape.machine ∧
      (∀ set, Use.events set ∈ [Use.call (.classesByName "app.Main"), .call (.interfaces 300)] →
        mainAndShape.Prepares set) ∧
      let (s, y) := Use.after mainAndShape.machine
        [.call (.classesByName "app.Main"), .call (.interfaces 300)] {} ()
      s.types.size = 2 ∧
        (Question.place ⟨1, 300, 400, 12⟩).answer mainAndShape.machine s y =
          (Question.place ⟨1, 300, 400, 12⟩).answer mainAndShape.machine {} y := by
  have hprepares (set : WireEventSet)
      (hset : Use.events set ∈ [Use.call (.classesByName "app.Main"), .call (.interfaces 300)]) :
      mainAndShape.Prepares set := by
    simp at hset
  have hplain : Use.Plain mainAndShape
      [Use.call (.classesByName "app.Main"), .call (.interfaces 300)] := by
    refine ⟨fun name hname => ?_, fun c id hc hid => ?_⟩
    · simp at hname
      rw [hname]
      decide +kernel
    · simp at hc
      rcases hc with rfl | rfl <;> cases hid
  obtain ⟨-, -, hsame⟩ := Work.answers_as_remembered mainAndShape_served hprepares ()
    (.place ⟨1, 300, 400, 12⟩)
  refine ⟨mainAndShape_served, hprepares, ?_, hsame hplain fun id hid => by cases hid⟩
  decide +kernel

/-- The past may show: a class that was asked for by its signature is shown by that instead of its
name, and the tag of an interface depends on whether it was met as one before. -/
theorem past_shows :
    mainAndShape.ServedBy mainAndShape.machine ∧
      (let (s, y) := Use.after mainAndShape.machine [.call (.classesByName "Lapp/Main;")] {} ();
        (Question.place ⟨1, 300, 400, 12⟩).answer mainAndShape.machine s y ≠
          (Question.place ⟨1, 300, 400, 12⟩).answer mainAndShape.machine {} y) ∧
      let (s, y) := Use.after mainAndShape.machine [.call (.interfaces 300)] {} ();
      (Question.lineLocations 301 7).answer mainAndShape.machine s y ≠
        (Question.lineLocations 301 7).answer mainAndShape.machine {} y :=
  ⟨mainAndShape_served, by decide +kernel, by decide +kernel⟩

end Wire

end JvmDebug
