import JvmDebug.Proofs.EventIntake

/-!
What a target remembers of the types of a machine, and the declared methods that it asks for once.
`Work.Keeps` says what a routine adds, with a lemma for each routine that calls are made of.
-/
namespace JvmDebug.Wire

/-! ## Machines -/

/-- The commands about classes on whose answers remembered types and their places rest. -/
def Command.isOnClasses : Command → Bool
  | classesBySignature _ | signature _ | methods _ | sourceFile _ | interfaces _ | superclass _
  | lineTable .. => true
  | _ => false

/-- The classes of a machine: what it says about them, and of which kind each type is. -/
structure Classes where
  reply : (c : Command) → c.Reply
  kind : TypeId → TypeKind

/-- The signature is that of an array. -/
def isArraySignature (signature : String) : Bool := signature.toList.head?.any (· == '[')

namespace Classes
variable {ω : Type}

/-- The machine answers from these classes, whatever else becomes of it, and it answers all commands
in one sense: types are listed by their signatures, tags and signatures agree with kinds, only
classes are superclasses, and only interfaces are implemented. -/
structure ServedBy (d : Classes) (serve : (c : Command) → ω → c.Reply × ω) : Prop where
  fixed : ∀ c x, c.isOnClasses = true → (serve c x).1 = d.reply c
  listed : ∀ signature found, d.reply (.classesBySignature signature) = .ok found → ∀ t ∈ found,
    d.reply (.signature (LoadedType.id t)) = .ok signature ∧ TypeKind.ofTag t.tag = d.kind t.id
  array : ∀ id signature, d.reply (.signature id) = .ok signature →
    (isArraySignature signature = true ↔ d.kind id = .array)
  superclass : ∀ c up, d.reply (.superclass c) = .ok (some up) → d.kind up = .classType
  interfaces : ∀ c ids, d.reply (.interfaces c) = .ok ids → ∀ id ∈ ids, d.kind id = .interface
  typeOf : ∀ o x type, (serve (.typeOf o) x).1 = .ok type →
    TypeKind.ofTag (Tagged.tag type) = d.kind type.id

variable (d : Classes)

/-- The type has the name and the kind that its id stands for. -/
def Exact (info : TypeInfo) : Prop :=
  ∃ signature, d.reply (.signature info.id) = .ok signature ∧
    info.name = Signature.toTypeName signature ∧ info.kind = d.kind info.id

/-- The class prepare events of a set are about types of the machine. -/
def Prepares (set : WireEventSet) : Prop :=
  ∀ e ∈ set.events, ∀ t tag c signature status,
    e.happening = .classPrepare t tag c signature status →
    d.reply (.signature c) = .ok signature ∧ TypeKind.ofTag tag = d.kind c

theorem exact_unique {d : Classes} {info other : TypeInfo} (h : d.Exact info) (h' : d.Exact other)
    (hid : info.id = other.id) : info = other := by
  obtain ⟨signature, hsignature, hname, hkind⟩ := h
  obtain ⟨signature', hsignature', hname', hkind'⟩ := h'
  obtain ⟨id, name, kind⟩ := info
  obtain ⟨id', name', kind'⟩ := other
  cases hid
  have hsame : signature = signature' := by
    rw [hsignature] at hsignature'
    exact Except.ok.inj hsignature'
  simp only at hname hname' hkind hkind'
  rw [hname, hname', hkind, hkind', hsame]

/-- What is learned about a type whose kind the caller may know. -/
def learn (id : TypeId) (kind : Option TypeKind) : Except TargetError TypeInfo :=
  ((d.reply (.signature id)).mapError WireError.toTarget).map fun signature =>
    ⟨id, Signature.toTypeName signature,
      kind.getD (if isArraySignature signature then .array else .classType)⟩

/-- What is known about a type in a state: what is remembered, or else what is learned. -/
def look (s : TargetState) (id : TypeId) (kind : Option TypeKind) : Except TargetError TypeInfo :=
  match s.types.get? id with
  | some info => .ok info
  | none => d.learn id kind

/-- The state after a look at a type. -/
def looked (s : TargetState) (id : TypeId) (kind : Option TypeKind) : TargetState :=
  match s.types.get? id, d.learn id kind with
  | none, .ok info => { s with types := s.types.insert info.id info }
  | _, _ => s

variable {d}

theorem learn_ok {id : TypeId} {kind : Option TypeKind} {info : TypeInfo}
    (h : d.learn id kind = .ok info) : ∃ signature, d.reply (.signature id) = .ok signature ∧
      info = ⟨id, Signature.toTypeName signature,
        kind.getD (if isArraySignature signature then .array else .classType)⟩ := by
  unfold learn at h
  cases hreply : d.reply (.signature id) with
  | error e =>
    rw [hreply] at h
    cases h
  | ok signature =>
    rw [hreply] at h
    cases h
    exact ⟨signature, rfl, rfl⟩

theorem learn_id {id : TypeId} {kind : Option TypeKind} {info : TypeInfo}
    (h : d.learn id kind = .ok info) : info.id = id := by
  obtain ⟨signature, -, rfl⟩ := learn_ok h
  rfl

theorem get?_looked {s : TargetState} {id other : TypeId} {kind : Option TypeKind} :
    (d.looked s id kind).types.get? other =
      (if other = id then (d.look s id kind).toOption else s.types.get? other) := by
  unfold looked look
  cases hknown : s.types.get? id with
  | some info =>
    by_cases hother : other = id
    · rw [hother, if_pos rfl]
      exact hknown
    · rw [if_neg hother]
  | none =>
    cases hlearn : d.learn id kind with
    | error e =>
      by_cases hother : other = id
      · rw [hother, if_pos rfl]
        exact hknown
      · rw [if_neg hother]
    | ok info =>
      simp only [Dict.get?_insert, learn_id hlearn]
      rfl

/-- A look changes nothing about what is known. -/
theorem look_looked {s : TargetState} {id other : TypeId} {kind : Option TypeKind} :
    d.look (d.looked s id kind) other kind = d.look s other kind := by
  unfold look
  rw [get?_looked]
  by_cases hother : other = id
  · rw [if_pos hother, hother]
    cases hlook : d.look s id kind with
    | ok info =>
      unfold look at hlook
      exact hlook.symm
    | error e =>
      unfold look at hlook
      split at hlook
      · cases hlook
      · rfl
  · rw [if_neg hother]

end Classes

variable {ω : Type} {serve : (c : Command) → ω → c.Reply × ω} {d : Classes}

namespace Classes.ServedBy

theorem guess_eq (h : d.ServedBy serve) {id : TypeId} {signature : String}
    (hsignature : d.reply (.signature id) = .ok signature) (hid : d.kind id ≠ .interface) :
    (if isArraySignature signature then TypeKind.array else .classType) = d.kind id := by
  have harray := h.array id signature hsignature
  cases hkind : d.kind id with
  | interface => exact absurd hkind hid
  | array => rw [if_pos (harray.2 hkind)]
  | classType =>
    rw [if_neg fun hyes => ?_]
    have := harray.1 hyes
    rw [hkind] at this
    cases this

theorem exact_of_learn (h : d.ServedBy serve) {id : TypeId} {kind : Option TypeKind}
    {info : TypeInfo} (hlearn : d.learn id kind = .ok info)
    (hkind : kind.getD (d.kind id) = d.kind id) (hguess : kind = none → d.kind id ≠ .interface) :
    d.Exact info := by
  obtain ⟨signature, hsignature, rfl⟩ := Classes.learn_ok hlearn
  refine ⟨signature, hsignature, rfl, ?_⟩
  cases kind with
  | some k => exact hkind
  | none => exact h.guess_eq hsignature (hguess rfl)

end Classes.ServedBy

/-! ## What calls remember -/

/-- Everything remembered about types has a property, and declared methods are those that the
machine would tell. -/
structure TargetState.Remembers (d : Classes) (P : TypeInfo → Prop) (s : TargetState) : Prop where
  types : ∀ id info, s.types.get? id = some info → info.id = id ∧ P info
  declared : ∀ c members, s.declared.get? c = some members →
    d.reply (.methods c) = .ok members

namespace TargetState

theorem remembers_new (P : TypeInfo → Prop) : ({} : TargetState).Remembers d P :=
  ⟨fun _ _ h => (Option.some_ne_none _ h.symm).elim,
    fun _ _ h => (Option.some_ne_none _ h.symm).elim⟩

variable {P : TypeInfo → Prop} {s : TargetState}

theorem Remembers.insert (h : s.Remembers d P) {info : TypeInfo} (hinfo : P info) :
    Remembers d P { s with types := s.types.insert info.id info } where
  types id other hother := by
    simp only [Dict.get?_insert] at hother
    split at hother
    · next hid =>
      cases hother
      exact ⟨hid.symm, hinfo⟩
    · exact h.types id other hother
  declared := h.declared

theorem Remembers.looked (h : s.Remembers d P) {id : TypeId} {kind : Option TypeKind}
    (hlearn : ∀ info, d.learn id kind = .ok info → P info) :
    (d.looked s id kind).Remembers d P := by
  unfold Classes.looked
  split
  · next info _ heq => exact h.insert (hlearn info heq)
  · exact h

end TargetState

namespace Work
variable {α β : Type} {P : TypeInfo → Prop} {Q : α → Prop} {R : β → Prop} {w : Work α}

/-- The routine remembers nothing without the property, and a result that it comes to has
another. -/
def Keeps (serve : (c : Command) → ω → c.Reply × ω) (d : Classes) (P : TypeInfo → Prop) (w : Work α)
    (Q : α → Prop) : Prop :=
  ∀ s x, s.Remembers d P → ((ExceptT.run w).run serve s x).2.1.Remembers d P ∧
    ∀ a, ((ExceptT.run w).run serve s x).1 = .ok a → Q a

theorem run_andThen (w : Work α) (g : α → Work β) (s : TargetState) (x : ω) :
    (ExceptT.run (w >>= g)).run serve s x =
      match (ExceptT.run w).run serve s x with
      | (.ok a, s, x) => (ExceptT.run (g a)).run serve s x
      | (.error e, s, x) => (.error e, s, x) := by
  rw [run_bind, Routine.run_bind]
  rcases (ExceptT.run w).run serve s x with ⟨a | e, s, x⟩ <;> rfl

theorem Keeps.bind {g : α → Work β} (h : w.Keeps serve d P Q)
    (hg : ∀ a, Q a → (g a).Keeps serve d P R) : (w >>= g).Keeps serve d P R := by
  intro s x hs
  rw [run_andThen]
  obtain ⟨hstate, hresult⟩ := h s x hs
  rcases hrun : (ExceptT.run w).run serve s x with ⟨e | a, t, y⟩
  · rw [hrun] at hstate
    exact ⟨hstate, fun _ he => by cases he⟩
  · rw [hrun] at hstate hresult
    exact hg a (hresult a rfl) t y hstate

theorem Keeps.mono {Q' : α → Prop} (h : w.Keeps serve d P Q) (hQ : ∀ a, Q a → Q' a) :
    w.Keeps serve d P Q' := fun s x hs =>
  ⟨(h s x hs).1, fun a ha => hQ a ((h s x hs).2 a ha)⟩

theorem Keeps.any (h : w.Keeps serve d P Q) : w.Keeps serve d P fun _ => True :=
  h.mono fun _ _ => trivial

theorem keeps_pure {a : α} (ha : Q a) : (pure a : Work α).Keeps serve d P Q := fun _ _ hs =>
  ⟨hs, fun _ h => by cases h; exact ha⟩

theorem keeps_throw (e : TargetError) : (throw e : Work α).Keeps serve d P Q := fun _ _ hs =>
  ⟨hs, fun _ h => by cases h⟩

/-- The machine may answer so. -/
def Answers (serve : (c : Command) → ω → c.Reply × ω) (c : Command) (a : c.Answer) : Prop :=
  ∃ x, (serve c x).1 = .ok a

theorem keeps_askAs (meaning : WireError → TargetError) (c : Command) :
    (askAs meaning c).Keeps serve d P (Answers serve c) := by
  intro s x hs
  refine ⟨hs, fun a ha => ⟨x, ?_⟩⟩
  change (serve c x).1.mapError meaning = .ok a at ha
  cases hreply : (serve c x).1 with
  | error e =>
    rw [hreply] at ha
    cases ha
  | ok b =>
    rw [hreply] at ha
    cases ha
    rfl

theorem keeps_ask (c : Command) : (ask c).Keeps serve d P (Answers serve c) := keeps_askAs _ c

theorem keeps_askThread (t : ThreadId) (c : Command) :
    (askThread t c).Keeps serve d P (Answers serve c) := keeps_askAs _ c

theorem keeps_attempt (c : Command) : (attempt c).Keeps serve d P fun _ => True := fun _ _ hs =>
  ⟨hs, fun _ _ => trivial⟩

theorem keeps_state : state.Keeps serve d P fun s => s.Remembers d P := fun s _ hs =>
  ⟨hs, fun _ h => by cases h; exact hs⟩

theorem keeps_updateGet {f : TargetState → α × TargetState}
    (htypes : ∀ s, (f s).2.types = s.types) (hdeclared : ∀ s, (f s).2.declared = s.declared) :
    (updateGet f).Keeps serve d P fun _ => True := fun s _ hs =>
  ⟨⟨fun id info h => hs.types id info (htypes s ▸ h),
    fun c members h => hs.declared c members (hdeclared s ▸ h)⟩, fun _ _ => trivial⟩

theorem keeps_update {f : TargetState → TargetState}
    (h : ∀ s, s.Remembers d P → (f s).Remembers d P) :
    (update f).Keeps serve d P fun _ => True := fun s _ hs => ⟨h s hs, fun _ _ => trivial⟩

theorem keeps_updateRequests (f : RequestTable → RequestTable) :
    (updateRequests f).Keeps serve d P fun _ => True :=
  keeps_update fun _ hs => ⟨hs.types, hs.declared⟩

theorem run_state (s : TargetState) (x : ω) :
    (ExceptT.run state).run serve s x = (.ok s, s, x) := rfl

theorem run_askAs (meaning : WireError → TargetError) (c : Command) (s : TargetState) (x : ω) :
    (ExceptT.run (askAs meaning c)).run serve s x =
      ((serve c x).1.mapError meaning, s, (serve c x).2) := rfl

theorem run_typeInfo (h : d.ServedBy serve) (id : TypeId) (kind : Option TypeKind) (s : TargetState)
    (x : ω) : ((ExceptT.run (typeInfo id kind)).run serve s x).1 = d.look s id kind ∧
      ((ExceptT.run (typeInfo id kind)).run serve s x).2.1 = d.looked s id kind := by
  have hreply := h.fixed (.signature id) x rfl
  rw [typeInfo, run_andThen, run_state]
  dsimp only
  unfold Classes.look Classes.looked Classes.learn
  cases s.types.get? id with
  | some info => exact ⟨rfl, rfl⟩
  | none =>
    dsimp only
    rw [run_andThen, ask, run_askAs, hreply]
    cases d.reply (.signature id) with
    | error e => exact ⟨rfl, rfl⟩
    | ok signature => exact ⟨rfl, rfl⟩

theorem keeps_typeInfo (h : d.ServedBy serve) {id : TypeId} {kind : Option TypeKind}
    (hlearn : ∀ info, d.learn id kind = .ok info → P info) :
    (typeInfo id kind).Keeps serve d P fun info => info.id = id ∧ P info := by
  intro s x hs
  obtain ⟨hresult, hstate⟩ := run_typeInfo h id kind s x
  rw [hresult, hstate]
  refine ⟨hs.looked hlearn, fun info hinfo => ?_⟩
  unfold Classes.look at hinfo
  split at hinfo
  · next hknown =>
    cases hinfo
    exact hs.types id info hknown
  · exact ⟨Classes.learn_id hinfo, hlearn info hinfo⟩

theorem run_declaredMethods (h : d.ServedBy serve) (c : TypeId) {s : TargetState} (x : ω)
    (hs : s.Remembers d P) : ((ExceptT.run (declaredMethods c)).run serve s x).1 =
        (d.reply (.methods c)).mapError WireError.toTarget ∧
      ((ExceptT.run (declaredMethods c)).run serve s x).2.1.types = s.types ∧
      ((ExceptT.run (declaredMethods c)).run serve s x).2.1.Remembers d P := by
  have hreply := h.fixed (.methods c) x rfl
  rw [declaredMethods, run_andThen, run_state]
  dsimp only
  cases hknown : s.declared.get? c with
  | some members =>
    rw [hs.declared c members hknown]
    exact ⟨rfl, rfl, hs⟩
  | none =>
    dsimp only
    rw [run_andThen, ask, run_askAs, hreply]
    cases hmethods : d.reply (.methods c) with
    | error e => exact ⟨rfl, rfl, hs⟩
    | ok members =>
      refine ⟨rfl, rfl, hs.types, fun other found hfound => ?_⟩
      change (s.declared.insert c members).get? other = some found at hfound
      rw [Dict.get?_insert] at hfound
      split at hfound
      · next hother =>
        cases hfound
        rw [hother]
        exact hmethods
      · exact hs.declared other found hfound

theorem keeps_declaredMethods (h : d.ServedBy serve) (c : TypeId) :
    (declaredMethods c).Keeps serve d P fun members => d.reply (.methods c) = .ok members := by
  intro s x hs
  obtain ⟨hresult, -, hstate⟩ := run_declaredMethods h c x hs
  refine ⟨hstate, fun members hmembers => ?_⟩
  rw [hresult] at hmembers
  cases hreply : d.reply (.methods c) with
  | error e =>
    rw [hreply] at hmembers
    cases hmembers
  | ok found =>
    rw [hreply] at hmembers
    exact congrArg Except.ok (Except.ok.inj hmembers)

theorem keeps_lineTable? (c : TypeId) (m : MethodId) :
    (lineTable? c m).Keeps serve d P fun _ => True := by
  refine (keeps_attempt _).bind fun reply _ => ?_
  rcases reply with e | table
  · cases e with
    | vm code => exact keeps_pure trivial
    | _ => exact keeps_throw _
  · exact keeps_pure trivial

theorem keeps_superclass? (c : TypeId) : (superclass? c).Keeps serve d P fun _ => True := by
  refine (keeps_attempt _).bind fun reply _ => ?_
  rcases reply with e | up <;> exact keeps_pure trivial

/-- A type that its place in a location shows. -/
def Shows (P : TypeInfo → Prop) (l : Location) : Prop :=
  ∃ info, info.id = l.classId ∧ P info ∧ l.typeTag = info.kind.tag

theorem keeps_lineStarts (tag : UInt8) (c : TypeId) (line : UInt32) (members : List Member) :
    (lineStarts tag c line members).Keeps serve d P fun ls =>
      ∀ l ∈ ls, l.typeTag = tag ∧ l.classId = c := by
  induction members with
  | nil => exact keeps_pure fun l hl => absurd hl List.not_mem_nil
  | cons m members ih =>
    refine (keeps_lineTable? c m.id).bind fun table _ => ih.bind fun others hothers => ?_
    refine keeps_pure fun l hl => ?_
    rcases List.mem_append.1 hl with hl | hl
    · obtain ⟨index, -, rfl⟩ := Option.map_eq_some_iff.1 (Option.mem_toList.1 hl)
      exact ⟨rfl, rfl⟩
    · exact hothers l hl

theorem keeps_lineLocations (h : d.ServedBy serve) {c : TypeId} (line : UInt32)
    (hguess : ∀ info, d.learn c none = .ok info → P info) :
    (lineLocations c line).Keeps serve d P fun ls => ∀ l ∈ ls, Shows P l := by
  refine (keeps_typeInfo h hguess).bind fun info hinfo => ?_
  refine (keeps_declaredMethods h c).bind fun members _ => ?_
  refine (keeps_lineStarts info.kind.tag c line members).mono fun ls hls l hl => ?_
  obtain ⟨htag, hclass⟩ := hls l hl
  exact ⟨info, hinfo.1.trans hclass.symm, hinfo.2, htag⟩

theorem keeps_methodEntry (h : d.ServedBy serve) {m : Method}
    (hguess : ∀ info, d.learn m.declaringType none = .ok info → P info) :
    (methodEntry m).Keeps serve d P fun l? => ∀ l ∈ l?, Shows P l := by
  refine (keeps_typeInfo h hguess).bind fun info hinfo => ?_
  refine (keeps_lineTable? m.declaringType m.id).bind fun table _ => keeps_pure fun l hl => ?_
  obtain ⟨entry, -, rfl⟩ := Option.map_eq_some_iff.1 hl
  exact ⟨info, hinfo.1, hinfo.2, rfl⟩

theorem keeps_place (h : d.ServedBy serve) {l : Location}
    (hguess : ∀ info, d.learn l.classId none = .ok info → P info) :
    (place l).Keeps serve d P fun p =>
      ∃ info, info.id = l.classId ∧ P info ∧ p.className = info.name := by
  refine (keeps_typeInfo h hguess).bind fun info hinfo => ?_
  refine (keeps_declaredMethods h l.classId).bind fun members _ => ?_
  refine (keeps_lineTable? l.classId l.methodId).bind fun table _ => ?_
  exact (keeps_attempt _).bind fun source _ => keeps_pure ⟨info, hinfo.1, hinfo.2, rfl⟩

theorem keeps_types (h : d.ServedBy serve) {kind : TypeKind} {ids : List TypeId}
    (hlearn : ∀ id ∈ ids, ∀ info, d.learn id (some kind) = .ok info → P info) :
    (types kind ids).Keeps serve d P fun infos => ∀ info ∈ infos, P info := by
  induction ids with
  | nil => exact keeps_pure fun info hinfo => absurd hinfo List.not_mem_nil
  | cons id ids ih =>
    refine (keeps_typeInfo h (hlearn id List.mem_cons_self)).bind fun info hinfo => ?_
    refine (ih fun c hc => hlearn c (List.mem_cons_of_mem id hc)).bind fun infos hinfos => ?_
    exact keeps_pure (List.forall_mem_cons.2 ⟨hinfo.2, hinfos⟩)

theorem keeps_classesByName (h : d.ServedBy serve) {name : String}
    (hlisted : ∀ found, d.reply (.classesBySignature (Signature.ofTypeName name)) = .ok found →
      ∀ t ∈ found, P ⟨LoadedType.id t, name, TypeKind.ofTag t.tag⟩) :
    (answer (.classesByName name)).Keeps serve d P fun _ => True := by
  refine (keeps_ask (.classesBySignature (Signature.ofTypeName name))).bind fun found hfound => ?_
  obtain ⟨x, hx⟩ := hfound
  rw [h.fixed _ x rfl] at hx
  refine (keeps_update fun s hs => ?_).bind fun _ _ => keeps_pure trivial
  generalize hinfos : List.map (fun c : LoadedType =>
    (⟨c.id, name, TypeKind.ofTag c.tag⟩ : TypeInfo)) found = infos
  replace hinfos : ∀ info ∈ infos, P info := by
    rintro info hinfo
    rw [← hinfos] at hinfo
    obtain ⟨t, ht, rfl⟩ := List.mem_map.1 hinfo
    exact hlisted found hx t ht
  induction infos generalizing s with
  | nil => exact hs
  | cons info infos ih =>
    exact ih _ (hs.insert (hinfos info List.mem_cons_self)) fun other hother =>
      hinfos other (List.mem_cons_of_mem info hother)

section
variable (h : d.ServedBy serve) (hP : ∀ info, d.Exact info → P info)
include h hP

theorem keeps_superclass (c : TypeId) :
    (answer (.superclass c)).Keeps serve d P fun up => ∀ info ∈ up, P info := by
  refine (keeps_ask (.superclass c)).bind fun up hup => ?_
  obtain ⟨x, hx⟩ := hup
  rw [h.fixed _ x rfl] at hx
  rcases up with - | up
  · exact keeps_pure fun info hinfo => by cases hinfo
  · have hlearn : ∀ info, d.learn up (some .classType) = .ok info → P info := fun info hinfo =>
      hP info (h.exact_of_learn hinfo (h.superclass c up hx).symm nofun)
    refine (keeps_typeInfo h hlearn).bind fun info hinfo => ?_
    exact keeps_pure fun other hother => Option.mem_some_iff.1 hother ▸ hinfo.2

theorem keeps_interfaces (c : TypeId) :
    (answer (.interfaces c)).Keeps serve d P fun infos => ∀ info ∈ infos, P info := by
  refine (keeps_ask (.interfaces c)).bind fun ids hids => ?_
  obtain ⟨x, hx⟩ := hids
  rw [h.fixed _ x rfl] at hx
  refine keeps_types h fun id hid info hinfo => hP info (h.exact_of_learn hinfo ?_ nofun)
  exact (h.interfaces c ids hx id hid).symm

theorem keeps_object? (id : ObjectId) : (object? id).Keeps serve d P fun o? =>
    ∀ o ∈ o?, ∃ info, info.id = o.typeId ∧ P info ∧ o.runtimeType = info.name := by
  unfold object?
  split
  · exact keeps_pure fun o ho => by cases ho
  · refine (keeps_askAs _ (.typeOf id)).bind fun type htype => ?_
    obtain ⟨x, hx⟩ := htype
    have hlearn : ∀ info, d.learn (Tagged.id type) (some (TypeKind.ofTag type.tag)) = .ok info →
        P info := fun info hinfo =>
      hP info (h.exact_of_learn hinfo (h.typeOf id x type hx) nofun)
    refine (keeps_typeInfo h hlearn).bind fun info hinfo => keeps_pure fun o ho => ?_
    cases Option.mem_some_iff.1 ho
    exact ⟨info, hinfo.1, hinfo.2, rfl⟩

theorem keeps_object (id : ObjectId) (missing : String) :
    (object id missing).Keeps serve d P fun _ => True := by
  refine (keeps_object? h hP id).bind fun o? _ => ?_
  cases o? with
  | some o => exact keeps_pure trivial
  | none => exact keeps_throw _

theorem keeps_value (v : WireValue) : (value v).Keeps serve d P fun _ => True := by
  cases v with
  | object tag id =>
    refine (keeps_object? h hP id).bind fun o? _ => ?_
    cases o? <;> exact keeps_pure trivial
  | _ => exact keeps_pure trivial

theorem keeps_values (vs : List WireValue) : (values vs).Keeps serve d P fun _ => True := by
  induction vs with
  | nil => exact keeps_pure trivial
  | cons v vs ih =>
    exact (keeps_value h hP v).bind fun _ _ => ih.bind fun _ _ => keeps_pure trivial

theorem keeps_firstValue (vs : List WireValue) :
    (firstValue vs).Keeps serve d P fun _ => True := by
  cases vs with
  | nil => exact keeps_throw _
  | cons v vs => exact keeps_value h hP v

theorem keeps_outcome (r : InvokeReply) : (outcome r).Keeps serve d P fun _ => True := by
  refine (keeps_object? h hP r.exception.id).bind fun o? _ => ?_
  cases o? with
  | some o => exact keeps_pure trivial
  | none => exact (keeps_value h hP r.value).bind fun _ _ => keeps_pure trivial

theorem keeps_event {e : WireEvent} (he : ∀ t tag c signature status,
      e.happening = .classPrepare t tag c signature status →
      d.reply (.signature c) = .ok signature ∧ TypeKind.ofTag tag = d.kind c) :
    (event e).Keeps serve d P fun _ => True := by
  obtain ⟨request, happening⟩ := e
  have hrequest : (requestOf request).Keeps serve d P fun _ => True :=
    keeps_state.bind fun _ _ => keeps_pure trivial
  cases happening with
  | vmStart | threadStart | threadDeath | vmDeath => exact keeps_pure trivial
  | step | breakpoint => exact hrequest.bind fun _ _ => keeps_pure trivial
  | exception t l x c =>
    exact (keeps_object h hP x.id _).bind fun _ _ => hrequest.bind fun _ _ => keeps_pure trivial
  | classPrepare t tag c signature status =>
    obtain ⟨hsignature, hkind⟩ := he t tag c signature status rfl
    have hinfo : P ⟨c, Signature.toTypeName signature, TypeKind.ofTag tag⟩ :=
      hP _ ⟨signature, hsignature, rfl, hkind⟩
    refine hrequest.bind fun _ _ => Keeps.bind (Q := fun _ => True) ?_ fun _ _ => keeps_pure trivial
    exact Keeps.bind (keeps_update fun s hs => hs.insert hinfo) fun _ _ => keeps_pure trivial

theorem keeps_eventSet {set : WireEventSet} (hset : d.Prepares set) :
    (eventSet set).Keeps serve d P fun _ => True := by
  have hevents (es : List WireEvent) (hes : ∀ e ∈ es, e ∈ set.events) :
      (events es).Keeps serve d P fun _ => True := by
    induction es with
    | nil => exact keeps_pure trivial
    | cons e es ih =>
      refine (keeps_event h hP (hset e (hes e List.mem_cons_self))).bind fun _ _ => ?_
      refine (ih fun e he => hes e (List.mem_cons_of_mem _ he)).bind fun _ _ => ?_
      exact keeps_pure trivial
  exact (hevents set.events fun _ he => he).bind fun _ _ => keeps_pure trivial

end

theorem keeps_methodsFrom (h : d.ServedBy serve) (fuel : Nat) (c : TypeId) (constructors : Bool)
    (found : List Method) :
    (methodsFrom fuel c constructors found).Keeps serve d P fun _ => True := by
  induction fuel generalizing c constructors found with
  | zero => exact keeps_pure trivial
  | succ fuel ih =>
    refine (keeps_declaredMethods h c).bind fun members _ => ?_
    refine (keeps_superclass? c).bind fun up _ => ?_
    cases up with
    | some up => exact ih up false _
    | none => exact keeps_pure trivial

theorem keeps_fieldsFrom (fuel : Nat) (c : TypeId) (found : List Field) :
    (fieldsFrom fuel c found).Keeps serve d P fun _ => True := by
  induction fuel generalizing c found with
  | zero => exact keeps_pure trivial
  | succ fuel ih =>
    refine (keeps_ask (.fields c)).bind fun members _ => ?_
    refine (keeps_superclass? c).bind fun up _ => ?_
    cases up with
    | some up => exact ih up _
    | none => exact keeps_pure trivial

theorem keeps_threadInfo (t : ThreadId) : (threadInfo t).Keeps serve d P fun _ => True :=
  (keeps_askThread t (.threadName t)).bind fun _ _ =>
    (keeps_askThread t (.threadStatus t)).bind fun _ _ => keeps_pure trivial

theorem keeps_tryCatch {handle : TargetError → Work α} (h : w.Keeps serve d P Q)
    (hhandle : ∀ e, (handle e).Keeps serve d P Q) :
    (tryCatch w handle).Keeps serve d P Q := by
  intro s x hs
  obtain ⟨hstate, hresult⟩ := h s x hs
  have hrun : (ExceptT.run (tryCatch w handle)).run serve s x =
      match (ExceptT.run w).run serve s x with
      | (.ok a, s, x) => (.ok a, s, x)
      | (.error e, s, x) => (ExceptT.run (handle e)).run serve s x := by
    show (Routine.bind (ExceptT.run w) _).run serve s x = _
    rw [Routine.run_bind]
    rcases (ExceptT.run w).run serve s x with ⟨a | e, s, x⟩ <;> rfl
  rw [hrun]
  rcases hw : (ExceptT.run w).run serve s x with ⟨e | a, t, y⟩
  · rw [hw] at hstate
    exact hhandle e t y hstate
  · rw [hw] at hstate hresult
    exact ⟨hstate, hresult⟩

theorem keeps_threadInfos (ts : List ThreadId) :
    (threadInfos ts).Keeps serve d P fun _ => True := by
  induction ts with
  | nil => exact keeps_pure trivial
  | cons t ts ih =>
    refine Keeps.bind (Q := fun _ => True) ?_ fun _ _ => ih.bind fun _ _ => keeps_pure trivial
    refine keeps_tryCatch ?_ fun e => ?_
    · exact (keeps_threadInfo t).bind fun _ _ => keeps_pure trivial
    · cases e with
      | invalidThread => exact keeps_pure trivial
      | _ => exact keeps_throw _

theorem keeps_visibleVariables (f : Frame) :
    (visibleVariables f).Keeps serve d P fun _ => True := by
  refine (keeps_attempt _).bind fun reply _ => ?_
  rcases reply with e | table
  · dsimp only
    split
    · exact keeps_pure trivial
    · exact keeps_throw _
  · exact keeps_pure trivial

theorem keeps_checkIndex (a : ObjectRef) (i : Int32) :
    (checkIndex a i).Keeps serve d P fun _ => True := by
  refine (keeps_ask (.arrayLength a.id)).bind fun length _ => ?_
  dsimp only
  split
  · exact keeps_throw _
  · exact keeps_pure trivial

theorem keeps_install (kind : EventCode) (policy : SuspendPolicy) (modifiers : List Modifier) :
    (install kind policy modifiers).Keeps serve d P fun _ => True :=
  (keeps_ask (.setRequest kind.code policy.code modifiers)).bind fun _ _ =>
    keeps_updateGet (fun _ => rfl) (fun _ => rfl)

theorem keeps_setEnabled (id : RequestId) (enabled : Bool) :
    (setEnabled id enabled).Keeps serve d P fun _ => True := by
  refine keeps_state.bind fun s _ => ?_
  cases s.requests.entries.get? id with
  | none => exact keeps_throw _
  | some e =>
    dsimp only
    split
    · exact (keeps_ask (.setRequest e.kind.code e.policy.code e.modifiers)).bind fun _ _ =>
        keeps_updateRequests _
    · next wireId _ =>
      exact (keeps_ask (.clearRequest e.kind.code wireId)).bind fun _ _ => keeps_updateRequests _
    · exact keeps_pure trivial

theorem keeps_deleteRequest (id : RequestId) :
    (deleteRequest id).Keeps serve d P fun _ => True := by
  refine Keeps.bind (keeps_updateGet (fun _ => rfl) (fun _ => rfl)) fun removed _ => ?_
  cases removed with
  | none => exact keeps_throw _
  | some e =>
    dsimp only
    cases e.wireId with
    | some wireId => exact (keeps_ask _).any
    | none => exact keeps_pure trivial

theorem keeps_resumeSet (set : EventSet) : (resumeSet set).Keeps serve d P fun _ => True := by
  unfold resumeSet
  split
  · exact keeps_pure trivial
  · split
    · exact (keeps_askThread _ _).any
    · exact keeps_pure trivial
  · exact (keeps_ask _).any

theorem keeps_leave : leave.Keeps serve d P fun _ => True := by
  refine keeps_state.bind fun s _ => ?_
  cases s.disposed with
  | true => exact keeps_pure trivial
  | false =>
    refine Keeps.bind (keeps_update fun _ hs => ⟨hs.types, hs.declared⟩) fun _ _ => ?_
    refine (keeps_attempt .dispose).bind fun reply _ => ?_
    refine Keeps.bind (keeps_update fun _ hs => ⟨hs.types, hs.declared⟩) fun _ _ => ?_
    split
    · exact keeps_pure trivial
    · exact keeps_pure trivial
    · exact keeps_pure trivial
    · exact keeps_throw _

end Work

end JvmDebug.Wire
