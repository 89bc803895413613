import JvmDebug.Eval.Subtype
import JvmDebug.Proofs.KnownTypes
import JvmDebug.Proofs.Superclasses
import JvmDebug.Vm.Answer

/-!
The members of a class, its own and those of its superclasses. The machine in memory goes through a
list of classes and a target on the wire asks one class after the other, but both keep the nearest
declaration of every member: main result `Wire.Work.members_alike`.
-/
namespace JvmDebug

/-! ## The first of each key -/

section
variable {α κ : Type} [BEq κ] [LawfulBEq κ] (key : α → κ)

/-- Adds the element unless one with its key is there. -/
def addFirst (found : List α) (a : α) : List α :=
  if found.any fun o => key o == key a then found else found ++ [a]

/-- Of each key only the first element, behind those already found. -/
def firsts (found l : List α) : List α := l.foldl (addFirst key) found

theorem find?_firsts (q : κ → Bool) (found l : List α) :
    (firsts key found l).find? (fun a => q (key a)) = (found ++ l).find? fun a => q (key a) := by
  induction l generalizing found with
  | nil => rw [List.append_nil]; rfl
  | cons a l ih =>
    show (firsts key (addFirst key found a) l).find? _ = _
    rw [ih, addFirst]
    split
    · next hmet =>
      obtain ⟨b, hb, hkey⟩ := List.any_eq_true.1 hmet
      have hkey : key b = key a := eq_of_beq hkey
      simp only [List.find?_append, List.find?_cons]
      cases hq : q (key a) with
      | false => rfl
      | true =>
        have hsome : (found.find? fun a => q (key a)).isSome :=
          List.find?_isSome.2 ⟨b, hb, by rw [hkey, hq]⟩
        obtain ⟨c, hc⟩ := Option.isSome_iff_exists.1 hsome
        simp [hc]
    · rw [List.append_assoc, List.singleton_append]

theorem nodup_firsts {found : List α} (h : (found.map key).Nodup) (l : List α) :
    ((firsts key found l).map key).Nodup := by
  induction l generalizing found with
  | nil => exact h
  | cons a l ih =>
    refine ih ?_
    rw [addFirst]
    split
    · exact h
    · next hnew =>
      rw [List.map_append, List.nodup_append]
      refine ⟨h, List.nodup_singleton _, fun x hx y hy hxy => hnew ?_⟩
      obtain ⟨o, ho, rfl⟩ := List.mem_map.1 hx
      rw [List.map_singleton, List.mem_singleton] at hy
      exact List.any_eq_true.2 ⟨o, ho, by simp [hxy, hy]⟩

theorem filter_firsts (q : κ → Bool) (found l : List α) :
    (firsts key found l).filter (fun a => q (key a)) =
      firsts key (found.filter fun a => q (key a)) (l.filter fun a => q (key a)) := by
  induction l generalizing found with
  | nil => rfl
  | cons a l ih =>
    show (firsts key (addFirst key found a) l).filter _ = _
    rw [ih]
    cases hq : q (key a) with
    | false =>
      have hsame : (addFirst key found a).filter (fun a => q (key a)) =
          found.filter fun a => q (key a) := by
        rw [addFirst]
        split
        · rfl
        · simp [hq]
      rw [hsame, List.filter_cons_of_neg (by simp [hq])]
    | true =>
      have hsame : (addFirst key found a).filter (fun a => q (key a)) =
          addFirst key (found.filter fun a => q (key a)) a := by
        have hmet : (found.filter fun a => q (key a)).any (fun o => key o == key a) =
            found.any fun o => key o == key a := by
          rw [Bool.eq_iff_iff, List.any_eq_true, List.any_eq_true]
          constructor
          · rintro ⟨o, ho, hkey⟩
            exact ⟨o, (List.mem_filter.1 ho).1, hkey⟩
          · rintro ⟨o, ho, hkey⟩
            exact ⟨o, List.mem_filter.2 ⟨ho, by rw [eq_of_beq hkey, hq]⟩, hkey⟩
        rw [addFirst, addFirst, hmet]
        split
        · rfl
        · simp [hq]
      rw [hsame, List.filter_cons_of_pos (by simp [hq])]
      rfl

theorem mem_firsts {l : List α} {a : α} :
    a ∈ firsts key [] l ↔ l.find? (fun o => key o == key a) = some a := by
  have hfind := find?_firsts key (· == key a) [] l
  rw [List.nil_append] at hfind
  rw [← hfind]
  constructor
  · intro h
    obtain ⟨b, hb⟩ := Option.isSome_iff_exists.1
      (List.find?_isSome (p := fun o => key o == key a).2 ⟨a, h, beq_self_eq_true _⟩)
    have hkey : key b = key a := by simpa using List.find?_some hb
    have hnodup : ((firsts key [] l).map key).Nodup :=
      nodup_firsts key (by simp) l
    rw [List.inj_on_of_nodup_map hnodup (List.mem_of_find?_eq_some hb) h hkey] at hb
    exact hb
  · exact List.mem_of_find?_eq_some

end

/-! ## Classes and their members -/

def Method.key (m : Method) : String × String := (m.name, m.signature)

def VmClass.Owns (c : TypeId) (k : VmClass) : Prop :=
  k.info.id = c ∧ (∀ m ∈ k.methods, m.declaringType = c) ∧ ∀ f ∈ k.fields, f.declaringType = c

namespace Vm
variable {vm : Vm} {c d : TypeId}

/-- Every class is filed under its id and has the members that name it as their class. -/
def OwnMembers (vm : Vm) : Prop := ∀ c k, vm.classes.get? c = some k → k.Owns c

theorem ownMembers_addClass (h : vm.OwnMembers) (name : String) (kind : TypeKind)
    (superclass : Option TypeId) (loaded : Bool) :
    (vm.addClass name kind superclass loaded).2.OwnMembers := by
  intro c k hk
  change (vm.classes.insert vm.nextId _).get? c = some k at hk
  rw [Dict.get?_insert] at hk
  split at hk
  · next hc =>
    cases hk
    exact ⟨hc.symm, by simp, by simp⟩
  · exact h c k hk

theorem ownMembers_modifyClass (h : vm.OwnMembers) {f : VmClass → VmClass}
    (hf : ∀ k : VmClass, k.Owns c → (f k).Owns c) : (vm.modifyClass c f).OwnMembers := by
  intro d k hk
  change (vm.classes.modify c f).get? d = some k at hk
  rw [Dict.get?_modify] at hk
  split at hk
  · next hd =>
    obtain ⟨k', hk', rfl⟩ := Option.map_eq_some_iff.1 hk
    exact hd ▸ hf k' (h c k' hk')
  · exact h d k hk

theorem ownMembers_addField (h : vm.OwnMembers) (c : TypeId) (name signature : String)
    (isStatic : Bool) : (vm.addField c name signature isStatic).2.OwnMembers :=
  have hnext : vm.allocate.2.OwnMembers := h
  ownMembers_modifyClass hnext fun _ ⟨hid, hmethods, hfields⟩ =>
    ⟨hid, hmethods, List.forall_mem_append.2 ⟨hfields, List.forall_mem_singleton.2 rfl⟩⟩

theorem ownMembers_addMethod (h : vm.OwnMembers) (c : TypeId) (name signature : String)
    (isStatic : Bool) (body : Option Body) :
    (vm.addMethod c name signature isStatic body).2.OwnMembers := by
  have hnext : vm.allocate.2.OwnMembers := h
  have hclass (m : Method) (hm : m.declaringType = c) :
      (vm.allocate.2.modifyClass c fun k => { k with methods := k.methods ++ [m] }).OwnMembers :=
    ownMembers_modifyClass hnext fun _ ⟨hid, hmethods, hfields⟩ =>
      ⟨hid, List.forall_mem_append.2 ⟨hmethods, List.forall_mem_singleton.2 hm⟩, hfields⟩
  cases body with
  | none => exact hclass _ rfl
  | some body => exact hclass _ rfl

/-- What is loaded into the machine, piece by piece. -/
inductive Piece
  | type (name : String) (kind : TypeKind) (superclass : Option TypeId) (loaded : Bool)
  | interface (c interface : TypeId)
  | method (c : TypeId) (name signature : String) (isStatic : Bool) (body : Option Body)
  | field (c : TypeId) (name signature : String) (isStatic : Bool)
  deriving DecidableEq, Repr

def load (vm : Vm) : Piece → Vm
  | .type name kind superclass loaded => (vm.addClass name kind superclass loaded).2
  | .interface c interface => vm.addInterface c interface
  | .method c name signature isStatic body => (vm.addMethod c name signature isStatic body).2
  | .field c name signature isStatic => (vm.addField c name signature isStatic).2

def loadAll (vm : Vm) (pieces : List Piece) : Vm := pieces.foldl load vm

theorem ownMembers_load (h : vm.OwnMembers) (piece : Piece) : (vm.load piece).OwnMembers := by
  cases piece with
  | type name kind superclass loaded => exact ownMembers_addClass h name kind superclass loaded
  | interface c interface => exact ownMembers_modifyClass h fun _ hk => hk
  | method c name signature isStatic body => exact ownMembers_addMethod h c name signature isStatic body
  | field c name signature isStatic => exact ownMembers_addField h c name signature isStatic

theorem ownMembers_loadAll (pieces : List Piece) : (loadAll {} pieces).OwnMembers := by
  have hall (vm : Vm) (h : vm.OwnMembers) : (vm.loadAll pieces).OwnMembers := by
    induction pieces generalizing vm with
    | nil => exact h
    | cons piece pieces ih => exact ih _ (ownMembers_load h piece)
  exact hall {} fun _ _ h => (Option.some_ne_none _ h.symm).elim

/-- The classes of the machine, with superclasses among them and no class above itself. -/
structure ClassGraph (vm : Vm) : Prop where
  own : vm.OwnMembers
  closed : ∀ c d, vm.Extends c d → vm.classes.contains d
  acyclic : ∀ c, ¬Relation.TransGen vm.Extends c c

theorem acyclic_of_lt (h : ∀ c d, vm.Extends c d → d < c) (c : TypeId) :
    ¬Relation.TransGen vm.Extends c c := by
  have hlt {a b : TypeId} (hab : Relation.TransGen vm.Extends a b) : b < a := by
    induction hab with
    | single hab => exact h _ _ hab
    | tail _ hbc ih => exact UInt64.lt_trans (h _ _ hbc) ih
  exact fun hc => UInt64.lt_irrefl c (hlt hc)

theorem extends_unique {e : TypeId} (h : vm.Extends c d) (h' : vm.Extends c e) : d = e :=
  Option.some.inj (h.symm.trans h')

/-! ## Lines of superclasses -/

/-- The class and its superclasses, up to the one that has none. -/
inductive Lineage (vm : Vm) : TypeId → List VmClass → Prop
  | root {c : TypeId} {k : VmClass} (hk : vm.classes.get? c = some k) (hup : k.superclass = none) :
      Lineage vm c [k]
  | step {c d : TypeId} {k : VmClass} {ks : List VmClass} (hk : vm.classes.get? c = some k)
      (hup : k.superclass = some d) (h : Lineage vm d ks) : Lineage vm c (k :: ks)

theorem lineage_ancestors (h : vm.ClassGraph) {fuel : Nat} {met : List TypeId} (hmet : met.Nodup)
    (hbelow : ∀ x ∈ met, Relation.TransGen vm.Extends x c) (hc : vm.classes.contains c)
    (hfuel : vm.classes.size < fuel + met.length) :
    vm.Lineage c ((vm.ancestors fuel met c).filterMap vm.classes.get?) := by
  have hknown : ∀ x ∈ met, vm.classes.contains x := by
    intro x hx
    obtain ⟨y, hxy, -⟩ := Relation.TransGen.head'_iff.1 (hbelow x hx)
    obtain ⟨k, hk, -⟩ := Option.bind_eq_some_iff.1 hxy
    simp [Dict.contains, hk]
  induction fuel generalizing met c with
  | zero =>
    have := length_le_size hmet hknown
    omega
  | succ fuel ih =>
    have hnew : c ∉ met := fun hmem => h.acyclic c (hbelow c hmem)
    obtain ⟨k, hk⟩ := Option.isSome_iff_exists.1 hc
    rw [ancestors, if_neg (by simpa using hnew), List.filterMap_cons_some hk]
    cases hup : k.superclass with
    | none =>
      have hnone : (vm.classes.get? c).bind VmClass.superclass = none := by rw [hk]; exact hup
      rw [hnone]
      exact .root hk hup
    | some d =>
      have hextends : vm.Extends c d := by rw [Extends, hk]; exact hup
      have hsome : (vm.classes.get? c).bind VmClass.superclass = some d := hextends
      rw [hsome]
      refine .step hk hup (ih (List.nodup_cons.2 ⟨hnew, hmet⟩) ?_ (h.closed c d hextends) ?_ ?_)
      · exact List.forall_mem_cons.2 ⟨.single hextends, fun x hx => (hbelow x hx).tail hextends⟩
      · rw [List.length_cons]
        omega
      · exact List.forall_mem_cons.2 ⟨hc, hknown⟩

theorem lineage_knownHierarchy (h : vm.ClassGraph) (hc : vm.classes.contains c) :
    vm.Lineage c (vm.knownHierarchy c) :=
  lineage_ancestors h List.nodup_nil (by simp) hc (Nat.lt_succ_self _)

variable {ks : List VmClass}

theorem Lineage.reaches (h : vm.Lineage c ks) (hown : vm.OwnMembers) {k : VmClass} (hk : k ∈ ks) :
    Relation.ReflTransGen vm.Extends c k.info.id := by
  induction h with
  | @root c k' hget hup =>
    rw [List.mem_singleton.1 hk, (hown c k' hget).1]
  | @step c d k' ks hget hup _ ih =>
    rcases List.mem_cons.1 hk with rfl | hk
    · rw [(hown c k hget).1]
    · exact .head (show vm.Extends c d by rw [Extends, hget]; exact hup) (ih hk)

/-- No class comes twice, so a line is no longer than there are ids. -/
theorem Lineage.length_le (h : vm.Lineage c ks) (hgraph : vm.ClassGraph) :
    ks.length ≤ UInt64.size := by
  have hnodup : (ks.map fun k => k.info.id).Nodup := by
    induction h with
    | root => exact List.nodup_singleton _
    | @step c d k ks hget hup h ih =>
      refine List.nodup_cons.2 ⟨fun hmem => ?_, ih⟩
      obtain ⟨k', hk', hid⟩ := List.mem_map.1 hmem
      have hid : k'.info.id = c := hid.trans (hgraph.own c k hget).1
      have hextends : vm.Extends c d := by rw [Extends, hget]; exact hup
      have hreach := h.reaches hgraph.own hk'
      rw [hid] at hreach
      exact hgraph.acyclic c (Relation.TransGen.head' hextends hreach)
  have hlength := (Visited.mk _ hnodup).length_le
  rwa [List.length_map] at hlength

/-! ## The nearest declaration -/

/-- The method is the first that the class declares under its name and signature. -/
def Declares (vm : Vm) (c : TypeId) (m : Method) : Prop :=
  ∃ k, vm.classes.get? c = some k ∧ k.methods.find? (fun o => o.key == m.key) = some m

/-- The method is declared in the class or above it, and between the class and its own no class
declares one of the same name and signature. -/
structure Nearest (vm : Vm) (c : TypeId) (m : Method) : Prop where
  above : Relation.ReflTransGen vm.Extends c m.declaringType
  declared : vm.Declares m.declaringType m
  first : ∀ d, Relation.ReflTransGen vm.Extends c d →
    Relation.TransGen vm.Extends d m.declaringType → ∀ o, vm.Declares d o → o.key ≠ m.key

theorem Declares.declaringType (h : vm.OwnMembers) {m : Method} (hm : vm.Declares c m) :
    m.declaringType = c := by
  obtain ⟨k, hk, hfind⟩ := hm
  exact (h c k hk).2.1 m (List.mem_of_find?_eq_some hfind)

theorem nearest_own (h : vm.ClassGraph) {m : Method} (hm : vm.Declares c m) : vm.Nearest c m := by
  have hc := hm.declaringType h.own
  refine ⟨hc ▸ .refl, hc.symm ▸ hm, fun d hd hbelow => ?_⟩
  rw [hc] at hbelow
  exact absurd (Relation.TransGen.trans_right hd hbelow) (h.acyclic c)

theorem nearest_inherited {m : Method} (hextends : vm.Extends c d)
    (hnot : ∀ o, vm.Declares c o → o.key ≠ m.key) : vm.Nearest c m ↔ vm.Nearest d m := by
  constructor
  · rintro ⟨habove, hdeclared, hfirst⟩
    rcases Relation.ReflTransGen.cases_head habove with hc | ⟨e, he, habove⟩
    · exact absurd rfl (hnot m (hc ▸ hdeclared))
    · cases extends_unique he hextends
      exact ⟨habove, hdeclared, fun e he => hfirst e (.head hextends he)⟩
  · rintro ⟨habove, hdeclared, hfirst⟩
    refine ⟨.head hextends habove, hdeclared, fun e he => ?_⟩
    rcases Relation.ReflTransGen.cases_head he with rfl | ⟨e', he', habove'⟩
    · exact fun _ => hnot
    · cases extends_unique he' hextends
      exact hfirst e habove'

theorem declares_iff {k : VmClass} (hk : vm.classes.get? c = some k) {m : Method} :
    vm.Declares c m ↔ k.methods.find? (fun o => o.key == m.key) = some m := by
  constructor
  · rintro ⟨k', hk', hfind⟩
    cases hk.symm.trans hk'
    exact hfind
  · exact fun hfind => ⟨k, hk, hfind⟩

theorem not_declares {k : VmClass} (hk : vm.classes.get? c = some k) {m : Method}
    (hnone : k.methods.find? (fun o => o.key == m.key) = none) :
    ∀ o, vm.Declares c o → o.key ≠ m.key := by
  intro o ho hkey
  rw [declares_iff hk, hkey, hnone] at ho
  cases ho

theorem Lineage.find?_methods (h : vm.Lineage c ks) (hgraph : vm.ClassGraph) (m : Method) :
    (ks.flatMap VmClass.methods).find? (fun o => o.key == m.key) = some m ↔ vm.Nearest c m := by
  have own {c : TypeId} {k : VmClass} (hk : vm.classes.get? c = some k) {o : Method}
      (hfind : k.methods.find? (fun o => o.key == m.key) = some o) : o = m ↔ vm.Nearest c m := by
    constructor
    · rintro rfl
      exact nearest_own hgraph ⟨k, hk, hfind⟩
    · rintro ⟨habove, hdeclared, hfirst⟩
      have hkey : o.key = m.key := by simpa using List.find?_some hfind
      rcases Relation.ReflTransGen.cases_head habove with hc | ⟨e, he, habove⟩
      · rw [← hc, declares_iff hk, hfind] at hdeclared
        exact Option.some.inj hdeclared
      · refine absurd hkey (hfirst c .refl (.head' he habove) o ?_)
        rw [declares_iff hk, hkey, hfind]
  induction h with
  | @root c k hk hup =>
    rw [List.flatMap_singleton]
    cases hfind : k.methods.find? (fun o => o.key == m.key) with
    | some o => rw [Option.some.injEq, own hk hfind]
    | none =>
      refine ⟨fun hsome => (by cases hsome), fun ⟨habove, hdeclared, _⟩ => ?_⟩
      rcases Relation.ReflTransGen.cases_head habove with hc | ⟨e, he, _⟩
      · exact absurd rfl (not_declares hk hfind m (hc ▸ hdeclared))
      · rw [Extends, hk, Option.bind_some, hup] at he
        cases he
  | @step c d k ks hk hup h ih =>
    rw [List.flatMap_cons, List.find?_append]
    cases hfind : k.methods.find? (fun o => o.key == m.key) with
    | some o => rw [Option.some_or, Option.some.injEq, own hk hfind]
    | none =>
      have hextends : vm.Extends c d := by rw [Extends, hk]; exact hup
      rw [Option.none_or, nearest_inherited hextends (not_declares hk hfind)]
      exact ih

/-- What the class has of the methods of a class in its line: all of its own, and of others those
that are no constructors. -/
def offered (c : TypeId) (k : VmClass) : List Method :=
  k.methods.filter fun m => k.info.id == c || !m.isConstructor

theorem methodsOf_eq (vm : Vm) (c : TypeId) :
    vm.methodsOf c = firsts Method.key [] ((vm.knownHierarchy c).flatMap (offered c)) := by
  rw [methodsOf, firsts, List.foldl_flatMap]
  congr 1
  funext found k
  rw [offered, List.foldl_filter]
  congr 1
  funext found m
  have hmet : overridden found m = found.any fun o => o.key == m.key := rfl
  rw [hmet, addFirst]
  cases found.any fun o => o.key == m.key <;>
    cases k.info.id == c || !m.isConstructor <;> rfl

theorem fieldsOf_eq (vm : Vm) (c : TypeId) :
    vm.fieldsOf c = firsts Field.name [] ((vm.knownHierarchy c).flatMap VmClass.fields) := by
  rw [fieldsOf, firsts, List.foldl_flatMap]
  rfl

theorem Lineage.offered_eq (h : vm.Lineage c ks) (hgraph : vm.ClassGraph) :
    ∃ k above, ks = k :: above ∧ vm.classes.get? c = some k ∧
      ks.flatMap (offered c) =
        k.methods ++ (above.flatMap VmClass.methods).filter fun m => !m.isConstructor := by
  have hown {k : VmClass} (hk : vm.classes.get? c = some k) : offered c k = k.methods := by
    simp [offered, (hgraph.own c k hk).1]
  cases h with
  | @root _ k hk hup => exact ⟨k, [], rfl, hk, by simp [hown hk]⟩
  | @step _ d k ks hk hup h =>
    refine ⟨k, ks, rfl, hk, ?_⟩
    have hextends : vm.Extends c d := by rw [Extends, hk]; exact hup
    have hother : ∀ k' ∈ ks, offered c k' = k'.methods.filter fun m => !m.isConstructor := by
      intro k' hk'
      have hne : k'.info.id ≠ c := fun hid =>
        hgraph.acyclic c (Relation.TransGen.head' hextends (hid ▸ h.reaches hgraph.own hk'))
      simp only [offered, beq_eq_false_iff_ne.2 hne, Bool.false_or]
    rw [List.flatMap_cons, hown hk, List.flatMap_congr hother, List.filter_flatMap]

/-- A class has the nearest declarations, and of constructors only its own. -/
theorem mem_methodsOf (h : vm.ClassGraph) (hc : vm.classes.contains c) {m : Method} :
    m ∈ vm.methodsOf c ↔ vm.Nearest c m ∧ (m.isConstructor = true → m.declaringType = c) := by
  have hline := lineage_knownHierarchy h hc
  obtain ⟨k, above, hks, hk, hoffered⟩ := hline.offered_eq h
  have hfind := hline.find?_methods h m
  rw [methodsOf_eq, mem_firsts, hoffered]
  rw [hks, List.flatMap_cons] at hfind
  rw [List.find?_append] at hfind ⊢
  cases hmine : k.methods.find? (fun o => o.key == m.key) with
  | some o =>
    rw [hmine, Option.some_or] at hfind
    rw [Option.some_or, hfind]
    refine ⟨fun hnear => ⟨hnear, fun _ => ?_⟩, And.left⟩
    obtain rfl : o = m := Option.some.inj (hfind.2 hnear)
    exact Declares.declaringType h.own ⟨k, hk, hmine⟩
  | none =>
    rw [hmine, Option.none_or] at hfind
    rw [Option.none_or, List.find?_filter]
    have hkind (o : Method) (ho : (o.key == m.key) = true) : o.isConstructor = m.isConstructor := by
      rw [Method.isConstructor, Method.isConstructor, (Prod.mk.inj (eq_of_beq ho)).1]
    cases hctor : m.isConstructor with
    | true =>
      refine ⟨fun hsome => ?_, fun ⟨hnear, hown⟩ => ?_⟩
      · have := List.find?_some hsome
        simp [hctor] at this
      · exact absurd rfl (not_declares hk hmine m (hown rfl ▸ hnear.declared))
    | false =>
      have hsame : (fun o : Method => decide ((!o.isConstructor) = true ∧ (o.key == m.key) = true)) =
          fun o => o.key == m.key := by
        funext o
        cases ho : o.key == m.key with
        | false => simp
        | true => simp [hkind o ho, hctor]
      rw [hsame, hfind]
      simp

end Vm

/-! ## A target on the wire -/

namespace Wire
variable {ω : Type} {serve : (c : Command) → ω → c.Reply × ω} {vm : Vm}

def Member.ofMethod (m : Method) : Member := ⟨m.id, m.name, m.signature, m.modifiers⟩

def Member.ofField (f : Field) : Member := ⟨f.id, f.name, f.signature, f.modifiers⟩

def Member.toMethod (c : TypeId) (m : Member) : Method :=
  ⟨m.id, c, m.name, m.signature, m.modifiers⟩

def Member.toField (c : TypeId) (m : Member) : Field :=
  ⟨m.id, c, m.name, m.signature, m.modifiers⟩

/-- The machine on the wire tells of each class what the other has of it: the members that it
declares, in their order, and its superclass. One without a superclass may answer with an error. -/
structure Tells (vm : Vm) (serve : (c : Command) → ω → c.Reply × ω) : Prop where
  methods : ∀ c k, vm.classes.get? c = some k → ∀ x,
    (serve (.methods c) x).1 = .ok (k.methods.map Member.ofMethod)
  fields : ∀ c k, vm.classes.get? c = some k → ∀ x,
    (serve (.fields c) x).1 = .ok (k.fields.map Member.ofField)
  superclass : ∀ c k, vm.classes.get? c = some k → ∀ x up,
    (serve (.superclass c) x).1 = .ok (some up) ↔ k.superclass = some up

/-- A machine on the wire with these classes, which tells nothing else. -/
def teller (vm : Vm) : (c : Command) → Unit → c.Reply × Unit
  | .methods c, x => (match vm.classes.get? c with
    | some k => .ok (k.methods.map Member.ofMethod)
    | none => .error (.vm 20), x)
  | .fields c, x => (match vm.classes.get? c with
    | some k => .ok (k.fields.map Member.ofField)
    | none => .error (.vm 20), x)
  | .superclass c, x => (match (vm.classes.get? c).bind VmClass.superclass with
    | some up => .ok (some up)
    | none => .error (.vm 21), x)
  | _, x => (.error (.vm 99), x)

theorem tells_teller (vm : Vm) : Tells vm (teller vm) where
  methods c k hk x := by simp only [teller, hk]
  fields c k hk x := by simp only [teller, hk]
  superclass c k hk x up := by
    simp only [teller, hk, Option.bind_some]
    cases k.superclass with
    | none => simp
    | some d => simp

/-- The methods that the target remembers are those of the machine. -/
def TargetState.Recalls (vm : Vm) (s : TargetState) : Prop :=
  ∀ c k, vm.classes.get? c = some k → ∀ ms, s.declared.get? c = some ms →
    ms = k.methods.map Member.ofMethod

theorem TargetState.recalls_new : ({} : TargetState).Recalls vm := fun _ _ _ _ h =>
  (Option.some_ne_none _ h.symm).elim

namespace Work

/-- Whatever is no superclass is none. -/
theorem run_superclass?_eq (serve : (c : Command) → ω → c.Reply × ω) (c : TypeId) (s : TargetState)
    (x : ω) : (ExceptT.run (superclass? c)).run serve s x =
      (.ok (serve (.superclass c) x).1.toOption.join, s, (serve (.superclass c) x).2) := by
  have hattempt : (ExceptT.run (attempt (.superclass c))).run serve s x =
      (.ok (serve (.superclass c) x).1, s, (serve (.superclass c) x).2) := rfl
  rw [superclass?, run_andThen, hattempt]
  dsimp only
  cases (serve (.superclass c) x).1 with
  | ok up => rfl
  | error e => rfl

theorem run_superclass? (h : Tells vm serve) {c : TypeId} {k : VmClass}
    (hk : vm.classes.get? c = some k) (s : TargetState) (x : ω) :
    (ExceptT.run (superclass? c)).run serve s x =
      (.ok k.superclass, s, (serve (.superclass c) x).2) := by
  have hup : (serve (.superclass c) x).1.toOption.join = k.superclass := by
    ext up
    rw [← h.superclass c k hk x up]
    cases (serve (.superclass c) x).1 with
    | ok found => simp [Except.toOption]
    | error e => simp [Except.toOption]
  rw [run_superclass?_eq, hup]

theorem run_declared (h : Tells vm serve) {c : TypeId} {k : VmClass}
    (hk : vm.classes.get? c = some k) {s : TargetState} (hs : s.Recalls vm) (x : ω) :
    ∃ s' x', (ExceptT.run (declaredMethods c)).run serve s x =
      (.ok (k.methods.map Member.ofMethod), s', x') ∧ s'.Recalls vm := by
  rw [declaredMethods, run_andThen, run_state]
  dsimp only
  cases hknown : s.declared.get? c with
  | some ms =>
    rw [hs c k hk ms hknown]
    exact ⟨s, x, rfl, hs⟩
  | none =>
    dsimp only
    rw [run_andThen, ask, run_askAs, h.methods c k hk]
    refine ⟨_, _, rfl, fun d k' hk' ms hms => ?_⟩
    change (s.declared.insert c _).get? d = some ms at hms
    rw [Dict.get?_insert] at hms
    split at hms
    · next hd =>
      cases hms
      rw [hd, hk] at hk'
      rw [Option.some.inj hk']
    · exact hs d k' hk' ms hms

/-- What the target takes of the methods that a class declares, with or without its constructors. -/
def kept (constructors : Bool) (c : TypeId) (declared : List Member) : List Method :=
  (declared.map (Member.toMethod c)).filter fun m =>
    m.name != "<clinit>" && (constructors || !m.isConstructor)

theorem addMethods_eq_firsts (c : TypeId) (constructors : Bool) (found : List Method)
    (declared : List Member) :
    addMethods c constructors found declared =
      firsts Method.key found (kept constructors c declared) := by
  rw [addMethods, firsts, kept, List.foldl_filter, List.foldl_map]
  congr 1
  funext found m
  have hmet : (found.any fun f => f.name == m.name && f.signature == m.signature) =
      found.any fun o => o.key == (m.toMethod c).key := rfl
  simp only [hmet, addFirst, Method.isConstructor, Member.toMethod]
  by_cases hinit : m.name = "<clinit>"
  · simp [hinit]
  · cases constructors <;> by_cases hctor : m.name = "<init>" <;>
      simp [hinit, hctor]

/-- What the target takes of the methods of a class, with or without its constructors. -/
def taken (constructors : Bool) (k : VmClass) : List Method :=
  k.methods.filter fun m => m.name != "<clinit>" && (constructors || !m.isConstructor)

theorem addMethods_eq {c : TypeId} {k : VmClass} (hk : k.Owns c) (constructors : Bool)
    (found : List Method) :
    addMethods c constructors found (k.methods.map Member.ofMethod) =
      firsts Method.key found (taken constructors k) := by
  have hmethods : (k.methods.map Member.ofMethod).map (Member.toMethod c) = k.methods := by
    rw [List.map_map]
    refine (List.map_congr_left fun m hm => ?_).trans (List.map_id _)
    show (⟨m.id, c, m.name, m.signature, m.modifiers⟩ : Method) = m
    rw [← hk.2.1 m hm]
  rw [addMethods_eq_firsts, kept, hmethods, taken]

theorem methodsFrom_step (h : Tells vm serve) (hown : vm.OwnMembers) {c : TypeId} {k : VmClass}
    (hk : vm.classes.get? c = some k) (fuel : Nat) (constructors : Bool) (found : List Method)
    {s : TargetState} (hs : s.Recalls vm) (x : ω) :
    ∃ s' x', s'.Recalls vm ∧
      (ExceptT.run (methodsFrom (fuel + 1) c constructors found)).run serve s x =
        (ExceptT.run (match k.superclass with
          | some up => methodsFrom fuel up false (firsts Method.key found (taken constructors k))
          | none => pure (firsts Method.key found (taken constructors k)))).run serve s' x' := by
  obtain ⟨s', x', hrun, hs'⟩ := run_declared h hk hs x
  refine ⟨s', (serve (.superclass c) x').2, hs', ?_⟩
  rw [methodsFrom, run_andThen, hrun]
  dsimp only
  rw [run_andThen, run_superclass? h hk]
  exact congrArg (fun l => (ExceptT.run (match k.superclass with
    | some up => methodsFrom fuel up false l
    | none => pure l)).run serve s' _) (addMethods_eq (hown c k hk) constructors found)

/-- Above the class it was asked for, the target takes no constructors. -/
theorem run_methodsFrom (h : Tells vm serve) (hown : vm.OwnMembers) {c : TypeId} {k : VmClass}
    {above : List VmClass} (hline : vm.Lineage c (k :: above)) {fuel : Nat}
    (hfuel : above.length < fuel) (constructors : Bool) (found : List Method) {s : TargetState}
    (hs : s.Recalls vm) (x : ω) :
    ((ExceptT.run (methodsFrom fuel c constructors found)).run serve s x).1 =
      .ok (firsts Method.key found (taken constructors k ++ above.flatMap (taken false))) := by
  obtain ⟨fuel, rfl⟩ := Nat.exists_eq_add_of_le' (Nat.succ_le_of_lt (Nat.zero_lt_of_lt hfuel))
  induction above generalizing c k fuel constructors found s x with
  | nil =>
    cases hline with
    | root hk hup =>
      obtain ⟨s', x', -, hrun⟩ := methodsFrom_step h hown hk fuel constructors found hs x
      rw [hrun, hup, List.flatMap_nil, List.append_nil]
      rfl
    | step _ _ hline => cases hline
  | cons k' above ih =>
    cases hline with
    | step hk hup hline =>
      obtain ⟨s', x', hs', hrun⟩ := methodsFrom_step h hown hk fuel constructors found hs x
      rw [List.length_cons, Nat.succ_lt_succ_iff] at hfuel
      obtain ⟨fuel, rfl⟩ := Nat.exists_eq_add_of_le' (Nat.succ_le_of_lt (Nat.zero_lt_of_lt hfuel))
      rw [hrun, hup]
      dsimp only
      rw [ih hline false _ hs' x' fuel hfuel, List.flatMap_cons]
      simp only [firsts, List.foldl_append]

theorem run_fieldsFrom (h : Tells vm serve) (hown : vm.OwnMembers) {c : TypeId} {ks : List VmClass}
    (hline : vm.Lineage c ks) {fuel : Nat} (hfuel : ks.length ≤ fuel) (found : List Field)
    (s : TargetState) (x : ω) :
    ((ExceptT.run (fieldsFrom fuel c found)).run serve s x).1 =
      .ok (found ++ ks.flatMap VmClass.fields) := by
  have hstep {c : TypeId} {k : VmClass} (hk : vm.classes.get? c = some k) (fuel : Nat)
      (found : List Field) (x : ω) :
      ∃ x', (ExceptT.run (fieldsFrom (fuel + 1) c found)).run serve s x =
        (ExceptT.run (match k.superclass with
          | some up => fieldsFrom fuel up (found ++ k.fields)
          | none => pure (found ++ k.fields))).run serve s x' := by
    have hfields : (k.fields.map Member.ofField).map (Member.toField c) = k.fields := by
      rw [List.map_map]
      refine (List.map_congr_left fun f hf => ?_).trans (List.map_id _)
      show (⟨f.id, c, f.name, f.signature, f.modifiers⟩ : Field) = f
      rw [← (hown c k hk).2.2 f hf]
    refine ⟨(serve (.superclass c) (serve (.fields c) x).2).2, ?_⟩
    rw [fieldsFrom, run_andThen, ask, run_askAs, h.fields c k hk]
    dsimp only [Except.mapError]
    rw [run_andThen, run_superclass? h hk]
    exact congrArg (fun l => (ExceptT.run (match k.superclass with
      | some up => fieldsFrom fuel up (found ++ l)
      | none => pure (found ++ l))).run serve s _) hfields
  induction hline generalizing fuel found x with
  | @root c k hk hup =>
    obtain ⟨fuel, rfl⟩ := Nat.exists_eq_add_of_le' hfuel
    obtain ⟨x', hrun⟩ := hstep hk fuel found x
    rw [List.length_singleton, hrun, hup]
    exact congrArg (fun l => Except.ok (found ++ l)) (List.flatMap_singleton _ _).symm
  | @step c d k ks hk hup hline ih =>
    obtain ⟨fuel, rfl⟩ := Nat.exists_eq_add_of_le' hfuel
    obtain ⟨x', hrun⟩ := hstep hk (fuel + ks.length) found x
    rw [List.length_cons, ← Nat.add_assoc, hrun, hup]
    dsimp only
    rw [ih (Nat.le_add_left _ _), List.flatMap_cons, List.append_assoc]

theorem taken_line (hgraph : vm.ClassGraph) {c : TypeId} {ks : List VmClass}
    (hline : vm.Lineage c ks) :
    ∃ k above, ks = k :: above ∧ taken true k ++ above.flatMap (taken false) =
      (ks.flatMap (Vm.offered c)).filter fun m => m.name != "<clinit>" := by
  obtain ⟨k, above, rfl, hk, hoffered⟩ := hline.offered_eq hgraph
  refine ⟨k, above, rfl, ?_⟩
  have habove : above.flatMap (taken false) = ((above.flatMap VmClass.methods).filter
      fun m => !m.isConstructor).filter fun m => m.name != "<clinit>" := by
    rw [List.filter_filter, List.filter_flatMap]
    rfl
  rw [hoffered, List.filter_append, ← habove]
  simp [taken]

/-- On an acyclic class graph both targets know the same methods of a class, static initializers
apart, which only one of them shows. Each name and signature is there once, with its nearest
declaration, and constructors are not inherited. Of fields of one name both know the same first. -/
theorem members_alike (hgraph : vm.ClassGraph) (h : Tells vm serve) {c : TypeId}
    (hc : vm.classes.contains c) {s : TargetState} (hs : s.Recalls vm) (x : ω) :
    ∃ methods fields found,
      (vm.answer (.methods c)).1 = .ok methods ∧
      ((ExceptT.run (answer (.methods c))).run serve s x).1 =
        .ok (methods.filter fun m => m.name != "<clinit>") ∧
      (methods.map fun m => (m.name, m.signature)).Nodup ∧
      (∀ m, m ∈ methods ↔ vm.Nearest c m ∧ (m.isConstructor = true → m.declaringType = c)) ∧
      (vm.answer (.fields c)).1 = .ok fields ∧
      ((ExceptT.run (answer (.fields c))).run serve s x).1 = .ok found ∧
      ∀ name, found.find? (fun f => f.name == name) = fields.find? fun f => f.name == name := by
  have hline := vm.lineage_knownHierarchy hgraph hc
  have hlength := hline.length_le hgraph
  refine ⟨vm.methodsOf c, vm.fieldsOf c, (vm.knownHierarchy c).flatMap VmClass.fields, rfl, ?_, ?_,
    fun m => vm.mem_methodsOf hgraph hc, rfl, ?_, fun name => ?_⟩
  · obtain ⟨k, above, hks, htaken⟩ := taken_line hgraph hline
    have hfilter := filter_firsts Method.key (fun p => p.1 != "<clinit>") []
      ((vm.knownHierarchy c).flatMap (Vm.offered c))
    have hrun := run_methodsFrom h hgraph.own (hks ▸ hline) (hks ▸ hlength) true [] hs x
    rw [htaken] at hrun
    rw [vm.methodsOf_eq]
    exact hrun.trans (congrArg Except.ok hfilter.symm)
  · rw [vm.methodsOf_eq]
    exact nodup_firsts Method.key (by simp) _
  · exact run_fieldsFrom h hgraph.own hline hlength [] s x
  · rw [vm.fieldsOf_eq, find?_firsts Field.name (· == name), List.nil_append]

/-- A class that overrides a method of another and hides a field of it. -/
def derivedSample : Vm :=
  Vm.loadAll {}
    [.type "app.Base" .classType none true, .method 1 "<clinit>" "()V" true none,
      .method 1 "<init>" "()V" false none, .method 1 "run" "()V" false none,
      .method 1 "name" "()Ljava/lang/String;" false none, .field 1 "count" "I" false,
      .type "app.Derived" .classType (some 1) true, .method 7 "<init>" "()V" false none,
      .method 7 "run" "()V" false none, .field 7 "count" "J" false]

theorem classGraph_derivedSample : derivedSample.ClassGraph := by
  have hall : (derivedSample.classes.entries.all fun p => p.2.superclass.all fun d =>
      derivedSample.classes.contains d && decide (d < p.1)) = true := by decide +kernel
  have hextends (c d : TypeId) (h : derivedSample.Extends c d) :
      derivedSample.classes.contains d ∧ d < c := by
    obtain ⟨k, hk, hup⟩ := Option.bind_eq_some_iff.1 h
    have hclass := List.all_eq_true.1 hall (c, k) (Dict.mem_entries.2 hk)
    have hup : k.superclass = some d := hup
    simpa [hup] using hclass
  exact ⟨Vm.ownMembers_loadAll _, fun c d h => (hextends c d h).1,
    Vm.acyclic_of_lt fun c d h => (hextends c d h).2⟩

theorem members_alike_derived :
    ∃ methods fields,
      ((ExceptT.run (answer (.methods 7))).run (teller derivedSample) {} ()).1 = .ok methods ∧
      methods.map (fun m => (m.declaringType, m.name)) =
        [(7, "<init>"), (7, "run"), (1, "name")] ∧
      ((ExceptT.run (answer (.fields 7))).run (teller derivedSample) {} ()).1 = .ok fields ∧
      fields.find? (fun f => f.name == "count") = some ⟨10, 7, "count", "J", 1⟩ := by
  have hknown : derivedSample.classes.contains 7 := by decide +kernel
  obtain ⟨methods, fields, found, hmethods, hwire, -, -, hfields, hfound, hfirst⟩ :=
    members_alike classGraph_derivedSample (tells_teller derivedSample) hknown
      TargetState.recalls_new ()
  refine ⟨_, found, hwire, ?_, hfound, ?_⟩
  · rw [← Except.ok.inj hmethods]
    decide +kernel
  · rw [hfirst, ← Except.ok.inj hfields]
    decide +kernel

end Work

end Wire

end JvmDebug
