import JvmDebug.Eval.Subtype
import JvmDebug.Vm.Boot
import JvmDebug.Proofs.Exchanges
import JvmDebug.Proofs.Superclasses
import JvmDebug.Proofs.TargetCalls

/-!
The search for a type above that of an object. Types may be above each other in circles; the search
asks about none of them twice, ends, and finds what can be reached: main result
`Subtype.holds_iff_reaches`.
-/
namespace JvmDebug

namespace Vm
variable {vm : Vm} {c d : TypeId}

/-- The second type is the superclass of the first, a class, or an interface of the first. -/
def Inherits (vm : Vm) (c d : TypeId) : Prop :=
  ∃ k, vm.classes.get? c = some k ∧
    (k.info.kind = .classType ∧ k.superclass = some d ∨ d ∈ k.interfaces)

/-- Every type is filed under its own id, and what is above it is a type of the machine. -/
structure TypeGraph (vm : Vm) : Prop where
  filed : ∀ c k, vm.classes.get? c = some k → k.info.id = c
  closed : ∀ c d, vm.Inherits c d → vm.classes.contains d

/-- A machine can be checked for it type by type. -/
theorem TypeGraph.of_entries (h : ∀ p ∈ vm.classes.entries, p.2.info.id = p.1 ∧
    (p.2.superclass.toList ++ p.2.interfaces).all vm.classes.contains) : vm.TypeGraph where
  filed c k hk := (h _ (Dict.mem_entries.2 hk)).1
  closed := by
    rintro c d ⟨k, hk, hd⟩
    refine List.all_eq_true.1 (h _ (Dict.mem_entries.2 hk)).2 d (List.mem_append.2 ?_)
    exact hd.imp_left fun hup => Option.mem_toList.2 hup.2

example : boot.TypeGraph := .of_entries (by decide +kernel)

def info? (vm : Vm) (c : TypeId) : Option TypeInfo := (vm.classes.get? c).map VmClass.info

theorem typeInfo_of_contains (h : vm.classes.contains c) :
    ∃ i, vm.info? c = some i ∧ vm.typeInfo c = .ok i := by
  obtain ⟨k, hk⟩ := Option.isSome_iff_exists.1 h
  exact ⟨k.info, by rw [info?, hk]; rfl, by rw [typeInfo, hk]⟩

theorem mapM_typeInfo {ids : List TypeId} (h : ∀ d ∈ ids, vm.classes.contains d) :
    ids.mapM vm.typeInfo = .ok (ids.filterMap vm.info?) := by
  induction ids with
  | nil => rfl
  | cons d ids ih =>
    obtain ⟨i, hi, hinfo⟩ := typeInfo_of_contains (h d List.mem_cons_self)
    rw [List.mapM_cons, hinfo, ih fun e he => h e (List.mem_cons_of_mem _ he),
      List.filterMap_cons_some hi]
    rfl

/-- The kind in which a type waits is its own, but for the first that does not matter. -/
def Waits (vm : Vm) (c : TypeId) (kind : TypeKind) : Prop :=
  ∀ k, vm.classes.get? c = some k → kind = k.info.kind ∨ kind = .classType ∧ k.superclass = none

/-- The superclass that the search asks for. -/
def superOf (vm : Vm) (c : TypeId) (kind : TypeKind) : Option TypeId :=
  if kind = .classType then (vm.classes.get? c).bind VmClass.superclass else none

def interfacesOf (vm : Vm) (c : TypeId) : List TypeId :=
  ((vm.classes.get? c).map VmClass.interfaces).getD []

theorem mem_above {kind : TypeKind} (h : vm.Waits c kind) :
    d ∈ (vm.superOf c kind).toList ++ vm.interfacesOf c ↔ vm.Inherits c d := by
  rw [List.mem_append, Option.mem_toList, superOf, interfacesOf, Inherits]
  cases hk : vm.classes.get? c with
  | none => simp
  | some k =>
    rcases h k hk with rfl | ⟨rfl, hnone⟩
    · cases hkind : k.info.kind <;> simp [hkind]
    · simp [hnone]

theorem infos_above (kind : TypeKind) :
    ((vm.superOf c kind).bind vm.info?).toList ++ (vm.interfacesOf c).filterMap vm.info? =
      ((vm.superOf c kind).toList ++ vm.interfacesOf c).filterMap vm.info? := by
  rw [List.filterMap_append]
  cases vm.superOf c kind with
  | none => rfl
  | some up =>
    rw [Option.bind_some, Option.toList_some]
    cases hup : vm.info? up <;> simp [hup]

theorem answer_superclass (h : vm.TypeGraph) (hwaits : vm.Waits c .classType) :
    Vm.serve (.superclass c) vm = (.ok ((vm.superOf c .classType).bind vm.info?), vm) := by
  show vm.answer _ = _
  rw [answer]
  cases hup : (vm.classes.get? c).bind VmClass.superclass with
  | none => simp [superOf, hup]
  | some up =>
    have hsuper : vm.superOf c .classType = some up := by rw [superOf, if_pos rfl, hup]
    have habove : vm.Inherits c up := (mem_above hwaits).1 (by simp [hsuper])
    obtain ⟨i, hi, hinfo⟩ := typeInfo_of_contains (h.closed c up habove)
    simp only [hinfo, hsuper, Option.bind_some, hi]
    rfl

theorem answer_interfaces (h : vm.TypeGraph) :
    Vm.serve (.interfaces c) vm = (.ok ((vm.interfacesOf c).filterMap vm.info?), vm) := by
  show ((vm.interfacesOf c).mapM vm.typeInfo, vm) = _
  rw [mapM_typeInfo]
  intro d hd
  rw [interfacesOf] at hd
  cases hk : vm.classes.get? c with
  | none => simp [hk] at hd
  | some k =>
    rw [hk] at hd
    exact h.closed c d ⟨k, hk, .inr hd⟩

theorem className?_of_info? {i : TypeInfo} (h : vm.info? c = some i) :
    vm.className? c = some i.name := by
  obtain ⟨k, hk, rfl⟩ := Option.map_eq_some_iff.1 h
  rw [className?, hk]
  rfl

theorem TypeGraph.id_of_info? (h : vm.TypeGraph) {i : TypeInfo} (hi : vm.info? c = some i) :
    i.id = c := by
  obtain ⟨k, hk, rfl⟩ := Option.map_eq_some_iff.1 hi
  exact h.filed c k hk

/-! ## What the search has found -/

/-- The search has met some types and others wait, all of them reached from the first. What is
above a type that was met was met, too, or waits, and is not named like what is looked for. -/
structure Searching (vm : Vm) (first : TypeId) (name : String) (met : List TypeId)
    (queue : List (TypeId × TypeKind)) : Prop where
  begun : first ∈ met ∨ ∃ kind, (first, kind) ∈ queue
  reached : ∀ c, (c ∈ met ∨ ∃ kind, (c, kind) ∈ queue) →
    Relation.ReflTransGen vm.Inherits first c
  waits : ∀ p ∈ queue, vm.Waits p.1 p.2
  followed : ∀ c ∈ met, ∀ d, vm.Inherits c d →
    vm.className? d ≠ some name ∧ (d ∈ met ∨ ∃ kind, (d, kind) ∈ queue)

/-- A type of this name is above the first. -/
def Above (vm : Vm) (first : TypeId) (name : String) : Prop :=
  ∃ d, Relation.TransGen vm.Inherits first d ∧ vm.className? d = some name

namespace Searching
variable {first : TypeId} {name : String} {met : List TypeId} {kind : TypeKind}
  {queue : List (TypeId × TypeKind)}

theorem start (h : vm.Waits first .classType) :
    vm.Searching first name [] [(first, .classType)] where
  begun := .inr ⟨_, List.mem_singleton_self _⟩
  reached := by
    rintro c (hc | ⟨kind, hc⟩)
    · cases hc
    · obtain ⟨rfl, -⟩ := Prod.mk.inj (List.mem_singleton.1 hc)
      exact .refl
  waits := by simpa using h
  followed := nofun

theorem above (h : vm.Searching first name met ((c, kind) :: queue)) (hd : vm.Inherits c d)
    (hname : vm.className? d = some name) : vm.Above first name :=
  ⟨d, .tail' (h.reached c (.inr ⟨kind, List.mem_cons_self⟩)) hd, hname⟩

/-- Once no type waits, nothing was missed. -/
theorem not_above (h : vm.Searching first name met []) : ¬vm.Above first name := by
  rintro ⟨d, hreach, hname⟩
  have hmet (c : TypeId) (hc : Relation.ReflTransGen vm.Inherits first c) : c ∈ met := by
    induction hc with
    | refl => exact h.begun.resolve_right (by simp)
    | tail _ hstep ih => exact (h.followed _ ih _ hstep).2.resolve_right (by simp)
  obtain ⟨c, hc, hstep⟩ := Relation.TransGen.tail'_iff.1 hreach
  exact (h.followed c (hmet c hc) d hstep).1 hname

/-- A type that leaves the queue is met, so none is lost of those that were met or wait. -/
theorem kept_of_dequeue {met' : List TypeId} {queue' : List (TypeId × TypeKind)} (hc : c ∈ met')
    (hmet : met ⊆ met') (hqueue : queue ⊆ queue') {x : TypeId}
    (hx : x ∈ met ∨ ∃ kind', (x, kind') ∈ (c, kind) :: queue) :
    x ∈ met' ∨ ∃ kind', (x, kind') ∈ queue' := by
  rcases hx with hx | ⟨kind', hx⟩
  · exact .inl (hmet hx)
  · rcases List.mem_cons.1 hx with hx | hx
    · obtain ⟨rfl, -⟩ := Prod.mk.inj hx
      exact .inl hc
    · exact .inr ⟨kind', hqueue hx⟩

theorem skip (h : vm.Searching first name met ((c, kind) :: queue)) (hc : c ∈ met) :
    vm.Searching first name met queue where
  begun := kept_of_dequeue hc (List.Subset.refl _) (List.Subset.refl _) h.begun
  reached := by
    rintro x (hx | ⟨kind', hx⟩)
    · exact h.reached x (.inl hx)
    · exact h.reached x (.inr ⟨kind', List.mem_cons_of_mem _ hx⟩)
  waits p hp := h.waits p (List.mem_cons_of_mem _ hp)
  followed x hx d hd := by
    obtain ⟨hother, hknown⟩ := h.followed x hx d hd
    exact ⟨hother, kept_of_dequeue hc (List.Subset.refl _) (List.Subset.refl _) hknown⟩

/-- What the search finds above a type is what the machine has there. -/
theorem mem_infos (hgraph : vm.TypeGraph) (hwaits : vm.Waits c kind) {i : TypeInfo} :
    i ∈ ((vm.superOf c kind).bind vm.info?).toList ++ (vm.interfacesOf c).filterMap vm.info? ↔
      vm.Inherits c i.id ∧ vm.info? i.id = some i := by
  rw [infos_above, List.mem_filterMap]
  constructor
  · rintro ⟨d, hd, hi⟩
    rw [hgraph.id_of_info? hi]
    exact ⟨(mem_above hwaits).1 hd, hi⟩
  · rintro ⟨hd, hi⟩
    exact ⟨i.id, (mem_above hwaits).2 hd, hi⟩

theorem waits_info {i : TypeInfo} (h : vm.info? i.id = some i) : vm.Waits i.id i.kind := by
  intro k hk
  obtain ⟨k', hk', rfl⟩ := Option.map_eq_some_iff.1 h
  obtain rfl : k' = k := Option.some.inj (hk'.symm.trans hk)
  exact .inl rfl

/-- The step of the search: a new type is met, and what is above it waits. -/
theorem next (hgraph : vm.TypeGraph) (h : vm.Searching first name met ((c, kind) :: queue))
    {above : List TypeInfo}
    (habove : ∀ i, i ∈ above ↔ vm.Inherits c i.id ∧ vm.info? i.id = some i)
    (hnone : ∀ i ∈ above, i.name ≠ name) :
    vm.Searching first name (c :: met) (queue ++ above.map fun t => (t.id, t.kind)) where
  begun := kept_of_dequeue List.mem_cons_self (List.subset_cons_self _ _)
    (List.subset_append_left _ _) h.begun
  reached := by
    have hhere : Relation.ReflTransGen vm.Inherits first c :=
      h.reached c (.inr ⟨kind, List.mem_cons_self⟩)
    rintro x (hx | ⟨kind', hx⟩)
    · rcases List.mem_cons.1 hx with rfl | hx
      · exact hhere
      · exact h.reached x (.inl hx)
    · rcases List.mem_append.1 hx with hx | hx
      · exact h.reached x (.inr ⟨kind', List.mem_cons_of_mem _ hx⟩)
      · obtain ⟨i, hi, heq⟩ := List.mem_map.1 hx
        obtain ⟨rfl, -⟩ := Prod.mk.inj heq
        exact hhere.tail ((habove i).1 hi).1
  waits p hp := by
    rcases List.mem_append.1 hp with hp | hp
    · exact h.waits p (List.mem_cons_of_mem _ hp)
    · obtain ⟨i, hi, rfl⟩ := List.mem_map.1 hp
      exact waits_info ((habove i).1 hi).2
  followed x hx d hd := by
    rcases List.mem_cons.1 hx with rfl | hx
    · obtain ⟨i, hi, -⟩ := typeInfo_of_contains (hgraph.closed x d hd)
      obtain rfl := hgraph.id_of_info? hi
      have hmem : i ∈ above := (habove i).2 ⟨hd, hi⟩
      rw [className?_of_info? hi]
      refine ⟨fun hname => hnone i hmem (Option.some.inj hname), .inr ⟨i.kind, ?_⟩⟩
      exact List.mem_append_right _ (List.mem_map_of_mem hmem)
    · obtain ⟨hother, hknown⟩ := h.followed x hx d hd
      exact ⟨hother, kept_of_dequeue List.mem_cons_self (List.subset_cons_self _ _)
        (List.subset_append_left _ _) hknown⟩

end Searching

/-- What is reached from a type are types of the machine, but perhaps for the type itself. -/
theorem TypeGraph.length_reached (h : vm.TypeGraph) {first : TypeId} {met : List TypeId}
    (hmet : met.Nodup) (hreached : ∀ x ∈ met, Relation.ReflTransGen vm.Inherits first x) :
    met.length ≤ vm.classes.size + 1 := by
  have hknown (x : TypeId) (hx : x ∈ met.erase first) : vm.classes.contains x := by
    rcases (hreached x (List.mem_of_mem_erase hx)).cases_tail with rfl | ⟨c, -, hstep⟩
    · exact absurd rfl (hmet.mem_erase_iff.1 hx).1
    · exact h.closed c x hstep
  have hlength := length_le_size (hmet.sublist List.erase_sublist) hknown
  have := List.length_erase (a := first) (l := met)
  split at this <;> omega

end Vm

/-! ## The search -/

namespace Subtype
variable {σ : Type} {vm : Vm} {first : TypeId} {name : String}

/-- The operation tells whether a type of the name is above the first. It makes at most so many
calls, and leaves the machine as it is. -/
def Tells (vm : Vm) (first : TypeId) (name : String) (calls : Nat) (m : Op DebugError σ Bool) :
    Prop :=
  ∃ answer log, m.Gives Vm.serve vm answer log vm ∧ log.length ≤ calls ∧
    (answer ↔ vm.Above first name)

namespace Tells
variable {n : Nat} {m : Op DebugError σ Bool}

theorem call {c : Call} {a : c.Answer} {g : c.Answer → Op DebugError σ Bool}
    (h : Vm.serve c vm = (.ok a, vm)) (hg : Tells vm first name n (g a)) :
    Tells vm first name (n + 1) (Op.call c >>= g) := by
  obtain ⟨answer, log, hgives, hlength, hanswer⟩ := hg
  exact ⟨answer, _, (Op.Gives.call h).bind hgives, Nat.succ_le_succ hlength, hanswer⟩

theorem mono {k : Nat} (h : Tells vm first name n m) (hk : n ≤ k) : Tells vm first name k m := by
  obtain ⟨answer, log, hgives, hlength, hanswer⟩ := h
  exact ⟨answer, log, hgives, hlength.trans hk, hanswer⟩

theorem found {found : Bool} (hfound : found = true → vm.Above first name)
    (hm : ¬found = true → Tells vm first name n m) :
    Tells vm first name n (if found then pure true else m) := by
  by_cases h : found = true
  · rw [if_pos h]
    exact ⟨true, [], .pure true, Nat.zero_le n, by simp [hfound h]⟩
  · rw [if_neg h]
    exact hm h

end Tells

/-- From wherever it stands the search ends, and asks twice at most about a type not met yet. -/
theorem tells_search (hgraph : vm.TypeGraph) (visited : Visited)
    (queue : List (TypeId × TypeKind)) (h : vm.Searching first name visited.types queue) :
    Tells vm first name (2 * (vm.classes.size + 1 - visited.types.length))
      (search name visited queue : Op DebugError σ Bool) := by
  induction visited, queue using search.induct (σ := σ) name with
  | case1 visited =>
    rw [search]
    exact ⟨false, [], .pure false, Nat.zero_le _, by simp [h.not_above]⟩
  | case2 visited c kind queue hc ih =>
    rw [search, dif_pos hc]
    exact ih (h.skip hc)
  | case3 visited c kind queue hc hkind ih | case4 visited c kind queue hc hkind ih =>
    have hwaits : vm.Waits c kind := h.waits (c, kind) List.mem_cons_self
    have hroom : visited.types.length + 1 ≤ vm.classes.size + 1 :=
      hgraph.length_reached (List.nodup_cons.2 ⟨hc, visited.nodup⟩)
        (List.forall_mem_cons.2 ⟨h.reached c (.inr ⟨kind, List.mem_cons_self⟩),
          fun x hx => h.reached x (.inl hx)⟩)
    rw [search, dif_neg hc]
    extract_lets rest
    have hrest : Tells vm first name (2 * (vm.classes.size - visited.types.length) + 1)
        (rest ((vm.superOf c kind).bind vm.info?)) := by
      have hinfos {i : TypeInfo} := Vm.Searching.mem_infos hgraph hwaits (i := i)
      generalize (vm.superOf c kind).bind vm.info? = above at hinfos
      have hfound (i : TypeInfo) (hi : i ∈ above.toList ++ (vm.interfacesOf c).filterMap vm.info?)
          (hname : (i.name == name) = true) : vm.Above first name := by
        obtain ⟨hd, hinfo⟩ := hinfos.1 hi
        exact h.above hd (by rw [Vm.className?_of_info? hinfo, eq_of_beq hname])
      refine Tells.found ?_ fun hnosuper => Tells.call (Vm.answer_interfaces hgraph) ?_
      · intro hany
        obtain ⟨i, hi, hname⟩ := (Option.any_eq_true _ _).1 hany
        exact hfound i (List.mem_append_left _ (Option.mem_toList.2 hi)) hname
      refine Tells.found ?_ fun hnointerface => ?_
      · intro hany
        obtain ⟨i, hi, hname⟩ := List.any_eq_true.1 hany
        exact hfound i (List.mem_append_right _ hi) hname
      have hnone (i : TypeInfo)
          (hi : i ∈ above.toList ++ (vm.interfacesOf c).filterMap vm.info?) : i.name ≠ name := by
        intro hname
        rcases List.mem_append.1 hi with hi | hi
        · exact hnosuper ((Option.any_eq_true _ _).2 ⟨i, Option.mem_toList.1 hi, by simp [hname]⟩)
        · exact hnointerface (List.any_eq_true.2 ⟨i, hi, by simp [hname]⟩)
      have hlength : vm.classes.size + 1 - (visited.insert c hc).types.length =
          vm.classes.size - visited.types.length := Nat.add_sub_add_right _ _ _
      exact hlength ▸ ih above _ (h.next hgraph (fun i => hinfos) hnone)
    have hcalls : 2 * (vm.classes.size - visited.types.length) + 1 + 1 =
        2 * (vm.classes.size + 1 - visited.types.length) := by omega
    by_cases hclass : (kind == .classType) = true
    · obtain rfl := eq_of_beq hclass
      rw [if_pos hclass]
      exact hcalls ▸ Tells.call (Vm.answer_superclass hgraph hwaits) hrest
    · have hsuper : vm.superOf c kind = none := by
        rw [Vm.superOf, if_neg (by simpa using hclass)]
      rw [if_neg hclass]
      rw [hsuper] at hrest
      exact hcalls ▸ hrest.mono (Nat.le_succ _)

/-- What an object of a machine is an instance of. One that is no array is of a class, or of an
interface and so of a type without superclass. To be found above its type is to be reached from
there in one or more steps. -/
theorem holds_iff_reaches (hgraph : vm.TypeGraph) {o : ObjectRef}
    (ho : ¬o.isArray → ∀ k, vm.classes.get? o.typeId = some k →
      k.info.kind = .classType ∨ k.superclass = none) (name : String) :
    ∃ answer log, (holds o name : Op DebugError σ Bool).Gives Vm.serve vm answer log vm ∧
      log.length ≤ 2 * (vm.classes.size + 1) ∧
      (answer ↔ o.runtimeType = name ∨ name = "java.lang.Object" ∨
        o.isArray ∧ (name = "java.lang.Cloneable" ∨ name = "java.io.Serializable") ∨
        ¬o.isArray ∧ ∃ d, Relation.TransGen vm.Inherits o.typeId d ∧
          vm.className? d = some name) := by
  rw [holds]
  split
  · next hnamed =>
    have hnamed : o.runtimeType = name ∨ name = "java.lang.Object" := by simpa using hnamed
    exact ⟨true, [], .pure true, Nat.zero_le _, iff_of_true rfl (hnamed.imp_right .inl)⟩
  · next hnamed =>
    split
    · next harray =>
      exact ⟨_, [], .pure _, Nat.zero_le _, by simp_all⟩
    · next harray =>
      have hwaits : vm.Waits o.typeId .classType := by
        intro k hk
        rcases ho harray k hk with hkind | hnone
        · exact .inl hkind.symm
        · exact .inr ⟨rfl, hnone⟩
      have hsearch : Tells vm o.typeId name _
          (search name .empty [(o.typeId, .classType)] : Op DebugError σ Bool) :=
        tells_search hgraph .empty _ (.start hwaits)
      obtain ⟨answer, log, hgives, hlength, hanswer⟩ := hsearch
      refine ⟨answer, log, hgives, hlength, hanswer.trans ?_⟩
      simp_all [Vm.Above]

/-- Two classes above each other, and two interfaces above each other. -/
def ringVm : Vm :=
  let (sub, vm) := Vm.addClass {} "a.Sub" .classType (some 2) true
  let (_, vm) := vm.addClass "a.Base" .classType (some sub) true
  let (shape, vm) := vm.addClass "a.Shape" .interface none true
  let (thing, vm) := vm.addClass "a.Thing" .interface none true
  ((vm.addInterface sub shape).addInterface shape thing).addInterface thing shape

/-- The search goes through the circles, finds the far interface and gives up on any other name. -/
theorem holds_ringVm : ringVm.TypeGraph ∧
    (∃ log, (holds ⟨5, 1, "a.Sub"⟩ "a.Thing" : Op DebugError Unit Bool).Gives Vm.serve ringVm true
      log ringVm) ∧
    ∃ log, (holds ⟨5, 1, "a.Sub"⟩ "a.Other" : Op DebugError Unit Bool).Gives Vm.serve ringVm false
      log ringVm := by
  have hgraph : ringVm.TypeGraph := .of_entries (by decide +kernel)
  have ho (k : VmClass) (hk : ringVm.classes.get? 1 = some k) :
      k.info.kind = .classType ∨ k.superclass = none := by
    obtain rfl := Option.some.inj (hk.symm.trans (by rfl))
    decide
  refine ⟨hgraph, ?_, ?_⟩
  · obtain ⟨answer, log, hgives, -, hanswer⟩ := holds_iff_reaches (σ := Unit) hgraph
      (o := ⟨5, 1, "a.Sub"⟩) (fun _ => ho) "a.Thing"
    have hshape : ringVm.Inherits 1 3 := ⟨_, rfl, .inr (by decide)⟩
    have hthing : ringVm.Inherits 3 4 := ⟨_, rfl, .inr (by decide)⟩
    have hthere := hanswer.2 (.inr (.inr (.inr ⟨by decide, 4, .tail (.single hshape) hthing, rfl⟩)))
    exact ⟨log, hthere ▸ hgives⟩
  · obtain ⟨answer, log, hgives, -, hanswer⟩ := holds_iff_reaches (σ := Unit) hgraph
      (o := ⟨5, 1, "a.Sub"⟩) (fun _ => ho) "a.Other"
    have hnames : ∀ p ∈ ringVm.classes.entries, p.2.info.name ≠ "a.Other" := by decide
    have hnot : ¬answer = true := by
      intro h
      rcases hanswer.1 h with h | h | ⟨h, -⟩ | ⟨-, d, -, hd⟩
      · exact absurd h (by decide)
      · exact absurd h (by decide)
      · exact absurd h (by decide)
      · obtain ⟨k, hk, hname⟩ := Option.map_eq_some_iff.1 hd
        exact hnames _ (Dict.mem_entries.2 hk) hname
    exact ⟨log, Bool.eq_false_iff.2 hnot ▸ hgives⟩

end Subtype

end JvmDebug
