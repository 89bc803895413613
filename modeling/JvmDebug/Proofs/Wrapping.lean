import JvmDebug.Eval.Conversion
import JvmDebug.Vm.Boot
import JvmDebug.Proofs.Execution
import JvmDebug.Proofs.TargetCalls

/-!
Classes whose objects wrap primitive values, with the methods that make such an object and that tell
what it wraps. What values are converted with on a target is `Wrapping`; a machine that has the
eight classes is such a target: `Vm.wrapping`.
-/
namespace JvmDebug

namespace Method

/-- The method makes a wrapper of a value of the type. -/
def boxes (primitive : String) (m : Method) : Bool :=
  m.name == "valueOf" && m.isStatic && m.argumentTypes == [primitive]

/-- The method tells the value of the type that a wrapper has. -/
def unboxes (primitive : String) (m : Method) : Bool :=
  m.name == primitive ++ "Value" && m.argumentTypes.isEmpty && !m.isStatic

end Method

section
variable {ω : Type} (serve : (c : Call) → ω → c.Reply × ω)

/-- The class has methods of the kind, and all of them do what `Q` says. -/
def Provides (w : ω) (c : TypeId) (kind : Method → Bool) (Q : Method → Prop) : Prop :=
  ∃ methods, serve (.methods c) w = (.ok methods, w) ∧ (∃ m ∈ methods, kind m) ∧
    ∀ m ∈ methods, kind m → Q m

/-- A target on which values can be boxed and unboxed in a thread. In a state with `Ready n` it can
run `n` methods more. `Wraps` tells which objects wrap which values; they never stop to. -/
structure Wrapping (t : ThreadId) (Ready : Nat → ω → Prop) (Wraps : ω → ObjectRef → Value → Prop) :
    Prop where
  ready : ∀ n w, Ready (n + 1) w → Ready n w
  boxing : ∀ n w, Ready (n + 1) w → ∀ p ∈ Conversion.wrappers, ∃ c others,
    serve (.classesByName p.2) w = (.ok (c :: others), w) ∧
      Provides serve w c.id (·.boxes p.1) fun m => ∀ v : Value, v.isPrimitive → v.typeName = p.1 →
        ∃ o w', serve (.invokeStatic t c.id m [v]) w = (.ok (.returned (.object o)), w') ∧
          o.runtimeType = p.2 ∧ Wraps w' o v ∧ Ready n w' ∧ ∀ o v, Wraps w o v → Wraps w' o v
  unboxing : ∀ n w, Ready (n + 1) w → ∀ o v, Wraps w o v →
    v.isPrimitive ∧ Conversion.unboxed? o.runtimeType = some v.typeName ∧
      Provides serve w o.typeId (·.unboxes v.typeName) fun m =>
        ∃ w', serve (.invokeInstance t o m []) w = (.ok (.returned v), w') ∧
          Ready n w' ∧ ∀ o v, Wraps w o v → Wraps w' o v

end

theorem Provides.find? {ω : Type} {serve : (c : Call) → ω → c.Reply × ω} {w : ω} {c : TypeId}
    {kind : Method → Bool} {Q : Method → Prop} (h : Provides serve w c kind Q) :
    ∃ methods m, serve (.methods c) w = (.ok methods, w) ∧ methods.find? kind = some m ∧ Q m := by
  obtain ⟨methods, hmethods, ⟨m, hm, hkind⟩, hall⟩ := h
  obtain ⟨found, hfound⟩ := Option.isSome_iff_exists.1 (List.find?_isSome.2 ⟨m, hm, hkind⟩)
  exact ⟨methods, found, hmethods, hfound,
    hall found (List.mem_of_find?_eq_some hfound) (List.find?_some hfound)⟩

theorem Conversion.unboxed?_of_mem : ∀ p ∈ wrappers, unboxed? p.2 = some p.1 := by decide

/-! ## A machine with such classes -/

namespace Vm
variable {vm vm' : Vm} {t : ThreadId} {p : String × String} {c : TypeId} {f : Field} {n : Nat}

namespace SameButHeap

theorem sameCode (h : vm.SameButHeap vm') : vm.SameCode vm' := by
  rw [h]
  exact ⟨Eq.refl _, fun _ => Eq.refl _, Eq.refl _⟩

theorem knownHierarchy (h : vm.SameButHeap vm') (c : TypeId) :
    vm'.knownHierarchy c = vm.knownHierarchy c := by
  have hclasses : vm'.classes = vm.classes := by rw [h]
  simp only [Vm.knownHierarchy, hierarchy, h.sameCode.ancestors, hclasses]

theorem dispatch (h : vm.SameButHeap vm') (c : TypeId) (m : Method) :
    vm'.dispatch c m = vm.dispatch c m := by
  have hbodies : vm'.bodies = vm.bodies := by rw [h]
  simp only [Vm.dispatch, h.knownHierarchy, hbodies]

theorem fieldNamed? (h : vm.SameButHeap vm') (c : TypeId) (name : String) :
    vm'.fieldNamed? c name = vm.fieldNamed? c name := by
  simp only [Vm.fieldNamed?, fieldsOf, h.knownHierarchy]

end SameButHeap

/-- Objects of the class wrap values of the first type in the field. The class is loaded under the
second name. -/
@[mk_iff] structure Wrapper (vm : Vm) (p : String × String) (c : TypeId) (f : Field) : Prop where
  loaded : (vm.classes.values.find? fun k => k.loaded && k.info.name == p.2).map (·.info.id) = some c
  named : vm.className? c = some p.2
  field : vm.fieldNamed? c "value" = some f
  exists_boxes : ∃ m ∈ vm.methodsOf c, m.boxes p.1
  boxes : ∀ m ∈ vm.methodsOf c, m.boxes p.1 →
    vm.bodies.get? m.id = some (.box (some c) (Value.default p.1))
  exists_unboxes : ∃ m ∈ vm.methodsOf c, m.unboxes p.1
  unboxes : ∀ m ∈ vm.methodsOf c, m.unboxes p.1 →
    vm.dispatch c m = some (.readField "value" (Value.default p.1))

instance : Decidable (vm.Wrapper p c f) := decidable_of_iff' _ (wrapper_iff vm p c f)

/-- The machine became what it is by running methods, and has ids for `n` objects more. -/
structure RoomFor (vm : Vm) (n : Nat) (vm' : Vm) : Prop where
  same : vm.SameButHeap vm'
  fresh : ∀ o, vm'.objects.contains o → o.toNat < vm'.nextId.toNat
  room : vm'.nextId.toNat + n < UInt64.size

/-- The object has the value in the field of a class that wraps such values. -/
def WrapsIn (vm vm' : Vm) (o : ObjectRef) (v : Value) : Prop :=
  v.isPrimitive ∧ (v.typeName, o.runtimeType) ∈ Conversion.wrappers ∧ ∃ f d,
    vm.Wrapper (v.typeName, o.runtimeType) o.typeId f ∧ vm'.objects.get? o.id = some d ∧
      d.fields.get? f.id = some v

theorem isSuspended_iff : vm.isSuspended t ↔ ∃ d, vm.suspendedThread t = .ok d := by
  rw [isSuspended, suspendedThread]
  cases vm.threads.get? t with
  | none => simp
  | some d => cases hd : d.info.suspended <;> simp [hd]

theorem SameButHeap.isSuspended (h : vm.SameButHeap vm') (ht : vm.isSuspended t) :
    vm'.isSuspended t := by
  rw [h]
  exact ht

theorem invoke_body {call : Invocation} (body : Body) (h : vm.isSuspended call.thread) :
    vm.invoke (some body) call =
      (.ok (body.run { vm with invocations := vm.invocations ++ [call.method.name] } call).1,
        (body.run { vm with invocations := vm.invocations ++ [call.method.name] } call).2) := by
  obtain ⟨d, hd⟩ := isSuspended_iff.1 h
  simp only [invoke, hd]

/-- Running the method that boxes a value makes an object that wraps it. -/
theorem invokeStatic_boxes (ht : vm.isSuspended t) (hw : vm.Wrapper p c f)
    (hready : vm.RoomFor (n + 1) vm') {m : Method} (hm : m ∈ vm.methodsOf c) (hboxes : m.boxes p.1)
    (v : Value) :
    ∃ w, vm'.invokeStatic t m [v] = (.ok (.returned (.object ⟨vm'.nextId, c, p.2⟩)), w) ∧
      vm.RoomFor n w ∧ ∀ o, w.objects.get? o =
        if o = vm'.nextId then some { fields := Dict.empty.insert f.id v }
        else vm'.objects.get? o := by
  have hbodies : vm'.bodies = vm.bodies := by rw [hready.same]
  have hbody : vm'.bodies.get? m.id = some (.box (some c) (Value.default p.1)) := by
    rw [hbodies, hw.boxes m hm hboxes]
  obtain ⟨k, hk, hname⟩ := Option.map_eq_some_iff.1 hw.named
  have hclass : vm'.classes.get? c = some k := by rw [hready.same, hk]
  let made : Vm := { vm' with
    invocations := vm'.invocations ++ [m.name]
    nextId := vm'.nextId + 1
    objects := vm'.objects.insert vm'.nextId {} }
  have hsame : vm.SameButHeap made := hready.same.trans (Eq.refl _)
  have hset : made.setField ⟨vm'.nextId, c, p.2⟩ "value" v = made.writeField vm'.nextId f.id v := by
    rw [setField, hsame.fieldNamed?, hw.field]
  have hobjects (o : ObjectId) : (made.writeField vm'.nextId f.id v).objects.get? o =
      if o = vm'.nextId then some { fields := Dict.empty.insert f.id v }
      else vm'.objects.get? o := by
    show ((vm'.objects.insert vm'.nextId {}).modify vm'.nextId _).get? o = _
    rw [Dict.get?_modify, Dict.get?_insert, Dict.get?_insert, if_pos rfl]
    split <;> rfl
  have hroom : vm'.nextId.toNat + (n + 1) < UInt64.size := hready.room
  have hnext : (vm'.nextId + 1).toNat = vm'.nextId.toNat + 1 := by
    rw [UInt64.toNat_add, Nat.mod_eq_of_lt (by show _ + 1 < UInt64.size; omega)]
    rfl
  refine ⟨made.writeField vm'.nextId f.id v, ?_, ⟨hsame.trans (Eq.refl _), ?_, ?_⟩, hobjects⟩
  · rw [invokeStatic, hbody, invoke_body _ (hready.same.isSuspended ht)]
    simp only [Body.run, newObject, Option.getD_some, allocate, hclass, hname]
    exact congrArg _ hset
  · intro o ho
    show o.toNat < (vm'.nextId + 1).toNat
    rw [hnext]
    rw [Dict.contains, hobjects] at ho
    split at ho
    · next h => exact h ▸ Nat.lt_succ_self _
    · exact (hready.fresh o ho).trans (Nat.lt_succ_self _)
  · show (vm'.nextId + 1).toNat + n < UInt64.size
    omega

/-- Running the method that unboxes tells the value of the field. -/
theorem invokeInstance_unboxes (ht : vm.isSuspended t) {o : ObjectRef}
    (hw : vm.Wrapper p o.typeId f) (hready : vm.RoomFor (n + 1) vm') {m : Method}
    (hm : m ∈ vm.methodsOf o.typeId) (hunboxes : m.unboxes p.1) {d : VmObject} {v : Value}
    (hd : vm'.objects.get? o.id = some d) (hv : d.fields.get? f.id = some v) :
    vm'.invokeInstance t o m [] =
      (.ok (.returned v), { vm' with invocations := vm'.invocations ++ [m.name] }) := by
  have hbody : vm'.dispatch o.typeId m = some (.readField "value" (Value.default p.1)) := by
    rw [hready.same.dispatch, hw.unboxes m hm hunboxes]
  let ran : Vm := { vm' with invocations := vm'.invocations ++ [m.name] }
  have hsame : vm.SameButHeap ran := hready.same.trans (Eq.refl _)
  have hvalue : ran.fieldValue? o "value" = some v := by
    have hread : ran.readField o.id f = v := by
      show ((vm'.objects.get? o.id).bind fun d => d.fields.get? f.id).getD _ = v
      rw [hd, Option.bind_some, hv, Option.getD_some]
    rw [fieldValue?, hsame.fieldNamed?, hw.field, Option.map_some, hread]
  simp only [invokeInstance, objectOf, hd, hbody]
  rw [invoke_body _ (hready.same.isSuspended ht)]
  simp only [Body.run, Option.bind_some]
  rw [show fieldValue? _ o "value" = some v from hvalue]
  rfl

theorem serve_classesByName (h : vm.SameButHeap vm') (hw : vm.Wrapper p c f) :
    ∃ i others, Vm.serve (.classesByName p.2) vm' = (.ok (i :: others), vm') ∧ i.id = c := by
  obtain ⟨k, hk, rfl⟩ := Option.map_eq_some_iff.1 hw.loaded
  have hclasses : vm'.classes = vm.classes := by rw [h]
  have hhead : (vm'.classes.values.filter fun k => k.loaded && k.info.name == p.2).head? =
      some k := by rw [hclasses, List.head?_filter, hk]
  obtain ⟨others, hothers⟩ := List.head?_eq_some_iff.1 hhead
  refine ⟨k.info, others.map VmClass.info, ?_, rfl⟩
  show (Except.ok (List.map VmClass.info _), vm') = _
  rw [hothers]
  rfl

theorem provides_of_methodsOf (h : vm.SameButHeap vm') {kind : Method → Bool} {Q : Method → Prop}
    (hexists : ∃ m ∈ vm.methodsOf c, kind m) (hall : ∀ m ∈ vm.methodsOf c, kind m → Q m) :
    Provides Vm.serve vm' c kind Q := by
  rw [← h.sameCode.methodsOf] at hexists hall
  exact ⟨vm'.methodsOf c, rfl, hexists, hall⟩

/-- On a machine with all the classes values can be boxed and unboxed in a suspended thread. -/
theorem wrapping (ht : vm.isSuspended t)
    (h : ∀ p ∈ Conversion.wrappers, ∃ c f, vm.Wrapper p c f) :
    Wrapping Vm.serve t vm.RoomFor vm.WrapsIn where
  ready n w hw := ⟨hw.same, hw.fresh, (Nat.lt_succ_self _).trans hw.room⟩
  boxing := by
    rintro n w hw ⟨primitive, wrapper⟩ hp
    obtain ⟨c, f, hwrapper⟩ := h _ hp
    obtain ⟨i, others, hclasses, rfl⟩ := serve_classesByName hw.same hwrapper
    refine ⟨i, others, hclasses, provides_of_methodsOf hw.same hwrapper.exists_boxes ?_⟩
    rintro m hm hboxes v hv rfl
    obtain ⟨w', hinvoke, hready, hobjects⟩ := invokeStatic_boxes ht hwrapper hw hm hboxes v
    refine ⟨_, w', hinvoke, rfl, ⟨hv, hp, f, _, hwrapper, (hobjects _).trans (if_pos rfl), ?_⟩,
      hready, ?_⟩
    · rw [Dict.get?_insert, if_pos rfl]
    · rintro o x ⟨hx, hmem, g, d, howner, hd, hvalue⟩
      have hother : o.id ≠ w.nextId := by
        intro heq
        have hold := hw.fresh o.id (by rw [Dict.contains, hd]; rfl)
        exact absurd (congrArg UInt64.toNat heq) hold.ne
      exact ⟨hx, hmem, g, d, howner, by rw [hobjects, if_neg hother, hd], hvalue⟩
  unboxing := by
    rintro n w hw o v ⟨hv, hmem, f, d, hwrapper, hd, hvalue⟩
    refine ⟨hv, Conversion.unboxed?_of_mem _ hmem,
      provides_of_methodsOf hw.same hwrapper.exists_unboxes ?_⟩
    intro m hm hunboxes
    refine ⟨_, invokeInstance_unboxes ht hwrapper hw hm hunboxes hd hvalue,
      ⟨hw.same.trans (Eq.refl _), hw.fresh, (Nat.lt_succ_self _).trans hw.room⟩, fun _ _ ho => ho⟩

/-- A machine with no more than the eight classes, and a thread that is suspended. -/
def wrapperVm : Vm :=
  let tag (name : String) : String := String.ofList (Signature.elementSignature name.toList)
  let add (vm : Vm) (p : String × String) : Vm :=
    let (c, vm) := vm.addClass p.2 .classType none true
    let vm := (vm.addField c "value" (tag p.1) false).2
    vm.addMethods c
      [("valueOf", "(" ++ tag p.1 ++ ")" ++ tag p.2, true, .box (some c) (Value.default p.1)),
        (p.1 ++ "Value", "()" ++ tag p.1, false, .readField "value" (Value.default p.1))]
  let (t, vm) := (Conversion.wrappers.foldl add {}).addThread "main"
  vm.setSuspended t true

theorem wrapper_wrapperVm : ∀ p ∈ Conversion.wrappers, ∃ c f, wrapperVm.Wrapper p c f := by
  have hfound : ∀ p ∈ Conversion.wrappers,
      (wrapperVm.classNamed? p.2).any (fun c => (wrapperVm.fieldNamed? c "value").any fun f =>
        decide (wrapperVm.Wrapper p c f)) := by decide +kernel
  intro p hp
  obtain ⟨c, -, hc⟩ := (Option.any_eq_true _ _).1 (hfound p hp)
  obtain ⟨f, -, hf⟩ := (Option.any_eq_true _ _).1 hc
  exact ⟨c, f, of_decide_eq_true hf⟩

end Vm

end JvmDebug
