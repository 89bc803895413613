import JvmDebug.Proofs.Exchanges
import JvmDebug.Proofs.WholeNumbers
import JvmDebug.Proofs.Wrapping
import Mathlib.Data.List.Forall2

/-!
Conversion of a value to the type of the place where it goes. What is assignable there can be
converted, if the classes that wrap primitive values do as they should: main result
`Scope.converts_assignable`.
-/
namespace JvmDebug

variable {v r : Value} {typeName : String}

/-! ## Primitive types -/

theorem WholeType.holds_of_widens {S T : WholeType} {n : Int}
    (h : Conversion.widensOrSame S.name T.name) (hn : S.Holds n) : T.Holds n := by
  have hbounds : T.least ≤ S.least ∧ S.least + 2 ^ S.bits ≤ T.least + 2 ^ T.bits := by
    revert h
    cases S <;> cases T <;> decide
  exact ⟨hbounds.1.trans hn.1, hn.2.trans_le hbounds.2⟩

theorem WholeType.isPrimitiveName_name (T : WholeType) : Signature.isPrimitiveName T.name := by
  cases T <;> rfl

namespace Value

theorem Whole.isPrimitive {S : WholeType} {n : Int} (h : v.Whole S n) : v.isPrimitive := by
  cases h <;> rfl

theorem Whole.typeName_eq {S : WholeType} {n : Int} (h : v.Whole S n) : v.typeName = S.name := by
  cases h <;> rfl

theorem typeName_of_convert? (h : v.convert? typeName = some r) :
    r.isPrimitive ∧ r.typeName = typeName := by
  cases v with
  | boolean b =>
    simp only [convert?] at h
    split at h
    · next htype =>
      cases h
      exact ⟨rfl, htype.symm⟩
    · cases h
  | _ =>
    simp only [convert?] at h
    obtain ⟨n, -, h⟩ := Option.bind_eq_some_iff.1 h
    split at h <;> cases h <;> exact ⟨rfl, rfl⟩

/-- Widening never fails. -/
theorem exists_convert? (hv : v.isPrimitive) (h : Conversion.widensOrSame v.typeName typeName) :
    ∃ r, v.convert? typeName = some r := by
  have hwider : typeName ∈ v.typeName :: Conversion.wider v.typeName := by
    rcases Bool.or_eq_true_iff.1 h with hsame | hwider
    · exact List.mem_cons.2 (.inl (eq_of_beq hsame).symm)
    · exact List.mem_cons_of_mem _ (List.contains_iff_mem.1 hwider)
  cases v with
  | null | void | object => cases hv
  | boolean b =>
    obtain rfl := List.mem_singleton.1 hwider
    exact ⟨_, rfl⟩
  | _ =>
    simp only [Conversion.wider, Value.typeName, List.mem_cons, List.not_mem_nil, or_false] at hwider
    obtain rfl | rfl | rfl | rfl | rfl | rfl := hwider <;> exact ⟨_, rfl⟩

theorem whole_of_convert? {S T : WholeType} {n : Int} (hv : v.Whole S n)
    (hwidens : Conversion.widensOrSame S.name T.name) (h : v.convert? T.name = some r) :
    r.Whole T n := by
  obtain ⟨r', hr', m, hm, hmod⟩ := convert?_whole hv T
  obtain rfl := Option.some.inj (hr'.symm.trans h)
  exact hm.holds.eq_of_modEq (WholeType.holds_of_widens hwidens hv.holds) hmod ▸ hm

end Value

/-! ## What is assignable -/

namespace Op
variable {σ ω α β : Type} {serve : (c : Call) → ω → c.Reply × ω}

/-- In some state of the session and of the target the operation ends with this result. -/
def CanGive (serve : (c : Call) → ω → c.Reply × ω) (m : Op DebugError σ α) (a : α) : Prop :=
  ∃ x w, (m.run.run serve x w).1 = .ok a

theorem eq_of_canGive_pure {a b : α} (h : (pure a : Op DebugError σ α).CanGive serve b) :
    a = b := by
  obtain ⟨x, w, h⟩ := h
  exact Except.ok.inj h

theorem CanGive.of_bind {m : Op DebugError σ α} {g : α → Op DebugError σ β} {b : β}
    (h : (m >>= g).CanGive serve b) : ∃ a, m.CanGive serve a ∧ (g a).CanGive serve b := by
  obtain ⟨x, w, h⟩ := h
  rw [run_bind, Routine.run_bind] at h
  cases hm : (m.run.run serve x w).1 with
  | error e =>
    rw [hm] at h
    cases h
  | ok a =>
    rw [hm] at h
    exact ⟨a, ⟨x, w, hm⟩, _, _, h⟩

end Op

/-- The types that take the value, as far as the value and the name of the type tell. -/
inductive Value.Suits (typeName : String) : Value → Prop
  | kept {v : Value} (hv : ¬v.isPrimitive) (hplace : ¬Signature.isPrimitiveName typeName) :
    Suits typeName v
  | unboxed (o : ObjectRef) (primitive : String) (hplace : Signature.isPrimitiveName typeName)
    (hunboxed : Conversion.unboxed? o.runtimeType = some primitive)
    (hwidens : Conversion.widensOrSame primitive typeName) : Suits typeName (.object o)
  | widened {v : Value} (hv : v.isPrimitive) (hplace : Signature.isPrimitiveName typeName)
    (hwidens : Conversion.widensOrSame v.typeName typeName) : Suits typeName v
  | boxed {v : Value} (hv : v.isPrimitive) (hplace : ¬Signature.isPrimitiveName typeName) :
    Suits typeName v

/-! ## Converted values -/

section
variable {ω : Type} (Wraps : ω → ObjectRef → Value → Prop)

/-- If the value is of a class that wraps values, it wraps one. -/
def Filled (w : ω) (v : Value) : Prop :=
  ∀ o, v = .object o → (Conversion.unboxed? o.runtimeType).isSome → ∃ x, Wraps w o x

/-- What a value has become in a place of the type, from one state of the target to another. -/
structure Fitted (w w' : ω) (v : Value) (typeName : String) (r : Value) : Prop where
  primitive : Signature.isPrimitiveName typeName → r.isPrimitive ∧ r.typeName = typeName
  whole : ∀ (S T : WholeType) (n : Int), typeName = T.name →
    (v.Whole S n ∨ ∃ o x, v = .object o ∧ Wraps w o x ∧ x.Whole S n) → r.Whole T n
  boxed : ¬Signature.isPrimitiveName typeName → v.isPrimitive →
    ∃ o, r = .object o ∧ Conversion.wrapper? v.typeName = some o.runtimeType ∧ Wraps w' o v
  kept : ¬Signature.isPrimitiveName typeName → ¬v.isPrimitive → r = v

variable {Wraps} {w w' w₀ w₁ : ω}

theorem Filled.mono (h : Filled Wraps w v) (hstill : ∀ o v, Wraps w o v → Wraps w' o v) :
    Filled Wraps w' v := by
  intro o ho hwrapper
  obtain ⟨x, hx⟩ := h o ho hwrapper
  exact ⟨x, hstill o x hx⟩

theorem Fitted.mono (h : Fitted Wraps w w' v typeName r)
    (hbefore : ∀ o v, Wraps w₀ o v → Wraps w o v) (hafter : ∀ o v, Wraps w' o v → Wraps w₁ o v) :
    Fitted Wraps w₀ w₁ v typeName r where
  primitive := h.primitive
  whole := by
    rintro S T n hT (hv | ⟨o, x, hv, hx, hwhole⟩)
    · exact h.whole S T n hT (.inl hv)
    · exact h.whole S T n hT (.inr ⟨o, x, hv, hbefore o x hx, hwhole⟩)
  boxed hplace hv := by
    obtain ⟨o, ho, hwrapper, hwraps⟩ := h.boxed hplace hv
    exact ⟨o, ho, hwrapper, hafter o v hwraps⟩
  kept := h.kept

end

namespace Scope
variable {σ ω : Type} {serve : (c : Call) → ω → c.Reply × ω} {s : Scope}

theorem suits_of_assignable
    (h : (assignable v typeName : Op DebugError σ Bool).CanGive serve true) :
    v.Suits typeName := by
  by_cases hplace : Signature.isPrimitiveName typeName = true
  · cases v with
    | null => simpa [assignable, hplace] using Op.eq_of_canGive_pure h
    | void => simpa using Op.eq_of_canGive_pure h
    | object o =>
      simp only [assignable, if_pos hplace] at h
      obtain ⟨primitive, hunboxed, hwidens⟩ :=
        (Option.any_eq_true _ _).1 (Op.eq_of_canGive_pure h)
      exact .unboxed o primitive hplace hunboxed hwidens
    | _ =>
      simp only [assignable, if_pos hplace] at h
      exact .widened rfl hplace (Op.eq_of_canGive_pure h)
  · cases v with
    | void => simpa using Op.eq_of_canGive_pure h
    | null | object o => exact .kept Bool.false_ne_true hplace
    | _ => exact .boxed rfl hplace

theorem suits_of_allAssignable {pairs : List (Value × String)}
    (h : (allAssignable pairs : Op DebugError σ Bool).CanGive serve true) :
    ∀ p ∈ pairs, p.1.Suits p.2 := by
  induction pairs with
  | nil => exact List.forall_mem_nil _
  | cons p pairs ih =>
    obtain ⟨fits, hfits, h⟩ := Op.CanGive.of_bind h
    cases fits with
    | false => cases Op.eq_of_canGive_pure h
    | true => exact List.forall_mem_cons.2 ⟨suits_of_assignable hfits, ih h⟩

/-- A method that was chosen takes each of its arguments. -/
theorem suits_of_selectOverload {args : List Value} {methods : List Method} {m : Method}
    (h : (selectOverload args methods : Op DebugError σ (Option Method)).CanGive serve (some m)) :
    m.argumentTypes.length = args.length ∧ ∀ p ∈ args.zip m.argumentTypes, p.1.Suits p.2 := by
  induction methods with
  | nil => cases Op.eq_of_canGive_pure h
  | cons m' rest ih =>
    simp only [selectOverload] at h
    split at h
    · next hlength =>
      obtain ⟨fits, hfits, h⟩ := Op.CanGive.of_bind h
      cases fits with
      | false => exact ih h
      | true =>
        cases Op.eq_of_canGive_pure h
        exact ⟨eq_of_beq hlength, suits_of_allAssignable hfits⟩
    · exact ih h

/-! ## Conversions -/

section
variable {Ready : Nat → ω → Prop} {Wraps : ω → ObjectRef → Value → Prop} {n : Nat} {w : ω}

theorem gives_unbox (h : Wrapping serve s.thread Ready Wraps) (hw : Ready (n + 1) w)
    {o : ObjectRef} (ho : Wraps w o v) :
    ∃ log w', (unbox s o : Op DebugError σ Value).Gives serve w v log w' ∧ Ready n w' ∧
      ∀ o v, Wraps w o v → Wraps w' o v := by
  obtain ⟨-, htype, hprovides⟩ := h.unboxing n w hw o v ho
  obtain ⟨methods, m, hmethods, hfind, w', hinvoke, hready, hstill⟩ := hprovides.find?
  refine ⟨[⟨.methods o.typeId, .ok methods⟩, ⟨.invokeInstance s.thread o m [], .ok (.returned v)⟩],
    w', ?_, hready, hstill⟩
  simp only [unbox, htype]
  refine (Op.Gives.call hmethods).bind ?_
  simp only [Method.unboxes] at hfind
  rw [hfind]
  exact (Op.Gives.call hinvoke).bind (.pure v)

theorem exists_wrapper? (hv : v.isPrimitive) :
    ∃ wrapper, Conversion.wrapper? v.typeName = some wrapper ∧
      (v.typeName, wrapper) ∈ Conversion.wrappers := by
  have hsome : (Conversion.wrappers.find? fun p => p.1 == v.typeName).isSome := by
    cases v with
    | null | void | object => cases hv
    | _ => rfl
  obtain ⟨⟨primitive, wrapper⟩, hfind⟩ := Option.isSome_iff_exists.1 hsome
  have hname := List.find?_some hfind
  obtain rfl : primitive = v.typeName := eq_of_beq hname
  exact ⟨wrapper, congrArg (Option.map Prod.snd) hfind, List.mem_of_find?_eq_some hfind⟩

theorem gives_findClass {name : String} {classes : List TypeInfo}
    (h : serve (.classesByName name) w = (.ok classes, w)) :
    (findClass name : Op DebugError σ (Option TypeInfo)).Gives serve w classes.head?
      [⟨.classesByName name, .ok classes⟩] w :=
  (Op.Gives.call h).bind (.pure _)

/-- Boxing finds the class, then the method, and runs it. -/
theorem gives_box (h : Wrapping serve s.thread Ready Wraps) (hw : Ready (n + 1) w)
    (hv : v.isPrimitive) :
    ∃ c others methods m o w', Conversion.wrapper? v.typeName = some o.runtimeType ∧
      (box s v : Op DebugError σ Value).Gives serve w (.object o)
        [⟨.classesByName o.runtimeType, .ok (c :: others)⟩, ⟨.methods c.id, .ok methods⟩,
          ⟨.invokeStatic s.thread c.id m [v], .ok (.returned (.object o))⟩] w' ∧
      Ready n w' ∧ Wraps w' o v ∧ ∀ o v, Wraps w o v → Wraps w' o v := by
  obtain ⟨wrapper, hwrapper, hmem⟩ := exists_wrapper? hv
  obtain ⟨c, others, hclass, hprovides⟩ := h.boxing n w hw _ hmem
  obtain ⟨methods, m, hmethods, hfind, hmakes⟩ := hprovides.find?
  obtain ⟨o, w', hinvoke, rfl, ho, hready, hstill⟩ := hmakes v hv rfl
  refine ⟨c, others, methods, m, o, w', hwrapper, ?_, hready, ho, hstill⟩
  simp only [box, hwrapper]
  refine (gives_findClass hclass).bind ((Op.Gives.call hmethods).bind ?_)
  simp only [Method.boxes] at hfind
  rw [hfind]
  exact (Op.Gives.call hinvoke).bind (.pure (Value.object o))

/-- An object wraps one value only, the one that unboxing it gives. -/
theorem wraps_unique (h : Wrapping serve s.thread Ready Wraps) (hw : Ready (n + 1) w)
    {o : ObjectRef} (hv : Wraps w o v) (hr : Wraps w o r) : v = r := by
  obtain ⟨_, _, hgives, -⟩ := gives_unbox (σ := Unit) h hw hv
  obtain ⟨_, _, hgives', -⟩ := gives_unbox (σ := Unit) h hw hr
  have hrun := (hgives ()).1.symm.trans (hgives' ()).1
  exact Except.ok.inj (congrArg Prod.fst hrun)

theorem coerce_widened (hv : v.isPrimitive) (hplace : Signature.isPrimitiveName typeName)
    (hr : v.convert? typeName = some r) :
    (coerce s v typeName : Op DebugError σ Value) = pure r := by
  cases v with
  | null | void | object => cases hv
  | _ => simp only [coerce, if_pos hplace, hr]

theorem coerce_boxed (hv : v.isPrimitive) (hplace : ¬Signature.isPrimitiveName typeName) :
    (coerce s v typeName : Op DebugError σ Value) = box s v := by
  cases v with
  | null | void | object => cases hv
  | _ => simp only [coerce, if_neg hplace]

theorem coerce_kept (hv : ¬v.isPrimitive) (hplace : ¬Signature.isPrimitiveName typeName) :
    (coerce s v typeName : Op DebugError σ Value) = pure v := by
  cases v with
  | null | void => rfl
  | object => simp only [coerce, if_neg hplace]
  | _ => exact absurd rfl hv

theorem fitted_kept {w' : ω} (hv : ¬v.isPrimitive) (hplace : ¬Signature.isPrimitiveName typeName) :
    Fitted Wraps w w' v typeName v where
  primitive h := absurd h hplace
  whole _ T _ hT := absurd (hT ▸ T.isPrimitiveName_name) hplace
  boxed _ h := absurd h hv
  kept _ _ := rfl

theorem fitted_boxed {w' : ω} {o : ObjectRef} (hv : v.isPrimitive)
    (hplace : ¬Signature.isPrimitiveName typeName)
    (hwrapper : Conversion.wrapper? v.typeName = some o.runtimeType) (ho : Wraps w' o v) :
    Fitted Wraps w w' v typeName (.object o) where
  primitive h := absurd h hplace
  whole _ T _ hT := absurd (hT ▸ T.isPrimitiveName_name) hplace
  boxed _ _ := ⟨o, rfl, hwrapper, ho⟩
  kept _ h := absurd hv h

/-- The value itself, or the one that it wraps, is widened. -/
theorem fitted_widened {w' : ω} {x : Value} (hx : v = x ∨ ∃ o, v = .object o ∧ Wraps w o x)
    (honly : ∀ o y, v = .object o → Wraps w o y → y = x)
    (hplace : Signature.isPrimitiveName typeName)
    (hwidens : Conversion.widensOrSame x.typeName typeName) (hr : x.convert? typeName = some r) :
    Fitted Wraps w w' v typeName r where
  primitive _ := Value.typeName_of_convert? hr
  whole := by
    rintro S T n rfl hwhole
    have hxn : x.Whole S n := by
      rcases hwhole with hv | ⟨o, y, hv, hy, hyn⟩
      · rcases hx with rfl | ⟨o, rfl, -⟩
        · exact hv
        · cases hv
      · exact honly o y hv hy ▸ hyn
    exact Value.whole_of_convert? hxn (hxn.typeName_eq ▸ hwidens) hr
  boxed h := absurd hplace h
  kept h := absurd hplace h

/-- A value that suits is converted. A primitive value for which there has to be an object becomes
the object that the class for such values returns. -/
theorem gives_coerce (h : Wrapping serve s.thread Ready Wraps) (hw : Ready (n + 1) w)
    (hv : v.Suits typeName) (hfilled : Filled Wraps w v) :
    ∃ r log w', (coerce s v typeName : Op DebugError σ Value).Gives serve w r log w' ∧
      Ready n w' ∧ (∀ o v, Wraps w o v → Wraps w' o v) ∧ Fitted Wraps w w' v typeName r ∧
      (¬Signature.isPrimitiveName typeName → v.isPrimitive → ∃ c others methods m o,
        r = .object o ∧ Conversion.wrapper? v.typeName = some o.runtimeType ∧
        log = [⟨.classesByName o.runtimeType, .ok (c :: others)⟩, ⟨.methods c.id, .ok methods⟩,
          ⟨.invokeStatic s.thread c.id m [v], .ok (.returned (.object o))⟩]) := by
  cases hv with
  | kept hnot hplace =>
    rw [coerce_kept hnot hplace]
    exact ⟨v, [], w, .pure v, h.ready n w hw, fun _ _ => id, fitted_kept hnot hplace,
      fun _ hv => absurd hv hnot⟩
  | unboxed o primitive hplace hunboxed hwidens =>
    obtain ⟨x, hx⟩ := hfilled o rfl (by rw [hunboxed]; rfl)
    obtain ⟨hprimitive, htype, -⟩ := h.unboxing n w hw o x hx
    obtain rfl := Option.some.inj (hunboxed.symm.trans htype)
    obtain ⟨r, hr⟩ := Value.exists_convert? hprimitive hwidens
    obtain ⟨log, w', hgives, hready, hstill⟩ := gives_unbox (σ := σ) h hw hx
    have honly (o' : ObjectRef) (y : Value) (ho : Value.object o = .object o')
        (hy : Wraps w o' y) : y = x := by
      cases ho
      exact wraps_unique h hw hy hx
    refine ⟨r, log ++ [], w', ?_, hready, hstill,
      fitted_widened (.inr ⟨o, rfl, hx⟩) honly hplace hwidens hr,
      fun hnot => absurd hplace hnot⟩
    simp only [coerce, if_pos hplace]
    refine hgives.bind ?_
    rw [hr]
    exact .pure r
  | widened hprimitive hplace hwidens =>
    obtain ⟨r, hr⟩ := Value.exists_convert? hprimitive hwidens
    have honly (o : ObjectRef) (y : Value) (ho : v = .object o) (_ : Wraps w o y) : y = v := by
      rw [ho] at hprimitive
      cases hprimitive
    rw [coerce_widened hprimitive hplace hr]
    exact ⟨r, [], w, .pure r, h.ready n w hw, fun _ _ => id,
      fitted_widened (.inl rfl) honly hplace hwidens hr, fun hnot => absurd hplace hnot⟩
  | boxed hprimitive hplace =>
    obtain ⟨c, others, methods, m, o, w', hwrapper, hgives, hready, ho, hstill⟩ :=
      gives_box (σ := σ) h hw hprimitive
    rw [coerce_boxed hprimitive hplace]
    exact ⟨_, _, w', hgives, hready, hstill, fitted_boxed hprimitive hplace hwrapper ho,
      fun _ _ => ⟨c, others, methods, m, o, rfl, hwrapper, rfl⟩⟩

theorem gives_coerceAll (h : Wrapping serve s.thread Ready Wraps) {pairs : List (Value × String)}
    (hw : Ready (n + pairs.length) w) (hv : ∀ p ∈ pairs, p.1.Suits p.2)
    (hfilled : ∀ p ∈ pairs, Filled Wraps w p.1) :
    ∃ values log w', (coerceAll s pairs : Op DebugError σ (List Value)).Gives serve w values log w' ∧
      Ready n w' ∧ (∀ o v, Wraps w o v → Wraps w' o v) ∧
      List.Forall₂ (fun p r => Fitted Wraps w w' p.1 p.2 r) pairs values := by
  induction pairs generalizing w with
  | nil => exact ⟨[], [], w, .pure [], hw, fun _ _ => id, .nil⟩
  | cons p pairs ih =>
    obtain ⟨hp, hpairs⟩ := List.forall_mem_cons.1 hv
    obtain ⟨hpfilled, hpairsfilled⟩ := List.forall_mem_cons.1 hfilled
    obtain ⟨r, log, w₁, hgives, hready, hstill, hfitted, -⟩ :=
      gives_coerce (σ := σ) h (n := n + pairs.length) hw hp hpfilled
    obtain ⟨values, more, w', hgives', hready', hstill', hall⟩ :=
      ih hready hpairs fun q hq => (hpairsfilled q hq).mono hstill
    refine ⟨r :: values, _, w', hgives.bind (hgives'.bind (.pure (r :: values))), hready',
      fun o v ho => hstill' o v (hstill o v ho), ?_⟩
    refine .cons (hfitted.mono (fun _ _ => id) hstill') ?_
    exact hall.imp fun q r hr => hr.mono hstill fun _ _ => id

/-- A value that is assignable to a place is converted, to a value of the type of the place, the
object that boxes it or just itself. So the arguments of a method that was chosen are, too. -/
theorem converts_assignable (h : Wrapping serve s.thread Ready Wraps) :
    (∀ v typeName n w, (assignable v typeName : Op DebugError σ Bool).CanGive serve true →
      Ready (n + 1) w → Filled Wraps w v →
      ∃ r log w', (coerce s v typeName : Op DebugError σ Value).Gives serve w r log w' ∧
        Ready n w' ∧ Fitted Wraps w w' v typeName r ∧
        (¬Signature.isPrimitiveName typeName → v.isPrimitive → ∃ c others methods m o,
          r = .object o ∧ Conversion.wrapper? v.typeName = some o.runtimeType ∧
          log = [⟨.classesByName o.runtimeType, .ok (c :: others)⟩, ⟨.methods c.id, .ok methods⟩,
            ⟨.invokeStatic s.thread c.id m [v], .ok (.returned (.object o))⟩])) ∧
    ∀ args methods m n w,
      (selectOverload args methods : Op DebugError σ (Option Method)).CanGive serve (some m) →
      Ready (n + args.length) w → (∀ v ∈ args, Filled Wraps w v) →
      ∃ values log w', (coerceAll s (args.zip m.argumentTypes) :
          Op DebugError σ (List Value)).Gives serve w values log w' ∧
        Ready n w' ∧ values.length = args.length ∧
        List.Forall₂ (fun p r => Fitted Wraps w w' p.1 p.2 r) (args.zip m.argumentTypes) values := by
  constructor
  · intro v typeName n w hassignable hw hfilled
    obtain ⟨r, log, w', hgives, hready, -, hfitted, hboxed⟩ :=
      gives_coerce (σ := σ) h hw (suits_of_assignable hassignable) hfilled
    exact ⟨r, log, w', hgives, hready, hfitted, hboxed⟩
  · intro args methods m n w hchosen hw hfilled
    obtain ⟨hlength, hsuits⟩ := suits_of_selectOverload hchosen
    have hzip : (args.zip m.argumentTypes).length = args.length := by
      rw [List.length_zip, hlength, Nat.min_self]
    obtain ⟨values, log, w', hgives, hready, -, hall⟩ :=
      gives_coerceAll (σ := σ) (n := n) h (by rwa [hzip]) hsuits
        fun p hp => hfilled p.1 (List.of_mem_zip hp).1
    exact ⟨values, log, w', hgives, hready, hall.length_eq.symm.trans hzip, hall⟩

end

/-- An `int` goes into a place for numbers. Its wrapper then is the argument of a method that takes
a `long`. -/
theorem converts_assignable_twice :
    ∃ o log w r more w',
      (coerce { bareScope with thread := 33 } (.int 7) "java.lang.Number" :
        Op DebugError Unit Value).Gives Vm.serve Vm.wrapperVm (.object o) log w ∧
      o.runtimeType = "java.lang.Integer" ∧
      (coerceAll { bareScope with thread := 33 } [(.object o, "long")] :
        Op DebugError Unit (List Value)).Gives Vm.serve w [r] more w' ∧ r.Whole .long 7 := by
  have hwrapping : Wrapping Vm.serve 33 Vm.wrapperVm.RoomFor Vm.wrapperVm.WrapsIn :=
    Vm.wrapping (by decide +kernel) Vm.wrapper_wrapperVm
  have hroom : Vm.wrapperVm.RoomFor 2 Vm.wrapperVm := ⟨.rfl, nofun, by decide +kernel⟩
  obtain ⟨v, log, w, hgives, hready, hfitted, -⟩ :=
    (converts_assignable (σ := Unit) (s := { bareScope with thread := 33 }) hwrapping).1
      (.int 7) "java.lang.Number" 1 Vm.wrapperVm ⟨(), Vm.wrapperVm, rfl⟩ hroom nofun
  obtain ⟨o, rfl, hwrapper, hwraps⟩ := hfitted.boxed (by decide) rfl
  have htype : o.runtimeType = "java.lang.Integer" := (Option.some.inj hwrapper).symm
  let takesLong : Method := ⟨1, 1, "sleep", "(J)V", 9⟩
  have htypes : takesLong.argumentTypes = ["long"] := by decide +kernel
  have hassignable : (assignable (.object o) "long" : Op DebugError Unit Bool) = pure true := by
    simp only [assignable, htype]
    rfl
  have hchosen : (selectOverload [.object o] [takesLong] : Op DebugError Unit _).CanGive Vm.serve
      (some takesLong) := by
    refine ⟨(), w, ?_⟩
    simp only [selectOverload, htypes, List.zip_cons_cons, allAssignable, hassignable]
    rfl
  have hfilled : ∀ v ∈ [Value.object o], Filled Vm.wrapperVm.WrapsIn w v := by
    rintro v hv o' rfl -
    obtain rfl := Value.object.inj (List.mem_singleton.1 hv)
    exact ⟨_, hwraps⟩
  obtain ⟨values, more, w', hgives', -, -, hall⟩ :=
    (converts_assignable (σ := Unit) (s := { bareScope with thread := 33 }) hwrapping).2
      [.object o] [takesLong] takesLong 0 w hchosen hready hfilled
  rw [htypes] at hgives' hall
  obtain ⟨r, values, hr, hnil, rfl⟩ := List.forall₂_cons_left_iff.1 hall
  obtain rfl := List.forall₂_nil_left_iff.1 hnil
  have hseven : r.Whole .long 7 := hr.whole .int .long 7 rfl (.inr ⟨o, _, rfl, hwraps, .int 7⟩)
  exact ⟨o, log, w, r, more, w', hgives, htype, hgives', hseven⟩

end Scope

end JvmDebug
