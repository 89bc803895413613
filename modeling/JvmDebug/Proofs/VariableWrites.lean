import JvmDebug.Proofs.AssignmentConversion
import JvmDebug.Proofs.FailingCalls
import JvmDebug.Proofs.ParserRuns
import JvmDebug.Proofs.Scripts
import JvmDebug.Session.Inspect

/-!
Writing a variable. Everything that can fail is done before the write, but for showing the value
that was written: `Session.setVariable_writes`.
-/
namespace JvmDebug

open Routine

namespace Vm
variable {vm vm' : Vm} {t : ThreadId} {f : FrameId} {slot : UInt32} {value : Value}

/-- The value of a local, which is known by its thread, its frame and its slot. -/
def local? (vm : Vm) (t : ThreadId) (f : FrameId) (slot : UInt32) : Option Value := do
  let d ← vm.threads.get? t
  let frame ← d.frames.find? (·.id == f)
  (frame.locals.find? (·.1.slot == slot)).map Prod.snd

/-- The local has the value now. The other locals of all frames are as they were, and so is all of
the target but the heap. -/
structure Assigned (vm : Vm) (t : ThreadId) (f : FrameId) (slot : UInt32) (value : Value)
    (vm' : Vm) : Prop where
  locals (t' : ThreadId) (f' : FrameId) (slot' : UInt32) : vm'.local? t' f' slot' =
    if t' = t ∧ f' = f ∧ slot' = slot then some value else vm.local? t' f' slot'
  rest : vm.SameButHeap { vm' with threads := vm.threads }

end Vm

/-- The frame, with a value in one of its slots if it is the frame `f`. -/
def VmFrame.withSlot (f : FrameId) (slot : UInt32) (value : Value) (d : VmFrame) : VmFrame :=
  if d.id == f then { d with locals := Vm.setSlot slot value d.locals } else d

namespace Vm
variable {vm vm' : Vm} {t : ThreadId} {f : FrameId} {slot : UInt32} {value : Value}

theorem find?_setSlot (slot slot' : UInt32) (value : Value) (locals : List (Variable × Value)) :
    ((setSlot slot value locals).find? (·.1.slot == slot')).map Prod.snd =
      if slot' = slot then (locals.find? (·.1.slot == slot)).map fun _ => value
      else (locals.find? (·.1.slot == slot')).map Prod.snd := by
  induction locals with
  | nil => simp [setSlot]
  | cons p ps ih =>
    by_cases hp : p.1.slot = slot
    · by_cases hslot : slot' = slot <;> simp [setSlot, hp, hslot, Ne.symm]
    · by_cases hslot : p.1.slot = slot'
      · have hne : slot' ≠ slot := hslot ▸ hp
        simp [setSlot, hslot, hne]
      · simp [setSlot, hp, hslot, ih]

theorem frames_of_frameOf {d : VmFrame} (h : vm.frameOf t f = .ok d) :
    ∃ thread, vm.threads.get? t = some thread ∧ thread.frames.find? (·.id == f) = some d := by
  simp only [frameOf, suspendedThread] at h
  cases hthread : vm.threads.get? t with
  | none =>
    simp only [hthread] at h
    cases h
  | some thread =>
    simp only [hthread] at h
    refine ⟨thread, rfl, ?_⟩
    cases hsuspended : thread.info.suspended with
    | false =>
      simp only [hsuspended] at h
      cases h
    | true =>
      simp only [hsuspended, if_true, Bind.bind, Except.bind] at h
      split at h <;> cases h
      assumption

theorem find?_withSlot (f f' : FrameId) (slot : UInt32) (value : Value) (frames : List VmFrame) :
    (frames.map (VmFrame.withSlot f slot value)).find? (·.id == f') =
      (frames.find? (·.id == f')).map (VmFrame.withSlot f slot value) := by
  have hid : (fun d : VmFrame => d.id == f') ∘ VmFrame.withSlot f slot value = (·.id == f') := by
    funext d
    simp only [Function.comp, VmFrame.withSlot]
    split <;> rfl
  rw [List.find?_map, hid]

/-- The target after a value was written to a slot. -/
def withLocal (vm : Vm) (t : ThreadId) (f : FrameId) (slot : UInt32) (value : Value) : Vm :=
  { vm with
    threads := vm.threads.modify t fun d =>
      { d with frames := d.frames.map (VmFrame.withSlot f slot value) } }

theorem assigned_withLocal {d : VmFrame} {p : Variable × Value} (hframe : vm.frameOf t f = .ok d)
    (hlocal : d.locals.find? (·.1.slot == slot) = some p) :
    vm.Assigned t f slot value (vm.withLocal t f slot value) := by
  obtain ⟨thread, hthread, hfind⟩ := frames_of_frameOf hframe
  refine ⟨fun t' f' slot' => ?_, Eq.refl _⟩
  by_cases ht : t' = t
  · subst ht
    have hframes : (vm.withLocal t' f slot value).local? t' f' slot' =
        ((thread.frames.find? (·.id == f')).map (VmFrame.withSlot f slot value)).bind fun d =>
          (d.locals.find? (·.1.slot == slot')).map Prod.snd := by
      simp only [local?, withLocal, Dict.get?_modify, if_true, hthread, ← find?_withSlot]
      rfl
    have hbefore : vm.local? t' f' slot' = (thread.frames.find? (·.id == f')).bind fun d =>
        (d.locals.find? (·.1.slot == slot')).map Prod.snd := by
      simp only [local?, hthread]
      rfl
    rw [hframes, hbefore]
    by_cases hf : f' = f
    · subst hf
      have hid : d.id = f' := by simpa using List.find?_some hfind
      simp only [hfind, Option.map_some, Option.bind_some, VmFrame.withSlot, hid, beq_self_eq_true,
        if_true, find?_setSlot, hlocal, true_and]
    · rw [if_neg fun h => hf h.2.1]
      cases hother : thread.frames.find? (·.id == f') with
      | none => rfl
      | some d' =>
        have hid : d'.id = f' := by simpa using List.find?_some hother
        simp only [Option.map_some, VmFrame.withSlot, hid, beq_iff_eq, hf, if_false]
  · rw [if_neg fun h => ht h.1]
    simp only [local?, withLocal, Dict.get?_modify, if_neg ht]

/-- A write that is not refused finds the frame and the slot, and reaches nothing else. -/
theorem setLocal_cases (vm : Vm) (t : ThreadId) (f : FrameId) (v : Variable) (value : Value) :
    (∃ e, vm.setLocal t f v value = (.error e, vm)) ∨
      (vm.setLocal t f v value).1 = .ok () ∧
        vm.Assigned t f v.slot value (vm.setLocal t f v value).2 := by
  cases hframe : vm.frameOf t f with
  | error e =>
    simp only [setLocal, hframe]
    exact .inl ⟨e, rfl⟩
  | ok d =>
    simp only [setLocal, hframe, Bind.bind, Except.bind, localIn]
    cases hlocal : d.locals.find? (·.1.slot == v.slot) with
    | none => exact .inl ⟨_, rfl⟩
    | some p => exact .inr ⟨rfl, assigned_withLocal hframe hlocal⟩

theorem Assigned.after {vm'' : Vm} (h : vm'.Assigned t f slot value vm'')
    (hsame : vm.SameButHeap vm') : vm.Assigned t f slot value vm'' where
  locals t' f' slot' := by
    have hthreads : vm'.threads = vm.threads := by rw [hsame]
    have hlocal : vm'.local? t' f' slot' = vm.local? t' f' slot' := by simp only [local?, hthreads]
    rw [h.locals, hlocal]
  rest := by
    have hthreads : vm'.threads = vm.threads := by rw [hsame]
    exact hsame.trans (hthreads ▸ h.rest)

end Vm

/-! ## The value to write -/

theorem Scope.typeName_of_assign {σ ω : Type} {serve : (c : Call) → ω → c.Reply × ω} {s : Scope}
    {v r : Value} {typeName : String} (hplace : Signature.isPrimitiveName typeName)
    (h : (s.assign v typeName : Op DebugError σ Value).CanGive serve r) :
    r.isPrimitive ∧ r.typeName = typeName := by
  obtain ⟨fits, hfits, h⟩ := Op.CanGive.of_bind h
  cases fits with
  | false =>
    obtain ⟨x, w, h⟩ := h
    cases h
  | true =>
    rw [if_pos rfl] at h
    cases suits_of_assignable hfits with
    | kept _ hnot | boxed _ hnot => exact absurd hplace hnot
    | widened hv _ hwidens =>
      obtain ⟨r', hr'⟩ := Value.exists_convert? hv hwidens
      rw [coerce_widened hv hplace hr'] at h
      obtain rfl := Op.eq_of_canGive_pure h
      exact Value.typeName_of_convert? hr'
    | unboxed o =>
      simp only [coerce, if_pos hplace] at h
      obtain ⟨v, -, h⟩ := Op.CanGive.of_bind h
      cases hr : v.convert? typeName with
      | none =>
        rw [hr] at h
        obtain ⟨x, w, h⟩ := h
        cases h
      | some r' =>
        rw [hr] at h
        obtain rfl := Op.eq_of_canGive_pure h
        exact Value.typeName_of_convert? hr

namespace Session
variable {s : Session} {vm : Vm} {name : String}

/-- The first local of the name in the frame that is selected. -/
structure Names (s : Session) (vm : Vm) (name : String) (t : ThreadId) (f : FrameId)
    (v : Variable) : Prop where
  thread : s.selection.thread = some t
  frame : ∃ d, vm.suspendedThread t = .ok d ∧
    (d.frames[s.selection.frame]?).map VmFrame.id = some f
  local_ : ∃ d, vm.frameOf t f = .ok d ∧ (d.locals.map Prod.fst).find? (·.name == name) = some v

/-- The named local has a value of its type, and all else but the heap is as it was. -/
def Written (s : Session) (vm : Vm) (name : String) (vm' : Vm) : Prop :=
  ∃ t f v value, s.Names vm name t f v ∧ vm.Assigned t f v.slot value vm' ∧
    (Signature.isPrimitiveName v.typeName → value.isPrimitive ∧ value.typeName = v.typeName)

/-- So far the target was only asked and has evaluated something. -/
structure Preparing (s : Session) (vm : Vm) (s' : Session) (w : Vm × List Call) : Prop where
  session : s' = s
  heap : vm.SameButHeap w.1
  calls : ∀ c ∈ w.2, c.evaluates

/-- What setting a variable has done at its end. -/
def Settles (s : Session) (vm : Vm) (name : String) (r : Except DebugError VariableInfo)
    (s' : Session) (w : Vm × List Call) : Prop :=
  let written := (∃ info, r = .ok info) ∨ ∃ t f v value, .setLocalValue t f v value ∈ w.2.dropLast
  s' = s ∧ (written → s.Written vm name w.1) ∧ (¬written → vm.SameButHeap w.1)

variable {fails : Failures} {scripts : Scripts}

theorem Preparing.settles {s' : Session} {w : Vm × List Call} (h : Preparing s vm s' w)
    (e : DebugError) : Settles s vm name (.error e) s' w := by
  refine ⟨h.session, ?_, fun _ => h.heap⟩
  rintro (⟨info, hok⟩ | ⟨t, f, v, value, hmem⟩)
  · cases hok
  · have hcall := h.calls _ (List.dropLast_subset _ hmem)
    cases hcall

/-- What evaluates prepares a write further. -/
theorem Preparing.run_evaluates {α : Type} {m : Task Session α} (hm : Evaluates m) {s' : Session}
    {w : Vm × List Call} (h : Preparing s vm s' w) :
    Preparing s vm (m.run (fails.answer (Vm.serveBy scripts)) s' w).2.1
      (m.run (fails.answer (Vm.serveBy scripts)) s' w).2.2 := by
  suffices hends : m.Ends fails (Vm.serveBy scripts) (fun _ => Preparing s vm) s' w from hends.run
  refine leads_of_within ?_ (fun _ _ hf => hf.elim) hm h
  rintro c hc s' w hw -
  refine ⟨hw.session, hw.heap.trans ?_, ?_⟩
  · exact Failures.answer_keeps (fun _ => .rfl) (fun vm => vm.serveBy_evaluates scripts hc) w
  · rw [Failures.answer_made]
    exact List.forall_mem_append.2 ⟨hw.calls, List.forall_mem_singleton.2 hc⟩

theorem ends_evaluates {α : Type} {m : Op DebugError Session α} (hm : Evaluates m.run)
    {Q : Except DebugError α → Session → Vm × List Call → Prop} {s' : Session} {w : Vm × List Call}
    (h : Preparing s vm s' w)
    (hQ : ∀ r w', Preparing s vm s w' →
      (∀ a, r = .ok a → m.CanGive (fails.answer (Vm.serveBy scripts)) a) → Q r s w') :
    m.run.Ends fails (Vm.serveBy scripts) Q s' w := by
  refine leads_of_run ?_
  have hrun : Preparing s vm (m.run.run (fails.answer (Vm.serveBy scripts)) s' w).2.1
    (m.run.run (fails.answer (Vm.serveBy scripts)) s' w).2.2 := h.run_evaluates hm
  have hsession := hrun.session
  rw [hsession] at hrun ⊢
  exact hQ _ _ hrun fun a ha => ⟨_, _, ha⟩

/-- Only the last of the calls that show a value can fail. -/
theorem ends_display {v : Value} {w : Vm} {made : List Call}
    {Q : Except DebugError String → Session → Vm × List Call → Prop}
    (hok : ∀ text made, Q (.ok text) s (w, made))
    (herror : ∀ e c, Q (.error e) s (w, made ++ [c])) :
    (Display.value v : Op DebugError Session String).run.Ends fails (Vm.serveBy scripts) Q s
      (w, made) := by
  cases v with
  | object o =>
    simp only [Display.value]
    split
    · refine leads_op_bind (ends_call (c := .stringValue o) (fun e _ => herror _ _) fun _ => ?_)
      rw [Vm.serveBy_inspects w scripts rfl]
      cases (Vm.serveBy scripts (.stringValue o) w).1 with
      | error e => exact herror _ _
      | ok text => exact hok _ _
    · split
      · refine leads_op_bind (ends_call (c := .arrayLength o) (fun e _ => herror _ _) fun _ => ?_)
        rw [Vm.serveBy_inspects w scripts rfl]
        cases (Vm.serveBy scripts (.arrayLength o) w).1 with
        | error e => exact herror _ _
        | ok n => exact hok _ _
      · exact hok _ _
  | _ => exact hok _ _

theorem Preparing.look {w : Vm} {made : List Call} (h : Preparing s vm s (w, made)) {c : Call}
    (hc : c.inspects) : Preparing s vm s (w, made ++ [c]) where
  session := rfl
  heap := h.heap
  calls := List.forall_mem_append.2
    ⟨h.calls, List.forall_mem_singleton.2 (Call.evaluates_of_converts (Call.converts_of_inspects hc))⟩

/-- A call that looks is answered as the target was before, or fails. -/
theorem ends_look {made : List Call} {c : Call} (hc : c.inspects)
    (h : Preparing s vm s (vm, made))
    {Q : Except DebugError c.Answer → Session → Vm × List Call → Prop}
    (herror : ∀ e made, Preparing s vm s (vm, made) → Q (.error e) s (vm, made))
    (hok : ∀ a made, (Vm.serveBy scripts c vm).1 = .ok a → Preparing s vm s (vm, made) →
      Q (.ok a) s (vm, made)) :
    (Op.call c : Op DebugError Session c.Answer).run.Ends fails (Vm.serveBy scripts) Q s
      (vm, made) := by
  refine ends_call (c := c) (fun e _ => herror _ _ (h.look hc)) fun _ => ?_
  rw [Vm.serveBy_inspects vm scripts hc]
  cases ha : (Vm.serveBy scripts c vm).1 with
  | error e => exact herror _ _ (h.look hc)
  | ok a => exact hok a _ ha (h.look hc)

theorem exists_of_map_ok {ε α β : Type} {x : Except ε α} {g : α → β} {b : β}
    (h : x.map g = .ok b) : ∃ a, x = .ok a ∧ g a = b := by
  cases x with
  | error e => cases h
  | ok a => exact ⟨a, rfl, Except.ok.inj h⟩

theorem ends_chosenFrame {Q : Except DebugError (ThreadId × Frame) → Session → Vm × List Call → Prop}
    (herror : ∀ e made, Preparing s vm s (vm, made) → Q (.error e) s (vm, made))
    (hok : ∀ t f made, s.selection.thread = some t → (∃ d, vm.suspendedThread t = .ok d ∧
      (d.frames[s.selection.frame]?).map VmFrame.id = some f.id) →
      Preparing s vm s (vm, made) → Q (.ok (t, f)) s (vm, made)) :
    (chosenFrame none none).run.Ends fails (Vm.serveBy scripts) Q s (vm, []) := by
  have hstart : Preparing s vm s (vm, []) := ⟨rfl, .rfl, List.forall_mem_nil _⟩
  refine leads_op_bind (leads_reach (fun e _ => herror _ _ hstart) fun _ => ?_)
  refine leads_op_bind (ends_chosenThread (fun _ => herror _ _ hstart) fun t ht => ?_)
  have ht : s.selection.thread = some t := ht
  refine leads_op_bind (leads_state ?_)
  refine leads_op_bind (ends_look (c := .frames t) rfl hstart herror fun all made hall hprepared => ?_)
  obtain ⟨d, hd, hframes⟩ := exists_of_map_ok (x := vm.suspendedThread t) hall
  subst hframes
  simp only [Option.getD_none, ht, if_true, List.getElem?_map]
  cases hframe : d.frames[s.selection.frame]? with
  | none => exact herror _ _ hprepared
  | some frame => exact hok _ _ _ ht ⟨d, hd, congrArg (Option.map VmFrame.id) hframe⟩ hprepared

theorem find?_zip {v : Variable} {vars : List Variable} {values : List Value} {x : Value}
    (h : (vars.zip values).find? (·.1.name == name) = some (v, x)) :
    vars.find? (·.name == name) = some v := by
  induction vars generalizing values with
  | nil => cases h
  | cons u us ih =>
    cases values with
    | nil => cases h
    | cons y ys =>
      rw [List.zip_cons_cons, List.find?_cons] at h
      rw [List.find?_cons]
      split at h
      · cases h
        simp [*]
      · simp only [*]
        exact ih h

theorem ends_read {t : ThreadId} {f : Frame} {made : List Call} (h : Preparing s vm s (vm, made))
    {Q : Except DebugError Scope → Session → Vm × List Call → Prop}
    (herror : ∀ e made, Preparing s vm s (vm, made) → Q (.error e) s (vm, made))
    (hok : ∀ scope made, (∃ d values, vm.frameOf t f.id = .ok d ∧
      scope.locals = (d.locals.map Prod.fst).zip values) → Preparing s vm s (vm, made) →
      Q (.ok scope) s (vm, made)) :
    (Scope.read t f).run.Ends fails (Vm.serveBy scripts) Q s (vm, made) := by
  refine leads_op_bind (ends_look (c := .visibleVariables t f) rfl h herror fun vars made hvars h => ?_)
  obtain ⟨d, hd, hvars⟩ := exists_of_map_ok (x := vm.frameOf t f.id) hvars
  have hself (values : List Value) {made : List Call} (h : Preparing s vm s (vm, made)) :
      (do
        let self : Option ObjectRef ← Op.call (.thisObject t f)
        return ⟨t, f, vars.zip values, self⟩ : Op DebugError Session Scope).run.Ends fails
          (Vm.serveBy scripts) Q s (vm, made) := by
    refine leads_op_bind (ends_look (c := .thisObject t f) rfl h herror fun self made _ h => ?_)
    exact hok _ _ ⟨d, values, hd, hvars ▸ rfl⟩ h
  dsimp only
  split
  · exact hself [] h
  · refine leads_op_bind (ends_look (c := .localValues t f vars) rfl h herror fun values made _ h => ?_)
    exact hself values h

/-- The write, and showing what was written. -/
theorem ends_write {t : ThreadId} {f : Frame} {v : Variable} {value : Value} {w : Vm}
    {made : List Call} (h : Preparing s vm s (w, made)) (hnames : s.Names vm name t f.id v)
    (htype : Signature.isPrimitiveName v.typeName → value.isPrimitive ∧ value.typeName = v.typeName) :
    (do
      let _ : Unit ← Op.call (.setLocalValue t f v value)
      return ⟨v.name, v.typeName, ← Display.value value, kindOf v⟩ :
        Op DebugError Session VariableInfo).run.Ends fails (Vm.serveBy scripts) (Settles s vm name) s
      (w, made) := by
  have hrefused (e : DebugError) :
      Settles s vm name (.error e) s (w, made ++ [.setLocalValue t f v value]) := by
    refine ⟨rfl, ?_, fun _ => h.heap⟩
    rintro (⟨info, hok⟩ | ⟨t', f', v', value', hmem⟩)
    · cases hok
    · rw [List.dropLast_concat] at hmem
      cases h.calls _ hmem
  refine leads_op_bind (ends_call (c := .setLocalValue t f v value) (fun e _ => hrefused _) fun _ => ?_)
  have hserve : Vm.serveBy scripts (.setLocalValue t f v value) w = w.setLocal t f.id v value := rfl
  rw [hserve]
  rcases w.setLocal_cases t f.id v value with ⟨e, hset⟩ | ⟨hset, hassigned⟩
  · rw [hset]
    exact hrefused _
  · have hwritten : s.Written vm name (w.setLocal t f.id v value).2 :=
      ⟨t, f.id, v, value, hnames, hassigned.after h.heap, htype⟩
    rw [hset]
    refine leads_op_bind (ends_display (fun text made => ?_) fun e c => ?_)
    · exact ⟨rfl, fun _ => hwritten, fun hnot => absurd (.inl ⟨_, rfl⟩) hnot⟩
    · refine ⟨rfl, fun _ => hwritten, fun hnot => absurd (.inr ⟨t, f, v, value, ?_⟩) hnot⟩
      simp

/-- If setting a variable succeeds, or fails after the write, then the variable that was named has
got a value of its type, and nothing else is changed but the heap. If it fails otherwise, it leaves
all the variables as they were. -/
theorem setVariable_writes (name source : String) (scripts : Scripts) (fails : Failures)
    (s : Session) (vm : Vm) :
    let run := (setVariable name source).run.run (fails.answer (Vm.serveBy scripts)) s (vm, [])
    let written := (∃ info, run.1 = .ok info) ∨
      ∃ t f v value, .setLocalValue t f v value ∈ run.2.2.2.dropLast
    run.2.1 = s ∧ (written → s.Written vm name run.2.2.1) ∧
      (¬written → vm.SameButHeap run.2.2.1) := by
  suffices h : (setVariable name source).run.Ends fails (Vm.serveBy scripts) (Settles s vm name) s
    (vm, []) from h.run
  have hfail (e : DebugError) (made : List Call) (h : Preparing s vm s (vm, made)) :
      Settles s vm name (.error e) s (vm, made) := h.settles e
  refine leads_op_bind (?_ : Leads _ _ _ (Op.ofExcept _).run s (vm, []))
  cases (parse source).mapError DebugError.parse with
  | error e => exact hfail _ _ ⟨rfl, .rfl, List.forall_mem_nil _⟩
  | ok e =>
    refine leads_op_bind (ends_chosenFrame hfail fun t f made ht hf h => ?_)
    refine leads_op_bind (ends_read h hfail fun scope made hscope h => ?_)
    obtain ⟨d, values, hd, hlocals⟩ := hscope
    dsimp only
    split
    · next v x hfind =>
      rw [hlocals] at hfind
      have hnames : s.Names vm name t f.id v := ⟨ht, hf, d, hd, find?_zip hfind⟩
      refine leads_op_bind (ends_evaluates (Scope.evaluates_evaluate scope e) h fun r w h _ => ?_)
      cases r with
      | error e => exact h.settles e
      | ok evaluation =>
        refine leads_op_bind
          (ends_evaluates (Scope.converts_assign _ _ _).evaluates h fun r w h hgives => ?_)
        cases r with
        | error e => exact h.settles e
        | ok value =>
          exact ends_write h hnames fun hplace => Scope.typeName_of_assign hplace (hgives _ rfl)
    · exact hfail _ _ h

/-- The local `s` is the text `old` and `t` the text `new`. -/
def textsVm : Vm :=
  let (old, vm) := Vm.newString {} "old"
  let (new, vm) := vm.newString "new"
  let (t, vm) := vm.addThread "main"
  let (_, vm) := vm.addFrame t ⟨1, 7, 8, 0⟩ none
    [(⟨"s", "Ljava/lang/String;", 0, false⟩, .object old),
      (⟨"t", "Ljava/lang/String;", 1, false⟩, .object new)]
  vm.setSuspended t true

/-- The thread of `textsVm` is selected. -/
def textsSession : Session := { Scene.sample.session with selection := ⟨some 3, 0⟩ }

/-- After a write, texts cannot be read. -/
def textsFail : Failures := fun made c =>
  match c, made.getLast? with
  | .stringValue _, some (.setLocalValue ..) => some .timeout
  | _, _ => none

theorem texts_run :
    let run := (setVariable "s" "t").run.run (textsFail.answer (Vm.serveBy Vm.ownScripts))
      textsSession (textsVm, [])
    run.1 = .error (.ofTarget .timeout) ∧
      .setLocalValue 3 ⟨4, ⟨1, 7, 8, 0⟩⟩ ⟨"s", "Ljava/lang/String;", 0, false⟩
        (.object ⟨2, 0, "java.lang.String"⟩) ∈ run.2.2.2.dropLast ∧
      run.2.2.1.local? 3 4 0 ≠ textsVm.local? 3 4 0 := by
  have hparse : parse "t" = .ok (.name "t") := by
    have hreach : Grammar.Reaches (Grammar.start "t".toList) ⟨.climb (.name "t") 0, [], []⟩ := by
      repeat first
        | exact .refl
        | refine Grammar.Reaches.head rfl ?_
    rw [parse, hreach.run_eq, Grammar.run_finished rfl]
    rfl
  simp only [setVariable, hparse]
  decide +kernel

theorem setVariable_writes_text :
    let run := (setVariable "s" "t").run.run (textsFail.answer (Vm.serveBy Vm.ownScripts))
      textsSession (textsVm, [])
    run.1 = .error (.ofTarget .timeout) ∧ textsSession.Written textsVm "s" run.2.2.1 :=
  ⟨texts_run.1, (setVariable_writes "s" "t" Vm.ownScripts textsFail textsSession textsVm).2.1
    (.inr ⟨_, _, _, _, texts_run.2.1⟩)⟩

/-- An error of the call that reads the text of the new value is returned, though it is written. -/
theorem setVariable_fails_written :
    ¬∀ (name source : String) (scripts : Scripts) (fails : Failures) (s : Session) (vm : Vm),
      let run := (setVariable name source).run.run (fails.answer (Vm.serveBy scripts)) s (vm, [])
      ∀ e, run.1 = .error e → ∀ t f slot, run.2.2.1.local? t f slot = vm.local? t f slot := by
  intro h
  have hsame := h "s" "t" Vm.ownScripts textsFail textsSession textsVm (.ofTarget .timeout)
    texts_run.1 3 4 0
  exact texts_run.2.2 hsame

end Session

end JvmDebug
