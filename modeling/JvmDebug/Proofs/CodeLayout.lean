import JvmDebug.Proofs.Execution
import JvmDebug.Proofs.MemberResolution
import JvmDebug.Vm.Boot
import Mathlib.Data.List.Nodup

/-!
The code of a machine that is furnished piece by piece: every line has a location of its own and
every method an entry of its own. So no location is found twice in one class, and none twice for one
line. Main results: `Furnished.nodup_locationsOf`, `Furnished.nodup_lines`.
-/
namespace JvmDebug

namespace VmClass

/-- What a class holds under the number `c`, with ids below `next`, and with room for `left` more
lines. -/
structure LaidOut (c : TypeId) (next : UInt64) (left : Nat) (k : VmClass) : Prop where
  own : k.info.id = c
  room : k.nextIndex.toNat + 4 * left < UInt64.size
  lines : ∀ p ∈ k.lines, p.2.classId = c ∧ p.2.index < k.nextIndex
  distinct : (k.lines.map fun p => p.2.index).Nodup
  numbered : ∀ m ∈ k.methods, m.id < next
  methods : (k.methods.map Method.id).Nodup

variable {c : TypeId} {next next' : UInt64} {left left' : Nat} {k : VmClass}

theorem LaidOut.mono (h : k.LaidOut c next left) (hnext : next ≤ next') (hleft : left' ≤ left) :
    k.LaidOut c next' left' :=
  { h with
    room := by
      have := h.room
      omega
    numbered := fun m hm => UInt64.lt_of_lt_of_le (h.numbered m hm) hnext }

theorem LaidOut.addMethod (h : k.LaidOut c next left) {m : Method} (hm : m.id = next)
    (hnext : next < next') : { k with methods := k.methods ++ [m] }.LaidOut c next' left :=
  { h with
    numbered := by
      refine List.forall_mem_append.2 ⟨fun o ho => UInt64.lt_trans (h.numbered o ho) hnext, ?_⟩
      exact List.forall_mem_singleton.2 (hm ▸ hnext)
    methods := by
      rw [List.map_append, List.map_singleton, List.nodup_append']
      refine ⟨h.methods, List.nodup_singleton _, List.disjoint_singleton.2 fun hmem => ?_⟩
      obtain ⟨o, ho, heq⟩ := List.mem_map.1 hmem
      have hlt := h.numbered o ho
      rw [heq, hm] at hlt
      exact UInt64.lt_irrefl _ hlt }

theorem LaidOut.addLine (h : k.LaidOut c next (left + 1)) (n : UInt32) {l : Location}
    (hclass : l.classId = c) (hindex : l.index = k.nextIndex) :
    { k with nextIndex := k.nextIndex + 4, lines := k.lines ++ [(n, l)] }.LaidOut c next left := by
  have hroom := h.room
  have hadd : (k.nextIndex + 4).toNat = k.nextIndex.toNat + 4 := by
    rw [UInt64.toNat_add]
    exact Nat.mod_eq_of_lt (by show _ + 4 < UInt64.size; omega)
  have hlt : k.nextIndex < k.nextIndex + 4 := by
    rw [UInt64.lt_iff_toNat_lt, hadd]
    omega
  refine { h with room := ?_, lines := ?_, distinct := ?_ }
  · show (k.nextIndex + 4).toNat + 4 * left < UInt64.size
    rw [hadd]
    omega
  · refine List.forall_mem_append.2 ⟨fun p hp => ?_, ?_⟩
    · exact ⟨(h.lines p hp).1, UInt64.lt_trans (h.lines p hp).2 hlt⟩
    · exact List.forall_mem_singleton.2 ⟨hclass, hindex ▸ hlt⟩
  · rw [List.map_append, List.map_singleton, List.nodup_append']
    refine ⟨h.distinct, List.nodup_singleton _, List.disjoint_singleton.2 fun hmem => ?_⟩
    obtain ⟨p, hp, heq⟩ := List.mem_map.1 hmem
    have hbelow := (h.lines p hp).2
    rw [heq, hindex] at hbelow
    exact UInt64.lt_irrefl _ hbelow

end VmClass

namespace Vm

/-- What becomes part of a machine: a piece of a class, its statics and lines, or something that is
no class and gets an id too; a class may be loaded later. -/
inductive Furnishing
  | piece (p : Piece)
  | static (c : TypeId) (f : Field) (v : Value)
  | line (m : Method) (n : UInt32)
  | loaded (c : TypeId)
  | other
  deriving DecidableEq, Repr

def furnish (vm : Vm) : Furnishing → Vm
  | .piece p => vm.load p
  | .static c f v => vm.setStatic c f v
  | .line m n => (vm.addLine m n).2
  | .loaded c => vm.modifyClass c fun k => { k with loaded := true }
  | .other => vm.allocate.2

def furnished (furnishings : List Furnishing) : Vm := furnishings.foldl furnish boot

/-- Lines have locations and methods have entries of their own, and `left` more furnishings find
numbers. -/
structure LaidOut (left : Nat) (vm : Vm) : Prop where
  ids : vm.nextId.toNat + 4 * left < UInt64.size
  classes : ∀ c k, vm.classes.get? c = some k → k.LaidOut c vm.nextId left
  apart : ∀ c c' k k', vm.classes.get? c = some k → vm.classes.get? c' = some k' → c ≠ c' →
    ∀ m ∈ k.methods, ∀ m' ∈ k'.methods, m.id ≠ m'.id
  entries : ∀ m l, vm.entries.get? m = some l → l.methodId = m

namespace LaidOut
variable {vm : Vm} {c : TypeId} {left : Nat}

theorem mono {left' : Nat} (h : vm.LaidOut left) (hleft : left' ≤ left) : vm.LaidOut left' where
  ids := by
    have := h.ids
    omega
  classes := fun c k hk => (h.classes c k hk).mono (UInt64.le_refl _) hleft
  apart := h.apart
  entries := h.entries

theorem spend (h : vm.LaidOut (left + 1)) : vm.LaidOut left := h.mono (Nat.le_succ left)

theorem lt_nextId (h : vm.LaidOut (left + 1)) :
    vm.nextId < vm.nextId + 1 ∧ (vm.nextId + 1).toNat = vm.nextId.toNat + 1 := by
  have hids := h.ids
  have hadd : (vm.nextId + 1).toNat = vm.nextId.toNat + 1 := by
    rw [UInt64.toNat_add]
    exact Nat.mod_eq_of_lt (by show _ + 1 < UInt64.size; omega)
  refine ⟨?_, hadd⟩
  rw [UInt64.lt_iff_toNat_lt, hadd]
  exact Nat.lt_succ_self _

theorem allocate (h : vm.LaidOut (left + 1)) : vm.allocate.2.LaidOut left where
  ids := by
    have hids := h.ids
    show (vm.nextId + 1).toNat + 4 * left < UInt64.size
    rw [h.lt_nextId.2]
    omega
  classes := fun c k hk =>
    (h.classes c k hk).mono (UInt64.le_of_lt h.lt_nextId.1) (Nat.le_succ left)
  apart := h.apart
  entries := h.entries

/-- A change of one class. What methods it gets have ids that were not given out before. -/
theorem change (h : vm.LaidOut left) {vm' : Vm} {left' : Nat} {f : VmClass → VmClass}
    (hids : vm'.nextId.toNat + 4 * left' < UInt64.size) (hnext : vm.nextId ≤ vm'.nextId)
    (hleft : left' ≤ left) (hclasses : vm'.classes = vm.classes.modify c f)
    (hlaid : ∀ k, vm.classes.get? c = some k → (f k).LaidOut c vm'.nextId left')
    (hmethods : ∀ k, ∀ m ∈ (f k).methods, m ∈ k.methods ∨ vm.nextId ≤ m.id)
    (hentries : ∀ m l, vm'.entries.get? m = some l → l.methodId = m) : vm'.LaidOut left' := by
  have hget {c' : TypeId} {k : VmClass} (hk : vm'.classes.get? c' = some k) :
      ∃ k₀, vm.classes.get? c' = some k₀ ∧ (c' ≠ c ∧ k = k₀ ∨ c' = c ∧ k = f k₀) := by
    rw [hclasses, Dict.get?_modify] at hk
    split at hk
    · next heq =>
      obtain ⟨k₀, hk₀, rfl⟩ := Option.map_eq_some_iff.1 hk
      exact ⟨k₀, heq ▸ hk₀, .inr ⟨heq, rfl⟩⟩
    · next hne => exact ⟨k, hk, .inl ⟨hne, rfl⟩⟩
  have hold {c' : TypeId} {k k₀ : VmClass} (hk : c' ≠ c ∧ k = k₀ ∨ c' = c ∧ k = f k₀) (m : Method)
      (hm : m ∈ k.methods) : m ∈ k₀.methods ∨ c' = c ∧ vm.nextId ≤ m.id := by
    obtain ⟨-, rfl⟩ | ⟨rfl, rfl⟩ := hk
    · exact .inl hm
    · exact (hmethods k₀ m hm).imp_right fun hm => ⟨rfl, hm⟩
  refine ⟨hids, fun c' k hk => ?_, fun c₁ c₂ k₁ k₂ hk₁ hk₂ hne m₁ hm₁ m₂ hm₂ => ?_, hentries⟩
  · obtain ⟨k₀, hk₀, ⟨-, rfl⟩ | ⟨rfl, rfl⟩⟩ := hget hk
    · exact (h.classes c' k hk₀).mono hnext hleft
    · exact hlaid k₀ hk₀
  · obtain ⟨k₁', hk₁', hsame₁⟩ := hget hk₁
    obtain ⟨k₂', hk₂', hsame₂⟩ := hget hk₂
    rcases hold hsame₁ m₁ hm₁ with hm₁ | ⟨hc₁, hm₁⟩ <;>
      rcases hold hsame₂ m₂ hm₂ with hm₂ | ⟨hc₂, hm₂⟩
    · exact h.apart c₁ c₂ k₁' k₂' hk₁' hk₂' hne m₁ hm₁ m₂ hm₂
    · have hbelow := (h.classes c₁ k₁' hk₁').numbered m₁ hm₁
      exact UInt64.ne_of_lt (UInt64.lt_of_lt_of_le hbelow hm₂)
    · have hbelow := (h.classes c₂ k₂' hk₂').numbered m₂ hm₂
      exact (UInt64.ne_of_lt (UInt64.lt_of_lt_of_le hbelow hm₁)).symm
    · exact absurd (hc₁.trans hc₂.symm) hne

/-- A change of a class that leaves its methods and its code. -/
theorem modifyClass (h : vm.LaidOut left) {f : VmClass → VmClass}
    (hsame : ∀ k, (f k).info = k.info ∧ (f k).methods = k.methods ∧ (f k).lines = k.lines ∧
      (f k).nextIndex = k.nextIndex) : (vm.modifyClass c f).LaidOut left := by
  refine h.change h.ids (UInt64.le_refl _) (Nat.le_refl _) rfl (fun k hk => ?_) (fun k m hm => ?_)
    h.entries
  · obtain ⟨hinfo, hmethods, hlines, hindex⟩ := hsame k
    obtain ⟨hown, hroom, hplaces, hdistinct, hnumbered, hids⟩ := h.classes c k hk
    exact ⟨hinfo ▸ hown, hindex ▸ hroom, hindex ▸ hlines ▸ hplaces, hlines ▸ hdistinct,
      hmethods ▸ hnumbered, hmethods ▸ hids⟩
  · exact .inl ((hsame k).2.1 ▸ hm)

theorem addClass (h : vm.LaidOut (left + 1)) (name : String) (kind : TypeKind)
    (superclass : Option TypeId) (loaded : Bool) :
    (vm.addClass name kind superclass loaded).2.LaidOut left := by
  have hnext := h.allocate
  refine ⟨hnext.ids, fun c k hk => ?_, fun c c' k k' hk hk' hne m hm m' hm' => ?_, hnext.entries⟩
  · simp only [Vm.addClass, Dict.get?_insert] at hk
    split at hk
    · next heq =>
      cases hk
      have hids := hnext.ids
      refine ⟨heq.symm, ?_, List.forall_mem_nil _, List.nodup_nil, List.forall_mem_nil _,
        List.nodup_nil⟩
      show 0 + 4 * left < UInt64.size
      omega
    · exact hnext.classes c k hk
  · simp only [Vm.addClass, Dict.get?_insert] at hk hk'
    split at hk
    · cases hk
      exact absurd hm List.not_mem_nil
    · split at hk'
      · cases hk'
        exact absurd hm' List.not_mem_nil
      · exact hnext.apart c c' k k' hk hk' hne m hm m' hm'

theorem addMethod (h : vm.LaidOut (left + 1)) (c : TypeId) (name signature : String)
    (isStatic : Bool) (body : Option Body) :
    (vm.addMethod c name signature isStatic body).2.LaidOut left := by
  have hlt := h.lt_nextId.1
  let m : Method := ⟨vm.nextId, c, name, signature, memberModifiers isStatic⟩
  have hmade {vm' : Vm} (hnext : vm'.nextId = vm.nextId + 1)
      (hclasses : vm'.classes = vm.classes.modify c fun k => { k with methods := k.methods ++ [m] })
      (hentries : vm'.entries = vm.entries) : vm'.LaidOut left := by
    refine h.change (hnext ▸ h.allocate.ids) (hnext ▸ UInt64.le_of_lt hlt) (Nat.le_succ left)
      hclasses (fun k hk => ?_) (fun k o ho => ?_) (hentries ▸ h.entries)
    · have hk := (h.classes c k hk).mono (UInt64.le_refl _) (Nat.le_succ left)
      exact hk.addMethod rfl (hnext ▸ hlt)
    · rcases List.mem_append.1 ho with ho | ho
      · exact .inl ho
      · exact .inr (List.mem_singleton.1 ho ▸ UInt64.le_refl _)
  cases body with
  | none => exact hmade rfl rfl rfl
  | some body => exact hmade rfl rfl rfl

theorem addLine (h : vm.LaidOut (left + 1)) (m : Method) (n : UInt32) :
    (vm.addLine m n).2.LaidOut left := by
  unfold Vm.addLine
  split
  · exact h.spend
  · next k hk =>
    let l : Location := ⟨k.info.kind.tag, m.declaringType, m.id, k.nextIndex⟩
    let more (k : VmClass) : VmClass :=
      { k with nextIndex := k.nextIndex + 4, lines := k.lines ++ [(n, l)] }
    refine h.change (f := more) h.spend.ids (UInt64.le_refl _) (Nat.le_succ left) rfl
      (fun k' hk' => ?_) (fun _ _ ho => .inl ho) fun o l' hl => ?_
    · obtain rfl := Option.some.inj (hk.symm.trans hk')
      exact (h.classes _ k hk).addLine n rfl rfl
    · dsimp only at hl
      split at hl
      · exact h.entries o l' hl
      · rw [Dict.get?_insert] at hl
        split at hl
        · next heq =>
          cases hl
          exact heq.symm
        · exact h.entries o l' hl

theorem furnish (h : vm.LaidOut (left + 1)) (f : Furnishing) : (vm.furnish f).LaidOut left := by
  cases f with
  | piece p =>
    cases p with
    | type name kind superclass loaded => exact h.addClass name kind superclass loaded
    | interface c i => exact h.spend.modifyClass fun _ => ⟨rfl, rfl, rfl, rfl⟩
    | method c name signature isStatic body => exact h.addMethod c name signature isStatic body
    | field c name signature isStatic =>
      exact h.allocate.modifyClass fun _ => ⟨rfl, rfl, rfl, rfl⟩
  | static c f v => exact h.spend.modifyClass fun _ => ⟨rfl, rfl, rfl, rfl⟩
  | line m n => exact h.addLine m n
  | loaded c => exact h.spend.modifyClass fun _ => ⟨rfl, rfl, rfl, rfl⟩
  | other => exact h.allocate

theorem boot : Vm.boot.LaidOut (2 ^ 61) := by
  have hclasses : ∀ p ∈ Vm.boot.classes.entries, p.2.info.id = p.1 ∧ p.2.nextIndex = 0 ∧
      p.2.lines = [] ∧ (∀ m ∈ p.2.methods, m.id < Vm.boot.nextId) ∧
      (p.2.methods.map Method.id).Nodup := by decide +kernel
  have hapart : ∀ p ∈ Vm.boot.classes.entries, ∀ q ∈ Vm.boot.classes.entries, p.1 ≠ q.1 →
      ∀ m ∈ p.2.methods, ∀ m' ∈ q.2.methods, m.id ≠ m'.id := by decide +kernel
  have hentries : Vm.boot.entries.entries = [] := by decide +kernel
  refine ⟨by decide +kernel, fun c k hk => ?_, fun c c' k k' hk hk' hne => ?_, fun m l hl => ?_⟩
  · obtain ⟨hown, hindex, hlines, hnumbered, hmethods⟩ := hclasses (c, k) (Dict.mem_entries.2 hk)
    dsimp only at hlines
    refine ⟨hown, ?_, fun p hp => ?_, ?_, hnumbered, hmethods⟩
    · rw [show k.nextIndex = 0 from hindex]
      decide
    · rw [hlines] at hp
      exact nomatch hp
    · rw [hlines]
      exact List.nodup_nil
  · exact hapart (c, k) (Dict.mem_entries.2 hk) (c', k') (Dict.mem_entries.2 hk') hne
  · have hmem := Dict.mem_entries.2 hl
    rw [hentries] at hmem
    exact nomatch hmem

theorem furnished (furnishings : List Furnishing) (hfew : furnishings.length ≤ 2 ^ 61) :
    (Vm.furnished furnishings).LaidOut 0 := by
  have hall (n : Nat) (vm : Vm) (h : vm.LaidOut (furnishings.length + n)) :
      (furnishings.foldl Vm.furnish vm).LaidOut n := by
    clear hfew
    induction furnishings generalizing vm with
    | nil => rwa [List.length_nil, Nat.zero_add] at h
    | cons f fs ih =>
      rw [List.length_cons, Nat.add_right_comm] at h
      exact ih _ (h.furnish f)
  exact hall 0 _ (boot.mono hfew)

end LaidOut

/-! ## Methods of a class -/

theorem nodup_ancestors (vm : Vm) (fuel : Nat) (met : List TypeId) (c : TypeId) :
    (vm.ancestors fuel met c).Nodup ∧ ∀ x ∈ vm.ancestors fuel met c, x ∉ met := by
  induction fuel generalizing met c with
  | zero => exact ⟨List.nodup_nil, List.forall_mem_nil _⟩
  | succ fuel ih =>
    rw [ancestors]
    split
    · exact ⟨List.nodup_nil, List.forall_mem_nil _⟩
    · next hc =>
      have hc : c ∉ met := by simpa using hc
      cases (vm.classes.get? c).bind VmClass.superclass with
      | none => exact ⟨List.nodup_singleton c, List.forall_mem_singleton.2 hc⟩
      | some up =>
        obtain ⟨hnodup, hnew⟩ := ih (c :: met) up
        refine ⟨List.nodup_cons.2 ⟨fun hmem => hnew c hmem List.mem_cons_self, hnodup⟩, ?_⟩
        refine List.forall_mem_cons.2 ⟨hc, fun x hx hmet => ?_⟩
        exact hnew x hx (List.mem_cons_of_mem c hmet)

theorem foldl_kept {α : Type} (keep : List α → α → Bool) (found ms : List α) :
    ∃ kept, kept.Sublist ms ∧
      ms.foldl (fun found m => if keep found m then found ++ [m] else found) found =
        found ++ kept := by
  induction ms generalizing found with
  | nil => exact ⟨[], .slnil, (List.append_nil _).symm⟩
  | cons m ms ih =>
    rw [List.foldl_cons]
    split
    · obtain ⟨kept, hkept, heq⟩ := ih (found ++ [m])
      exact ⟨m :: kept, hkept.cons_cons m, by rw [heq, List.append_assoc, List.singleton_append]⟩
    · obtain ⟨kept, hkept, heq⟩ := ih found
      exact ⟨kept, hkept.cons m, heq⟩

/-- No method is taken that no class of the hierarchy has, and none twice. -/
theorem methodsOf_sublist (vm : Vm) (c : TypeId) :
    (vm.methodsOf c).Sublist ((vm.knownHierarchy c).flatMap VmClass.methods) := by
  have hall (ks : List VmClass) (found : List Method) : ∃ kept,
      kept.Sublist (ks.flatMap VmClass.methods) ∧
        ks.foldl (fun found k => k.methods.foldl
          (fun found m =>
            if !overridden found m && (k.info.id == c || !m.isConstructor) then found ++ [m]
            else found) found) found = found ++ kept := by
    induction ks generalizing found with
    | nil => exact ⟨[], .slnil, (List.append_nil _).symm⟩
    | cons k ks ih =>
      obtain ⟨first, hfirst, heq⟩ := foldl_kept
        (fun found m => !overridden found m && (k.info.id == c || !m.isConstructor)) found k.methods
      obtain ⟨rest, hrest, heq'⟩ := ih (found ++ first)
      refine ⟨first ++ rest, ?_, ?_⟩
      · rw [List.flatMap_cons]
        exact hfirst.append hrest
      · rw [List.foldl_cons, heq, heq', List.append_assoc]
  obtain ⟨kept, hkept, heq⟩ := hall (vm.knownHierarchy c) []
  rw [methodsOf, heq]
  exact hkept

namespace LaidOut
variable {vm : Vm} {left : Nat}

theorem nodup_methodsOf (h : vm.LaidOut left) (c : TypeId) :
    ((vm.methodsOf c).map Method.id).Nodup := by
  refine ((methodsOf_sublist vm c).map Method.id).nodup ?_
  rw [List.map_flatMap, List.nodup_flatMap]
  constructor
  · intro k hk
    obtain ⟨x, -, hx⟩ := List.mem_filterMap.1 hk
    exact (h.classes x k hx).methods
  · refine List.Pairwise.filterMap _ (fun x y hne k hk k' hk' => ?_) (nodup_ancestors vm _ [] c).1
    rintro id hid hid'
    obtain ⟨m, hm, rfl⟩ := List.mem_map.1 hid
    obtain ⟨m', hm', heq⟩ := List.mem_map.1 hid'
    exact h.apart x y k k' hk hk' hne m hm m' hm' heq.symm

/-! ## Locations -/

/-- The code of a class has each of its locations once. -/
theorem nodup_locationsOf (h : vm.LaidOut left) (c : TypeId) (kind : BreakpointKind) :
    (vm.locationsOf c kind).Nodup := by
  cases kind with
  | line n =>
    cases hk : vm.classes.get? c with
    | none => simp [locationsOf, hk]
    | some k =>
      have hplaces : (k.lines.map Prod.snd).Nodup := by
        refine List.Nodup.of_map Location.index ?_
        rw [List.map_map]
        exact (h.classes c k hk).distinct
      simp only [locationsOf, hk, Option.map_some, Option.getD_some]
      exact hplaces.sublist (List.filter_sublist.map _)
  | method name =>
    have hids : (((vm.methodsOf c).filter (·.name == name)).map Method.id).Nodup :=
      (h.nodup_methodsOf c).sublist (List.filter_sublist.map _)
    have hentry (m m' : MethodId) (l : Location) (hl : l ∈ vm.entries.get? m)
        (hl' : l ∈ vm.entries.get? m') : m = m' :=
      (h.entries m l hl).symm.trans (h.entries m' l hl')
    have hentries := hids.filterMap hentry
    rwa [List.filterMap_map] at hentries

theorem classId_eq (h : vm.LaidOut left) {c : TypeId} {n : UInt32} {l : Location}
    (hl : l ∈ vm.locationsOf c (.line n)) : l.classId = c := by
  cases hk : vm.classes.get? c with
  | none => simp [locationsOf, hk] at hl
  | some k =>
    simp only [locationsOf, hk, Option.map_some, Option.getD_some] at hl
    obtain ⟨p, hp, rfl⟩ := List.mem_map.1 hl
    exact ((h.classes c k hk).lines p (List.mem_filter.1 hp).1).1

/-- No line has a location in two classes. -/
theorem nodup_lines (h : vm.LaidOut left) (name : String) (n : UInt32) :
    ((vm.visible name).flatMap fun c => vm.locationsOf c.id (.line n)).Nodup := by
  rw [List.nodup_flatMap]
  refine ⟨fun c _ => h.nodup_locationsOf c.id (.line n), ?_⟩
  rw [visible, List.pairwise_map]
  refine List.Pairwise.filter _ ?_
  rw [Dict.values, List.pairwise_map]
  have hkeys := List.pairwise_map.1 vm.classes.nodup
  refine hkeys.imp_of_mem fun {p q} hp hq hne l hl hl' => hne ?_
  have hown : p.2.info.id = p.1 := (h.classes p.1 p.2 (Dict.mem_entries.1 hp)).own
  have hown' : q.2.info.id = q.1 := (h.classes q.1 q.2 (Dict.mem_entries.1 hq)).own
  rw [← hown, ← hown', ← h.classId_eq hl, ← h.classId_eq hl']

end LaidOut

/-- The classes and the code of the machine were furnished piece by piece; its threads, objects and
requests are any. -/
def Furnished (vm : Vm) : Prop :=
  ∃ furnishings : List Furnishing, furnishings.length ≤ 2 ^ 61 ∧
    vm.classes = (furnished furnishings).classes ∧ vm.entries = (furnished furnishings).entries

section
variable {vm vm' : Vm} (hclasses : vm.classes = vm'.classes) (hentries : vm.entries = vm'.entries)
include hclasses hentries

theorem locationsOf_congr : vm.locationsOf = vm'.locationsOf := by
  have hcode : vm'.SameCode vm := ⟨by rw [hclasses], fun c => by rw [hclasses], hentries⟩
  funext c kind
  exact hcode.locationsOf c kind

end

theorem Furnished.nodup_locationsOf {vm : Vm} (h : vm.Furnished) (c : TypeId)
    (kind : BreakpointKind) : (vm.locationsOf c kind).Nodup := by
  obtain ⟨furnishings, hfew, hclasses, hentries⟩ := h
  rw [locationsOf_congr hclasses hentries]
  exact (LaidOut.furnished furnishings hfew).nodup_locationsOf c kind

theorem Furnished.nodup_lines {vm : Vm} (h : vm.Furnished) (name : String) (n : UInt32) :
    ((vm.visible name).flatMap fun c => vm.locationsOf c.id (.line n)).Nodup := by
  obtain ⟨furnishings, hfew, hclasses, hentries⟩ := h
  rw [locationsOf_congr hclasses hentries, visible, hclasses]
  exact (LaidOut.furnished furnishings hfew).nodup_lines name n

end Vm
end JvmDebug
