import JvmDebug.Proofs.Ledger
import Mathlib.Logic.Relation

/-!
The hierarchy of a class: the class and its superclasses one after the other. It is listed up to the
first class met twice, which loses none.
-/
namespace JvmDebug.Vm

variable {vm : Vm} {c d : TypeId}

/-- The second class is the superclass of the first. -/
def Extends (vm : Vm) (c d : TypeId) : Prop := (vm.classes.get? c).bind VmClass.superclass = some d

theorem reaches_of_mem_ancestors {fuel : Nat} {met : List TypeId} (h : d ∈ vm.ancestors fuel met c) :
    Relation.ReflTransGen vm.Extends c d := by
  induction fuel generalizing met c with
  | zero => cases h
  | succ fuel ih =>
    rw [ancestors] at h
    split at h
    · cases h
    · rcases List.mem_cons.1 h with rfl | h
      · exact .refl
      · cases hup : (vm.classes.get? c).bind VmClass.superclass with
        | none =>
          rw [hup] at h
          cases h
        | some up =>
          rw [hup] at h
          exact .head hup (ih h)

theorem length_le_size {met : List TypeId} (hmet : met.Nodup)
    (hknown : ∀ x ∈ met, vm.classes.contains x) : met.length ≤ vm.classes.size := by
  have hsubset : met ⊆ vm.classes.keys := by
    intro x hx
    obtain ⟨k, hk⟩ := Option.isSome_iff_exists.1 (hknown x hx)
    exact List.mem_map.2 ⟨(x, k), Dict.mem_entries.2 hk, rfl⟩
  have hlength := (List.subperm_of_subset hmet hsubset).length_le
  rwa [Dict.keys, List.length_map] at hlength

theorem mem_ancestors_self {fuel : Nat} {met : List TypeId} (hc : c ∉ met) :
    c ∈ vm.ancestors (fuel + 1) met c := by
  rw [ancestors, if_neg (by simpa using hc)]
  exact List.mem_cons_self

/-- There is fuel for every class that was not met yet, so the superclass of an ancestor is one too
or was met before. -/
theorem ancestors_closed {fuel : Nat} {met : List TypeId} (hmet : met.Nodup)
    (hknown : ∀ x ∈ met, vm.classes.contains x) (hfuel : vm.classes.size < fuel + met.length)
    {x y : TypeId} (hx : x ∈ vm.ancestors fuel met c) (hxy : vm.Extends x y) :
    y ∈ vm.ancestors fuel met c ∨ y ∈ met := by
  induction fuel generalizing met c with
  | zero => cases hx
  | succ fuel ih =>
    rw [ancestors] at hx ⊢
    split at hx
    · cases hx
    · next hc =>
      rw [if_neg hc]
      have hc : c ∉ met := by simpa using hc
      cases hup : (vm.classes.get? c).bind VmClass.superclass with
      | none =>
        rw [hup] at hx
        rw [List.mem_singleton.1 hx, Extends, hup] at hxy
        cases hxy
      | some up =>
        rw [hup] at hx
        have hmet' : (c :: met).Nodup := List.nodup_cons.2 ⟨hc, hmet⟩
        have hknown' : ∀ x ∈ c :: met, vm.classes.contains x := by
          refine List.forall_mem_cons.2 ⟨?_, hknown⟩
          obtain ⟨k, hk, -⟩ := Option.bind_eq_some_iff.1 hup
          simp [Dict.contains, hk]
        have hfuel' : vm.classes.size < fuel + (c :: met).length := by
          rw [List.length_cons]
          omega
        have hhere : y ∈ vm.ancestors fuel (c :: met) up ∨ y ∈ c :: met := by
          rcases List.mem_cons.1 hx with rfl | hx
          · obtain rfl : up = y := Option.some.inj (hup.symm.trans hxy)
            by_cases hy : up ∈ x :: met
            · exact .inr hy
            · have hsize := length_le_size hmet' hknown'
              obtain ⟨fuel, rfl⟩ : ∃ n, fuel = n + 1 := ⟨fuel - 1, by omega⟩
              exact .inl (mem_ancestors_self hy)
          · exact ih hmet' hknown' hfuel' hx
        rcases hhere with hy | hy
        · exact .inl (List.mem_cons_of_mem _ hy)
        · rcases List.mem_cons.1 hy with rfl | hy
          · exact .inl List.mem_cons_self
          · exact .inr hy

/-- The hierarchy of a class is the class and what it reaches from superclass to superclass. -/
theorem mem_hierarchy : d ∈ vm.hierarchy c ↔ Relation.ReflTransGen vm.Extends c d := by
  refine ⟨reaches_of_mem_ancestors, fun h => ?_⟩
  induction h with
  | refl => exact mem_ancestors_self (List.not_mem_nil)
  | tail _ hxy ih =>
    refine (ancestors_closed List.nodup_nil (by simp) ?_ ih hxy).resolve_right List.not_mem_nil
    exact Nat.lt_succ_self _

end JvmDebug.Vm
