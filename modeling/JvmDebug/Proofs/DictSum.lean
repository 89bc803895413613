import JvmDebug.Dict
import Mathlib.Algebra.BigOperators.Group.List.Basic
import Mathlib.Algebra.Order.Group.Multiset

/-!
Sums over finite maps. The sum of a weight over the pairs of a map follows insertion, change and
removal of a key one term at a time; books that are kept in several maps are compared by such sums.
-/
namespace JvmDebug.Dict

variable {κ ν M : Type} [DecidableEq κ]

section Entries

omit [DecidableEq κ] in
theorem eq_of_entries {d d' : Dict κ ν} (h : d.entries = d'.entries) : d = d' := by
  cases d
  cases d'
  cases h
  rfl

theorem mem_entries {d : Dict κ ν} {k : κ} {v : ν} : (k, v) ∈ d.entries ↔ d.get? k = some v := by
  obtain ⟨l, hl⟩ := d
  simp only [get?]
  induction l with
  | nil => simp
  | cons p l ih =>
    rw [List.map_cons, List.nodup_cons] at hl
    rw [List.mem_cons, List.find?_cons]
    by_cases hp : p.1 = k
    · have hno : (k, v) ∉ l := fun h => hl.1 (List.mem_map.2 ⟨_, h, hp.symm⟩)
      simp [hno, hp, Prod.ext_iff, eq_comm]
    · have hne : (k, v) ≠ p := fun h => hp (h ▸ rfl)
      simpa [hp, hne] using ih hl.2

theorem mem_values {d : Dict κ ν} {v : ν} : v ∈ d.values ↔ ∃ k, d.get? k = some v := by
  rw [values, List.mem_map]
  constructor
  · rintro ⟨⟨k, _⟩, hp, rfl⟩
    exact ⟨k, mem_entries.1 hp⟩
  · rintro ⟨k, hk⟩
    exact ⟨(k, v), mem_entries.2 hk, rfl⟩

theorem get?_eq_none {d : Dict κ ν} {k : κ} : d.get? k = none ↔ k ∉ d.keys := by
  rw [keys, List.mem_map]
  constructor
  · rintro h ⟨⟨j, v⟩, hv, rfl⟩
    rw [mem_entries, h] at hv
    cases hv
  · intro h
    cases hg : d.get? k with
    | none => rfl
    | some v => exact absurd ⟨(k, v), mem_entries.2 hg, rfl⟩ h

theorem eq_empty_of_get? {d : Dict κ ν} (h : ∀ k, d.get? k = none) : d = empty := by
  refine eq_of_entries (List.eq_nil_iff_forall_not_mem.2 fun ⟨k, v⟩ hp => ?_)
  have := mem_entries.1 hp
  rw [h k] at this
  cases this

theorem erase_entries_of_none {d : Dict κ ν} {k : κ} (h : d.get? k = none) :
    (d.erase k).entries = d.entries := by
  refine List.filter_eq_self.2 fun p hp => ?_
  have : p.1 ≠ k := by
    rintro rfl
    rw [mem_entries.1 hp] at h
    cases h
  simpa using this

theorem insert_entries_of_none {d : Dict κ ν} {k : κ} (h : d.get? k = none) (v : ν) :
    (d.insert k v).entries = d.entries ++ [(k, v)] := by
  show (d.erase k).entries ++ [(k, v)] = d.entries ++ [(k, v)]
  rw [erase_entries_of_none h]

theorem perm_erase {d : Dict κ ν} {k : κ} {v : ν} (h : d.get? k = some v) :
    d.entries.Perm ((k, v) :: (d.erase k).entries) := by
  obtain ⟨l, hl⟩ := d
  have hm : (k, v) ∈ l := mem_entries.2 h
  clear h
  induction l with
  | nil => cases hm
  | cons p l ih =>
    rw [List.map_cons, List.nodup_cons] at hl
    by_cases hp : p.1 = k
    · have hrest : ∀ q ∈ l, decide (q.1 ≠ k) = true := by
        intro q hq
        refine decide_eq_true fun hqk => hl.1 ?_
        exact List.mem_map.2 ⟨q, hq, hqk.trans hp.symm⟩
      have hv : p = (k, v) := by
        rcases List.mem_cons.1 hm with h | h
        · exact h.symm
        · exact absurd (hrest _ h) (by simp)
      subst hv
      simp only [erase, List.filter_cons, ne_eq, not_true, decide_false, Bool.false_eq_true,
        if_false]
      rw [List.filter_eq_self.2 hrest]
    · have hm' : (k, v) ∈ l := by
        rcases List.mem_cons.1 hm with h | h
        · exact absurd (congrArg Prod.fst h.symm) hp
        · exact h
      have := ih hl.2 hm'
      simp only [erase, List.filter_cons, ne_eq, hp, not_false_eq_true, decide_true, if_true] at *
      exact (List.Perm.cons p this).trans (List.Perm.swap _ _ _)

theorem filter_values_eq_singleton {d : Dict κ ν} {k : κ} {v : ν} (h : d.get? k = some v)
    (p : ν → Bool) (hv : p v) (honly : ∀ j w, d.get? j = some w → p w → j = k) :
    d.values.filter p = [v] := by
  have hperm : (d.entries.filter fun e => p e.2).Perm [(k, v)] := by
    refine ((perm_erase h).filter _).trans ?_
    have hrest : (d.erase k).entries.filter (fun e => p e.2) = [] := by
      refine List.filter_eq_nil_iff.2 fun e he hp => ?_
      obtain ⟨hmem, hne⟩ := List.mem_filter.1 he
      exact of_decide_eq_true hne (honly e.1 e.2 (mem_entries.1 hmem) hp)
    rw [List.filter_cons_of_pos (by exact hv), hrest]
  rw [values, List.filter_map]
  show ((d.entries.filter fun e => p e.2).map _) = _
  rw [List.perm_singleton.1 hperm, List.map_singleton]

theorem modify_of_none {d : Dict κ ν} {k : κ} (h : d.get? k = none) (f : ν → ν) :
    d.modify k f = d := by
  refine eq_of_entries ((List.map_congr_left fun p hp => ?_).trans (List.map_id _))
  have : p.1 ≠ k := by
    rintro rfl
    rw [mem_entries.1 hp] at h
    cases h
  exact if_neg this

theorem erase_modify (d : Dict κ ν) (k : κ) (f : ν → ν) :
    ((d.modify k f).erase k).entries = (d.erase k).entries := by
  obtain ⟨l, hl⟩ := d
  simp only [erase, modify]
  clear hl
  induction l with
  | nil => rfl
  | cons p l ih =>
    by_cases hp : p.1 = k <;> simp_all

theorem entries_foldl_erase (d : Dict κ ν) (ks : List κ) :
    (ks.foldl erase d).entries = d.entries.filter fun p => p.1 ∉ ks := by
  induction ks generalizing d with
  | nil => simp
  | cons k ks ih =>
    rw [List.foldl_cons, ih]
    show (List.filter _ (d.entries.filter _)) = _
    rw [List.filter_filter]
    refine List.filter_congr fun p _ => ?_
    simp only [List.mem_cons, not_or, ne_eq, Bool.decide_and]
    exact Bool.and_comm _ _

theorem entries_foldl_modify (d : Dict κ ν) (ks : List κ) (f : ν → ν) (hf : ∀ v, f (f v) = f v) :
    (ks.foldl (fun d k => d.modify k f) d).entries =
      d.entries.map fun p => if p.1 ∈ ks then (p.1, f p.2) else p := by
  induction ks generalizing d with
  | nil => simp
  | cons k ks ih =>
    rw [List.foldl_cons, ih, modify, List.map_map]
    refine List.map_congr_left fun p _ => ?_
    simp only [Function.comp_apply, List.mem_cons]
    by_cases hk : p.1 = k <;> by_cases hks : p.1 ∈ ks <;> simp_all

end Entries

section Sum
variable [AddCommMonoid M]

def sum (d : Dict κ ν) (weight : κ → ν → M) : M := (d.entries.map fun p => weight p.1 p.2).sum

omit [DecidableEq κ] in
@[simp] theorem sum_empty (weight : κ → ν → M) : (empty : Dict κ ν).sum weight = 0 := rfl

theorem sum_insert {d : Dict κ ν} {k : κ} (h : d.get? k = none) (v : ν) (weight : κ → ν → M) :
    (d.insert k v).sum weight = d.sum weight + weight k v := by
  rw [sum, sum, insert_entries_of_none h, List.map_append, List.sum_append, List.map_singleton,
    List.sum_singleton]

theorem sum_erase {d : Dict κ ν} {k : κ} {v : ν} (h : d.get? k = some v) (weight : κ → ν → M) :
    d.sum weight = weight k v + (d.erase k).sum weight := by
  rw [sum, ((perm_erase h).map _).sum_eq, List.map_cons, List.sum_cons, sum]

theorem sum_erase_of_none {d : Dict κ ν} {k : κ} (h : d.get? k = none) (weight : κ → ν → M) :
    (d.erase k).sum weight = d.sum weight := by
  rw [sum, sum, erase_entries_of_none h]

theorem sum_modify {d : Dict κ ν} {k : κ} {v : ν} (h : d.get? k = some v) (f : ν → ν)
    (weight : κ → ν → M) :
    (d.modify k f).sum weight = weight k (f v) + (d.erase k).sum weight := by
  have hk : (d.modify k f).get? k = some (f v) := by rw [get?_modify, if_pos rfl, h]; rfl
  rw [sum_erase hk, sum, sum, erase_modify]

theorem sum_modify_of_eq (d : Dict κ ν) (k : κ) (f : ν → ν) (weight : κ → ν → M)
    (hf : ∀ v, weight k (f v) = weight k v) : (d.modify k f).sum weight = d.sum weight := by
  rw [sum, sum, modify, List.map_map]
  congr 1
  refine List.map_congr_left fun p _ => ?_
  rw [Function.comp_apply]
  split
  · next h => subst h; exact hf p.2
  · rfl

end Sum

theorem mem_sum {β : Type} {d : Dict κ ν} {weight : κ → ν → Multiset β} {x : β} :
    x ∈ d.sum weight ↔ ∃ k v, d.get? k = some v ∧ x ∈ weight k v := by
  simp only [← mem_entries, sum]
  induction d.entries with
  | nil => simp
  | cons p l ih =>
    rw [List.map_cons, List.sum_cons, Multiset.mem_add, ih]
    constructor
    · rintro (h | ⟨k, v, hv, h⟩)
      · exact ⟨p.1, p.2, List.mem_cons_self, h⟩
      · exact ⟨k, v, List.mem_cons_of_mem _ hv, h⟩
    · rintro ⟨k, v, hv, h⟩
      rcases List.mem_cons.1 hv with rfl | hv
      · exact .inl h
      · exact .inr ⟨k, v, hv, h⟩

end JvmDebug.Dict
