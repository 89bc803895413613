/-!
Finite maps as lists of pairs in which each key occurs once, the latest insertion last.
-/
namespace JvmDebug

structure Dict (κ ν : Type) where
  entries : List (κ × ν) := []
  nodup : (entries.map Prod.fst).Nodup := by exact List.nodup_nil
  deriving Repr, DecidableEq

namespace Dict
variable {κ ν : Type} [DecidableEq κ]

def empty : Dict κ ν := {}

instance : Inhabited (Dict κ ν) := ⟨empty⟩

def get? (d : Dict κ ν) (k : κ) : Option ν := (d.entries.find? fun p => p.1 = k).map Prod.snd

def contains (d : Dict κ ν) (k : κ) : Bool := (d.get? k).isSome

def erase (d : Dict κ ν) (k : κ) : Dict κ ν :=
  ⟨d.entries.filter fun p => p.1 ≠ k, d.nodup.sublist (List.filter_sublist.map _)⟩

/-- The pair becomes the last; an earlier pair of the key is dropped. -/
def insert (d : Dict κ ν) (k : κ) (v : ν) : Dict κ ν :=
  ⟨(d.erase k).entries ++ [(k, v)], by
    rw [List.map_append, List.nodup_append]
    refine ⟨(d.erase k).nodup, List.pairwise_singleton _ _, fun a ha b hb => ?_⟩
    obtain ⟨p, hp, rfl⟩ := List.mem_map.1 ha
    rw [List.mem_singleton.1 hb]
    simpa using (List.mem_filter.1 hp).2⟩

def modify (d : Dict κ ν) (k : κ) (f : ν → ν) : Dict κ ν :=
  ⟨d.entries.map fun p => if p.1 = k then (p.1, f p.2) else p, by
    have h : Prod.fst ∘ (fun p : κ × ν => if p.1 = k then (p.1, f p.2) else p) = Prod.fst := by
      funext p
      simp only [Function.comp_apply]
      split <;> rfl
    rw [List.map_map, h]
    exact d.nodup⟩

omit [DecidableEq κ] in
def mapValues (d : Dict κ ν) (f : ν → ν) : Dict κ ν :=
  ⟨d.entries.map fun p => (p.1, f p.2), by
    rw [List.map_map]
    exact d.nodup⟩

omit [DecidableEq κ] in
def keys (d : Dict κ ν) : List κ := d.entries.map Prod.fst

omit [DecidableEq κ] in
def values (d : Dict κ ν) : List ν := d.entries.map Prod.snd

omit [DecidableEq κ] in
def size (d : Dict κ ν) : Nat := d.entries.length

theorem get?_empty (k : κ) : (empty : Dict κ ν).get? k = none := rfl

theorem get?_erase (d : Dict κ ν) (k j : κ) :
    (d.erase k).get? j = if j = k then none else d.get? j := by
  simp only [get?, erase, List.find?_filter]
  by_cases h : j = k
  · subst h
    simp
  · have : (fun p : κ × ν => decide (decide (p.1 ≠ k) = true ∧ decide (p.1 = j) = true))
        = fun p => decide (p.1 = j) := by
      funext p
      by_cases hp : p.1 = j <;> simp [hp, h]
    simp only [h, if_false]
    rw [← this]

theorem get?_insert (d : Dict κ ν) (k j : κ) (v : ν) :
    (d.insert k v).get? j = if j = k then some v else d.get? j := by
  have := get?_erase d k j
  simp only [get?, insert, List.find?_append] at *
  by_cases h : j = k
  · subst h
    cases hf : (d.erase j).entries.find? fun p => decide (p.1 = j) <;> simp_all
  · have hk : ¬ k = j := fun e => h e.symm
    simp_all

theorem get?_modify (d : Dict κ ν) (k j : κ) (f : ν → ν) :
    (d.modify k f).get? j = if j = k then (d.get? k).map f else d.get? j := by
  obtain ⟨l⟩ := d
  simp only [get?, modify]
  induction l with
  | nil => simp
  | cons p l ih =>
    simp only [List.map_cons, List.find?_cons]
    by_cases hp : p.1 = k <;> by_cases hj : j = k <;> by_cases hpj : p.1 = j <;> simp_all

end Dict

end JvmDebug
