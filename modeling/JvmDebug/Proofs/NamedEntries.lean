import Mathlib.Data.List.Nodup

/-!
Entries found by their names in a list in which each name occurs once: the fields of an object and
the keys of a table.
-/
namespace JvmDebug

variable {α : Type} {l l' : List (String × α)} {name : String} {a : α}

theorem named_eq_none_iff :
    (l.find? fun p => p.1 == name).map Prod.snd = none ↔ name ∉ l.map Prod.fst := by
  rw [Option.map_eq_none_iff, List.find?_eq_none]
  simp only [beq_iff_eq, List.mem_map, not_exists, not_and]

theorem mem_of_named (h : (l.find? fun p => p.1 == name).map Prod.snd = some a) :
    (name, a) ∈ l := by
  obtain ⟨p, hp, rfl⟩ := Option.map_eq_some_iff.1 h
  have hname : p.1 = name := by simpa using List.find?_some hp
  exact hname ▸ List.mem_of_find?_eq_some hp

theorem named_eq_some_iff (h : (l.map Prod.fst).Nodup) :
    (l.find? fun p => p.1 == name).map Prod.snd = some a ↔ (name, a) ∈ l := by
  refine ⟨mem_of_named, fun hmem => ?_⟩
  cases hfind : (l.find? fun p => p.1 == name).map Prod.snd with
  | none => exact absurd (List.mem_map_of_mem hmem) (named_eq_none_iff.1 hfind)
  | some b =>
    have hpair := List.inj_on_of_nodup_map h hmem (mem_of_named hfind) rfl
    rw [(Prod.mk.inj hpair).2]

/-- In which order the entries stand makes no difference. -/
theorem named_perm (h : (l.map Prod.fst).Nodup) (hperm : l.Perm l') :
    (l.find? fun p => p.1 == name).map Prod.snd = (l'.find? fun p => p.1 == name).map Prod.snd := by
  have h' : (l'.map Prod.fst).Nodup := (hperm.map _).nodup_iff.1 h
  ext a
  rw [named_eq_some_iff h, named_eq_some_iff h', hperm.mem_iff]

end JvmDebug
