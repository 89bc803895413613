import JvmDebug.Session
import Mathlib.Algebra.Order.Group.Multiset
import Mathlib.Data.Multiset.UnionInter
import Mathlib.Data.Set.Function
import Mathlib.Order.Interval.Set.Basic

/-!
Ids that are drawn from a supply. As long as the texts of a supply do not come round, a new id is
none of those that were drawn before, whoever has them.
-/
namespace JvmDebug

namespace IdSupply

/-- The ids are different, and were drawn from the number `start` on. -/
structure Drawn (start : Nat) (ids : IdSupply) (names : Multiset String) : Prop where
  nodup : names.Nodup
  drawn : ∀ id ∈ names, ∃ n, start ≤ n ∧ n < ids.next ∧ ids.text n = id
  start_le : start ≤ ids.next

variable {start : Nat} {ids : IdSupply} {names names' : Multiset String}

theorem drawn_zero (ids : IdSupply) : ids.Drawn ids.next 0 where
  nodup := Multiset.nodup_zero
  drawn id hid := (Multiset.notMem_zero id hid).elim
  start_le := le_rfl

theorem Drawn.mono (hd : ids.Drawn start names) (hle : names' ≤ names) :
    ids.Drawn start names' where
  nodup := Multiset.nodup_of_le hle hd.nodup
  drawn id hid := hd.drawn id (Multiset.mem_of_le hle hid)
  start_le := hd.start_le

theorem Drawn.notMem {id : String} (hd : ids.Drawn start (names + {id})) : id ∉ names := by
  intro hid
  have := (Multiset.nodup_add.1 hd.nodup).2.2
  exact Multiset.disjoint_left.1 this hid (Multiset.mem_singleton_self id)

theorem fresh_spec (used : String → Bool) (tries : Nat) (s : IdSupply) :
    (s.fresh used tries).2.text = s.text ∧
      ∃ m, s.next ≤ m ∧ m < (s.fresh used tries).2.next ∧ s.text m = (s.fresh used tries).1 := by
  induction tries generalizing s with
  | zero => exact ⟨rfl, s.next, le_rfl, Nat.lt_succ_self _, rfl⟩
  | succ tries ih =>
    simp only [fresh]
    split
    · obtain ⟨htext, m, hle, hlt, hm⟩ := ih s.skip
      exact ⟨htext, m, (Nat.le_succ _).trans hle, hlt, hm⟩
    · exact ⟨rfl, s.next, le_rfl, Nat.lt_succ_self _, rfl⟩

theorem Drawn.fresh (hd : ids.Drawn start names) (used : String → Bool) (tries : Nat)
    (hinj : Set.InjOn ids.text (Set.Ico start (ids.fresh used tries).2.next)) :
    (ids.fresh used tries).2.Drawn start (names + {(ids.fresh used tries).1}) := by
  obtain ⟨htext, m, hle, hlt, hm⟩ := ids.fresh_spec used tries
  have hnew : (ids.fresh used tries).1 ∉ names := by
    intro hmem
    obtain ⟨n, hn, hn', heq⟩ := hd.drawn _ hmem
    have hnm : n = m :=
      hinj ⟨hn, hn'.trans_le (hle.trans hlt.le)⟩ ⟨hd.start_le.trans hle, hlt⟩ (heq.trans hm.symm)
    omega
  refine ⟨?_, fun id hid => ?_, (hd.start_le.trans hle).trans hlt.le⟩
  · rw [add_comm, Multiset.singleton_add]
    exact Multiset.nodup_cons.2 ⟨hnew, hd.nodup⟩
  · rw [htext]
    rcases Multiset.mem_add.1 hid with hid | hid
    · obtain ⟨n, hn, hn', heq⟩ := hd.drawn _ hid
      exact ⟨n, hn, hn'.trans_le (hle.trans hlt.le), heq⟩
    · rw [Multiset.mem_singleton.1 hid]
      exact ⟨m, hd.start_le.trans hle, hlt, hm⟩

/-- The search for an id finds one if there is one to be found. -/
theorem fresh_unused {used : String → Bool} {tries : Nat} {ids : IdSupply}
    (h : ∃ k ≤ tries, used (ids.text (ids.next + k)) = false) :
    used (ids.fresh used tries).1 = false := by
  induction tries generalizing ids with
  | zero =>
    obtain ⟨k, hk, hfree⟩ := h
    obtain rfl : k = 0 := by omega
    exact hfree
  | succ tries ih =>
    simp only [fresh]
    split
    · next hused =>
      apply ih
      obtain ⟨k, hk, hfree⟩ := h
      cases k with
      | zero =>
        rw [Nat.add_zero, hused] at hfree
        cases hfree
      | succ k =>
        refine ⟨k, by omega, ?_⟩
        show used (ids.text (ids.next + 1 + k)) = false
        rw [Nat.add_assoc, Nat.add_comm 1 k]
        exact hfree
    · next hused => exact Bool.eq_false_iff.2 hused

/-- Where the texts do not come round, one of the next ids is none of the given names. -/
theorem exists_unused {ids : IdSupply} {names : List String}
    (hinj : Set.InjOn ids.text (Set.Ico ids.next (ids.next + names.length + 1))) :
    ∃ k ≤ names.length, ids.text (ids.next + k) ∉ names := by
  by_contra hnone
  have hused : ∀ k ≤ names.length, ids.text (ids.next + k) ∈ names := by
    intro k hk
    by_contra hfree
    exact hnone ⟨k, hk, hfree⟩
  have hnodup : ((List.range (names.length + 1)).map fun k => ids.text (ids.next + k)).Nodup := by
    refine List.Nodup.map_on ?_ List.nodup_range
    intro k hk j hj heq
    rw [List.mem_range] at hk hj
    have := hinj ⟨by omega, by omega⟩ ⟨by omega, by omega⟩ heq
    omega
  have hsubset : ((List.range (names.length + 1)).map fun k => ids.text (ids.next + k)) ⊆ names := by
    intro id hid
    obtain ⟨k, hk, rfl⟩ := List.mem_map.1 hid
    rw [List.mem_range] at hk
    exact hused k (by omega)
  have hlength := (List.subperm_of_subset hnodup hsubset).length_le
  rw [List.length_map, List.length_range] at hlength
  omega

end IdSupply

/-! ## The ids of a session -/

namespace Session

/-- The ids of a session do not come round. -/
def IdsDiffer (start : Nat) (s : Session) : Prop := Set.InjOn s.ids.text (Set.Ico start s.ids.next)

variable {start : Nat} {s : Session} {names : Multiset String}

theorem IdsDiffer.of_eq {t : Session} (hdiffer : t.IdsDiffer start) (hids : t.ids = s.ids) :
    s.IdsDiffer start := by
  rw [IdsDiffer, ← hids]
  exact hdiffer

theorem IdsDiffer.of_le (h : s.ids.next ≤ start + 1) : s.IdsDiffer start := by
  intro m hm n hn _
  have hm₁ := hm.1
  have hm₂ := hm.2
  have hn₁ := hn.1
  have hn₂ := hn.2
  omega

theorem drawn_freshId (hd : s.ids.Drawn start names) (hdiffer : s.freshId.2.IdsDiffer start) :
    s.freshId.2.ids.Drawn start (names + {s.freshId.1}) := by
  refine hd.fresh s.usedId _ ?_
  have htext : s.freshId.2.ids.text = s.ids.text := (s.ids.fresh_spec s.usedId _).1
  rw [← htext]
  exact hdiffer

theorem IdsDiffer.of_freshId (hdiffer : s.freshId.2.IdsDiffer start) : s.IdsDiffer start := by
  obtain ⟨htext, m, hle, hlt, -⟩ := s.ids.fresh_spec s.usedId
    (s.breakpoints.entries.size + s.exceptions.entries.size)
  have hinj : Set.InjOn s.ids.text (Set.Ico start s.freshId.2.ids.next) := by
    rw [← htext]
    exact hdiffer
  exact hinj.mono (Set.Ico_subset_Ico_right (hle.trans hlt.le))

end Session

end JvmDebug
