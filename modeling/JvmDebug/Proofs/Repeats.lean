import Mathlib.Data.List.Basic

/-!
Lists without elements that repeat the one before them.
-/
namespace JvmDebug

variable {α : Type} [DecidableEq α] {b : α}

theorem eraseReps_cons_cons (a b : α) (ls : List α) :
    (a :: b :: ls).eraseReps =
      if a = b then (a :: ls).eraseReps else a :: (b :: ls).eraseReps := by
  have hloop (a : α) (ls kept : List α) : List.eraseRepsBy.loop (· == ·) a ls kept =
      kept.reverse ++ List.eraseRepsBy.loop (· == ·) a ls [] := by
    induction ls generalizing a kept with
    | nil => simp [List.eraseRepsBy.loop]
    | cons b ls ih =>
      rw [List.eraseRepsBy.loop, List.eraseRepsBy.loop]
      cases a == b with
      | true => exact ih a kept
      | false => rw [ih b (a :: kept), ih b [a], List.reverse_cons, List.append_assoc]; rfl
  show List.eraseRepsBy.loop (· == ·) a (b :: ls) [] = _
  rw [List.eraseRepsBy.loop]
  by_cases h : a = b
  · rw [if_pos h, beq_iff_eq.2 h]
    rfl
  · rw [if_neg h, beq_eq_false_iff_ne.2 h]
    exact hloop b ls [a]

theorem mem_eraseReps {ls : List α} : b ∈ ls.eraseReps ↔ b ∈ ls := by
  cases ls with
  | nil => exact Iff.rfl
  | cons a ls =>
    induction ls generalizing a with
    | nil => exact Iff.rfl
    | cons c ls ih =>
      rw [eraseReps_cons_cons]
      split
      · next heq =>
        rw [ih, ← heq, List.mem_cons, List.mem_cons, List.mem_cons, or_self_left]
      · rw [List.mem_cons, ih, List.mem_cons (b := a)]

theorem eraseReps_ne_nil {ls : List α} (h : ls ≠ []) : ls.eraseReps ≠ [] := by
  obtain ⟨a, ha⟩ := List.exists_mem_of_ne_nil ls h
  exact List.ne_nil_of_mem (mem_eraseReps.2 ha)

theorem length_eraseReps_le (ls : List α) : ls.eraseReps.length ≤ ls.length := by
  cases ls with
  | nil => exact Nat.le_refl _
  | cons a ls =>
    induction ls generalizing a with
    | nil => exact Nat.le_refl _
    | cons b ls ih =>
      rw [eraseReps_cons_cons]
      split
      · exact Nat.le_succ_of_le (ih a)
      · exact Nat.succ_le_succ (ih b)

/-- In an ordered list equal elements stand together, so none is left twice. -/
theorem pairwise_eraseReps {le : α → α → Prop} (hanti : ∀ a b, le a b → le b a → a = b)
    {ls : List α} (h : ls.Pairwise le) : ls.eraseReps.Pairwise fun a b => le a b ∧ a ≠ b := by
  cases ls with
  | nil => exact .nil
  | cons a ls =>
    induction ls generalizing a with
    | nil => exact List.pairwise_singleton _ a
    | cons b ls ih =>
      obtain ⟨ha, hrest⟩ := List.pairwise_cons.1 h
      rw [eraseReps_cons_cons]
      split
      · next heq => exact ih a (heq ▸ hrest)
      · next hne =>
        refine List.pairwise_cons.2 ⟨fun c hc => ?_, ih b hrest⟩
        have hmem : c ∈ b :: ls := mem_eraseReps.1 hc
        refine ⟨ha c hmem, ?_⟩
        rintro rfl
        rcases List.mem_cons.1 hmem with hab | hls
        · exact hne hab
        · exact hne (hanti a b (ha b List.mem_cons_self) ((List.pairwise_cons.1 hrest).1 a hls))

end JvmDebug
