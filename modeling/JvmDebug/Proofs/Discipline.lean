import JvmDebug.Proofs.RoutineSteps
import Mathlib.Algebra.BigOperators.Group.List.Basic
import Mathlib.Tactic.Abel

/-!
Invariants of interleaved routines. What a routine has taken out of the shared books between two
of its steps is a resource that it holds, and the invariant speaks about the books together with
everything held by anybody. A routine keeps to the discipline if each of its steps turns what it
holds into what it will hold, whatever the others hold.
-/
namespace JvmDebug

/-- How requests are answered, what may be taken for granted at every moment, and the invariant of
the resources held, the shared state and the world. -/
structure Discipline (ι : Type) (ρ : ι → Type) (σ ω M : Type) where
  answer : (i : ι) → ω → ρ i × ω
  Given : σ → ω → Prop
  Inv : M → σ → ω → Prop

namespace Discipline
variable {ι : Type} {ρ : ι → Type} {σ ω M α β : Type} [AddCommMonoid M]
variable (D : Discipline ι ρ σ ω M)

/-- The invariant with `h` held here and the rest held elsewhere. -/
def Holds (h rest : M) (s : σ) (w : ω) : Prop := D.Given s w → D.Inv (h + rest) s w

/-- What must be the case for a routine to keep the discipline from here on and to end in `Q`. The
others may step before the effect of each request and after it. -/
def wp (Q : α → M → σ → ω → Prop) : Routine ι ρ σ α → M → σ → ω → Prop
  | .done a, rest, s, w => Q a rest s w
  | .update f k, rest, s, w => wp Q (k s) rest (f s) w
  | .request i k, rest, s, w => D.Given s w → ∃ h, D.Inv (h + rest) s w ∧
    ∀ rest s w, D.Inv (h + rest) s w → D.Given s w → D.Given s (D.answer i w).2 →
      ∃ h', D.Inv (h' + rest) s (D.answer i w).2 ∧
        ∀ rest s w', D.Holds h' rest s w' → wp Q (k (D.answer i w).1) rest s w'

variable {D}
variable {h : M} {rest : M} {s : σ} {w : ω}

theorem wp_request {Q : α → M → σ → ω → Prop} {i : ι} {k : ρ i → Routine ι ρ σ α}
    (hstart : D.Holds h rest s w)
    (hcall : ∀ rest s w, D.Inv (h + rest) s w → D.Given s w → D.Given s (D.answer i w).2 →
      ∃ h', D.Inv (h' + rest) s (D.answer i w).2 ∧
        ∀ rest s w', D.Holds h' rest s w' → D.wp Q (k (D.answer i w).1) rest s w') :
    D.wp Q (.request i k) rest s w :=
  fun hg => ⟨h, hstart hg, hcall⟩

theorem wp_mono {Q R : α → M → σ → ω → Prop} (hQR : ∀ a rest s w, Q a rest s w → R a rest s w)
    {m : Routine ι ρ σ α} (hm : D.wp Q m rest s w) : D.wp R m rest s w := by
  induction m generalizing rest s w with
  | done a => exact hQR _ _ _ _ hm
  | update f k ih => exact ih _ hm
  | request i k ih =>
    intro hg
    obtain ⟨h, hinv, hnext⟩ := hm hg
    refine ⟨h, hinv, fun rest s w hi hg hg' => ?_⟩
    obtain ⟨h', hinv', hk⟩ := hnext rest s w hi hg hg'
    exact ⟨h', hinv', fun rest s w' hh => ih _ (hk rest s w' hh)⟩

theorem wp_bind {Q : β → M → σ → ω → Prop} {m : Routine ι ρ σ α} {g : α → Routine ι ρ σ β}
    (hm : D.wp (fun a => D.wp Q (g a)) m rest s w) : D.wp Q (m.bind g) rest s w := by
  induction m generalizing rest s w with
  | done a => exact hm
  | update f k ih => exact ih _ hm
  | request i k ih =>
    intro hg
    obtain ⟨h, hinv, hnext⟩ := hm hg
    refine ⟨h, hinv, fun rest s w hi hg hg' => ?_⟩
    obtain ⟨h', hinv', hk⟩ := hnext rest s w hi hg hg'
    exact ⟨h', hinv', fun rest s w' hh => ih _ (hk rest s w' hh)⟩

theorem wp_of_within {P : ι → Prop} {U : σ → σ → Prop} {Q : α → M → σ → ω → Prop}
    (hcall : ∀ i, P i → ∀ h s w, D.Inv h s w → D.Given s (D.answer i w).2 →
      D.Inv h s (D.answer i w).2)
    (hupdate : ∀ s t, U s t → ∀ w, D.Given t w → D.Given s w ∧ ∀ h, D.Inv h s w → D.Inv h t w)
    {m : Routine ι ρ σ α} (hm : m.Within P U)
    (hQ : ∀ a rest s w, D.Holds h rest s w → Q a rest s w) (hstart : D.Holds h rest s w) :
    D.wp Q m rest s w := by
  induction m generalizing rest s w with
  | done a => exact hQ _ _ _ _ hstart
  | update f k ih =>
    refine ih s (hm s).2 fun hg => ?_
    obtain ⟨hgiven, hkeep⟩ := hupdate _ _ (hm s).1 w hg
    exact hkeep _ (hstart hgiven)
  | request i k ih =>
    refine wp_request hstart fun rest s w hi hg hg' => ?_
    exact ⟨h, hcall i hm.1 _ _ _ hi hg', fun rest s w' hh => ih _ (hm.2 _) hh⟩

/-! ## Steps -/

variable (D) in
/-- A routine that holds `h` between two of its steps ends with nothing held. -/
def Settles (h : M) (m : Routine ι ρ σ α) : Prop :=
  ∀ rest s w, D.Holds h rest s w → D.wp (fun _ => D.Holds 0) m rest s w

theorem Settles.done {a : α} (hm : D.Settles h (.done a)) (hinv : D.Inv (h + rest) s w)
    (hg : D.Given s w) : D.Inv rest s w := by
  simpa only [zero_add] using hm rest s w (fun _ => hinv) hg

theorem settles_advance {m : Routine ι ρ σ α} (hm : D.wp (fun _ => D.Holds 0) m rest s w)
    (hg : D.Given (m.advance s).2 w) :
    ∃ h, D.Inv (h + rest) (m.advance s).2 w ∧ D.Settles h (m.advance s).1 := by
  induction m generalizing s with
  | done a => exact ⟨0, hm hg, fun rest s w hh => hh⟩
  | request i k _ =>
    obtain ⟨h, hinv, hnext⟩ := hm hg
    exact ⟨h, hinv, fun rest s w hh => wp_request hh hnext⟩
  | update f k ih => exact ih s hm hg

theorem Settles.move {m : Routine ι ρ σ α} (hm : D.Settles h m) (hinv : D.Inv (h + rest) s w)
    (hg : D.Given s w) (hg' : D.Given (m.move D.answer s w).2.1 (m.move D.answer s w).2.2) :
    ∃ h', D.Inv (h' + rest) (m.move D.answer s w).2.1 (m.move D.answer s w).2.2 ∧
      D.Settles h' (m.move D.answer s w).1 := by
  cases m with
  | done a => exact ⟨h, hinv, hm⟩
  | request i k =>
    obtain ⟨h₁, hinv₁, hnext⟩ := hm rest s w (fun _ => hinv) hg
    obtain ⟨h₂, hinv₂, hk⟩ := hnext rest s w hinv₁ hg hg'
    exact ⟨h₂, hinv₂, hk⟩
  | update f k => exact settles_advance (hm rest s w fun _ => hinv) hg'

theorem Settles.discard {m : Routine ι ρ σ α} (hm : D.Settles h m) (b : β) :
    D.Settles h (m.bind fun _ => .done b) := fun rest s w hh => wp_bind (hm rest s w hh)

/-! ## Several routines -/

variable (D) in
/-- Every one of the routines holds a part of what the invariant speaks of, besides the rest. -/
def Shared (tasks : List (Routine ι ρ σ α)) (rest : M) (s : σ) (w : ω) : Prop :=
  ∃ held : List (M × Routine ι ρ σ α), held.map Prod.snd = tasks ∧
    (∀ p ∈ held, D.Settles p.1 p.2) ∧ D.Inv ((held.map Prod.fst).sum + rest) s w

section Shared
variable {tasks : List (Routine ι ρ σ α)} {t : σ} {v : ω}

theorem shared_nil (hinv : D.Inv rest s w) : D.Shared ([] : List (Routine ι ρ σ α)) rest s w :=
  ⟨[], rfl, by simp, by simpa using hinv⟩

theorem Shared.mono (hs : D.Shared tasks rest s w)
    (hinv : ∀ k, D.Inv (k + rest) s w → D.Inv (k + rest) t v) : D.Shared tasks rest t v := by
  obtain ⟨held, htasks, hheld, hi⟩ := hs
  exact ⟨held, htasks, hheld, hinv _ hi⟩

/-- A routine joins in and takes up what the invariant then speaks of in addition. -/
theorem Shared.join {m : Routine ι ρ σ α} (hs : D.Shared tasks rest s w)
    (hm : ∀ k, D.Inv (k + rest) s w → ∃ h, D.Inv (h + (k + rest)) t v ∧ D.Settles h m) :
    D.Shared (tasks ++ [m]) rest t v := by
  obtain ⟨held, htasks, hheld, hi⟩ := hs
  obtain ⟨h, hi', hset⟩ := hm _ hi
  refine ⟨held ++ [(h, m)], by simp [htasks], fun p hp => ?_, ?_⟩
  · rcases List.mem_append.1 hp with hp | hp
    · exact hheld p hp
    · rw [List.mem_singleton.1 hp]
      exact hset
  · have : ((held ++ [(h, m)]).map Prod.fst).sum + rest = h + ((held.map Prod.fst).sum + rest) := by
      simp only [List.map_append, List.sum_append, List.map_cons, List.map_nil, List.sum_cons,
        List.sum_nil]
      abel
    rwa [this]

theorem Shared.move {m : Routine ι ρ σ α} {n : Nat} (hs : D.Shared tasks rest s w)
    (hn : tasks[n]? = some m) (hg : D.Given s w)
    (hg' : D.Given (m.move D.answer s w).2.1 (m.move D.answer s w).2.2) :
    D.Shared (tasks.set n (m.move D.answer s w).1) rest (m.move D.answer s w).2.1
      (m.move D.answer s w).2.2 := by
  obtain ⟨held, htasks, hheld, hinv⟩ := hs
  obtain ⟨hlt, hget⟩ := List.getElem?_eq_some_iff.1 hn
  have hsplit : tasks = tasks.take n ++ m :: tasks.drop (n + 1) := by
    rw [← hget, List.getElem_cons_drop, List.take_append_drop]
  obtain ⟨before, others, rfl, hbefore, hothers⟩ := List.map_eq_append_iff.1 (htasks.trans hsplit)
  obtain ⟨p, after, rfl, rfl, hafter⟩ := List.map_eq_cons_iff.1 hothers
  have hsum (h : M) (m : Routine ι ρ σ α) : ((before ++ (h, m) :: after).map Prod.fst).sum + rest =
      h + ((before.map Prod.fst).sum + (after.map Prod.fst).sum + rest) := by
    simp only [List.map_append, List.map_cons, List.sum_append, List.sum_cons]
    abel
  rw [hsum p.1 p.2] at hinv
  obtain ⟨h, hinv', hset⟩ := (hheld p (by simp)).move hinv hg hg'
  refine ⟨before ++ (h, (p.2.move D.answer s w).1) :: after, ?_, fun q hq => ?_, ?_⟩
  · rw [List.map_append, List.map_cons, hbefore, hafter, List.set_eq_take_append_cons_drop,
      if_pos hlt]
  · rcases List.mem_append.1 hq with hq | hq
    · exact hheld q (by simp [hq])
    · rcases List.mem_cons.1 hq with rfl | hq
      · exact hset
      · exact hheld q (by simp [hq])
  · rw [hsum]
    exact hinv'

theorem Shared.done (hs : D.Shared tasks rest s w) (hdone : ∀ m ∈ tasks, ∃ a, m = .done a)
    (hg : D.Given s w) : D.Inv rest s w := by
  obtain ⟨held, rfl, hheld, hinv⟩ := hs
  induction held with
  | nil => simpa using hinv
  | cons p held ih =>
    obtain ⟨a, ha⟩ := hdone p.2 (by simp)
    have hp := hheld p (by simp)
    rw [ha] at hp
    rw [List.map_cons, List.sum_cons, add_assoc] at hinv
    exact ih (fun m hm => hdone m (List.mem_cons_of_mem _ hm))
      (fun q hq => hheld q (List.mem_cons_of_mem _ hq)) (hp.done hinv hg)

end Shared

end Discipline

/-! ## Operations that may fail -/

namespace Discipline
variable {σ ω M ε α β : Type} [AddCommMonoid M] {D : Discipline Call Call.Reply σ ω M}
variable {h rest : M} {s : σ} {w : ω}

theorem wp_op_bind {m : Op ε σ α} {g : α → Op ε σ β} {Q : Except ε β → M → σ → ω → Prop}
    (hm : D.wp (fun | .ok a => D.wp Q (g a).run | .error e => Q (.error e)) m.run rest s w) :
    D.wp Q (m >>= g).run rest s w := by
  rw [Op.run_bind]
  refine wp_bind (wp_mono (fun r rest s w hr => ?_) hm)
  cases r <;> exact hr

theorem wp_lift {m : Task σ α} {Q : Except ε α → M → σ → ω → Prop}
    (hm : D.wp (fun a => Q (.ok a)) m rest s w) : D.wp Q (Op.lift m).run rest s w :=
  wp_bind hm

theorem wp_state {Q : Except ε σ → M → σ → ω → Prop} (h : Q (.ok s) rest s w) :
    D.wp Q Op.state.run rest s w := h

theorem wp_update {f : σ → σ} {Q : Except ε Unit → M → σ → ω → Prop}
    (h : Q (.ok ()) rest (f s) w) : D.wp Q (Op.update f).run rest s w := h

theorem wp_updateGet {f : σ → α × σ} {Q : Except ε α → M → σ → ω → Prop}
    (h : Q (.ok (f s).1) rest (f s).2 w) : D.wp Q (Op.updateGet f).run rest s w := h

end Discipline

end JvmDebug
