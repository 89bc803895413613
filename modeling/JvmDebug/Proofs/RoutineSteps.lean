import JvmDebug.Connection

/-!
Routines one step at a time. A step is the effect of one request, or everything a routine does from
an answer up to its next request; other routines may step in between. What all requests and all
updates of a routine have in common is `Within`.
-/
namespace JvmDebug

namespace Routine
variable {ι : Type} {ρ : ι → Type} {σ ω α β : Type}

def advance : Routine ι ρ σ α → σ → Routine ι ρ σ α × σ
  | done a, s => (done a, s)
  | request i k, s => (request i k, s)
  | update f k, s => advance (k s) (f s)

/-- One step: the effect of a request without what follows its answer, or the updates up to the
next request. -/
def move (answer : (i : ι) → ω → ρ i × ω) :
    Routine ι ρ σ α → σ → ω → Routine ι ρ σ α × σ × ω
  | done a, s, w => (done a, s, w)
  | request i k, s, w => (k (answer i w).1, s, (answer i w).2)
  | update f k, s, w => ((advance (k s) (f s)).1, (advance (k s) (f s)).2, w)

theorem run_move (answer : (i : ι) → ω → ρ i × ω) (m : Routine ι ρ σ α) (s : σ) (w : ω) :
    run answer (move answer m s w).1 (move answer m s w).2.1 (move answer m s w).2.2 =
      run answer m s w := by
  have hadvance (m : Routine ι ρ σ α) (s : σ) :
      run answer (advance m s).1 (advance m s).2 w = run answer m s w := by
    induction m generalizing s with
    | done a => rfl
    | request i k _ => rfl
    | update f k ih => exact ih s (f s)
  cases m with
  | done a => rfl
  | request i k => rfl
  | update f k => exact hadvance (k s) (f s)

def Within (P : ι → Prop) (U : σ → σ → Prop) : Routine ι ρ σ α → Prop
  | done _ => True
  | request i k => P i ∧ ∀ r, Within P U (k r)
  | update f k => ∀ s, U s (f s) ∧ Within P U (k s)

section Within
variable {P : ι → Prop} {U : σ → σ → Prop}

theorem within_bind {m : Routine ι ρ σ α} {g : α → Routine ι ρ σ β} (hm : m.Within P U)
    (hg : ∀ a, (g a).Within P U) : (bind m g).Within P U := by
  induction m with
  | done a => exact hg a
  | request i k ih => exact ⟨hm.1, fun r => ih r (hm.2 r)⟩
  | update f k ih => exact fun s => ⟨(hm s).1, ih s (hm s).2⟩

theorem Within.mono {P' : ι → Prop} {U' : σ → σ → Prop} {m : Routine ι ρ σ α} (hm : m.Within P U)
    (hP : ∀ i, P i → P' i) (hU : ∀ s t, U s t → U' s t) : m.Within P' U' := by
  induction m with
  | done a => trivial
  | request i k ih => exact ⟨hP i hm.1, fun r => ih r (hm.2 r)⟩
  | update f k ih => exact fun s => ⟨hU _ _ (hm s).1, ih s (hm s).2⟩

theorem within_ask {i : ι} (hi : P i) : (ask i : Routine ι ρ σ (ρ i)).Within P U :=
  ⟨hi, fun _ => trivial⟩

theorem within_modify {f : σ → σ} (hf : ∀ s, U s (f s)) :
    (modify f : Routine ι ρ σ Unit).Within P U :=
  fun s => ⟨hf s, trivial⟩

theorem within_modifyGet {f : σ → α × σ} (hf : ∀ s, U s (f s).2) :
    (modifyGet f : Routine ι ρ σ α).Within P U :=
  fun s => ⟨hf s, trivial⟩

theorem Within.run {m : Routine ι ρ σ α} (hm : m.Within P U) (answer : (i : ι) → ω → ρ i × ω)
    (hrefl : ∀ s, U s s) (htrans : ∀ s t u, U s t → U t u → U s u) (s : σ) (w : ω) :
    U s (m.run answer s w).2.1 := by
  induction m generalizing s w with
  | done a => exact hrefl s
  | request i k ih => exact ih _ (hm.2 _) s _
  | update f k ih => exact htrans _ _ _ (hm s).1 (ih s (hm s).2 (f s) w)

/-- What the answers keep of the surroundings, a run keeps. -/
theorem Within.run_surroundings {m : Routine ι ρ σ α} (hm : m.Within P U)
    {answer : (i : ι) → ω → ρ i × ω} {R : ω → ω → Prop}
    (hanswer : ∀ i w, P i → R w (answer i w).2) (hrefl : ∀ w, R w w)
    (htrans : ∀ w w' w'', R w w' → R w' w'' → R w w'') (s : σ) (w : ω) :
    R w (m.run answer s w).2.2 := by
  induction m generalizing s w with
  | done a => exact hrefl w
  | request i k ih => exact htrans _ _ _ (hanswer i w hm.1) (ih _ (hm.2 _) s _)
  | update f k ih => exact ih s (hm s).2 (f s) w

theorem Within.advance {m : Routine ι ρ σ α} (hm : m.Within P U) (hrefl : ∀ s, U s s)
    (htrans : ∀ s t u, U s t → U t u → U s u) (s : σ) :
    U s (m.advance s).2 ∧ (m.advance s).1.Within P U := by
  induction m generalizing s with
  | done a => exact ⟨hrefl s, hm⟩
  | request i k _ => exact ⟨hrefl s, hm⟩
  | update f k ih =>
    obtain ⟨hstep, hrest⟩ := ih s (hm s).2 (f s)
    exact ⟨htrans _ _ _ (hm s).1 hstep, hrest⟩

theorem Within.move {m : Routine ι ρ σ α} (hm : m.Within P U) (answer : (i : ι) → ω → ρ i × ω)
    (hrefl : ∀ s, U s s) (htrans : ∀ s t u, U s t → U t u → U s u) (s : σ) (w : ω) :
    U s (m.move answer s w).2.1 ∧ (m.move answer s w).1.Within P U := by
  cases m with
  | done a => exact ⟨hrefl s, hm⟩
  | request i k => exact ⟨hrefl s, hm.2 _⟩
  | update f k =>
    obtain ⟨hstep, hrest⟩ := Within.advance (hm s).2 hrefl htrans (f s)
    exact ⟨htrans _ _ _ (hm s).1 hstep, hrest⟩

end Within

end Routine

theorem Task.within_quietlyAll {σ α : Type} {P : Call → Prop} {U : σ → σ → Prop} {make : α → Call}
    (h : ∀ a, P (make a)) (items : List α) :
    (Task.quietlyAll (items.map make) : Task σ Unit).Within P U := by
  induction items with
  | nil => trivial
  | cons a as ih => exact ⟨h a, fun _ => ih⟩

namespace Op
variable {ε σ α β : Type}
open Routine

theorem run_bind (m : Op ε σ α) (g : α → Op ε σ β) :
    (m >>= g).run = Routine.bind m.run fun
      | .ok a => (g a).run
      | .error e => .done (.error e) := rfl

theorem run_lift (m : Task σ α) : (lift m : Op ε σ α).run = Routine.bind m fun a => .done (.ok a) :=
  rfl

theorem run_state : (state : Op ε σ σ).run = .update id fun s => .done (.ok s) := rfl

variable {P : Call → Prop} {U : σ → σ → Prop}

theorem within_bind {m : Op ε σ α} {g : α → Op ε σ β} (hm : m.run.Within P U)
    (hg : ∀ a, (g a).run.Within P U) : (m >>= g).run.Within P U := by
  rw [run_bind]
  refine Routine.within_bind hm fun r => ?_
  cases r with
  | ok a => exact hg a
  | error e => trivial

theorem within_call {c : Call} (hc : P c) :
    (call c : Op DebugError σ c.Answer).run.Within P U :=
  ⟨hc, fun _ => trivial⟩

theorem within_lift {m : Task σ α} (hm : m.Within P U) : (lift m : Op ε σ α).run.Within P U :=
  Routine.within_bind hm fun _ => trivial

end Op

end JvmDebug
