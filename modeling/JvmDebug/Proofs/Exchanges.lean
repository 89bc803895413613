import JvmDebug.Proofs.RoutineSteps

/-!
Routines on a connection that may answer anything. What holds of every way in which the requests
can be answered holds of every run, whatever answers them.
-/
namespace JvmDebug.Routine
variable {ι : Type} {ρ : ι → Type} {σ ω α β : Type}

/-- The requests that a run makes, with the answers. -/
def exchanges (answer : (i : ι) → ω → ρ i × ω) : Routine ι ρ σ α → σ → ω → List ((i : ι) × ρ i)
  | done _, _, _ => []
  | request i k, s, w =>
    ⟨i, (answer i w).1⟩ :: exchanges answer (k (answer i w).1) s (answer i w).2
  | update f k, s, w => exchanges answer (k s) (f s) w

/-- Whatever it is answered, the routine ends with a result, a state and exchanges with `Q`. -/
def Always (Q : α → σ → List ((i : ι) × ρ i) → Prop) : Routine ι ρ σ α → σ → Prop
  | done a, s => Q a s []
  | request i k, s => ∀ r, Always (fun a t log => Q a t (⟨i, r⟩ :: log)) (k r) s
  | update f k, s => Always Q (k s) (f s)

variable {Q Q' : α → σ → List ((i : ι) × ρ i) → Prop} {m : Routine ι ρ σ α} {s : σ}

theorem Always.run (h : Always Q m s) (answer : (i : ι) → ω → ρ i × ω) (w : ω) :
    Q (m.run answer s w).1 (m.run answer s w).2.1 (m.exchanges answer s w) := by
  induction m generalizing s w Q with
  | done a => exact h
  | request i k ih => exact ih (answer i w).1 (h (answer i w).1) (answer i w).2
  | update f k ih => exact ih s h w

theorem Always.mono (h : Always Q m s) (hQ : ∀ a t log, Q a t log → Q' a t log) :
    Always Q' m s := by
  induction m generalizing s Q Q' with
  | done a => exact hQ a s [] h
  | request i k ih => exact fun r => ih r (h r) fun a t log => hQ a t (⟨i, r⟩ :: log)
  | update f k ih => exact ih s h hQ

theorem always_bind {R : β → σ → List ((i : ι) × ρ i) → Prop} {g : α → Routine ι ρ σ β}
    (h : Always (fun a t log => Always (fun b u more => R b u (log ++ more)) (g a) t) m s) :
    Always R (bind m g) s := by
  induction m generalizing s R with
  | done a => exact h
  | request i k ih => exact fun r => ih r (h r)
  | update f k ih => exact ih s h

theorem always_of_within {P : ι → Prop} {U : σ → σ → Prop} (hm : m.Within P U)
    (hrefl : ∀ s, U s s) (htrans : ∀ s t u, U s t → U t u → U s u) (s : σ) :
    Always (fun _ t log => U s t ∧ ∀ x ∈ log, P x.1) m s := by
  induction m generalizing s with
  | done a => exact ⟨hrefl s, by simp⟩
  | request i k ih =>
    intro r
    refine (ih r (hm.2 r) s).mono fun a t log h => ⟨h.1, ?_⟩
    intro x hx
    rcases List.mem_cons.1 hx with rfl | hx
    · exact hm.1
    · exact h.2 x hx
  | update f k ih =>
    refine (ih s (hm s).2 (f s)).mono fun a t log h => ⟨?_, h.2⟩
    exact htrans s (f s) t (hm s).1 h.1

theorem exchanges_bind (answer : (i : ι) → ω → ρ i × ω) (m : Routine ι ρ σ α)
    (g : α → Routine ι ρ σ β) (s : σ) (w : ω) :
    exchanges answer (bind m g) s w = exchanges answer m s w ++
      exchanges answer (g (run answer m s w).1) (run answer m s w).2.1 (run answer m s w).2.2 := by
  induction m generalizing s w with
  | done a => rfl
  | request i k ih => exact congrArg (List.cons _) (ih _ s _)
  | update f k ih => exact ih s (f s) w

end JvmDebug.Routine

namespace JvmDebug.Op
variable {σ ω α β : Type} {serve : (c : Call) → ω → c.Reply × ω} {w w' w'' : ω}

/-- The operation succeeds with this result. It has these exchanges with the target, leaves the
target so and its own state as it is. -/
def Gives (serve : (c : Call) → ω → c.Reply × ω) (m : Op DebugError σ α) (w : ω) (a : α)
    (log : List ((c : Call) × c.Reply)) (w' : ω) : Prop :=
  ∀ x, m.run.run serve x w = (.ok a, x, w') ∧ m.run.exchanges serve x w = log

namespace Gives

theorem pure (a : α) : (Pure.pure a : Op DebugError σ α).Gives serve w a [] w :=
  fun _ => ⟨rfl, rfl⟩

theorem call {c : Call} {a : c.Answer} (h : serve c w = (.ok a, w')) :
    (Op.call c : Op DebugError σ c.Answer).Gives serve w a [⟨c, .ok a⟩] w' := by
  intro x
  constructor
  · show ((serve c w).1.mapError DebugError.ofTarget, x, (serve c w).2) = _
    rw [h]
    rfl
  · show [(⟨c, (serve c w).1⟩ : (c : Call) × c.Reply)] = _
    rw [h]

theorem bind {m : Op DebugError σ α} {g : α → Op DebugError σ β} {a : α} {b : β}
    {log log' : List ((c : Call) × c.Reply)} (hm : m.Gives serve w a log w')
    (hg : (g a).Gives serve w' b log' w'') : (m >>= g).Gives serve w b (log ++ log') w'' := by
  intro x
  obtain ⟨hrun, hlog⟩ := hm x
  obtain ⟨hrun', hlog'⟩ := hg x
  constructor
  · rw [run_bind, Routine.run_bind, hrun]
    exact hrun'
  · rw [run_bind, Routine.exchanges_bind, hrun, hlog]
    exact congrArg (log ++ ·) hlog'

end Gives

end JvmDebug.Op
