/-!
Routines: computations that talk to their surroundings by requests and share a state with other
routines. A routine is a finite tree; what happens between two requests is one indivisible step, so
several routines are interleaved at their requests and nowhere else.
-/
namespace JvmDebug

/-- A routine makes requests `i : ι` answered in `ρ i`, updates a shared state `σ` and ends with a
result in `α`. The state handed on by `update` is the one before the update. -/
inductive Routine (ι : Type) (ρ : ι → Type) (σ α : Type) : Type
  | done (a : α)
  | request (i : ι) (k : ρ i → Routine ι ρ σ α)
  | update (f : σ → σ) (k : σ → Routine ι ρ σ α)

namespace Routine
variable {ι : Type} {ρ : ι → Type} {σ τ α β : Type}

def bind : Routine ι ρ σ α → (α → Routine ι ρ σ β) → Routine ι ρ σ β
  | done a, g => g a
  | request i k, g => request i fun r => bind (k r) g
  | update f k, g => update f fun s => bind (k s) g

instance : Monad (Routine ι ρ σ) where
  pure := done
  bind := bind

def ask (i : ι) : Routine ι ρ σ (ρ i) := request i done

def get : Routine ι ρ σ σ := update id done

def modify (f : σ → σ) : Routine ι ρ σ Unit := update f fun _ => done ()

def modifyGet (f : σ → α × σ) : Routine ι ρ σ α := update (fun s => (f s).2) fun s => done (f s).1

def zoom (read : τ → σ) (write : σ → τ → τ) : Routine ι ρ σ α → Routine ι ρ τ α
  | done a => done a
  | request i k => request i fun r => zoom read write (k r)
  | update f k => update (fun t => write (f (read t)) t) fun t => zoom read write (k (read t))

def run {ω : Type} (answer : (i : ι) → ω → ρ i × ω) : Routine ι ρ σ α → σ → ω → α × σ × ω
  | done a, s, w => (a, s, w)
  | request i k, s, w => run answer (k (answer i w).1) s (answer i w).2
  | update f k, s, w => run answer (k s) (f s) w

@[simp] theorem pure_eq (a : α) : (pure a : Routine ι ρ σ α) = done a := rfl

@[simp] theorem bind_eq (m : Routine ι ρ σ α) (g : α → Routine ι ρ σ β) : m >>= g = bind m g := rfl

theorem bind_done (m : Routine ι ρ σ α) : bind m done = m := by
  induction m with
  | done a => rfl
  | request i k ih => simp only [bind, ih]
  | update f k ih => simp only [bind, ih]

theorem bind_assoc {γ : Type} (m : Routine ι ρ σ α) (g : α → Routine ι ρ σ β)
    (h : β → Routine ι ρ σ γ) : bind (bind m g) h = bind m fun a => bind (g a) h := by
  induction m with
  | done a => rfl
  | request i k ih => simp only [bind, ih]
  | update f k ih => simp only [bind, ih]

instance : LawfulMonad (Routine ι ρ σ) :=
  LawfulMonad.mk' _ bind_done (fun _ _ => rfl) bind_assoc

theorem run_bind {ω : Type} (answer : (i : ι) → ω → ρ i × ω) (m : Routine ι ρ σ α)
    (g : α → Routine ι ρ σ β) (s : σ) (w : ω) :
    run answer (bind m g) s w =
      run answer (g (run answer m s w).1) (run answer m s w).2.1 (run answer m s w).2.2 := by
  induction m generalizing s w with
  | done a => rfl
  | request i k ih => simp only [bind, run, ih]
  | update f k ih => simp only [bind, run, ih]

end Routine

end JvmDebug
