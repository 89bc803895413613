import JvmDebug.Proofs.Crew
import JvmDebug.Proofs.Deeds

/-!
Operations on a connection whose calls may fail. Which calls do is left open, so what is proved of
every way to fail holds whatever the connection does.
-/
namespace JvmDebug

open Routine

/-- Which calls fail and how: the error of a call may depend on all the calls made before it. -/
def Failures : Type := List Call → Call → Option TargetError

namespace Failures
variable {ω : Type}

/-- The connection to a target on which calls fail, with the calls made so far. A call that fails
does not reach the target. -/
def answer (fails : Failures) (serve : (c : Call) → ω → c.Reply × ω) (c : Call)
    (w : ω × List Call) : c.Reply × ω × List Call :=
  match fails w.2 c with
  | some e => (.error e, w.1, w.2 ++ [c])
  | none => ((serve c w.1).1, (serve c w.1).2, w.2 ++ [c])

variable {fails : Failures} {serve : (c : Call) → ω → c.Reply × ω}

theorem answer_made (c : Call) (w : ω × List Call) :
    (fails.answer serve c w).2.2 = w.2 ++ [c] := by
  simp only [answer]
  split <;> rfl

/-- A call fails, or the target answers it. -/
theorem answer_cases {c : Call} {w : ω} {made : List Call} {P : c.Reply × ω × List Call → Prop}
    (herror : ∀ e, fails made c = some e → P (.error e, w, made ++ [c]))
    (hserve : fails made c = none → P ((serve c w).1, (serve c w).2, made ++ [c])) :
    P (fails.answer serve c (w, made)) := by
  cases hfails : fails made c with
  | none =>
    simp only [answer, hfails]
    exact hserve hfails
  | some e =>
    simp only [answer, hfails]
    exact herror e hfails

/-- What the target keeps when it answers is kept when the call may fail, too. -/
theorem answer_keeps {R : ω → ω → Prop} (hrefl : ∀ w, R w w) {c : Call}
    (hserve : ∀ w, R w (serve c w).2) (w : ω × List Call) :
    R w.1 (fails.answer serve c w).2.1 := by
  simp only [answer]
  split
  · exact hrefl _
  · exact hserve _

end Failures

/-! ## The connection of a simulation -/

theorem Failures.run_congr {σ ω α : Type} {fails fails' : Failures}
    {serve : (c : Call) → ω → c.Reply × ω} {made : List Call}
    (h : ∀ more c, made.length ≤ more.length → fails more c = fails' more c) (m : Task σ α) (s : σ)
    (w : ω) :
    m.run (fails.answer serve) s (w, made) = m.run (fails'.answer serve) s (w, made) := by
  induction m generalizing s w made with
  | done a => rfl
  | update f k ih => exact ih s h (f s) w
  | request c k ih =>
    have hsame : fails.answer serve c (w, made) = fails'.answer serve c (w, made) := by
      simp only [answer, h made c le_rfl]
    obtain ⟨reply, w', hreply⟩ : ∃ reply w', fails'.answer serve c (w, made) =
        (reply, w', made ++ [c]) :=
      ⟨_, _, Prod.ext rfl (Prod.ext rfl (answer_made c (w, made)))⟩
    simp only [Routine.run, hsame, hreply]
    refine ih reply (fun more c hle => h more c ?_) s w'
    rw [List.length_append] at hle
    omega

/-- Whatever faults are planned for a simulated connection, a run on it is one on a connection that
fails in some way. -/
theorem Link.exists_failures {σ α : Type} (m : Task σ α) (s : σ) (l : Link) (made : List Call) :
    ∃ (fails : Failures) (made' : List Call),
      m.run (fails.answer Vm.serve) s (l.vm, made) =
        ((m.run Link.answer s l).1, (m.run Link.answer s l).2.1,
          (m.run Link.answer s l).2.2.vm, made') := by
  induction m generalizing s l made with
  | done a => exact ⟨fun _ _ => none, made, rfl⟩
  | update f k ih => exact ih s (f s) l made
  | request c k ih =>
    obtain ⟨fails, made', hrun⟩ := ih (l.answer c).1 s (l.answer c).2 (made ++ [c])
    -- this call goes as the plan says, and every later one as it does in the rest of the run
    let fails' : Failures := fun more d =>
      if more.length = made.length then (l.due c.name).1 else fails more d
    have hfirst : fails'.answer Vm.serve c (l.vm, made) =
        ((l.answer c).1, (l.answer c).2.vm, made ++ [c]) := by
      have hvm := l.due_vm c.name
      simp only [Failures.answer, fails', if_true, Link.answer]
      rcases hdue : l.due c.name with ⟨e, l'⟩
      rw [hdue] at hvm
      change l'.vm = l.vm at hvm
      cases e with
      | none => rw [← hvm]; rfl
      | some e => rw [← hvm]
    refine ⟨fails', made', ?_⟩
    simp only [Routine.run, hfirst]
    rw [← hrun]
    refine Failures.run_congr (fun more d hle => if_neg ?_) _ _ _
    rw [List.length_append, List.length_singleton] at hle
    omega

/-! ## Runs -/

section
variable {σ ω α : Type} {fails : Failures} {serve : (c : Call) → ω → c.Reply × ω}
variable {s : σ} {w : ω} {made : List Call}

/-- On a connection that fails so, the routine ends in `Q`. -/
abbrev Routine.Ends (fails : Failures) (serve : (c : Call) → ω → c.Reply × ω)
    (Q : α → σ → ω × List Call → Prop) (m : Task σ α) (s : σ) (w : ω × List Call) : Prop :=
  m.Leads (fails.answer serve) (fun _ _ => True) Q s w

theorem Routine.Ends.run {Q : α → σ → ω × List Call → Prop} {m : Task σ α} {w : ω × List Call}
    (hm : m.Ends fails serve Q s w) :
    Q (m.run (fails.answer serve) s w).1 (m.run (fails.answer serve) s w).2.1
      (m.run (fails.answer serve) s w).2.2 :=
  Leads.run hm fun _ _ => trivial

theorem ends_call {c : Call} {Q : Except DebugError c.Answer → σ → ω × List Call → Prop}
    (herror : ∀ e, fails made c = some e → Q (.error (.ofTarget e)) s (w, made ++ [c]))
    (hserve : fails made c = none →
      Q ((serve c w).1.mapError .ofTarget) s ((serve c w).2, made ++ [c])) :
    (Op.call c : Op DebugError σ c.Answer).run.Ends fails serve Q s (w, made) := fun _ _ =>
  Failures.answer_cases (P := fun p => Q (p.1.mapError .ofTarget) s p.2) herror hserve

theorem ends_attempt {ε : Type} {c : Call} {Q : Except ε c.Reply → σ → ω × List Call → Prop}
    (herror : ∀ e, fails made c = some e → Q (.ok (.error e)) s (w, made ++ [c]))
    (hserve : fails made c = none → Q (.ok (serve c w).1) s ((serve c w).2, made ++ [c])) :
    (Op.attempt c : Op ε σ c.Reply).run.Ends fails serve Q s (w, made) := fun _ _ =>
  Failures.answer_cases (P := fun p => Q (.ok p.1) s p.2) herror hserve

theorem ends_quietly {c : Call} {Q : Unit → σ → ω × List Call → Prop}
    (herror : ∀ e, fails made c = some e → Q () s (w, made ++ [c]))
    (hserve : fails made c = none → Q () s ((serve c w).2, made ++ [c])) :
    (Task.quietly c : Task σ Unit).Ends fails serve Q s (w, made) := fun _ _ =>
  Failures.answer_cases (P := fun p => Q () s p.2) herror hserve

/-- Looking at the target changes neither it nor the session, whether it fails or not. -/
theorem ends_inspects {m : Task σ α} (hm : Inspects m) {vm : Vm}
    {Q : α → σ → Vm × List Call → Prop}
    (hQ : ∀ a more, made.length ≤ more.length → Q a s (vm, more)) :
    m.Ends fails Vm.serve Q s (vm, made) := by
  have hsame : m.Ends fails Vm.serve (fun _ t w => t = s ∧ w.1 = vm ∧ made.length ≤ w.2.length) s
      (vm, made) := by
    refine leads_of_within ?_ (fun _ _ hf => hf.elim) hm ⟨rfl, rfl, le_rfl⟩
    rintro c hc _ w ⟨rfl, rfl, hle⟩ -
    refine ⟨rfl, ?_, ?_⟩
    · refine (Failures.answer_keeps (R := fun w w' => w' = w) (fun _ => rfl) (fun w => ?_) w)
      exact w.answer_inspects hc
    · rw [Failures.answer_made, List.length_append]
      omega
  refine hsame.mono ?_
  rintro a _ ⟨_, more⟩ ⟨rfl, rfl, hle⟩
  exact hQ a more hle

theorem ends_chosenThread {s : Session} {w : ω × List Call} {t : Option ThreadId}
    {Q : Except DebugError ThreadId → Session → ω × List Call → Prop}
    (hnone : (t <|> s.selection.thread) = none → Q (.error .noThreadSelected) s w)
    (hsome : ∀ u, (t <|> s.selection.thread) = some u → Q (.ok u) s w) :
    (Session.chosenThread t).run.Ends fails serve Q s w := by
  refine leads_op_bind (leads_state ?_)
  dsimp only
  cases ht : (t <|> s.selection.thread) with
  | none => exact hnone ht
  | some u => exact hsome u ht

end

end JvmDebug
