import JvmDebug.Proofs.QuietSteps
import JvmDebug.Proofs.SceneInvariant

/-!
Rules for the parts of a session's routines that a discipline over sessions and targets does not
see.
-/
namespace JvmDebug.Discipline

variable {M α : Type} [AddCommMonoid M]
variable {Given : Session → Vm → Prop} {Inv : M → Session → Vm → Prop}
variable {h rest : M} {s : Session} {vm : Vm}

theorem wp_inspects {Q : α → M → Session → Vm → Prop} {m : Task Session α}
    (hm : Routine.Inspects m) (hh : (ofScene Given Inv).Holds h rest s vm)
    (hQ : ∀ a rest s vm, (ofScene Given Inv).Holds h rest s vm → Q a rest s vm) :
    (ofScene Given Inv).wp Q m rest s vm := by
  refine wp_of_within ?_ ?_ hm hQ hh
  · intro c hc k s vm hinv _
    show Inv k s (vm.answer c).2
    rw [vm.answer_inspects hc]
    exact hinv
  · intro s t hf
    exact hf.elim

theorem wp_quietly {Q : α → M → Session → Vm → Prop}
    (hquiet : ∀ s t vm, s.Quiet t → Given t vm → Given s vm ∧ ∀ k, Inv k s vm → Inv k t vm)
    {m : Task Session α} (hm : Routine.Quietly m) (hh : (ofScene Given Inv).Holds h rest s vm)
    (hQ : ∀ a rest s vm, (ofScene Given Inv).Holds h rest s vm → Q a rest s vm) :
    (ofScene Given Inv).wp Q m rest s vm := by
  refine wp_of_within ?_ ?_ hm hQ hh
  · intro c hc k s vm hinv _
    show Inv k s (vm.answer c).2
    rw [vm.answer_inspects hc]
    exact hinv
  · exact fun s t hst vm => hquiet s t vm hst

section
variable {ω : Type} {D : Discipline Call Call.Reply Session ω M} {w : ω}

theorem wp_reach {Q : Except DebugError Unit → M → Session → ω → Prop}
    (herr : ∀ e, s.unreachable? = some e → Q (.error e) rest s w)
    (hok : s.unreachable? = none → Q (.ok ()) rest s w) : D.wp Q Session.reach.run rest s w := by
  show D.wp Q (ExceptT.run (Op.state >>= _)) rest s w
  refine wp_op_bind (wp_state ?_)
  cases hu : s.unreachable? with
  | none =>
    simp only [hu]
    exact hok hu
  | some e =>
    simp only [hu]
    exact herr e hu

theorem wp_getBreakpoint {Q : Except DebugError Breakpoint → M → Session → ω → Prop}
    {id : String} (hQ : ∀ r, Q r rest s w) :
    D.wp Q (Session.getBreakpoint id).run rest s w := by
  show D.wp Q (ExceptT.run (Op.state >>= _)) rest s w
  refine wp_op_bind (wp_state ?_)
  cases hg : s.breakpoints.get? id with
  | none =>
    simp only [hg]
    exact hQ _
  | some b =>
    simp only [hg]
    exact hQ _

theorem settles_failure {m : Op DebugError Session α}
    (hm : ∀ rest s w, D.Holds h rest s w → D.wp (fun _ => D.Holds 0) m.run rest s w) :
    D.Settles h m.failure? := by
  intro rest s w hh
  refine wp_bind (wp_mono (fun r rest s w hr => ?_) (hm rest s w hh))
  cases r <;> exact hr

end

end JvmDebug.Discipline
