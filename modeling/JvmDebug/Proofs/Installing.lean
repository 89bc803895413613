import JvmDebug.Proofs.Inspection

/-!
The installing of breakpoints that waited for a class looks at the target and makes, switches and
deletes requests; in the session it changes the table of breakpoints and nothing else.
-/
namespace JvmDebug

def Call.installs : Call → Bool
  | createBreakpoint _ | setRequestEnabled .. | deleteRequest _ => true
  | c => c.inspects

theorem Call.installs_of_inspects {c : Call} (h : c.inspects) : c.installs := by
  cases c <;> simp_all [installs, inspects]

/-- The sessions differ in the table of breakpoints at most. -/
def Session.Rebooked (s t : Session) : Prop := t = { s with breakpoints := t.breakpoints }

namespace Session
variable {s t u : Session}

theorem Rebooked.rfl : s.Rebooked s := Eq.refl s

theorem Rebooked.trans (hst : s.Rebooked t) (htu : t.Rebooked u) : s.Rebooked u := by
  have hst : t = { s with breakpoints := t.breakpoints } := hst
  have htu : u = { t with breakpoints := u.breakpoints } := htu
  rw [hst] at htu
  exact htu

end Session

open Routine

abbrev Routine.Installs {α : Type} (m : Task Session α) : Prop :=
  m.Within (fun c => c.installs) Session.Rebooked

namespace Session

theorem installs_of_inspects {α : Type} {m : Task Session α} (hm : Inspects m) : Installs m :=
  hm.mono (fun _ hc => Call.installs_of_inspects hc) fun _ _ hf => hf.elim

section
variable {P : Call → Prop} {U : Session → Session → Prop}

variable (hcall : ∀ c : Call, c.installs → P c)
include hcall

theorem within_install (made : List RequestId) (locations : List Location) :
    (install made locations).run.Within P U := by
  induction locations generalizing made with
  | nil => trivial
  | cons l ls ih =>
    refine Op.within_bind ⟨hcall _ rfl, fun _ => trivial⟩ fun reply => ?_
    cases reply with
    | ok r => exact ih _
    | error e =>
      refine Op.within_bind (Op.within_lift ?_) fun _ => trivial
      exact Task.within_quietlyAll (fun r => hcall (.deleteRequest r) rfl) made

theorem within_followUp (requests : List RequestId) (on : Option Bool) :
    (followUp requests on).Within P U := by
  rcases on with _ | _ | _
  · exact Task.within_quietlyAll (fun r => hcall (.deleteRequest r) rfl) requests
  · exact Task.within_quietlyAll (fun r => hcall (.setRequestEnabled r false) rfl) requests
  · trivial

variable (hbook : ∀ id requests s, U s (bookRequests id requests s).2)
include hbook

theorem within_materialize (c : TypeInfo) (b : Breakpoint) : (materialize c b).Within P U := by
  have hresolve : (resolveLocations [c] b.kind : Op DebugError Session _).run.Within P U :=
    (inspects_resolveLocations _ _).mono (fun _ hc => hcall _ (Call.installs_of_inspects hc))
      fun _ _ hf => hf.elim
  refine within_bind (Op.within_bind hresolve fun locations => within_install hcall [] locations)
    fun r => ?_
  exact within_bind (within_modifyGet (hbook b.id _)) fun on => within_followUp hcall _ on

theorem within_materializeAll (c : TypeInfo) (waiting : List Breakpoint) :
    (materializeAll c waiting).Within P U := by
  induction waiting with
  | nil => trivial
  | cons b bs ih => exact within_bind (within_materialize hcall hbook c b) fun _ => ih

variable (hsame : ∀ s, U s s)
include hsame

theorem within_installWaiting (c : TypeInfo) (taken : Option (RequestId × List Breakpoint)) :
    (installWaiting c taken).Within P U := by
  cases taken with
  | none => trivial
  | some p =>
    refine within_bind (fun s => ⟨hsame s, trivial⟩) fun s => ?_
    split
    · trivial
    · refine within_bind ⟨hcall _ rfl, fun _ => trivial⟩ fun _ => ?_
      exact within_materializeAll hcall hbook c p.2

theorem within_classLoaded (htake : ∀ name s, U s (takePending name s).2) (c : TypeInfo) :
    (classLoaded c).Within P U :=
  within_bind (within_modifyGet (htake c.name)) fun taken =>
    within_installWaiting hcall hbook hsame c taken

end

theorem installs_installWaiting (c : TypeInfo) (taken : Option (RequestId × List Breakpoint)) :
    Installs (installWaiting c taken) :=
  within_installWaiting (fun _ hc => hc) (fun _ _ _ => Eq.refl _) (fun _ => .rfl) c taken

theorem installs_classLoaded (c : TypeInfo) : Installs (classLoaded c) :=
  within_classLoaded (fun _ hc => hc) (fun _ _ _ => Eq.refl _) (fun _ => .rfl)
    (fun _ _ => Eq.refl _) c

end Session

end JvmDebug
