import JvmDebug.Proofs.RequestOwnership

/-!
One thing done after another: an operation, or the handling of a report, runs to its end before
anything else begins or happens. Such a run can be followed request by request, as nobody steps in
between.
-/
namespace JvmDebug

/-! ## Runs without interruption -/

namespace Routine
variable {ι : Type} {ρ : ι → Type} {σ ω α β : Type}
variable {answer : (i : ι) → ω → ρ i × ω} {Given : σ → ω → Prop}

/-- The moments of a run: before and after each request, and at the end. -/
def moments (answer : (i : ι) → ω → ρ i × ω) : Routine ι ρ σ α → σ → ω → List (σ × ω)
  | done _, s, w => [(s, w)]
  | request i k, s, w =>
    (s, w) :: (s, (answer i w).2) :: moments answer (k (answer i w).1) s (answer i w).2
  | update f k, s, w => moments answer (k s) (f s) w

/-- A run of the routine ends in `Q`, if what is given holds before and after each request. -/
def Leads (answer : (i : ι) → ω → ρ i × ω) (Given : σ → ω → Prop) (Q : α → σ → ω → Prop) :
    Routine ι ρ σ α → σ → ω → Prop
  | done a, s, w => Q a s w
  | request i k, s, w => Given s w → Given s (answer i w).2 →
    Leads answer Given Q (k (answer i w).1) s (answer i w).2
  | update f k, s, w => Leads answer Given Q (k s) (f s) w

theorem end_mem_moments (m : Routine ι ρ σ α) (s : σ) (w : ω) :
    (m.run answer s w).2 ∈ m.moments answer s w := by
  induction m generalizing s w with
  | done a => exact List.mem_singleton_self _
  | request i k ih => exact List.mem_cons_of_mem _ (List.mem_cons_of_mem _ (ih _ _ _))
  | update f k ih => exact ih _ _ _

theorem Leads.run {Q : α → σ → ω → Prop} {m : Routine ι ρ σ α} {s : σ} {w : ω}
    (hm : m.Leads answer Given Q s w) (hgiven : ∀ p ∈ m.moments answer s w, Given p.1 p.2) :
    Q (m.run answer s w).1 (m.run answer s w).2.1 (m.run answer s w).2.2 := by
  induction m generalizing s w with
  | done a => exact hm
  | request i k ih =>
    simp only [moments, List.forall_mem_cons] at hgiven
    exact ih _ (hm hgiven.1 hgiven.2.1) hgiven.2.2
  | update f k ih => exact ih _ hm hgiven

theorem leads_of_run {Q : α → σ → ω → Prop} {m : Routine ι ρ σ α} {s : σ} {w : ω}
    (h : Q (m.run answer s w).1 (m.run answer s w).2.1 (m.run answer s w).2.2) :
    m.Leads answer Given Q s w := by
  induction m generalizing s w with
  | done a => exact h
  | request i k ih => exact fun _ _ => ih _ h
  | update f k ih => exact ih _ h

theorem Leads.mono {Q R : α → σ → ω → Prop} (hQR : ∀ a s w, Q a s w → R a s w)
    {m : Routine ι ρ σ α} {s : σ} {w : ω} (hm : m.Leads answer Given Q s w) :
    m.Leads answer Given R s w := by
  induction m generalizing s w with
  | done a => exact hQR _ _ _ hm
  | request i k ih => exact fun hg hg' => ih _ (hm hg hg')
  | update f k ih => exact ih _ hm

theorem Leads.granted {I : σ → ω → Prop} {m : Routine ι ρ σ α} {s : σ} {w : ω}
    (hm : m.Leads answer Given (fun _ => I) s w) :
    m.Leads answer Given (fun _ s w => Given s w → I s w) s w :=
  hm.mono (R := fun _ s w => Given s w → I s w) fun _ _ _ h _ => h

theorem leads_bind {Q : β → σ → ω → Prop} {m : Routine ι ρ σ α} {g : α → Routine ι ρ σ β} {s : σ}
    {w : ω} (hm : m.Leads answer Given (fun a => (g a).Leads answer Given Q) s w) :
    (bind m g).Leads answer Given Q s w := by
  induction m generalizing s w with
  | done a => exact hm
  | request i k ih => exact fun hg hg' => ih _ (hm hg hg')
  | update f k ih => exact ih _ hm

/-- What all requests and all updates of a routine keep holds at its end. -/
theorem leads_of_within {P : ι → Prop} {U : σ → σ → Prop} {I : σ → ω → Prop}
    (hcall : ∀ i, P i → ∀ s w, I s w → Given s (answer i w).2 → I s (answer i w).2)
    (hupdate : ∀ s t, U s t → ∀ w, I s w → I t w) {m : Routine ι ρ σ α} (hm : m.Within P U) {s : σ}
    {w : ω} (hI : I s w) : m.Leads answer Given (fun _ => I) s w := by
  induction m generalizing s w with
  | done a => exact hI
  | request i k ih => exact fun _ hg' => ih _ (hm.2 _) (hcall i hm.1 s w hI hg')
  | update f k ih => exact ih _ (hm s).2 (hupdate _ _ (hm s).1 w hI)

end Routine

open Routine

/-- A routine that keeps a discipline among others keeps it on its own. -/
theorem Discipline.inv_of_wp {ι : Type} {ρ : ι → Type} {σ ω M α : Type} [AddCommMonoid M]
    {D : Discipline ι ρ σ ω M} {m : Routine ι ρ σ α} {rest : M} {s : σ} {w : ω}
    (hm : D.wp (fun _ => D.Holds 0) m rest s w)
    (hgiven : ∀ p ∈ m.moments D.answer s w, D.Given p.1 p.2) :
    D.Inv rest (m.run D.answer s w).2.1 (m.run D.answer s w).2.2 := by
  induction m generalizing s w with
  | done a =>
    rw [Routine.run]
    simpa only [zero_add] using hm (hgiven _ (List.mem_singleton_self _))
  | request i k ih =>
    simp only [moments, List.forall_mem_cons] at hgiven
    obtain ⟨hg, hg', hrest⟩ := hgiven
    obtain ⟨h, hinv, hnext⟩ := hm hg
    obtain ⟨h', hinv', hk⟩ := hnext rest s w hinv hg hg'
    exact ih _ (hk rest s _ fun _ => hinv') hrest
  | update f k ih => exact ih _ hm hgiven

/-! ### Operations that may fail -/

section
variable {ε σ ω α β : Type} {answer : (c : Call) → ω → c.Reply × ω} {Given : σ → ω → Prop}
variable {s : σ} {w : ω}

theorem leads_op_bind {m : Op ε σ α} {g : α → Op ε σ β} {Q : Except ε β → σ → ω → Prop}
    (hm : m.run.Leads answer Given (fun
      | .ok a => (g a).run.Leads answer Given Q
      | .error e => Q (.error e)) s w) : (m >>= g).run.Leads answer Given Q s w := by
  rw [Op.run_bind]
  refine leads_bind (hm.mono fun r s w hr => ?_)
  cases r <;> exact hr

theorem leads_lift {m : Task σ α} {Q : Except ε α → σ → ω → Prop}
    (hm : m.Leads answer Given (fun a => Q (.ok a)) s w) :
    (Op.lift m : Op ε σ α).run.Leads answer Given Q s w := leads_bind hm

theorem leads_state {Q : Except ε σ → σ → ω → Prop} (h : Q (.ok s) s w) :
    (Op.state : Op ε σ σ).run.Leads answer Given Q s w := h

theorem leads_updateGet {f : σ → α × σ} {Q : Except ε α → σ → ω → Prop}
    (h : Q (.ok (f s).1) (f s).2 w) : (Op.updateGet f).run.Leads answer Given Q s w := h

theorem leads_update {f : σ → σ} {Q : Except ε Unit → σ → ω → Prop} (h : Q (.ok ()) (f s) w) :
    (Op.update f).run.Leads answer Given Q s w := h

theorem leads_failure {m : Op ε σ α} {I : σ → ω → Prop}
    (hm : m.run.Leads answer Given (fun _ => I) s w) :
    m.failure?.Leads answer Given (fun _ => I) s w := by
  refine leads_bind (hm.mono fun r s w hr => ?_)
  cases r <;> exact hr

end

theorem leads_reach {ω : Type} {answer : (c : Call) → ω → c.Reply × ω} {Given : Session → ω → Prop}
    {Q : Except DebugError Unit → Session → ω → Prop} {s : Session} {w : ω}
    (herr : ∀ e, s.unreachable? = some e → Q (.error e) s w)
    (hok : s.unreachable? = none → Q (.ok ()) s w) :
    Session.reach.run.Leads answer Given Q s w := by
  show Leads answer Given Q (ExceptT.run (Op.state >>= _)) s w
  refine leads_op_bind (leads_state ?_)
  cases hu : s.unreachable? with
  | none =>
    simp only [hu]
    exact hok hu
  | some e =>
    simp only [hu]
    exact herr e hu

/-- Looking at the target changes neither it nor the session. -/
theorem leads_inspects {α : Type} {Given : Session → Vm → Prop} {Q : α → Session → Vm → Prop}
    {m : Task Session α} (hm : Inspects m) {s : Session} {vm : Vm} (hQ : ∀ a, Q a s vm) :
    m.Leads Vm.serve Given Q s vm := by
  have hsame : m.Leads Vm.serve Given (fun _ t vm' => t = s ∧ vm' = vm) s vm := by
    refine leads_of_within ?_ (fun _ _ hf => hf.elim) hm ⟨rfl, rfl⟩
    rintro c hc _ _ ⟨rfl, rfl⟩ -
    exact ⟨rfl, Vm.answer_inspects _ hc⟩
  refine hsame.mono ?_
  rintro a _ _ ⟨rfl, rfl⟩
  exact hQ a

theorem leads_look {Given : Session → Vm → Prop} {c : Call} (hc : c.inspects)
    {Q : Except DebugError c.Answer → Session → Vm → Prop} {s : Session} {vm : Vm}
    (hQ : Given s vm → ∀ r, Q r s vm) :
    (Op.call c : Op DebugError Session c.Answer).run.Leads Vm.serve Given Q s vm := by
  intro hg _
  have hsame : (Vm.serve c vm).2 = vm := vm.answer_inspects hc
  rw [hsame]
  exact hQ hg _

/-! ## Deeds -/

/-- What is done before anything else is: an operation, something in the target, or the handling of
the next report. -/
inductive Deed
  | operation (o : Operation)
  | happening (x : Happening)
  | handling

namespace Deed

/-- What the session does in it, and the target that it finds. -/
def begun (vm : Vm) : Deed → Task Session Unit × Vm
  | operation o => (Routine.bind o.task fun _ => .done (), vm)
  | happening x => (.done (), x.apply vm)
  | handling =>
    match vm.reports with
    | [] => (.done (), vm)
    | .events set :: reports =>
      (Routine.bind (Session.handleSet set) fun _ => .done (), { vm with reports })
    | .hangUp :: reports => (Routine.modify Session.disconnected, { vm with reports })

def isOnBreakpoints : Deed → Bool
  | operation o => o.isOnBreakpoints
  | _ => true

end Deed

namespace Scene

def perform (c : Scene) (d : Deed) : Scene :=
  let (_, session, vm) := (d.begun c.vm).1.run Vm.serve c.session (d.begun c.vm).2
  { c with session, vm }

def performAll (c : Scene) (deeds : List Deed) : Scene := deeds.foldl perform c

/-- The moments of deeds, before and after each request and at the end of each deed. -/
def moments (c : Scene) : List Deed → List (Session × Vm)
  | [] => []
  | d :: ds => (d.begun c.vm).1.moments Vm.serve c.session (d.begun c.vm).2 ++ (c.perform d).moments ds

theorem performAll_append (c : Scene) (ds es : List Deed) :
    c.performAll (ds ++ es) = (c.performAll ds).performAll es := List.foldl_append

theorem performAll_snoc (c : Scene) (ds : List Deed) (d : Deed) :
    c.performAll (ds ++ [d]) = (c.performAll ds).perform d := c.performAll_append ds [d]

theorem moments_append (c : Scene) (ds es : List Deed) :
    c.moments (ds ++ es) = c.moments ds ++ (c.performAll ds).moments es := by
  induction ds generalizing c with
  | nil => rfl
  | cons d ds ih =>
    rw [List.cons_append, moments, moments, ih, List.append_assoc]
    rfl

/-- The deeds are on breakpoints, and throughout them the session reaches its target and neither ids
nor numbers of requests come round. -/
structure Smooth (start : Nat) (c : Scene) (deeds : List Deed) : Prop where
  onBreakpoints : ∀ d ∈ deeds, d.isOnBreakpoints
  sound : ∀ p ∈ c.moments deeds, Sound start p.1 p.2

variable {start : Nat} {c : Scene} {ds es : List Deed} {d : Deed}

theorem smooth_append : Smooth start c (ds ++ es) ↔
    Smooth start c ds ∧ Smooth start (c.performAll ds) es := by
  constructor
  · rintro ⟨hon, hsound⟩
    simp only [moments_append, List.forall_mem_append] at hon hsound
    exact ⟨⟨hon.1, hsound.1⟩, ⟨hon.2, hsound.2⟩⟩
  · rintro ⟨⟨hon, hsound⟩, ⟨hon', hsound'⟩⟩
    refine ⟨List.forall_mem_append.2 ⟨hon, hon'⟩, ?_⟩
    rw [moments_append]
    exact List.forall_mem_append.2 ⟨hsound, hsound'⟩

theorem smooth_cons : Smooth start c (d :: ds) ↔
    Smooth start c [d] ∧ Smooth start (c.perform d) ds :=
  (smooth_append : Smooth start c ([d] ++ ds) ↔ _)

/-- The moments of the one deed. -/
theorem Smooth.moments_one (h : Smooth start c [d]) :
    ∀ p ∈ (d.begun c.vm).1.moments Vm.serve c.session (d.begun c.vm).2, Sound start p.1 p.2 := by
  intro p hp
  exact h.sound p (by simpa [moments] using hp)

theorem Smooth.after (h : Smooth start c [d]) :
    Sound start (c.perform d).session (c.perform d).vm :=
  h.moments_one _ (end_mem_moments _ _ _)

/-- What a deed leads to. -/
theorem Smooth.leads (h : Smooth start c [d]) {I : Session → Vm → Prop}
    (hd : (d.begun c.vm).1.Leads Vm.serve (Sound start) (fun _ => I) c.session (d.begun c.vm).2) :
    I (c.perform d).session (c.perform d).vm := hd.run h.moments_one

end Scene

/-! ## The books of requests -/

section
open Discipline
variable {start : Nat} {set : EventSet}

theorem settles_handleEvents {events : List TargetEvent} (h : ∀ e ∈ events, e.isStep = false) :
    (ownership start).Settles 0 (Session.handleEvents events) := by
  induction events with
  | nil => exact fun _ _ _ hh => hh
  | cons e es ih =>
    rw [List.forall_mem_cons] at h
    refine fun rest s vm hh => wp_bind (wp_mono ?_ (settles_event e h.1 rest s vm hh))
    intro goesOn rest s vm hh
    cases goesOn with
    | true => exact ih h.2 rest s vm hh
    | false => exact hh

theorem settles_handleSet (h : ∀ e ∈ set.events, e.isStep = false) :
    (ownership start).Settles 0 (Session.handleSet set) := by
  refine fun rest s vm hh => wp_bind (wp_mono ?_ (settles_handleEvents h rest s vm hh))
  intro goesOn rest s vm hh
  cases goesOn with
  | true => exact settles_resumeAfter set rest s vm hh
  | false => exact hh

theorem Balanced.perform {c : Scene} {d : Deed} (hb : Balanced start 0 c.session c.vm)
    (h : Scene.Smooth start c [d]) :
    Balanced start 0 (c.perform d).session (c.perform d).vm := by
  refine inv_of_wp (D := ownership start) ?_ h.moments_one
  cases d with
  | operation o =>
    exact (ownership_operation (h.onBreakpoints _ (List.mem_singleton_self _))).discard () 0 _ _
      fun _ => (zero_add (0 : Held)).symm ▸ hb
  | happening x => exact fun _ => (zero_add (0 : Held)).symm ▸ hb.happening x
  | handling =>
    simp only [Deed.begun]
    split
    · exact fun _ => (zero_add (0 : Held)).symm ▸ hb
    · next set reports hr =>
      have hread := hb.read hr
      refine (settles_handleSet fun e he => ?_).discard () 0 _ _ fun _ =>
        (zero_add (0 : Held)).symm ▸ hread
      exact hb.no_step_unread e (Vm.mem_unread (by rw [hr]; exact List.mem_cons_self) he)
    · next reports hr =>
      have hread := hb.read hr
      intro hs
      rw [zero_add]
      exact (balanced_quiet _ _ _ c.session.quiet_disconnected hs).2 0 hread

theorem Balanced.performAll {c : Scene} {ds : List Deed} (hb : Balanced start 0 c.session c.vm)
    (h : Scene.Smooth start c ds) :
    Balanced start 0 (c.performAll ds).session (c.performAll ds).vm := by
  induction ds generalizing c with
  | nil => exact hb
  | cons d ds ih =>
    obtain ⟨hd, hds⟩ := Scene.smooth_cons.1 h
    exact ih (hb.perform hd) hds

end

end JvmDebug
