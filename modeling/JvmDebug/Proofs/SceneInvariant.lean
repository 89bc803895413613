import JvmDebug.Proofs.Discipline
import JvmDebug.Proofs.Scene

/-!
A discipline kept by every operation, by the handling of every event and by everything that
happens in the target is kept by every schedule.
-/
namespace JvmDebug

/-- Which operations may begin and what may happen in the target. -/
def Choice.Within (begins : Operation → Prop) (happens : Happening → Prop) : Choice → Prop
  | .call o => begins o
  | .target h => happens h
  | _ => True

def Loop.now : Loop → Task Session Bool
  | .handling _ _ now _ | .resuming now => now
  | _ => .done true

/-- Nothing but the invariant is known of the session and the target at the steps of a scene. -/
abbrev Discipline.ofScene {M : Type} (Given : Session → Vm → Prop) (Inv : M → Session → Vm → Prop) :
    Discipline Call Call.Reply Session Vm M :=
  ⟨Vm.serve, Given, Inv⟩

section
variable {M : Type} [AddCommMonoid M] {Given : Session → Vm → Prop} {Inv : M → Session → Vm → Prop}

/-- The parts of a scene keep a discipline: operations in `begins`, events in `fine`, happenings in
`happens`. -/
structure Discipline.Rules (Given : Session → Vm → Prop) (Inv : M → Session → Vm → Prop)
    (begins : Operation → Prop) (fine : TargetEvent → Prop) (happens : Happening → Prop) :
    Prop where
  operation : ∀ o, begins o → (Discipline.ofScene Given Inv).Settles 0 o.task
  event : ∀ e, fine e → (Discipline.ofScene Given Inv).Settles 0 (Session.handleEvent e)
  resumeAfter : ∀ set, (Discipline.ofScene Given Inv).Settles 0 (Session.resumeAfter set)
  reported : ∀ h s vm set, Inv h s vm → .events set ∈ vm.reports → ∀ e ∈ set.events, fine e
  read : ∀ h s vm r reports, Inv h s vm → vm.reports = r :: reports → Inv h s { vm with reports }
  disconnected : ∀ h s vm, Inv h s vm → Given s.disconnected vm → Inv h s.disconnected vm
  happening : ∀ x, happens x → ∀ h s vm, Inv h s vm → Given s (x.apply vm) → Inv h s (x.apply vm)

namespace Scene

/-- Every operation in flight and the loop hold a part of what the invariant speaks of. -/
def Kept (Given : Session → Vm → Prop) (Inv : M → Session → Vm → Prop)
    (fine : TargetEvent → Prop) (c : Scene) : Prop :=
  ∃ (held : List (M × Task Session (Option DebugError))) (l : M),
    held.map Prod.snd = c.calls ∧
    (∀ p ∈ held, (Discipline.ofScene Given Inv).Settles p.1 p.2) ∧
    (∀ e ∈ c.loop.later, fine e) ∧
    (Discipline.ofScene Given Inv).Settles l c.loop.now ∧
    Inv ((held.map Prod.fst).sum + l) c.session c.vm

variable {fine : TargetEvent → Prop}

theorem settles_done (goesOn : Bool) :
    (Discipline.ofScene Given Inv).Settles 0 (.done goesOn : Task Session Bool) :=
  fun _ _ _ hh => hh

theorem Kept.of_fresh {c : Scene} (hcalls : c.calls = []) (hloop : c.loop = .reading)
    (hinv : Inv 0 c.session c.vm) : c.Kept Given Inv fine := by
  refine ⟨[], 0, hcalls.symm, by simp, by simp [hloop, Loop.later], ?_, by simpa using hinv⟩
  rw [hloop]
  exact settles_done true

theorem kept_iff {c : Scene} : c.Kept Given Inv fine ↔ ∃ l, (∀ e ∈ c.loop.later, fine e) ∧
    (Discipline.ofScene Given Inv).Settles l c.loop.now ∧
    (Discipline.ofScene Given Inv).Shared c.calls l c.session c.vm := by
  constructor
  · rintro ⟨held, l, hcalls, hheld, hfine, hl, hinv⟩
    exact ⟨l, hfine, hl, held, hcalls, hheld, hinv⟩
  · rintro ⟨l, hfine, hl, held, hcalls, hheld, hinv⟩
    exact ⟨held, l, hcalls, hheld, hfine, hl, hinv⟩

theorem Kept.idle {c : Scene} (hk : c.Kept Given Inv fine) (hi : c.Idle)
    (hg : Given c.session c.vm) : Inv 0 c.session c.vm := by
  obtain ⟨l, -, hl, hshared⟩ := kept_iff.1 hk
  have hinv : Inv l c.session c.vm := hshared.done hi.1 hg
  have hnow : ∃ goesOn, c.loop.now = .done goesOn := by
    cases h : c.loop with
    | reading | ended => exact ⟨true, rfl⟩
    | ready | handling | resuming => have := hi.2; rw [h] at this; exact this.elim
  obtain ⟨goesOn, hnow⟩ := hnow
  rw [hnow] at hl
  exact hl.done (by rwa [add_zero]) hg

theorem Kept.call {c : Scene} (hk : c.Kept Given Inv fine) {o : Operation}
    (ho : (Discipline.ofScene Given Inv).Settles 0 o.task) :
    (c.step (.call o)).Kept Given Inv fine := by
  obtain ⟨l, hfine, hl, hshared⟩ := kept_iff.1 hk
  exact kept_iff.2 ⟨l, hfine, hl, hshared.join fun k hinv => ⟨0, by rwa [zero_add], ho⟩⟩

theorem Kept.go {c : Scene} (hk : c.Kept Given Inv fine) (n : Nat) (hg : Given c.session c.vm)
    (hg' : Given (c.step (.go n)).session (c.step (.go n)).vm) :
    (c.step (.go n)).Kept Given Inv fine := by
  cases hn : c.calls[n]? with
  | none =>
    rwa [step_go_none hn]
  | some m =>
    rw [step_go_some hn] at hg' ⊢
    obtain ⟨l, hfine, hl, hshared⟩ := kept_iff.1 hk
    exact kept_iff.2 ⟨l, hfine, hl, hshared.move hn hg hg'⟩

section
variable {ω : Type} {D : Discipline Call Call.Reply Session ω M}

theorem settles_afterEvent {h : M} {set : EventSet} {e : TargetEvent} {later : List TargetEvent}
    {now : Task Session Bool} (hnow : D.Settles h now) :
    D.Settles h (Loop.afterEvent set e later now).now := by
  refine Loop.of_afterEvent (P := fun l => D.Settles h l.now) hnow fun goesOn hdone => ?_
  subst hdone
  exact ⟨hnow, hnow⟩

theorem settles_afterResume {h : M} {now : Task Session Bool} (hnow : D.Settles h now) :
    D.Settles h (Loop.afterResume now).now := by
  refine Loop.of_afterResume (P := fun l => D.Settles h l.now) hnow fun goesOn hdone => ?_
  subst hdone
  exact ⟨hnow, hnow⟩

end

theorem later_afterEvent {set : EventSet} {e : TargetEvent} {later : List TargetEvent}
    {now : Task Session Bool} {x : TargetEvent}
    (hx : x ∈ (Loop.afterEvent set e later now).later) : x ∈ later :=
  Loop.of_afterEvent (P := fun l => x ∈ l.later → x ∈ later) id (fun _ _ => ⟨id, nofun⟩) hx

variable {begins : Operation → Prop} {happens : Happening → Prop}

/-- What the loop holds besides the rest, before and after one of its steps. -/
theorem loop_kept (R : Discipline.Rules Given Inv begins fine happens) {loop : Loop} {l rest : M}
    {s : Session} {vm : Vm} (hfine : ∀ e ∈ loop.later, fine e)
    (hl : (Discipline.ofScene Given Inv).Settles l loop.now) (hinv : Inv (l + rest) s vm)
    (hg : Given s vm) (hg' : Given (loop.step s vm).2.1 (loop.step s vm).2.2) :
    (∀ e ∈ (loop.step s vm).1.later, fine e) ∧
      ∃ l', Inv (l' + rest) (loop.step s vm).2.1 (loop.step s vm).2.2 ∧
        (Discipline.ofScene Given Inv).Settles l' (loop.step s vm).1.now := by
  cases loop with
  | reading =>
    simp only [Loop.step] at hg' ⊢
    cases hr : vm.reports with
    | nil => exact ⟨hfine, l, hinv, hl⟩
    | cons r reports =>
      have hread := R.read _ _ _ _ _ hinv hr
      cases r with
      | events set => exact ⟨R.reported _ _ _ _ hinv (by simp [hr]), l, hread, hl⟩
      | hangUp =>
        rw [hr] at hg'
        exact ⟨hfine, l, R.disconnected _ _ _ hread hg', hl⟩
  | ready set later =>
    have hrest : Inv (0 + rest) s vm := by
      rw [zero_add]
      exact hl.done hinv hg
    cases later with
    | nil =>
      simp only [Loop.step] at hg' ⊢
      obtain ⟨l', hinv', hl'⟩ :=
        Discipline.settles_advance (R.resumeAfter set rest s vm fun _ => hrest) hg'
      refine ⟨?_, l', hinv', settles_afterResume hl'⟩
      simp [Loop.later_afterResume]
    | cons e later =>
      simp only [Loop.step] at hg' ⊢
      obtain ⟨l', hinv', hl'⟩ := Discipline.settles_advance
        (R.event e (hfine e (by simp [Loop.later])) rest s vm fun _ => hrest) hg'
      refine ⟨fun x hx => hfine x ?_, l', hinv', settles_afterEvent hl'⟩
      exact List.mem_cons_of_mem _ (later_afterEvent hx)
  | handling set e now later =>
    obtain ⟨l', hinv', hl'⟩ := hl.move hinv hg hg'
    exact ⟨fun x hx => hfine x (later_afterEvent hx), l', hinv', settles_afterEvent hl'⟩
  | resuming now =>
    obtain ⟨l', hinv', hl'⟩ := hl.move hinv hg hg'
    refine ⟨?_, l', hinv', settles_afterResume hl'⟩
    simp [Loop.step, Loop.later_afterResume]
  | ended => exact ⟨hfine, l, hinv, hl⟩

theorem Kept.step (R : Discipline.Rules Given Inv begins fine happens) {c : Scene}
    (hk : c.Kept Given Inv fine) {x : Choice} (hx : x.Within begins happens)
    (hg : Given c.session c.vm) (hg' : Given (c.step x).session (c.step x).vm) :
    (c.step x).Kept Given Inv fine := by
  cases x with
  | call o => exact hk.call (R.operation o hx)
  | go n => exact hk.go n hg hg'
  | loop =>
    obtain ⟨held, l, hcalls, hheld, hfine, hl, hinv⟩ := hk
    rw [add_comm] at hinv
    obtain ⟨hfine', l', hinv', hl'⟩ := loop_kept R hfine hl hinv hg hg'
    rw [add_comm] at hinv'
    exact ⟨held, l', hcalls, hheld, hfine', hl', hinv'⟩
  | target h =>
    obtain ⟨held, l, hcalls, hheld, hfine, hl, hinv⟩ := hk
    exact ⟨held, l, hcalls, hheld, hfine, hl, R.happening h hx _ _ _ hinv hg'⟩

/-- A discipline kept by its parts is kept by every schedule. -/
theorem Kept.run (R : Discipline.Rules Given Inv begins fine happens) {c : Scene}
    (hk : c.Kept Given Inv fine) {choices : List Choice}
    (hchoices : ∀ x ∈ choices, x.Within begins happens)
    (hg : ∀ xs, xs <+: choices → Given (c.run xs).session (c.run xs).vm) :
    (c.run choices).Kept Given Inv fine := by
  refine run_induction c choices hk fun xs x hxs hkept => ?_
  have hx : x ∈ choices := hxs.subset (by simp)
  refine hkept.step R (hchoices x hx) (hg xs ((List.prefix_append _ _).trans hxs)) ?_
  have := hg (xs ++ [x]) hxs
  rwa [run_append] at this

end Scene

end

end JvmDebug
