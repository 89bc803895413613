import JvmDebug.Proofs.Scene
import JvmDebug.Proofs.TargetCalls

/-!
The way of an event through a scene: a happening reports it, the loop reads it with its set, and
later begins to handle it. Calls neither report events nor load classes.
-/
namespace JvmDebug

namespace Loop

def begins : Loop → List TargetEvent
  | ready _ (e :: _) => [e]
  | _ => []

theorem move_undisturbed {σ α : Type} (m : Task σ α) (s : σ) (vm : Vm) :
    vm.Undisturbed (m.move Vm.serve s vm).2.2 := by
  cases m with
  | done a => exact .rfl
  | request c k => exact vm.answer_undisturbed c
  | update f k => exact .rfl

theorem step_classes (l : Loop) (s : Session) (vm : Vm) :
    (l.step s vm).2.2.classes = vm.classes := by
  cases l with
  | reading =>
    simp only [step]
    split <;> rfl
  | ready set later => cases later <;> rfl
  | handling set e now later => exact (move_undisturbed now s vm).classes
  | resuming now => exact (move_undisturbed now s vm).classes
  | ended => rfl

theorem later_afterEvent {set : EventSet} {e : TargetEvent} {later : List TargetEvent}
    {now : Task Session Bool} (h : afterEvent set e later now ≠ ended) :
    (afterEvent set e later now).later = later :=
  of_afterEvent (P := fun l => l ≠ ended → l.later = later) (fun _ => rfl)
    (fun _ _ => ⟨fun _ => rfl, fun h => absurd rfl h⟩) h

theorem later_step {l : Loop} {s : Session} {vm : Vm} (h : (l.step s vm).1 ≠ ended) :
    l.later ++ vm.unread = l.begins ++ ((l.step s vm).1.later ++ (l.step s vm).2.2.unread) := by
  cases l with
  | reading =>
    simp only [step] at h ⊢
    cases hr : vm.reports with
    | nil => rfl
    | cons r reports =>
      rw [hr] at h
      rw [Vm.unread_cons hr]
      cases r with
      | events set => rfl
      | hangUp => exact absurd rfl h
  | ready set later =>
    cases later with
    | nil =>
      simp only [step, later_afterResume, begins]
      rfl
    | cons e later =>
      simp only [step] at h ⊢
      rw [later_afterEvent h]
      rfl
  | handling set e now later =>
    simp only [step] at h ⊢
    rw [later_afterEvent h, (move_undisturbed now s vm).unread]
    rfl
  | resuming now =>
    simp only [step, later_afterResume]
    rw [(move_undisturbed now s vm).unread]
    rfl
  | ended => exact absurd rfl h

end Loop

namespace Choice

def events (vm : Vm) : Choice → List TargetEvent
  | target h => h.events vm
  | _ => []

def loads (vm : Vm) (name : String) : Choice → Prop
  | target h => h.loads vm name
  | _ => False

def begins (l : Loop) : Choice → List TargetEvent
  | loop => l.begins
  | _ => []

end Choice

namespace Scene

def upcoming (c : Scene) : List TargetEvent := c.loop.later ++ c.vm.unread

/-- No operation is in flight, and everything that was reported has been handled. -/
structure Settled (c : Scene) : Prop where
  calls : ∀ m ∈ c.calls, ∃ r, m = .done r
  loop : c.loop = .reading
  reports : c.vm.reports = []

namespace Settled
variable {c : Scene}

theorem idle (hc : c.Settled) : c.Idle := by
  refine ⟨hc.calls, ?_⟩
  rw [hc.loop]
  trivial

theorem upcoming (hc : c.Settled) : c.upcoming = [] := by
  rw [Scene.upcoming, hc.loop, Vm.unread, hc.reports]
  rfl

end Settled

theorem step_go (c : Scene) (n : Nat) :
    (c.step (.go n)).loop = c.loop ∧ c.vm.Undisturbed (c.step (.go n)).vm := by
  simp only [step]
  cases c.calls[n]? with
  | none => exact ⟨rfl, .rfl⟩
  | some m => exact ⟨rfl, Loop.move_undisturbed m c.session c.vm⟩

theorem run_ended {c : Scene} (h : c.loop = .ended) (choices : List Choice) :
    (c.run choices).loop = .ended := by
  induction choices generalizing c with
  | nil => exact h
  | cons x xs ih =>
    refine ih ?_
    cases x with
    | call o => exact h
    | go n => rw [(c.step_go n).1, h]
    | loop =>
      simp only [step, h]
      rfl
    | target x => exact h

theorem loop_ne_ended {c : Scene} {choices xs : List Choice}
    (h : (c.run choices).loop = .reading) (hxs : xs <+: choices) : (c.run xs).loop ≠ .ended := by
  obtain ⟨ys, rfl⟩ := hxs
  intro hended
  rw [run_append, run_ended hended ys] at h
  cases h

theorem upcoming_step {c : Scene} {x : Choice} (h : (c.step x).loop ≠ .ended) :
    c.upcoming ++ x.events c.vm = x.begins c.loop ++ (c.step x).upcoming := by
  cases x with
  | call o => exact List.append_nil _
  | go n =>
    obtain ⟨hloop, hvm⟩ := c.step_go n
    rw [upcoming, upcoming, hloop, hvm.unread]
    exact List.append_nil _
  | loop => exact (List.append_nil _).trans (Loop.later_step h)
  | target x =>
    show c.loop.later ++ c.vm.unread ++ x.events c.vm = c.loop.later ++ (x.apply c.vm).unread
    rw [x.unread_apply, List.append_assoc]

theorem loaded_step (c : Scene) (x : Choice) (name : String) :
    (c.step x).vm.Loaded name ↔ c.vm.Loaded name ∨ x.loads c.vm name := by
  cases x with
  | call o => simp [step, Choice.loads]
  | go n =>
    rw [(c.step_go n).2.loaded]
    simp [Choice.loads]
  | loop =>
    simp only [Vm.Loaded, step, Loop.step_classes, Choice.loads, or_false]
  | target x => exact x.loaded_apply c.vm name

theorem className?_step (c : Scene) (x : Choice) (k : TypeId) :
    (c.step x).vm.className? k = c.vm.className? k := by
  cases x with
  | call o => rfl
  | go n => rw [Vm.className?, (c.step_go n).2.classes, Vm.className?]
  | loop => simp only [Vm.className?, step, Loop.step_classes]
  | target x => exact x.className?_apply c.vm k

theorem className?_run (c : Scene) (choices : List Choice) (k : TypeId) :
    (c.run choices).vm.className? k = c.vm.className? k := by
  induction choices generalizing c with
  | nil => rfl
  | cons x xs ih => exact (ih (c.step x)).trans (c.className?_step x k)

/-- Classes keep their names, so it does not matter when a choice is looked at. -/
theorem loads_run (c : Scene) (choices : List Choice) (x : Choice) (name : String) :
    x.loads (c.run choices).vm name ↔ x.loads c.vm name := by
  cases x with
  | target h => cases h <;> simp only [Choice.loads, Happening.loads, className?_run]
  | call | go | loop => exact Iff.rfl

end Scene

end JvmDebug
