import JvmDebug.Proofs.Exchanges
import JvmDebug.Proofs.Installing
import JvmDebug.Proofs.QuietSteps
import JvmDebug.Proofs.RegistryChanges
import JvmDebug.Simulation

/-!
What goes on in the sessions does not concern the registry: their event loops, the passing of time
and the closing of a session leave open which sessions there are, what their ids are and which of
them is active.
-/
namespace JvmDebug

open Routine

/-! ## Sessions -/

abbrev Routine.KeepsId {α : Type} (m : Task Session α) : Prop :=
  m.Within (fun _ => True) fun s t => t.id = s.id

namespace Session

theorem keepsId_of_inspects {α : Type} {m : Task Session α} (hm : Inspects m) : KeepsId m :=
  hm.mono (fun _ _ => trivial) fun _ _ hf => hf.elim

theorem keepsId_of_installs {α : Type} {m : Task Session α} (hm : Installs m) : KeepsId m := by
  refine hm.mono (fun _ _ => trivial) fun s t h => ?_
  have h : t = { s with breakpoints := t.breakpoints } := h
  rw [h]

@[simp] theorem id_enter (s : Session) (next : SessionState) : (s.enter next).id = s.id := by
  simp only [enter]
  split <;> rfl

@[simp] theorem id_emit (s : Session) (payload : Payload) : (s.emit payload).id = s.id := rfl

@[simp] theorem id_stopped (s : Session) (t : ThreadId) (breakpoint : Option (Option String)) :
    (s.stopped t breakpoint).id = s.id := by
  simp only [stopped, id_enter]

@[simp] theorem id_disconnected (s : Session) : s.disconnected.id = s.id := by
  simp only [disconnected]
  split
  · rfl
  · rw [id_emit, id_enter]

@[simp] theorem id_recordHit (request : Option RequestId) (s : Session) :
    (recordHit request s).2.id = s.id := by
  cases request <;> rfl

theorem keepsId_reportHit (id : Option String) (t : ThreadId) (l : Location) :
    KeepsId (reportHit id t l) := by
  refine within_bind (keepsId_of_inspects (inspects_threadPlace t l)) fun place => ?_
  exact within_bind (within_modify fun s => by rw [id_emit, id_stopped]) fun _ => trivial

theorem keepsId_reportStep (t : ThreadId) (l : Location) : KeepsId (reportStep t l) := by
  refine within_bind (keepsId_of_inspects (inspects_threadPlace t l)) fun place => ?_
  exact within_bind (within_modify fun s => by rw [id_emit, id_stopped]) fun _ => trivial

theorem keepsId_handleEvent (e : TargetEvent) : KeepsId (handleEvent e) := by
  cases e with
  | vmStart t => trivial
  | breakpoint request t l =>
    rw [handleEvent_breakpoint]
    exact fun s => ⟨id_recordHit request s, keepsId_reportHit _ t l⟩
  | step request t l =>
    rw [handleEvent_step]
    refine fun s => ⟨rfl, ?_⟩
    dsimp only
    split
    · exact ⟨trivial, fun _ => keepsId_reportStep t l⟩
    · exact keepsId_reportStep t l
  | exception request t l thrown catchAt =>
    refine within_bind (keepsId_of_inspects (inspects_exceptionMessage thrown)) fun message => ?_
    refine within_bind (keepsId_of_inspects (inspects_threadPlace t l)) fun place => ?_
    exact within_bind (within_modify fun s => by rw [id_emit, id_stopped]) fun _ => trivial
  | threadStart t =>
    refine within_bind (keepsId_of_inspects (inspects_threadName t)) fun name => ?_
    exact within_bind (within_modify fun s => rfl) fun _ => trivial
  | threadDeath t =>
    refine within_bind (keepsId_of_inspects (inspects_threadName t)) fun name => ?_
    exact within_bind (within_modify fun s => rfl) fun _ => trivial
  | classPrepare request t c =>
    exact within_bind (keepsId_of_installs (installs_classLoaded c)) fun _ => trivial
  | vmDeath =>
    exact within_bind (within_modify fun s => by rw [id_emit, id_enter]) fun _ => trivial

theorem keepsId_handleReading (r : Reading) : KeepsId (handleReading r) :=
  within_handleReading keepsId_handleEvent (fun _ => trivial) id_disconnected r

theorem keepsId_finishClose : KeepsId finishClose := by
  have hend : KeepsId (Routine.modify fun s : Session => s.enter .disconnected) :=
    within_modify fun s => id_enter s _
  refine fun s => ⟨rfl, ?_⟩
  dsimp only [Routine.bind]
  split
  · exact ⟨trivial, fun _ => hend⟩
  · exact hend

/-- Connecting keeps the id, and a session that was just created takes the connection. -/
theorem always_connect (s : Session) (origin : Origin) (description : String) :
    Always (fun r t _ => t.id = s.id ∧ (s.state = .created → r = .ok ()))
      (connect origin description).run s := by
  simp only [connect, Op.run_bind, Op.run_state, Routine.bind, Always]
  by_cases hs : s.state = .created
  · have hne : (s.state != .created) = false := by rw [hs]; rfl
    simp only [hne, Bool.false_eq_true, if_false]
    by_cases htrack : s.settings.trackThreads
    · rw [if_pos htrack]
      intro r
      cases r with
      | ok requests => exact ⟨id_enter _ _, fun _ => rfl⟩
      | error e => exact ⟨id_enter _ _, fun _ => rfl⟩
    · rw [if_neg htrack]
      exact ⟨id_enter _ _, fun _ => rfl⟩
  · have hne : (s.state != .created) = true := by simpa using hs
    simp only [hne, if_true]
    exact ⟨rfl, fun h => absurd h hs⟩

end Session

theorem Routine.KeepsId.always {α : Type} {m : Task Session α} (hm : KeepsId m) (s : Session) :
    Always (fun _ t _ => t.id = s.id) m s :=
  (always_of_within hm (fun _ => rfl) (fun _ _ _ h h' => h'.trans h) s).mono fun _ _ _ h => h.1

/-! ## Simulations -/

namespace Simulation

abbrev SameBooks (w w' : Simulation) : Prop := w.registry.SameBooks w'.registry

variable {α : Type} {w w' : Simulation}

theorem sameBooks_run (w : Simulation) (n : Nat) {m : Task Session α}
    (hm : ∀ s, Always (fun _ t _ => t.id = s.id) m s) : w.SameBooks (w.run n m).2 :=
  Registry.sameBooks_setSession _ n ((hm _).run Link.answer w.link)

theorem sameBooks_handle (w : Simulation) (n : Nat) (r : Reading) :
    w.SameBooks (w.handle n r).2 := by
  have hrun := sameBooks_run w n (Session.keepsId_handleReading r).always
  simp only [handle]
  split
  · exact hrun
  · exact hrun

theorem sameBooks_startReading (w : Simulation) (n : Nat) : w.SameBooks (w.startReading n) := by
  simp only [startReading]
  split
  · exact .rfl
  · split
    · next e link _ =>
      have hhandle := sameBooks_handle { w with link } n (.error e)
      split
      · exact hhandle
      · exact hhandle
    · next link _ =>
      split
      · exact sameBooks_handle { w with link } n (.error .disconnected)
      · exact .rfl

theorem sameBooks_beginTurn (w : Simulation) : w.SameBooks w.beginTurn := by
  simp only [beginTurn]
  split <;> exact .rfl

theorem sameBooks_deliver (w : Simulation) (who : ReaderId) (r : Report) :
    w.SameBooks (w.deliver who r) := by
  cases who with
  | user => cases r <;> exact .rfl
  | loop n =>
    cases r with
    | hangUp => exact sameBooks_handle { w with hungUp := true } n (.error .disconnected)
    | events set =>
      have hhandle := sameBooks_handle w n (.ok (some set))
      simp only [deliver]
      split
      · exact hhandle.trans (sameBooks_startReading _ n)
      · exact hhandle

theorem sameBooks_deliverAll (count : Nat) (w : Simulation) :
    w.SameBooks (w.deliverAll count) := by
  induction count generalizing w with
  | zero => exact .rfl
  | succ count ih =>
    simp only [deliverAll]
    split
    · next r rs x xs _ _ =>
      have hturn := sameBooks_beginTurn { w with
        readers := rs
        link := { w.link with vm := { w.link.vm with reports := xs } } }
      exact (hturn.trans (sameBooks_deliver _ r.who x)).trans (ih _)
    · exact .rfl

theorem sameBooks_checkWaiter (w : Simulation) : w.SameBooks w.checkWaiter := by
  simp only [checkWaiter]
  split
  · exact .rfl
  · next waiter _ =>
    have hpop : w.registry.SameBooks (w.registry.setSession waiter.session
        ((w.session waiter.session).pop waiter.filter).2) :=
      Registry.sameBooks_setSession _ _ rfl
    split
    · exact .rfl
    · split
      · exact hpop
      · exact hpop

theorem sameBooks_settle (w : Simulation) : w.SameBooks w.settle :=
  (sameBooks_deliverAll _ w).trans (sameBooks_checkWaiter _)

theorem sameBooks_wake (w : Simulation) : w.SameBooks w.wake := by
  simp only [wake]
  generalize w.loops.entries = sleepers
  induction sleepers generalizing w with
  | nil => exact .rfl
  | cons x sleepers ih =>
    refine Registry.SameBooks.trans ?_ (ih _)
    dsimp only
    split
    · split
      · exact sameBooks_startReading w _
      · exact .rfl
    · exact .rfl

theorem sameBooks_expire (w : Simulation) : w.SameBooks w.expire := by
  simp only [expire]
  split
  · exact .rfl
  · next r rs _ =>
    split
    · exact .rfl
    · have hturn := sameBooks_beginTurn { w with readers := rs }
      split
      · exact hturn.trans (sameBooks_startReading _ _)
      · exact hturn

theorem sameBooks_advance (stop : Simulation → Bool) (target fuel : Nat) (w : Simulation) :
    w.SameBooks (advance stop target fuel w) := by
  induction fuel generalizing w with
  | zero => exact .rfl
  | succ fuel ih =>
    simp only [advance]
    split
    · exact .rfl
    · split
      · next t _ =>
        split
        · refine Registry.SameBooks.trans ?_ (ih _)
          exact (sameBooks_wake { w with now := max w.now t }).trans
            ((sameBooks_expire _).trans (sameBooks_settle _))
        · exact .rfl
      · exact .rfl

theorem sameBooks_passUntil (w : Simulation) (target : Nat) (stop : Simulation → Bool) :
    w.SameBooks (w.passUntil target stop) :=
  (sameBooks_settle w).trans (sameBooks_advance _ _ _ _)

theorem sameBooks_stopLoop (w : Simulation) (n : Nat) : w.SameBooks (w.stopLoop n) := by
  simp only [stopLoop]
  split
  · exact .rfl
  · exact sameBooks_passUntil w _ _
  · have hturn := sameBooks_beginTurn { w with
      loops := w.loops.erase n
      readers := w.readers.filter fun r => r.who ≠ .loop n }
    split
    · exact hturn
    · exact .rfl

theorem sameBooks_close (w : Simulation) (n : Nat) : w.SameBooks (w.close n) := by
  have hbegin : w.registry.SameBooks
      (w.registry.setSession n (w.session n).beginClose.2) :=
    Registry.sameBooks_setSession _ _ rfl
  have hstop := sameBooks_stopLoop
    { w with registry := w.registry.setSession n (w.session n).beginClose.2 } n
  simp only [close]
  split
  · exact (hbegin.trans hstop).trans (sameBooks_run _ n Session.keepsId_finishClose.always)
  · exact hbegin.trans (sameBooks_run { w with
      registry := w.registry.setSession n (w.session n).beginClose.2 } n
      Session.keepsId_finishClose.always)

theorem sameBooks_closes (numbers : List Nat) (w : Simulation) :
    w.SameBooks (numbers.foldl close w) := by
  induction numbers generalizing w with
  | nil => exact .rfl
  | cons n numbers ih => exact (sameBooks_close w n).trans (ih _)

end Simulation

end JvmDebug
