import JvmDebug.Simulation
import Mathlib.Data.List.Induction
import Mathlib.Data.List.Infix
import Mathlib.Data.List.TakeWhile

/-!
Waiting for events while others push, poll and clear. A wait registers before it looks at the
buffer, so a push that comes between its look and its sleep wakes it as well. A wait that sleeps
without having been woken has seen an empty buffer, and nothing was pushed since; one that ends
without an event has found none to its liking at its deadline.
-/
namespace JvmDebug

/-! ## Looking at the buffer -/

namespace EventBuffer

variable (b : EventBuffer) (filter : List EventKind)

theorem takePassing_one (events : List DebugEvent) :
    takePassing filter 1 events = ((events.find? fun e => e.passes filter).toList,
      (events.dropWhile fun e => !e.passes filter).tail) := by
  induction events with
  | nil => rfl
  | cons e es ih =>
    by_cases he : e.passes filter
    · simp [takePassing, he]
    · simp [takePassing, he, ih]

theorem pop_eq_find? : (b.pop filter).1 = b.events.find? fun e => e.passes filter := by
  simp only [pop, poll, takePassing_one]
  cases b.events.find? fun e => e.passes filter <;> rfl

theorem events_pop :
    (b.pop filter).2.events = (b.events.dropWhile fun e => !e.passes filter).tail := by
  simp only [pop, poll, takePassing_one]

/-- A look that finds nothing leaves nothing. -/
theorem events_of_pop_eq_none (h : (b.pop filter).1 = none) : (b.pop filter).2.events = [] := by
  rw [pop_eq_find?, List.find?_eq_none] at h
  rw [events_pop, List.dropWhile_eq_nil_iff.2]
  · rfl
  · intro e he
    simpa using h e he

theorem takePassing_suffix (limit : Nat) (events : List DebugEvent) :
    (takePassing filter limit events).2 <:+ events := by
  induction events generalizing limit with
  | nil => exact List.suffix_rfl
  | cons e es ih =>
    simp only [takePassing]
    split
    · split
      · exact List.suffix_cons e es
      · exact (ih _).trans (List.suffix_cons e es)
    · exact (ih _).trans (List.suffix_cons e es)

theorem poll_suffix (limit : Nat) : (b.poll limit filter).2.events <:+ b.events :=
  takePassing_suffix filter limit b.events

theorem push_suffix (e : DebugEvent) : (b.push e).events <:+ b.events ++ [e] :=
  (List.suffix_append_inj_of_length_eq rfl).2 ⟨List.drop_suffix _ _, rfl⟩

/-- The events that the next push drops. -/
def excess : List DebugEvent := b.events.take (b.events.length + 1 - b.capacity)

theorem mem_push {e : DebugEvent} (he : e ∈ b.events) (new : DebugEvent) :
    e ∈ b.excess ∨ e ∈ (b.push new).events := by
  have hsplit := List.take_append_drop (b.events.length + 1 - b.capacity) b.events
  rw [← hsplit, List.mem_append] at he
  exact he.imp_right fun h => List.mem_append_left _ h

end EventBuffer

/-! ## Waits -/

/-- Where a wait is. From its registration until it is over every push wakes it; when its time is up
and nothing has woken it, it looks for the last time. -/
inductive WaitStage
  | begun
  | registered (woken : Bool)
  | parked (woken : Bool)
  | expired
  | over (result : Option DebugEvent)
  deriving DecidableEq, Repr

structure EventWait where
  filter : List EventKind
  deadline : Nat
  stage : WaitStage := .begun
  deriving DecidableEq, Repr

namespace EventWait

def wake (w : EventWait) : EventWait :=
  match w.stage with
  | .registered _ => { w with stage := .registered true }
  | .parked _ => { w with stage := .parked true }
  | .begun | .expired | .over _ => w

/-- The next step of a wait, and what it leaves in the buffer. -/
def step (now : Nat) (b : EventBuffer) (w : EventWait) : EventWait × EventBuffer :=
  match w.stage with
  | .begun => ({ w with stage := .registered false }, b)
  | .registered woken =>
    match b.pop w.filter with
    | (some e, b) => ({ w with stage := .over (some e) }, b)
    | (none, b) => ({ w with stage := .parked woken }, b)
  | .parked true => ({ w with stage := .begun }, b)
  | .parked false => if w.deadline ≤ now then ({ w with stage := .expired }, b) else (w, b)
  | .expired =>
    let (found, b) := b.pop w.filter
    ({ w with stage := .over found }, b)
  | .over _ => (w, b)

/-- The wait is parked and has not been woken. -/
def Sleeps (w : EventWait) : Prop := w.stage = .parked false

def IsOver (w : EventWait) : Prop := ∃ result, w.stage = .over result

instance (w : EventWait) : Decidable w.Sleeps := inferInstanceAs (Decidable (_ = _))

variable {now : Nat} {b : EventBuffer} {w : EventWait}

theorem not_sleeps_wake (w : EventWait) : ¬w.wake.Sleeps := by
  simp only [Sleeps, wake]
  cases hstage : w.stage <;> simp [hstage]

theorem stage_wake_of_late {stage : WaitStage} (h : w.wake.stage = stage)
    (hlate : stage = .expired ∨ ∃ result, stage = .over result) : w.stage = stage := by
  simp only [wake] at h
  split at h
  · simp [← h] at hlate
  · simp [← h] at hlate
  all_goals exact h

theorem filter_wake (w : EventWait) : w.wake.filter = w.filter := by
  simp only [wake]
  split <;> rfl

theorem deadline_wake (w : EventWait) : w.wake.deadline = w.deadline := by
  simp only [wake]
  split <;> rfl

theorem filter_step (now : Nat) (b : EventBuffer) (w : EventWait) :
    (w.step now b).1.filter = w.filter := by
  simp only [step]
  repeat' split
  all_goals rfl

theorem deadline_step (now : Nat) (b : EventBuffer) (w : EventWait) :
    (w.step now b).1.deadline = w.deadline := by
  simp only [step]
  repeat' split
  all_goals rfl

/-- A wait that goes to sleep has just looked and left the buffer empty; one that sleeps already
sleeps on. -/
theorem sleeps_step (h : (w.step now b).1.Sleeps) :
    (w.Sleeps ∧ (w.step now b).2 = b) ∨
      (w.stage = .registered false ∧ (w.step now b).2.events = []) := by
  simp only [Sleeps, step] at h ⊢
  split at h
  · simp at h
  · next woken hstage =>
    have hnone := b.events_of_pop_eq_none w.filter
    split at h
    · simp at h
    · next b' hpop =>
      right
      rw [hpop] at hnone
      simp only [WaitStage.parked.injEq] at h
      exact ⟨hstage.trans (h ▸ rfl), by simpa [hpop] using hnone⟩
  · simp at h
  · next hstage =>
    split at h
    · simp at h
    · next hnow => exact .inl ⟨hstage, by simp [hnow]⟩
  · simp at h
  · next hstage => simp [hstage] at h

/-- Only a wait that sleeps until its deadline runs out of time. -/
theorem expired_step (h : (w.step now b).1.stage = .expired) :
    w.Sleeps ∧ w.deadline ≤ now := by
  simp only [step] at h
  split at h
  · simp at h
  · split at h <;> simp at h
  · simp at h
  · next hstage =>
    split at h
    · next hnow => exact ⟨hstage, hnow⟩
    · simp [hstage] at h
  · simp at h
  · next hstage => simp [hstage] at h

/-- A wait ends with the first event that passes in the buffer, and without one only if its time is
up. -/
theorem over_step {result : Option DebugEvent} (hbefore : ¬w.IsOver)
    (h : (w.step now b).1.stage = .over result) :
    result = (b.events.find? fun e => e.passes w.filter) ∧
      (result = none → w.stage = .expired) := by
  rw [← b.pop_eq_find? w.filter]
  simp only [step] at h
  split at h
  · simp at h
  · split at h
    · next e b' hpop =>
      rw [hpop]
      simp only [WaitStage.over.injEq] at h
      exact ⟨h.symm, fun hnone => by simp [hnone] at h⟩
    · simp at h
  · simp at h
  · next hstage =>
    split at h
    · simp at h
    · simp [hstage] at h
  · next hstage =>
    simp only [WaitStage.over.injEq] at h
    exact ⟨h.symm, fun _ => hstage⟩
  · next result hstage => exact absurd ⟨result, hstage⟩ hbefore

/-- As long as a wait goes on, it takes no event that passes. -/
theorem mem_step {e : DebugEvent} (hgoes : ¬(w.step now b).1.IsOver) (he : e ∈ b.events)
    (hpasses : e.passes w.filter) : e ∈ (w.step now b).2.events := by
  simp only [IsOver, step] at hgoes ⊢
  split
  · exact he
  · next hstage =>
    rw [hstage] at hgoes
    dsimp only at hgoes
    split at hgoes
    · simp at hgoes
    · next b' hpop =>
      have hnone := congrArg Prod.fst hpop
      rw [b.pop_eq_find?, List.find?_eq_none] at hnone
      exact absurd hpasses (hnone e he)
  · exact he
  · split <;> exact he
  · next hstage =>
    rw [hstage] at hgoes
    simp at hgoes
  · exact he

theorem step_of_isOver (h : w.IsOver) : w.step now b = (w, b) := by
  obtain ⟨result, hstage⟩ := h
  simp only [step, hstage]

theorem step_suffix (now : Nat) (b : EventBuffer) (w : EventWait) :
    (w.step now b).2.events <:+ b.events := by
  simp only [step]
  split
  · exact List.suffix_rfl
  · split
    · next e b' hpop =>
      have hb : b' = (b.poll 1 w.filter).2 := (congrArg Prod.snd hpop).symm
      rw [hb]
      exact b.poll_suffix w.filter 1
    · next b' hpop =>
      have hb : b' = (b.poll 1 w.filter).2 := (congrArg Prod.snd hpop).symm
      rw [hb]
      exact b.poll_suffix w.filter 1
  · exact List.suffix_rfl
  · split <;> exact List.suffix_rfl
  · exact b.poll_suffix w.filter 1
  · exact List.suffix_rfl

end EventWait

/-! ## The waiting room -/

structure WaitingRoom where
  buffer : EventBuffer
  now : Nat := 0
  waits : List EventWait := []

/-- What comes next: a wait begins or makes a step, an event is pushed and wakes all that are
registered, events are taken, or time passes. -/
inductive RoomMove
  | join (filter : List EventKind) (timeout : Nat)
  | go (n : Nat)
  | push (e : DebugEvent)
  | poll (limit : Nat) (filter : List EventKind)
  | clear
  | pass (time : Nat)
  deriving DecidableEq, Repr

namespace RoomMove

def pushed : RoomMove → List DebugEvent
  | push e => [e]
  | join .. | go _ | poll .. | clear | pass _ => []

/-- Besides the wait `n` nobody takes events. -/
def Leaves (n : Nat) : RoomMove → Prop
  | go m => m = n
  | poll .. | clear => False
  | join .. | push _ | pass _ => True

end RoomMove

namespace WaitingRoom

def step (r : WaitingRoom) : RoomMove → WaitingRoom
  | .join filter timeout => { r with waits := r.waits ++ [⟨filter, r.now + timeout, .begun⟩] }
  | .go n =>
    match r.waits[n]? with
    | none => r
    | some w =>
      let (w, buffer) := w.step r.now r.buffer
      { r with buffer, waits := r.waits.set n w }
  | .push e => { r with buffer := r.buffer.push e, waits := r.waits.map EventWait.wake }
  | .poll limit filter => { r with buffer := (r.buffer.poll limit filter).2 }
  | .clear => { r with buffer := r.buffer.clear }
  | .pass time => { r with now := r.now + time }

def run (r : WaitingRoom) (moves : List RoomMove) : WaitingRoom := moves.foldl step r

theorem run_snoc (r : WaitingRoom) (xs : List RoomMove) (x : RoomMove) :
    r.run (xs ++ [x]) = (r.run xs).step x := List.foldl_append

/-! ### What one move does -/

variable {r : WaitingRoom} {x : RoomMove} {n : Nat} {w w' : EventWait}

theorem step_go (h : r.waits[n]? = some w) :
    r.step (.go n) = { r with
      buffer := (w.step r.now r.buffer).2, waits := r.waits.set n (w.step r.now r.buffer).1 } := by
  simp only [step, h]

/-- A wait has just begun, or it makes a step, or a push wakes it, or it stays as it is. -/
inductive Next (r : WaitingRoom) (n : Nat) : RoomMove → EventWait → Prop
  | joins (filter : List EventKind) (timeout : Nat) (hn : n = r.waits.length) :
      Next r n (.join filter timeout) ⟨filter, r.now + timeout, .begun⟩
  | steps {w : EventWait} (hw : r.waits[n]? = some w) : Next r n (.go n) (w.step r.now r.buffer).1
  | woken {w : EventWait} (hw : r.waits[n]? = some w) (e : DebugEvent) : Next r n (.push e) w.wake
  | stays {w : EventWait} (hw : r.waits[n]? = some w) {x : RoomMove} (hgo : x ≠ .go n)
      (hpush : x.pushed = []) : Next r n x w

theorem next_of_step (h : (r.step x).waits[n]? = some w') : r.Next n x w' := by
  cases x with
  | join filter timeout =>
    simp only [step] at h
    by_cases hn : n < r.waits.length
    · rw [List.getElem?_append_left hn] at h
      exact .stays h nofun rfl
    · rw [List.getElem?_append_right (by omega), List.getElem?_singleton] at h
      split at h
      · next hzero =>
        obtain rfl := Option.some.inj h
        exact .joins filter timeout (by omega)
      · exact absurd h (by simp)
  | go m =>
    by_cases hm : m = n
    · subst hm
      cases hw : r.waits[m]? with
      | none =>
        simp only [step, hw] at h
        cases h
      | some w =>
        have hlength := (List.getElem?_eq_some_iff.1 hw).1
        rw [step_go hw] at h
        simp only [List.getElem?_set_self hlength, Option.some.injEq] at h
        exact h ▸ .steps hw
    · refine .stays ?_ (fun heq => hm (RoomMove.go.inj heq)) rfl
      simp only [step] at h
      split at h
      · exact h
      · rwa [List.getElem?_set_ne hm] at h
  | push e =>
    simp only [step, List.getElem?_map, Option.map_eq_some_iff] at h
    obtain ⟨w, hw, rfl⟩ := h
    exact .woken hw e
  | poll limit filter =>
    have hw : r.waits[n]? = some w' := h
    exact .stays hw nofun rfl
  | clear =>
    have hw : r.waits[n]? = some w' := h
    exact .stays hw nofun rfl
  | pass time =>
    have hw : r.waits[n]? = some w' := h
    exact .stays hw nofun rfl

/-- Events are taken at the front and put in at the back. -/
theorem events_step (r : WaitingRoom) (x : RoomMove) :
    (r.step x).buffer.events <:+ r.buffer.events ++ x.pushed := by
  cases x with
  | push e => exact r.buffer.push_suffix e
  | go n =>
    rw [RoomMove.pushed, List.append_nil]
    simp only [step]
    split
    · exact List.suffix_rfl
    · exact EventWait.step_suffix _ _ _
  | poll limit filter =>
    rw [RoomMove.pushed, List.append_nil]
    exact r.buffer.poll_suffix filter limit
  | clear => exact List.nil_suffix
  | join filter timeout => exact (List.append_nil _).symm ▸ List.suffix_rfl
  | pass time => exact (List.append_nil _).symm ▸ List.suffix_rfl

theorem length_step (r : WaitingRoom) (x : RoomMove) :
    r.waits.length ≤ (r.step x).waits.length := by
  cases x with
  | join filter timeout => simp [step]
  | go n =>
    simp only [step]
    split <;> simp
  | push e => simp [step]
  | poll limit filter => exact Nat.le_refl _
  | clear => exact Nat.le_refl _
  | pass time => exact Nat.le_refl _

/-! ### Runs -/

theorem events_run (r : WaitingRoom) (xs : List RoomMove) :
    (r.run xs).buffer.events <:+ r.buffer.events ++ xs.flatMap RoomMove.pushed := by
  induction xs using List.reverseRecOn with
  | nil => exact (List.append_nil _).symm ▸ List.suffix_rfl
  | append_singleton xs x ih =>
    rw [run_snoc, List.flatMap_append, List.flatMap_singleton, ← List.append_assoc]
    exact (events_step _ x).trans ((List.suffix_append_inj_of_length_eq rfl).2 ⟨ih, rfl⟩)

theorem length_run (r : WaitingRoom) (xs ys : List RoomMove) :
    (r.run xs).waits.length ≤ (r.run (xs ++ ys)).waits.length := by
  induction ys using List.reverseRecOn with
  | nil => rw [List.append_nil]
  | append_singleton ys y ih =>
    rw [← List.append_assoc, run_snoc]
    exact ih.trans (length_step _ y)

/-- After the moves `xs` the wait looks for the last time, leaves the buffer empty and falls asleep;
it sleeps through the moves `ys`, which push nothing. -/
structure FallsAsleep (r : WaitingRoom) (n : Nat) (xs ys : List RoomMove) : Prop where
  looks : (r.run xs).waits[n]?.map EventWait.stage = some (.registered false)
  empties : (r.run (xs ++ [.go n])).buffer.events = []
  quiet : ∀ y ∈ ys, y.pushed = []
  sleeps : ∀ zs, zs <+: ys →
    (r.run (xs ++ .go n :: zs)).waits[n]?.map EventWait.stage = some (.parked false)

namespace FallsAsleep

variable {xs ys : List RoomMove}

theorem snoc (h : FallsAsleep r n xs ys) (hx : x.pushed = [])
    (hw : (r.run (xs ++ .go n :: ys ++ [x])).waits[n]? = some w) (hsleeps : w.Sleeps) :
    FallsAsleep r n xs (ys ++ [x]) where
  looks := h.looks
  empties := h.empties
  quiet y hy := by
    rcases List.mem_append.1 hy with hy | hy
    · exact h.quiet y hy
    · exact List.mem_singleton.1 hy ▸ hx
  sleeps zs hzs := by
    rcases List.prefix_concat_iff.1 hzs with rfl | hzs
    · rw [← List.cons_append, ← List.append_assoc, hw, Option.map_some, hsleeps]
    · exact h.sleeps zs hzs

/-- While it sleeps the buffer is empty. -/
theorem empty (h : FallsAsleep r n xs ys) : (r.run (xs ++ .go n :: ys)).buffer.events = [] := by
  have hevents := events_run (r.run (xs ++ [.go n])) ys
  rw [h.empties, List.nil_append, List.flatMap_eq_nil_iff.2 h.quiet, List.suffix_nil] at hevents
  rwa [List.append_cons, run, List.foldl_append]

end FallsAsleep

variable {moves : List RoomMove}

theorem exists_fallsAsleep (hnew : r.waits = []) (hw : (r.run moves).waits[n]? = some w)
    (hsleeps : w.Sleeps) :
    ∃ xs ys, moves = xs ++ .go n :: ys ∧ FallsAsleep r n xs ys := by
  induction moves using List.reverseRecOn generalizing w with
  | nil => simp [run, hnew] at hw
  | append_singleton moves x ih =>
    -- a wait that slept before sleeps on if nothing is pushed
    have hon {v : EventWait} (hv : (r.run moves).waits[n]? = some v) (hvsleeps : v.Sleeps)
        (hx : x.pushed = []) :
        ∃ xs ys, moves ++ [x] = xs ++ .go n :: ys ∧ FallsAsleep r n xs ys := by
      obtain ⟨xs, ys, rfl, h⟩ := ih hv hvsleeps
      exact ⟨xs, ys ++ [x], by rw [List.append_assoc, List.cons_append], h.snoc hx hw hsleeps⟩
    have hnow := hw
    rw [run_snoc] at hnow
    cases next_of_step hnow with
    | joins filter timeout hn => exact absurd hsleeps (by simp [EventWait.Sleeps])
    | steps hv =>
      rcases EventWait.sleeps_step hsleeps with ⟨hvsleeps, -⟩ | ⟨hstage, hempty⟩
      · exact hon hv hvsleeps rfl
      · refine ⟨moves, [], rfl, by rw [hv, Option.map_some, hstage], ?_, nofun, ?_⟩
        · rw [run_snoc, step_go hv]
          exact hempty
        · intro zs hzs
          rw [List.prefix_nil.1 hzs, hw, Option.map_some, hsleeps]
    | woken hv e => exact absurd hsleeps (EventWait.not_sleeps_wake _)
    | stays hv hgo hpush => exact hon hv hsleeps hpush

theorem exists_expiry (hnew : r.waits = []) (hw : (r.run moves).waits[n]? = some w)
    (hstage : w.stage = .expired) :
    ∃ xs ys v, moves = xs ++ .go n :: ys ∧ (r.run xs).waits[n]? = some v ∧ v.Sleeps ∧
      w.deadline ≤ (r.run xs).now := by
  induction moves using List.reverseRecOn generalizing w with
  | nil => simp [run, hnew] at hw
  | append_singleton moves x ih =>
    have hbefore {v : EventWait} (hv : (r.run moves).waits[n]? = some v)
        (hvstage : v.stage = .expired) (hdeadline : w.deadline = v.deadline) :
        ∃ xs ys v, moves ++ [x] = xs ++ .go n :: ys ∧ (r.run xs).waits[n]? = some v ∧
          v.Sleeps ∧ w.deadline ≤ (r.run xs).now := by
      obtain ⟨xs, ys, u, rfl, h⟩ := ih hv hvstage
      exact ⟨xs, ys ++ [x], u, by rw [List.append_assoc, List.cons_append], hdeadline ▸ h⟩
    rw [run_snoc] at hw
    cases next_of_step hw with
    | joins filter timeout hn => simp at hstage
    | steps hv =>
      obtain ⟨hsleeps, hnow⟩ := EventWait.expired_step hstage
      exact ⟨moves, [], _, rfl, hv, hsleeps, by rwa [EventWait.deadline_step]⟩
    | woken hv e =>
      exact hbefore hv (EventWait.stage_wake_of_late hstage (.inl rfl)) (EventWait.deadline_wake _)
    | stays hv hgo hpush => exact hbefore hv hstage rfl

theorem exists_look {result : Option DebugEvent} (hnew : r.waits = [])
    (hw : (r.run moves).waits[n]? = some w) (hstage : w.stage = .over result) :
    ∃ xs ys v, moves = xs ++ .go n :: ys ∧ (r.run xs).waits[n]? = some v ∧ ¬v.IsOver ∧
      v.filter = w.filter ∧ v.deadline = w.deadline ∧
      (v.step (r.run xs).now (r.run xs).buffer).1.stage = .over result := by
  induction moves using List.reverseRecOn generalizing w with
  | nil => simp [run, hnew] at hw
  | append_singleton moves x ih =>
    have hbefore {v : EventWait} (hv : (r.run moves).waits[n]? = some v)
        (hvstage : v.stage = .over result) (hfilter : v.filter = w.filter)
        (hdeadline : v.deadline = w.deadline) :
        ∃ xs ys v, moves ++ [x] = xs ++ .go n :: ys ∧ (r.run xs).waits[n]? = some v ∧
          ¬v.IsOver ∧ v.filter = w.filter ∧ v.deadline = w.deadline ∧
          (v.step (r.run xs).now (r.run xs).buffer).1.stage = .over result := by
      obtain ⟨xs, ys, u, rfl, h⟩ := ih hv hvstage
      rw [hfilter, hdeadline] at h
      exact ⟨xs, ys ++ [x], u, by rw [List.append_assoc, List.cons_append], h⟩
    rw [run_snoc] at hw
    cases next_of_step hw with
    | joins filter timeout hn => simp at hstage
    | @steps v hv =>
      by_cases hover : v.IsOver
      · rw [EventWait.step_of_isOver hover] at hstage
        exact hbefore hv hstage (EventWait.filter_step _ _ v).symm
          (EventWait.deadline_step _ _ v).symm
      · exact ⟨moves, [], v, rfl, hv, hover, (EventWait.filter_step _ _ v).symm,
          (EventWait.deadline_step _ _ v).symm, hstage⟩
    | woken hv e =>
      exact hbefore hv (EventWait.stage_wake_of_late hstage (.inr ⟨result, rfl⟩))
        (EventWait.filter_wake _).symm (EventWait.deadline_wake _).symm
    | stays hv hgo hpush => exact hbefore hv hstage rfl rfl

/-- A push among the moves `ys` that come after the moves `xs` drops the event. -/
def Drops (r : WaitingRoom) (xs ys : List RoomMove) (e : DebugEvent) : Prop :=
  ∃ before d after, ys = before ++ .push d :: after ∧ e ∈ (r.run (xs ++ before)).buffer.excess

theorem Drops.snoc {xs ys : List RoomMove} {e : DebugEvent} (h : r.Drops xs ys e) (y : RoomMove) :
    r.Drops xs (ys ++ [y]) e := by
  obtain ⟨before, d, after, rfl, he⟩ := h
  exact ⟨before, d, after ++ [y], by rw [List.append_assoc, List.cons_append], he⟩

/-- As long as nobody but the wait itself takes events, an event it waits for stays until it is
dropped. -/
theorem mem_or_drops {xs ys : List RoomMove} (hn : n < (r.run xs).waits.length)
    (hw : (r.run (xs ++ ys)).waits[n]? = some w) (hgoes : ¬w.IsOver)
    (hleaves : ∀ y ∈ ys, y.Leaves n) {e : DebugEvent} (he : e ∈ (r.run xs).buffer.events)
    (hpasses : e.passes w.filter) :
    e ∈ (r.run (xs ++ ys)).buffer.events ∨ r.Drops xs ys e := by
  induction ys using List.reverseRecOn generalizing w with
  | nil => exact .inl (by rwa [List.append_nil])
  | append_singleton ys y ih =>
    rw [← List.append_assoc, run_snoc] at hw ⊢
    have hbefore {v : EventWait} (hv : (r.run (xs ++ ys)).waits[n]? = some v)
        (hvgoes : ¬v.IsOver) (hfilter : v.filter = w.filter) :
        e ∈ (r.run (xs ++ ys)).buffer.events ∨ r.Drops xs ys e :=
      ih hv hvgoes (fun y' hy' => hleaves y' (List.mem_append_left _ hy')) (hfilter ▸ hpasses)
    have hy := hleaves y (List.mem_append_right _ (List.mem_singleton_self y))
    cases next_of_step hw with
    | joins filter timeout hlength =>
      have := r.length_run xs ys
      omega
    | @steps v hv =>
      have hvgoes : ¬v.IsOver := fun hover => hgoes (by rwa [EventWait.step_of_isOver hover])
      refine (hbefore hv hvgoes (EventWait.filter_step _ _ v).symm).imp (fun hmem => ?_)
        fun h => h.snoc _
      rw [step_go hv]
      exact EventWait.mem_step hgoes hmem (EventWait.filter_step _ _ v ▸ hpasses)
    | @woken v hv d =>
      have hvgoes : ¬v.IsOver := by
        rintro ⟨result, hstage⟩
        exact hgoes ⟨result, by simp [EventWait.wake, hstage]⟩
      rcases hbefore hv hvgoes (EventWait.filter_wake v).symm with hmem | hdrops
      · rcases EventBuffer.mem_push _ hmem d with hexcess | hmem
        · exact .inr ⟨ys, d, [], rfl, hexcess⟩
        · exact .inl hmem
      · exact .inr (hdrops.snoc _)
    | stays hv hgo hpush =>
      refine (hbefore hv hgoes rfl).imp (fun hmem => ?_) fun h => h.snoc _
      cases y with
      | join filter timeout => exact hmem
      | pass time => exact hmem
      | go m => exact absurd (congrArg RoomMove.go hy) hgo
      | push d => cases hpush
      | poll limit filter => exact hy.elim
      | clear => exact hy.elim

/-- After the moves `xs` the wait looks for the last time. It answers with the first event in the
buffer that passes; without one it has slept until its deadline, when the buffer was empty. Of the
events that passed while nobody else took any, it misses only those that a push dropped. -/
structure Answers (r : WaitingRoom) (n : Nat) (xs : List RoomMove) (w : EventWait)
    (result : Option DebugEvent) : Prop where
  waits : ∃ v, (r.run xs).waits[n]? = some v ∧ ¬v.IsOver
  first : result = (r.run xs).buffer.events.find? fun e => e.passes w.filter
  inOrder : (r.run xs).buffer.events <:+ r.buffer.events ++ xs.flatMap RoomMove.pushed
  expires : result = none → ∃ zs ys v, xs = zs ++ .go n :: ys ∧ (r.run zs).waits[n]? = some v ∧
    v.Sleeps ∧ w.deadline ≤ (r.run zs).now ∧ (r.run zs).buffer.events = []
  keeps : ∀ zs ys, xs = zs ++ ys → n < (r.run zs).waits.length → (∀ y ∈ ys, y.Leaves n) →
    ∀ e ∈ (r.run zs).buffer.events, e.passes w.filter →
      e ∈ (r.run xs).buffer.events ∨ r.Drops zs ys e

theorem answers {result : Option DebugEvent} {xs : List RoomMove} {v : EventWait}
    (hnew : r.waits = []) (hv : (r.run xs).waits[n]? = some v) (hgoes : ¬v.IsOver)
    (hfilter : v.filter = w.filter) (hdeadline : v.deadline = w.deadline)
    (hstage : (v.step (r.run xs).now (r.run xs).buffer).1.stage = .over result) :
    Answers r n xs w result where
  waits := ⟨v, hv, hgoes⟩
  first := hfilter ▸ (EventWait.over_step hgoes hstage).1
  inOrder := r.events_run xs
  expires hnone := by
    have hexpired := (EventWait.over_step hgoes hstage).2 hnone
    obtain ⟨zs, ys, u, rfl, hu, hsleeps, hnow⟩ := exists_expiry hnew hv hexpired
    obtain ⟨as, bs, rfl, hasleep⟩ := exists_fallsAsleep hnew hu hsleeps
    exact ⟨_, ys, u, rfl, hu, hsleeps, hdeadline ▸ hnow, hasleep.empty⟩
  keeps zs ys hsplit hn hleaves e he hpasses := by
    subst hsplit
    exact mem_or_drops hn hv hgoes hleaves he (hfilter ▸ hpasses)

def opened (buffer : EventBuffer) (now : Nat) : WaitingRoom := { buffer, now }

/-- No wake-up is lost. A wait that sleeps has seen an empty buffer when it last looked, and nothing
was pushed since; one that is over has answered as it should. -/
theorem no_wake_up_lost (buffer : EventBuffer) (now : Nat) (moves : List RoomMove) (n : Nat)
    (w : EventWait) (hw : ((opened buffer now).run moves).waits[n]? = some w) :
    (w.Sleeps → ∃ xs ys, moves = xs ++ .go n :: ys ∧ FallsAsleep (opened buffer now) n xs ys ∧
      ((opened buffer now).run moves).buffer.events = []) ∧
    ∀ result, w.stage = .over result → ∃ xs ys, moves = xs ++ .go n :: ys ∧
      Answers (opened buffer now) n xs w result := by
  constructor
  · intro hsleeps
    obtain ⟨xs, ys, rfl, h⟩ := exists_fallsAsleep rfl hw hsleeps
    exact ⟨xs, ys, rfl, h, h.empty⟩
  · intro result hstage
    obtain ⟨xs, ys, v, rfl, hv, hgoes, hfilter, hdeadline, hover⟩ := exists_look rfl hw hstage
    exact ⟨xs, ys, rfl, answers rfl hv hgoes hfilter hdeadline hover⟩

/-- A thread starts while two wait, and the wait that it does not wake takes the event. -/
def rivals : List RoomMove :=
  [.join [.vmDeath] 5, .join [] 9, .go 0, .push ⟨1, 0, "s", .threadStart 7 "worker"⟩, .go 1, .go 1,
    .go 0, .go 0, .go 0, .go 0]

theorem no_wake_up_lost_rivals :
    (∃ xs ys, rivals = xs ++ .go 0 :: ys ∧ FallsAsleep (opened (.empty 2) 0) 0 xs ys ∧
      ((opened (.empty 2) 0).run rivals).buffer.events = []) ∧
    ∃ xs ys, rivals = xs ++ .go 1 :: ys ∧ Answers (opened (.empty 2) 0) 1 xs
      ⟨[], 9, .over (some ⟨1, 0, "s", .threadStart 7 "worker"⟩)⟩
      (some ⟨1, 0, "s", .threadStart 7 "worker"⟩) := by
  have hfirst : ((opened (.empty 2) 0).run rivals).waits[0]? =
      some ⟨[.vmDeath], 5, .parked false⟩ := by rfl
  have hsecond : ((opened (.empty 2) 0).run rivals).waits[1]? =
      some ⟨[], 9, .over (some ⟨1, 0, "s", .threadStart 7 "worker"⟩)⟩ := by rfl
  exact ⟨(no_wake_up_lost _ 0 rivals 0 _ hfirst).1 rfl,
    (no_wake_up_lost _ 0 rivals 1 _ hsecond).2 _ rfl⟩

end WaitingRoom

/-! ## The waiter of a simulation -/

namespace EventWait

def result? (w : EventWait) : Option (Option DebugEvent) :=
  match w.stage with
  | .over result => some result
  | .begun | .registered _ | .parked _ | .expired => none

end EventWait

namespace EventBuffer

theorem pop_of_nil (b : EventBuffer) (filter : List EventKind) (h : b.events = []) :
    b.pop filter = (none, b) := by
  obtain ⟨capacity, events, dropped⟩ := b
  subst h
  rfl

end EventBuffer

namespace WaitingRoom

/-- A wait on its own that has as many turns as it can use. -/
def attended (buffer : EventBuffer) (now : Nat) (w : EventWait) : WaitingRoom :=
  WaitingRoom.run { buffer, now, waits := [w] } (List.replicate 4 (.go 0))

theorem attended_eq (b : EventBuffer) (now : Nat) (filter : List EventKind) (deadline : Nat) :
    attended b now ⟨filter, deadline, .begun⟩ = { buffer := (b.pop filter).2, now, waits :=
      [⟨filter, deadline, if (b.pop filter).1.isSome || deadline ≤ now then .over (b.pop filter).1
        else .parked false⟩] } := by
  have hempty := b.events_of_pop_eq_none filter
  rcases hpop : b.pop filter with ⟨found, b'⟩
  rw [hpop] at hempty
  have hagain : found = none → b'.pop filter = (none, b') :=
    fun hnone => b'.pop_of_nil filter (hempty hnone)
  simp only [attended, List.replicate, run, List.foldl, step, List.getElem?_cons_zero,
    EventWait.step, List.set_cons_zero, hpop]
  cases found with
  | some e => simp
  | none =>
    by_cases hnow : deadline ≤ now
    · simp [hnow, hagain rfl]
    · simp [hnow]

end WaitingRoom

/-- When everybody does what can be done without waiting, the waiter has its turns. -/
theorem Simulation.checkWaiter_eq_attended (w : Simulation) (v : Waiter) (hv : w.waiter = some v)
    (hopen : v.result = none) :
    let room := WaitingRoom.attended (w.session v.session).events w.now
      ⟨v.filter, v.deadline, .begun⟩
    w.checkWaiter = { w with
      registry := w.registry.setSession v.session
        { w.session v.session with events := room.buffer }
      waiter := some { v with
        result := (room.waits.head?.bind EventWait.result?).map (·, w.now - v.start) } } := by
  simp only [WaitingRoom.attended_eq, checkWaiter, hv, hopen, Session.pop, List.head?_cons,
    Option.bind_some, Option.isSome_none, Bool.false_eq_true, if_false]
  by_cases hdone : ((w.session v.session).events.pop v.filter).1.isSome || v.deadline ≤ w.now
  · simp [hdone, EventWait.result?]
  · have hstays : { v with result := none } = v := by rw [← hopen]
    simp [hdone, EventWait.result?, hstays]

end JvmDebug
