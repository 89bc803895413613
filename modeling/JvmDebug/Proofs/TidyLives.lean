import JvmDebug.Proofs.SessionStates
import JvmDebug.Proofs.TidyTables
import Mathlib.Algebra.BigOperators.Group.Finset.Piecewise

/-!
The tables of a session stay in order over its whole life. Whatever steps in between the steps of
an operation, an id that it has drawn stays its own until it is in a table:
`Lifetime.inOrder_run`.
-/
namespace JvmDebug

open Routine

/-! ## Routines that hold something -/

namespace Routine
variable {ι : Type} {ρ : ι → Type} {σ M α β : Type} [Add M] {Inv : M → σ → Prop}

/-- Every step of the routine keeps the invariant, whatever happens between its steps. At first it
holds `h`, and what it holds in the end is in `Q`. -/
def Upholds (Inv : M → σ → Prop) (Q : α → M → Prop) : Routine ι ρ σ α → M → Prop
  | done a, h => Q a h
  | request _ k, h => ∀ r, (k r).Upholds Inv Q h
  | update f k, h => ∀ rest s, Inv (h + rest) s →
    ∃ h', Inv (h' + rest) (f s) ∧ (k s).Upholds Inv Q h'

theorem Upholds.mono {Q R : α → M → Prop} (hQR : ∀ a h, Q a h → R a h) {m : Routine ι ρ σ α} {h : M}
    (hm : m.Upholds Inv Q h) : m.Upholds Inv R h := by
  induction m generalizing h with
  | done a => exact hQR a h hm
  | request i k ih => exact fun r => ih r (hm r)
  | update f k ih =>
    intro rest s hinv
    obtain ⟨h', hinv', hk⟩ := hm rest s hinv
    exact ⟨h', hinv', ih s hk⟩

theorem upholds_bind {Q : β → M → Prop} {m : Routine ι ρ σ α} {g : α → Routine ι ρ σ β} {h : M}
    (hm : m.Upholds Inv (fun a => (g a).Upholds Inv Q) h) : (bind m g).Upholds Inv Q h := by
  induction m generalizing h with
  | done a => exact hm
  | request i k ih => exact fun r => ih r (hm r)
  | update f k ih =>
    intro rest s hinv
    obtain ⟨h', hinv', hk⟩ := hm rest s hinv
    exact ⟨h', hinv', ih s hk⟩

theorem upholds_of_within {P : ι → Prop} {U : σ → σ → Prop} {Q : α → M → Prop}
    (hU : ∀ s t, U s t → ∀ k, Inv k s → Inv k t) {m : Routine ι ρ σ α} (hm : m.Within P U) {h : M}
    (hQ : ∀ a, Q a h) : m.Upholds Inv Q h := by
  induction m with
  | done a => exact hQ a
  | request i k ih => exact fun r => ih r (hm.2 r)
  | update f k ih => exact fun rest s hinv => ⟨h, hU _ _ (hm s).1 _ hinv, ih s (hm s).2⟩

theorem Upholds.tick {Q : α → M → Prop} {m : Routine ι ρ σ α} {h rest : M} {s : σ}
    (hm : m.Upholds Inv Q h) (hinv : Inv (h + rest) s) (reply : (i : ι) → ρ i) :
    ∃ h', Inv (h' + rest) (m.tick reply s).2 ∧ (m.tick reply s).1.Upholds Inv Q h' := by
  cases m with
  | done a => exact ⟨h, hinv, hm⟩
  | request i k => exact ⟨h, hinv, hm _⟩
  | update f k => exact hm rest s hinv

/-- Whatever it ends with. -/
abbrev Stands (Inv : M → σ → Prop) (m : Routine ι ρ σ α) (h : M) : Prop :=
  m.Upholds Inv (fun _ _ => True) h

end Routine

section
variable {ε σ M α β : Type} [Add M] {Inv : M → σ → Prop} {h : M}

theorem upholds_op_bind {m : Op ε σ α} {g : α → Op ε σ β} {Q : Except ε β → M → Prop}
    (hm : m.run.Upholds Inv (fun
      | .ok a => (g a).run.Upholds Inv Q
      | .error e => Q (.error e)) h) : (m >>= g).run.Upholds Inv Q h := by
  rw [Op.run_bind]
  refine upholds_bind (hm.mono fun r h hr => ?_)
  cases r <;> exact hr

theorem upholds_state {Q : Except ε σ → M → Prop} (hQ : ∀ s, Q (.ok s) h) :
    (Op.state : Op ε σ σ).run.Upholds Inv Q h :=
  fun _ s hinv => ⟨h, hinv, hQ s⟩

theorem upholds_updateGet {f : σ → α × σ} {Q : Except ε α → M → Prop}
    (hstep : ∀ rest s, Inv (h + rest) s → ∃ h', Inv (h' + rest) (f s).2 ∧ Q (.ok (f s).1) h') :
    (Op.updateGet f : Op ε σ α).run.Upholds Inv Q h := hstep

theorem upholds_update {f : σ → σ} {Q : Except ε Unit → M → Prop} (h' : M)
    (hstep : ∀ rest s, Inv (h + rest) s → Inv (h' + rest) (f s)) (hQ : Q (.ok ()) h') :
    (Op.update f : Op ε σ Unit).run.Upholds Inv Q h :=
  fun rest s hinv => ⟨h', hstep rest s hinv, hQ⟩

theorem upholds_call {c : Call} {Q : Except DebugError c.Answer → M → Prop} (hQ : ∀ r, Q r h) :
    (Op.call c : Op DebugError σ c.Answer).run.Upholds Inv Q h := fun _ => hQ _

theorem stands_failure {m : Op DebugError σ α} (hm : m.run.Stands Inv h) :
    m.failure?.Stands Inv h := by
  refine upholds_bind (hm.mono fun r h _ => ?_)
  cases r <;> trivial

end

/-! ## Ids that a session has drawn -/

/-- As long as ids do not come round, the tables are in order, and these ids are on their way. -/
def Session.Holding (start : Nat) (names : Multiset String) (s : Session) : Prop :=
  s.IdsDiffer start → s.InOrder start names

abbrev Routine.Trimming {α : Type} (m : Task Session α) : Prop :=
  m.Within (fun _ => True) Session.Trims

section
variable {α : Type} {start : Nat} {h : Multiset String} {s t : Session}

theorem Session.Holding.trims (hs : s.Holding start h) (hst : s.Trims t) : t.Holding start h :=
  fun hdiffer => (hs (hdiffer.of_trims hst)).trims hst

/-- An id that was on its way is in a table now. -/
theorem Session.Holding.join {rest : Multiset String} {id : String}
    (hs : s.Holding start (id ::ₘ h + rest)) (hids : t.ids = s.ids)
    (hjoin : ∀ names, s.InOrder start (id ::ₘ names) → t.InOrder start names) :
    t.Holding start (h + rest) := by
  intro hdiffer
  have horder := hs (hdiffer.of_eq hids)
  rw [Multiset.cons_add] at horder
  exact hjoin _ horder

theorem upholds_trimming {Q : α → Multiset String → Prop} {m : Task Session α} (hm : Trimming m)
    (hQ : ∀ a, Q a h) : m.Upholds (Session.Holding start) Q h :=
  upholds_of_within (fun _ _ hst _ hs => hs.trims hst) hm hQ

theorem stands_trimming {m : Task Session α} (hm : Trimming m) :
    m.Stands (Session.Holding start) h := upholds_trimming hm fun _ => trivial

theorem Routine.Inspects.trimming {m : Task Session α} (hm : Inspects m) : Trimming m :=
  hm.mono (fun _ _ => trivial) fun _ _ hf => hf.elim

theorem Routine.Looks.trimming {m : Task Session α} (hm : Looks m) : Trimming m :=
  hm.mono (fun _ _ => trivial) fun _ _ hst => hst.trims

end

namespace Session
variable {start : Nat} {h : Multiset String}

/-! ### Adding -/

theorem stands_getBreakpoint (id : String) :
    (getBreakpoint id).run.Stands (Holding start) h :=
  stands_trimming (within_getBreakpoint (fun _ => .rfl) id)

theorem stands_addPending (b : Breakpoint) :
    (addPending b).run.Stands (Holding start) (b.id ::ₘ h) := by
  have hjoin (watch : RequestId) (rest : Multiset String) (s : Session)
      (hs : s.Holding start (b.id ::ₘ h + rest)) :
      { s with breakpoints := s.breakpoints.insertPending b watch }.Holding start (h + rest) :=
    hs.join rfl fun _ horder => horder.insertPending watch
  refine upholds_op_bind (upholds_state fun s => ?_)
  dsimp only
  split
  · exact upholds_op_bind (upholds_update h (hjoin _) (stands_getBreakpoint b.id))
  · refine upholds_op_bind (upholds_call (c := .createClassPrepareWatch b.className) fun r => ?_)
    cases r with
    | error e => trivial
    | ok watch =>
      refine upholds_op_bind (upholds_update h (hjoin watch) ?_)
      refine upholds_op_bind (upholds_state fun s => ?_)
      dsimp only
      split
      · exact upholds_op_bind fun _ => stands_getBreakpoint b.id
      · exact stands_getBreakpoint b.id

theorem holding_freshId {rest : Multiset String} {s : Session} (hs : s.Holding start (h + rest)) :
    s.freshId.2.Holding start (s.freshId.1 ::ₘ h + rest) := by
  intro hdiffer
  rw [Multiset.cons_add]
  exact (hs (hdiffer.of_trims s.trims_freshId)).freshId hdiffer

theorem upholds_freshId {Q : Except DebugError String → Multiset String → Prop}
    (hQ : ∀ id, Q (.ok id) (id ::ₘ h)) :
    (Op.updateGet freshId : Op DebugError Session String).run.Upholds (Holding start) Q h :=
  upholds_updateGet fun _ s hs => ⟨s.freshId.1 ::ₘ h, holding_freshId hs, hQ _⟩

theorem stands_addBreakpoint (className : String) (kind : BreakpointKind)
    (condition : Option String) :
    (addBreakpoint className kind condition).run.Stands (Holding start) h := by
  refine upholds_op_bind (upholds_trimming (within_reach fun _ => .rfl) fun r => ?_)
  cases r with
  | error e => trivial
  | ok _ =>
    refine upholds_op_bind (upholds_freshId fun id => upholds_op_bind (upholds_state fun s => ?_))
    refine upholds_op_bind (upholds_call (c := .classesByName className) fun r => ?_)
    cases r with
    | error e => trivial
    | ok classes =>
      dsimp only
      split
      · exact stands_addPending _
      · refine upholds_op_bind
          (upholds_trimming (inspects_resolveLocations _ _).trimming fun r => ?_)
        cases r with
        | error e => trivial
        | ok locations =>
          dsimp only
          split
          · trivial
          · refine upholds_op_bind (upholds_trimming
              (within_install (fun _ _ => trivial) [] locations) fun r => ?_)
            cases r with
            | error e => trivial
            | ok requests =>
              exact upholds_op_bind (upholds_update h (fun rest s hs =>
                hs.join rfl fun _ horder => horder.insertInstalled requests)
                (stands_getBreakpoint id))

theorem stands_makeException (className : String) (scope : Option TypeId) (caught uncaught : Bool) :
    (makeException className scope caught uncaught).run.Stands (Holding start) h := by
  refine upholds_op_bind
    (upholds_call (c := .createExceptionRequest scope caught uncaught) fun r => ?_)
  cases r with
  | error e => trivial
  | ok request =>
    refine upholds_op_bind (upholds_freshId fun id => upholds_op_bind (upholds_state fun s => ?_))
    exact upholds_op_bind (upholds_update h (fun rest s hs =>
      hs.join rfl fun _ horder => horder.insertException request) trivial)

theorem stands_addExceptionBreakpoint (className : String) (caught uncaught : Bool) :
    (addExceptionBreakpoint className caught uncaught).run.Stands (Holding start) h := by
  rw [addExceptionBreakpoint_eq]
  refine upholds_op_bind (upholds_trimming (within_reach fun _ => .rfl) fun r => ?_)
  cases r with
  | error e => trivial
  | ok _ =>
    dsimp only
    split
    · exact stands_makeException _ _ _ _
    · refine upholds_op_bind (upholds_call (c := .classesByName className) fun r => ?_)
      cases r with
      | error e => trivial
      | ok classes => exact stands_makeException _ _ _ _

end Session

/-! ### What adds nothing -/

theorem trimming_step (t : Option ThreadId) (depth : StepDepth) (size : StepSize) :
    Trimming (Session.step t depth size).run :=
  Session.within_step (fun _ => trivial) (fun _ => trivial) (fun _ => trivial) (fun _ => .rfl)
    (fun _ _ => .of_eq rfl rfl rfl) Session.looks_letRun.trimming

theorem trimming_connect (origin : Origin) (description : String) :
    Trimming (Session.connect origin description).failure? := by
  rw [Session.connect_eq_join]
  have hlast : Trimming (.update (Session.takeOver origin description) fun _ =>
      .done (none : Option DebugError)) := by
    refine fun s => ⟨?_, trivial⟩
    simp only [Session.takeOver, Session.enter]
    split <;> exact .of_eq rfl rfl rfl
  refine fun s => ⟨.rfl, ?_⟩
  dsimp only
  split
  · simp only [Session.join]
    split
    · refine ⟨trivial, fun reply => ?_⟩
      cases reply with
      | ok requests => exact fun s => ⟨.of_eq rfl rfl rfl, hlast⟩
      | error e => exact hlast
    · exact hlast
  · trivial

theorem trimming_letGo : Trimming Session.letGo := by
  refine within_bind ?_ fun _ => trivial
  exact Session.within_finishClose trivial (fun _ => .rfl) fun s => (s.sameTables_enter _).trims

theorem trimming_handleEvent (e : TargetEvent) : Trimming (Session.handleEvent e) := by
  cases e with
  | classPrepare request t c =>
    refine within_bind ?_ fun _ => trivial
    exact Session.within_classLoaded (fun _ _ => trivial) Session.trims_bookRequests
      (fun _ => .rfl) Session.trims_takePending c
  | _ =>
    exact Session.within_handleEvent nofun (fun _ _ => trivial) (fun _ => trivial)
      (fun _ _ h => h.trims) Session.trims_recordHit

theorem trimming_handleReading (r : Reading) : Trimming (Session.handleReading r) :=
  Session.within_handleReading trimming_handleEvent (fun _ => trivial)
    (fun s => s.quiet_disconnected.trims) r

/-! ### Everything a user asks for -/

section
variable {start : Nat} {h : Multiset String}

theorem stands_operation (o : Operation) : o.task.Stands (Session.Holding start) h := by
  cases o with
  | addBreakpoint className kind condition =>
    exact stands_failure (Session.stands_addBreakpoint className kind condition)
  | addException className caught uncaught =>
    exact stands_failure (Session.stands_addExceptionBreakpoint className caught uncaught)
  | setEnabled id enabled =>
    exact stands_trimming (Op.within_failure (Session.within_setEnabled (fun _ _ => trivial)
      (fun _ => .rfl) (Session.trims_storeEnabled id enabled)))
  | remove id =>
    exact stands_trimming (Op.within_failure (Session.within_removeBreakpoint (fun _ => trivial)
      (fun _ => .rfl) (Session.trims_takeOut id)))
  | clear =>
    exact stands_trimming (within_bind (Session.within_clearBreakpoints (fun _ => trivial)
      (fun _ => .rfl) Session.trims_takeAll) fun _ => trivial)
  | resume | suspend | resumeThread | suspendThread => exact stands_trimming (looks_runs rfl).trimming
  | step t depth size => exact stands_trimming (Op.within_failure (trimming_step t depth size))

end

/-! ## Lives -/

/-- Whatever the flight does from here on, the ids that it has drawn stay its own. -/
def FlightStage.Stands (start : Nat) (h : Multiset String) : FlightStage → Prop
  | .closing | .waiting => True
  | .working task => task.Stands (Session.Holding start) h

def LoopStage.Trims : LoopStage → Prop
  | .handling task => Trimming task
  | .unborn | .waiting | .over => True

section
variable {start : Nat} {h : Multiset String}

theorem stands_letGo : (FlightStage.working Session.letGo).Stands start h :=
  stands_trimming trimming_letGo

theorem Demand.stands_stage (d : Demand) : d.stage.Stands start h := by
  cases d with
  | connect origin description => exact stands_trimming (trimming_connect origin description)
  | operation o => exact stands_operation o
  | errand e =>
    cases e with
    | close => trivial
    | _ => exact stands_trimming (looks_errand _).trimming

end

namespace Lifetime

/-- Each flight holds ids of its own, and the event loop holds none. -/
structure Upheld (start : Nat) (c : Lifetime) : Prop where
  flights : ∃ held : Nat → Multiset String,
    (∀ (n : Nat) (f : Flight), c.flights[n]? = some f → f.stage.Stands start (held n)) ∧
    c.session.Holding start (∑ n ∈ Finset.range c.flights.length, held n)
  loop : c.loop.Trims

variable {start : Nat} {c c' : Lifetime}

theorem upheld_born (id : String) (settings : SessionConfig) (createdAt : UInt64)
    (ids : IdSupply) : (born id settings createdAt ids).Upheld ids.next := by
  refine ⟨⟨fun _ => 0, fun n f hf => ?_, fun _ => ?_⟩, trivial⟩
  · cases hf
  · exact .of_new id settings createdAt ids

theorem Upheld.trims (hc : c.Upheld start) (hflights : c'.flights = c.flights)
    (hsession : c.session.Trims c'.session) (hloop : c'.loop.Trims) : c'.Upheld start := by
  obtain ⟨held, hheld, hholding⟩ := hc.flights
  refine ⟨⟨held, ?_, ?_⟩, hloop⟩
  · rwa [hflights]
  · rw [hflights]
    exact hholding.trims hsession

theorem Upheld.begin (hc : c.Upheld start) (d : Demand) :
    Upheld start { c with flights := c.flights ++ [⟨d, d.stage⟩] } := by
  obtain ⟨held, hheld, hholding⟩ := hc.flights
  refine ⟨⟨Function.update held c.flights.length 0, fun n f hf => ?_, ?_⟩, hc.loop⟩
  · by_cases hlt : n < c.flights.length
    · rw [Function.update_of_ne hlt.ne]
      rw [List.getElem?_append_left hlt] at hf
      exact hheld n f hf
    · rw [List.getElem?_append_right (not_lt.1 hlt), List.getElem?_singleton] at hf
      obtain rfl := Option.some.inj (Option.ite_none_right_eq_some.1 hf).2
      exact d.stands_stage
  · rw [List.length_append, List.length_singleton, Finset.sum_range_succ, Function.update_self,
      add_zero, Finset.sum_update_of_notMem Finset.notMem_range_self]
    exact hholding

/-- The step of a flight, which may exchange the ids that it holds for others. -/
theorem Upheld.change {n : Nat} {f g : Flight} (hc : c.Upheld start)
    (hn : c.flights[n]? = some f) (hflights : c'.flights = c.flights.set n g)
    (hstep : ∀ h rest, f.stage.Stands start h → c.session.Holding start (h + rest) →
      ∃ h', g.stage.Stands start h' ∧ c'.session.Holding start (h' + rest))
    (hloop : c'.loop.Trims) : c'.Upheld start := by
  obtain ⟨held, hheld, hholding⟩ := hc.flights
  have hmem : n ∈ Finset.range c.flights.length :=
    Finset.mem_range.2 (List.getElem?_eq_some_iff.1 hn).1
  rw [Finset.sum_eq_add_sum_sdiff_singleton_of_mem hmem] at hholding
  obtain ⟨h', hstands, hholding'⟩ := hstep _ _ (hheld n f hn) hholding
  refine ⟨⟨Function.update held n h', fun m e he => ?_, ?_⟩, hloop⟩
  · rw [hflights] at he
    by_cases hm : m = n
    · subst hm
      rw [List.getElem?_set_self (Finset.mem_range.1 hmem)] at he
      cases he
      rwa [Function.update_self]
    · rw [List.getElem?_set_ne (Ne.symm hm)] at he
      rw [Function.update_of_ne hm]
      exact hheld m e he
  · rw [hflights, List.length_set, Finset.sum_update_of_mem hmem]
    exact hholding'

theorem Upheld.work {n : Nat} {f : Flight} {task : Task Session (Option DebugError)}
    (hc : c.Upheld start) (hn : c.flights[n]? = some f) (hstage : f.stage = .working task)
    (reply : Replies) : (c.work n f task reply).Upheld start := by
  have hloop : (c.work n f task reply).loop.Trims := by
    simp only [Lifetime.work, setStage]
    split
    · simp only [passLock]
      split
      · trivial
      · exact hc.loop
    · exact hc.loop
  have hsession : (c.work n f task reply).session = (task.tick reply c.session).2 := by
    simp only [Lifetime.work, setStage]
    split <;> rfl
  have hflights : (c.work n f task reply).flights =
      c.flights.set n { f with stage := .working (task.tick reply c.session).1 } := by
    simp only [Lifetime.work, setStage]
    split <;> rfl
  refine hc.change hn hflights (fun h rest hstands hholding => ?_) hloop
  rw [hstage] at hstands
  obtain ⟨h', hholding', hstands'⟩ := Upholds.tick hstands hholding reply
  exact ⟨h', hstands', hsession ▸ hholding'⟩

theorem Upheld.go {n : Nat} {f : Flight} (hc : c.Upheld start) (hn : c.flights[n]? = some f)
    (reply : Replies) : (c.go n f reply).Upheld start := by
  simp only [Lifetime.go]
  split
  · refine hc.change hn rfl (fun h rest _ hholding => ⟨h, ?_, ?_⟩) hc.loop
    · dsimp only
      split
      · trivial
      · exact stands_letGo
    · exact hholding.trims (.of_eq rfl rfl rfl)
  · split
    · exact hc.change hn rfl (fun h rest _ hholding => ⟨h, stands_letGo, hholding⟩) hc.loop
    all_goals exact hc
  · next hstage =>
    split
    · exact hc
    · exact hc.work hn hstage reply

theorem Upheld.handle {task : Task Session Bool} (hc : c.Upheld start)
    (hloop : c.loop = .handling task) (reply : Replies) : (c.handle task reply).Upheld start := by
  have htask : Trimming task := by
    have h := hc.loop
    rwa [hloop] at h
  simp only [Lifetime.handle]
  split
  · exact hc.trims rfl .rfl trivial
  · exact hc.trims rfl .rfl trivial
  · obtain ⟨htrims, hnext⟩ := htask.tick (fun _ => .rfl) reply c.session
    exact hc.trims rfl htrims hnext

theorem Upheld.step (hc : c.Upheld start) (x : Turn) : (c.step x).Upheld start := by
  cases x with
  | begin d => exact hc.begin d
  | go n reply =>
    simp only [Lifetime.step]
    split
    · exact hc
    · next hn => exact hc.go hn reply
  | read r =>
    simp only [Lifetime.step]
    split
    · exact hc.trims rfl .rfl (trimming_handleReading r)
    all_goals exact hc
  | handle reply =>
    simp only [Lifetime.step]
    split
    · next hloop => exact hc.handle hloop reply
    all_goals exact hc
  | stop =>
    simp only [Lifetime.step]
    split
    · split
      · exact hc.trims rfl .rfl trivial
      · exact hc
    all_goals exact hc

theorem upheld_run (id : String) (settings : SessionConfig) (createdAt : UInt64) (ids : IdSupply)
    (turns : List Turn) : ((born id settings createdAt ids).run turns).Upheld ids.next := by
  induction turns using List.reverseRecOn with
  | nil => exact upheld_born id settings createdAt ids
  | append_singleton turns x ih =>
    rw [run_snoc]
    exact ih.step x

/-- However a session has lived so far, its tables are in order, as long as the ids that it draws
differ. -/
theorem inOrder_run (id : String) (settings : SessionConfig) (createdAt : UInt64) (ids : IdSupply)
    (turns : List Turn)
    (hdiffer : ((born id settings createdAt ids).run turns).session.IdsDiffer ids.next) :
    ∃ names, ((born id settings createdAt ids).run turns).session.InOrder ids.next names := by
  obtain ⟨held, -, hholding⟩ := (upheld_run id settings createdAt ids turns).flights
  exact ⟨_, hholding hdiffer⟩

end Lifetime

end JvmDebug
