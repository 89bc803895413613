import JvmDebug.Proofs.RequestOwnership
import JvmDebug.Proofs.SceneEvents
import JvmDebug.Proofs.Waiting

/-!
When a deferred breakpoint is lost. A breakpoint that joins those that wait for a class is installed
when the loop handles the report of the class, unless it joins too late: the class is loaded already
and its report is not to come any more. Such a breakpoint stays pending until the class is loaded
once more, and no other one does.
-/
namespace JvmDebug

namespace Scene

/-- Additions let more breakpoints wait, and the loop takes nobody away in the middle of an event. -/
structure Steady (c : Scene) : Prop where
  calls : ∀ m ∈ c.calls, m.Within (fun _ => True) Session.Grows
  now : c.loop.now.Within (fun _ => True) Session.Still

theorem now_afterEvent {set : EventSet} {e : TargetEvent} {later : List TargetEvent}
    {now : Task Session Bool} (h : now.Within (fun _ => True) Session.Still) :
    (Loop.afterEvent set e later now).now.Within (fun _ => True) Session.Still :=
  Loop.of_afterEvent (P := fun l => l.now.Within _ _) h fun _ _ => ⟨trivial, trivial⟩

theorem now_afterResume {now : Task Session Bool}
    (h : now.Within (fun _ => True) Session.Still) :
    (Loop.afterResume now).now.Within (fun _ => True) Session.Still :=
  Loop.of_afterResume (P := fun l => l.now.Within _ _) h fun _ _ => ⟨trivial, trivial⟩

/-- A step of the loop takes away those that wait for the class whose report it begins to handle. -/
theorem loop_waits {l : Loop} (hl : l.now.Within (fun _ => True) Session.Still) (s : Session)
    (vm : Vm) :
    (l.step s vm).1.now.Within (fun _ => True) Session.Still ∧
      ∀ id name, (l.step s vm).2.1.Waits id name ↔
        s.Waits id name ∧ ∀ e ∈ l.begins, e.prepares ≠ some name := by
  have hstill {t : Session} (hst : s.Still t) (hnone : l.begins = []) (id name : String) :
      t.Waits id name ↔ s.Waits id name ∧ ∀ e ∈ l.begins, e.prepares ≠ some name := by
    rw [hst.waits, hnone]
    simp
  cases l with
  | reading =>
    simp only [Loop.step]
    split
    · exact ⟨hl, hstill .rfl rfl⟩
    · exact ⟨trivial, hstill .rfl rfl⟩
    · exact ⟨trivial, hstill s.quiet_disconnected.still rfl⟩
  | ready set later =>
    cases later with
    | nil =>
      obtain ⟨hst, hnow⟩ := (still_resumeAfter set).advance (fun _ => .rfl) (fun _ _ _ => .trans) s
      exact ⟨now_afterResume hnow, hstill hst rfl⟩
    | cons e later =>
      obtain ⟨hnow, hwaits⟩ := handleEvent_waits e s
      refine ⟨now_afterEvent hnow, fun id name => (hwaits id name).trans ?_⟩
      simp [Loop.begins]
  | handling set e now later =>
    obtain ⟨hst, hnow⟩ := Routine.Within.move hl Vm.serve (fun _ => .rfl)
      (fun _ _ _ => .trans) s vm
    exact ⟨now_afterEvent hnow, hstill hst rfl⟩
  | resuming now =>
    obtain ⟨hst, hnow⟩ := Routine.Within.move hl Vm.serve (fun _ => .rfl)
      (fun _ _ _ => .trans) s vm
    exact ⟨now_afterResume hnow, hstill hst rfl⟩
  | ended => exact ⟨hl, hstill .rfl rfl⟩

theorem Steady.go {c : Scene} (hc : c.Steady) (n : Nat) :
    (c.step (.go n)).Steady ∧ c.session.Grows (c.step (.go n)).session := by
  have hloop : (c.step (.go n)).loop.now.Within (fun _ => True) Session.Still := by
    rw [(c.step_go n).1]
    exact hc.now
  cases hn : c.calls[n]? with
  | none =>
    rw [step_go_none hn]
    exact ⟨hc, .rfl⟩
  | some m =>
    obtain ⟨hgrows, hm⟩ := (hc.calls m (List.mem_of_getElem? hn)).move Vm.serve
      (fun _ => .rfl) (fun _ _ _ => .trans) c.session c.vm
    rw [step_go_some hn] at hloop ⊢
    refine ⟨⟨fun m' hm' => ?_, hloop⟩, hgrows⟩
    rcases List.mem_or_eq_of_mem_set hm' with hm' | rfl
    · exact hc.calls m' hm'
    · exact hm

variable {happens : Happening → Prop}

theorem Steady.step {c : Scene} (hc : c.Steady) {x : Choice}
    (hx : x.Within (fun o => o.isAddBreakpoint) happens) : (c.step x).Steady := by
  cases x with
  | call o =>
    refine ⟨fun m hm => ?_, hc.now⟩
    rcases List.mem_append.1 hm with hm | hm
    · exact hc.calls m hm
    · rw [List.mem_singleton.1 hm]
      exact grows_operation hx
  | go n => exact (hc.go n).1
  | loop => exact ⟨hc.calls, (loop_waits hc.now c.session c.vm).1⟩
  | target h => exact ⟨hc.calls, hc.now⟩

/-- Who waits goes on waiting unless the loop begins to handle the report of the class. -/
theorem Steady.waits_step {c : Scene} (hc : c.Steady) (x : Choice) {id name : String}
    (h : c.session.Waits id name) :
    (c.step x).session.Waits id name ↔ ∀ e ∈ x.begins c.loop, e.prepares ≠ some name := by
  cases x with
  | call o => exact ⟨fun _ => by simp [Choice.begins], fun _ => h⟩
  | go n => exact ⟨fun _ => by simp [Choice.begins], fun _ => (hc.go n).2 id name h⟩
  | loop =>
    refine ((loop_waits hc.now c.session c.vm).2 id name).trans ?_
    exact ⟨fun h => h.2, fun hno => ⟨h, hno⟩⟩
  | target x => exact ⟨fun _ => by simp [Choice.begins], fun _ => h⟩

theorem Steady.joins_step {c : Scene} (hc : c.Steady) {x : Choice} {id name : String}
    (h : ¬c.session.Waits id name) (h' : (c.step x).session.Waits id name) : ∃ n, x = .go n := by
  cases x with
  | call o => exact absurd h' h
  | go n => exact ⟨n, rfl⟩
  | loop => exact absurd (((loop_waits hc.now c.session c.vm).2 id name).1 h').1 h
  | target x => exact absurd h' h

/-! ## Too late -/

/-- With the choice the breakpoint joins those that wait for the class, but the class is loaded and
its report is not to come. -/
structure JoinsLate (c : Scene) (x : Choice) (id name : String) : Prop where
  before : ¬c.session.Waits id name
  after : (c.step x).session.Waits id name
  loaded : c.vm.Loaded name
  unreported : ∀ e ∈ c.upcoming, e.prepares ≠ some name

/-- The breakpoint joined too late, and since then the class was not loaded once more. -/
def Late (c : Scene) (choices : List Choice) (id name : String) : Prop :=
  ∃ xs x ys, choices = xs ++ x :: ys ∧ (c.run xs).JoinsLate x id name ∧
    ∀ y ∈ ys, ¬y.loads c.vm name

theorem Late.snoc {c : Scene} {xs : List Choice} {id name : String} (h : c.Late xs id name)
    {x : Choice} (hx : ¬x.loads c.vm name) : c.Late (xs ++ [x]) id name := by
  obtain ⟨ws, y, ys, rfl, hjoins, hys⟩ := h
  refine ⟨ws, y, ys ++ [x], by simp, hjoins, fun z hz => ?_⟩
  rcases List.mem_append.1 hz with hz | hz
  · exact hys z hz
  · rw [List.mem_singleton.1 hz]
    exact hx

theorem late_snoc_iff {c : Scene} {xs : List Choice} {x : Choice} {id name : String} :
    c.Late (xs ++ [x]) id name ↔
      (c.run xs).JoinsLate x id name ∨ c.Late xs id name ∧ ¬x.loads c.vm name := by
  refine ⟨fun h => ?_, fun h => ?_⟩
  · obtain ⟨ws, y, ys, heq, hjoins, hys⟩ := h
    rcases List.eq_nil_or_concat' ys with rfl | ⟨ys, z, rfl⟩
    · obtain ⟨rfl, hxy⟩ := List.append_inj' heq rfl
      cases hxy
      exact .inl hjoins
    · rw [← List.cons_append, ← List.append_assoc] at heq
      obtain ⟨rfl, hxz⟩ := List.append_inj' heq rfl
      cases hxz
      refine .inr ⟨⟨ws, y, ys, rfl, hjoins, fun w hw => hys w ?_⟩, hys x ?_⟩
      · exact List.mem_append_left _ hw
      · exact List.mem_append_right _ (List.mem_singleton_self x)
  · rcases h with hjoins | ⟨hlate, hx⟩
    · exact ⟨xs, x, [], rfl, hjoins, fun y hy => by cases hy⟩
    · exact hlate.snoc hx

/-- A class that somebody waits for does not get loaded without a report. -/
theorem reported_of_loads {start : Nat} {c : Scene} {k : Held} {j : InHand}
    (hb : Balanced start k c.session c.vm) (hd : Deferring start j c.session c.vm) {x : Choice}
    {id name : String} (hw : c.session.Waits id name) (hx : x.loads c.vm name) :
    ∃ e ∈ x.events c.vm, e.prepares = some name := by
  cases x with
  | call | go | loop => cases hx
  | target h =>
    cases h with
    | load t d =>
      obtain ⟨p, hp, -⟩ := hw
      have hfiled : (p.watch, .classPrepare name) ∈ c.vm.filed := by
        rw [hb.filed]
        refine Multiset.mem_add.2 (.inl (mem_booked_of_watch ?_))
        rw [BreakpointTable.watch?, hp, Option.map_some]
      obtain ⟨q, hq, htopic⟩ := Vm.mem_filed.1 hfiled
      have hkind : q.kind = .classPrepare name := by
        cases hk : q.kind <;> rw [hk] at htopic <;> cases htopic
        rfl
      obtain ⟨info, hinfo, hname⟩ := Option.map_eq_some_iff.1 hx
      refine ⟨.classPrepare (some q.id) t info.info, ?_, congrArg some hname⟩
      simp only [Choice.events, Happening.events, hinfo]
      refine Vm.mem_eventsFor.2 ⟨p.watch, q, hq, hd.watching _ _ _ hq hkind, ?_, rfl⟩
      rw [hkind, hname]
      exact beq_self_eq_true _
    | hit | finishStep | throw | startThread | die | hangUp => cases hx

theorem loads_of_reported {c : Scene} {x : Choice} {e : TargetEvent} {name : String}
    (he : e ∈ x.events c.vm) (hname : e.prepares = some name) : x.loads c.vm name := by
  cases x with
  | call | go | loop => cases he
  | target h =>
    cases h <;> simp only [Choice.events, Happening.events] at he
    case load t d =>
      split at he
      · cases he
      · next k hk =>
        obtain ⟨r, q, -, -, -, rfl⟩ := Vm.mem_eventsFor.1 he
        cases hname
        simp only [Choice.loads, Happening.loads, Vm.className?, hk, Option.map_some]
    case hit t l | finishStep t l | throw t l thrown catchAt =>
      obtain ⟨r, q, -, -, -, rfl⟩ := Vm.mem_eventsFor.1 he
      cases hname
    case startThread name =>
      split at he
      · rw [List.mem_singleton.1 he] at hname
        cases hname
      · cases he
    case die =>
      rw [List.mem_singleton.1 he] at hname
      cases hname
    case hangUp => cases he

/-! ## Stranded -/

/-- The breakpoint waits for a loaded class whose report is not to come. -/
def Stranded (c : Scene) (id name : String) : Prop :=
  c.session.Waits id name ∧ c.vm.Loaded name ∧ ∀ e ∈ c.upcoming, e.prepares ≠ some name

section
variable {start : Nat} {c : Scene} {x : Choice} {id name : String}

/-- Of those that wait, the stranded stay so until the class is loaded once more, and the others
do not get stranded. -/
theorem stranded_step_of_waits {k : Held} {j : InHand} (hc : c.Steady)
    (hb : Balanced start k c.session c.vm) (hd : Deferring start j c.session c.vm)
    (hloop : (c.step x).loop ≠ .ended) (hw : c.session.Waits id name) :
    (c.step x).Stranded id name ↔ c.Stranded id name ∧ ¬x.loads c.vm name := by
  have hwaits := hc.waits_step x hw
  have hupcoming := upcoming_step hloop
  have hloaded := c.loaded_step x name
  constructor
  · rintro ⟨hw', hl', hquiet'⟩
    have hnone : ∀ e ∈ c.upcoming ++ x.events c.vm, e.prepares ≠ some name := by
      intro e he
      rw [hupcoming] at he
      rcases List.mem_append.1 he with he | he
      · exact hwaits.1 hw' e he
      · exact hquiet' e he
    have hno : ¬x.loads c.vm name := by
      intro hx
      obtain ⟨e, he, hname⟩ := reported_of_loads hb hd hw hx
      exact hnone e (List.mem_append_right _ he) hname
    have hl := (hloaded.1 hl').resolve_right hno
    exact ⟨⟨hw, hl, fun e he => hnone e (List.mem_append_left _ he)⟩, hno⟩
  · rintro ⟨⟨-, hl, hquiet⟩, hno⟩
    -- nothing about the class comes in, so nothing about it is under way
    have hnone : ∀ e ∈ x.begins c.loop ++ (c.step x).upcoming, e.prepares ≠ some name := by
      intro e he
      rw [← hupcoming] at he
      rcases List.mem_append.1 he with he | he
      · exact hquiet e he
      · exact fun hname => hno (loads_of_reported he hname)
    exact ⟨hwaits.2 fun e he => hnone e (List.mem_append_left _ he), hloaded.2 (.inl hl),
      fun e he => hnone e (List.mem_append_right _ he)⟩

theorem stranded_step_of_joins (hc : c.Steady) (hloop : (c.step x).loop ≠ .ended)
    (hw : ¬c.session.Waits id name) :
    (c.step x).Stranded id name ↔ c.JoinsLate x id name := by
  have hloaded := c.loaded_step x name
  -- joining is a step of an addition, which reports nothing and loads nothing
  have hjoins (hw' : (c.step x).session.Waits id name) :
      (c.step x).upcoming = c.upcoming ∧ ¬x.loads c.vm name := by
    have hupcoming := upcoming_step hloop
    obtain ⟨n, rfl⟩ := hc.joins_step hw hw'
    exact ⟨by simpa [Choice.events, Choice.begins] using hupcoming.symm, fun hx => hx⟩
  constructor
  · rintro ⟨hw', hl', hquiet'⟩
    obtain ⟨hsame, hno⟩ := hjoins hw'
    exact ⟨hw, hw', (hloaded.1 hl').resolve_right hno, hsame ▸ hquiet'⟩
  · intro h
    obtain ⟨hsame, -⟩ := hjoins h.after
    exact ⟨h.after, hloaded.2 (.inl h.loaded), hsame.symm ▸ h.unreported⟩

end

/-! ## Every schedule -/

/-- Who waits for a loaded class, and whose report is not to come, joined too late. -/
def WaitsLate (c : Scene) (xs : List Choice) : Prop :=
  ∀ id name, c.Late xs id name ↔ (c.run xs).session.Waits id name ∧
    (c.run xs).vm.Loaded name ∧ ∀ e ∈ (c.run xs).upcoming, e.prepares ≠ some name

theorem waitsLate_snoc {start : Nat} {c : Scene} {xs : List Choice} {x : Choice} {k : Held}
    {j : InHand} (hlate : c.WaitsLate xs) (hsteady : (c.run xs).Steady)
    (hb : Balanced start k (c.run xs).session (c.run xs).vm)
    (hd : Deferring start j (c.run xs).session (c.run xs).vm)
    (hloop : ((c.run xs).step x).loop ≠ .ended) : c.WaitsLate (xs ++ [x]) := by
  intro id name
  have hstranded : c.Late xs id name ↔ (c.run xs).Stranded id name := hlate id name
  show c.Late (xs ++ [x]) id name ↔ (c.run (xs ++ [x])).Stranded id name
  rw [run_append, late_snoc_iff, hstranded, ← c.loads_run xs x name]
  by_cases hw : (c.run xs).session.Waits id name
  · refine (or_iff_right fun h => h.before hw).trans ?_
    exact (stranded_step_of_waits hsteady hb hd hloop hw).symm
  · refine (or_iff_left fun h => hw h.1.1).trans ?_
    exact (stranded_step_of_joins hsteady hloop hw).symm

theorem Fresh.deferring {c : Scene} (hc : c.Fresh) :
    Deferring c.session.ids.next 0 c.session c.vm where
  drawn := by
    rw [hc.breakpoints]
    exact c.session.ids.drawn_zero
  deferred := by
    rw [hc.breakpoints]
    rfl
  enabled := by
    rw [hc.breakpoints]
    exact fun id e he => by cases he
  watching r q name hq hkind := by
    rcases (hc.requests r q hq).2 with h | h
    · rw [h] at hkind
      cases hkind
    · rw [h] at hkind
      cases hkind

/-- However additions of breakpoints, class loads and the handling of events interleave, once
nothing is in flight and every event is handled, the breakpoints that are pending on a loaded class
are those that joined too late. -/
theorem pending_on_loaded_iff_late {c : Scene} (hc : c.Fresh) {choices : List Choice}
    (hchoices : ∀ x ∈ choices, x.Within (fun o => o.isAddBreakpoint) fun _ => True)
    (hsound : ∀ xs, xs <+: choices →
      Sound c.session.ids.next (c.run xs).session (c.run xs).vm)
    (hsettled : (c.run choices).Settled) (id name : String) :
    (∃ b, (c.run choices).session.breakpoints.get? id = some b ∧ b.pending = true ∧
      b.className = name) ∧ (c.run choices).vm.Loaded name ↔ c.Late choices id name := by
  have hbooks : ∀ x ∈ choices, x.Within (fun o => o.isOnBreakpoints) fun _ => True := by
    intro x hx
    cases x with
    | call o =>
      have := hchoices _ hx
      cases o <;> first | rfl | cases this
    | go | loop | target => trivial
  have hkept {xs : List Choice} (hxs : xs <+: choices) :=
    Kept.run (ownership_rules c.session.ids.next) (Kept.of_fresh hc.calls hc.loop hc.balanced)
      (fun x hx => hbooks x (hxs.subset hx)) fun ys hys => hsound ys (hys.trans hxs)
  have hdeferring {xs : List Choice} (hxs : xs <+: choices) :=
    Kept.run (deferring_rules c.session.ids.next) (Kept.of_fresh hc.calls hc.loop hc.deferring)
      (fun x hx => hchoices x (hxs.subset hx)) fun ys hys => hsound ys (hys.trans hxs)
  have hrun : (c.run choices).Steady ∧ c.WaitsLate choices := by
    refine List.reverseRecOn (motive := fun xs => xs <+: choices → (c.run xs).Steady ∧
      c.WaitsLate xs) choices (fun _ => ?_) (fun xs x ih hxs => ?_) List.prefix_rfl
    · refine ⟨⟨by simp [hc.calls], ?_⟩, fun id name => ⟨?_, ?_⟩⟩
      · rw [run_nil, hc.loop]
        trivial
      · rintro ⟨ws, x, ys, heq, -⟩
        simp at heq
      · rintro ⟨⟨p, hp, -⟩, -⟩
        rw [run_nil, hc.breakpoints] at hp
        cases hp
    · have hpre : xs <+: choices := (List.prefix_append _ _).trans hxs
      obtain ⟨hsteady, hlate⟩ := ih hpre
      obtain ⟨held, l, -, -, -, -, hb⟩ := hkept hpre
      obtain ⟨held', l', -, -, -, -, hd⟩ := hdeferring hpre
      have hloop := loop_ne_ended hsettled.loop hxs
      rw [run_append] at hloop ⊢
      exact ⟨hsteady.step (hchoices x (hxs.subset (by simp))),
        waitsLate_snoc hlate hsteady hb hd hloop⟩
  have hd := (hdeferring List.prefix_rfl).idle hsettled.idle (hsound choices List.prefix_rfl)
  have hpending : (∃ b, (c.run choices).session.breakpoints.get? id = some b ∧
      b.pending = true ∧ b.className = name) ↔ (c.run choices).session.Waits id name := by
    rw [Session.waits_iff_queued, ← add_zero (c.run choices).session.breakpoints.queued]
    refine Iff.trans ?_ (iff_of_eq (congrArg ((id, name) ∈ ·) hd.deferred))
    rw [BreakpointTable.mem_deferred]
    constructor
    · rintro ⟨b, hb, hp, hn⟩
      obtain ⟨e, he, rfl⟩ := Option.map_eq_some_iff.1 hb
      exact ⟨e, he, hp, hn⟩
    · rintro ⟨e, he, hp, hn⟩
      exact ⟨e.breakpoint, by rw [BreakpointTable.get?, he, Option.map_some], hp, hn⟩
  rw [hpending, hrun.2 id name, hsettled.upcoming]
  simp

/-- A class is loaded after an addition has looked for it and before it watches for it. -/
def loadedMeanwhile : List Choice :=
  [.call (.addBreakpoint "app.Main" (.line 7) none), .go 0, .go 0, .go 0,
    .target (.load 1 2), .go 0, .go 0]

theorem settled_loadedMeanwhile : (sample.run loadedMeanwhile).Settled := by
  refine ⟨?_, rfl, rfl⟩
  have hcalls : (sample.run loadedMeanwhile).calls = [.done none] := rfl
  simp [hcalls]

theorem pending_loadedMeanwhile :
    (∃ b, (sample.run loadedMeanwhile).session.breakpoints.get? "7f4a7c15" = some b ∧
      b.pending = true ∧ b.className = "app.Main") ∧
      (sample.run loadedMeanwhile).vm.Loaded "app.Main" := by
  refine ⟨⟨_, rfl, rfl, rfl⟩, 2, _, rfl, rfl, rfl⟩

theorem late_loadedMeanwhile : sample.Late loadedMeanwhile "7f4a7c15" "app.Main" := by
  refine (pending_on_loaded_iff_late fresh_sample ?_ ?_ settled_loadedMeanwhile _ _).1
    pending_loadedMeanwhile
  · simp [loadedMeanwhile, Choice.Within, Operation.isAddBreakpoint]
  · exact sound_of_one_id (by decide +kernel)

/-- A deferred breakpoint can be lost. -/
theorem not_pending_only_on_unloaded :
    ¬∀ (c : Scene) (choices : List Choice), c.Fresh →
      (∀ x ∈ choices, x.Within (fun o => o.isAddBreakpoint) fun h => ∃ t k, h = .load t k) →
      (∀ xs, xs <+: choices → Sound c.session.ids.next (c.run xs).session (c.run xs).vm) →
      (c.run choices).Settled →
      ∀ id b, (c.run choices).session.breakpoints.get? id = some b → b.pending = true →
        ¬(c.run choices).vm.Loaded b.className := by
  intro h
  obtain ⟨⟨b, hb, hpending, hname⟩, hloaded⟩ := pending_loadedMeanwhile
  rw [← hname] at hloaded
  refine h sample loadedMeanwhile fresh_sample ?_ (sound_of_one_id (by decide +kernel))
    settled_loadedMeanwhile _ b hb hpending hloaded
  simp [loadedMeanwhile, Choice.Within, Operation.isAddBreakpoint]

end Scene

end JvmDebug
