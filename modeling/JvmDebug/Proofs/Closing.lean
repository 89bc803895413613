import JvmDebug.Proofs.SessionStates

/-!
The end of a session. A closing that comes after the connection has been taken over lets go of it,
and when nobody closes the session any more its event loop is over for good. A closing that comes
while the session is being connected, or while another one waits for the event loop, does less.
-/
namespace JvmDebug

open Routine

/-! ## Letting go -/

namespace Session

def leave : Task Session (Option DebugError) :=
  .update (fun s => s.enter .disconnected) fun _ => .done none

theorem letGo_eq : letGo = .update (fun s => s) fun s =>
    if s.attachment.isSome then .request .dispose fun _ => leave else leave := by
  show Routine.update _ _ = _
  congr 1
  funext s
  dsimp only [Routine.bind]
  split <;> rfl

theorem isTerminal_enter (s : Session) : (s.enter .disconnected).state.isTerminal = true := by
  simp only [enter]
  split
  · assumption
  · rfl

end Session

namespace Lifetime

variable {c c' : Lifetime} {n : Nat}

/-! ## What a step can do -/

/-- Every connect under way has not looked at the session yet. -/
def Resting (c : Lifetime) : Prop :=
  ∀ f ∈ c.flights, f.demand.isConnect = true → f.Landed ∨ ∃ origin description,
    f = ⟨.connect origin description, .working (Session.connect origin description).failure?⟩

/-- What a step does to the ties of the session, to those that wait for its event loop, to the loop
and to the books. -/
structure Effect (c c' : Lifetime) : Prop where
  attached : c.session.attachment.isSome = true → c'.session.attachment.isSome = true
  joins : c'.session.attachment.isSome = true → c.session.attachment.isSome = true ∨
    ¬c.Resting ∧ c'.session.loopPending = true
  pending : c'.session.loopPending = true → c.session.loopPending = true ∨
    c.session.attachment = none ∧ c'.session.attachment.isSome = true
  told : c.session.loopPending = true → c'.session.loopPending = true ∨
    ∃ f ∈ c'.flights, f.demand.isClose = true ∧ f.stage = .waiting
  waits : ∀ f ∈ c.flights, f.stage = .waiting → f ∈ c'.flights ∨ c.loop = .over
  ends : c.session.attachment.isSome = true → c.loop = .over → c'.loop = .over
  quiet : c'.session.sequence = c.session.sequence ∨ ∃ task, c.loop = .handling task
  logs : ∀ e ∈ c.log, e ∈ c'.log

theorem Effect.rfl : Effect c c where
  attached h := h
  joins h := .inl h
  pending h := .inl h
  told h := .inl h
  waits _ hf _ := .inl hf
  ends _ h := h
  quiet := .inl (Eq.refl _)
  logs _ he := he

/-- A step that leaves the ties of the session alone. -/
theorem Effect.of_ties (hties : c.session.SameTies c'.session)
    (hwaits : ∀ f ∈ c.flights, f.stage = .waiting → f ∈ c'.flights ∨ c.loop = .over)
    (hover : c.session.attachment.isSome = true → c.loop = .over → c'.loop = .over)
    (hquiet : c'.session.sequence = c.session.sequence ∨ ∃ task, c.loop = .handling task)
    (hlogs : ∀ e ∈ c.log, e ∈ c'.log) : Effect c c' where
  attached h := hties.attachment ▸ h
  joins h := .inl (hties.attachment ▸ h)
  pending h := .inl (hties.loopPending ▸ h)
  told h := .inl (hties.loopPending ▸ h)
  waits := hwaits
  ends := hover
  quiet := hquiet
  logs := hlogs

/-- A step with which the session gets its target. -/
theorem Effect.of_takeOver (hnone : c.session.attachment = none) {origin : Origin}
    {description : String}
    (htakes : c'.session = Session.takeOver origin description c.session)
    (hresting : ¬c.Resting)
    (hwaits : ∀ f ∈ c.flights, f.stage = .waiting → f ∈ c'.flights ∨ c.loop = .over)
    (hlogs : ∀ e ∈ c.log, e ∈ c'.log) : Effect c c' := by
  have hsome : c'.session.attachment.isSome = true := by
    rw [htakes]
    exact Session.isSome_attachment_takeOver origin description c.session
  have hpending : c'.session.loopPending = true := by
    simp only [htakes, Session.takeOver, Session.enter]
    split <;> rfl
  have hsequence : c'.session.sequence = c.session.sequence := by
    simp only [htakes, Session.takeOver, Session.enter]
    split <;> rfl
  have hnot (h : c.session.attachment.isSome = true) : False := by
    rw [hnone] at h
    cases h
  exact {
    attached := fun h => (hnot h).elim
    joins := fun _ => .inr ⟨hresting, hpending⟩
    pending := fun _ => .inr ⟨hnone, hsome⟩
    told := fun _ => .inl hpending
    waits := hwaits
    ends := fun h _ => (hnot h).elim
    quiet := .inl hsequence
    logs := hlogs }

theorem mem_setStage {f g : Flight} {stage : FlightStage} (hg : g ∈ c.flights)
    (hf : c.flights[n]? = some f) (hne : g ≠ f) : g ∈ (c.setStage n f stage).flights := by
  obtain ⟨m, hm⟩ := List.mem_iff_getElem?.1 hg
  refine List.mem_iff_getElem?.2 ⟨m, ?_⟩
  rw [setStage, List.getElem?_set_ne, hm]
  rintro rfl
  exact hne (Option.some.inj (hm.symm.trans hf))

/-- The step of a connect leaves the session alone, or it takes over the connection. -/
theorem Fits.tick_connect {d : Demand} {task : Task Session (Option DebugError)}
    (h : c.Fits n ⟨d, .working task⟩) (hd : d.isConnect = true) (hopen : task.result? = none)
    (reply : Replies) :
    c.session.Stays (task.tick reply c.session).2 ∧
      (task.tick reply c.session).1.result? ≠ some none ∨
    c.session.attachment = none ∧ ∃ origin description,
      (task.tick reply c.session).2 = Session.takeOver origin description c.session := by
  cases h with
  | landed d result => cases hopen
  | gated hd' | wanes hd' | drives hd' => rw [hd'] at hd; cases hd
  | unstarted origin description =>
    rw [Session.connect_eq_join]
    refine .inl ⟨.rfl, ?_⟩
    simp only [Routine.tick]
    split
    · rw [result?_connecting (Session.connecting_join origin description c.session)]
      exact Option.some_ne_none _ ∘ Eq.symm
    · simp [Routine.result?]
  | connecting _ hconnecting hlock hnone =>
    cases hconnecting with
    | asks hk =>
      refine .inl ⟨.rfl, ?_⟩
      rw [Routine.tick, result?_connecting (hk _)]
      exact Option.some_ne_none _ ∘ Eq.symm
    | notes hf hk =>
      refine .inl ⟨hf c.session, ?_⟩
      rw [Routine.tick, result?_connecting (hk _)]
      exact Option.some_ne_none _ ∘ Eq.symm
    | takesOver origin description =>
      exact .inr ⟨hnone, origin, description, rfl⟩

/-- A connect that takes over has looked at the session. -/
theorem not_resting_of_takes {d : Demand} {task : Task Session (Option DebugError)}
    (hf : c.flights[n]? = some ⟨d, .working task⟩) (hd : d.isConnect = true)
    (hopen : task.result? = none) (reply : Replies) (hnone : c.session.attachment = none)
    (hsome : (task.tick reply c.session).2.attachment.isSome = true) : ¬c.Resting := by
  intro hrest
  rcases hrest _ (List.mem_of_getElem? hf) hd with ⟨result, hlanded⟩ | ⟨o, e, hfresh⟩
  · obtain rfl : task = .done result := by simpa using hlanded
    cases hopen
  · obtain ⟨-, rfl⟩ : d = .connect o e ∧ task = (Session.connect o e).failure? := by
      simpa using hfresh
    rw [Session.connect_eq_join] at hsome
    have hsome : c.session.attachment.isSome = true := hsome
    rw [hnone] at hsome
    cases hsome

theorem Orderly.effect_work (h : c.Orderly) {d : Demand}
    {task : Task Session (Option DebugError)} (hf : c.flights[n]? = some ⟨d, .working task⟩)
    (hopen : task.result? = none) (reply : Replies) :
    Effect c (c.work n ⟨d, .working task⟩ task reply) := by
  have hfits := h.fits n _ hf
  have hwaits (c₁ : Lifetime) (hc₁ : c₁.flights = c.flights) (stage : FlightStage) (g : Flight)
      (hg : g ∈ c.flights) (hstage : g.stage = .waiting) :
      g ∈ (c₁.setStage n ⟨d, .working task⟩ stage).flights ∨ c.loop = .over := by
    refine .inl (mem_setStage (hc₁ ▸ hg) (hc₁ ▸ hf) ?_)
    rintro rfl
    cases hstage
  have hlogs (e : Exchange) (he : e ∈ c.log) : e ∈ c.log ++ logEntries (some n) reply task :=
    List.mem_append_left _ he
  cases hd : d.isConnect with
  | false =>
    obtain ⟨hgoes, -⟩ := hfits.tick hd reply
    simp only [Lifetime.work, hd, Bool.false_eq_true, if_false]
    exact .of_ties hgoes.toSameTies (fun g hg hstage => hwaits _ rfl _ g hg hstage)
      (fun _ hover => hover) (.inl hgoes.sequence) hlogs
  | true =>
    simp only [Lifetime.work, hd, if_true]
    rcases hfits.tick_connect hd hopen reply with ⟨hstays, hres⟩ |
      ⟨hnone, origin, description, htakes⟩
    · refine .of_ties hstays.toSameTies (fun g hg hstage => hwaits _ rfl _ g hg hstage)
        (fun _ hover => ?_) (.inl hstays.sequence) hlogs
      simpa only [Lifetime.setStage, passLock, if_neg hres] using hover
    · have hsome : (task.tick reply c.session).2.attachment.isSome = true := by
        rw [htakes]
        exact Session.isSome_attachment_takeOver origin description c.session
      exact .of_takeOver hnone htakes (not_resting_of_takes hf hd hopen reply hnone hsome)
        (fun g hg hstage => hwaits _ rfl _ g hg hstage) hlogs

theorem Orderly.effect_go (h : c.Orderly) {f : Flight} (hf : c.flights[n]? = some f)
    (reply : Replies) : Effect c (c.go n f reply) := by
  obtain ⟨d, stage⟩ := f
  have hlength := (List.getElem?_eq_some_iff.1 hf).1
  cases stage with
  | closing =>
    cases h.fits n _ hf with
    | closing hd =>
      refine ⟨fun hsome => hsome, .inl, fun hpending => ?_, fun hpending => .inr ?_,
        fun g hg hstage => .inl ?_, fun _ hover => hover, .inl rfl, fun _ he => he⟩
      · cases hpending
      · refine ⟨⟨d, .waiting⟩, List.mem_iff_getElem?.2 ⟨n, ?_⟩, hd, rfl⟩
        simp only [Lifetime.go, Lifetime.setStage, Session.beginClose, hpending, if_true]
        exact List.getElem?_set_self hlength
      · refine mem_setStage (c := { c with session := c.session.beginClose.2 }) hg hf ?_
        rintro rfl
        cases hstage
  | waiting =>
    simp only [Lifetime.go]
    split
    · next hover =>
      exact .of_ties .rfl (fun _ _ _ => .inr hover) (fun _ h => h) (.inl rfl) fun _ he => he
    all_goals exact .rfl
  | working task =>
    simp only [Lifetime.go]
    split
    · exact .rfl
    · next hopen =>
      simp only [Bool.or_eq_true, not_or, Bool.not_eq_true, Option.isSome_eq_false_iff,
        Option.isNone_iff_eq_none] at hopen
      exact h.effect_work hf hopen.1 reply

theorem Orderly.effect (h : c.Orderly) (x : Turn) : Effect c (c.step x) := by
  cases x with
  | begin d =>
    exact .of_ties .rfl (fun f hf _ => .inl (List.mem_append_left _ hf)) (fun _ h => h) (.inl rfl)
      fun _ he => he
  | go n reply =>
    simp only [Lifetime.step]
    split
    · exact .rfl
    · next f hf => exact h.effect_go hf reply
  | read r =>
    simp only [Lifetime.step]
    split
    · next hloop =>
      refine .of_ties .rfl (fun _ hf _ => .inl hf) (fun _ hover => ?_) (.inl rfl) fun _ he => he
      rw [hloop] at hover
      cases hover
    all_goals exact .rfl
  | handle reply =>
    simp only [Lifetime.step]
    split
    · next task hloop =>
      have hnot (loop : LoopStage) (hover : c.loop = .over) : loop = .over := by
        rw [hloop] at hover
        cases hover
      have hminds := h.minds
      simp only [Minds, hloop] at hminds
      obtain ⟨hserves, -⟩ := hminds.2.tick (fun _ => .rfl) reply c.session
      simp only [Lifetime.handle]
      split
      · exact .of_ties .rfl (fun _ hf _ => .inl hf) (fun _ => hnot _) (.inl rfl) fun _ he => he
      · exact .of_ties .rfl (fun _ hf _ => .inl hf) (fun _ => hnot _) (.inl rfl) fun _ he => he
      · exact .of_ties hserves.toSameTies (fun _ hf _ => .inl hf) (fun _ => hnot _)
          (.inr ⟨task, hloop⟩) fun _ he => List.mem_append_left _ he
    all_goals exact .rfl
  | stop =>
    simp only [Lifetime.step]
    split
    · split
      · exact .of_ties .rfl (fun _ hf _ => .inl hf) (fun _ _ => rfl) (.inl rfl) fun _ he => he
      · exact .rfl
    all_goals exact .rfl

/-! ## Who waits for the event loop -/

/-- A connected session has a loop that a closing will wait for, or one that a closing waits for, or
one that is over. -/
structure Watched (c : Lifetime) : Prop where
  pending : c.session.loopPending = true → c.session.attachment.isSome = true
  watched : c.session.attachment.isSome = true → c.session.loopPending = true ∨ c.loop = .over ∨
    ∃ f ∈ c.flights, f.demand.isClose = true ∧ f.stage = .waiting

theorem Watched.step (h : c.Watched) (heffect : Effect c c') : c'.Watched where
  pending hpending := by
    rcases heffect.pending hpending with hbefore | ⟨-, hafter⟩
    · exact heffect.attached (h.pending hbefore)
    · exact hafter
  watched hsome := by
    rcases heffect.joins hsome with hbefore | ⟨-, hpending⟩
    · rcases h.watched hbefore with hpending | hover | ⟨f, hf, hd, hwaits⟩
      · exact (heffect.told hpending).imp_right .inr
      · exact .inr (.inl (heffect.ends hbefore hover))
      · rcases heffect.waits f hf hwaits with hstays | hover
        · exact .inr (.inr ⟨f, hstays, hd, hwaits⟩)
        · exact .inr (.inl (heffect.ends hbefore hover))
    · exact .inl hpending

theorem watched_run (hc : c.Orderly) (h : c.Watched) (turns : List Turn) :
    (c.run turns).Watched := by
  induction turns generalizing c with
  | nil => exact h
  | cons x xs ih => exact ih (hc.step x).1 (h.step (hc.effect x))

/-! ## How a closing goes on -/

def Asked (c : Lifetime) (n : Nat) : Prop :=
  ∃ reply : Call.Reply .dispose, (⟨some n, .dispose, reply⟩ : Exchange) ∈ c.log

/-- How far a closing has come that began when the session was connected or, as `joined` tells, was
not. In the former case it has told the event loop to stop, and asks the target to dispose of the
connection before it leaves. -/
inductive Closes (c : Lifetime) (n : Nat) (joined : Prop) : FlightStage → Prop
  | closing : Closes c n joined .closing
  | waiting (htold : joined → c.session.loopPending = false) : Closes c n joined .waiting
  | lettingGo (htold : joined → c.session.loopPending = false) :
      Closes c n joined (.working Session.letGo)
  | disposing (htold : joined → c.session.loopPending = false) :
      Closes c n joined (.working (.request .dispose fun _ => Session.leave))
  | leaving (htold : joined → c.session.loopPending = false) (hasked : joined → c.Asked n) :
      Closes c n joined (.working Session.leave)
  | left (htold : joined → c.session.loopPending = false) (hasked : joined → c.Asked n)
      (hend : c.session.state.isTerminal = true) : Closes c n joined (.working (.done none))

theorem Asked.mono (h : c.Asked n) (hlogs : ∀ e ∈ c.log, e ∈ c'.log) : c'.Asked n := by
  obtain ⟨reply, hreply⟩ := h
  exact ⟨reply, hlogs _ hreply⟩

section
variable {joined : Prop} {stage : FlightStage}

theorem Closes.keep (h : c.Closes n joined stage)
    (htold : joined → c.session.loopPending = false → c'.session.loopPending = false)
    (hlogs : ∀ e ∈ c.log, e ∈ c'.log)
    (hend : c.session.state.isTerminal = true → c'.session.state.isTerminal = true) :
    c'.Closes n joined stage := by
  cases h with
  | closing => exact .closing
  | waiting h => exact .waiting fun hj => htold hj (h hj)
  | lettingGo h => exact .lettingGo fun hj => htold hj (h hj)
  | disposing h => exact .disposing fun hj => htold hj (h hj)
  | leaving h hasked => exact .leaving (fun hj => htold hj (h hj)) fun hj => (hasked hj).mono hlogs
  | left h hasked hterminal =>
    exact .left (fun hj => htold hj (h hj)) (fun hj => (hasked hj).mono hlogs) (hend hterminal)

end

/-- The flight `n` is a closing, and the session is still connected if it was when that began. -/
structure Retreat (c : Lifetime) (n : Nat) (joined : Prop) : Prop where
  closes : ∃ stage, c.flights[n]? = some ⟨.errand .close, stage⟩ ∧ c.Closes n joined stage
  stays : joined → c.session.attachment.isSome = true

section
variable {joined : Prop}

theorem Retreat.keep (h : c.Retreat n joined) (hc : c.Orderly) {x : Turn}
    (hflights : (c.step x).flights[n]? = c.flights[n]?) : (c.step x).Retreat n joined := by
  obtain ⟨stage, hn, hcloses⟩ := h.closes
  have heffect := hc.effect x
  refine ⟨⟨stage, hflights.trans hn, hcloses.keep (fun hj htold => ?_) heffect.logs fun hend => ?_⟩,
    fun hj => heffect.attached (h.stays hj)⟩
  · rw [Bool.eq_false_iff]
    intro hpending
    rcases heffect.pending hpending with hbefore | ⟨hnone, -⟩
    · rw [htold] at hbefore
      cases hbefore
    · have hsome := h.stays hj
      rw [hnone] at hsome
      cases hsome
  · rw [(hc.step x).2.of_terminal hend]
    exact hend

/-- The own step of a closing. -/
theorem Closes.go {stage : FlightStage} (h : c.Closes n joined stage)
    (hstays : joined → c.session.attachment.isSome = true)
    (hn : c.flights[n]? = some ⟨.errand .close, stage⟩) (reply : Replies) :
    ∃ next, (c.go n ⟨.errand .close, stage⟩ reply).flights[n]? = some ⟨.errand .close, next⟩ ∧
      (c.go n ⟨.errand .close, stage⟩ reply).Closes n joined next := by
  have hlength := (List.getElem?_eq_some_iff.1 hn).1
  have hself (stage' : FlightStage) : (c.flights.set n ⟨.errand .close, stage'⟩)[n]? =
      some ⟨.errand .close, stage'⟩ := List.getElem?_set_self hlength
  cases h with
  | closing =>
    refine ⟨_, hself _, ?_⟩
    cases c.session.loopPending
    · exact .lettingGo fun _ => rfl
    · exact .waiting fun _ => rfl
  | waiting htold =>
    simp only [Lifetime.go]
    split
    · exact ⟨_, hself _, .lettingGo htold⟩
    all_goals exact ⟨_, hn, .waiting htold⟩
  | lettingGo htold =>
    refine ⟨_, hself _, ?_⟩
    show Closes _ n joined (.working (Session.letGo.tick reply c.session).1)
    rw [Session.letGo_eq]
    simp only [Routine.tick]
    split
    · exact .disposing htold
    · next hnone => exact .leaving htold fun hj => absurd (hstays hj) hnone
  | disposing htold =>
    refine ⟨_, hself _, .leaving htold fun _ => ⟨reply .dispose, ?_⟩⟩
    exact List.mem_append_right _ (List.mem_singleton_self _)
  | leaving htold hasked =>
    refine ⟨_, hself _, .left (fun hj => ?_) (fun hj => (hasked hj).mono fun e he => ?_) ?_⟩
    · show (c.session.enter .disconnected).loopPending = false
      rw [(c.session.goes_enter (.inr (.inr rfl))).loopPending]
      exact htold hj
    · exact List.mem_append_left _ he
    · exact c.session.isTerminal_enter
  | left htold hasked hend => exact ⟨_, hn, .left htold hasked hend⟩

theorem Retreat.step (h : c.Retreat n joined) (hc : c.Orderly) (x : Turn) :
    (c.step x).Retreat n joined := by
  cases x with
  | begin d =>
    obtain ⟨stage, hn, -⟩ := h.closes
    exact h.keep hc (List.getElem?_append_left (List.getElem?_eq_some_iff.1 hn).1)
  | go m reply =>
    by_cases hm : m = n
    · subst hm
      obtain ⟨stage, hn, hcloses⟩ := h.closes
      have heffect := hc.effect (.go m reply)
      have hgo : c.step (.go m reply) = c.go m ⟨.errand .close, stage⟩ reply := by
        simp only [Lifetime.step, hn]
      refine ⟨?_, fun hj => heffect.attached (h.stays hj)⟩
      rw [hgo]
      exact hcloses.go h.stays hn reply
    · refine h.keep hc ?_
      simp only [Lifetime.step]
      split
      · rfl
      · exact flights_go hm reply
  | read r => exact h.keep hc (by simp only [Lifetime.step]; split <;> rfl)
  | handle reply =>
    refine h.keep hc ?_
    simp only [Lifetime.step]
    split
    · simp only [Lifetime.handle]
      split <;> rfl
    all_goals rfl
  | stop =>
    refine h.keep hc ?_
    simp only [Lifetime.step]
    split
    · split <;> rfl
    all_goals rfl

theorem Retreat.run (h : c.Retreat n joined) (hc : c.Orderly) (turns : List Turn) :
    (c.run turns).Retreat n joined := by
  induction turns generalizing c with
  | nil => exact h
  | cons x xs ih => exact ih (h.step hc x) (hc.step x).1

end

/-! ## The end -/

/-- The flights after the step of one of them are those before it, but for that one. -/
theorem mem_flights_go {f g : Flight} {reply : Replies} (hg : g ∈ (c.go n f reply).flights) :
    g ∈ c.flights ∨ g.demand = f.demand := by
  have hset (d : Lifetime) (hd : d.flights = c.flights) (stage : FlightStage)
      (h : g ∈ (d.setStage n f stage).flights) : g ∈ c.flights ∨ g.demand = f.demand := by
    rcases List.mem_or_eq_of_mem_set h with hold | rfl
    · exact .inl (hd ▸ hold)
    · exact .inr rfl
  simp only [Lifetime.go] at hg
  split at hg
  · exact hset _ rfl _ hg
  · split at hg
    · exact hset _ rfl _ hg
    all_goals exact .inl hg
  · split at hg
    · exact .inl hg
    · refine hset _ ?_ _ hg
      split <;> rfl

/-- After the end of the session a connect that has not looked at it is refused. -/
theorem Resting.go (h : c.Resting) (hend : c.session.state.isTerminal = true) {f : Flight}
    (hf : c.flights[n]? = some f) (reply : Replies) : (c.go n f reply).Resting := by
  cases hd : f.demand.isConnect with
  | false =>
    intro g hg hconnect
    rcases mem_flights_go hg with hold | hsame
    · exact h g hold hconnect
    · rw [hsame, hd] at hconnect
      cases hconnect
  | true =>
    rcases h f (List.mem_of_getElem? hf) hd with ⟨result, hlanded⟩ | ⟨origin, description, rfl⟩
    · have hidle : c.go n f reply = c := by
        simp [Lifetime.go, hlanded, Routine.result?]
      rwa [hidle]
    · simp only [Lifetime.go]
      split
      · exact h
      · have hnew : c.session.state ≠ .created := by
          intro hnew
          rw [hnew] at hend
          cases hend
        intro g hg hconnect
        simp only [Lifetime.work, Lifetime.setStage, hd, if_true, passLock] at hg
        rcases List.mem_or_eq_of_mem_set hg with hold | rfl
        · exact h g hold hconnect
        · refine .inl ⟨some (.sessionAlreadyExists c.session.id), ?_⟩
          rw [Session.connect_eq_join]
          simp only [Routine.tick, if_neg hnew]

theorem Resting.step (h : c.Resting) (hend : c.session.state.isTerminal = true) (x : Turn) :
    (c.step x).Resting := by
  cases x with
  | begin d =>
    intro f hf hd
    rcases List.mem_append.1 hf with hold | hnew
    · exact h f hold hd
    · obtain rfl := List.mem_singleton.1 hnew
      cases d with
      | connect origin description => exact .inr ⟨origin, description, rfl⟩
      | operation o => cases hd
      | errand e => cases hd
  | go n reply =>
    simp only [Lifetime.step]
    split
    · exact h
    · next f hf => exact h.go hend hf reply
  | read r =>
    simp only [Lifetime.step]
    split <;> exact h
  | handle reply =>
    simp only [Lifetime.step]
    split
    · simp only [Lifetime.handle]
      split <;> exact h
    all_goals exact h
  | stop =>
    simp only [Lifetime.step]
    split
    · split <;> exact h
    all_goals exact h

/-- The session is at its end, and nothing is left that could emit an event. -/
structure Closed (c : Lifetime) : Prop where
  terminal : c.session.state.isTerminal = true
  silent : c.session.attachment.isSome = true ∧ c.loop = .over ∨
    c.session.attachment = none ∧ c.Resting

theorem Closed.step (h : c.Closed) (hc : c.Orderly) (x : Turn) :
    (c.step x).Closed ∧ (c.step x).session.sequence = c.session.sequence := by
  have heffect := hc.effect x
  have hterminal : (c.step x).session.state.isTerminal = true := by
    rw [(hc.step x).2.of_terminal h.terminal]
    exact h.terminal
  have hminds := hc.minds
  rcases h.silent with ⟨hsome, hover⟩ | ⟨hnone, hresting⟩
  · refine ⟨⟨hterminal, .inl ⟨heffect.attached hsome, heffect.ends hsome hover⟩⟩, ?_⟩
    refine heffect.quiet.resolve_right ?_
    rintro ⟨task, hloop⟩
    rw [hover] at hloop
    cases hloop
  · have hstill : (c.step x).session.attachment = none := by
      rw [← Option.not_isSome_iff_eq_none]
      intro hsome
      rcases heffect.joins hsome with hbefore | ⟨hnot, -⟩
      · rw [hnone] at hbefore
        cases hbefore
      · exact hnot hresting
    refine ⟨⟨hterminal, .inr ⟨hstill, hresting.step h.terminal x⟩⟩, ?_⟩
    refine heffect.quiet.resolve_right ?_
    rintro ⟨task, hloop⟩
    simp only [Minds, hloop, hnone] at hminds
    cases hminds.1

theorem Closed.sequence_run (h : c.Closed) (hc : c.Orderly) (turns : List Turn) :
    (c.run turns).session.sequence = c.session.sequence := by
  induction turns generalizing c with
  | nil => rfl
  | cons x xs ih =>
    obtain ⟨hclosed, hsequence⟩ := h.step hc x
    exact (ih hclosed (hc.step x).1).trans hsequence

theorem watched_born (id : String) (settings : SessionConfig) (createdAt : UInt64)
    (ids : IdSupply) : (born id settings createdAt ids).Watched := ⟨nofun, nofun⟩

/-- No call that connects or closes the session is under way. -/
def Settled (c : Lifetime) : Prop :=
  ∀ f ∈ c.flights, f.demand.isConnect = true ∨ f.demand.isClose = true → f.Landed

theorem Retreat.closed {joined : Prop} (h : c.Retreat n joined)
    (hwatched : c.Watched) (hsettled : c.Settled)
    (hjoined : c.session.attachment.isSome = true → joined) : c.Closed := by
  obtain ⟨stage, hn, hcloses⟩ := h.closes
  have hlanded := hsettled _ (List.mem_of_getElem? hn) (.inr rfl)
  obtain ⟨result, rfl⟩ : ∃ result, stage = .working (.done result) := hlanded
  cases hcloses with
  | left htold hasked hend =>
    refine ⟨hend, ?_⟩
    cases hattached : c.session.attachment.isSome with
    | false =>
      refine .inr ⟨by simpa using hattached, fun f hf hd => .inl (hsettled f hf (.inl hd))⟩
    | true =>
      refine .inl ⟨rfl, ?_⟩
      rcases hwatched.watched hattached with hpending | hover | ⟨f, hf, hd, hwaits⟩
      · rw [htold (hjoined hattached)] at hpending
        cases hpending
      · exact hover
      · obtain ⟨result, hresult⟩ := hsettled f hf (.inr hd)
        rw [hwaits] at hresult
        cases hresult

/-- Whoever steps in between: when a closing has returned, the session is at its end for good. If
the session was connected when the closing began, it has asked the target to dispose of the
connection. And if, besides, nobody connects or closes the session any more, and the session was not
connected after the closing had begun, no further event is emitted. -/
theorem closing_final (id : String) (settings : SessionConfig) (createdAt : UInt64)
    (ids : IdSupply) (xs ys : List Turn) :
    let c := (born id settings createdAt ids).run xs
    let d := c.run (.begin (.errand .close) :: ys)
    ∀ f, d.flights[c.flights.length]? = some f → f.Landed →
      (d.session.state.isTerminal = true ∧
        ∀ zs, (d.run zs).session.state = d.session.state) ∧
      (c.session.attachment.isSome = true → d.Asked c.flights.length) ∧
      (d.Settled → (d.session.attachment.isSome = true → c.session.attachment.isSome = true) →
        ∀ zs, (d.run zs).session.sequence = d.session.sequence) := by
  intro c d f hf hlanded
  have hc : c.Orderly := (orderly_born id settings createdAt ids).run xs
  have hbegun := (hc.step (.begin (.errand .close))).1
  have hd : d.Orderly := hbegun.run ys
  have hwatched : d.Watched := by
    refine watched_run hbegun (Watched.step ?_ (hc.effect _)) ys
    exact watched_run (orderly_born id settings createdAt ids) (watched_born ..) xs
  have hretreat : d.Retreat c.flights.length (c.session.attachment.isSome = true) := by
    refine Retreat.run ⟨⟨.closing, ?_, .closing⟩, fun hsome => hsome⟩ hbegun ys
    simp [Lifetime.step, Demand.stage]
  obtain ⟨stage, hn, hcloses⟩ := hretreat.closes
  obtain rfl : (⟨.errand .close, stage⟩ : Flight) = f := Option.some.inj (hn.symm.trans hf)
  obtain ⟨result, rfl⟩ : ∃ result, stage = .working (.done result) := hlanded
  cases hcloses with
  | left htold hasked hend =>
    refine ⟨⟨hend, hd.state_run hend⟩, hasked, fun hsettled hjoined => ?_⟩
    exact (hretreat.closed hwatched hsettled hjoined).sequence_run hd

theorem closing_final_brief :
    ((sample.run brief).session.state.isTerminal = true ∧
      ∀ zs, ((sample.run brief).run zs).session.state = (sample.run brief).session.state) ∧
    (sample.run brief).Asked 1 ∧
    ∀ zs, ((sample.run brief).run zs).session.sequence = (sample.run brief).session.sequence := by
  have hflights : (sample.run brief).flights =
      [⟨.connect .attachedRemote "app", .working (.done none)⟩,
        ⟨.errand .close, .working (.done none)⟩] := by rfl
  have hsettled : (sample.run brief).Settled := by
    intro f hf _
    rw [hflights] at hf
    rcases List.mem_pair.1 hf with rfl | rfl <;> exact ⟨none, rfl⟩
  obtain ⟨hend, hasked, hquiet⟩ := closing_final "s" {} 0 {} joining
    (advance 1 1 ++ .stop :: advance 1 4) ⟨.errand .close, .working (.done none)⟩ (by rfl)
    ⟨none, rfl⟩
  exact ⟨hend, hasked rfl, hquiet hsettled fun _ => rfl⟩

/-! ### Closings that come too early -/

/-- The target has disposed of the connection. -/
def Disposed (c : Lifetime) : Prop :=
  ∃ who, (⟨who, .dispose, .ok ()⟩ : Exchange) ∈ c.log

/-- A closing comes and goes while the connect waits for an answer. -/
def overtaken : List Turn :=
  .begin (.connect .attachedRemote "app") :: advance 0 1 ++ .begin (.errand .close) ::
    advance 1 3 ++ advance 0 2

/-- A second closing comes and goes while the first one waits for the event loop. -/
def hurried : List Turn :=
  joining ++ .begin (.errand .close) :: advance 1 1 ++ .begin (.errand .close) :: advance 2 4

/-- The target dies, and the event loop reads of it. -/
def death : List Turn :=
  [.read (.ok (some ⟨.all, [.vmDeath]⟩)), .handle unanswered]

/-- Closings that are overtaken are not final: a session connected meanwhile keeps its connection,
and its event loop emits events; so does the loop that another closing waits for. Nor has the
target disposed of the connection when its answer fails to come. -/
theorem closing_not_always_final :
    ((∀ f ∈ (sample.run overtaken).flights, f.Landed) ∧
      (sample.run overtaken).session.attachment.isSome = true ∧
      (∀ e ∈ (sample.run overtaken).log, e.call ≠ .dispose) ∧
      ((sample.run overtaken).run death).session.sequence ≠
        (sample.run overtaken).session.sequence) ∧
    ((∀ f ∈ (sample.run hurried).flights, f.demand.isConnect = true → f.Landed) ∧
      (∃ f ∈ (sample.run hurried).flights, f.demand.isClose = true ∧ f.Landed) ∧
      ((sample.run hurried).run death).session.sequence ≠
        (sample.run hurried).session.sequence) ∧
    (∀ f ∈ (sample.run brief).flights, f.Landed) ∧
    (sample.run brief).session.attachment.isSome = true ∧ ¬(sample.run brief).Disposed := by
  have hovertaken : (sample.run overtaken).flights =
      [⟨.connect .attachedRemote "app", .working (.done none)⟩,
        ⟨.errand .close, .working (.done none)⟩] := by rfl
  have hhurried : (sample.run hurried).flights =
      [⟨.connect .attachedRemote "app", .working (.done none)⟩, ⟨.errand .close, .waiting⟩,
        ⟨.errand .close, .working (.done none)⟩] := by rfl
  have hbrief : (sample.run brief).flights =
      [⟨.connect .attachedRemote "app", .working (.done none)⟩,
        ⟨.errand .close, .working (.done none)⟩] := by rfl
  refine ⟨⟨fun f hf => ?_, rfl, ?_, by decide⟩, ⟨?_, ?_, by decide⟩, fun f hf => ?_, rfl, ?_⟩
  · rw [hovertaken] at hf
    rcases List.mem_pair.1 hf with rfl | rfl <;> exact ⟨none, rfl⟩
  · have hlog : (sample.run overtaken).log =
        [⟨some 0, .watchThreadLifecycle, .error .timeout⟩] := by rfl
    rw [hlog]
    simp
  · rw [hhurried]
    simp [Demand.isConnect, Flight.Landed]
  · rw [hhurried]
    simp [Demand.isClose, Flight.Landed]
  · rw [hbrief] at hf
    rcases List.mem_pair.1 hf with rfl | rfl <;> exact ⟨none, rfl⟩
  · have hlog : (sample.run brief).log = [⟨some 0, .watchThreadLifecycle, .error .timeout⟩,
        ⟨some 1, .dispose, .error .timeout⟩] := by rfl
    rintro ⟨who, hdisposed⟩
    rw [hlog] at hdisposed
    simp at hdisposed

end Lifetime

end JvmDebug
