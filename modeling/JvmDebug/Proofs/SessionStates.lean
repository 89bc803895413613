import JvmDebug.Proofs.StateChanges

/-!
The states of a session over its whole life. Whoever steps in between, the state changes only as it
may; the last state is final; and what begins after the end of a session does not reach the target.
-/
namespace JvmDebug

open Routine

/-! ## Connecting -/

namespace Session

def takeOver (origin : Origin) (description : String) (s : Session) : Session :=
  { s with attachment := some ⟨origin, description⟩, loopPending := true }.enter .connected

/-- The rest of a connect that has found the session new. -/
inductive Connecting : Task Session (Option DebugError) → Prop
  | asks {c : Call} {k : c.Reply → Task Session (Option DebugError)}
      (hk : ∀ reply, Connecting (k reply)) : Connecting (.request c k)
  | notes {f : Session → Session} {k : Session → Task Session (Option DebugError)}
      (hf : ∀ s, Session.Stays s (f s)) (hk : ∀ s, Connecting (k s)) : Connecting (.update f k)
  | takesOver (origin : Origin) (description : String) :
      Connecting (.update (takeOver origin description) fun _ => .done none)

/-- What a connect does on a new session. -/
def join (origin : Origin) (description : String) (s : Session) :
    Task Session (Option DebugError) :=
  let last := .update (takeOver origin description) fun _ => .done none
  if s.settings.trackThreads then
    .request .watchThreadLifecycle fun
      | .ok requests => .update (fun s => { s with lifecycleRequests := requests }) fun _ => last
      | .error _ => last
  else last

theorem connect_eq_join (origin : Origin) (description : String) :
    (connect origin description).failure? = .update (fun s => s) fun s =>
      if s.state = .created then join origin description s
      else .done (some (.sessionAlreadyExists s.id)) := by
  show Routine.update _ _ = _
  congr 1
  funext s
  dsimp only [Routine.bind, ExceptT.bindCont, Function.comp]
  by_cases hnew : s.state = .created
  · rw [if_pos hnew, if_neg (by simp [hnew]), join]
    by_cases htrack : s.settings.trackThreads = true
    · rw [if_pos htrack, if_pos htrack]
      show Routine.request _ _ = _
      congr 1
      funext reply
      cases reply <;> rfl
    · rw [if_neg htrack, if_neg htrack]
      rfl
  · rw [if_neg hnew, if_pos (by simpa using hnew)]
    rfl

theorem connecting_join (origin : Origin) (description : String) (s : Session) :
    Connecting (join origin description s) := by
  have hlast := Connecting.takesOver origin description
  simp only [join]
  split
  · refine .asks fun reply => ?_
    cases reply with
    | ok requests => exact .notes (fun s => ⟨⟨rfl, rfl, rfl⟩, rfl, rfl⟩) fun _ => hlast
    | error e => exact hlast
  · exact hlast

/-! ## What may happen to a session -/

/-- A new session is not connected, and a session that is not connected is new or at its end. -/
structure Proper (s : Session) : Prop where
  unattached : s.attachment = none → s.state = .created ∨ s.state.isTerminal = true
  attached : s.attachment.isSome = true → s.state ≠ .created

/-- The session stays connected or not; if its state changes, it comes to its end, or it is
connected and comes to run or to stop. -/
structure Changes (s t : Session) : Prop where
  attachment : t.attachment = s.attachment
  state : t.state = s.state ∨ s.state.isTerminal = false ∧ (t.state.isTerminal = true ∨
    s.attachment.isSome = true ∧ (t.state = .running ∨ t.state = .suspended))

/-- The session stays as it is or comes to its end, and no event is emitted. -/
structure Retires (s t : Session) : Prop extends s.SameTies t where
  state : t.state = s.state ∨ s.state.isTerminal = false ∧ t.state.isTerminal = true
  sequence : t.sequence = s.sequence

variable {s t : Session}

theorem Stays.retires (h : s.Stays t) : s.Retires t := ⟨h.toSameTies, .inl h.state, h.sequence⟩

theorem Retires.goes (h : s.Retires t) : s.Goes t :=
  ⟨h.toSameTies, h.state.imp_right fun h => ⟨h.1, .inr (.inr h.2)⟩, h.sequence⟩

theorem Retires.changes (h : s.Retires t) : s.Changes t :=
  ⟨h.attachment, h.state.imp_right fun h => ⟨h.1, .inl h.2⟩⟩

theorem Serves.changes (h : s.Serves t) (hs : s.attachment.isSome = true) : s.Changes t := by
  refine ⟨h.attachment, h.state.imp_right fun ⟨hlive, hstate⟩ => ⟨hlive, ?_⟩⟩
  rcases hstate with hrun | hstop | hend
  · exact .inr ⟨hs, .inl hrun⟩
  · exact .inr ⟨hs, .inr hstop⟩
  · exact .inl hend

theorem Changes.rfl : s.Changes s := Stays.rfl.retires.changes

theorem Changes.allows (h : s.Changes t) (hs : s.Proper) : s.state.Allows t.state := by
  rcases h.state with hstate | ⟨hlive, hend | ⟨hattached, hstate⟩⟩
  · rw [hstate]
    exact .stays _
  · exact .ends hlive hend
  · refine .goes ?_ hstate
    have hnew := hs.attached hattached
    cases hs : s.state <;> simp_all [SessionState.isTerminal]

theorem Changes.proper (h : s.Changes t) (hs : s.Proper) : t.Proper where
  unattached hnone := by
    rw [h.attachment] at hnone
    rcases h.state with hstate | ⟨-, hend | ⟨hattached, -⟩⟩
    · rw [hstate]
      exact hs.unattached hnone
    · exact .inr hend
    · rw [hnone] at hattached
      cases hattached
  attached hsome := by
    rw [h.attachment] at hsome
    rcases h.state with hstate | ⟨-, hend | ⟨-, hstate⟩⟩
    · rw [hstate]
      exact hs.attached hsome
    · intro hnew
      rw [hnew] at hend
      cases hend
    · rcases hstate with hstate | hstate <;> simp [hstate]

theorem isSome_attachment_takeOver (origin : Origin) (description : String) (s : Session) :
    (takeOver origin description s).attachment.isSome = true := by
  simp only [takeOver, enter]
  split <;> rfl

theorem proper_takeOver (origin : Origin) (description : String) (s : Session) :
    (takeOver origin description s).Proper := by
  have hsome := isSome_attachment_takeOver origin description s
  refine ⟨fun hnone => ?_, fun _ => ?_⟩
  · rw [hnone] at hsome
    cases hsome
  · simp only [takeOver, enter]
    split
    · next hend =>
      intro hnew
      rw [hnew] at hend
      cases hend
    · intro hnew
      cases hnew

theorem allows_takeOver (hs : s.Proper) (hnone : s.attachment = none) (origin : Origin)
    (description : String) : s.state.Allows (takeOver origin description s).state := by
  simp only [takeOver, enter]
  split
  · exact .stays _
  · next hlive =>
    have hnew : s.state = .created := (hs.unattached hnone).resolve_right hlive
    rw [hnew]
    exact .connects

theorem proper_new (id : String) (settings : SessionConfig) (createdAt : UInt64) (ids : IdSupply) :
    (Session.new id settings createdAt ids).Proper := ⟨fun _ => .inl rfl, nofun⟩

end Session

abbrev Routine.Wanes {α : Type} (m : Task Session α) : Prop :=
  m.Within (fun _ => True) Session.Retires

theorem Session.wanes_letGo : Wanes Session.letGo := by
  refine within_bind ?_ fun _ => trivial
  refine within_bind (fun s => ⟨Session.Stays.rfl.retires, trivial⟩) fun s => ?_
  have hend : Wanes (Routine.modify fun s : Session => s.enter .disconnected) := by
    refine within_modify fun s => ?_
    simp only [Session.enter]
    split
    · exact Session.Stays.rfl.retires
    · next h => exact ⟨⟨rfl, rfl, rfl⟩, .inr ⟨Bool.eq_false_iff.2 h, rfl⟩, rfl⟩
  split
  · exact within_bind ⟨trivial, fun _ => trivial⟩ fun _ => hend
  · exact hend

/-! ## The order of a life -/

namespace Lifetime

variable {c c' : Lifetime} {n : Nat}

/-- What the flight `n` can be about. Only the connect that has the lock is beyond its first step,
and then the session is not connected yet. -/
inductive Fits (c : Lifetime) (n : Nat) : Flight → Prop
  | closing {d : Demand} (hd : d.isClose = true) : Fits c n ⟨d, .closing⟩
  | waiting {d : Demand} (hd : d.isClose = true) : Fits c n ⟨d, .waiting⟩
  | landed (d : Demand) (result : Option DebugError) : Fits c n ⟨d, .working (.done result)⟩
  | gated {d : Demand} (hd : d.isConnect = false) {task : Task Session (Option DebugError)}
      (h : task.Gated (fun _ => True) Session.Stays Session.Goes fun _ => True) :
      Fits c n ⟨d, .working task⟩
  | wanes {d : Demand} (hd : d.isConnect = false) {task : Task Session (Option DebugError)}
      (h : Wanes task) : Fits c n ⟨d, .working task⟩
  | drives {d : Demand} (hd : d.isConnect = false) {task : Task Session (Option DebugError)}
      (h : Drives task) (hattached : c.session.attachment.isSome = true) :
      Fits c n ⟨d, .working task⟩
  | unstarted (origin : Origin) (description : String) :
      Fits c n ⟨.connect origin description, .working (Session.connect origin description).failure?⟩
  | connecting {d : Demand} (hd : d.isConnect = true) {task : Task Session (Option DebugError)}
      (h : Session.Connecting task) (hlock : c.lock = some n) (hnone : c.session.attachment = none) :
      Fits c n ⟨d, .working task⟩

theorem fits_begin (c : Lifetime) (n : Nat) (d : Demand) : c.Fits n ⟨d, d.stage⟩ := by
  cases d with
  | connect origin description => exact .unstarted origin description
  | operation o =>
    cases ho : o.takesOut with
    | true => exact .wanes rfl ((Operation.calm_task_of_takesOut ho).mono (fun _ h => h)
        fun _ _ h => h.retires)
    | false => exact .gated rfl (Operation.gated_task ho)
  | errand e =>
    by_cases he : e = .close
    · subst he
      exact .closing rfl
    · have hstage : (Demand.errand e).stage = .working e.task := by
        cases e <;> first | rfl | exact absurd rfl he
      rw [hstage]
      exact .gated rfl ((gated_errand he).mono (fun _ _ => trivial) (fun _ _ h => h.stays)
        (fun _ _ h => h.stays.goes) fun _ h => h)

theorem Fits.keep {f : Flight} (h : c.Fits n f)
    (hattached : c.session.attachment.isSome = true → c'.session.attachment.isSome = true)
    (hconnecting : c.lock = some n → c.session.attachment = none →
      c'.lock = some n ∧ c'.session.attachment = none) : c'.Fits n f := by
  cases h with
  | closing hd => exact .closing hd
  | waiting hd => exact .waiting hd
  | landed d result => exact .landed d result
  | gated hd h => exact .gated hd h
  | wanes hd h => exact .wanes hd h
  | drives hd h hsome => exact .drives hd h (hattached hsome)
  | unstarted origin description => exact .unstarted origin description
  | connecting hd h hlock hnone =>
    obtain ⟨hlock', hnone'⟩ := hconnecting hlock hnone
    exact .connecting hd h hlock' hnone'

/-- The event loop is born when the session is connected. -/
def Minds (c : Lifetime) : Prop :=
  match c.loop with
  | .unborn => True
  | .waiting | .over => c.session.attachment.isSome = true
  | .handling task => c.session.attachment.isSome = true ∧ Serving task

structure Orderly (c : Lifetime) : Prop where
  proper : c.session.Proper
  fits : ∀ n f, c.flights[n]? = some f → c.Fits n f
  minds : c.Minds
  logged : ∀ e ∈ c.log, ∀ n, e.who = some n → n < c.flights.length

/-! ### Steps -/

theorem orderly_born (id : String) (settings : SessionConfig) (createdAt : UInt64)
    (ids : IdSupply) : (born id settings createdAt ids).Orderly where
  proper := Session.proper_new id settings createdAt ids
  fits n f h := by cases h
  minds := trivial
  logged e he := by cases he

theorem Minds.keep (h : c.Minds) (hloop : c'.loop = c.loop)
    (hattached : c.session.attachment.isSome = true → c'.session.attachment.isSome = true) :
    c'.Minds := by
  simp only [Minds, hloop] at h ⊢
  split
  · trivial
  · next heq => rw [heq] at h; exact hattached h
  · next heq => rw [heq] at h; exact hattached h
  · next heq => rw [heq] at h; exact ⟨hattached h.1, h.2⟩

/-- The session changes as it may, the lock stays where it is, and what is new fits. -/
theorem Orderly.change (h : c.Orderly) (hsession : c.session.Changes c'.session)
    (hlock : c'.lock = c.lock)
    (hfits : ∀ n f, c'.flights[n]? = some f → c.flights[n]? = some f ∨ c'.Fits n f)
    (hminds : c'.Minds)
    (hlogged : ∀ e ∈ c'.log, e ∈ c.log ∨ ∀ n, e.who = some n → n < c'.flights.length)
    (hlength : c.flights.length ≤ c'.flights.length) : c'.Orderly where
  proper := hsession.proper h.proper
  fits n f hf := by
    refine (hfits n f hf).elim (fun hold => (h.fits n f hold).keep ?_ ?_) fun hnew => hnew
    · exact fun hsome => hsession.attachment ▸ hsome
    · exact fun hunder hnone => ⟨hlock ▸ hunder, hsession.attachment ▸ hnone⟩
  minds := hminds
  logged e he n hn := by
    refine (hlogged e he).elim (fun hold => ?_) fun hnew => hnew n hn
    exact Nat.lt_of_lt_of_le (h.logged e hold n hn) hlength

theorem getElem?_setStage {f g : Flight} {stage : FlightStage} {m : Nat}
    (h : (c.setStage n f stage).flights[m]? = some g) :
    m = n ∧ g = { f with stage } ∨ m ≠ n ∧ c.flights[m]? = some g := by
  simp only [setStage] at h
  by_cases hm : m = n
  · subst hm
    rw [List.getElem?_set_self'] at h
    obtain ⟨_, -, rfl⟩ := Option.map_eq_some_iff.1 h
    exact .inl ⟨rfl, rfl⟩
  · exact .inr ⟨hm, by rwa [List.getElem?_set_ne (Ne.symm hm)] at h⟩

theorem who_of_mem_logEntries {α : Type} {who : Option Nat} {reply : Replies}
    {task : Task Session α} {e : Exchange} (h : e ∈ logEntries who reply task) : e.who = who := by
  obtain ⟨call, -, rfl⟩ := List.mem_map.1 h
  rfl

theorem isSome_attachment_of_reach {s : Session} (h : s.unreachable? = none) :
    s.attachment.isSome = true := by
  simp only [Session.unreachable?] at h
  repeat' split at h
  · cases h
  · cases h
  · next hattached => simpa [Option.isSome_iff_ne_none] using hattached

/-- The step of a flight that is not about connecting. -/
theorem Fits.tick {d : Demand} {task : Task Session (Option DebugError)}
    (h : c.Fits n ⟨d, .working task⟩) (hd : d.isConnect = false) (reply : Replies) :
    c.session.Goes (task.tick reply c.session).2 ∧
      c.session.Changes (task.tick reply c.session).2 ∧
      ∀ c' : Lifetime, c'.session.attachment = c.session.attachment →
        c'.Fits n ⟨d, .working (task.tick reply c.session).1⟩ := by
  cases h with
  | landed d result => exact ⟨.rfl, .rfl, fun c' _ => .landed d result⟩
  | gated _ h =>
    obtain ⟨hstays, hnext⟩ := h.tick (fun _ => .rfl) reply c.session
    refine ⟨hstays.goes, hstays.retires.changes, fun c' hsame => ?_⟩
    rcases hnext with ⟨hreach, hnext⟩ | hnext
    · exact .drives hd hnext (hsame ▸ isSome_attachment_of_reach hreach)
    · exact .gated hd hnext
  | wanes _ h =>
    obtain ⟨hretires, hnext⟩ := h.tick (fun _ => Session.Stays.rfl.retires) reply c.session
    exact ⟨hretires.goes, hretires.changes, fun c' _ => .wanes hd hnext⟩
  | drives _ h hattached =>
    obtain ⟨hgoes, hnext⟩ := h.tick (fun _ => .rfl) reply c.session
    refine ⟨hgoes, hgoes.serves.changes hattached, fun c' hsame => ?_⟩
    exact .drives hd hnext (hsame ▸ hattached)
  | unstarted origin description => cases hd
  | connecting hconnect => rw [hd] at hconnect; cases hconnect

theorem Orderly.work (h : c.Orderly) {f : Flight} (hf : c.flights[n]? = some f)
    {task : Task Session (Option DebugError)} (hstage : f.stage = .working task)
    (hd : f.demand.isConnect = false) (reply : Replies) :
    (c.work n f task reply).Orderly ∧ c.session.Changes (c.work n f task reply).session := by
  obtain ⟨d, stage⟩ := f
  obtain rfl : stage = .working task := hstage
  obtain ⟨-, hchanges, hfits⟩ := (h.fits n _ hf).tick hd reply
  have hlength : n < c.flights.length := (List.getElem?_eq_some_iff.1 hf).1
  have hwork : c.work n ⟨d, .working task⟩ task reply =
      { c with
        session := (task.tick reply c.session).2
        log := c.log ++ logEntries (some n) reply task
        flights := c.flights.set n ⟨d, .working (task.tick reply c.session).1⟩ } := by
    simp only [Lifetime.work, hd, Bool.false_eq_true, if_false, setStage]
  rw [hwork]
  refine ⟨h.change hchanges rfl (fun m g hg => ?_) (h.minds.keep rfl fun hsome => ?_) ?_ ?_,
    hchanges⟩
  · rcases getElem?_setStage (f := ⟨d, .working task⟩) hg with ⟨rfl, rfl⟩ | ⟨-, hold⟩
    · exact .inr (hfits _ hchanges.attachment)
    · exact .inl hold
  · exact hchanges.attachment ▸ hsome
  · intro e he
    refine (List.mem_append.1 he).imp_right fun hnew m hm => ?_
    rw [who_of_mem_logEntries hnew] at hm
    obtain rfl := Option.some.inj hm
    simpa using hlength
  · simp

/-- What a step of connect `n` has to leave for a session to be in order: `task` is what is left of
it, `s` is the session then. -/
structure Passes (c : Lifetime) (n : Nat) (d : Demand) (task : Task Session (Option DebugError))
    (s : Session) : Prop where
  proper : s.Proper
  allows : c.session.state.Allows s.state
  attached : c.session.attachment.isSome = true → s.attachment.isSome = true
  fits : ∀ c' : Lifetime, c'.session = s →
    c'.lock = (if task.result?.isSome then none else some n) → c'.Fits n ⟨d, .working task⟩
  born : task.result? = some none → s.attachment.isSome = true

/-- The step of the connect that has the lock or takes it. -/
theorem Orderly.pass (h : c.Orderly) {d : Demand} {task : Task Session (Option DebugError)}
    (hf : c.flights[n]? = some ⟨d, .working task⟩) (hd : d.isConnect = true)
    (hlock : ∀ m, c.lock = some m → m = n) (reply : Replies)
    (hp : c.Passes n d (task.tick reply c.session).1 (task.tick reply c.session).2) :
    (c.work n ⟨d, .working task⟩ task reply).Orderly := by
  have hlength : n < c.flights.length := (List.getElem?_eq_some_iff.1 hf).1
  generalize hc' : c.work n ⟨d, .working task⟩ task reply = c'
  have hwork : c' = { c with
      session := (task.tick reply c.session).2
      log := c.log ++ logEntries (some n) reply task
      lock := if (task.tick reply c.session).1.result?.isSome then none else some n
      loop := if (task.tick reply c.session).1.result? = some none then .waiting else c.loop
      flights := c.flights.set n ⟨d, .working (task.tick reply c.session).1⟩ } := by
    rw [← hc']
    simp only [Lifetime.work, hd, if_true, setStage, passLock]
  have hsession : c'.session = (task.tick reply c.session).2 := by rw [hwork]
  refine ⟨hsession ▸ hp.proper, fun m g hg => ?_, ?_, fun e he m hm => ?_⟩
  · rw [hwork] at hg
    rcases getElem?_setStage (c := c) (f := ⟨d, .working task⟩) hg with ⟨rfl, rfl⟩ | ⟨hm, hold⟩
    · exact hp.fits c' hsession (by rw [hwork])
    · exact (h.fits m g hold).keep (fun hsome => hsession ▸ hp.attached hsome)
        fun hunder _ => absurd (hlock m hunder) hm
  · by_cases hdone : (task.tick reply c.session).1.result? = some none
    · have hloop : c'.loop = .waiting := by rw [hwork]; exact if_pos hdone
      simp only [Minds, hloop]
      exact hsession ▸ hp.born hdone
    · refine h.minds.keep (by rw [hwork]; exact if_neg hdone) fun hsome => ?_
      exact hsession ▸ hp.attached hsome
  · rw [hwork] at he ⊢
    simp only [List.length_set]
    rcases List.mem_append.1 he with hold | hnew
    · exact h.logged e hold m hm
    · rw [who_of_mem_logEntries hnew] at hm
      exact Option.some.inj hm ▸ hlength

theorem result?_connecting {task : Task Session (Option DebugError)} (h : Session.Connecting task) :
    task.result? = none := by
  cases h <;> rfl

/-- Until the connect takes over, the session has no attachment and stays as it is. -/
theorem passes_connecting {d : Demand} {task : Task Session (Option DebugError)} {s : Session}
    (hproper : c.session.Proper) (hd : d.isConnect = true) (hstays : c.session.Stays s)
    (hnone : c.session.attachment = none) (ht : Session.Connecting task) :
    c.Passes n d task s where
  proper := hstays.retires.changes.proper hproper
  allows := hstays.retires.changes.allows hproper
  attached hsome := hstays.attachment ▸ hsome
  fits c' hsame hlock := by
    rw [result?_connecting ht] at hlock
    exact .connecting hd ht hlock (by rw [hsame]; exact hstays.attachment.trans hnone)
  born hdone := by
    rw [result?_connecting ht] at hdone
    cases hdone

theorem passes_refused {d : Demand} {e : DebugError} (hproper : c.session.Proper) :
    c.Passes n d (.done (some e)) c.session where
  proper := hproper
  allows := .stays _
  attached := id
  fits _ _ _ := .landed d (some e)
  born hdone := by cases hdone

theorem passes_takeOver {d : Demand} (hproper : c.session.Proper)
    (hnone : c.session.attachment = none) (origin : Origin) (description : String) :
    c.Passes n d (.done none) (Session.takeOver origin description c.session) where
  proper := Session.proper_takeOver origin description c.session
  allows := Session.allows_takeOver hproper hnone origin description
  attached _ := Session.isSome_attachment_takeOver origin description c.session
  fits _ _ _ := .landed d none
  born _ := Session.isSome_attachment_takeOver origin description c.session

theorem Fits.passes {d : Demand} {task : Task Session (Option DebugError)}
    (h : c.Fits n ⟨d, .working task⟩) (hproper : c.session.Proper) (hd : d.isConnect = true)
    (hopen : task.result? = none) (reply : Replies) :
    c.Passes n d (task.tick reply c.session).1 (task.tick reply c.session).2 := by
  cases h with
  | landed d result => cases hopen
  | gated hd' | wanes hd' | drives hd' => rw [hd'] at hd; cases hd
  | unstarted origin description =>
    have htick : (Session.connect origin description).failure?.tick reply c.session =
        (if c.session.state = .created then Session.join origin description c.session
          else .done (some (.sessionAlreadyExists c.session.id)), c.session) := by
      rw [Session.connect_eq_join]
      rfl
    rw [htick]
    by_cases hnew : c.session.state = .created
    · have hnone : c.session.attachment = none := by
        rw [← Option.not_isSome_iff_eq_none]
        exact fun hsome => hproper.attached hsome hnew
      simp only [if_pos hnew]
      exact passes_connecting hproper hd .rfl hnone
        (Session.connecting_join origin description c.session)
    · simp only [if_neg hnew]
      exact passes_refused hproper
  | connecting _ hconnecting hunder hnone =>
    cases hconnecting with
    | asks hk => exact passes_connecting hproper hd .rfl hnone (hk _)
    | notes hf hk => exact passes_connecting hproper hd (hf c.session) hnone (hk _)
    | takesOver origin description => exact passes_takeOver hproper hnone origin description

theorem Orderly.work_connect (h : c.Orderly) {f : Flight} (hf : c.flights[n]? = some f)
    {task : Task Session (Option DebugError)} (hstage : f.stage = .working task)
    (hd : f.demand.isConnect = true) (hopen : task.result? = none)
    (hlock : ∀ m, c.lock = some m → m = n) (reply : Replies) :
    (c.work n f task reply).Orderly ∧
      c.session.state.Allows (c.work n f task reply).session.state := by
  obtain ⟨d, stage⟩ := f
  obtain rfl : stage = .working task := hstage
  have hp := (h.fits n _ hf).passes h.proper hd hopen reply
  refine ⟨h.pass hf hd hlock reply hp, ?_⟩
  have hsession : (c.work n ⟨d, .working task⟩ task reply).session =
      (task.tick reply c.session).2 := by
    simp only [Lifetime.work, hd, if_true, setStage, passLock]
  rw [hsession]
  exact hp.allows

theorem Orderly.setStage (h : c.Orderly) {f : Flight} {stage : FlightStage} {session : Session}
    (hsession : c.session.Changes session)
    (hnew : ∀ c' : Lifetime, c'.Fits n { f with stage }) :
    ({ c with session }.setStage n f stage).Orderly := by
  refine h.change hsession rfl (fun m g hg => ?_) (h.minds.keep rfl fun hsome => ?_)
    (fun e he => .inl he) ?_
  · rcases getElem?_setStage hg with ⟨rfl, rfl⟩ | ⟨-, hold⟩
    · exact .inr (hnew _)
    · exact .inl hold
  · exact hsession.attachment ▸ hsome
  · simp [Lifetime.setStage]

theorem Orderly.go (h : c.Orderly) {f : Flight} (hf : c.flights[n]? = some f) (reply : Replies) :
    (c.go n f reply).Orderly ∧ c.session.state.Allows (c.go n f reply).session.state := by
  obtain ⟨d, stage⟩ := f
  have hfits := h.fits n _ hf
  cases stage with
  | closing =>
    cases hfits with
    | closing hd =>
      refine ⟨?_, .stays _⟩
      refine h.setStage ⟨rfl, .inl rfl⟩ fun c' => ?_
      dsimp only
      split
      · exact .waiting hd
      · exact .wanes (Demand.isConnect_of_isClose hd) Session.wanes_letGo
  | waiting =>
    cases hfits with
    | waiting hd =>
      simp only [Lifetime.go]
      split
      · have hwanes := Session.wanes_letGo
        exact ⟨h.setStage .rfl fun c' => .wanes (Demand.isConnect_of_isClose hd) hwanes, .stays _⟩
      all_goals exact ⟨h, .stays _⟩
  | working task =>
    simp only [Lifetime.go]
    split
    · exact ⟨h, .stays _⟩
    · next hopen =>
      simp only [Bool.or_eq_true, Bool.and_eq_true, not_or, not_and, Bool.not_eq_true,
        Option.isSome_eq_false_iff, Option.isNone_iff_eq_none] at hopen
      cases hd : d.isConnect with
      | true =>
        refine h.work_connect hf rfl hd hopen.1 (fun m hm => ?_) reply
        have hlock := hopen.2 hd
        rw [hm] at hlock
        simpa using hlock
      | false =>
        obtain ⟨hc, hchanges⟩ := h.work hf rfl hd reply
        exact ⟨hc, hchanges.allows h.proper⟩

theorem Orderly.handle (h : c.Orderly) {task : Task Session Bool} (hloop : c.loop = .handling task)
    (reply : Replies) :
    (c.handle task reply).Orderly ∧ c.session.Changes (c.handle task reply).session := by
  have hminds := h.minds
  simp only [Minds, hloop] at hminds
  obtain ⟨hattached, hserving⟩ := hminds
  simp only [Lifetime.handle]
  split
  · exact ⟨h.change .rfl rfl (fun _ _ hf => .inl hf) hattached (fun _ he => .inl he) le_rfl, .rfl⟩
  · exact ⟨h.change .rfl rfl (fun _ _ hf => .inl hf) hattached (fun _ he => .inl he) le_rfl, .rfl⟩
  · obtain ⟨hserves, hnext⟩ := hserving.tick (fun _ => .rfl) reply c.session
    have hchanges := hserves.changes hattached
    refine ⟨h.change hchanges rfl (fun _ _ hf => .inl hf) ?_ (fun e he => ?_) le_rfl, hchanges⟩
    · exact ⟨hchanges.attachment ▸ hattached, hnext⟩
    · refine (List.mem_append.1 he).imp_right fun hnew m hm => ?_
      rw [who_of_mem_logEntries hnew] at hm
      cases hm

theorem Orderly.step (h : c.Orderly) (x : Turn) :
    (c.step x).Orderly ∧ c.session.state.Allows (c.step x).session.state := by
  have hsame (loop : LoopStage) (hminds : Minds { c with loop }) : Orderly { c with loop } :=
    h.change .rfl rfl (fun _ _ hf => .inl hf) hminds (fun _ he => .inl he) le_rfl
  cases x with
  | begin d =>
    refine ⟨h.change .rfl rfl (fun m g hg => ?_) (h.minds.keep rfl fun hsome => hsome)
      (fun _ he => .inl he) (by simp [Lifetime.step]), .stays _⟩
    simp only [Lifetime.step, List.getElem?_append] at hg
    split at hg
    · exact .inl hg
    · obtain ⟨-, rfl⟩ := List.getElem?_eq_some_iff.1 hg
      refine .inr ?_
      simpa using fits_begin _ m d
  | go n reply =>
    simp only [Lifetime.step]
    split
    · exact ⟨h, .stays _⟩
    · next f hf => exact h.go hf reply
  | read r =>
    simp only [Lifetime.step]
    split
    · next hloop =>
      have hminds := h.minds
      simp only [Minds, hloop] at hminds
      exact ⟨hsame _ ⟨hminds, Session.serving_handleReading r⟩, .stays _⟩
    all_goals exact ⟨h, .stays _⟩
  | handle reply =>
    simp only [Lifetime.step]
    split
    · next task hloop =>
      obtain ⟨hc, hchanges⟩ := h.handle hloop reply
      exact ⟨hc, hchanges.allows h.proper⟩
    all_goals exact ⟨h, .stays _⟩
  | stop =>
    simp only [Lifetime.step]
    split
    · next hloop =>
      have hminds := h.minds
      simp only [Minds, hloop] at hminds
      split
      · exact ⟨hsame _ hminds, .stays _⟩
      · exact ⟨h, .stays _⟩
    all_goals exact ⟨h, .stays _⟩

theorem Orderly.run (h : c.Orderly) (turns : List Turn) : (c.run turns).Orderly := by
  induction turns generalizing c with
  | nil => exact h
  | cons x xs ih => exact ih (h.step x).1

/-! ### The last state -/

theorem Orderly.state_run (h : c.Orderly) (hend : c.session.state.isTerminal = true)
    (turns : List Turn) : (c.run turns).session.state = c.session.state := by
  induction turns generalizing c with
  | nil => rfl
  | cons x xs ih =>
    obtain ⟨hstep, hallows⟩ := h.step x
    have hstate := hallows.of_terminal hend
    exact (ih hstep (hstate ▸ hend)).trans hstate

end Lifetime

/-- After the end of the session the routine asks for nothing. -/
def Routine.Mute {α : Type} : Task Session α → Prop
  | .done _ => True
  | .request .. => False
  | .update _ k => ∀ s, s.state.isTerminal = true → Mute (k s)

theorem Routine.Gated.mute {α : Type} {P : Call → Prop} {V U : Session → Session → Prop}
    {Q : α → Prop} {m : Task Session α} (hm : m.Gated P V U Q) : m.Mute := by
  induction m with
  | done a => trivial
  | request c k => exact hm.elim
  | update f k ih =>
    intro s hend
    rcases (hm s).2 with ⟨hreach, -⟩ | hnext
    · simp [Session.unreachable?, hend] at hreach
    · exact ih s hnext

theorem Session.mute_connect (origin : Origin) (description : String) :
    (connect origin description).failure?.Mute := by
  rw [connect_eq_join]
  intro s hend
  have hnew : s.state ≠ .created := by
    intro hnew
    rw [hnew] at hend
    cases hend
  dsimp only
  rw [if_neg hnew]
  trivial

theorem Routine.Mute.tick {α : Type} {m : Task Session α} (hm : m.Mute) {s : Session}
    (hend : s.state.isTerminal = true) (who : Option Nat) (reply : Replies) :
    (m.tick reply s).1.Mute ∧ logEntries who reply m = [] := by
  cases m with
  | done a => exact ⟨hm, rfl⟩
  | request c k => exact hm.elim
  | update f k => exact ⟨hm s hend, rfl⟩

/-- What still has to reach the target after the end of the session: the connection is let go of,
and requests that the session has made are deleted. -/
def Demand.isLate : Demand → Bool
  | .operation o => o.takesOut
  | .errand .close => true
  | .connect .. | .errand _ => false

theorem Demand.mute_stage {d : Demand} (hd : d.isLate = false) :
    ∃ task, d.stage = .working task ∧ task.Mute := by
  cases d with
  | connect origin description => exact ⟨_, rfl, Session.mute_connect origin description⟩
  | operation o => exact ⟨_, rfl, (Operation.gated_task hd).mute⟩
  | errand e =>
    have he : e ≠ .close := fun he => by
      rw [he] at hd
      cases hd
    refine ⟨e.task, ?_, (gated_errand he).mute⟩
    cases e <;> first | rfl | exact absurd rfl he

namespace Lifetime

variable {c : Lifetime} {n : Nat}

theorem flights_go {f : Flight} {m : Nat} (hm : m ≠ n) (reply : Replies) :
    (c.go m f reply).flights[n]? = c.flights[n]? := by
  have hset (d : Lifetime) (hd : d.flights = c.flights) (stage : FlightStage) :
      (d.setStage m f stage).flights[n]? = c.flights[n]? := by
    rw [setStage, List.getElem?_set_ne hm, hd]
  simp only [go]
  split
  · exact hset _ rfl _
  · split
    · exact hset _ rfl _
    all_goals rfl
  · split
    · rfl
    · refine hset _ ?_ _
      split <;> rfl

theorem log_go {f : Flight} {m : Nat} {reply : Replies} {e : Exchange}
    (he : e ∈ (c.go m f reply).log) : e ∈ c.log ∨ e.who = some m := by
  simp only [go] at he
  split at he
  · exact .inl he
  · split at he
    all_goals exact .inl he
  · split at he
    · exact .inl he
    · next task _ _ =>
      have hlog : (c.work m f task reply).log = c.log ++ logEntries (some m) reply task := by
        simp only [work, setStage]
        split <;> rfl
      rw [hlog] at he
      exact (List.mem_append.1 he).imp_right who_of_mem_logEntries

/-- The flight `n` is at work and asks for nothing after the end of the session. -/
def Silent (c : Lifetime) (n : Nat) : Prop :=
  ∃ d task, c.flights[n]? = some ⟨d, .working task⟩ ∧ task.Mute

theorem Silent.go (h : c.Silent n) (hend : c.session.state.isTerminal = true) {m : Nat}
    {f : Flight} (hf : c.flights[m]? = some f) (reply : Replies) :
    (c.go m f reply).Silent n ∧ ∀ e ∈ (c.go m f reply).log, e ∈ c.log ∨ e.who ≠ some n := by
  obtain ⟨d, task, hn, hmute⟩ := h
  by_cases hm : m = n
  · subst hm
    obtain rfl : (⟨d, .working task⟩ : Flight) = f := Option.some.inj (hn.symm.trans hf)
    obtain ⟨hnext, hnone⟩ := hmute.tick hend (some m) reply
    have hlength := (List.getElem?_eq_some_iff.1 hn).1
    simp only [Lifetime.go]
    split
    · exact ⟨⟨d, task, hn, hmute⟩, fun e he => .inl he⟩
    · refine ⟨⟨d, (task.tick reply c.session).1, ?_, hnext⟩, fun e he => .inl ?_⟩
      · simp only [work, setStage]
        split <;> exact List.getElem?_set_self hlength
      · simp only [work, setStage, hnone, List.append_nil] at he
        split at he <;> exact he
  · refine ⟨⟨d, task, (flights_go hm reply).trans hn, hmute⟩, fun e he => ?_⟩
    refine (log_go he).imp_right fun hwho heq => hm ?_
    exact Option.some.inj (hwho.symm.trans heq)

theorem Silent.step (h : c.Silent n) (hend : c.session.state.isTerminal = true) (x : Turn) :
    (c.step x).Silent n ∧ ∀ e ∈ (c.step x).log, e ∈ c.log ∨ e.who ≠ some n := by
  obtain ⟨d, task, hn, hmute⟩ := id h
  cases x with
  | begin d' =>
    have hlength := (List.getElem?_eq_some_iff.1 hn).1
    exact ⟨⟨d, task, (List.getElem?_append_left hlength).trans hn, hmute⟩, fun e he => .inl he⟩
  | go m reply =>
    simp only [Lifetime.step]
    split
    · exact ⟨h, fun e he => .inl he⟩
    · next f hf => exact h.go hend hf reply
  | read r =>
    simp only [Lifetime.step]
    split <;> exact ⟨h, fun e he => .inl he⟩
  | handle reply =>
    simp only [Lifetime.step]
    split
    · simp only [handle]
      split
      · exact ⟨h, fun e he => .inl he⟩
      · exact ⟨h, fun e he => .inl he⟩
      · refine ⟨h, fun e he => (List.mem_append.1 he).imp_right fun hnew => ?_⟩
        rw [who_of_mem_logEntries hnew]
        nofun
    all_goals exact ⟨h, fun e he => .inl he⟩
  | stop =>
    simp only [Lifetime.step]
    split
    · split <;> exact ⟨h, fun e he => .inl he⟩
    all_goals exact ⟨h, fun e he => .inl he⟩

theorem Silent.run (h : c.Silent n) (hc : c.Orderly) (hend : c.session.state.isTerminal = true)
    (hlog : ∀ e ∈ c.log, e.who ≠ some n) (turns : List Turn) :
    ∀ e ∈ (c.run turns).log, e.who ≠ some n := by
  induction turns generalizing c with
  | nil => exact hlog
  | cons x xs ih =>
    obtain ⟨hnext, hnew⟩ := h.step hend x
    obtain ⟨hstep, hallows⟩ := hc.step x
    refine ih hnext hstep ?_ fun e he => (hnew e he).elim (hlog e) fun hwho => hwho
    rw [hallows.of_terminal hend]
    exact hend

/-- Over the whole life of a session its state changes only as it may, whoever steps in between and
whatever the target answers; the last state is never left; and what begins in it, but for closing
and the taking out of breakpoints, makes no call. -/
theorem state_lifelong (id : String) (settings : SessionConfig) (createdAt : UInt64)
    (ids : IdSupply) (xs : List Turn) :
    let c := (born id settings createdAt ids).run xs
    (∀ x, c.session.state.Allows (c.step x).session.state) ∧
    (c.session.state.isTerminal = true → ∀ ys, (c.run ys).session.state = c.session.state) ∧
    (c.session.state.isTerminal = true → ∀ d : Demand, d.isLate = false → ∀ ys,
      ∀ e ∈ (c.run (.begin d :: ys)).log, e.who ≠ some c.flights.length) := by
  intro c
  have hc : c.Orderly := (orderly_born id settings createdAt ids).run xs
  refine ⟨fun x => (hc.step x).2, fun hend ys => hc.state_run hend ys, fun hend d hd ys => ?_⟩
  obtain ⟨task, hstage, hmute⟩ := Demand.mute_stage hd
  have hsilent : (c.step (.begin d)).Silent c.flights.length := by
    refine ⟨d, task, ?_, hmute⟩
    simp [Lifetime.step, hstage]
  refine hsilent.run (hc.step _).1 hend (fun e he hwho => ?_) ys
  exact Nat.lt_irrefl _ (hc.logged e he _ hwho)

theorem state_lifelong_brief :
    (sample.run brief).session.state.isTerminal = true ∧
    (∀ ys, ((sample.run brief).run ys).session.state = .disconnected) ∧
    ∀ ys, ∀ e ∈ ((sample.run brief).run (.begin (.operation .resume) :: ys)).log,
      e.who ≠ some 2 := by
  have hend : (sample.run brief).session.state.isTerminal = true := by rfl
  have hlife := state_lifelong "s" {} 0 {} brief
  exact ⟨hend, hlife.2.1 hend, hlife.2.2 hend (.operation .resume) rfl⟩

end Lifetime

end JvmDebug
