import JvmDebug.Proofs.Histories
import JvmDebug.Wire.Remote
import Mathlib.Data.List.Forall2

/-!
Event sets on their way from the reader to the callers of `Remote.nextEvents`. Each call takes the
oldest set and converts it, which may need commands; the reader, the machine and other calls go on
meanwhile. Main result: `Intake.Run.inOrder_and_intact_iff`.
-/
namespace JvmDebug

namespace Routine
variable {ι : Type} {ρ : ι → Type} {σ α β : Type}

/-- A result that a routine comes to with some answers to its requests, whatever others make of the
state in between. -/
inductive Yields : Routine ι ρ σ α → α → Prop
  | done (a : α) : Yields (.done a) a
  | request {i : ι} {k : ρ i → Routine ι ρ σ α} {a : α} (r : ρ i) (h : Yields (k r) a) :
      Yields (.request i k) a
  | update {f : σ → σ} {k : σ → Routine ι ρ σ α} {a : α} (s : σ) (h : Yields (k s) a) :
      Yields (.update f k) a

theorem yields_done {a b : α} : (done a : Routine ι ρ σ α).Yields b ↔ b = a :=
  ⟨fun h => by cases h; rfl, fun h => h ▸ .done a⟩

theorem Yields.of_bind {m : Routine ι ρ σ α} {g : α → Routine ι ρ σ β} {b : β}
    (h : (bind m g).Yields b) : ∃ a, m.Yields a ∧ (g a).Yields b := by
  induction m with
  | done a => exact ⟨a, .done a, h⟩
  | request i k ih =>
    cases h with
    | request r h =>
      obtain ⟨a, ha, hb⟩ := ih r h
      exact ⟨a, .request r ha, hb⟩
  | update f k ih =>
    cases h with
    | update s h =>
      obtain ⟨a, ha, hb⟩ := ih s h
      exact ⟨a, .update s ha, hb⟩

end Routine

namespace Wire

/-! ## Conversions -/

/-- What the target tells of a happening. Whose request it was, and the type of an exception object,
depend on when it is asked. -/
inductive Happening.Becomes : Happening → TargetEvent → Prop
  | step (request : Option RequestId) (t : ThreadId) (l : Location) :
      Becomes (.step t l) (.step request t l)
  | breakpoint (request : Option RequestId) (t : ThreadId) (l : Location) :
      Becomes (.breakpoint t l) (.breakpoint request t l)
  | exception (request : Option RequestId) (t : ThreadId) (l : Location) {x : Tagged}
      {o : ObjectRef} (c : Option Location) (hid : o.id = x.id) :
      Becomes (.exception t l x c) (.exception request t l o c)
  | threadStart (t : ThreadId) : Becomes (.threadStart t) (.threadStart t)
  | threadDeath (t : ThreadId) : Becomes (.threadDeath t) (.threadDeath t)
  | classPrepare (request : Option RequestId) (t : ThreadId) (tag : UInt8) (c : TypeId)
      (signature : String) (status : UInt32) :
      Becomes (.classPrepare t tag c signature status)
        (.classPrepare request t ⟨c, Signature.toTypeName signature, TypeKind.ofTag tag⟩)
  | vmStart (t : ThreadId) : Becomes (.vmStart t) (.vmStart t)
  | vmDeath : Becomes .vmDeath .vmDeath

def Happening.isException : Happening → Bool
  | .exception .. => true
  | _ => false

structure WireEventSet.Becomes (set : WireEventSet) (es : EventSet) : Prop where
  policy : es.policy = SuspendPolicy.ofCode set.policy
  events : List.Forall₂ (fun e e' => e.happening.Becomes e') set.events es.events

namespace Work
variable {α β : Type}

def May (w : Work α) (result : Except TargetError α) : Prop := (ExceptT.run w).Yields result

theorem run_bind (w : Work α) (g : α → Work β) :
    ExceptT.run (w >>= g) = Routine.bind (ExceptT.run w) fun r => match r with
      | .ok a => ExceptT.run (g a)
      | .error e => .done (.error e) := by
  show Routine.bind (ExceptT.run w) _ = _
  congr 1
  funext r
  cases r <;> rfl

theorem run_map {γ : Type} (f : α → β) (w : Work α)
    (answer : (c : Command) → γ → c.Reply × γ) (s : TargetState) (x : γ) :
    (ExceptT.run (f <$> w)).run answer s x =
      (((ExceptT.run w).run answer s x).1.map f, ((ExceptT.run w).run answer s x).2) := by
  show (Routine.bind (ExceptT.run w) _).run answer s x = _
  rw [Routine.run_bind]
  cases ((ExceptT.run w).run answer s x).1 <;> rfl

theorem may_pure {a : α} {result : Except TargetError α} :
    May (pure a) result ↔ result = .ok a := Routine.yields_done

theorem May.of_bind {w : Work α} {g : α → Work β} {result : Except TargetError β}
    (h : May (w >>= g) result) :
    (∃ a, w.May (.ok a) ∧ (g a).May result) ∨ ∃ e, w.May (.error e) ∧ result = .error e := by
  rw [May, run_bind] at h
  obtain ⟨r, hr, hg⟩ := h.of_bind
  cases r with
  | ok a => exact .inl ⟨a, hr, hg⟩
  | error e => exact .inr ⟨e, hr, Routine.yields_done.1 hg⟩

theorem May.ok_of_bind {w : Work α} {g : α → Work β} {b : β} (h : May (w >>= g) (.ok b)) :
    ∃ a, w.May (.ok a) ∧ (g a).May (.ok b) :=
  h.of_bind.resolve_right fun ⟨_, _, he⟩ => by cases he

theorem requestOf_ok {wireId : Int32} {result : Except TargetError (Option RequestId)}
    (h : (requestOf wireId).May result) : ∃ request, result = .ok request := by
  cases h with
  | update s h => exact ⟨_, may_pure.1 h⟩

theorem rememberType_ok {info : TypeInfo} {result : Except TargetError TypeInfo}
    (h : (rememberType info).May result) : result = .ok info := by
  cases h with
  | update s h => exact may_pure.1 h

theorem object?_id {id : ObjectId} {o : ObjectRef} (h : (object? id).May (.ok (some o))) :
    o.id = id := by
  unfold object? at h
  split at h
  · cases may_pure.1 h
  · obtain ⟨type, -, h⟩ := h.ok_of_bind
    obtain ⟨info, -, h⟩ := h.ok_of_bind
    cases may_pure.1 h
    rfl

theorem object_id {id : ObjectId} {missing : String} {o : ObjectRef}
    (h : (object id missing).May (.ok o)) : o.id = id := by
  obtain ⟨found, hfound, h⟩ := h.ok_of_bind
  cases found with
  | some o' =>
    cases may_pure.1 h
    exact object?_id hfound
  | none => cases h

theorem event_becomes {e : WireEvent} {e' : TargetEvent} (h : (event e).May (.ok e')) :
    e.happening.Becomes e' := by
  obtain ⟨request, happening⟩ := e
  cases happening with
  | vmStart t | threadStart t | threadDeath t | vmDeath =>
    cases may_pure.1 h
    constructor
  | step t l | breakpoint t l =>
    obtain ⟨request, -, h⟩ := h.ok_of_bind
    cases may_pure.1 h
    constructor
  | exception t l x c =>
    obtain ⟨o, ho, h⟩ := h.ok_of_bind
    obtain ⟨request, -, h⟩ := h.ok_of_bind
    cases may_pure.1 h
    exact .exception request t l c (object_id ho)
  | classPrepare t tag c signature status =>
    obtain ⟨request, -, h⟩ := h.ok_of_bind
    obtain ⟨info, hinfo, h⟩ := h.ok_of_bind
    cases may_pure.1 h
    cases rememberType_ok hinfo
    exact .classPrepare request t tag c signature status

/-- Only for an exception is the machine asked anything. -/
theorem isException_of_may_error {e : WireEvent} {error : TargetError}
    (h : (event e).May (.error error)) : e.happening.isException = true := by
  obtain ⟨request, happening⟩ := e
  cases happening with
  | exception => rfl
  | vmStart | threadStart | threadDeath | vmDeath => cases may_pure.1 h
  | step | breakpoint =>
    rcases h.of_bind with ⟨_, -, h⟩ | ⟨_, h, -⟩
    · cases may_pure.1 h
    · obtain ⟨_, h⟩ := requestOf_ok h
      cases h
  | classPrepare =>
    rcases h.of_bind with ⟨_, -, h⟩ | ⟨_, h, -⟩
    · rcases h.of_bind with ⟨_, -, h⟩ | ⟨_, h, -⟩
      · cases may_pure.1 h
      · cases rememberType_ok h
    · obtain ⟨_, h⟩ := requestOf_ok h
      cases h

theorem events_becomes {es : List WireEvent} {es' : List TargetEvent}
    (h : (events es).May (.ok es')) :
    List.Forall₂ (fun e e' => e.happening.Becomes e') es es' := by
  induction es generalizing es' with
  | nil =>
    cases may_pure.1 h
    exact .nil
  | cons e es ih =>
    obtain ⟨e', he, h⟩ := h.ok_of_bind
    obtain ⟨rest, hrest, h⟩ := h.ok_of_bind
    cases may_pure.1 h
    exact .cons (event_becomes he) (ih hrest)

theorem eventSet_becomes {set : WireEventSet} {es : EventSet} (h : (eventSet set).May (.ok es)) :
    set.Becomes es := by
  obtain ⟨events, hevents, h⟩ := h.ok_of_bind
  cases may_pure.1 h
  exact ⟨rfl, events_becomes hevents⟩

theorem events_may_error {es : List WireEvent} {error : TargetError}
    (h : (events es).May (.error error)) : ∃ e ∈ es, e.happening.isException = true := by
  induction es with
  | nil => cases may_pure.1 h
  | cons e es ih =>
    rcases h.of_bind with ⟨_, -, h⟩ | ⟨_, h, -⟩
    · rcases h.of_bind with ⟨_, -, h⟩ | ⟨_, h, he⟩
      · cases may_pure.1 h
      · cases he
        obtain ⟨e', he', hexception⟩ := ih h
        exact ⟨e', List.mem_cons_of_mem e he', hexception⟩
    · exact ⟨e, List.mem_cons_self, isException_of_may_error h⟩

theorem eventSet_may_error {set : WireEventSet} {error : TargetError}
    (h : (eventSet set).May (.error error)) :
    ∃ e ∈ set.events, e.happening.isException = true := by
  rcases h.of_bind with ⟨_, -, h⟩ | ⟨_, h, -⟩
  · cases may_pure.1 h
  · exact events_may_error h

end Work

/-! ## Runs -/

/-- What is left to do to convert a set. -/
abbrev Conversion := Routine Command Command.Reply TargetState (Except TargetError EventSet)

/-- The event sets that have arrived, and the one that a call has taken, with what is left to do
for it. -/
structure Intake where
  backlog : Backlog
  closed : Bool := false
  state : TargetState := {}
  current : Option (WireEventSet × Conversion) := none

namespace Intake

/-- A target listens to events from its beginning on. -/
def new (capacity : Nat) : Intake := { backlog := { capacity, listening := true } }

def toCome (t : Intake) : List WireEventSet := (t.current.map Prod.fst).toList ++ t.backlog.sets

/-- What happens at an intake. A call that returns has looked at a set, if there was one. -/
inductive Moment
  | broadcast (set : WireEventSet) (fits : Bool)
  | closed
  | taken
  | returned (set : Option WireEventSet) (result : Except TargetError (Option EventSet))
  | gaveUp (set : WireEventSet)
  | worked

/-- One call at a time holds the queue. The machine answers its commands as it likes, and the state
may be changed by other calls at any time. After the client is closed its reader broadcasts nothing
more. -/
inductive Step : Intake → Moment → Intake → Prop
  | broadcast {t : Intake} (set : WireEventSet) (hopen : t.closed = false) :
      Step t (.broadcast set (decide (t.backlog.sets.length < t.backlog.capacity)))
        { t with backlog := t.backlog.push set }
  | close {t : Intake} : Step t .closed { t with closed := true }
  | take {t : Intake} {set : WireEventSet} {backlog : Backlog} (hfree : t.current = none)
      (hpop : t.backlog.pop = (some set, backlog)) :
      Step t .taken { t with backlog, current := some (set, ExceptT.run (Work.eventSet set)) }
  | findNone {t : Intake} {backlog : Backlog} (hfree : t.current = none)
      (hpop : t.backlog.pop = (none, backlog)) :
      Step t (.returned none (if t.closed then .error .disconnected else .ok none)) t
  | reply {t : Intake} {set : WireEventSet} {c : Command} {k : c.Reply → Conversion}
      (hcurrent : t.current = some (set, .request c k)) (r : c.Reply) :
      Step t .worked { t with current := some (set, k r) }
  | update {t : Intake} {set : WireEventSet} {f : TargetState → TargetState}
      {k : TargetState → Conversion} (hcurrent : t.current = some (set, .update f k)) :
      Step t .worked { t with state := f t.state, current := some (set, k t.state) }
  | finish {t : Intake} {set : WireEventSet} {result : Except TargetError EventSet}
      (hcurrent : t.current = some (set, .done result)) :
      Step t (.returned (some set) (result.map some)) { t with current := none }
  | giveUp {t : Intake} {set : WireEventSet} {w : Conversion}
      (hcurrent : t.current = some (set, w)) : Step t (.gaveUp set) { t with current := none }
  | change {t : Intake} (state : TargetState) : Step t .worked { t with state }

abbrev Run : Intake → List Moment → Intake → Prop := History Step

theorem Run.nil {t : Intake} : Run t [] t := History.nil

def Moment.broadcast? : Moment → Option WireEventSet
  | broadcast set _ => some set
  | _ => none

def Moment.returned? : Moment → Option EventSet
  | returned _ (.ok es?) => es?
  | _ => none

/-- A set is lost when a reader that is too far behind drops it, when its conversion fails, and when
the call that has taken it is given up. -/
def Moment.loses : Moment → Bool
  | broadcast _ fits => !fits
  | returned (some _) (.error _) | gaveUp _ => true
  | closed | taken | worked | returned none _ | returned (some _) (.ok _) => false

def broadcasts (hs : List Moment) : List WireEventSet := hs.filterMap Moment.broadcast?

def returns (hs : List Moment) : List EventSet := hs.filterMap Moment.returned?

/-- The sets that were returned, and then those still to come, are some of those that were broadcast, in
order and each of them once at most. -/
def InOrder (hs : List Moment) (toCome : List WireEventSet) : Prop :=
  ∃ kept, (kept ++ toCome).Sublist (broadcasts hs) ∧
    List.Forall₂ WireEventSet.Becomes kept (returns hs)

/-- The sets that were returned are those that were broadcast, but for the sets still to come, in
order and each of them once; a call told that the target is disconnected came after all of them. -/
structure Intact (hs : List Moment) (toCome : List WireEventSet) : Prop where
  returned : ∃ looked, broadcasts hs = looked ++ toCome ∧
    List.Forall₂ WireEventSet.Becomes looked (returns hs)
  ended : ∀ xs set?, xs ++ [.returned set? (.error .disconnected)] <+: hs →
    List.Forall₂ WireEventSet.Becomes (broadcasts hs) (returns xs)

theorem broadcasts_snoc (hs : List Moment) (h : Moment) :
    broadcasts (hs ++ [h]) = broadcasts hs ++ h.broadcast?.toList := by
  cases hb : h.broadcast? <;> simp [broadcasts, List.filterMap_append, hb]

theorem returns_snoc (hs : List Moment) (h : Moment) :
    returns (hs ++ [h]) = returns hs ++ h.returned?.toList := by
  cases hr : h.returned? <;> simp [returns, List.filterMap_append, hr]

end Intake

/-! ## Steps -/

namespace Backlog
variable {b b' : Backlog} {set : WireEventSet}

theorem pop_some (h : b.pop = (some set, b')) :
    b.sets = set :: b'.sets ∧ b'.listening = b.listening := by
  unfold pop at h
  split at h
  · cases h
  · next hsets =>
    cases h
    exact ⟨hsets, rfl⟩

theorem pop_none (h : b.pop = (none, b')) : b.sets = [] := by
  unfold pop at h
  split at h
  · next hsets => exact hsets
  · cases h

theorem listening_push : (b.push set).listening = b.listening := by
  unfold push
  split <;> rfl

theorem sets_push (hlistening : b.listening = true) (hroom : b.sets.length < b.capacity) :
    (b.push set).sets = b.sets ++ [set] := by
  have hnone : (b.sets ++ [set]).length - b.capacity = 0 := by
    simp only [List.length_append, List.length_singleton]
    omega
  simp only [push, hlistening, if_true, hnone, List.drop_zero]

theorem sublist_push : (b.push set).sets.Sublist (b.sets ++ [set]) := by
  unfold push
  split
  · exact List.drop_sublist _ _
  · exact List.sublist_append_left _ _

theorem length_push_le (hfull : b.capacity ≤ b.sets.length) :
    (b.push set).sets.length ≤ b.sets.length := by
  unfold push
  split
  · simp only [List.length_drop, List.length_append, List.length_singleton]
    omega
  · exact Nat.le_refl _

end Backlog

namespace Intake

/-- What holds whether sets were lost or not. -/
structure Sound (t : Intake) (hs : List Moment) : Prop where
  listening : t.backlog.listening = true
  inHand : ∀ set w, t.current = some (set, w) → ∀ result, w.Yields result →
    (Work.eventSet set).May result
  inOrder : InOrder hs t.toCome
  count : (returns hs).length + hs.countP Moment.loses + t.toCome.length ≤
    (broadcasts hs).length

section Steps
variable {t t' : Intake} {hs : List Moment} {h : Moment}

theorem toCome_of_current {set : WireEventSet} {w : Conversion}
    (hcurrent : t.current = some (set, w)) : t.toCome = set :: t.backlog.sets := by
  simp [toCome, hcurrent]

theorem toCome_of_free (hfree : t.current = none) : t.toCome = t.backlog.sets := by
  simp [toCome, hfree]

/-- A step that loses nothing: what was to come and what is broadcast now is returned now or is still
to come. -/
theorem Step.passes (hstep : Step t h t') (hsound : Sound t hs) (hkeeps : h.loses = false) :
    ∃ looked, t.toCome ++ h.broadcast?.toList = looked ++ t'.toCome ∧
      List.Forall₂ WireEventSet.Becomes looked h.returned?.toList := by
  cases hstep with
  | broadcast set hopen =>
    have hroom : t.backlog.sets.length < t.backlog.capacity := by simpa [Moment.loses] using hkeeps
    refine ⟨[], ?_, .nil⟩
    simp [toCome, Moment.broadcast?, Backlog.sets_push hsound.listening hroom]
  | take hfree hpop =>
    refine ⟨[], ?_, .nil⟩
    rw [toCome_of_free hfree, (Backlog.pop_some hpop).1]
    simp [toCome, Moment.broadcast?]
  | findNone hfree hpop =>
    refine ⟨[], by simp [Moment.broadcast?], ?_⟩
    cases t.closed <;> exact .nil
  | reply hcurrent | update hcurrent =>
    refine ⟨[], ?_, .nil⟩
    rw [toCome_of_current hcurrent]
    simp [toCome, Moment.broadcast?]
  | @finish set result hcurrent =>
    cases result with
    | error e => cases hkeeps
    | ok es =>
      have hmay := hsound.inHand set _ hcurrent _ (Routine.Yields.done (Except.ok es))
      refine ⟨[set], ?_, .cons (Work.eventSet_becomes hmay) .nil⟩
      rw [toCome_of_current hcurrent]
      simp [toCome, Moment.broadcast?]
  | giveUp => cases hkeeps
  | close | change => exact ⟨[], by simp [toCome, Moment.broadcast?], .nil⟩

/-- A step that loses a set returns none, and of what was to come and what is broadcast now one set
less is to come. -/
theorem Step.drops (hstep : Step t h t') (hloses : h.loses = true) :
    h.returned? = none ∧ t'.toCome.Sublist (t.toCome ++ h.broadcast?.toList) ∧
      t'.toCome.length < (t.toCome ++ h.broadcast?.toList).length := by
  cases hstep with
  | broadcast set hopen =>
    have hfull : t.backlog.capacity ≤ t.backlog.sets.length := by
      simpa [Moment.loses] using hloses
    have hlength : (t.backlog.push set).sets.length ≤ t.backlog.sets.length :=
      Backlog.length_push_le hfull
    refine ⟨rfl, ?_, ?_⟩
    · rw [toCome, toCome, List.append_assoc]
      exact Backlog.sublist_push.append_left _
    · simp only [toCome, List.length_append, Moment.broadcast?, Option.toList_some,
        List.length_singleton]
      omega
  | @finish set result hcurrent =>
    cases result with
    | error e =>
      rw [toCome_of_current hcurrent]
      simp [toCome, Moment.broadcast?, Moment.returned?, Except.map]
    | ok es => cases hloses
  | giveUp hcurrent =>
    rw [toCome_of_current hcurrent]
    simp [toCome, Moment.broadcast?, Moment.returned?]
  | close | take | findNone | reply | update | change => cases hloses

/-- Of what was to come and what is broadcast now, some is returned now and some is still to come, in
order; a loss leaves one set less. -/
theorem Step.moves (hstep : Step t h t') (hsound : Sound t hs) :
    ∃ looked, List.Forall₂ WireEventSet.Becomes looked h.returned?.toList ∧
      (looked ++ t'.toCome).Sublist (t.toCome ++ h.broadcast?.toList) ∧
      (looked ++ t'.toCome).length + (if h.loses then 1 else 0) ≤
        (t.toCome ++ h.broadcast?.toList).length := by
  cases hloses : h.loses with
  | true =>
    obtain ⟨hnone, hsublist, hless⟩ := hstep.drops hloses
    exact ⟨[], by rw [hnone]; exact .nil, hsublist, hless⟩
  | false =>
    obtain ⟨looked, hsame, hlooked⟩ := hstep.passes hsound hloses
    exact ⟨looked, hlooked, hsame ▸ .refl _, by rw [hsame]; exact Nat.le_refl _⟩

theorem Sound.step (hsound : Sound t hs) (hstep : Step t h t') : Sound t' (hs ++ [h]) := by
  obtain ⟨looked, hlooked, hsublist, hlength⟩ := hstep.moves hsound
  refine ⟨?_, ?_, ?_, ?_⟩
  · have hlistening := hsound.listening
    cases hstep with
    | broadcast => rwa [Backlog.listening_push]
    | take hfree hpop => rwa [(Backlog.pop_some hpop).2]
    | close | findNone | reply | update | finish | giveUp | change => exact hlistening
  · intro set w hcurrent' result hw
    cases hstep with
    | take =>
      cases hcurrent'
      exact hw
    | reply hcurrent r =>
      cases hcurrent'
      exact hsound.inHand _ _ hcurrent result (.request r hw)
    | update hcurrent =>
      cases hcurrent'
      exact hsound.inHand _ _ hcurrent result (.update _ hw)
    | finish | giveUp => cases hcurrent'
    | broadcast | close | findNone | change => exact hsound.inHand set w hcurrent' result hw
  · obtain ⟨kept, hkept, hbecame⟩ := hsound.inOrder
    refine ⟨kept ++ looked, ?_, ?_⟩
    · rw [broadcasts_snoc, List.append_assoc]
      refine (hsublist.append_left kept).trans ?_
      rw [← List.append_assoc]
      exact hkept.append_right _
    · rw [returns_snoc]
      exact List.rel_append hbecame hlooked
  · have hcount := hsound.count
    have hreturned := hlooked.length_eq
    simp only [List.length_append] at hlength
    rw [broadcasts_snoc, returns_snoc, List.countP_append, List.countP_singleton,
      List.length_append, List.length_append]
    omega

theorem Step.closed_mono (hstep : Step t h t') (hclosed : t.closed = true) :
    t'.closed = true ∧ h.broadcast? = none := by
  cases hstep with
  | broadcast set hopen =>
    rw [hclosed] at hopen
    cases hopen
  | close => exact ⟨rfl, rfl⟩
  | take | findNone | reply | update | finish | giveUp | change => exact ⟨hclosed, rfl⟩

/-- A call that finds the target disconnected, and loses nothing, finds nothing to come. -/
theorem Step.disconnected {set? : Option WireEventSet} (hstep : Step t h t')
    (hh : h = .returned set? (.error .disconnected)) (hkeeps : h.loses = false) :
    t'.closed = true ∧ t'.toCome = [] := by
  cases hstep with
  | findNone hfree hpop =>
    refine ⟨?_, by rw [toCome_of_free hfree, Backlog.pop_none hpop]⟩
    cases hclosed : t.closed with
    | true => rfl
    | false => simp [hclosed] at hh
  | @finish set result hcurrent =>
    cases result with
    | error e => cases hkeeps
    | ok es => cases hh
  | broadcast | close | take | reply | update | giveUp | change => cases hh

/-- Only a set with an exception can fail to be converted. -/
theorem Step.failed {set : WireEventSet} {error : TargetError} (hstep : Step t h t')
    (hsound : Sound t hs) (hh : h = .returned (some set) (.error error)) :
    ∃ e ∈ set.events, e.happening.isException = true := by
  cases hstep with
  | @finish _ result hcurrent =>
    cases result with
    | error e =>
      cases hh
      exact Work.eventSet_may_error (hsound.inHand set _ hcurrent _ (.done (Except.error error)))
    | ok es => cases hh
  | broadcast | close | take | findNone | reply | update | giveUp | change => cases hh

/-- So far nothing was lost, and a call was told that the target is disconnected only if the client
is closed. -/
structure Whole (t : Intake) (hs : List Moment) : Prop where
  intact : Intact hs t.toCome
  closed : ∀ xs set?, xs ++ [.returned set? (.error .disconnected)] <+: hs → t.closed = true

theorem Whole.step (hwhole : Whole t hs) (hsound : Sound t hs) (hstep : Step t h t')
    (hkeeps : h.loses = false) : Whole t' (hs ++ [h]) := by
  obtain ⟨looked, hlooked, hbecame⟩ := hwhole.intact.returned
  obtain ⟨now, hnow, hbecomes⟩ := hstep.passes hsound hkeeps
  have hall : broadcasts (hs ++ [h]) = (looked ++ now) ++ t'.toCome := by
    rw [broadcasts_snoc, hlooked, List.append_assoc, hnow, List.append_assoc]
  have hreturned : List.Forall₂ WireEventSet.Becomes (looked ++ now) (returns (hs ++ [h])) := by
    rw [returns_snoc]
    exact List.rel_append hbecame hbecomes
  refine ⟨⟨⟨_, hall, hreturned⟩, fun xs set? hpre => ?_⟩, fun xs set? hpre => ?_⟩
  · rcases List.prefix_concat_iff.1 hpre with heq | hpre
    · obtain ⟨rfl, hh⟩ := List.append_inj' heq rfl
      cases hh
      obtain ⟨-, hnone⟩ := hstep.disconnected rfl hkeeps
      rw [hall, hnone, List.append_nil]
      simpa [returns_snoc, Moment.returned?] using hreturned
    · obtain ⟨-, hnone⟩ := hstep.closed_mono (hwhole.closed xs set? hpre)
      rw [broadcasts_snoc, hnone, Option.toList_none, List.append_nil]
      exact hwhole.intact.ended xs set? hpre
  · rcases List.prefix_concat_iff.1 hpre with heq | hpre
    · obtain ⟨rfl, hh⟩ := List.append_inj' heq rfl
      exact (hstep.disconnected (List.singleton_inj.1 hh).symm hkeeps).1
    · exact (hstep.closed_mono (hwhole.closed xs set? hpre)).1

end Steps

theorem sound_new (capacity : Nat) : Sound (new capacity) [] where
  listening := rfl
  inHand := nofun
  inOrder := ⟨[], by simp [broadcasts, toCome, new], .nil⟩
  count := by simp [returns, broadcasts, toCome, new]

theorem whole_new (capacity : Nat) : Whole (new capacity) [] where
  intact := ⟨⟨[], by simp [broadcasts, toCome, new], .nil⟩, by simp⟩
  closed := by simp

section Runs
variable {capacity : Nat} {hs : List Moment} {t : Intake}

theorem Run.sound (hrun : Run (new capacity) hs t) : Sound t hs := by
  induction hrun with
  | nil => exact sound_new capacity
  | snoc _ hstep ih => exact ih.step hstep

theorem Run.whole (hrun : Run (new capacity) hs t) (hkeeps : ∀ h ∈ hs, h.loses = false) :
    Whole t hs := by
  induction hrun with
  | nil => exact whole_new capacity
  | snoc hrun hstep ih =>
    simp only [List.forall_mem_append, List.forall_mem_singleton] at hkeeps
    exact (ih hkeeps.1).step (Run.sound hrun) hstep hkeeps.2

theorem Run.exception_of_failure (hrun : Run (new capacity) hs t) {set : WireEventSet}
    {error : TargetError} (hfailed : .returned (some set) (.error error) ∈ hs) :
    ∃ e ∈ set.events, e.happening.isException = true := by
  induction hrun with
  | nil => cases hfailed
  | snoc hrun hstep ih =>
    rcases List.mem_append.1 hfailed with hfailed | hlast
    · exact ih hfailed
    · exact hstep.failed (Run.sound hrun) (List.mem_singleton.1 hlast).symm

/-- In any case the sets are returned in order, each of them once at most; every one of them is if and
only if none was lost. -/
theorem Run.inOrder_and_intact_iff (hrun : Run (new capacity) hs t) :
    InOrder hs t.toCome ∧ (Intact hs t.toCome ↔ ∀ h ∈ hs, h.loses = false) := by
  refine ⟨hrun.sound.inOrder, fun hintact => ?_, fun hkeeps => (hrun.whole hkeeps).intact⟩
  obtain ⟨looked, hlooked, hbecame⟩ := hintact.returned
  have hcount := hrun.sound.count
  have hnone : hs.countP Moment.loses = 0 := by
    rw [hlooked, List.length_append, hbecame.length_eq] at hcount
    omega
  simpa using List.countP_eq_zero.1 hnone

/-- An exception and a breakpoint come in two sets before the client is closed; the machine tells the
type of the exception. -/
theorem intact_twoSets :
    let thrown : WireEventSet := ⟨2, [⟨3, .exception 1 nowhere ⟨76, 5⟩ none⟩]⟩
    let hit : WireEventSet := ⟨1, [⟨4, .breakpoint 1 nowhere⟩]⟩
    let object : ObjectRef := ⟨5, 9, "app.Fault"⟩
    let hs : List Moment := [.broadcast thrown true, .broadcast hit true, .closed, .taken, .worked,
      .worked, .worked, .worked, .worked,
      .returned (some thrown) (.ok (some ⟨.all, [.exception none 1 nowhere object none]⟩)),
      .taken, .worked,
      .returned (some hit) (.ok (some ⟨.eventThread, [.breakpoint none 1 nowhere]⟩)),
      .returned none (.error .disconnected)]
    ∃ t, Run (new 16) hs t ∧ (∀ h ∈ hs, h.loses = false) ∧ InOrder hs t.toCome ∧
      Intact hs t.toCome := by
  intro thrown hit object hs
  have h₀ : Run (new 16) [] _ := .nil
  have h₁ := h₀.snoc (.broadcast thrown rfl)
  have h₂ := h₁.snoc (.broadcast hit rfl)
  have h₃ := h₂.snoc .close
  have h₄ := h₃.snoc (.take rfl rfl)
  have h₅ := h₄.snoc (.reply (c := .typeOf 5) rfl (.ok ⟨1, 9⟩))
  have h₆ := h₅.snoc (.update rfl)
  have h₇ := h₆.snoc (.reply (c := .signature 9) rfl (.ok "Lapp/Fault;"))
  have h₈ := h₇.snoc (.update rfl)
  have h₉ := h₈.snoc (.update rfl)
  have h₁₀ := h₉.snoc (.finish rfl)
  have h₁₁ := h₁₀.snoc (.take rfl rfl)
  have h₁₂ := h₁₁.snoc (.update rfl)
  have h₁₃ := h₁₂.snoc (.finish rfl)
  have hrun : Run (new 16) hs _ := h₁₃.snoc (.findNone rfl rfl)
  have hkeeps : ∀ h ∈ hs, h.loses = false := by decide
  obtain ⟨hordered, hintact⟩ := hrun.inOrder_and_intact_iff
  exact ⟨_, hrun, hkeeps, hordered, hintact.2 hkeeps⟩

/-- The machine cannot tell the type of an exception object, say because the object is gone. The call
fails, and no other call returns the set. -/
theorem not_intact_always : ¬ ∀ (capacity : Nat) (hs : List Moment) (t : Intake),
    Run (new capacity) hs t → (∀ set, .broadcast set false ∉ hs) → (∀ set, .gaveUp set ∉ hs) →
      Intact hs t.toCome := by
  intro hall
  let thrown : WireEventSet := ⟨2, [⟨3, .exception 1 nowhere ⟨76, 5⟩ none⟩]⟩
  have h₀ : Run (new 16) [] _ := .nil
  have h₁ := h₀.snoc (.broadcast thrown rfl)
  have h₂ := h₁.snoc (.take rfl rfl)
  have h₃ := h₂.snoc (.reply (c := .typeOf 5) rfl (.error (.vm 20)))
  have h₄ := h₃.snoc (.finish rfl)
  have h₅ := h₄.snoc (.findNone rfl rfl)
  have hrun := (h₅.snoc .close).snoc (.findNone rfl rfl)
  have hintact := hall _ _ _ hrun (by simp [new, thrown]) (by simp)
  obtain ⟨looked, hlooked, hbecame⟩ := hintact.returned
  rw [show looked = [] from List.forall₂_nil_right_iff.1 hbecame] at hlooked
  cases hlooked

end Runs

end Intake

/-! ## A line -/

namespace Remote
variable (r : Remote) {events : Backlog}

theorem nextEvents_some {set : WireEventSet}
    (hpop : r.line.client.events.pop = (some set, events)) :
    r.nextEvents =
      let ran := (ExceptT.run (Work.eventSet set)).run Line.perform r.state
        { r.line with client := { r.line.client with events } }
      (ran.1.map some,
        { state := ran.2.1, line := if ran.2.1.detached then ran.2.2.shutdown else ran.2.2 }) := by
  simp only [nextEvents, hpop, Remote.run, Work.run_map]

theorem nextEvents_none (hpop : r.line.client.events.pop = (none, events)) :
    r.nextEvents = (if r.line.client.closed then .error .disconnected else .ok none, r) := by
  simp only [nextEvents, hpop]

end Remote

namespace Intake

/-- The intake of a target on a line. -/
structure Mirrors (t : Intake) (k : Client) (s : TargetState)
    (current : Option (WireEventSet × Conversion)) : Prop where
  backlog : t.backlog = k.events
  closed : t.closed = k.closed
  state : t.state = s
  current : t.current = current

def Leads (t : Intake) (k : Client) (s : TargetState) (current : Option (WireEventSet × Conversion)) :
    Prop :=
  ∃ hs t', Run t hs t' ∧ t'.Mirrors k s current

section Line
variable {t : Intake} {k k' : Client} {s : TargetState} {current : Option (WireEventSet × Conversion)}

theorem Mirrors.move {u u' : List Pending} (h : t.Mirrors k s current)
    (hmove : Client.Move (k, u) (k', u')) : t.Leads k' s current := by
  obtain ⟨hbacklog, hclosed, hstate, hcurrent⟩ := h
  cases hmove with
  | register hissue =>
    unfold Client.issue at hissue
    split at hissue
    · cases hissue
    · cases hissue
      exact ⟨[], t, .nil, hbacklog, hclosed, hstate, hcurrent⟩
  | receive hopen packet =>
    unfold Client.receive Client.take?
    split
    · split <;> exact ⟨[], t, .nil, hbacklog, hclosed, hstate, hcurrent⟩
    · split
      · split
        · next set _ =>
          refine ⟨_, _, Run.nil.snoc (.broadcast set (hclosed.trans hopen)), ?_, hclosed, hstate,
            hcurrent⟩
          exact congrArg (Backlog.push · set) hbacklog
        · exact ⟨_, _, Run.nil.snoc .close, hbacklog, rfl, hstate, hcurrent⟩
      · exact ⟨[], t, .nil, hbacklog, hclosed, hstate, hcurrent⟩
  | stop hopen => exact ⟨_, _, Run.nil.snoc .close, hbacklog, rfl, hstate, hcurrent⟩
  | finish p => exact ⟨[], t, .nil, hbacklog, hclosed, hstate, hcurrent⟩
  | adopt sizes => exact ⟨[], t, .nil, hbacklog, hclosed, hstate, hcurrent⟩

theorem Mirrors.moves {u : List Pending} {last : Client × List Pending} (h : t.Mirrors k s current)
    (hmoves : Client.Moves (k, u) last) : t.Leads last.1 s current := by
  induction hmoves with
  | refl => exact ⟨[], t, .nil, h⟩
  | tail _ hmove ih =>
    obtain ⟨hs, t', hrun, ht'⟩ := ih
    obtain ⟨hs', last, hrun', hlast⟩ := ht'.move hmove
    exact ⟨hs ++ hs', last, hrun.append hrun', hlast⟩

theorem Mirrors.work {α : Type} {l : Line} {w : Routine Command Command.Reply TargetState α}
    (h : t.Mirrors l.client s none) :
    t.Leads (w.run Line.perform s l).2.2.client (w.run Line.perform s l).2.1 none := by
  induction w generalizing t s l with
  | done result => exact ⟨[], t, .nil, h⟩
  | request c k ih =>
    obtain ⟨hs, t₁, hrun, h₁⟩ := h.moves (l.perform_moves c [])
    obtain ⟨hs', t₂, hrun', h₂⟩ := ih (l.perform c).1 (l := (l.perform c).2) h₁
    exact ⟨_, t₂, hrun.append hrun', h₂⟩
  | update f k ih =>
    have hchange := Run.nil.snoc (.change (t := t) (f s))
    obtain ⟨hs', t₂, hrun', h₂⟩ := ih s (t := { t with state := f s }) (l := l) (s := f s)
      ⟨h.backlog, h.closed, rfl, h.current⟩
    exact ⟨_, t₂, hchange.append hrun', h₂⟩

/-- A call on the line to a scripted agent is a run too. -/
theorem Mirrors.call {r : Remote} (h : t.Mirrors r.line.client r.state none) (c : Call) :
    t.Leads (r.call c).2.line.client (r.call c).2.state none := by
  obtain ⟨hs, t₁, hrun, h₁⟩ := h.work (w := ExceptT.run (Work.answer c))
  simp only [Remote.call, Remote.run]
  split
  · exact ⟨_, _, hrun.snoc .close, h₁.backlog, rfl, h₁.state, h₁.current⟩
  · exact ⟨hs, t₁, hrun, h₁⟩

/-- A conversion on the line to a scripted agent, up to its end. -/
theorem Mirrors.convert {l : Line} {set : WireEventSet} {w : Conversion}
    (h : t.Mirrors l.client s (some (set, w))) :
    t.Leads (w.run Line.perform s l).2.2.client (w.run Line.perform s l).2.1
      (some (set, .done (w.run Line.perform s l).1)) := by
  induction w generalizing t s l with
  | done result => exact ⟨[], t, .nil, h⟩
  | request c k ih =>
    obtain ⟨hs, t₁, hrun, h₁⟩ := h.moves (l.perform_moves c [])
    have hreply := hrun.snoc (.reply h₁.current (l.perform c).1)
    obtain ⟨hs', t₂, hrun', h₂⟩ := ih (l.perform c).1
      (t := { t₁ with current := some (set, k (l.perform c).1) }) (l := (l.perform c).2) (s := s)
      ⟨h₁.backlog, h₁.closed, h₁.state, rfl⟩
    exact ⟨_, t₂, hreply.append hrun', h₂⟩
  | update f k ih =>
    obtain ⟨hbacklog, hclosed, rfl, hcurrent⟩ := h
    have hupdate := Run.nil.snoc (.update hcurrent)
    obtain ⟨hs', t₂, hrun', h₂⟩ := ih t.state
      (t := { t with state := f t.state, current := some (set, k t.state) }) (l := l)
      (s := f t.state) ⟨hbacklog, hclosed, rfl, rfl⟩
    exact ⟨_, t₂, hupdate.append hrun', h₂⟩

/-- On the line to a scripted agent a call for events is a run: it returns what the call here does. -/
theorem Mirrors.nextEvents {r : Remote} (h : t.Mirrors r.line.client r.state none) :
    ∃ hs set? t', Run t (hs ++ [.returned set? r.nextEvents.1]) t' ∧
      t'.Mirrors r.nextEvents.2.line.client r.nextEvents.2.state none := by
  cases hpop : r.line.client.events.pop with
  | mk set? events =>
    have htaken : t.backlog.pop = (set?, events) := h.backlog ▸ hpop
    cases set? with
    | some set =>
      let line : Line := { r.line with client := { r.line.client with events } }
      have hconvert : Leads _ _ _ _ := Mirrors.convert (l := line) (s := r.state)
        (t := { t with backlog := events, current := some (set, ExceptT.run (Work.eventSet set)) })
        ⟨rfl, h.closed, h.state, rfl⟩
      obtain ⟨hs, t₁, hrun, h₁⟩ := hconvert
      have hconverted := (Run.nil.snoc (.take h.current htaken)).append hrun
      rw [Remote.nextEvents_some r hpop]
      dsimp only
      split
      · exact ⟨_, some set, _, (hconverted.snoc .close).snoc (.finish h₁.current), h₁.backlog, rfl,
          h₁.state, rfl⟩
      · exact ⟨_, some set, _, hconverted.snoc (.finish h₁.current), h₁.backlog, h₁.closed,
          h₁.state, rfl⟩
    | none =>
      refine ⟨[], none, t, ?_, ?_⟩
      · rw [Remote.nextEvents_none r hpop, ← h.closed]
        exact Run.nil.snoc (.findNone h.current htaken)
      · rwa [Remote.nextEvents_none r hpop]

end Line

end Intake

end Wire

end JvmDebug
