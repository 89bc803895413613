import JvmDebug.Proofs.FlagRules
import Mathlib.Data.List.Infix

/-!
Whether the requests of a breakpoint show the flag that is stored for it, once nothing is in flight.
A toggling stores the flag first and tells the target afterwards, request by request, so its calls
may be overtaken by those of an older one, and the first call that fails ends it.
-/
namespace JvmDebug.Crew

open Discipline

/-- Nothing is in flight, there are no breakpoints and nothing is noted. -/
structure Fresh (c : Crew) : Prop where
  jobs : c.jobs = []
  breakpoints : c.session.breakpoints = {}
  exceptions : c.session.exceptions = {}
  notes : c.link.notes = []

/-! ## Runs -/

variable {x : SpecRef} {c : Crew}

/-- Other than a toggling, a job stores no flag and may begin at any time. -/
theorem settles_job {j : Job} (hj : j.isOnBreakpoints)
    (hother : ∀ id enabled, j ≠ .operation (.setEnabled id enabled)) :
    (agreement x).Settles 0 j.task ∧ ∀ s, j.stores s = [] := by
  cases j with
  | operation o =>
    cases o with
    | addBreakpoint className kind condition =>
      exact ⟨(Agreeing.settles_addBreakpoint className kind condition).discard (), fun _ => rfl⟩
    | addException className caught uncaught =>
      exact ⟨(Agreeing.settles_addException className caught uncaught).discard (), fun _ => rfl⟩
    | setEnabled id enabled => exact absurd rfl (hother id enabled)
    | remove id => exact ⟨(Agreeing.settles_shedding (shedding_remove id)).discard (), fun _ => rfl⟩
    | clear => exact ⟨(Agreeing.settles_shedding shedding_clear).discard (), fun _ => rfl⟩
    | resume | suspend | resumeThread | suspendThread | step => cases hj
  | event e => exact ⟨(Agreeing.settles_event e).discard (), fun _ => rfl⟩
  | resumeAfter set =>
    exact ⟨(Agreeing.settles_shedding (shedding_resumeAfter set)).discard (), fun _ => rfl⟩

theorem wp_begin {j : Job} (hj : j.isOnBreakpoints) {k : Dues} {s : Session} {l : NotedLink}
    (ha : Agreeing x k s l) :
    (agreement x).wp (fun _ => (agreement x).Holds 0) j.task k s (l.forget (j.stores s)) := by
  by_cases htoggles : ∃ id enabled, j = .operation (.setEnabled id enabled)
  · obtain ⟨id, enabled, rfl⟩ := htoggles
    exact wp_bind (Agreeing.wp_setEnabled id enabled ha)
  · obtain ⟨hsettles, hstores⟩ :=
      settles_job (x := x) hj fun id enabled h => htoggles ⟨id, enabled, h⟩
    rw [hstores, l.forget_nil]
    exact hsettles k s l fun _ => (zero_add k).symm ▸ ha

theorem shared_step (hs : (agreement x).Shared c.jobs 0 c.session c.link) {t : Turn}
    (ht : t.isOnBreakpoints) (hreach : Reaching c.session c.link)
    (hreach' : Reaching (c.step t).session (c.step t).link) :
    (agreement x).Shared (c.step t).jobs 0 (c.step t).session (c.step t).link := by
  cases t with
  | begin j => exact hs.join fun k ha => settles_advance (wp_begin ht ha) hreach'
  | go n =>
    cases hn : c.jobs[n]? with
    | none =>
      have hsame : c.step (.go n) = c := by simp only [step, hn]
      rwa [hsame]
    | some m =>
      have hnext : c.step (.go n) =
          { session := (m.move NotedLink.answer c.session c.link).2.1
            link := (m.move NotedLink.answer c.session c.link).2.2
            jobs := c.jobs.set n (m.move NotedLink.answer c.session c.link).1 } := by
        simp only [step, hn]
      rw [hnext] at hreach' ⊢
      exact hs.move hn hreach hreach'
  | target h => exact hs.mono fun k ha => ha.of_sameBooks rfl (h.apply_books c.link.vm)
  | plan call f => exact hs.mono fun k ha => ha.of_sameBooks rfl .rfl

theorem shared_run (hc : c.Fresh) {turns : List Turn} (hturns : ∀ t ∈ turns, t.isOnBreakpoints)
    (hreach : ∀ xs, xs <+: turns → Reaching (c.run xs).session (c.run xs).link) :
    (agreement x).Shared (c.run turns).jobs 0 (c.run turns).session (c.run turns).link := by
  induction turns using List.reverseRecOn with
  | nil =>
    rw [show (c.run []).jobs = [] from hc.jobs]
    exact shared_nil (.of_fresh hc.breakpoints hc.exceptions hc.notes)
  | append_singleton turns t ih =>
    have hkept := ih (fun t' ht' => hturns t' (List.mem_append_left _ ht')) fun xs hxs =>
      hreach xs (hxs.trans (List.prefix_append _ _))
    have hlast := hreach _ List.prefix_rfl
    rw [run_append] at hlast ⊢
    exact shared_step hkept (hturns t (by simp)) (hreach turns (List.prefix_append _ _)) hlast

/-! ## When the flags agree -/

/-- A run on breakpoints, the target in reach throughout, at whose end nothing is in flight. -/
structure Rests (c : Crew) (turns : List Turn) : Prop where
  fresh : c.Fresh
  onBreakpoints : ∀ t ∈ turns, t.isOnBreakpoints
  reaching : ∀ xs, xs <+: turns → Reaching (c.run xs).session (c.run xs).link
  idle : (c.run turns).Idle

theorem Rests.of_inits {turns : List Turn} (hc : c.Fresh)
    (hturns : ∀ t ∈ turns, t.isOnBreakpoints)
    (hreach : ∀ xs ∈ turns.inits, Reaching (c.run xs).session (c.run xs).link)
    (hidle : (c.run turns).Idle) : c.Rests turns :=
  ⟨hc, hturns, fun xs hxs => hreach xs ((List.mem_inits _ _).2 hxs), hidle⟩

theorem Rests.agreeing {turns : List Turn} (h : c.Rests turns) :
    Agreeing x 0 (c.run turns).session (c.run turns).link :=
  (shared_run h.fresh h.onBreakpoints h.reaching).done (fun m hm => ⟨(), h.idle m hm⟩)
    (h.reaching turns List.prefix_rfl)

/-- However operations on breakpoints and the handling of events interleave and whatever calls fail,
at the end a request shows the flag of its breakpoint if and only if the last call to reach it since
the flag was stored carried that flag, or none did. It must have been reached, or no call for the
breakpoint must have failed since. -/
theorem shows_stored_iff {turns : List Turn} (h : c.Rests turns) {flag : Bool}
    {requests : List RequestId} (hx : (c.run turns).session.spec? x = some (flag, requests))
    {r : RequestId} {q : Request} (hr : r ∈ requests)
    (hq : (c.run turns).link.vm.requests.get? r = some q)
    (hheard : (c.run turns).link.last? r ≠ none ∨ ¬(c.run turns).link.Failed requests) :
    q.enabled = flag ↔ ∀ last, (c.run turns).link.last? r = some last → last = flag := by
  have ha := h.agreeing (x := x)
  have hmine : r ∈ (c.run turns).session.requestsOf x := by
    rwa [Session.requestsOf_of_some hx]
  cases hlast : (c.run turns).link.last? r with
  | some last =>
    rw [ha.reached r hmine last hlast q hq]
    simp
  | none =>
    have hshows : (c.run turns).link.vm.Shows r flag := by
      rcases ha.unreached flag requests hx r hr hlast with hshows | ⟨rs, hrs, -⟩ | hfailed
      · exact hshows
      · cases hrs
      · exact absurd hfailed (hheard.resolve_left fun h => h hlast)
    exact iff_of_true (hshows q hq) nofun

/-! ### Sample runs -/

/-- A session on a machine that knows one class and has not loaded it. -/
def sample : Crew := { session := Scene.sample.session, link := ⟨⟨Scene.sample.vm, .empty⟩, []⟩ }

theorem fresh_sample : sample.Fresh := ⟨rfl, rfl, rfl, rfl⟩

/-- A breakpoint waits for its class and is installed. -/
def installing : List Turn :=
  [.begin (.operation (.addBreakpoint "app.Main" (.line 7) none)), .go 0, .go 0, .go 0, .go 0,
    .target (.load 1 2), .begin (.event (.classPrepare none 1 ⟨2, "app.Main", .classType⟩)),
    .go 1, .go 1, .go 1, .go 1, .go 1, .go 1]

def toggling (enabled : Bool) : Turn := .begin (.operation (.setEnabled "7f4a7c15" enabled))

/-- The call that is to switch the breakpoint off fails. -/
def failing : List Turn :=
  installing ++ [.plan "set_request_enabled" ⟨0, 1, .timeout⟩, toggling false, .go 2, .go 2]

/-- A breakpoint that could not be switched off is switched off once more. -/
def repeating : List Turn := failing ++ [toggling false, .go 3, .go 3]

/-- Of two togglings the one that stores its flag first tells the target last. -/
def overtaking : List Turn :=
  installing ++ [toggling true, toggling false, .go 3, .go 3, .go 2, .go 2]

theorem rests_failing : sample.Rests failing := by
  have hjobs : (sample.run failing).jobs = [.done (), .done (), .done ()] := rfl
  exact .of_inits fresh_sample (by decide +kernel) (by decide +kernel) (by simp [Idle, hjobs])

theorem rests_repeating : sample.Rests repeating := by
  have hjobs : (sample.run repeating).jobs = [.done (), .done (), .done (), .done ()] := rfl
  exact .of_inits fresh_sample (by decide +kernel) (by decide +kernel) (by simp [Idle, hjobs])

theorem rests_overtaking : sample.Rests overtaking := by
  have hjobs : (sample.run overtaking).jobs = [.done (), .done (), .done (), .done ()] := rfl
  exact .of_inits fresh_sample (by decide +kernel) (by decide +kernel) (by simp [Idle, hjobs])

theorem shows_repeating :
    ((sample.run repeating).link.vm.requests.get? 4).map Request.enabled = some false := by
  have hlast : (sample.run repeating).link.last? 4 = some false := by decide +kernel
  obtain ⟨q, hq⟩ : ∃ q, (sample.run repeating).link.vm.requests.get? 4 = some q :=
    Option.isSome_iff_exists.1 (by decide +kernel)
  have hspec : (sample.run repeating).session.spec? (.breakpoint "7f4a7c15") = some (false, [4]) := by
    decide +kernel
  have hiff := shows_stored_iff rests_repeating hspec (by decide) hq (.inr (by decide +kernel))
  rw [hq, Option.map_some, hiff.2 (by simp [hlast])]

/-! ## When they do not -/

/-- Each request shows the flag that is stored for its breakpoint. -/
def Agrees (c : Crew) : Prop :=
  ∀ x flag requests, c.session.spec? x = some (flag, requests) →
    ∀ r ∈ requests, c.link.vm.Shows r flag

theorem not_agrees {flag shown : Bool} {requests : List RequestId} {r : RequestId}
    (hx : c.session.spec? x = some (flag, requests)) (hr : r ∈ requests)
    (hshown : (c.link.vm.requests.get? r).map Request.enabled = some shown) (hne : shown ≠ flag) :
    ¬c.Agrees := by
  obtain ⟨q, hq, rfl⟩ := Option.map_eq_some_iff.1 hshown
  exact fun h => hne (h x flag requests hx r hr q hq)

/-- The flags need not agree once nothing is in flight: a call may have failed, and even if none
has, an older toggling may have overtaken a younger one on the way to the target. -/
theorem not_always_agreeing :
    ¬(∀ (c : Crew) (turns : List Turn), c.Rests turns → (c.run turns).Agrees) ∧
      ¬∀ (c : Crew) (turns : List Turn), c.Rests turns →
        (∀ n ∈ (c.run turns).link.notes, n.arrived) → (c.run turns).Agrees := by
  constructor
  · intro h
    have hoff : (sample.run failing).session.spec? (.breakpoint "7f4a7c15") = some (false, [4]) := by
      decide +kernel
    have hon : ((sample.run failing).link.vm.requests.get? 4).map Request.enabled = some true := by
      decide +kernel
    exact not_agrees hoff (List.mem_singleton_self _) hon (by decide)
      (h sample failing rests_failing)
  · intro h
    have hoff : (sample.run overtaking).session.spec? (.breakpoint "7f4a7c15") =
        some (false, [4]) := by
      decide +kernel
    have hon : ((sample.run overtaking).link.vm.requests.get? 4).map Request.enabled = some true := by
      decide +kernel
    exact not_agrees hoff (List.mem_singleton_self _) hon (by decide)
      (h sample overtaking rests_overtaking (by decide +kernel))

end JvmDebug.Crew
