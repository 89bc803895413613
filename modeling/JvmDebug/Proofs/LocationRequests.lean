import JvmDebug.Proofs.CodeLayout
import JvmDebug.Proofs.DeferralAgreement

/-!
The requests of one breakpoint. A request is made for each location that matches, and a location
that repeats the one before it is dropped; one that comes back after another location gets a second
request. Main result: `one_request_per_location_iff`.
-/
namespace JvmDebug

open Op

/-! ## Repeats -/

section
variable {α : Type} {a b : α} {ls : List α}

/-- An element comes back after another one has come. -/
def Recurs (ls : List α) : Prop :=
  ∃ before a b after, ls = before ++ a :: b :: after ∧ b ≠ a ∧ a ∈ after

theorem recurs_repeated : Recurs (a :: a :: ls) ↔ Recurs (a :: ls) := by
  constructor
  · rintro ⟨before, x, y, after, heq, hne, hx⟩
    cases before with
    | nil =>
      cases heq
      exact absurd rfl hne
    | cons z before => exact ⟨before, x, y, after, (List.cons.inj heq).2, hne, hx⟩
  · rintro ⟨before, x, y, after, heq, hne, hx⟩
    exact ⟨a :: before, x, y, after, by rw [heq, List.cons_append], hne, hx⟩

theorem recurs_of_ne (h : b ≠ a) : Recurs (a :: b :: ls) ↔ a ∈ ls ∨ Recurs (b :: ls) := by
  constructor
  · rintro ⟨before, x, y, after, heq, hne, hx⟩
    cases before with
    | nil =>
      cases heq
      exact .inl hx
    | cons z before => exact .inr ⟨before, x, y, after, (List.cons.inj heq).2, hne, hx⟩
  · rintro (hmem | ⟨before, x, y, after, heq, hne, hx⟩)
    · exact ⟨[], a, b, ls, rfl, h, hmem⟩
    · exact ⟨a :: before, x, y, after, by rw [heq, List.cons_append], hne, hx⟩

theorem not_recurs_of_nodup (h : ls.Nodup) : ¬Recurs ls := by
  rintro ⟨before, a, b, after, rfl, -, ha⟩
  have hlast := (List.nodup_append'.1 h).2.1
  exact (List.nodup_cons.1 hlast).1 (List.mem_cons_of_mem b ha)

variable [DecidableEq α]

/-- Dropping what repeats its neighbour drops all repetitions exactly if nothing comes back. -/
theorem nodup_eraseReps_iff (ls : List α) : ls.eraseReps.Nodup ↔ ¬Recurs ls := by
  cases ls with
  | nil => exact iff_of_true List.nodup_nil (by simp [Recurs])
  | cons a ls =>
    induction ls generalizing a with
    | nil => exact iff_of_true (List.nodup_singleton a) (by simp [Recurs, List.cons_eq_append_iff])
    | cons b ls ih =>
      rw [eraseReps_cons_cons]
      split
      · next heq => rw [ih, ← heq, recurs_repeated]
      · next hne =>
        rw [List.nodup_cons, mem_eraseReps, ih, recurs_of_ne (Ne.symm hne), List.mem_cons,
          or_iff_right hne, not_or]

end

/-! ## What matches -/

namespace Vm
variable {vm vm' : Vm}

/-- A location of a class matches a breakpoint: its line is asked for, or it is the entry of a
visible method of the name. -/
def Matches (vm : Vm) (c : TypeId) (kind : BreakpointKind) (l : Location) : Prop :=
  match kind with
  | .line n => ∃ k, vm.classes.get? c = some k ∧ (n, l) ∈ k.lines
  | .method name => ∃ m ∈ vm.methodsOf c, m.name = name ∧ vm.entries.get? m.id = some l

/-- The locations of a breakpoint in all loaded classes of a name, in the order they are found. -/
def found (vm : Vm) (name : String) (kind : BreakpointKind) : List Location :=
  (vm.visible name).flatMap fun c => vm.locationsOf c.id kind

theorem mem_locationsOf {c : TypeId} {kind : BreakpointKind} {l : Location} :
    l ∈ vm.locationsOf c kind ↔ vm.Matches c kind l := by
  cases kind with
  | line n =>
    cases hk : vm.classes.get? c with
    | none => simp [locationsOf, Matches, hk]
    | some k => simp [locationsOf, Matches, hk]
  | method name => simp [locationsOf, Matches, and_assoc]

theorem mem_found {name : String} {kind : BreakpointKind} {l : Location} :
    l ∈ vm.found name kind ↔ ∃ c ∈ vm.visible name, vm.Matches c.id kind l := by
  simp only [found, List.mem_flatMap, mem_locationsOf]

/-- Requests were made one after the other: at places that match, and at each such place. -/
structure Installs (vm vm' : Vm) (enabled : Bool) (made : List Location)
    (matching : Location → Prop) : Prop where
  requests : vm'.breakpointRequests = vm.breakpointRequests ++ made.map (·, enabled)
  places : ∀ l, l ∈ made ↔ matching l

theorem Installs.made_eq {enabled : Bool} {made : List Location} {matching : Location → Prop}
    (h : vm.Installs vm' enabled made matching) (hnone : vm.breakpointRequests = []) :
    made = vm'.breakpointRequests.map Prod.fst := by
  rw [h.requests, hnone, List.nil_append, List.map_map]
  exact (List.map_id made).symm

theorem breakpointRequests_of_entries {block : List (RequestId × Request)} {made : List Location}
    {enabled : Bool} (h : vm'.requests.entries = vm.requests.entries ++ block)
    (hlays : Lays block made enabled) :
    vm'.breakpointRequests = vm.breakpointRequests ++ made.map (·, enabled) := by
  rw [breakpointRequests, breakpointRequests, Dict.values, Dict.values, h, List.map_append,
    List.filterMap_append, List.filterMap_map (l := block)]
  exact congrArg (_ ++ ·) hlays.asked

end Vm

section
variable {σ : Type} (s : σ) (vm : Vm)

theorem exec_allLocations (kind : BreakpointKind) (cs : List TypeInfo) :
    exec (allLocations kind cs : Op DebugError σ (List Location)) s vm =
      (.ok (cs.flatMap fun c => vm.locationsOf c.id kind), s, vm) := by
  induction cs with
  | nil => rfl
  | cons c cs ih =>
    simp only [allLocations, exec_bind, exec_classLocations, ih, exec_pure]
    rw [List.flatMap_cons]

theorem exec_resolve_visible (name : String) (kind : BreakpointKind) :
    exec (resolveLocations (vm.visible name) kind : Op DebugError σ (List Location)) s vm =
      (.ok (vm.found name kind).eraseReps, s, vm) := by
  simp only [resolveLocations, exec_bind, exec_allLocations, exec_pure]
  rfl

end

/-! ## Adding -/

namespace Session
variable {s s' : Session} {vm vm' : Vm} {b b' : Breakpoint}

theorem get?_insertPending_self (t : BreakpointTable) (b : Breakpoint) (watch : RequestId) :
    (t.insertPending b watch).get? b.id =
      some { b with pending := true, resolvedLocations := 0 } := by
  simp [BreakpointTable.get?, BreakpointTable.insertPending, BreakpointTable.insert,
    Dict.get?_insert]

theorem get?_insertInstalled_self (t : BreakpointTable) (b : Breakpoint)
    (requests : List RequestId) : (t.insertInstalled b requests).get? b.id =
      some { b with pending := false, resolvedLocations := requests.length } := by
  simp [BreakpointTable.get?, BreakpointTable.insertInstalled, BreakpointTable.insert,
    Dict.get?_insert]

theorem exec_insertInstalled {requests : List RequestId}
    (h : exec (do
      Op.update fun s => { s with breakpoints := s.breakpoints.insertInstalled b requests }
      getBreakpoint b.id) s vm = (.ok b', s', vm')) :
    b'.resolvedLocations = requests.length ∧ vm' = vm := by
  have hget := exec_getBreakpoint (s :=
    { s with breakpoints := s.breakpoints.insertInstalled b requests })
      (get?_insertInstalled_self s.breakpoints b requests) vm
  simp only [exec_bind, exec_update, hget] at h
  cases h
  exact ⟨rfl, rfl⟩

/-- A breakpoint that waits for its class has a watch and no requests. -/
theorem exec_addPending (hroom : vm.Room 1) (h : exec (addPending b) s vm = (.ok b', s', vm')) :
    b'.resolvedLocations = 0 ∧ vm'.breakpointRequests = vm.breakpointRequests := by
  have hget (watch : RequestId) (s : Session) (vm : Vm) := exec_getBreakpoint (s :=
    { s with breakpoints := s.breakpoints.insertPending b watch })
      (get?_insertPending_self s.breakpoints b watch) vm
  cases hwatch : s.breakpoints.watch? b.className with
  | some watch =>
    simp only [addPending, exec_bind, exec_state, hwatch, exec_update, hget] at h
    cases h
    exact ⟨rfl, rfl⟩
  | none =>
    have hcall : exec (Op.call (.createClassPrepareWatch b.className) :
        Op DebugError Session RequestId) s vm =
          (.ok vm.nextRequest, s, (vm.addRequest (.classPrepare b.className)).2) := rfl
    have hfirst := BreakpointTable.watch?_insertPending s.breakpoints b vm.nextRequest
    rw [hwatch, Option.getD_none] at hfirst
    simp only [addPending, exec_bind, exec_state, hwatch, hcall, exec_update, hfirst,
      bne_self_eq_false, Bool.false_eq_true, if_false, hget] at h
    cases h
    have hentries := (Vm.Room.addRequest (n := 0) hroom (.classPrepare b.className)).1
    refine ⟨rfl, ?_⟩
    simp [Vm.breakpointRequests, Dict.values, hentries, RequestKind.location?]

theorem unreachable?_of_reach {u : Unit} (h : exec reach s vm = (.ok u, s', vm')) :
    s.unreachable? = none := by
  cases hunreachable : s.unreachable? with
  | none => rfl
  | some e =>
    simp only [reach, exec_bind, exec_state, hunreachable] at h
    cases congrArg Prod.fst h

theorem exec_addBreakpoint_installs {className : String} {kind : BreakpointKind}
    {condition : Option String} (hroom : vm.Room ((vm.found className kind).length + 1))
    (h : exec (addBreakpoint className kind condition) s vm = (.ok b, s', vm')) :
    ∃ made,
      vm.Installs vm' true made (fun l => ∃ c ∈ vm.visible className, vm.Matches c.id kind l) ∧
      b.resolvedLocations = made.length ∧ (made.Nodup ↔ ¬Recurs (vm.found className kind)) := by
  have hreach : s.unreachable? = none := by
    rw [addBreakpoint, exec_bind] at h
    split at h
    · next hreach => exact unreachable?_of_reach hreach
    · cases congrArg Prod.fst h
  have hcall (s : Session) : exec (Op.call (.classesByName className) :
      Op DebugError Session (List TypeInfo)) s vm = (.ok (vm.visible className), s, vm) := rfl
  simp only [addBreakpoint, exec_bind, exec_reach hreach, exec_updateGet, exec_state, hcall] at h
  by_cases hvisible : (vm.visible className).isEmpty = true
  · rw [if_pos hvisible] at h
    obtain ⟨hresolved, hrequests⟩ := exec_addPending (hroom.mono (Nat.le_add_left 1 _)) h
    have hnone : vm.visible className = [] := List.isEmpty_iff.1 hvisible
    refine ⟨[], ⟨?_, fun l => ?_⟩, hresolved, ?_⟩
    · rw [hrequests]
      exact (List.append_nil _).symm
    · simp [hnone]
    · simp [Vm.found, hnone, Recurs]
  · rw [if_neg hvisible] at h
    simp only [exec_bind, exec_resolve_visible] at h
    split at h
    · cases congrArg Prod.fst h
    · have hfew : vm.Room (0 + (vm.found className kind).eraseReps.length) :=
        hroom.mono (by have := length_eraseReps_le (vm.found className kind); omega)
      obtain ⟨block, vm₁, hinstall, hentries, hlays, -, -⟩ := exec_install s.freshId.2 [] _ hfew
      rw [exec_bind, hinstall, List.nil_append] at h
      obtain ⟨hresolved, hsame⟩ := exec_insertInstalled h
      subst hsame
      refine ⟨_, ⟨Vm.breakpointRequests_of_entries hentries hlays, fun l => ?_⟩, ?_,
        nodup_eraseReps_iff _⟩
      · rw [mem_eraseReps, Vm.mem_found]
      · rw [hresolved, List.length_map, hlays.length]

/-! ## Filling in -/

/-- A waiting breakpoint gets its requests in the class that was loaded, switched off if the
breakpoint is. -/
theorem run_materialize_installs {c : TypeInfo} {e : BreakpointEntry}
    (hroom : vm.Room (vm.locationsOf c.id b.kind).length)
    (hentry : s.breakpoints.entries.get? b.id = some e) (hwaits : e.requests = []) :
    ∃ made e' s' vm', (materialize c b).run Vm.serve s vm = ((), s', vm') ∧
      vm.Installs vm' e.breakpoint.enabled made (vm.Matches c.id b.kind) ∧
      s'.breakpoints.entries.get? b.id = some e' ∧ e'.breakpoint.resolvedLocations = made.length ∧
      (made.Nodup ↔ ¬Recurs (vm.locationsOf c.id b.kind)) := by
  have hfew : vm.Room (0 + (vm.locationsOf c.id b.kind).eraseReps.length) :=
    hroom.mono (by have := length_eraseReps_le (vm.locationsOf c.id b.kind); omega)
  obtain ⟨block, vm₁, hattempt, hentries, hlays, -, -⟩ := exec_installResolved s hfew
  have hbooked : bookRequests b.id (block.map Prod.fst) s =
      (some e.breakpoint.enabled, (bookRequests b.id (block.map Prod.fst) s).2) := by
    simp [bookRequests, BreakpointTable.materialize, hentry]
  have hplaced : (bookRequests b.id (block.map Prod.fst) s).2.breakpoints.entries.get? b.id =
      some ⟨{ e.breakpoint with pending := false, resolvedLocations := block.length },
        block.map Prod.fst⟩ := by
    simp [bookRequests, BreakpointTable.materialize, hentry, hwaits, Dict.get?_modify]
  have hmatching (l : Location) : l ∈ (vm.locationsOf c.id b.kind).eraseReps ↔
      vm.Matches c.id b.kind l := by
    rw [mem_eraseReps, Vm.mem_locationsOf]
  rw [run_materialize hattempt, hbooked]
  cases henabled : e.breakpoint.enabled with
  | true =>
    exact ⟨_, _, _, vm₁, rfl, ⟨Vm.breakpointRequests_of_entries hentries hlays, hmatching⟩, hplaced,
      hlays.length, nodup_eraseReps_iff _⟩
  | false =>
    have hoff := Vm.breakpointRequests_of_entries (Vm.entries_switched_last hentries false)
      (hlays.switched false)
    exact ⟨_, _, _, _, run_switches _ _ false _, ⟨hoff, hmatching⟩, hplaced, hlays.length,
      nodup_eraseReps_iff _⟩

end Session

/-! ## One request for each location -/

/-- A breakpoint that is added, or filled in when its class is loaded, gets one request or more at
each location that matches and none elsewhere, and counts as many locations as it has requests. No
location has two of them if and only if none comes back in the list after another one. In a machine
that is furnished piece by piece, none comes back for a line, nor in one class, nor when a class
name stands for one class. -/
theorem one_request_per_location_iff (vm : Vm) :
    (∀ (s s' : Session) (vm' : Vm) (className : String) (kind : BreakpointKind)
      (condition : Option String) (b : Breakpoint),
      vm.Room ((vm.found className kind).length + 1) →
      exec (Session.addBreakpoint className kind condition) s vm = (.ok b, s', vm') →
      ∃ made, vm.Installs vm' true made
          (fun l => ∃ c ∈ vm.visible className, vm.Matches c.id kind l) ∧
        b.resolvedLocations = made.length ∧ (made.Nodup ↔ ¬Recurs (vm.found className kind))) ∧
    (∀ (s : Session) (c : TypeInfo) (b : Breakpoint) (e : BreakpointEntry),
      vm.Room (vm.locationsOf c.id b.kind).length →
      s.breakpoints.entries.get? b.id = some e → e.requests = [] →
      ∃ made e' s' vm', (Session.materialize c b).run Vm.serve s vm = ((), s', vm') ∧
        vm.Installs vm' e.breakpoint.enabled made (vm.Matches c.id b.kind) ∧
        s'.breakpoints.entries.get? b.id = some e' ∧
        e'.breakpoint.resolvedLocations = made.length ∧
        (made.Nodup ↔ ¬Recurs (vm.locationsOf c.id b.kind))) ∧
    (vm.Furnished →
      (∀ c kind, ¬Recurs (vm.locationsOf c kind)) ∧
      (∀ className n, ¬Recurs (vm.found className (.line n))) ∧
      ∀ className kind, (vm.visible className).length ≤ 1 → ¬Recurs (vm.found className kind)) := by
  refine ⟨fun s s' vm' className kind condition b hroom hadd =>
    Session.exec_addBreakpoint_installs hroom hadd, fun s c b e hroom hentry hwaits =>
    Session.run_materialize_installs hroom hentry hwaits, fun h => ?_⟩
  refine ⟨fun c kind => not_recurs_of_nodup (h.nodup_locationsOf c kind),
    fun className n => not_recurs_of_nodup (h.nodup_lines className n),
    fun className kind hone => not_recurs_of_nodup ?_⟩
  rw [Vm.found]
  match vm.visible className, hone with
  | [], _ => exact List.nodup_nil
  | [c], _ =>
    rw [List.flatMap_singleton]
    exact h.nodup_locationsOf c.id kind

/-- A session on a machine that was furnished piece by piece. -/
def furnishedScene (furnishings : List Vm.Furnishing) : Scene :=
  Scene.connected .attachedRemote "sample" (Session.new "s" {} 0 {}) (Vm.furnished furnishings)

theorem furnished_furnishedScene {furnishings : List Vm.Furnishing}
    (hfew : furnishings.length ≤ 2 ^ 61) : (furnishedScene furnishings).vm.Furnished :=
  ⟨furnishings, hfew, rfl, rfl⟩

/-- A class with two methods of one name, and two classes of one name that inherit them. -/
def twins : List Vm.Furnishing :=
  [.piece (.type "app.Base" .classType none true), .piece (.method 21 "run" "()V" false none),
   .piece (.method 21 "run" "(I)V" false none), .line ⟨22, 21, "run", "()V", 1⟩ 7,
   .line ⟨23, 21, "run", "(I)V", 1⟩ 9, .piece (.type "app.Sub" .classType (some 21) true),
   .piece (.type "app.Sub" .classType (some 21) true)]

theorem room_twins : (furnishedScene twins).vm.Room 16 where
  below := by decide +kernel
  room := by decide +kernel

theorem requests_twins : (furnishedScene twins).vm.breakpointRequests = [] := by decide +kernel

theorem exec_of_toOption {ε σ α : Type} {m : Op ε σ α} {s : σ} {vm : Vm} {a : α}
    (h : (exec m s vm).1.toOption = some a) :
    exec m s vm = (.ok a, (exec m s vm).2.1, (exec m s vm).2.2) := by
  rcases hrun : exec m s vm with ⟨_ | b, s', vm'⟩
  · rw [hrun] at h
    exact nomatch h
  · rw [hrun] at h
    cases h
    rfl

def waitingForBase : Breakpoint where
  id := "b"
  className := "app.Base"
  kind := .method "run"
  condition := none
  enabled := false
  hitCount := 0
  createdAt := 0
  resolvedLocations := 0
  pending := true

/-- A line of a loaded class, and a method of a class that is reported as loaded while the
breakpoint for it is switched off. -/
theorem one_request_per_location_twins :
    let c := furnishedScene twins
    let base : TypeInfo := ⟨21, "app.Base", .classType⟩
    let s : Session :=
      { c.session with breakpoints := ({} : BreakpointTable).insertPending waitingForBase 9 }
    (∃ b s' vm' made,
      exec (Session.addBreakpoint "app.Base" (.line 7) none) c.session c.vm = (.ok b, s', vm') ∧
      c.vm.Installs vm' true made
        (fun l => ∃ k ∈ c.vm.visible "app.Base", c.vm.Matches k.id (.line 7) l) ∧
      made.Nodup) ∧
    ∃ made s' vm', (Session.materialize base waitingForBase).run Vm.serve s c.vm = ((), s', vm') ∧
      c.vm.Installs vm' false made (c.vm.Matches 21 (.method "run")) ∧ made.Nodup := by
  intro c base s
  have hfurnished : c.vm.Furnished := furnished_furnishedScene (by decide)
  obtain ⟨hadd, hfill, hnone⟩ := one_request_per_location_iff c.vm
  obtain ⟨hclass, hline, -⟩ := hnone hfurnished
  have hdone : (exec (Session.addBreakpoint "app.Base" (.line 7) none) c.session c.vm).1.toOption =
      some { waitingForBase with
        id := "7f4a7c15", kind := .line 7, enabled := true, resolvedLocations := 1
        pending := false } := by decide +kernel
  have hroom : (c.vm.found "app.Base" (.line 7)).length + 1 ≤ 16 := by decide +kernel
  have hroom' : (c.vm.locationsOf 21 (.method "run")).length ≤ 16 := by decide +kernel
  constructor
  · obtain ⟨made, hinstalls, -, hnodup⟩ :=
      hadd c.session _ _ "app.Base" (.line 7) none _ (room_twins.mono hroom)
        (exec_of_toOption hdone)
    exact ⟨_, _, _, made, exec_of_toOption hdone, hinstalls, hnodup.2 (hline _ _)⟩
  · obtain ⟨made, -, s', vm', hrun, hinstalls, -, -, hnodup⟩ :=
      hfill s base waitingForBase ⟨waitingForBase, []⟩ (room_twins.mono hroom') rfl rfl
    exact ⟨made, s', vm', hrun, hinstalls, hnodup.2 (hclass _ _)⟩

/-- Two classes of one name inherit two methods of one name: each method is asked for twice. -/
theorem not_one_request_per_location :
    ¬∀ (s s' : Session) (vm vm' : Vm) (className : String) (kind : BreakpointKind)
      (condition : Option String) (b : Breakpoint), vm.Furnished →
      vm.Room ((vm.found className kind).length + 1) →
      exec (Session.addBreakpoint className kind condition) s vm = (.ok b, s', vm') →
      ∃ made, vm.Installs vm' true made
        (fun l => ∃ c ∈ vm.visible className, vm.Matches c.id kind l) ∧ made.Nodup := by
  intro h
  let c := furnishedScene twins
  have hdone : (exec (Session.addBreakpoint "app.Sub" (.method "run") none) c.session
      c.vm).1.toOption = some { waitingForBase with
        id := "7f4a7c15", className := "app.Sub", enabled := true, resolvedLocations := 4
        pending := false } := by decide +kernel
  have hroom : (c.vm.found "app.Sub" (.method "run")).length + 1 ≤ 16 := by decide +kernel
  have hrequests : (exec (Session.addBreakpoint "app.Sub" (.method "run") none) c.session
      c.vm).2.2.breakpointRequests.map Prod.fst =
        [⟨1, 21, 22, 0⟩, ⟨1, 21, 23, 4⟩, ⟨1, 21, 22, 0⟩, ⟨1, 21, 23, 4⟩] := by decide +kernel
  have hfurnished : c.vm.Furnished := furnished_furnishedScene (by decide)
  obtain ⟨made, hinstalls, hnodup⟩ := h c.session _ c.vm _ "app.Sub" (.method "run") none _
    hfurnished (room_twins.mono hroom) (exec_of_toOption hdone)
  have hmade : made = [⟨1, 21, 22, 0⟩, ⟨1, 21, 23, 4⟩, ⟨1, 21, 22, 0⟩, ⟨1, 21, 23, 4⟩] :=
    (hinstalls.made_eq requests_twins).trans hrequests
  rw [hmade] at hnodup
  exact absurd hnodup (by decide)

end JvmDebug
