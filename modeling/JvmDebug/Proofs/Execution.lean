import JvmDebug.Proofs.Repeats
import JvmDebug.Proofs.TargetReports

/-!
Operations run alone, with nothing in between, on a session that reaches its target. Each lemma
says what a part of an operation returns and what it does to the target's requests.
-/
namespace JvmDebug

namespace Op
variable {ε σ α β : Type} (s : σ) (vm : Vm)

/-- Run an operation without interruption. -/
def exec (m : Op ε σ α) (s : σ) (vm : Vm) : Except ε α × σ × Vm := m.run.run Vm.serve s vm

theorem exec_bind (m : Op ε σ α) (g : α → Op ε σ β) :
    exec (m >>= g) s vm = match exec m s vm with
      | (.ok a, s, vm) => exec (g a) s vm
      | (.error e, s, vm) => (.error e, s, vm) := by
  simp only [exec, run_bind, Routine.run_bind]
  rcases Routine.run Vm.serve m.run s vm with ⟨_ | _, _, _⟩ <;> rfl

theorem exec_pure (a : α) : exec (pure a : Op ε σ α) s vm = (.ok a, s, vm) := rfl

theorem exec_state : exec (state : Op ε σ σ) s vm = (.ok s, s, vm) := rfl

theorem exec_update (f : σ → σ) : exec (update f : Op ε σ Unit) s vm = (.ok (), f s, vm) := rfl

theorem exec_updateGet (f : σ → α × σ) :
    exec (updateGet f : Op ε σ α) s vm = (.ok (f s).1, (f s).2, vm) := rfl

theorem exec_lift (m : Task σ α) : exec (lift m : Op ε σ α) s vm =
    (.ok (m.run Vm.serve s vm).1, (m.run Vm.serve s vm).2) := by
  simp only [exec, run_lift, Routine.run_bind]
  rfl

end Op

open Op

theorem Session.exec_reach {s : Session} (h : s.unreachable? = none) (vm : Vm) :
    exec Session.reach s vm = (.ok (), s, vm) := by
  simp only [reach, exec_bind, exec_state, h]
  rfl

theorem Session.exec_getBreakpoint {s : Session} {id : String} {b : Breakpoint}
    (h : s.breakpoints.get? id = some b) (vm : Vm) :
    exec (Session.getBreakpoint id) s vm = (.ok b, s, vm) := by
  simp only [getBreakpoint, exec_bind, exec_state, h]
  rfl

/-! ## Finding locations -/

namespace Vm

/-- The loaded classes of a name. -/
def visible (vm : Vm) (name : String) : List TypeInfo :=
  (vm.classes.values.filter fun k => k.loaded && k.info.name == name).map VmClass.info

def locationsOf (vm : Vm) (c : TypeId) : BreakpointKind → List Location
  | .line n =>
    let lines := ((vm.classes.get? c).map VmClass.lines).getD []
    (lines.filter (·.1 == n)).map Prod.snd
  | .method name =>
    ((vm.methodsOf c).filter (·.name == name)).filterMap fun m => vm.entries.get? m.id

/-- The machines have the same code, whether it is loaded or not. -/
structure SameCode (vm vm' : Vm) : Prop where
  size : vm'.classes.size = vm.classes.size
  classes (c : TypeId) : (vm'.classes.get? c).map (fun k => { k with loaded := true }) =
    (vm.classes.get? c).map fun k => { k with loaded := true }
  entries : vm'.entries = vm.entries

namespace SameCode
variable {vm vm' vm'' : Vm}

theorem trans (h : vm.SameCode vm') (h' : vm'.SameCode vm'') : vm.SameCode vm'' :=
  ⟨h'.size.trans h.size, fun c => (h'.classes c).trans (h.classes c), h'.entries.trans h.entries⟩

theorem read {α : Type} (h : vm.SameCode vm') (f : VmClass → Option α)
    (hf : ∀ k : VmClass, f { k with loaded := true } = f k) (c : TypeId) :
    (vm'.classes.get? c).bind f = (vm.classes.get? c).bind f := by
  have hread := congrArg (Option.bind · f) (h.classes c)
  simpa only [Option.bind_map, Function.comp_def, hf] using hread

theorem ancestors (h : vm.SameCode vm') (fuel : Nat) (met : List TypeId) (c : TypeId) :
    vm'.ancestors fuel met c = vm.ancestors fuel met c := by
  induction fuel generalizing met c with
  | zero => rfl
  | succ fuel ih => simp only [Vm.ancestors, h.read VmClass.superclass fun _ => rfl, ih]

theorem methodsOf (h : vm.SameCode vm') (c : TypeId) : vm'.methodsOf c = vm.methodsOf c := by
  have hierarchy : vm'.hierarchy c = vm.hierarchy c := by
    rw [Vm.hierarchy, Vm.hierarchy, h.size, h.ancestors]
  have hknown : (vm'.knownHierarchy c).map (fun k => { k with loaded := true }) =
      (vm.knownHierarchy c).map fun k => { k with loaded := true } := by
    rw [Vm.knownHierarchy, Vm.knownHierarchy, hierarchy, List.map_filterMap, List.map_filterMap]
    simp only [h.classes]
  -- Methods are gathered from the names, the methods and the ids of classes only.
  have hgather (classes : List VmClass) (gather : List Method → VmClass → List Method)
      (hloaded : ∀ found k, gather found { k with loaded := true } = gather found k) :
      classes.foldl gather [] =
        (classes.map fun k => { k with loaded := true }).foldl gather [] := by
    simp only [List.foldl_map, hloaded]
  rw [Vm.methodsOf, Vm.methodsOf, hgather _ _ fun _ _ => rfl, hknown, ← hgather _ _ fun _ _ => rfl]

theorem locationsOf (h : vm.SameCode vm') (c : TypeId) (kind : BreakpointKind) :
    vm'.locationsOf c kind = vm.locationsOf c kind := by
  cases kind with
  | line n =>
    have hlines := h.read (fun k => some k.lines) (fun _ => rfl) c
    simp only [Vm.locationsOf, Option.map_eq_bind, Function.comp_def, hlines]
  | method name => simp only [Vm.locationsOf, h.methodsOf, h.entries]

end SameCode

end Vm

section
variable {σ : Type} (s : σ) (vm : Vm)

theorem exec_methodEntries (name : String) (ms : List Method) :
    exec (methodEntries name ms : Op DebugError σ (List Location)) s vm =
      (.ok ((ms.filter (·.name == name)).filterMap fun m => vm.entries.get? m.id), s, vm) := by
  induction ms with
  | nil => rfl
  | cons m ms ih =>
    simp only [methodEntries]
    by_cases hm : m.name == name
    · have hentry : exec (Op.call (.methodEntry m) : Op DebugError σ (Option Location)) s vm =
          (.ok (vm.entries.get? m.id), s, vm) := rfl
      rw [if_pos hm, List.filter_cons_of_pos (by exact hm)]
      simp only [exec_bind, hentry, ih, exec_pure]
      cases hget : vm.entries.get? m.id with
      | none => rw [List.filterMap_cons_none (by exact hget)]; rfl
      | some l => rw [List.filterMap_cons_some (by exact hget)]; rfl
    · rw [if_neg hm, ih, List.filter_cons_of_neg (by exact hm)]

theorem exec_classLocations (c : TypeInfo) (kind : BreakpointKind) :
    exec (classLocations c kind : Op DebugError σ (List Location)) s vm =
      (.ok (vm.locationsOf c.id kind), s, vm) := by
  cases kind with
  | line n => rfl
  | method name =>
    have hmethods : exec (Op.call (.methods c.id) : Op DebugError σ (List Method)) s vm =
        (.ok (vm.methodsOf c.id), s, vm) := rfl
    simp only [classLocations, exec_bind, hmethods, exec_methodEntries]
    rfl

theorem exec_resolveLocations (c : TypeInfo) (kind : BreakpointKind) :
    exec (resolveLocations [c] kind : Op DebugError σ (List Location)) s vm =
      (.ok (vm.locationsOf c.id kind).eraseReps, s, vm) := by
  simp only [resolveLocations, allLocations, exec_bind, exec_classLocations, exec_pure,
    List.append_nil]

end

/-! ## Requests -/

namespace Vm
variable {vm vm' vm'' : Vm} {n : Nat}

/-- Nothing but requests comes, goes or changes. -/
def OnlyRequests (vm vm' : Vm) : Prop :=
  vm' = { vm with requests := vm'.requests, nextRequest := vm'.nextRequest }

theorem OnlyRequests.rfl : vm.OnlyRequests vm := Eq.refl _

theorem OnlyRequests.trans (h : vm.OnlyRequests vm') (h' : vm'.OnlyRequests vm'') :
    vm.OnlyRequests vm'' := by
  rw [OnlyRequests, h', h]

theorem OnlyRequests.sameCode (h : vm.OnlyRequests vm') : vm.SameCode vm' := by
  rw [h]
  exact ⟨Eq.refl _, fun _ => Eq.refl _, Eq.refl _⟩

theorem OnlyRequests.classes (h : vm.OnlyRequests vm') : vm'.classes = vm.classes := by rw [h]

theorem OnlyRequests.reports (h : vm.OnlyRequests vm') : vm'.reports = vm.reports := by rw [h]

/-- The next `n` requests get numbers that no request has. -/
structure Room (vm : Vm) (n : Nat) : Prop where
  below : ∀ p ∈ vm.requests.entries, p.1 < vm.nextRequest
  room : vm.nextRequest.toNat + n < UInt32.size

theorem Room.mono {m : Nat} (h : vm.Room n) (hm : m ≤ n) : vm.Room m :=
  ⟨h.below, by have := h.room; omega⟩

theorem Room.of_sameBooks (h : vm.Room n) (hbooks : vm.SameBooks vm') : vm'.Room n := by
  refine ⟨fun p hp => ?_, ?_⟩
  · rw [hbooks.requests] at hp
    rw [hbooks.nextRequest]
    exact h.below p hp
  · rw [hbooks.nextRequest]
    exact h.room

theorem Room.addRequest (h : vm.Room (n + 1)) (kind : RequestKind) :
    (vm.addRequest kind).2.requests.entries =
        vm.requests.entries ++ [(vm.nextRequest, ⟨vm.nextRequest, kind, true⟩)] ∧
      (vm.addRequest kind).2.Room n := by
  have hnone : vm.requests.get? vm.nextRequest = none := by
    cases hget : vm.requests.get? vm.nextRequest with
    | none => rfl
    | some q => exact absurd (h.below _ (Dict.mem_entries.2 hget)) (UInt32.lt_irrefl _)
  have hentries : (vm.addRequest kind).2.requests.entries =
      vm.requests.entries ++ [(vm.nextRequest, ⟨vm.nextRequest, kind, true⟩)] :=
    Dict.insert_entries_of_none hnone _
  have hroom := h.room
  have hnext : (vm.nextRequest + 1).toNat = vm.nextRequest.toNat + 1 := by
    rw [UInt32.toNat_add]
    exact Nat.mod_eq_of_lt (by show _ + 1 < UInt32.size; omega)
  refine ⟨hentries, fun p hp => ?_, ?_⟩
  · show p.1 < vm.nextRequest + 1
    rw [UInt32.lt_iff_toNat_lt, hnext]
    rw [hentries, List.mem_append, List.mem_singleton] at hp
    rcases hp with hp | rfl
    · have := UInt32.lt_iff_toNat_lt.1 (h.below p hp)
      omega
    · exact Nat.lt_succ_self _
  · show (vm.nextRequest + 1).toNat + n < UInt32.size
    omega

def without (vm : Vm) (rs : List RequestId) : Vm :=
  { vm with requests := rs.foldl Dict.erase vm.requests }

def switched (vm : Vm) (enabled : Bool) (rs : List RequestId) : Vm :=
  { vm with requests := rs.foldl (fun d r => d.modify r fun q => { q with enabled }) vm.requests }

theorem entries_without (vm : Vm) (rs : List RequestId) :
    (vm.without rs).requests.entries = vm.requests.entries.filter fun p => p.1 ∉ rs :=
  Dict.entries_foldl_erase _ _

theorem entries_switched (vm : Vm) (enabled : Bool) (rs : List RequestId) :
    (vm.switched enabled rs).requests.entries =
      vm.requests.entries.map fun p => if p.1 ∈ rs then (p.1, { p.2 with enabled }) else p :=
  Dict.entries_foldl_modify _ _ _ fun _ => rfl

theorem Room.without (h : vm.Room n) (rs : List RequestId) : (vm.without rs).Room n := by
  refine ⟨fun p hp => ?_, h.room⟩
  rw [entries_without] at hp
  exact h.below p (List.mem_filter.1 hp).1

theorem Room.switched (h : vm.Room n) (enabled : Bool) (rs : List RequestId) :
    (vm.switched enabled rs).Room n := by
  refine ⟨fun p hp => ?_, h.room⟩
  rw [entries_switched] at hp
  obtain ⟨q, hq, rfl⟩ := List.mem_map.1 hp
  have := h.below q hq
  split <;> exact this

theorem deleteRequest_eq (vm : Vm) (r : RequestId) : (vm.deleteRequest r).2 = vm.without [r] := by
  simp only [deleteRequest, without, List.foldl_cons, List.foldl_nil]
  split
  · rfl
  · next h =>
    have hnone : vm.requests.get? r = none := by simpa [Dict.contains] using h
    rw [Dict.eq_of_entries (Dict.erase_entries_of_none hnone)]

theorem switchRequest_eq (vm : Vm) (r : RequestId) (enabled : Bool) :
    (vm.switchRequest r enabled).2 = vm.switched enabled [r] := by
  simp only [switchRequest, switched, List.foldl_cons, List.foldl_nil]
  split
  · rfl
  · next h =>
    have hnone : vm.requests.get? r = none := by simpa [Dict.contains] using h
    rw [Dict.modify_of_none hnone]

end Vm

section
variable {σ : Type} (s : σ) (vm : Vm)

theorem run_deletions (rs : List RequestId) :
    (Task.quietlyAll (deletions rs)).run Vm.serve s vm = ((), s, vm.without rs) := by
  induction rs generalizing vm with
  | nil => rfl
  | cons r rs ih =>
    have hfirst : (vm.answer (.deleteRequest r)).2 = vm.without [r] := vm.deleteRequest_eq r
    simp only [deletions, List.map_cons, Task.quietlyAll, Task.quietly, Routine.bind_eq,
      Routine.bind, Routine.run, Vm.serve, hfirst]
    exact ih _

theorem run_switches (enabled : Bool) (rs : List RequestId) :
    (Task.quietlyAll (rs.map fun r => .setRequestEnabled r enabled)).run Vm.serve s vm =
      ((), s, vm.switched enabled rs) := by
  induction rs generalizing vm with
  | nil => rfl
  | cons r rs ih =>
    have hfirst : (vm.answer (.setRequestEnabled r enabled)).2 = vm.switched enabled [r] :=
      vm.switchRequest_eq r enabled
    simp only [List.map_cons, Task.quietlyAll, Task.quietly, Routine.bind_eq, Routine.bind,
      Routine.run, Vm.serve, hfirst]
    exact ih _

end

theorem Session.exec_switchAll (s : Session) {vm : Vm} (enabled : Bool) {rs : List RequestId}
    (hrs : ∀ r ∈ rs, r ∈ vm.requests.keys) :
    exec (switchAll enabled rs) s vm = (.ok (), s, vm.switched enabled rs) := by
  induction rs generalizing vm with
  | nil => rfl
  | cons r rs ih =>
    have hsome : vm.requests.contains r = true := by
      rw [Dict.contains, Option.isSome_iff_ne_none, ne_eq, Dict.get?_eq_none, not_not]
      exact hrs r List.mem_cons_self
    have hfirst : exec (Op.call (.setRequestEnabled r enabled) : Op DebugError Session Unit) s vm =
        (.ok (), s, vm.switched enabled [r]) := by
      have hdone : (vm.switchRequest r enabled).1 = .ok () := by
        rw [Vm.switchRequest, if_pos hsome]
      rw [← vm.switchRequest_eq r enabled]
      show (Except.mapError _ (vm.switchRequest r enabled).1, s, _) = _
      rw [hdone]
      rfl
    simp only [switchAll, exec_bind, hfirst]
    refine ih fun x hx => ?_
    have hkeys : (vm.switched enabled [r]).requests.keys = vm.requests.keys := by
      rw [Dict.keys, Vm.entries_switched, List.map_map]
      refine List.map_congr_left fun p _ => ?_
      rw [Function.comp_apply]
      split <;> rfl
    rw [hkeys]
    exact hrs x (List.mem_cons_of_mem _ hx)

def Lays (block : List (RequestId × Request)) (ls : List Location) (enabled : Bool) : Prop :=
  block.map (fun p => (p.2.kind, p.2.enabled)) = ls.map fun l => (.breakpoint l, enabled)

section Lays
variable {block : List (RequestId × Request)} {ls : List Location} {enabled : Bool}

theorem Lays.length (h : Lays block ls enabled) : block.length = ls.length := by
  have hlength := congrArg List.length h
  rwa [List.length_map, List.length_map] at hlength

theorem Lays.switched {old : Bool} (h : Lays block ls old) (enabled : Bool) :
    Lays (block.map fun p => (p.1, { p.2 with enabled })) ls enabled := by
  have hswitched := congrArg (List.map fun p => (p.1, enabled)) h
  rw [List.map_map, List.map_map] at hswitched
  rw [Lays, List.map_map]
  exact hswitched

/-- Switching the requests that came last leaves the others. -/
theorem Vm.entries_switched_last {vm vm' : Vm}
    (h : vm'.requests.entries = vm.requests.entries ++ block) (enabled : Bool) :
    (vm'.switched enabled (block.map Prod.fst)).requests.entries =
      vm.requests.entries ++ block.map fun p => (p.1, { p.2 with enabled }) := by
  have hkeys := vm'.requests.nodup
  rw [h, List.map_append] at hkeys
  have hdisjoint := (List.nodup_append'.1 hkeys).2.2
  rw [entries_switched, h, List.map_append]
  refine congrArg₂ (· ++ ·) ?_ ?_
  · refine (List.map_congr_left fun p hp => if_neg fun hmem => ?_).trans (List.map_id _)
    exact hdisjoint (List.mem_map_of_mem hp) hmem
  · exact List.map_congr_left fun p hp => if_pos (List.mem_map_of_mem hp)

end Lays

theorem Session.exec_install (s : Session) {vm : Vm} {n : Nat} (made : List RequestId)
    (ls : List Location) (hroom : vm.Room (n + ls.length)) :
    ∃ block vm', exec (install made ls) s vm = (.ok (made ++ block.map Prod.fst), s, vm') ∧
      vm'.requests.entries = vm.requests.entries ++ block ∧ Lays block ls true ∧
      vm.OnlyRequests vm' ∧ vm'.Room n := by
  induction ls generalizing vm made with
  | nil => exact ⟨[], vm, by simp [install, exec_pure], by simp, rfl, .rfl, hroom⟩
  | cons l ls ih =>
    obtain ⟨hentries, hrest⟩ := Vm.Room.addRequest (n := n + ls.length) hroom (.breakpoint l)
    obtain ⟨block, vm', hrun, hlaid, hlays, honly, hroom'⟩ := ih (made ++ [vm.nextRequest]) hrest
    refine ⟨(vm.nextRequest, ⟨vm.nextRequest, .breakpoint l, true⟩) :: block, vm', ?_, ?_, ?_,
      .trans ?_ honly, hroom'⟩
    · have hcall : exec (Op.attempt (.createBreakpoint l) :
            Op DebugError Session (Except TargetError RequestId)) s vm =
          (.ok (.ok vm.nextRequest), s, (vm.addRequest (.breakpoint l)).2) := rfl
      simp only [install, exec_bind, hcall, hrun]
      simp
    · rw [hlaid, hentries, List.append_assoc, List.singleton_append]
    · rw [Lays, List.map_cons, List.map_cons, hlays]
    · rfl

/-- Requests are made for the locations that a kind of breakpoint has in a class. -/
theorem Session.exec_installResolved (s : Session) {vm : Vm} {n : Nat} {c : TypeInfo}
    {kind : BreakpointKind} (hroom : vm.Room (n + (vm.locationsOf c.id kind).eraseReps.length)) :
    ∃ block vm', exec (do install [] (← resolveLocations [c] kind)) s vm =
        ((.ok (block.map Prod.fst) : Except DebugError (List RequestId)), s, vm') ∧
      vm'.requests.entries = vm.requests.entries ++ block ∧
      Lays block (vm.locationsOf c.id kind).eraseReps true ∧
      vm.OnlyRequests vm' ∧ vm'.Room n := by
  obtain ⟨block, vm', hinstall, hrest⟩ := exec_install s [] _ hroom
  refine ⟨block, vm', ?_, hrest⟩
  simp only [exec_bind, exec_resolveLocations, hinstall, List.nil_append]

end JvmDebug
