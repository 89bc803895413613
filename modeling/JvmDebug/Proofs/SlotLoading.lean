import JvmDebug.Proofs.SlotAdditions

/-!
Loading a class fills the slots that wait for it. The breakpoints get their requests one after the
other, so before each of them the slots in front are full and those behind still wait.
-/
namespace JvmDebug

open Op

theorem Session.run_materialize {info : TypeInfo} {b : Breakpoint} {s : Session} {vm vm' : Vm}
    {requests : List RequestId}
    (hmade : exec (do install [] (← resolveLocations [info] b.kind)) s vm =
      ((.ok requests : Except DebugError (List RequestId)), s, vm')) :
    (Session.materialize info b).run Vm.serve s vm =
      (followUp requests (bookRequests b.id requests s).1).run Vm.serve
        (bookRequests b.id requests s).2 vm' := by
  have hrun : Routine.run Vm.serve (Op.outcome do install [] (← resolveLocations [info] b.kind)) s vm =
      ((.ok requests : Except DebugError (List RequestId)), s, vm') := hmade
  simp only [Session.materialize, Routine.bind_eq, Routine.run_bind, hrun, Routine.modifyGet,
    Routine.run]

def Slot.places (vm : Vm) (c : TypeId) : List Slot → Nat
  | [] => 0
  | t :: slots => (vm.locationsOf c t.item.kind).eraseReps.length + places vm c slots

namespace Slot
variable {vm : Vm} {c : TypeId}

theorem places_switch (n : Nat) (enabled : Bool) (slots : List Slot) :
    places vm c (slots.map (switchAt n enabled)) = places vm c slots := by
  induction slots with
  | nil => rfl
  | cons t slots ih =>
    have hkind : (t.switchAt n enabled).item.kind = t.item.kind := by
      rw [switchAt]
      split <;> rfl
    rw [List.map_cons, places, places, hkind, ih]

theorem places_filter (n : Nat) (slots : List Slot) :
    places vm c (slots.filter fun t => t.item.number ≠ n) ≤ places vm c slots := by
  induction slots with
  | nil => exact le_rfl
  | cons t slots ih =>
    rw [List.filter_cons, places]
    split
    · rw [places]
      omega
    · omega

theorem places_snoc (slots : List Slot) (t : Slot) :
    places vm c (slots ++ [t]) =
      places vm c slots + (vm.locationsOf c t.item.kind).eraseReps.length := by
  induction slots with
  | nil => simp [places]
  | cons u slots ih =>
    rw [List.cons_append, places, places, ih]
    omega

end Slot

theorem Vm.SameCode.places {vm vm' : Vm} (h : vm.SameCode vm') (c : TypeId) (slots : List Slot) :
    Slot.places vm' c slots = Slot.places vm c slots := by
  induction slots with
  | nil => rfl
  | cons t slots ih => simp only [Slot.places, h.locationsOf, ih]

namespace Laid
variable {s₀ s : Session} {vm₀ vm : Vm} {info : TypeInfo} {slots full rest : List Slot}
  {t : Slot} {count total n : Nat}

theorem book (h : Laid s₀ vm₀ info none (full ++ t :: rest) count s vm)
    (hids : s₀.FreshIds total) (hcount : count ≤ total) (hwaits : t.block = none)
    {requests : List RequestId} {block : List (RequestId × Request)}
    (hrequests : requests = block.map Prod.fst)
    (hlays : Lays block (vm₀.locationsOf info.id t.item.kind).eraseReps t.item.enabled) {vm' : Vm}
    (hentries : vm'.requests.entries = vm₀.requests.entries ++
      (full ++ ⟨t.item, some block⟩ :: rest).flatMap Slot.held)
    (honly : vm.OnlyRequests vm') :
    (Session.bookRequests (s₀.nthId t.item.number) requests s).1 = some t.item.enabled ∧
      Laid s₀ vm₀ info none (full ++ ⟨t.item, some block⟩ :: rest) count
        (Session.bookRequests (s₀.nthId t.item.number) requests s).2 vm' := by
  have ht : t ∈ full ++ t :: rest := List.mem_append_right _ List.mem_cons_self
  have hget := h.get?_of_mem ht
  have hnone : t.requests = [] := by
    rw [Slot.requests, Slot.held, hwaits]
    rfl
  let t' : Slot := ⟨t.item, some block⟩
  have hplace : t.replaceIn t' (full ++ t :: rest) = full ++ t' :: rest :=
    Slot.replaceIn_append h.numbers
  have hfits : t'.Fits vm₀ info.id := by
    intro made hmade
    cases hmade
    exact hlays
  rw [hnone] at hget
  simp only [Session.bookRequests, BreakpointTable.materialize, hget, List.nil_append]
  refine ⟨rfl, ?_⟩
  rw [← hplace]
  have hnumber : t'.item.number = t.item.number := rfl
  refine h.replace hids hcount ht hnumber hfits _ _ ?_ ?_ honly
  · subst hrequests
    rfl
  · rw [hentries, hplace]
    simp [t']

/-- Requests that came last are those of the slot in front of the ones that have none. -/
theorem entries_filled (h : Laid s₀ vm₀ info none (full ++ t :: rest) count s vm)
    (hwaits : t.block = none) (hrest : ∀ u ∈ rest, u.block = none) {vm' : Vm}
    {block : List (RequestId × Request)}
    (hadded : vm'.requests.entries = vm.requests.entries ++ block) :
    vm'.requests.entries = vm₀.requests.entries ++
      (full ++ ⟨t.item, some block⟩ :: rest).flatMap Slot.held := by
  have hheld : t.held = [] := by
    rw [Slot.held, hwaits]
    rfl
  rw [hadded, h.requests]
  simp only [List.flatMap_append, List.flatMap_cons, Slot.held_of_waiting hrest, hheld,
    List.append_nil, List.append_assoc, Option.toList_none, List.map_nil]
  rfl

theorem materialize (h : Laid s₀ vm₀ info none (full ++ t :: rest) count s vm)
    (hids : s₀.FreshIds total) (hcount : count ≤ total) (hwaits : t.block = none)
    (hrest : ∀ u ∈ rest, u.block = none)
    (hroom : vm.Room (n + (vm₀.locationsOf info.id t.item.kind).eraseReps.length)) :
    ∃ block s' vm', (Session.materialize info (t.breakpoint s₀ info.name)).run Vm.serve s vm =
        ((), s', vm') ∧
      Laid s₀ vm₀ info none (full ++ ⟨t.item, some block⟩ :: rest) count s' vm' ∧
      vm'.Room n ∧ vm.OnlyRequests vm' := by
  rw [← h.only.sameCode.locationsOf] at hroom
  obtain ⟨block, vm', hattempt, hadded, hlays, honly, hroom'⟩ :=
    Session.exec_installResolved s hroom
  rw [h.only.sameCode.locationsOf] at hlays
  rw [Session.run_materialize hattempt]
  cases henabled : t.item.enabled with
  | true =>
    rw [← henabled] at hlays
    obtain ⟨hbooked, hlaid⟩ := h.book hids hcount hwaits rfl hlays
      (h.entries_filled hwaits hrest hadded) honly
    refine ⟨block, _, vm', ?_, hlaid, hroom', honly⟩
    have hflag : (Session.bookRequests (t.breakpoint s₀ info.name).id (block.map Prod.fst) s).1 =
        some true := hbooked.trans (congrArg some henabled)
    rw [hflag]
    rfl
  | false =>
    -- The requests are switched off as the breakpoint was while it waited.
    let off : List (RequestId × Request) := block.map fun p => (p.1, { p.2 with enabled := false })
    have hrequests : block.map Prod.fst = off.map Prod.fst := by
      rw [List.map_map]
      rfl
    have hoff : Lays off (vm₀.locationsOf info.id t.item.kind).eraseReps t.item.enabled :=
      henabled ▸ hlays.switched false
    obtain ⟨hbooked, hlaid⟩ := h.book hids hcount hwaits hrequests hoff
      (h.entries_filled hwaits hrest (Vm.entries_switched_last hadded false)) (honly.trans rfl)
    refine ⟨off, _, _, ?_, hlaid, hroom'.switched _ _, honly.trans rfl⟩
    have hflag : (Session.bookRequests (t.breakpoint s₀ info.name).id (block.map Prod.fst) s).1 =
        some false := hbooked.trans (congrArg some henabled)
    rw [hflag]
    exact run_switches _ _ _ _

theorem materializeAll (h : Laid s₀ vm₀ info none (full ++ rest) count s vm)
    (hids : s₀.FreshIds total) (hcount : count ≤ total) (hrest : ∀ u ∈ rest, u.block = none)
    (hroom : vm.Room (n + Slot.places vm₀ info.id rest)) :
    ∃ filled s' vm',
      (Session.materializeAll info (rest.map (Slot.breakpoint s₀ info.name))).run Vm.serve s vm =
        ((), s', vm') ∧
      Laid s₀ vm₀ info none (full ++ filled) count s' vm' ∧
      filled.map Slot.item = rest.map Slot.item ∧ (∀ u ∈ filled, u.block.isSome) ∧
      vm'.Room n ∧ vm.OnlyRequests vm' := by
  induction rest generalizing full s vm with
  | nil => exact ⟨[], s, vm, rfl, h, rfl, fun u hu => absurd hu List.not_mem_nil, hroom, .rfl⟩
  | cons t rest ih =>
    have hwaits := hrest t List.mem_cons_self
    have hbehind : ∀ u ∈ rest, u.block = none := fun u hu => hrest u (List.mem_cons_of_mem _ hu)
    have hplaces : n + Slot.places vm₀ info.id (t :: rest) = n + Slot.places vm₀ info.id rest +
        (vm₀.locationsOf info.id t.item.kind).eraseReps.length := by
      rw [Slot.places]
      omega
    rw [hplaces] at hroom
    obtain ⟨block, s₁, vm₁, hrun₁, hlaid₁, hroom₁, honly₁⟩ :=
      h.materialize hids hcount hwaits hbehind hroom
    rw [List.append_cons] at hlaid₁
    obtain ⟨filled, s₂, vm₂, hrun₂, hlaid₂, hitems, hfull, hroom₂, honly₂⟩ :=
      ih hlaid₁ hbehind hroom₁
    refine ⟨⟨t.item, some block⟩ :: filled, s₂, vm₂, ?_, ?_, ?_, ?_, hroom₂, honly₁.trans honly₂⟩
    · simp only [List.map_cons, Session.materializeAll, Routine.bind_eq, Routine.run_bind, hrun₁]
      exact hrun₂
    · rw [List.append_cons]
      exact hlaid₂
    · rw [List.map_cons, List.map_cons, hitems]
    · intro u hu
      rcases List.mem_cons.1 hu with rfl | hu
      · rfl
      · exact hfull u hu

theorem classLoaded {w : RequestId} (h : Laid s₀ vm₀ info (some w) slots count s vm)
    (hids : s₀.FreshIds total) (hcount : count ≤ total) (hwait : ∀ u ∈ slots, u.block = none)
    (hroom : vm.Room (n + Slot.places vm₀ info.id slots)) :
    ∃ filled s' vm', (Session.classLoaded info).run Vm.serve s vm = ((), s', vm') ∧
      Laid s₀ vm₀ info none filled count s' vm' ∧
      filled.map Slot.item = slots.map Slot.item ∧ (∀ u ∈ filled, u.block.isSome) ∧
      vm'.Room n ∧ vm.OnlyRequests vm' := by
  let s₁ : Session := { s with breakpoints :=
    { s.breakpoints with pending := s.breakpoints.pending.erase info.name } }
  have htake : Session.takePending info.name s =
      (some (w, slots.map (Slot.breakpoint s₀ info.name)), s₁) := by
    have hwaiting : (slots.map fun t => s₀.nthId t.item.number).filterMap s.breakpoints.get? =
        slots.map (Slot.breakpoint s₀ info.name) := by
      rw [List.filterMap_map, ← List.filterMap_eq_map]
      refine List.filterMap_congr fun t ht => ?_
      exact congrArg (Option.map BreakpointEntry.breakpoint) (h.get?_of_mem ht)
    simp only [Session.takePending, BreakpointTable.takePending, h.pending_get?, Option.map_some,
      hwaiting]
    rfl
  have hreach : s₁.unreachable? = none := h.reachable
  have hdelete : (vm.answer (.deleteRequest w)).2 = vm.without [w] := vm.deleteRequest_eq w
  have hfree : Laid s₀ vm₀ info none ([] ++ slots) count s₁ (vm.without [w]) := by
    refine { h with
      pending := ?_, reachable := hreach, requests := ?_, needed := fun _ => rfl
      only := h.only.trans rfl }
    · show List.filter _ s.breakpoints.pending.entries = _
      rw [h.pending]
      simp
    · have hwatch := h.filter_watch
      rw [Vm.entries_without, h.requests, List.nil_append, Slot.held_of_waiting hwait,
        List.append_nil]
      simpa using hwatch
  obtain ⟨filled, s₂, vm₂, hrun, hlaid, hitems, hfull, hroom₂, honly⟩ :=
    hfree.materializeAll hids hcount hwait (hroom.without [w])
  have hgone : vm.OnlyRequests (vm.without [w]) := rfl
  refine ⟨filled, s₂, vm₂, ?_, hlaid, hitems, hfull, hroom₂, hgone.trans honly⟩
  simp only [Session.classLoaded, Session.installWaiting, Routine.bind_eq, Routine.modifyGet,
    Routine.bind, Routine.run, htake, Routine.get, id_eq, hreach, Option.isSome_none,
    Bool.false_eq_true, if_false, Task.quietly, Vm.serve, hdelete]
  exact hrun

end Laid

/-! ## The load -/

namespace Vm

def withLoaded (vm : Vm) (x : TypeId) : Vm := vm.modifyClass x fun k => { k with loaded := true }

theorem sameCode_withLoaded (vm : Vm) (x : TypeId) : vm.SameCode (vm.withLoaded x) where
  size := by simp [withLoaded, modifyClass, Dict.size, Dict.modify]
  classes c := by
    simp only [withLoaded, modifyClass, Dict.get?_modify]
    by_cases hc : c = x
    · subst hc
      rw [if_pos rfl, Option.map_map]
      rfl
    · rw [if_neg hc]
  entries := rfl

def watchers (vm : Vm) (name : String) : List Request :=
  vm.enabledRequests.filter fun r => r.kind == .classPrepare name

/-- What is reported of a load: one event for each watch, in one set. -/
theorem loadClass_eq {vm : Vm} {x : TypeId} {k : VmClass} (hk : vm.classes.get? x = some k)
    (t : ThreadId) : (vm.loadClass t x).2 = ((vm.withLoaded x).reportAny
      ((vm.watchers k.info.name).map fun r => .classPrepare (some r.id) t k.info)).2 := by
  simp only [loadClass, hk]
  rfl

end Vm

def Session.handleReports : List Report → Task Session Unit
  | [] => return
  | .events set :: reports => do
    if ← handleSet set then handleReports reports
  | .hangUp :: _ => Routine.modify disconnected

theorem Session.run_handleReports {s s' : Session} {vm vm' : Vm} {info : TypeInfo}
    (r : Option RequestId) (t : ThreadId)
    (hload : (classLoaded info).run Vm.serve s vm = ((), s', vm')) :
    (handleReports [.events ⟨.all, [.classPrepare r t info]⟩]).run Vm.serve s vm =
      ((), s', vm'.resumeSet ⟨.all, [.classPrepare r t info]⟩) := by
  simp only [handleReports, handleSet, handleEvents, handleEvent, Routine.bind_eq,
    Routine.run_bind, hload]
  rfl

namespace Laid
variable {s₀ s : Session} {vm₀ vm : Vm} {info : TypeInfo} {watch : Option RequestId}
  {slots : List Slot} {count total n : Nat}

theorem rebase (h : Laid s₀ vm₀ info watch slots count s vm) (vm₁ : Vm)
    (hrequests : vm₁.requests = vm.requests) (hcode : vm.SameCode vm₁) :
    Laid s₀ { vm₁ with requests := vm₀.requests, nextRequest := vm₀.nextRequest } info watch slots
      count s vm₁ :=
  { h with
    requests := by
      rw [hrequests]
      exact h.requests
    fits := by
      intro t ht block hblock
      have hsame : vm₁.SameCode
          { vm₁ with requests := vm₀.requests, nextRequest := vm₀.nextRequest } :=
        ⟨rfl, fun _ => rfl, rfl⟩
      rw [((h.only.sameCode.trans hcode).trans hsame).locationsOf]
      exact h.fits t ht block hblock
    only := rfl }

theorem watchers_eq (h : Laid s₀ vm₀ info watch slots count s vm)
    (hwait : ∀ u ∈ slots, u.block = none)
    (hunwatched : ∀ p ∈ vm₀.requests.entries, ∀ name, p.2.kind ≠ .classPrepare name) :
    vm.watchers info.name = watch.toList.map fun w => ⟨w, .classPrepare info.name, true⟩ := by
  have hbase : (vm₀.requests.entries.map Prod.snd).filter
      (fun r => r.enabled && r.kind == .classPrepare info.name) = [] := by
    refine List.filter_eq_nil_iff.2 fun r hr => ?_
    obtain ⟨p, hp, rfl⟩ := List.mem_map.1 hr
    have := hunwatched p hp info.name
    simpa using fun _ => this
  rw [Vm.watchers, Vm.enabledRequests, List.filter_filter, Dict.values, h.requests,
    Slot.held_of_waiting hwait, List.append_nil, List.map_append, List.filter_append]
  simp only [Bool.and_comm] at hbase ⊢
  rw [hbase]
  cases watch <;> simp [watchEntry]

/-- The load of a class, with its report handled, installs every breakpoint that waits. -/
theorem load (h : Laid s₀ vm₀ info watch slots count s vm) (hids : s₀.FreshIds total)
    (hcount : count ≤ total) (hwait : ∀ u ∈ slots, u.block = none)
    (hwatch : watch = none → slots = []) (hreports : vm.reports = [])
    (hunwatched : ∀ p ∈ vm₀.requests.entries, ∀ name, p.2.kind ≠ .classPrepare name)
    {x : TypeId} {k : VmClass} (hk : vm.classes.get? x = some k) (hinfo : k.info = info)
    (hroom : vm.Room (n + Slot.places vm₀ info.id slots)) (t : ThreadId) :
    ∃ filled s' vm' vm₁,
      ((Session.handleReports (vm.loadClass t x).2.reports).run Vm.serve s
        { (vm.loadClass t x).2 with reports := [] }).2 = (s', vm') ∧
      Laid s₀ vm₁ info none filled count s' vm' ∧
      filled.map Slot.item = slots.map Slot.item ∧ (∀ u ∈ filled, u.block.isSome) ∧
      vm₁.requests = vm₀.requests ∧ vm₀.SameCode vm₁ ∧
      vm'.classes = (vm.withLoaded x).classes ∧ vm'.Room n := by
  rw [Vm.loadClass_eq hk, hinfo, h.watchers_eq hwait hunwatched]
  have hcode := vm.sameCode_withLoaded x
  cases watch with
  | none =>
    obtain rfl := hwatch rfl
    have hquiet : (vm.withLoaded x).reports = [] := hreports
    have hrun : (Session.handleReports (vm.withLoaded x).reports).run Vm.serve s
        { vm.withLoaded x with reports := [] } = ((), s, vm.withLoaded x) := by
      rw [hquiet]
      show ((), s, { vm.withLoaded x with reports := [] }) = _
      rw [← hquiet]
    refine ⟨[], s, vm.withLoaded x, _, congrArg Prod.snd hrun, h.rebase _ rfl hcode, rfl,
      fun u hu => absurd hu List.not_mem_nil, rfl, ?_, rfl,
      (hroom.mono (Nat.le_add_right _ _)).of_sameBooks ⟨rfl, rfl⟩⟩
    exact (h.only.sameCode.trans hcode).trans ⟨rfl, fun _ => rfl, rfl⟩
  | some w =>
    let set : EventSet := ⟨.all, [.classPrepare (some w) t info]⟩
    let vm₁ : Vm := { (vm.withLoaded x).setAllSuspended true with reports := [] }
    have hcode₁ : vm.SameCode vm₁ := hcode.trans ⟨rfl, fun _ => rfl, rfl⟩
    have hlaid₁ := h.rebase vm₁ rfl hcode₁
    let vm₂ : Vm := { vm₁ with requests := vm₀.requests, nextRequest := vm₀.nextRequest }
    have hcode₂ : vm₀.SameCode vm₂ :=
      (h.only.sameCode.trans hcode₁).trans ⟨rfl, fun _ => rfl, rfl⟩
    have hroom₁ : vm₁.Room (n + Slot.places vm₂ info.id slots) := by
      rw [hcode₂.places]
      exact hroom.of_sameBooks ⟨rfl, rfl⟩
    obtain ⟨filled, s', vm₃, hrun, hlaid₃, hitems, hfull, hroom₃, honly⟩ :=
      hlaid₁.classLoaded hids hcount hwait hroom₁
    have hcode₃ : vm₃.SameCode (vm₃.resumeSet set) := ⟨rfl, fun _ => rfl, rfl⟩
    have hreported : ((vm.withLoaded x).setAllSuspended true).reports ++ [.events set] =
        [.events set] := by
      show vm.reports ++ _ = _
      rw [hreports, List.nil_append]
    have hhandled := Session.run_handleReports (some w) t hrun
    rw [← hreported] at hhandled
    refine ⟨filled, s', vm₃.resumeSet set, _, congrArg Prod.snd hhandled,
      hlaid₃.rebase _ rfl hcode₃, hitems, hfull, rfl, ?_, ?_, hroom₃.of_sameBooks ⟨rfl, rfl⟩⟩
    · have hcode₄ := (hcode₂.trans hlaid₃.only.sameCode).trans hcode₃
      exact hcode₄.trans ⟨rfl, fun _ => rfl, rfl⟩
    · show vm₃.classes = _
      rw [honly.classes]
      rfl

end Laid

end JvmDebug
