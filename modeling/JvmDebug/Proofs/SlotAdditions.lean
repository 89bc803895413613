import JvmDebug.Proofs.SlotBooks

/-!
Making a breakpoint adds a slot: one that waits while the class is not loaded, one with requests
afterwards.
-/
namespace JvmDebug

open Op

def Item.made (number : Nat) (kind : BreakpointKind) (condition : Option String) : Item :=
  ⟨number, kind, condition.filter fun c => !c.isEmpty, true⟩

namespace Laid
variable {s₀ s : Session} {vm₀ vm : Vm} {info : TypeInfo} {watch : Option RequestId}
  {slots : List Slot} {count total : Nat}

def drawn (s₀ : Session) (count : Nat) (s : Session) : Session :=
  { s with ids := ⟨s₀.ids.next + (count + 1), s₀.ids.text⟩ }

theorem freshId (h : Laid s₀ vm₀ info watch slots count s vm) (hids : s₀.FreshIds total)
    (hcount : count < total) : s.freshId = (s₀.nthId count, drawn s₀ count s) := by
  have hnone := h.get?_of_notMem hids hcount.le hcount fun t ht => (h.below t ht).ne
  have hunused : s.usedId (s₀.nthId count) = false := by
    simp only [Session.usedId, Dict.contains, hnone, h.exceptions]
    rfl
  have hfresh (tries : Nat) : s.ids.fresh s.usedId tries =
      (s₀.nthId count, ⟨s₀.ids.next + (count + 1), s₀.ids.text⟩) := by
    rw [h.ids]
    cases tries with
    | zero => rfl
    | succ tries =>
      have hfirst : ¬ s.usedId (s₀.ids.text (s₀.ids.next + count)) = true := by
        simpa [Session.nthId] using hunused
      rw [IdSupply.fresh, if_neg hfirst]
      rfl
  rw [Session.freshId, hfresh]
  rfl

theorem append (h : Laid s₀ vm₀ info watch slots count s vm)
    {t : Slot} (ht : t.item.number = count) (hfits : t.Fits vm₀ info.id)
    {watch' : Option RequestId} {table : BreakpointTable} {vm' : Vm}
    (hentries : table.entries.entries =
      s.breakpoints.entries.entries ++ [t.entry s₀ info.name])
    (hpending : table.pending.entries = watch'.toList.map fun w =>
      (info.name, ⟨w, (slots ++ [t]).map fun t => s₀.nthId t.item.number⟩))
    (hrequests : vm'.requests.entries = (vm₀.requests.entries ++
      watch'.toList.map (watchEntry info.name)) ++ (slots ++ [t]).flatMap Slot.held)
    (honly : vm.OnlyRequests vm') :
    Laid s₀ vm₀ info watch' (slots ++ [t]) (count + 1)
      { drawn s₀ count s with breakpoints := table } vm' where
  entries := by
    rw [List.map_append, List.map_singleton, ← h.entries]
    exact hentries
  pending := hpending
  exceptions := h.exceptions
  reachable := h.reachable
  clock := h.clock
  ids := rfl
  numbers := by
    rw [List.map_append, List.map_singleton, List.nodup_append']
    refine ⟨h.numbers, List.nodup_singleton _, List.disjoint_singleton.2 fun hmem => ?_⟩
    obtain ⟨u, hu, heq⟩ := List.mem_map.1 hmem
    exact (h.below u hu).ne (heq.trans ht)
  below := by
    intro u hu
    rcases List.mem_append.1 hu with hu | hu
    · exact (h.below u hu).trans (Nat.lt_succ_self _)
    · rw [List.mem_singleton.1 hu, ht]
      exact Nat.lt_succ_self _
  requests := hrequests
  fits := by
    intro u hu
    rcases List.mem_append.1 hu with hu | hu
    · exact h.fits u hu
    · rw [List.mem_singleton.1 hu]
      exact hfits
  needed hnil := absurd hnil (by simp)
  only := h.only.trans honly

/-- The breakpoint that was added last is found under its id. -/
theorem get?_of_append {table : BreakpointTable} {old : List (String × BreakpointEntry)} {t : Slot}
    (hentries : table.entries.entries = old ++ [t.entry s₀ info.name]) :
    table.get? (s₀.nthId t.item.number) = some (t.breakpoint s₀ info.name) := by
  have hmem : t.entry s₀ info.name ∈ table.entries.entries := by
    rw [hentries]
    exact List.mem_append_right _ (List.mem_singleton_self _)
  exact congrArg (Option.map BreakpointEntry.breakpoint) (Dict.mem_entries.1 hmem)

/-! ## Waiting -/

section Waiting
variable {i : Item}

theorem entries_insertPending (h : Laid s₀ vm₀ info watch slots i.number s vm)
    (hids : s₀.FreshIds total) (hcount : i.number < total) (w : RequestId) :
    (s.breakpoints.insertPending (i.breakpoint s₀ info.name) w).entries.entries =
      s.breakpoints.entries.entries ++ [(⟨i, none⟩ : Slot).entry s₀ info.name] :=
  Dict.insert_entries_of_none
    (h.get?_of_notMem hids hcount.le hcount fun t ht => (h.below t ht).ne) _

theorem fits_waiting (i : Item) : (⟨i, none⟩ : Slot).Fits vm₀ info.id :=
  fun _ hblock => nomatch hblock

/-- The class is watched for already: the breakpoint joins those that wait for it. -/
theorem exec_addPending_watched {w : RequestId}
    (h : Laid s₀ vm₀ info (some w) slots i.number s vm) (hids : s₀.FreshIds total)
    (hcount : i.number < total) :
    ∃ b s', exec (Session.addPending (i.breakpoint s₀ info.name)) (drawn s₀ i.number s) vm =
        (.ok b, s', vm) ∧ b.id = s₀.nthId i.number ∧
      Laid s₀ vm₀ info (some w) (slots ++ [⟨i, none⟩]) (i.number + 1) s' vm := by
  let b := i.breakpoint s₀ info.name
  let t : Slot := ⟨i, none⟩
  have hentries := h.entries_insertPending hids hcount w
  have hentry : s.breakpoints.pending.get? b.className =
      some ⟨w, slots.map fun t => s₀.nthId t.item.number⟩ := h.pending_get?
  have hwatched : (drawn s₀ i.number s).breakpoints.watch? b.className = some w :=
    congrArg (Option.map PendingClass.watch) hentry
  have hjoined : (s.breakpoints.insertPending b w).pending.entries =
      [(info.name, ⟨w, (slots ++ [t]).map fun t => s₀.nthId t.item.number⟩)] := by
    simp only [BreakpointTable.insertPending, hentry]
    show List.map _ s.breakpoints.pending.entries = _
    rw [h.pending, List.map_append]
    exact congrArg (fun p => [p]) (if_pos rfl)
  refine ⟨t.breakpoint s₀ info.name, _, ?_, rfl,
    h.append rfl (fits_waiting i) hentries hjoined ?_ .rfl⟩
  · change exec (Session.addPending b) _ _ = _
    simp only [Session.addPending, exec_bind, exec_state, hwatched, exec_update]
    refine Session.exec_getBreakpoint ?_ vm
    exact get?_of_append hentries
  · rw [h.requests, List.flatMap_append]
    simp [Slot.held]

/-- Nothing waits for the class yet: the target is asked to watch for it. -/
theorem exec_addPending_first (h : Laid s₀ vm₀ info none [] i.number s vm)
    (hids : s₀.FreshIds total) (hcount : i.number < total) {n : Nat} (hroom : vm.Room (n + 1)) :
    ∃ w b s' vm', exec (Session.addPending (i.breakpoint s₀ info.name)) (drawn s₀ i.number s) vm =
        (.ok b, s', vm') ∧ b.id = s₀.nthId i.number ∧
      Laid s₀ vm₀ info (some w) [⟨i, none⟩] (i.number + 1) s' vm' ∧
      vm'.Room n ∧ vm.OnlyRequests vm' := by
  let b := i.breakpoint s₀ info.name
  let t : Slot := ⟨i, none⟩
  have hentries := h.entries_insertPending hids hcount vm.nextRequest
  have hentry : s.breakpoints.pending.get? b.className = none := h.pending_get?
  have hwatched : (drawn s₀ i.number s).breakpoints.watch? b.className = none :=
    congrArg (Option.map PendingClass.watch) hentry
  obtain ⟨hadded, hroom'⟩ := hroom.addRequest (.classPrepare b.className)
  have hjoined : (s.breakpoints.insertPending b vm.nextRequest).pending.entries =
      [(info.name, ⟨vm.nextRequest, [s₀.nthId i.number]⟩)] := by
    simp only [BreakpointTable.insertPending, hentry]
    show (s.breakpoints.pending.insert _ _).entries = _
    rw [Dict.insert_entries_of_none hentry, h.pending]
    rfl
  have hfirst : ((drawn s₀ i.number s).breakpoints.insertPending b vm.nextRequest).watch?
      b.className = some vm.nextRequest := by
    have hmem := List.mem_singleton_self (info.name,
      PendingClass.mk vm.nextRequest [s₀.nthId i.number])
    rw [← hjoined] at hmem
    exact congrArg (Option.map PendingClass.watch) (Dict.mem_entries.1 hmem)
  have hcall : exec (Op.call (.createClassPrepareWatch b.className) :
        Op DebugError Session RequestId) (drawn s₀ i.number s) vm =
      (.ok vm.nextRequest, drawn s₀ i.number s, (vm.addRequest (.classPrepare b.className)).2) :=
    rfl
  refine ⟨vm.nextRequest, t.breakpoint s₀ info.name, _,
    (vm.addRequest (.classPrepare b.className)).2, ?_, rfl,
    h.append rfl (fits_waiting i) hentries hjoined ?_ rfl, hroom', rfl⟩
  · change exec (Session.addPending b) _ _ = _
    simp only [Session.addPending, exec_bind, exec_state, hwatched, hcall, exec_update, hfirst,
      bne_self_eq_false, Bool.false_eq_true, if_false]
    refine Session.exec_getBreakpoint ?_ _
    exact get?_of_append hentries
  · rw [hadded, h.requests]
    simp [watchEntry, Slot.held, b, Item.breakpoint]

theorem exec_addPending (h : Laid s₀ vm₀ info watch slots count s vm) (hids : s₀.FreshIds total)
    (hcount : count < total) {n : Nat} (hroom : vm.Room (n + 1)) (hwatch : watch = none → slots = [])
    (hi : i.number = count) :
    ∃ w b s' vm', exec (Session.addPending (i.breakpoint s₀ info.name)) (drawn s₀ count s) vm =
        (.ok b, s', vm') ∧ b.id = s₀.nthId count ∧
      Laid s₀ vm₀ info (some w) (slots ++ [⟨i, none⟩]) (count + 1) s' vm' ∧
      vm'.Room n ∧ vm.OnlyRequests vm' := by
  subst hi
  cases watch with
  | some w =>
    obtain ⟨b, s', hexec, hid, hlaid⟩ := h.exec_addPending_watched hids hcount
    exact ⟨w, b, s', vm, hexec, hid, hlaid, hroom.mono (Nat.le_succ n), .rfl⟩
  | none =>
    obtain rfl := hwatch rfl
    exact h.exec_addPending_first hids hcount hroom

end Waiting

theorem exec_addBreakpoint (h : Laid s₀ vm₀ info watch slots count s vm)
    (hids : s₀.FreshIds total) (hcount : count < total) (kind : BreakpointKind)
    (condition : Option String) :
    exec (Session.addBreakpoint info.name kind condition) s vm =
      exec (do
        let b := (Item.made count kind condition).breakpoint s₀ info.name
        if (vm.visible info.name).isEmpty then Session.addPending b
        else do
          let locations ← resolveLocations (vm.visible info.name) kind
          if locations.isEmpty then throw (.invalidBreakpointLocation b.place)
          let requests ← install [] locations
          Op.update fun s => { s with breakpoints := s.breakpoints.insertInstalled b requests }
          Session.getBreakpoint b.id) (drawn s₀ count s) vm := by
  have hcall : exec (Op.call (.classesByName info.name) : Op DebugError Session (List TypeInfo))
      (drawn s₀ count s) vm = (.ok (vm.visible info.name), drawn s₀ count s, vm) := rfl
  have hclock : (drawn s₀ count s).clock = s₀.clock := h.clock
  simp only [Session.addBreakpoint, exec_bind, Session.exec_reach h.reachable, exec_updateGet,
    h.freshId hids hcount, exec_state, hcall, hclock]
  rfl

theorem add_waiting (h : Laid s₀ vm₀ info watch slots count s vm) (hids : s₀.FreshIds total)
    (hcount : count < total) {n : Nat} (hroom : vm.Room (n + 1)) (hwatch : watch = none → slots = [])
    (hvisible : vm.visible info.name = []) (kind : BreakpointKind) (condition : Option String) :
    ∃ w b s' vm', exec (Session.addBreakpoint info.name kind condition) s vm = (.ok b, s', vm') ∧
      b.id = s₀.nthId count ∧
      Laid s₀ vm₀ info (some w) (slots ++ [⟨Item.made count kind condition, none⟩]) (count + 1)
        s' vm' ∧
      vm'.Room n ∧ vm.OnlyRequests vm' := by
  rw [h.exec_addBreakpoint hids hcount, hvisible]
  exact h.exec_addPending hids hcount hroom hwatch rfl

theorem add_installed (h : Laid s₀ vm₀ info none slots count s vm) (hids : s₀.FreshIds total)
    (hcount : count < total) {kind : BreakpointKind} {n : Nat}
    (hroom : vm.Room (n + (vm₀.locationsOf info.id kind).eraseReps.length))
    (hvisible : vm.visible info.name = [info]) (hlocations : vm₀.locationsOf info.id kind ≠ [])
    (condition : Option String) :
    ∃ block b s' vm', exec (Session.addBreakpoint info.name kind condition) s vm =
        (.ok b, s', vm') ∧ b.id = s₀.nthId count ∧
      Laid s₀ vm₀ info none (slots ++ [⟨Item.made count kind condition, some block⟩]) (count + 1)
        s' vm' ∧
      vm'.Room n ∧ vm.OnlyRequests vm' := by
  let i := Item.made count kind condition
  obtain ⟨block, vm', hinstall, hadded, hlays, honly, hroom'⟩ :=
    Session.exec_install (drawn s₀ count s) [] _ hroom
  let t : Slot := ⟨i, some block⟩
  have hnone := h.get?_of_notMem hids hcount.le hcount fun t ht => (h.below t ht).ne
  have hresolve : exec (resolveLocations [info] kind : Op DebugError Session (List Location))
      (drawn s₀ count s) vm =
        (.ok (vm₀.locationsOf info.id kind).eraseReps, drawn s₀ count s, vm) := by
    rw [exec_resolveLocations, h.only.sameCode.locationsOf]
  have hsome : (vm₀.locationsOf info.id kind).eraseReps.isEmpty = false := by
    simpa using eraseReps_ne_nil hlocations
  have hentries : (s.breakpoints.insertInstalled (i.breakpoint s₀ info.name) t.requests).entries.entries =
      s.breakpoints.entries.entries ++ [t.entry s₀ info.name] :=
    Dict.insert_entries_of_none hnone _
  refine ⟨block, t.breakpoint s₀ info.name, _, vm', ?_, rfl,
    h.append (t := t) rfl ?_ hentries h.pending ?_ honly, hroom', honly⟩
  · rw [h.exec_addBreakpoint hids hcount, hvisible]
    simp only [List.isEmpty_cons, Bool.false_eq_true, if_false, exec_bind, hresolve, hsome,
      hinstall, List.nil_append, exec_update]
    refine Session.exec_getBreakpoint ?_ vm'
    exact get?_of_append hentries
  · intro made hmade
    cases hmade
    exact hlays
  · rw [hadded, h.requests, List.flatMap_append, List.append_assoc]
    simp [t, Slot.held]

end Laid

end JvmDebug
