import JvmDebug.Proofs.BreakpointEdits

/-!
Deferred and immediate breakpoints agree: whether a class is loaded after the operations on its
breakpoints or before them, a user sees the same breakpoints and the target has the same requests.
-/
namespace JvmDebug

open Op

/-- A class gets loaded, and the event loop handles what is reported of it. -/
def Scene.load (t : ThreadId) (x : TypeId) (c : Scene) : Scene :=
  let vm := (c.vm.loadClass t x).2
  let (_, session, vm) :=
    (Session.handleReports vm.reports).run Vm.serve c.session { vm with reports := [] }
  { c with session, vm }

/-! ## What is seen -/

/-- The breakpoints of a session without their ids and times. -/
def Session.listing (s : Session) : List Breakpoint :=
  s.breakpoints.toList.map fun b => { b with id := "", createdAt := 0 }

def RequestKind.location? : RequestKind → Option Location
  | .breakpoint l => some l
  | _ => none

/-- What the requests of a block ask for. -/
theorem Lays.asked {block : List (RequestId × Request)} {ls : List Location} {enabled : Bool}
    (h : Lays block ls enabled) :
    (block.filterMap fun p => p.2.kind.location?.map fun l => (l, p.2.enabled)) =
      ls.map (·, enabled) := by
  have hasked := congrArg (List.filterMap fun q => q.1.location?.map fun l => (l, q.2)) h
  rw [List.filterMap_map, List.filterMap_map] at hasked
  refine hasked.trans ?_
  rw [← List.filterMap_eq_map]
  rfl

namespace Vm

def breakpointRequests (vm : Vm) : List (Location × Bool) :=
  vm.requests.values.filterMap fun q => q.kind.location?.map fun l => (l, q.enabled)

def Unwatched (vm : Vm) : Prop := ∀ q ∈ vm.requests.values, ∀ name, q.kind ≠ .classPrepare name

end Vm

def Item.listed (vm : Vm) (info : TypeInfo) (i : Item) : Breakpoint where
  id := ""
  className := info.name
  kind := i.kind
  condition := i.condition
  enabled := i.enabled
  hitCount := 0
  createdAt := 0
  resolvedLocations := (vm.locationsOf info.id i.kind).eraseReps.length
  pending := false

def Item.asked (vm : Vm) (info : TypeInfo) (i : Item) : List (Location × Bool) :=
  (vm.locationsOf info.id i.kind).eraseReps.map fun l => (l, i.enabled)

/-- A session and its target show the breakpoints asked for, all of them installed in a class of
the machine as it was at first. -/
structure Shows (vm₁ : Vm) (info : TypeInfo) (items : List Item) (s : Session) (vm : Vm) : Prop where
  listing : s.listing = items.map (Item.listed vm₁ info)
  not_pending : ∀ b ∈ s.breakpoints.toList, b.pending = false
  requests : vm.breakpointRequests = vm₁.breakpointRequests ++ items.flatMap (Item.asked vm₁ info)
  unwatched : vm.Unwatched

namespace Laid
variable {s₀ s : Session} {vm₀ vm : Vm} {info : TypeInfo} {slots : List Slot} {count : Nat}

theorem listing_eq (h : Laid s₀ vm₀ info none slots count s vm) (hfull : ∀ u ∈ slots, u.block.isSome) :
    s.listing = (slots.map Slot.item).map (Item.listed vm₀ info) := by
  rw [Session.listing, BreakpointTable.toList, Dict.values, h.entries, List.map_map, List.map_map,
    List.map_map, List.map_map]
  refine List.map_congr_left fun t ht => ?_
  obtain ⟨block, hblock⟩ := Option.isSome_iff_exists.1 (hfull t ht)
  have hlength := congrArg List.length (h.fits t ht block hblock)
  rw [List.length_map, List.length_map] at hlength
  have hrequests : t.requests.length = (vm₀.locationsOf info.id t.item.kind).eraseReps.length := by
    rw [Slot.requests, Slot.held, hblock, List.length_map]
    exact hlength
  simp only [Function.comp_apply, Slot.entry, Slot.breakpoint, Item.breakpoint, Item.listed,
    hrequests, hblock, Option.isNone_some]

theorem not_pending (h : Laid s₀ vm₀ info none slots count s vm)
    (hfull : ∀ u ∈ slots, u.block.isSome) : ∀ b ∈ s.breakpoints.toList, b.pending = false := by
  intro b hb
  rw [BreakpointTable.toList, Dict.values, h.entries, List.map_map, List.map_map] at hb
  obtain ⟨t, ht, rfl⟩ := List.mem_map.1 hb
  obtain ⟨block, hblock⟩ := Option.isSome_iff_exists.1 (hfull t ht)
  show t.block.isNone = false
  rw [hblock]
  rfl

theorem breakpointRequests_eq (h : Laid s₀ vm₀ info none slots count s vm)
    (hfull : ∀ u ∈ slots, u.block.isSome) :
    vm.breakpointRequests =
      vm₀.breakpointRequests ++ (slots.map Slot.item).flatMap (Item.asked vm₀ info) := by
  have hslot (t : Slot) (ht : t ∈ slots) :
      (t.held.filterMap fun p => p.2.kind.location?.map fun l => (l, p.2.enabled)) =
        t.item.asked vm₀ info := by
    obtain ⟨block, hblock⟩ := Option.isSome_iff_exists.1 (hfull t ht)
    rw [Slot.held, hblock]
    exact (h.fits t ht block hblock).asked
  rw [Vm.breakpointRequests, Vm.breakpointRequests, Dict.values, Dict.values, List.filterMap_map,
    List.filterMap_map, h.requests, List.filterMap_append, List.filterMap_flatMap, List.flatMap_map,
    Option.toList_none, List.map_nil, List.append_nil]
  congr 1
  exact List.flatMap_congr hslot

theorem unwatched (h : Laid s₀ vm₀ info none slots count s vm) (hvm₀ : vm₀.Unwatched) :
    vm.Unwatched := by
  intro q hq name hkind
  rw [Dict.values, h.requests, List.map_append] at hq
  rcases List.mem_append.1 hq with hq | hq
  · refine hvm₀ q ?_ name hkind
    simpa [Dict.values] using hq
  · obtain ⟨p, hp, rfl⟩ := List.mem_map.1 hq
    obtain ⟨t, ht, hp⟩ := List.mem_flatMap.1 hp
    cases hblock : t.block with
    | none =>
      rw [Slot.held, hblock] at hp
      exact absurd hp List.not_mem_nil
    | some block =>
      rw [Slot.held, hblock] at hp
      have hmem : (p.2.kind, p.2.enabled) ∈ block.map fun p => (p.2.kind, p.2.enabled) :=
        List.mem_map_of_mem hp
      rw [h.fits t ht block hblock] at hmem
      obtain ⟨l, -, hl⟩ := List.mem_map.1 hmem
      rw [hkind] at hl
      cases hl

theorem shows (h : Laid s₀ vm₀ info none slots count s vm) (hfull : ∀ u ∈ slots, u.block.isSome)
    {vm₁ : Vm} (hrequests : vm₀.requests = vm₁.requests) (hcode : vm₁.SameCode vm₀)
    (hunwatched : vm₁.Unwatched) : Shows vm₁ info (slots.map Slot.item) s vm where
  listing := by
    have hlisted : Item.listed vm₀ info = Item.listed vm₁ info := by
      funext i
      simp only [Item.listed, hcode.locationsOf]
    rw [h.listing_eq hfull, hlisted]
  not_pending := h.not_pending hfull
  requests := by
    have hasked : Item.asked vm₀ info = Item.asked vm₁ info := by
      funext i
      simp only [Item.asked, hcode.locationsOf]
    have hbase : vm₀.breakpointRequests = vm₁.breakpointRequests := by
      rw [Vm.breakpointRequests, Vm.breakpointRequests, hrequests]
    rw [h.breakpointRequests_eq hfull, hasked, hbase]
  unwatched := by
    refine h.unwatched ?_
    rw [Vm.Unwatched, hrequests]
    exact hunwatched

end Laid

/-! ## Before and after the load -/

section
variable {s₀ : Session} {vm₀ : Vm} {info : TypeInfo} {total : Nat}

theorem stage_waiting (hids : s₀.FreshIds total) (hvisible : vm₀.visible info.name = []) :
    Stage s₀ vm₀ info total
      (fun watch slots => (watch = none → slots = []) ∧ ∀ u ∈ slots, u.block = none)
      (Slot.places vm₀ info.id) where
  switch n enabled hP := by
    refine ⟨fun hnone => by rw [hP.1 hnone, List.map_nil], fun u hu => ?_⟩
    obtain ⟨v, hv, rfl⟩ := List.mem_map.1 hu
    rw [Slot.switchAt]
    split
    · simp only [Slot.switch, hP.2 v hv, Option.map_none]
    · exact hP.2 v hv
  remove n hP := by
    refine ⟨fun hnone => ?_, fun u hu => hP.2 u (List.mem_filter.1 hu).1⟩
    split at hnone
    · next hempty => exact List.isEmpty_iff.1 hempty
    · rw [hP.1 hnone, List.filter_nil]
  keep_switch slots n enabled := Slot.places_switch n enabled slots
  keep_remove slots n := Slot.places_filter n slots
  add := by
    intro watch slots count room s vm kind condition h hP hcount _ hroom
    have hvisible' : vm.visible info.name = [] := by
      rw [Vm.visible, h.only.classes]
      exact hvisible
    have hsplit : room + Edit.cost vm₀ info.id (.add kind condition) +
        Slot.places vm₀ info.id slots = room + Slot.places vm₀ info.id
          (slots ++ [⟨Item.made count kind condition, none⟩]) + 1 := by
      have hkind : (Item.made count kind condition).kind = kind := rfl
      rw [Slot.places_snoc, Edit.cost, hkind]
      omega
    rw [hsplit] at hroom
    obtain ⟨w, b, s', vm', hrun, hid, hlaid, hroom', -⟩ :=
      h.add_waiting hids hcount hroom hP.1 hvisible' kind condition
    refine ⟨some w, _, b, s', vm', hrun, hid, rfl, hlaid, ⟨fun hnone => absurd hnone (Option.some_ne_none w), ?_⟩,
      hroom'⟩
    intro u hu
    rcases List.mem_append.1 hu with hu | hu
    · exact hP.2 u hu
    · rw [List.mem_singleton.1 hu]

theorem stage_installed (hids : s₀.FreshIds total) (hvisible : vm₀.visible info.name = [info]) :
    Stage s₀ vm₀ info total (fun watch slots => watch = none ∧ ∀ u ∈ slots, u.block.isSome)
      (fun _ => 0) where
  switch n enabled hP := by
    refine ⟨hP.1, fun u hu => ?_⟩
    obtain ⟨v, hv, rfl⟩ := List.mem_map.1 hu
    have hsome := hP.2 v hv
    rw [Slot.switchAt]
    split
    · simpa only [Slot.switch, Option.isSome_map] using hsome
    · exact hsome
  remove n hP := by
    refine ⟨?_, fun u hu => hP.2 u (List.mem_filter.1 hu).1⟩
    rw [hP.1, ite_self]
  keep_switch _ _ _ := rfl
  keep_remove _ _ := le_rfl
  add := by
    intro watch slots count room s vm kind condition h hP hcount hlocations hroom
    obtain ⟨rfl, hfull⟩ := hP
    have hvisible' : vm.visible info.name = [info] := by
      rw [Vm.visible, h.only.classes]
      exact hvisible
    have hroom' : vm.Room (room + (vm₀.locationsOf info.id kind).eraseReps.length) :=
      hroom.mono (by rw [Edit.cost]; omega)
    obtain ⟨block, b, s', vm', hrun, hid, hlaid, hroom'', -⟩ :=
      h.add_installed hids hcount hroom' hvisible' hlocations condition
    refine ⟨none, _, b, s', vm', hrun, hid, rfl, hlaid, ⟨rfl, ?_⟩, hroom''⟩
    intro u hu
    rcases List.mem_append.1 hu with hu | hu
    · exact hfull u hu
    · rw [List.mem_singleton.1 hu]
      rfl

end

/-! ## Agreement -/

/-- The machine knows a class that is not loaded, and no other one of its name. -/
structure Vm.Unloaded (vm : Vm) (x : TypeId) (k : VmClass) : Prop where
  known : vm.classes.get? x = some k
  new : k.loaded = false
  unique : ∀ y k', vm.classes.get? y = some k' → k'.info.name = k.info.name → y = x

namespace Vm.Unloaded
variable {vm : Vm} {x : TypeId} {k : VmClass}

theorem visible (h : vm.Unloaded x k) : vm.visible k.info.name = [] := by
  rw [Vm.visible, List.map_eq_nil_iff, List.filter_eq_nil_iff]
  intro k' hk' hboth
  rw [Bool.and_eq_true, beq_iff_eq] at hboth
  obtain ⟨y, hy⟩ := Dict.mem_values.1 hk'
  obtain rfl := h.unique y k' hy hboth.2
  rw [h.known] at hy
  obtain rfl := Option.some.inj hy
  rw [h.new] at hboth
  exact Bool.noConfusion hboth.1

theorem visible_withLoaded (h : vm.Unloaded x k) :
    (vm.withLoaded x).visible k.info.name = [k.info] := by
  have hknown : (vm.withLoaded x).classes.get? x = some { k with loaded := true } := by
    rw [Vm.withLoaded, Vm.modifyClass, Dict.get?_modify, if_pos rfl, h.known]
    rfl
  rw [Vm.visible, Dict.filter_values_eq_singleton hknown _ (by simp)]
  · rfl
  · intro y k' hk' hboth
    rw [Bool.and_eq_true, beq_iff_eq] at hboth
    by_contra hne
    rw [Vm.withLoaded, Vm.modifyClass, Dict.get?_modify, if_neg hne] at hk'
    exact hne (h.unique y k' hk' hboth.2)

end Vm.Unloaded

/-- Nothing was asked of breakpoints, and nothing is left to be handled. -/
structure Scene.Blank (c : Scene) : Prop where
  breakpoints : c.session.breakpoints = {}
  exceptions : c.session.exceptions = {}
  reachable : c.session.unreachable? = none
  reports : c.vm.reports = []
  unwatched : c.vm.Unwatched

namespace Scene
variable {c d : Scene} {x : TypeId} {k : VmClass}

theorem Blank.laid (hc : c.Blank) (info : TypeInfo) :
    Laid c.session c.vm info none [] 0 c.session c.vm where
  entries := by
    rw [hc.breakpoints]
    rfl
  pending := by
    rw [hc.breakpoints]
    rfl
  exceptions := hc.exceptions
  reachable := hc.reachable
  clock := rfl
  ids := rfl
  numbers := List.nodup_nil
  below t ht := absurd ht List.not_mem_nil
  requests := by simp
  fits t ht := absurd ht List.not_mem_nil
  needed _ := rfl
  only := .rfl

theorem Blank.unwatched_entries (hc : c.Blank) :
    ∀ p ∈ c.vm.requests.entries, ∀ name, p.2.kind ≠ .classPrepare name :=
  fun p hp => hc.unwatched p.2 (List.mem_map_of_mem hp)

theorem Blank.shows_deferred (hc : c.Blank) (hclass : c.vm.Unloaded x k) (t : ThreadId)
    {edits : List Edit}
    (hlocations : ∀ kind condition, .add kind condition ∈ edits →
      c.vm.locationsOf k.info.id kind ≠ [])
    (hids : c.session.FreshIds (Edit.madeAll edits))
    (hroom : c.vm.Room (Edit.costAll c.vm k.info.id edits)) :
    let deferred := (c.edit k.info.name edits).load t x
    Shows c.vm k.info (edits.foldl Plan.edit {}).items deferred.session deferred.vm := by
  obtain ⟨watch, slots, count, s, vm, hrun, hlaid, hP, hcount, hroom', hplan⟩ :=
    (stage_waiting hids hclass.visible).run hids edits (hc.laid k.info)
      ⟨fun _ => rfl, fun u hu => absurd hu List.not_mem_nil⟩ (by omega) hlocations hroom
  have hedit : c.edit k.info.name edits = { c with session := s, vm } := by
    have hrun : (Edit.performAll k.info.name [] edits).run Vm.serve c.session c.vm =
        (c.session.idsMade count, s, vm) := hrun
    rw [edit, hrun]
  have hknown : vm.classes.get? x = some k := by
    rw [hlaid.only.classes]
    exact hclass.known
  have hreports : vm.reports = [] := hlaid.only.reports.trans hc.reports
  rw [← Nat.zero_add (Slot.places _ _ slots)] at hroom'
  obtain ⟨filled, s', vm', vm₀, hhandled, hlaid', hitems, hfull, hrequests, hcode, -, -⟩ :=
    hlaid.load hids hcount hP.2 hP.1 hreports hc.unwatched_entries hknown rfl hroom' t
  have hload : (c.edit k.info.name edits).load t x = { c with session := s', vm := vm' } := by
    rw [hedit, load]
    simp only [hhandled]
  have hshows := hlaid'.shows hfull hrequests hcode hc.unwatched
  rw [hitems, show slots.map Slot.item = _ from congrArg Plan.items hplan] at hshows
  rw [hload]
  exact hshows

theorem Blank.shows_immediate (hc : c.Blank) (hclass : c.vm.Unloaded x k) (t : ThreadId)
    {edits : List Edit}
    (hlocations : ∀ kind condition, .add kind condition ∈ edits →
      c.vm.locationsOf k.info.id kind ≠ [])
    (hids : c.session.FreshIds (Edit.madeAll edits))
    (hroom : c.vm.Room (Edit.costAll c.vm k.info.id edits)) :
    let immediate := (c.load t x).edit k.info.name edits
    Shows c.vm k.info (edits.foldl Plan.edit {}).items immediate.session immediate.vm := by
  have hroom₀ : c.vm.Room (Edit.costAll c.vm k.info.id edits +
      Slot.places c.vm k.info.id []) := hroom
  obtain ⟨filled, s, vm, vm₀, hhandled, hlaid, hitems, -, hrequests, hcode, hclasses, hroom'⟩ :=
    (hc.laid k.info).load hids (Nat.zero_le _) (fun u hu => absurd hu List.not_mem_nil)
      (fun _ => rfl) hc.reports hc.unwatched_entries hclass.known rfl hroom₀ t
  obtain rfl := List.map_eq_nil_iff.1 hitems
  have hload : c.load t x = { c with session := s, vm } := by
    rw [load]
    simp only [hhandled]
  have hvisible : vm₀.visible k.info.name = [k.info] := by
    rw [Vm.visible, ← hlaid.only.classes, hclasses]
    exact hclass.visible_withLoaded
  rw [← hcode.costAll] at hroom'
  obtain ⟨watch, slots, count, s', vm', hrun, hlaid', ⟨rfl, hfull⟩, -, -, hplan⟩ :=
    (stage_installed hids hvisible).run hids edits hlaid
      ⟨rfl, fun u hu => absurd hu List.not_mem_nil⟩ (by omega)
      (fun kind condition he => by
        rw [hcode.locationsOf]
        exact hlocations kind condition he) hroom'
  have hedit : (c.load t x).edit k.info.name edits = { c with session := s', vm := vm' } := by
    have hrun : (Edit.performAll k.info.name [] edits).run Vm.serve s vm =
        (c.session.idsMade count, s', vm') := hrun
    rw [hload, edit]
    simp only [hrun]
  have hshows := hlaid'.shows hfull hrequests hcode hc.unwatched
  rw [show slots.map Slot.item = _ from congrArg Plan.items hplan] at hshows
  rw [hedit]
  exact hshows

/-- Breakpoints made before their class is loaded end up as those made afterwards. Two sessions on
equal machines may give out other ids at other times. -/
theorem deferred_agrees_immediate (hc : c.Blank) (hd : d.Blank) (hvm : d.vm = c.vm)
    (hclass : c.vm.Unloaded x k) (t : ThreadId) {edits : List Edit}
    (hlocations : ∀ kind condition, .add kind condition ∈ edits →
      c.vm.locationsOf k.info.id kind ≠ [])
    (hids : c.session.FreshIds (Edit.madeAll edits))
    (hids' : d.session.FreshIds (Edit.madeAll edits))
    (hroom : c.vm.Room (Edit.costAll c.vm k.info.id edits)) :
    let deferred := (c.edit k.info.name edits).load t x
    let immediate := (d.load t x).edit k.info.name edits
    deferred.session.listing = immediate.session.listing ∧
      (∀ b ∈ deferred.session.breakpoints.toList, b.pending = false) ∧
      (∀ b ∈ immediate.session.breakpoints.toList, b.pending = false) ∧
      deferred.vm.breakpointRequests = immediate.vm.breakpointRequests ∧
      deferred.vm.Unwatched ∧ immediate.vm.Unwatched := by
  have hdeferred := hc.shows_deferred hclass t hlocations hids hroom
  rw [← hvm] at hclass hlocations hroom
  have himmediate := hd.shows_immediate hclass t hlocations hids' hroom
  rw [hvm] at himmediate
  refine ⟨hdeferred.listing.trans himmediate.listing.symm, hdeferred.not_pending,
    himmediate.not_pending, hdeferred.requests.trans himmediate.requests.symm,
    hdeferred.unwatched, himmediate.unwatched⟩

/-- Two breakpoints on the line, the first one switched off and on again, one on the method that is
removed twice, and one that was never made. -/
def toggledEdits : List Edit :=
  [.add (.line 7) (some "i > 3"), .setEnabled 0 false, .add (.method "run") none, .remove 1,
    .add (.line 7) (some ""), .setEnabled 0 true, .setEnabled 2 false, .remove 1, .remove 9]

def sampleClass : VmClass where
  info := ⟨2, "app.Main", .classType⟩
  superclass := none
  loaded := false
  methods := [⟨3, 2, "run", "()V", 1⟩]
  lines := [(7, ⟨1, 2, 3, 0⟩)]
  nextIndex := 4

def otherSample : Scene :=
  { sample with session := { sample.session with ids := { next := 40 }, clock := 5 } }

theorem agree_toggledEdits :
    let deferred := (sample.edit "app.Main" toggledEdits).load 1 2
    let immediate := (otherSample.load 1 2).edit "app.Main" toggledEdits
    (deferred.session.listing = immediate.session.listing ∧
      (∀ b ∈ deferred.session.breakpoints.toList, b.pending = false) ∧
      (∀ b ∈ immediate.session.breakpoints.toList, b.pending = false) ∧
      deferred.vm.breakpointRequests = immediate.vm.breakpointRequests ∧
      deferred.vm.Unwatched ∧ immediate.vm.Unwatched) ∧
      deferred.vm.breakpointRequests = [(⟨1, 2, 3, 0⟩, true), (⟨1, 2, 3, 0⟩, false)] := by
  have hunwatched : sample.vm.Unwatched := by
    have hkinds : sample.vm.requests.values.map Request.kind = [.threadStart, .threadDeath] := by
      decide +kernel
    intro q hq name hkind
    have hmem := List.mem_map_of_mem (f := Request.kind) hq
    rw [hkinds, hkind] at hmem
    simp at hmem
  have hblank : sample.Blank := ⟨rfl, rfl, rfl, rfl, hunwatched⟩
  have hblank' : otherSample.Blank := ⟨rfl, rfl, rfl, rfl, hunwatched⟩
  have hclass : sample.vm.Unloaded 2 sampleClass := by
    refine ⟨by decide +kernel, rfl, fun y k hk _ => ?_⟩
    have hkeys : sample.vm.classes.keys = [2] := by decide +kernel
    have hmem : y ∈ sample.vm.classes.keys := List.mem_map_of_mem (Dict.mem_entries.2 hk)
    rwa [hkeys, List.mem_singleton] at hmem
  refine ⟨deferred_agrees_immediate hblank hblank' rfl hclass 1 ?_
    (Session.freshIds_of_nthId (by decide +kernel)) (Session.freshIds_of_nthId (by decide +kernel))
    ?_, by decide +kernel⟩
  · intro kind condition hmem
    simp only [toggledEdits, List.mem_cons, Edit.add.injEq, reduceCtorEq, List.not_mem_nil,
      false_or, or_false] at hmem
    rcases hmem with ⟨rfl, -⟩ | ⟨rfl, -⟩ | ⟨rfl, -⟩
    all_goals decide +kernel
  · exact ⟨by decide +kernel, by decide +kernel⟩

end Scene

end JvmDebug
