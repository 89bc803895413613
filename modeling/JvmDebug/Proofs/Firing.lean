import JvmDebug.Proofs.HandledHits
import JvmDebug.Proofs.Superclasses

/-!
Breakpoints fire exactly when they should. Whatever was done to the breakpoints of a session, one
deed after another, a thread that gets to a place is reported if and only if an enabled breakpoint
is installed there, and a throw if and only if an enabled exception breakpoint was added for it.
-/
namespace JvmDebug

/-! ## What the target reports -/

namespace Vm

def installedAt (vm : Vm) (l : Location) (r : RequestId) : Bool :=
  (vm.requests.get? r).any fun q => q.kind == .breakpoint l

/-- The requests that are reported when a thread gets to the place. -/
def struck (vm : Vm) (l : Location) : List RequestId :=
  (vm.enabledRequests.filter fun q => q.kind == .breakpoint l).map Request.id

variable {vm : Vm} {l : Location} {r : RequestId}

theorem installedAt_iff : vm.installedAt l r ↔
    ∃ q, vm.requests.get? r = some q ∧ q.kind = .breakpoint l := by
  simp [installedAt, Option.any_eq_true]

theorem reportTo_iff {wanted : RequestKind → Bool} {event : RequestId → TargetEvent} :
    (vm.reportTo wanted event).1 = true ↔
      ∃ r q, vm.requests.get? r = some q ∧ q.enabled ∧ wanted q.kind := by
  have hevents : (vm.reportTo wanted event).1 = true ↔ vm.eventsFor wanted event ≠ [] := by
    show (vm.reportAny (vm.eventsFor wanted event)).1 = true ↔ _
    rw [reportAny]
    cases vm.eventsFor wanted event <;> simp
  rw [hevents]
  constructor
  · intro h
    obtain ⟨e, he⟩ := List.exists_mem_of_ne_nil _ h
    obtain ⟨r, q, hq, hon, hwanted, -⟩ := mem_eventsFor.1 he
    exact ⟨r, q, hq, hon, hwanted⟩
  · rintro ⟨r, q, hq, hon, hwanted⟩
    exact List.ne_nil_of_mem (mem_eventsFor.2 ⟨r, q, hq, hon, hwanted, rfl⟩)

theorem reports_hit (vm : Vm) (t : ThreadId) (l : Location) :
    (vm.hit t l).2.reports = vm.reports ++
      if vm.struck l = [] then []
      else [.events ⟨.all, (vm.struck l).map fun r => .breakpoint (some r) t l⟩] := by
  have hhit : vm.hit t l =
      vm.reportAny ((vm.struck l).map fun r => .breakpoint (some r) t l) := by
    simp only [hit, reportTo, struck, List.map_map, Function.comp_def]
  rw [hhit, reportAny]
  cases vm.struck l with
  | nil => simp
  | cons r rs => simp [reportSet, report, setAllSuspended]

end Vm

/-! ## Who has a request -/

section
variable {scope : String → String → Option TypeId} {start : Nat} {s : Session} {vm : Vm}
variable {r : RequestId} {q : Request}

theorem Balanced.owner_of_breakpoint (hb : Balanced start 0 s vm)
    (hq : vm.requests.get? r = some q) {l : Location} (hkind : q.kind = .breakpoint l) :
    ∃ id e, s.breakpoints.entries.get? id = some e ∧ r ∈ e.requests := by
  have hon : r ∈ vm.requestsOn .breakpoint :=
    List.mem_filterMap.2 ⟨(r, q), Dict.mem_entries.2 hq, by simp [hkind, RequestKind.topic?]⟩
  obtain ⟨e, he, hr⟩ := List.mem_flatMap.1 (hb.owns.breakpoints.mem_iff.1 hon)
  obtain ⟨id, he⟩ := Dict.mem_values.1 he
  exact ⟨id, e, he, hr⟩

theorem Balanced.owner_of_exception (hb : Balanced start 0 s vm)
    (hq : vm.requests.get? r = some q) {narrow : Option TypeId} {caught uncaught : Bool}
    (hkind : q.kind = .exception narrow caught uncaught) :
    ∃ id e, s.exceptions.entries.get? id = some e ∧ e.request = r := by
  have hon : r ∈ vm.requestsOn .exception :=
    List.mem_filterMap.2 ⟨(r, q), Dict.mem_entries.2 hq, by simp [hkind, RequestKind.topic?]⟩
  obtain ⟨e, he, hr⟩ := List.mem_map.1 (hb.owns.exceptions.mem_iff.1 hon)
  obtain ⟨id, he⟩ := Dict.mem_values.1 he
  exact ⟨id, e, he, hr⟩

theorem Armed.enabled_breakpoint (ha : Armed scope [] s vm) {id : String} {e : BreakpointEntry}
    (he : s.breakpoints.entries.get? id = some e) (hr : r ∈ e.requests)
    (hq : vm.requests.get? r = some q) : q.enabled = e.breakpoint.enabled := by
  have hx : s.spec? (.breakpoint id) = some (e.breakpoint.enabled, e.requests) := by
    simp only [Session.spec?, he, Option.map_some]
  exact (ha.shows _ _ _ hx r hr).resolve_left List.not_mem_nil q hq

theorem Armed.enabled_exception (ha : Armed scope [] s vm) {id : String} {e : ExceptionEntry}
    (he : s.exceptions.entries.get? id = some e) (hq : vm.requests.get? e.request = some q) :
    q.enabled = e.breakpoint.enabled := by
  have hx : s.spec? (.exception id) = some (e.breakpoint.enabled, [e.request]) := by
    simp only [Session.spec?, he, Option.map_some]
  exact (ha.shows _ _ _ hx _ (List.mem_singleton_self _)).resolve_left List.not_mem_nil q hq

theorem hit_iff (hb : Balanced start 0 s vm) (ha : Armed scope [] s vm) (t : ThreadId)
    (l : Location) : (vm.hit t l).1 = true ↔
      ∃ id e, s.breakpoints.entries.get? id = some e ∧ e.breakpoint.enabled = true ∧
        ∃ r ∈ e.requests, vm.installedAt l r := by
  rw [Vm.hit, Vm.reportTo_iff]
  constructor
  · rintro ⟨r, q, hq, hon, hkind⟩
    have hkind : q.kind = .breakpoint l := by simpa using hkind
    obtain ⟨id, e, he, hr⟩ := hb.owner_of_breakpoint hq hkind
    exact ⟨id, e, he, ha.enabled_breakpoint he hr hq ▸ hon, r, hr, Vm.installedAt_iff.2 ⟨q, hq, hkind⟩⟩
  · rintro ⟨id, e, he, hon, r, hr, hinstalled⟩
    obtain ⟨q, hq, hkind⟩ := Vm.installedAt_iff.1 hinstalled
    exact ⟨r, q, hq, (ha.enabled_breakpoint he hr hq).trans hon, by simp [hkind]⟩

theorem throw_iff (hb : Balanced start 0 s vm) (ha : Armed scope [] s vm) (t : ThreadId)
    (l : Location) (thrown : ObjectRef) (catchAt : Option Location) :
    (vm.throwException t l thrown catchAt).1 = true ↔
      ∃ id e, s.exceptions.entries.get? id = some e ∧ e.breakpoint.enabled = true ∧
        (if catchAt.isSome then e.breakpoint.caught else e.breakpoint.uncaught) = true ∧
        ∀ k, scope id e.breakpoint.className = some k →
          Relation.ReflTransGen vm.Extends thrown.typeId k := by
  have hcatches (narrow : Option TypeId) (caught uncaught : Bool) :
      Vm.RequestKind.catches (vm.hierarchy thrown.typeId) catchAt.isSome
          (.exception narrow caught uncaught) = true ↔
        (if catchAt.isSome then caught else uncaught) = true ∧
          ∀ k, narrow = some k → Relation.ReflTransGen vm.Extends thrown.typeId k := by
    simp only [Vm.RequestKind.catches, Bool.and_eq_true, ← Vm.mem_hierarchy]
    cases narrow <;> simp
  rw [Vm.throwException, Vm.reportTo_iff]
  constructor
  · rintro ⟨r, q, hq, hon, hkind⟩
    obtain ⟨narrow, caught, uncaught, hk⟩ : ∃ narrow caught uncaught,
        q.kind = .exception narrow caught uncaught := by
      cases hk : q.kind with
      | exception narrow caught uncaught => exact ⟨_, _, _, rfl⟩
      | breakpoint | step | classPrepare | threadStart | threadDeath =>
        rw [hk] at hkind
        cases hkind
    obtain ⟨id, e, he, rfl⟩ := hb.owner_of_exception hq hk
    rw [ha.catching id e he q hq, hcatches] at hkind
    exact ⟨id, e, he, ha.enabled_exception he hq ▸ hon, hkind⟩
  · rintro ⟨id, e, he, hon, hcaught⟩
    have hx : s.spec? (.exception id) = some (e.breakpoint.enabled, [e.request]) := by
      simp only [Session.spec?, he, Option.map_some]
    obtain ⟨q, hq⟩ := Option.isSome_iff_exists.1
      (hb.filed_of_booked hx (List.mem_singleton_self _))
    refine ⟨e.request, q, hq, (ha.enabled_exception he hq).trans hon, ?_⟩
    rw [ha.catching id e he q hq, hcatches]
    exact hcaught

/-! ## How many hits are due -/

/-- How many hits a breakpoint is due when a thread gets to the place. -/
def Session.hitsDue (s : Session) (vm : Vm) (l : Location) (id : String) : Nat :=
  match s.breakpoints.entries.get? id with
  | some e => if e.breakpoint.enabled then e.requests.countP (vm.installedAt l) else 0
  | none => 0

theorem Session.hitsDue_pos {l : Location} {id : String} : 0 < s.hitsDue vm l id ↔
    ∃ e, s.breakpoints.entries.get? id = some e ∧ e.breakpoint.enabled = true ∧
      ∃ r ∈ e.requests, vm.installedAt l r := by
  cases he : s.breakpoints.entries.get? id with
  | none => simp [hitsDue, he]
  | some e => cases hon : e.breakpoint.enabled <;> simp [hitsDue, he, hon, List.countP_pos_iff]

theorem Armed.mem_struck (ha : Armed scope [] s vm) {l : Location} :
    r ∈ vm.struck l ↔ ∃ q, vm.requests.get? r = some q ∧ q.enabled = true ∧
      q.kind = .breakpoint l := by
  simp only [Vm.struck, Vm.enabledRequests, List.mem_map, List.mem_filter, Dict.mem_values]
  constructor
  · rintro ⟨q, ⟨⟨⟨r, hq⟩, hon⟩, hkind⟩, rfl⟩
    have hkind : q.kind = .breakpoint l := by simpa using hkind
    have hid := ha.keyed r q hq (by simp [hkind, RequestKind.topic?])
    exact ⟨q, hid ▸ hq, hon, hkind⟩
  · rintro ⟨q, hq, hon, hkind⟩
    exact ⟨q, ⟨⟨⟨r, hq⟩, hon⟩, by simp [hkind]⟩, ha.keyed r q hq (by simp [hkind, RequestKind.topic?])⟩

theorem Armed.nodup_struck (ha : Armed scope [] s vm) (l : Location) : (vm.struck l).Nodup := by
  have hkeys : vm.struck l =
      (vm.requests.entries.filter fun p => p.2.enabled && p.2.kind == .breakpoint l).map Prod.fst := by
    rw [Vm.struck, Vm.enabledRequests, Dict.values, List.filter_filter, List.filter_map,
      List.map_map]
    refine (List.map_congr_left fun p hp => ?_).trans (congrArg _ (List.filter_congr fun p _ => ?_))
    · obtain ⟨hmem, hp⟩ := List.mem_filter.1 hp
      have hkind : p.2.kind = .breakpoint l := by
        simp only [Function.comp_apply, Bool.and_eq_true, beq_iff_eq] at hp
        exact hp.1
      exact ha.keyed p.1 p.2 (Dict.mem_entries.1 hmem) (by simp [hkind, RequestKind.topic?])
    · exact Bool.and_comm _ _
  rw [hkeys]
  exact vm.requests.nodup.sublist (List.filter_sublist.map _)

theorem Balanced.nodup_requests (hb : Balanced start 0 s vm) {id : String} {e : BreakpointEntry}
    (he : s.breakpoints.entries.get? id = some e) : e.requests.Nodup :=
  (List.nodup_flatMap.1 hb.owns.one_owner).1 e (Dict.mem_values.2 ⟨id, he⟩)

theorem Balanced.hitsDue_le (hb : Balanced start 0 s vm) (l : Location) (id : String) :
    s.hitsDue vm l id ≤ 2 ^ 32 := by
  simp only [Session.hitsDue]
  split
  · next e he =>
    have hnumbers : (e.requests.map UInt32.toNat).Nodup :=
      (hb.nodup_requests he).map fun _ _ h => UInt32.toNat_inj.1 h
    have hsubset : e.requests.map UInt32.toNat ⊆ List.range (2 ^ 32) := by
      intro n hn
      obtain ⟨r, -, rfl⟩ := List.mem_map.1 hn
      exact List.mem_range.2 r.toNat_lt
    have hlength := (List.subperm_of_subset hnumbers hsubset).length_le
    rw [List.length_map, List.length_range] at hlength
    split
    · exact List.countP_le_length.trans hlength
    · exact Nat.zero_le _
  · exact Nat.zero_le _

/-- A breakpoint is due as many hits as there are reported requests of it. -/
theorem Armed.countP_struck (hb : Balanced start 0 s vm) (ha : Armed scope [] s vm) (l : Location)
    (id : String) : ((vm.struck l).countP fun r => s.breakpoints.owners.get? r = some id) =
      s.hitsDue vm l id := by
  have howner (r : RequestId) : s.breakpoints.owners.get? r = some id ↔
      ∃ e, s.breakpoints.entries.get? id = some e ∧ r ∈ e.requests := ha.indexed r id
  cases he : s.breakpoints.entries.get? id with
  | none =>
    simp only [Session.hitsDue, he]
    refine List.countP_eq_zero.2 fun r _ hr => ?_
    obtain ⟨e, he', -⟩ := (howner r).1 (of_decide_eq_true hr)
    rw [he] at he'
    cases he'
  | some e =>
    have hmine (r : RequestId) : s.breakpoints.owners.get? r = some id ↔ r ∈ e.requests := by
      rw [howner r, he]
      simp
    simp only [Session.hitsDue, he, hmine]
    split
    · next hon =>
      rw [List.countP_eq_length_filter, List.countP_eq_length_filter]
      refine List.Perm.length_eq ((List.perm_ext_iff_of_nodup ?_ ?_).2 fun r => ?_)
      · exact (ha.nodup_struck l).filter _
      · exact (hb.nodup_requests he).filter _
      · rw [List.mem_filter, List.mem_filter, ha.mem_struck, decide_eq_true_eq, Vm.installedAt_iff]
        constructor
        · rintro ⟨⟨q, hq, -, hkind⟩, hr⟩
          exact ⟨hr, q, hq, hkind⟩
        · rintro ⟨hr, q, hq, hkind⟩
          exact ⟨⟨q, hq, (ha.enabled_breakpoint he hr hq).trans hon, hkind⟩, hr⟩
    · next hoff =>
      refine List.countP_eq_zero.2 fun r hstruck hr => hoff ?_
      obtain ⟨q, hq, hon, -⟩ := ha.mem_struck.1 hstruck
      rw [← ha.enabled_breakpoint he (of_decide_eq_true hr) hq]
      exact hon

end

namespace Scene

/-! ## When an exception breakpoint was added -/

/-- After these first deeds the exception breakpoint is not there, and after all that follow it
is. -/
structure AddedAfter (c : Scene) (deeds : List Deed) (id : String) (ds : List Deed) : Prop where
  first : ds <+: deeds
  absent : (c.performAll ds).session.exceptions.entries.get? id = none
  present : ∀ es, ds <+: es → es <+: deeds → es ≠ ds →
    (c.performAll es).session.exceptions.entries.get? id ≠ none

variable {c : Scene} {deeds ds es : List Deed} {d : Deed} {id : String}

theorem AddedAfter.unique (h : c.AddedAfter deeds id ds) (h' : c.AddedAfter deeds id es) :
    ds = es := by
  rcases List.prefix_or_prefix_of_prefix h.first h'.first with hle | hle
  · by_contra hne
    exact h.present es hle h'.first (Ne.symm hne) h'.absent
  · by_contra hne
    exact h'.present ds hle h.first hne h.absent

theorem addedAfter_last
    (habsent : (c.performAll deeds).session.exceptions.entries.get? id = none)
    (hpresent : (c.performAll (deeds ++ [d])).session.exceptions.entries.get? id ≠ none) :
    c.AddedAfter (deeds ++ [d]) id deeds := by
  refine ⟨List.prefix_append _ _, habsent, fun es hle hes hne => ?_⟩
  rcases List.prefix_concat_iff.1 hes with rfl | hes
  · exact hpresent
  · exact absurd (hes.eq_of_length_le hle.length_le) hne

theorem AddedAfter.snoc (h : c.AddedAfter deeds id ds)
    (hpresent : (c.performAll (deeds ++ [d])).session.exceptions.entries.get? id ≠ none) :
    c.AddedAfter (deeds ++ [d]) id ds := by
  refine ⟨h.first.trans (List.prefix_append _ _), h.absent, fun es hle hes hne => ?_⟩
  rcases List.prefix_concat_iff.1 hes with rfl | hes
  · exact hpresent
  · exact h.present es hle hes hne

/-- Whatever was done, the breakpoints are armed, and each on exceptions is narrowed to what its class
name stood for when it was added. -/
theorem armed_performAll (hc : c.Fresh) (h : Smooth c.session.ids.next c deeds) :
    ∃ scope, Armed scope [] (c.performAll deeds).session (c.performAll deeds).vm ∧
      ∀ id e, (c.performAll deeds).session.exceptions.entries.get? id = some e →
        ∃ ds, c.AddedAfter deeds id ds ∧ ∀ name, scope id name = (c.performAll ds).vm.scopeFor name := by
  induction deeds using List.reverseRecOn with
  | nil =>
    refine ⟨fun _ _ => none, .of_empty hc.breakpoints hc.exceptions fun r q hq => ?_, fun id e he => ?_⟩
    · rcases (hc.requests r q hq).2 with hkind | hkind <;> rw [hkind] <;> rfl
    · rw [performAll, List.foldl_nil, hc.exceptions] at he
      cases he
  | append_singleton deeds d ih =>
    obtain ⟨hdeeds, hd⟩ := smooth_append.1 h
    obtain ⟨scope, ha, hadded⟩ := ih hdeeds
    have hb := hc.balanced.performAll hdeeds
    -- what is there keeps its scope, and what is not would get the one of this moment
    let scope' (id name : String) : Option TypeId :=
      if (c.performAll deeds).session.exceptions.entries.get? id = none then
        (c.performAll deeds).vm.scopeFor name
      else scope id name
    have ha' : Armed scope' [] (c.performAll deeds).session (c.performAll deeds).vm :=
      ha.rescope fun id e he => if_neg (by simp [he])
    refine ⟨scope', ?_, fun id e he => ?_⟩
    · rw [performAll_snoc]
      exact ha'.perform hb hd fun id name hnone => if_pos hnone
    · have hpresent : (c.performAll (deeds ++ [d])).session.exceptions.entries.get? id ≠ none := by
        simp [he]
      cases hbefore : (c.performAll deeds).session.exceptions.entries.get? id with
      | none => exact ⟨deeds, addedAfter_last hbefore hpresent, fun name => if_pos hbefore⟩
      | some e₀ =>
        obtain ⟨ds, hds, hscope⟩ := hadded id e₀ hbefore
        refine ⟨ds, hds.snoc hpresent, fun name => ?_⟩
        exact (if_neg (by simp [hbefore])).trans (hscope name)

/-! ## Firing -/

/-- A thread gets to the place, and all that was reported before is handled. -/
def upToHit (c : Scene) (t : ThreadId) (l : Location) : List Deed :=
  .happening (.hit t l) :: List.replicate c.vm.reports.length .handling

variable {start : Nat} {scope scope' : String → String → Option TypeId}

theorem reports_upToHit (c : Scene) (t : ThreadId) (l : Location) :
    (c.performAll (c.upToHit t l)).vm.reports = if c.vm.struck l = [] then []
      else [.events ⟨.all, (c.vm.struck l).map fun r => .breakpoint (some r) t l⟩] := by
  have hhit : (c.perform (.happening (.hit t l))).vm.reports = (c.vm.hit t l).2.reports := rfl
  have hall := ((c.perform (.happening (.hit t l))).handle_all c.vm.reports.length).1
  rw [hhit, Vm.reports_hit, List.drop_left] at hall
  exact hall

/-- The requests that are reported belong to the same breakpoints when their hits are handled. -/
theorem owner_upToHit {c c' : Scene} (hb : Balanced start 0 c.session c.vm)
    (ha : Armed scope [] c.session c.vm) (ha' : Armed scope' [] c'.session c'.vm)
    (hretains : c.session.Retains c'.session) {l : Location} {r : RequestId}
    (hr : r ∈ c.vm.struck l) :
    c'.session.breakpoints.owners.get? r = c.session.breakpoints.owners.get? r := by
  obtain ⟨q, hq, -, hkind⟩ := ha.mem_struck.1 hr
  obtain ⟨id, e, he, hmine⟩ := hb.owner_of_breakpoint hq hkind
  obtain ⟨e', he', hsub⟩ := hretains id e he
  rw [(ha.indexed r id).2 ⟨e, he, hmine⟩, (ha'.indexed r id).2 ⟨e', he', hsub hmine⟩]

theorem hits_handling (hb : Balanced start 0 c.session c.vm) (ha : Armed scope [] c.session c.vm)
    (t : ThreadId) (l : Location) (ha' : Armed scope' [] (c.performAll (c.upToHit t l)).session
      (c.performAll (c.upToHit t l)).vm) (id : String) :
    ((c.performAll (c.upToHit t l ++ [.handling])).session.breakpoints.get? id).map
        Breakpoint.hitCount =
      ((c.performAll (c.upToHit t l)).session.breakpoints.get? id).map fun b =>
        b.hitCount + UInt64.ofNat (c.session.hitsDue c.vm l id) := by
  have hretains : c.session.Retains (c.performAll (c.upToHit t l)).session :=
    ((c.perform (.happening (.hit t l))).handle_all c.vm.reports.length).2
  have hreports := c.reports_upToHit t l
  have hdue := ha.countP_struck hb l id
  have howner (r : RequestId) (hr : r ∈ c.vm.struck l) := owner_upToHit hb ha ha' hretains hr
  rw [performAll_snoc]
  generalize c.performAll (c.upToHit t l) = before at hreports howner ⊢
  have hcounts : before.session.Counts (c.vm.struck l) (before.perform .handling).session := by
    by_cases hnone : c.vm.struck l = []
    · rw [if_pos hnone] at hreports
      rw [hnone, perform_handling_nil hreports]
      exact Session.Quiet.rfl.counts
    · rw [if_neg hnone] at hreports
      rw [perform_handling_events hreports]
      exact Session.counts_handleSet t l _ _ _ _
  have hsame : ((c.vm.struck l).countP fun r => before.session.breakpoints.owners.get? r = some id) =
      (c.vm.struck l).countP fun r => c.session.breakpoints.owners.get? r = some id :=
    List.countP_congr fun r hr => by rw [howner r hr]
  have hhits := hcounts.hits id
  rw [hsame, hdue] at hhits
  simpa only [BreakpointTable.get?, Option.map_map, Function.comp_def] using hhits

/-- What was done to the breakpoints of `c` up to `now` decides what is reported and counted. -/
structure Fires (start : Nat) (c : Scene) (deeds : List Deed) (now : Scene) : Prop where
  hit : ∀ t l, (now.vm.hit t l).1 = true ↔
    ∃ id e, now.session.breakpoints.entries.get? id = some e ∧ e.breakpoint.enabled = true ∧
      ∃ r ∈ e.requests, now.vm.installedAt l r
  due : ∀ l id, 0 < now.session.hitsDue now.vm l id ↔
    ∃ e, now.session.breakpoints.entries.get? id = some e ∧ e.breakpoint.enabled = true ∧
      ∃ r ∈ e.requests, now.vm.installedAt l r
  few : ∀ l id, now.session.hitsDue now.vm l id ≤ 2 ^ 32
  counted : ∀ t l, Smooth start now (now.upToHit t l ++ [.handling]) → ∀ id,
    ((now.performAll (now.upToHit t l ++ [.handling])).session.breakpoints.get? id).map
        Breakpoint.hitCount =
      ((now.performAll (now.upToHit t l)).session.breakpoints.get? id).map fun b =>
        b.hitCount + UInt64.ofNat (now.session.hitsDue now.vm l id)
  thrown : ∀ t l thrown catchAt, (now.vm.throwException t l thrown catchAt).1 = true ↔
    ∃ id e, now.session.exceptions.entries.get? id = some e ∧ e.breakpoint.enabled = true ∧
      (if catchAt.isSome then e.breakpoint.caught else e.breakpoint.uncaught) = true ∧
      ∃ ds, c.AddedAfter deeds id ds ∧
        ∀ k, (c.performAll ds).vm.scopeFor e.breakpoint.className = some k →
          Relation.ReflTransGen now.vm.Extends thrown.typeId k

/-- After any deeds on breakpoints, one after another, a place reports a hit if and only if an enabled
breakpoint is installed there, the hit is counted for exactly those breakpoints once it is handled,
and a throw is reported if and only if an enabled exception breakpoint was added for it. -/
theorem fires_after_deeds (hc : c.Fresh) (h : Smooth c.session.ids.next c deeds) :
    Fires c.session.ids.next c deeds (c.performAll deeds) := by
  have hb := hc.balanced.performAll h
  obtain ⟨scope, ha, hadded⟩ := armed_performAll hc h
  refine ⟨hit_iff hb ha, fun l id => Session.hitsDue_pos, hb.hitsDue_le, fun t l hsmooth id => ?_,
    fun t l thrown catchAt => ?_⟩
  · obtain ⟨hup, -⟩ := smooth_append.1 hsmooth
    obtain ⟨scope', ha', -⟩ := armed_performAll hc (smooth_append.2 ⟨h, hup⟩)
    rw [performAll_append] at ha'
    exact hits_handling hb ha t l ha' id
  · rw [throw_iff hb ha]
    constructor
    · rintro ⟨id, e, he, hon, hcaught, hscope⟩
      obtain ⟨ds, hds, hsame⟩ := hadded id e he
      exact ⟨id, e, he, hon, hcaught, ds, hds, fun k hk => hscope k ((hsame _).trans hk)⟩
    · rintro ⟨id, e, he, hon, hcaught, ds, hds, hscope⟩
      obtain ⟨ds', hds', hsame⟩ := hadded id e he
      obtain rfl := hds.unique hds'
      exact ⟨id, e, he, hon, hcaught, fun k hk => hscope k ((hsame _).symm.trans hk)⟩

theorem smooth_of_texts {n : Nat} (hdeeds : ∀ d ∈ deeds, d.isOnBreakpoints)
    (h : ∀ p ∈ c.moments deeds, p.1.unreachable? = none ∧ p.2.nextRequest ≠ 0 ∧
      p.1.ids.next ≤ start + n ∧ ((List.range' start n).map p.1.ids.text).Nodup) :
    Smooth start c deeds := by
  refine ⟨hdeeds, fun p hp => ?_⟩
  obtain ⟨hreach, hnext, hids, hnodup⟩ := h p hp
  refine ⟨hreach, hnext, fun i hi j hj hij => ?_⟩
  have hmem {k : Nat} (hk : k ∈ Set.Ico start p.1.ids.next) : k ∈ List.range' start n :=
    List.mem_range'_1.2 ⟨hk.1, hk.2.trans_le hids⟩
  exact List.inj_on_of_nodup_map hnodup (hmem hi) (hmem hj) hij

/-- A breakpoint that waited for its class is switched off and on again, and an exception breakpoint
is added for what is thrown and caught of that class. -/
def readied : List Deed :=
  [.operation (.addBreakpoint "app.Main" (.line 7) none), .happening (.load 1 2), .handling,
    .operation (.setEnabled "7f4a7c15" false), .operation (.addException "app.Main" true false),
    .operation (.setEnabled "7f4a7c15" true)]

theorem fires_readied :
    Fires sample.session.ids.next sample readied (sample.performAll readied) ∧
      ((sample.performAll readied).vm.hit 1 ⟨1, 2, 3, 0⟩).1 = true ∧
      ((sample.performAll readied).vm.throwException 1 ⟨1, 2, 3, 0⟩ ⟨9, 2, "app.Main"⟩
        (some ⟨1, 2, 3, 0⟩)).1 = true := by
  refine ⟨fires_after_deeds fresh_sample ?_, by decide +kernel, by decide +kernel⟩
  exact smooth_of_texts (n := 2) (by decide +kernel) (by decide +kernel)

end Scene

end JvmDebug
