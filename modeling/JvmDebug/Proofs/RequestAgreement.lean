import JvmDebug.Proofs.Histories
import JvmDebug.Proofs.RequestCrew
import Mathlib.Data.Multiset.Bind
import Mathlib.Tactic.Abel

/-!
Whether the event requests of the machine are those of the target's table. The two are in balance at
every step, with what the calls in flight have still to write down or to clear, provided that nothing
comes between the halves of a call that enables or disables a request.
-/
namespace JvmDebug.Wire

/-! ## What a stage owes -/

namespace Stage

/-- Installed in the machine by this call, or left in it, and not in the table. -/
def held : Stage → Multiset Int32
  | created _ _ _ wireId | enabled _ wireId | deleting _ wireId => {wireId}
  | creating .. | enabling .. | disabling .. | disabled .. | ended _ => 0

/-- In the table still, and cleared in the machine. -/
def gone : Stage → Multiset Int32
  | disabled _ wireId => {wireId}
  | creating .. | created .. | enabling .. | enabled .. | disabling .. | deleting .. | ended _ => 0

/-- The request whose entry the call will change. -/
def about : Stage → Multiset RequestId
  | enabling id _ | enabled id _ | disabling id .. | disabled id _ => {id}
  | creating .. | created .. | deleting .. | ended _ => 0

def creations : Stage → Nat
  | creating .. | created .. => 1
  | enabling .. | enabled .. | disabling .. | disabled .. | deleting .. | ended _ => 0

/-- The entry is as the call read it. -/
def Stands (t : RequestTable) : Stage → Prop
  | enabling id _ | enabled id _ => ∃ e, t.entries.get? id = some e ∧ e.wireId = none
  | disabling id _ wireId | disabled id wireId =>
    ∃ e, t.entries.get? id = some e ∧ e.wireId = some wireId
  | creating .. | created .. | deleting .. | ended _ => True

theorem Stands.congr {t t' : RequestTable} {stage : Stage} (h : stage.Stands t)
    (heq : ∀ id ∈ stage.about, t'.entries.get? id = t.entries.get? id) : stage.Stands t' := by
  cases stage with
  | enabling id | enabled id | disabling id | disabled id =>
    obtain ⟨e, he, hwire⟩ := h
    exact ⟨e, (heq id (Multiset.mem_singleton_self id)).trans he, hwire⟩
  | creating | created | deleting | ended => trivial

theorem Stands.exists_entry {t : RequestTable} {stage : Stage} (h : stage.Stands t) :
    ∀ id ∈ stage.about, ∃ e, t.entries.get? id = some e := by
  intro id hid
  cases stage with
  | enabling | enabled | disabling | disabled =>
    obtain ⟨e, he, -⟩ := h
    obtain rfl := Multiset.mem_singleton.1 hid
    exact ⟨e, he⟩
  | creating | created | deleting | ended => simp [about] at hid

theorem isDone_of_about {stage : Stage} {id : RequestId} (h : id ∈ stage.about) :
    stage.remainder.isDone = false := by
  cases stage with
  | enabling | enabled | disabling | disabled => rfl
  | creating | created | deleting | ended => simp [about] at h

theorem of_isDone {stage : Stage} (h : stage.remainder.isDone = true) :
    stage.held = 0 ∧ stage.gone = 0 := by
  cases stage with
  | ended => exact ⟨rfl, rfl⟩
  | creating | created | enabling | enabled | disabling | disabled | deleting => cases h

end Stage

namespace RequestTable

def wires (t : RequestTable) : Multiset Int32 :=
  t.entries.sum fun _ e => e.wireId.elim 0 fun wireId => {wireId}

theorem mem_wires {t : RequestTable} {wireId : Int32} :
    wireId ∈ t.wires ↔ ∃ id e, t.entries.get? id = some e ∧ e.wireId = some wireId := by
  rw [wires, Dict.mem_sum]
  refine exists_congr fun id => exists_congr fun e => and_congr_right fun _ => ?_
  cases e.wireId <;> simp [eq_comm]

/-- The wire ids lead to the requests that hold them. -/
def Inverse (t : RequestTable) : Prop :=
  ∀ wireId id, t.byWireId.get? wireId = some id ↔
    ∃ e, t.entries.get? id = some e ∧ e.wireId = some wireId

section Changes
variable {t t' : RequestTable} {id : RequestId} {wireId : Int32}

theorem Inverse.store (h : t.Inverse) (hunknown : t.byWireId.get? wireId = none)
    (hfree : ∀ w, t.byWireId.get? w ≠ some id)
    (hstored : ∃ e, t'.entries.get? id = some e ∧ e.wireId = some wireId)
    (hothers : ∀ other, other ≠ id → t'.entries.get? other = t.entries.get? other)
    (hknown : ∀ w, t'.byWireId.get? w = if w = wireId then some id else t.byWireId.get? w) :
    t'.Inverse := by
  obtain ⟨e, he, hwire⟩ := hstored
  intro w other
  rw [hknown]
  by_cases hother : other = id
  · subst hother
    simp only [he, Option.some.injEq, exists_eq_left', hwire]
    split
    · next hw => simp [hw]
    · next hw => simp [hfree w, Ne.symm hw]
  · rw [hothers other hother, ← h w other]
    split
    · next hw => simp [hw, hunknown, Ne.symm hother]
    · rfl

theorem Inverse.drop (h : t.Inverse) (hid : t.byWireId.get? wireId = some id)
    (hdropped : ∀ e, t'.entries.get? id = some e → e.wireId = none)
    (hothers : ∀ other, other ≠ id → t'.entries.get? other = t.entries.get? other)
    (hknown : ∀ w, t'.byWireId.get? w = if w = wireId then none else t.byWireId.get? w) :
    t'.Inverse := by
  obtain ⟨e, he, hwire⟩ := (h wireId id).1 hid
  intro w other
  rw [hknown]
  by_cases hother : other = id
  · subst hother
    have hnot : ¬ ∃ e, t'.entries.get? other = some e ∧ e.wireId = some w := by
      rintro ⟨e', he', hwire'⟩
      rw [hdropped e' he'] at hwire'
      cases hwire'
    simp only [hnot, iff_false]
    split
    · simp
    · next hw =>
      rw [h]
      rintro ⟨e', he', hwire'⟩
      cases he.symm.trans he'
      exact hw (Option.some.inj (hwire'.symm.trans hwire))
  · rw [hothers other hother, ← h w other]
    split
    · next hw => simp [hw, hid, Ne.symm hother]
    · rfl

theorem Inverse.remove {e : EventRequest} (h : t.Inverse) (he : t.entries.get? id = some e) :
    (t.remove id).2.Inverse := by
  obtain ⟨kind, policy, modifiers, stored⟩ := e
  have hget (other : RequestId) : (t.remove id).2.entries.get? other =
      if other = id then none else t.entries.get? other := by
    simp only [RequestTable.remove, he]
    exact Dict.get?_erase _ _ _
  have hothers (other : RequestId) (hother : other ≠ id) := (hget other).trans (if_neg hother)
  cases stored with
  | some wireId =>
    have hknown (w : Int32) : (t.remove id).2.byWireId.get? w =
        if w = wireId then none else t.byWireId.get? w := by
      simp only [RequestTable.remove, he]
      exact Dict.get?_erase _ _ _
    refine h.drop ((h wireId id).2 ⟨_, he, rfl⟩) (fun e' he' => ?_) hothers hknown
    rw [hget, if_pos rfl] at he'
    cases he'
  | none =>
    have hknown : (t.remove id).2.byWireId = t.byWireId := by simp only [RequestTable.remove, he]
    intro w other
    rw [hknown, h w other, hget]
    by_cases hother : other = id
    · subst hother
      simp [he]
    · simp [hother]

end Changes

end RequestTable

/-- The balance of a table and a machine, with the stages of the calls that were begun. -/
structure RequestBooks (t : RequestTable) (installed : List Int32) (stages : Multiset Stage)
    (made : Nat) : Prop where
  balance : (installed : Multiset Int32) + stages.bind Stage.gone =
    t.wires + stages.bind Stage.held
  nodup : ((installed : Multiset Int32) + stages.bind Stage.gone).Nodup
  inverse : t.Inverse
  apart : (stages.bind Stage.about).Nodup
  stands : ∀ stage ∈ stages, stage.Stands t
  next : t.nextId = counted made
  numbered : ∀ id e, t.entries.get? id = some e → ∃ m < made, id = counted m

namespace RequestBooks
variable {t : RequestTable} {installed : List Int32} {stages : Multiset Stage} {made : Nat}

theorem new : RequestBooks {} [] 0 0 where
  balance := by simp [RequestTable.wires]
  nodup := by simp
  inverse := by simp [RequestTable.Inverse, Dict.get?_empty]
  apart := by simp
  stands := by simp
  next := rfl
  numbered := by simp [Dict.get?_empty]

/-! ### What is where -/

variable {stage : Stage} {wireId : Int32} {id : RequestId}

theorem gone_known (h : RequestBooks t installed stages made) (hgone : wireId ∈ stages.bind Stage.gone) :
    ∃ id e, Stage.disabled id wireId ∈ stages ∧ t.entries.get? id = some e ∧
      e.wireId = some wireId := by
  obtain ⟨stage, hstage, hmem⟩ := Multiset.mem_bind.1 hgone
  cases stage with
  | disabled id w =>
    obtain rfl := Multiset.mem_singleton.1 hmem
    obtain ⟨e, he, hwire⟩ := h.stands _ hstage
    exact ⟨id, e, hstage, he, hwire⟩
  | creating | created | enabling | enabled | disabling | deleting | ended =>
    simp [Stage.gone] at hmem

theorem held_not_stored (h : RequestBooks t installed stages made)
    (hheld : wireId ∈ stages.bind Stage.held) : wireId ∉ t.wires := by
  have hnodup := h.nodup
  rw [h.balance] at hnodup
  exact fun hstored => Multiset.disjoint_left.1 (Multiset.nodup_add.1 hnodup).2.2 hstored hheld

/-- A request that a call has yet to clear is installed: what is gone belongs to a call that has
cleared it, and no other call is about the same request. -/
theorem disabling_installed {kind : EventCode}
    (h : RequestBooks t installed (.disabling id kind wireId ::ₘ stages) made) :
    wireId ∈ installed ∧ wireId ∉ stages.bind Stage.gone := by
  obtain ⟨e, he, hwire⟩ := h.stands _ (Multiset.mem_cons_self _ _)
  have hstored : wireId ∈ t.wires := RequestTable.mem_wires.2 ⟨id, e, he, hwire⟩
  have hgone : wireId ∉ (Stage.disabling id kind wireId ::ₘ stages).bind Stage.gone := by
    intro hmem
    obtain ⟨id', e', hstage, he', hwire'⟩ := h.gone_known hmem
    have hsame : id = id' := by
      have hother := (h.inverse wireId id').2 ⟨e', he', hwire'⟩
      rw [(h.inverse wireId id).2 ⟨e, he, hwire⟩] at hother
      exact Option.some.inj hother
    subst hsame
    have hrest : Stage.disabled id wireId ∈ stages := by simpa using hstage
    have hapart := h.apart
    rw [Multiset.cons_bind, Multiset.nodup_add] at hapart
    exact Multiset.disjoint_left.1 hapart.2.2 (Multiset.mem_singleton_self id)
      (Multiset.mem_bind.2 ⟨_, hrest, Multiset.mem_singleton_self id⟩)
  have hmem : wireId ∈ (installed : Multiset Int32) +
      (Stage.disabling id kind wireId ::ₘ stages).bind Stage.gone := by
    rw [h.balance]
    exact Multiset.mem_add.2 (.inl hstored)
  refine ⟨by simpa using (Multiset.mem_add.1 hmem).resolve_right hgone, fun hrest => hgone ?_⟩
  rw [Multiset.cons_bind]
  exact Multiset.mem_add.2 (.inr hrest)

theorem deleting_installed {kind : EventCode}
    (h : RequestBooks t installed (.deleting kind wireId ::ₘ stages) made) : wireId ∈ installed := by
  have hheld : wireId ∈ (Stage.deleting kind wireId ::ₘ stages).bind Stage.held := by
    rw [Multiset.cons_bind]
    exact Multiset.mem_add.2 (.inl (Multiset.mem_singleton_self wireId))
  have hgone : wireId ∉ (Stage.deleting kind wireId ::ₘ stages).bind Stage.gone := by
    intro hmem
    obtain ⟨id, e, -, he, hwire⟩ := h.gone_known hmem
    exact h.held_not_stored hheld (RequestTable.mem_wires.2 ⟨id, e, he, hwire⟩)
  have hmem : wireId ∈ (installed : Multiset Int32) +
      (Stage.deleting kind wireId ::ₘ stages).bind Stage.gone := by
    rw [h.balance]
    exact Multiset.mem_add.2 (.inr hheld)
  simpa using (Multiset.mem_add.1 hmem).resolve_right hgone

theorem coe_filter_ne {w : Int32} (hnodup : installed.Nodup) (hmem : w ∈ installed) :
    (installed : Multiset Int32) = w ::ₘ (installed.filter (· ≠ w) : List Int32) := by
  refine (Multiset.Nodup.ext (Multiset.coe_nodup.2 hnodup) ?_).2 fun v => ?_
  · refine Multiset.nodup_cons.2 ⟨by simp, ?_⟩
    exact Multiset.coe_nodup.2 (hnodup.filter _)
  · by_cases hv : v = w
    · subst hv
      simpa using hmem
    · simp [hv]

/-! ### Steps of the machine -/

/-- The machine gives out an id. -/
theorem give {stage' : Stage} (h : RequestBooks t installed (stage ::ₘ stages) made)
    (hnot : wireId ∉ installed) (hunknown : t.byWireId.get? wireId = none)
    (hheld : stage.held = 0) (hgone : stage.gone = 0) (hheld' : stage'.held = {wireId})
    (hgone' : stage'.gone = 0) (habout : stage'.about = stage.about)
    (hstands : stage.Stands t → stage'.Stands t) :
    RequestBooks t (wireId :: installed) (stage' ::ₘ stages) made where
  balance := by
    have hbalance := h.balance
    simp only [Multiset.cons_bind, hheld, hgone, zero_add] at hbalance
    simp only [Multiset.cons_bind, hheld', hgone', zero_add, ← Multiset.cons_coe,
      Multiset.cons_add, hbalance, Multiset.singleton_add, Multiset.add_cons]
  nodup := by
    have hnodup := h.nodup
    simp only [Multiset.cons_bind, hgone, zero_add] at hnodup
    simp only [Multiset.cons_bind, hgone', zero_add, ← Multiset.cons_coe, Multiset.cons_add]
    refine Multiset.nodup_cons.2 ⟨fun hmem => ?_, hnodup⟩
    rcases Multiset.mem_add.1 hmem with hmem | hmem
    · exact hnot (Multiset.mem_coe.1 hmem)
    · have hall : wireId ∈ (stage ::ₘ stages).bind Stage.gone := by
        rw [Multiset.cons_bind]
        exact Multiset.mem_add.2 (.inr hmem)
      obtain ⟨id, e, -, he, hwire⟩ := h.gone_known hall
      rw [(h.inverse wireId id).2 ⟨e, he, hwire⟩] at hunknown
      cases hunknown
  inverse := h.inverse
  apart := by
    have hapart := h.apart
    rwa [Multiset.cons_bind, ← habout, ← Multiset.cons_bind] at hapart
  stands := Multiset.forall_mem_cons.2 ⟨hstands (h.stands _ (Multiset.mem_cons_self _ _)), fun s hs =>
    h.stands s (Multiset.mem_cons_of_mem hs)⟩
  next := h.next
  numbered := h.numbered

theorem clear_disabling {kind : EventCode}
    (h : RequestBooks t installed (.disabling id kind wireId ::ₘ stages) made) :
    RequestBooks t (installed.filter (· ≠ wireId)) (.disabled id wireId ::ₘ stages) made := by
  have hsame : ((installed.filter (· ≠ wireId) : List Int32) : Multiset Int32) +
      (Stage.disabled id wireId ::ₘ stages).bind Stage.gone =
        installed + (Stage.disabling id kind wireId ::ₘ stages).bind Stage.gone := by
    rw [coe_filter_ne (Multiset.coe_nodup.1 (Multiset.nodup_add.1 h.nodup).1)
      h.disabling_installed.1]
    simp only [Multiset.cons_bind, Stage.gone, Multiset.singleton_add, Multiset.add_cons,
      Multiset.cons_add, zero_add]
  refine ⟨?_, hsame ▸ h.nodup, h.inverse, ?_, ?_, h.next, h.numbered⟩
  · rw [hsame, h.balance]
    simp [Stage.held]
  · simpa [Stage.about] using h.apart
  · have hstands := h.stands
    rw [Multiset.forall_mem_cons] at hstands ⊢
    exact hstands

theorem clear_deleting {kind : EventCode} {result : Except TargetError Unit}
    (h : RequestBooks t installed (.deleting kind wireId ::ₘ stages) made) :
    RequestBooks t (installed.filter (· ≠ wireId)) (.ended result ::ₘ stages) made := by
  have hfilter := coe_filter_ne (Multiset.coe_nodup.1 (Multiset.nodup_add.1 h.nodup).1)
    h.deleting_installed
  have hbalance := h.balance
  have hnodup := h.nodup
  simp only [Multiset.cons_bind, Stage.gone, Stage.held, zero_add, Multiset.singleton_add,
    Multiset.add_cons, hfilter, Multiset.cons_add] at hbalance hnodup
  refine ⟨?_, ?_, h.inverse, ?_, ?_, h.next, h.numbered⟩
  · simpa [Stage.gone, Stage.held] using hbalance
  · simpa [Stage.gone] using (Multiset.nodup_cons.1 hnodup).2
  · simpa [Stage.about] using h.apart
  · exact Multiset.forall_mem_cons.2 ⟨trivial, fun s hs => h.stands s (Multiset.mem_cons_of_mem hs)⟩

/-! ### What is written down -/

theorem wires_add {kind : EventCode} {policy : SuspendPolicy} {modifiers : List Modifier}
    (hnew : t.entries.get? t.nextId = none) :
    (t.add kind policy modifiers wireId).2.wires = wireId ::ₘ t.wires := by
  rw [RequestTable.wires, RequestTable.add, Dict.sum_insert hnew, ← RequestTable.wires]
  exact add_comm _ _

theorem wires_installed {e : EventRequest} (he : t.entries.get? id = some e)
    (hwire : e.wireId = none) : (t.installed id wireId).wires = wireId ::ₘ t.wires := by
  rw [RequestTable.wires, RequestTable.installed, Dict.sum_modify he, RequestTable.wires,
    Dict.sum_erase he, hwire]
  exact congrArg _ (zero_add _).symm

theorem wires_cleared {e : EventRequest} (he : t.entries.get? id = some e)
    (hwire : e.wireId = some wireId) : wireId ::ₘ (t.cleared id wireId).wires = t.wires := by
  rw [RequestTable.wires, RequestTable.cleared, Dict.sum_modify he, RequestTable.wires,
    Dict.sum_erase he, hwire]
  exact congrArg _ (zero_add _)

theorem wires_remove {e : EventRequest} (he : t.entries.get? id = some e) :
    t.wires = (e.wireId.elim 0 fun wireId => {wireId}) + (t.remove id).2.wires := by
  rw [RequestTable.wires, Dict.sum_erase he, RequestTable.remove, he]
  rfl

theorem next_free (h : RequestBooks t installed stages made) (hfew : made < UInt32.size) :
    t.entries.get? t.nextId = none := by
  refine Option.eq_none_iff_forall_ne_some.2 fun e he => ?_
  obtain ⟨m, hm, hid⟩ := h.numbered _ e he
  rw [h.next] at hid
  exact absurd (counted_injective hfew (hm.trans hfew) hid) (Nat.ne_of_gt hm)

/-- The calls in flight on other requests find their entries as they were. -/
theorem others_stand {t' : RequestTable}
    (h : RequestBooks t installed (stage ::ₘ stages) made) (hid : id ∈ stage.about)
    (hothers : ∀ other, other ≠ id → t'.entries.get? other = t.entries.get? other) :
    ∀ s ∈ stages, s.Stands t' := by
  intro s hs
  refine (h.stands s (Multiset.mem_cons_of_mem hs)).congr fun other hother => hothers other ?_
  rintro rfl
  have hapart := h.apart
  rw [Multiset.cons_bind, Multiset.nodup_add] at hapart
  exact Multiset.disjoint_left.1 hapart.2.2 hid (Multiset.mem_bind.2 ⟨s, hs, hother⟩)

theorem numbered_of_others {t' : RequestTable} (h : RequestBooks t installed stages made)
    {e : EventRequest} (he : t.entries.get? id = some e)
    (hothers : ∀ other, other ≠ id → t'.entries.get? other = t.entries.get? other)
    (other : RequestId) (e' : EventRequest) (he' : t'.entries.get? other = some e') :
    ∃ m < made, other = counted m := by
  by_cases hother : other = id
  · exact h.numbered other e (hother ▸ he)
  · exact h.numbered other e' (hothers other hother ▸ he')

theorem held_unknown (h : RequestBooks t installed (stage ::ₘ stages) made)
    (hheld : wireId ∈ stage.held) : t.byWireId.get? wireId = none := by
  have hall : wireId ∈ (stage ::ₘ stages).bind Stage.held := by
    rw [Multiset.cons_bind]
    exact Multiset.mem_add.2 (.inl hheld)
  refine Option.eq_none_iff_forall_ne_some.2 fun id hid => h.held_not_stored hall ?_
  obtain ⟨e, he, hwire⟩ := (h.inverse wireId id).1 hid
  exact RequestTable.mem_wires.2 ⟨id, e, he, hwire⟩

/-- A call is over: what it was about is of no more concern. -/
theorem apart_ended {result : Except TargetError Unit}
    (h : RequestBooks t installed (stage ::ₘ stages) made) :
    ((Stage.ended result ::ₘ stages).bind Stage.about).Nodup := by
  have hapart := h.apart
  rw [Multiset.cons_bind, Multiset.nodup_add] at hapart
  simpa [Stage.about] using hapart.2.1

theorem add {kind : EventCode} {policy : SuspendPolicy} {modifiers : List Modifier}
    {result : Except TargetError Unit}
    (h : RequestBooks t installed (.created kind policy modifiers wireId ::ₘ stages) made)
    (hfew : made < UInt32.size) :
    RequestBooks (t.add kind policy modifiers wireId).2 installed (.ended result ::ₘ stages)
      (made + 1) := by
  have hnew := h.next_free hfew
  have hget (other : RequestId) : (t.add kind policy modifiers wireId).2.entries.get? other =
      if other = t.nextId then some ⟨kind, policy, modifiers, some wireId⟩
      else t.entries.get? other :=
    Dict.get?_insert _ _ _ _
  have hothers (other : RequestId) (hother : other ≠ t.nextId) := (hget other).trans (if_neg hother)
  have hfree (w : Int32) : t.byWireId.get? w ≠ some t.nextId := by
    rw [Ne, h.inverse]
    simp [hnew]
  refine ⟨?_, ?_, ?_, h.apart_ended, ?_, ?_, fun other e he => ?_⟩
  · have hbalance := h.balance
    rw [wires_add hnew]
    simpa [Stage.gone, Stage.held] using hbalance
  · simpa [Stage.gone] using h.nodup
  · exact h.inverse.store (h.held_unknown (Multiset.mem_singleton_self wireId)) hfree
      ⟨_, (hget t.nextId).trans (if_pos rfl), rfl⟩ hothers fun w => Dict.get?_insert _ _ _ _
  · refine Multiset.forall_mem_cons.2 ⟨trivial, fun s hs => ?_⟩
    have hstands := h.stands s (Multiset.mem_cons_of_mem hs)
    refine hstands.congr fun id hid => hothers id ?_
    rintro rfl
    obtain ⟨e, he⟩ := hstands.exists_entry _ hid
    rw [hnew] at he
    cases he
  · show t.nextId + 1 = counted (made + 1)
    rw [h.next, counted_succ]
  · by_cases hother : other = t.nextId
    · exact ⟨made, Nat.lt_succ_self made, hother.trans h.next⟩
    · obtain ⟨m, hm, hid⟩ := h.numbered other e (hothers other hother ▸ he)
      exact ⟨m, Nat.lt_succ_of_lt hm, hid⟩

theorem installed_enabled {result : Except TargetError Unit}
    (h : RequestBooks t installed (.enabled id wireId ::ₘ stages) made) :
    RequestBooks (t.installed id wireId) installed (.ended result ::ₘ stages) made := by
  obtain ⟨e, he, hwire⟩ := h.stands _ (Multiset.mem_cons_self _ _)
  have hget (other : RequestId) : (t.installed id wireId).entries.get? other =
      if other = id then some { e with wireId := some wireId } else t.entries.get? other := by
    rw [RequestTable.installed, Dict.get?_modify, he]
    rfl
  have hothers (other : RequestId) (hother : other ≠ id) := (hget other).trans (if_neg hother)
  have hfree (w : Int32) : t.byWireId.get? w ≠ some id := by
    rw [Ne, h.inverse]
    simp [he, hwire]
  refine ⟨?_, ?_, ?_, h.apart_ended, ?_, h.next, h.numbered_of_others he hothers⟩
  · have hbalance := h.balance
    rw [wires_installed he hwire]
    simpa [Stage.gone, Stage.held] using hbalance
  · simpa [Stage.gone] using h.nodup
  · exact h.inverse.store (h.held_unknown (Multiset.mem_singleton_self wireId)) hfree
      ⟨_, (hget id).trans (if_pos rfl), rfl⟩ hothers fun w => Dict.get?_insert _ _ _ _
  · exact Multiset.forall_mem_cons.2 ⟨trivial,
      h.others_stand (Multiset.mem_singleton_self id) hothers⟩

theorem cleared_disabled {result : Except TargetError Unit}
    (h : RequestBooks t installed (.disabled id wireId ::ₘ stages) made) :
    RequestBooks (t.cleared id wireId) installed (.ended result ::ₘ stages) made := by
  obtain ⟨e, he, hwire⟩ := h.stands _ (Multiset.mem_cons_self _ _)
  have hget (other : RequestId) : (t.cleared id wireId).entries.get? other =
      if other = id then some { e with wireId := none } else t.entries.get? other := by
    rw [RequestTable.cleared, Dict.get?_modify, he]
    rfl
  have hothers (other : RequestId) (hother : other ≠ id) := (hget other).trans (if_neg hother)
  refine ⟨?_, ?_, ?_, h.apart_ended, ?_, h.next, h.numbered_of_others he hothers⟩
  · have hbalance := h.balance
    rw [← wires_cleared he hwire] at hbalance
    simpa [Stage.gone, Stage.held] using hbalance
  · have hnodup := h.nodup
    simp only [Multiset.cons_bind, Stage.gone, Multiset.singleton_add, Multiset.add_cons] at hnodup
    simpa [Stage.gone] using (Multiset.nodup_cons.1 hnodup).2
  · refine h.inverse.drop ((h.inverse wireId id).2 ⟨e, he, hwire⟩) (fun e' he' => ?_) hothers
      fun w => Dict.get?_erase _ _ _
    rw [hget, if_pos rfl] at he'
    cases he'
    rfl
  · exact Multiset.forall_mem_cons.2 ⟨trivial,
      h.others_stand (Multiset.mem_singleton_self id) hothers⟩

/-! ### The beginning of a call -/

theorem begin_plain (h : RequestBooks t installed stages made) (hheld : stage.held = 0)
    (hgone : stage.gone = 0) (habout : ∀ id ∈ stage.about, id ∉ stages.bind Stage.about)
    (hstands : stage.Stands t) : RequestBooks t installed (stage ::ₘ stages) made where
  balance := by
    rw [Multiset.cons_bind, Multiset.cons_bind, hheld, hgone, zero_add, zero_add]
    exact h.balance
  nodup := by
    rw [Multiset.cons_bind, hgone, zero_add]
    exact h.nodup
  inverse := h.inverse
  apart := by
    rw [Multiset.cons_bind, Multiset.nodup_add]
    refine ⟨?_, h.apart, Multiset.disjoint_left.2 fun {id} hid hother => habout id hid hother⟩
    cases stage <;> simp [Stage.about]
  stands := Multiset.forall_mem_cons.2 ⟨hstands, h.stands⟩
  next := h.next
  numbered := h.numbered

theorem begin_delete {e : EventRequest} (h : RequestBooks t installed stages made)
    (he : t.entries.get? id = some e) (hapart : id ∉ stages.bind Stage.about)
    (hheld : stage.held = e.wireId.elim 0 fun wireId => {wireId}) (hgone : stage.gone = 0)
    (habout : stage.about = 0) (hstands : ∀ t, stage.Stands t) :
    RequestBooks (t.remove id).2 installed (stage ::ₘ stages) made := by
  have hget (other : RequestId) : (t.remove id).2.entries.get? other =
      if other = id then none else t.entries.get? other := by
    simp only [RequestTable.remove, he]
    exact Dict.get?_erase _ _ _
  have hothers (other : RequestId) (hother : other ≠ id) := (hget other).trans (if_neg hother)
  refine ⟨?_, ?_, ?_, ?_, ?_, ?_, h.numbered_of_others he hothers⟩
  · rw [Multiset.cons_bind, Multiset.cons_bind, hheld, hgone, zero_add, h.balance, wires_remove he]
    abel
  · rw [Multiset.cons_bind, hgone, zero_add]
    exact h.nodup
  · exact h.inverse.remove he
  · rw [Multiset.cons_bind, habout, zero_add]
    exact h.apart
  · refine Multiset.forall_mem_cons.2 ⟨hstands _, fun s hs => (h.stands s hs).congr fun other hother =>
      hothers other ?_⟩
    rintro rfl
    exact hapart (Multiset.mem_bind.2 ⟨s, hs, hother⟩)
  · simp only [RequestTable.remove, he]
    exact h.next

end RequestBooks

/-! ## Runs -/

/-- The next step of a call. Of the ids that the machine gives out only one that it is asked for
matters. -/
theorem RequestBooks.next_stage {t : RequestTable} {x : Machine} {stage : Stage}
    {stages : Multiset Stage} {made : Nat}
    (h : RequestBooks t x.installed (stage ::ₘ stages) made) (hfew : made < UInt32.size)
    (hfresh : (∃ kind policy modifiers, stage = .creating kind policy modifiers) ∨
      (∃ id e, stage = .enabling id e) →
        x.coming ∉ x.installed ∧ t.byWireId.get? x.coming = none) :
    ∃ made', RequestBooks (stage.next t x).2.1 (stage.next t x).2.2.installed
        ((stage.next t x).1 ::ₘ stages) made' ∧
      made' + (stage.next t x).1.creations = made + stage.creations ∧
      ∀ id ∈ (stage.next t x).1.about, id ∈ stage.about := by
  cases stage with
  | creating kind policy modifiers =>
    obtain ⟨hnot, hunknown⟩ := hfresh (.inl ⟨_, _, _, rfl⟩)
    exact ⟨made, h.give hnot hunknown rfl rfl rfl rfl rfl fun _ => trivial, rfl, fun _ hid => hid⟩
  | created => exact ⟨made + 1, h.add hfew, rfl, fun _ hid => hid⟩
  | enabling id e =>
    obtain ⟨hnot, hunknown⟩ := hfresh (.inr ⟨_, _, rfl⟩)
    exact ⟨made, h.give hnot hunknown rfl rfl rfl rfl rfl fun hstands => hstands, rfl,
      fun _ hid => hid⟩
  | enabled => exact ⟨made, h.installed_enabled, rfl, by simp [Stage.next, Stage.about]⟩
  | disabling => exact ⟨made, h.clear_disabling, rfl, fun _ hid => hid⟩
  | disabled => exact ⟨made, h.cleared_disabled, rfl, by simp [Stage.next, Stage.about]⟩
  | deleting => exact ⟨made, h.clear_deleting, rfl, fun _ hid => hid⟩
  | ended => exact ⟨made, h, rfl, fun _ hid => hid⟩

/-- The beginning of a call, with none in flight that enables or disables its request. -/
theorem RequestBooks.first_stage {t : RequestTable} {installed : List Int32} {stages : Multiset Stage}
    {made : Nat} (h : RequestBooks t installed stages made) (call : RequestCall)
    (hapart : ∀ id, call.request? = some id → id ∉ stages.bind Stage.about) :
    RequestBooks (Stage.first t call).2 installed ((Stage.first t call).1 ::ₘ stages) made ∧
      (Stage.first t call).1.creations = call.creations ∧
      ∀ id ∈ (Stage.first t call).1.about, call.switches? = some id := by
  cases call with
  | create kind policy modifiers =>
    exact ⟨h.begin_plain rfl rfl (by simp [Stage.first, Stage.about]) trivial, rfl,
      by simp [Stage.first, Stage.about]⟩
  | setEnabled id active =>
    have hended (result : Except TargetError Unit) :
        RequestBooks t installed (.ended result ::ₘ stages) made :=
      h.begin_plain rfl rfl (by simp [Stage.about]) trivial
    have hid : ∀ other ∈ ({id} : Multiset RequestId), other ∉ stages.bind Stage.about :=
      fun other hother => hapart other (congrArg some (Multiset.mem_singleton.1 hother).symm)
    have hrequest : ∀ other ∈ ({id} : Multiset RequestId), some id = some other :=
      fun other hother => congrArg some (Multiset.mem_singleton.1 hother).symm
    simp only [Stage.first]
    cases he : t.entries.get? id with
    | none => exact ⟨hended _, rfl, by simp [Stage.about]⟩
    | some e =>
      obtain ⟨kind, policy, modifiers, wireId⟩ := e
      cases active <;> cases wireId
      · exact ⟨hended _, rfl, by simp [Stage.about]⟩
      · exact ⟨h.begin_plain rfl rfl hid ⟨_, he, rfl⟩, rfl, hrequest⟩
      · exact ⟨h.begin_plain rfl rfl hid ⟨_, he, rfl⟩, rfl, hrequest⟩
      · exact ⟨hended _, rfl, by simp [Stage.about]⟩
  | delete id =>
    simp only [Stage.first]
    cases he : t.entries.get? id with
    | none =>
      exact ⟨h.begin_plain rfl rfl (by simp [Stage.about]) trivial, rfl, by simp [Stage.about]⟩
    | some e =>
      obtain ⟨kind, policy, modifiers, wireId⟩ := e
      cases wireId with
      | none =>
        exact ⟨h.begin_delete he (hapart id rfl) rfl rfl rfl fun _ => trivial, rfl,
          by simp [Stage.about]⟩
      | some wireId =>
        exact ⟨h.begin_delete he (hapart id rfl) rfl rfl rfl fun _ => trivial, rfl,
          by simp [Stage.about]⟩

namespace RequestCrew

/-- The calls of a crew by their stages, and the requests that were and will be made by them. -/
structure Staged (c : RequestCrew) (staged : List (RequestCall × Stage)) (made begun : Nat) :
    Prop where
  calls : c.calls = staged.map fun p => (p.1, p.2.remainder)
  books : RequestBooks c.state.requests c.machine.installed (staged.map Prod.snd) made
  about : ∀ p ∈ staged, ∀ id ∈ p.2.about, p.1.switches? = some id
  begun : made + (staged.map fun p => p.2.creations).sum = begun

variable {c : RequestCrew} {staged : List (RequestCall × Stage)} {made begun : Nat}

theorem Staged.begin (h : c.Staged staged made begun) (call : RequestCall)
    (hapart : c.Apart (.begin call)) :
    ∃ stage, (c.step (.begin call)).Staged (staged ++ [(call, stage)]) made
      (begun + call.creations) := by
  have hfree : ∀ id, call.request? = some id →
      id ∉ (staged.map Prod.snd : Multiset Stage).bind Stage.about := by
    intro id hid hmem
    obtain ⟨stage, hstage, habout⟩ := Multiset.mem_bind.1 hmem
    obtain ⟨p, hp, rfl⟩ := List.mem_map.1 (Multiset.mem_coe.1 hstage)
    have hcall : (p.1, p.2.remainder) ∈ c.calls := h.calls ▸ List.mem_map_of_mem hp
    rcases hapart _ hcall (Stage.isDone_of_about habout) with hnone | hne
    · rw [hid] at hnone
      cases hnone
    · exact hne (hid.trans (h.about p hp id habout).symm)
  obtain ⟨hbooks, hcreations, habout⟩ := h.books.first_stage call hfree
  refine ⟨(Stage.first c.state.requests call).1, ?_⟩
  have hstep : c.step (.begin call) =
      { c with
        state := { c.state with requests := (Stage.first c.state.requests call).2 }
        calls := c.calls ++ [(call, (Stage.first c.state.requests call).1.remainder)] } := by
    simp only [step, Stage.advance_work]
  rw [hstep]
  refine ⟨by simp [h.calls], ?_, ?_, ?_⟩
  · have hperm : ((staged ++ [(call, (Stage.first c.state.requests call).1)]).map Prod.snd).Perm
        ((Stage.first c.state.requests call).1 :: staged.map Prod.snd) := by
      rw [List.map_append]
      exact List.perm_append_singleton _ _
    rw [Multiset.coe_eq_coe.2 hperm]
    exact hbooks
  · intro p hp
    rcases List.mem_append.1 hp with hp | hp
    · exact h.about p hp
    · obtain rfl := List.mem_singleton.1 hp
      exact habout
  · simp [← h.begun, hcreations, Nat.add_assoc]

theorem Staged.go (h : c.Staged staged made begun) (n : Nat) (wireId : Int32)
    (hfresh : c.FreshId (.go n wireId)) (hstruck : c.StruckOff (.go n wireId))
    (hfew : begun < UInt32.size) :
    ∃ staged' made', (c.step (.go n wireId)).Staged staged' made' begun := by
  cases hn : staged[n]? with
  | none =>
    have hnone : c.calls[n]? = none := by simp [h.calls, hn]
    have hsame : c.step (.go n wireId) = c := by simp only [step, hnone]
    exact ⟨staged, made, by rwa [hsame]⟩
  | some p =>
    obtain ⟨call, stage⟩ := p
    obtain ⟨hlt, hget⟩ := List.getElem?_eq_some_iff.1 hn
    have hcall : c.calls[n]? = some (call, stage.remainder) := by simp [h.calls, hn]
    let x : Machine := { c.machine with coming := wireId }
    let new := stage.next c.state.requests x
    have hstep : c.step (.go n wireId) =
        { state := { c.state with requests := new.2.1 }
          machine := new.2.2
          calls := c.calls.set n (call, new.1.remainder) } := by
      simp only [step, hcall, Stage.move_remainder]
      rfl
    have hold : ((call, stage) :: staged.eraseIdx n).Perm staged :=
      hget ▸ List.getElem_cons_eraseIdx_perm hlt
    have hnew : (staged.set n (call, new.1)).Perm ((call, new.1) :: staged.eraseIdx n) :=
      List.set_perm_cons_eraseIdx hlt _
    have hbooks : RequestBooks c.state.requests x.installed
        (stage ::ₘ ((staged.eraseIdx n).map Prod.snd : List Stage)) made := by
      have hbooks := h.books
      rwa [← Multiset.coe_eq_coe.2 (hold.map Prod.snd)] at hbooks
    have hcount : made + stage.creations +
        ((staged.eraseIdx n).map fun p => p.2.creations).sum = begun := by
      rw [← h.begun, ← (hold.map _).sum_eq]
      simp [Nat.add_assoc]
    have hasked : (∃ kind policy modifiers, stage = .creating kind policy modifiers) ∨
        (∃ id e, stage = .enabling id e) → c.asksForId n = true := by
      unfold asksForId
      rw [hcall]
      rintro (⟨_, _, _, rfl⟩ | ⟨_, _, rfl⟩) <;> rfl
    obtain ⟨made', hnext, hcreations, habout⟩ :=
      hbooks.next_stage (by omega) fun hasks => ⟨hfresh (hasked hasks), hstruck (hasked hasks)⟩
    change made' + new.1.creations = made + stage.creations at hcreations
    refine ⟨staged.set n (call, new.1), made', hstep ▸ ⟨?_, ?_, ?_, ?_⟩⟩
    · simp [h.calls, List.map_set]
    · rw [Multiset.coe_eq_coe.2 (hnew.map Prod.snd)]
      exact hnext
    · intro p hp id hid
      rcases List.mem_cons.1 (hnew.mem_iff.1 hp) with rfl | hp
      · exact h.about (call, stage) (hold.mem_iff.1 List.mem_cons_self) id (habout id hid)
      · exact h.about p (hold.mem_iff.1 (List.mem_cons_of_mem _ hp)) id hid
    · rw [(hnew.map _).sum_eq, ← hcount]
      simp only [List.map_cons, List.sum_cons]
      omega

theorem Staged.step {t : Turn} (h : c.Staged staged made begun) (hfresh : c.FreshId t)
    (hapart : c.Apart t) (hstruck : c.StruckOff t) (hfew : begun < UInt32.size) :
    ∃ staged' made', (c.step t).Staged staged' made' (begun + t.creations) := by
  cases t with
  | begin call =>
    obtain ⟨stage, hstaged⟩ := h.begin call hapart
    exact ⟨_, made, hstaged⟩
  | go n wireId => exact h.go n wireId hfresh hstruck hfew

theorem staged_run {turns : List Turn}
    (hfresh : ∀ xs t, xs ++ [t] <+: turns → (run {} xs).FreshId t) (horderly : Orderly turns)
    (hfew : (turns.map Turn.creations).sum < UInt32.size) :
    ∃ staged made, (run {} turns).Staged staged made (turns.map Turn.creations).sum := by
  induction turns using List.reverseRecOn with
  | nil => exact ⟨[], 0, rfl, .new, by simp, rfl⟩
  | append_singleton turns t ih =>
    have hpre {xs : List Turn} {t' : Turn} (h : xs ++ [t'] <+: turns) :
        xs ++ [t'] <+: turns ++ [t] := h.trans (List.prefix_append _ _)
    rw [List.map_append, List.sum_append, List.map_singleton, List.sum_singleton] at hfew ⊢
    obtain ⟨staged, made, h⟩ := ih (fun xs t' h => hfresh xs t' (hpre h))
      ⟨fun xs t' h => horderly.apart xs t' (hpre h), fun xs t' h => horderly.struckOff xs t' (hpre h)⟩
      (by omega)
    rw [run_append]
    exact h.step (hfresh turns t List.prefix_rfl) (horderly.apart turns t List.prefix_rfl)
      (horderly.struckOff turns t List.prefix_rfl) (by omega)

/-- Whenever nothing is in flight, the machine holds the requests of the table. -/
theorem Settles.agree {turns : List Turn} (h : Settles turns) (horderly : Orderly turns) :
    (run {} turns).Agree := by
  obtain ⟨staged, made, hstaged⟩ := staged_run h.fresh horderly h.few
  have hended : ∀ stage ∈ (staged.map Prod.snd : Multiset Stage), stage.held = 0 ∧ stage.gone = 0 := by
    intro stage hstage
    obtain ⟨p, hp, rfl⟩ := List.mem_map.1 (Multiset.mem_coe.1 hstage)
    exact Stage.of_isDone (h.idle (p.1, p.2.remainder) (hstaged.calls ▸ List.mem_map_of_mem hp))
  have hnone {f : Stage → Multiset Int32}
      (hf : ∀ stage ∈ (staged.map Prod.snd : Multiset Stage), f stage = 0) :
      (staged.map Prod.snd : Multiset Stage).bind f = 0 := by
    refine Multiset.eq_zero_of_forall_notMem fun wireId hmem => ?_
    obtain ⟨stage, hstage, hheld⟩ := Multiset.mem_bind.1 hmem
    simp [hf stage hstage] at hheld
  have hbalance := hstaged.books.balance
  rw [hnone fun stage hstage => (hended stage hstage).1,
    hnone fun stage hstage => (hended stage hstage).2, add_zero, add_zero] at hbalance
  refine ⟨fun wireId => ?_, hstaged.books.inverse⟩
  rw [← RequestTable.mem_wires, ← hbalance, Multiset.mem_coe]

/-- Two breakpoints are created together; then one is disabled and enabled again while the other is
deleted twice at once. -/
def takenInTurn : List Turn :=
  [.begin (.create .breakpoint .all []), .begin (.create .breakpoint .all []), .go 0 10, .go 1 11,
    .go 1 0, .go 0 0, .begin (.setEnabled 1 false), .begin (.delete 2), .begin (.delete 2), .go 2 0,
    .go 3 0, .go 2 0, .begin (.setEnabled 1 true), .go 5 10, .go 5 0]

theorem agree_takenInTurn :
    Settles takenInTurn ∧ Orderly takenInTurn ∧ (run {} takenInTurn).Agree := by
  have hsettles : Settles takenInTurn :=
    ⟨forall_of_position (P := fun xs t => (run {} xs).FreshId t) (by decide +kernel), by decide,
      by decide +kernel⟩
  have horderly : Orderly takenInTurn :=
    ⟨forall_of_position (P := fun xs t => (run {} xs).Apart t) (by decide +kernel),
      forall_of_position (P := fun xs t => (run {} xs).StruckOff t) (by decide +kernel)⟩
  exact ⟨hsettles, horderly, hsettles.agree horderly⟩

/-- A disabled breakpoint is enabled twice at once. Both calls have it installed, and the second to
write down its id forgets the first. -/
def enabledTwice : List Turn :=
  [.begin (.create .breakpoint .all []), .go 0 10, .go 0 0, .begin (.setEnabled 1 false), .go 1 0,
    .go 1 0, .begin (.setEnabled 1 true), .begin (.setEnabled 1 true), .go 2 11, .go 3 12, .go 2 0,
    .go 3 0]

theorem not_agree_always : ¬ ∀ turns, Settles turns → (run {} turns).Agree := by
  intro hall
  have hsettles : Settles enabledTwice :=
    ⟨forall_of_position (P := fun xs t => (run {} xs).FreshId t) (by decide +kernel), by decide,
      by decide +kernel⟩
  have hinstalled : 11 ∈ (run {} enabledTwice).machine.installed := by decide +kernel
  have hstored : (run {} enabledTwice).state.requests.entries.entries =
      [(1, ⟨.breakpoint, .all, [], some 12⟩)] := by decide +kernel
  obtain ⟨id, e, he, hwire⟩ := ((hall enabledTwice hsettles).installed 11).1 hinstalled
  have hmem := Dict.mem_entries.2 he
  rw [hstored, List.mem_singleton] at hmem
  cases hmem
  cases hwire

end RequestCrew

end JvmDebug.Wire
