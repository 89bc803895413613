import JvmDebug.Proofs.RequestOwnership
import JvmDebug.Proofs.StepWork
import Mathlib.Algebra.BigOperators.Group.Multiset.Basic
import Mathlib.Data.List.Perm.Basic
import Mathlib.Tactic.Abel

/-!
Which requests for steps a session keeps track of. When nothing is in flight, a request that is
filed with the target is the recorded one of its thread unless its record was lost, and a record is
lost in three ways: another step of the thread is reported to be done, the thread is reported dead,
or two steps of the thread were begun at the same time and the second record replaces the first.
-/
namespace JvmDebug

/-! ## The loss of a record -/

def RequestKind.stepThread? : RequestKind → Option ThreadId
  | .step t _ _ => some t
  | _ => none

def Vm.stepThread? (vm : Vm) (r : RequestId) : Option ThreadId :=
  (vm.requests.get? r).bind fun q => q.kind.stepThread?

/-- The event that the loop handles or begins to handle next. -/
def Loop.event? : Loop → Option TargetEvent
  | ready _ (e :: _) | handling _ e _ _ => some e
  | _ => none

/-- After a block of updates that drops the record of a request: what became of the record in the
handling of an event, or in an operation. -/
def Session.Forgot (event : Option TargetEvent) (t : ThreadId) (r : RequestId) (after : Session) :
    Prop :=
  match event with
  | some e => e.Forgets t r ∧ after.steps.get? t = none
  | none => ∃ q, q ≠ r ∧ after.steps.get? t = some q

/-- The next turn drops the record of a request and leaves the request to itself. -/
def Scene.Loses (c : Scene) (x : Turn) (t : ThreadId) (r : RequestId) : Prop :=
  c.session.steps.get? t = some r ∧
    match x with
    | .choice .loop =>
      ∃ e, c.loop.event? = some e ∧ (c.next x).session.Forgot (some e) t r
    | .choice (.go _) => (c.next x).session.Forgot none t r
    | _ => False

def Scene.Lost (c : Scene) (turns : List Turn) (t : ThreadId) (r : RequestId) : Prop :=
  ∃ xs x, xs ++ [x] <+: turns ∧ (c.play xs).Loses x t r

theorem Scene.lost_nil (c : Scene) (t : ThreadId) (r : RequestId) : ¬c.Lost [] t r := by
  rintro ⟨xs, x, h, -⟩
  simp at h

theorem Scene.lost_snoc {c : Scene} {xs : List Turn} {x : Turn} {t : ThreadId} {r : RequestId} :
    c.Lost (xs ++ [x]) t r ↔ c.Lost xs t r ∨ (c.play xs).Loses x t r := by
  constructor
  · rintro ⟨ys, y, h, hloses⟩
    rcases List.prefix_concat_iff.1 h with h | h
    · obtain ⟨rfl, hyx⟩ := List.append_inj' h rfl
      obtain rfl := List.singleton_inj.1 hyx
      exact .inr hloses
    · exact .inl ⟨ys, y, h, hloses⟩
  · rintro (⟨ys, y, h, hloses⟩ | hloses)
    · exact ⟨ys, y, h.trans (List.prefix_append _ _), hloses⟩
    · exact ⟨xs, x, List.prefix_rfl, hloses⟩

/-! ## The invariant -/

def Hand.fresh : Hand → Multiset RequestId
  | made _ r => {r}
  | _ => 0

@[simp] theorem Hand.fresh_empty : empty.fresh = 0 := rfl

@[simp] theorem Hand.fresh_taken (r : RequestId) : (taken r).fresh = 0 := rfl

@[simp] theorem Hand.fresh_made (t : ThreadId) (r : RequestId) : (made t r).fresh = {r} := rfl

/-- The requests that are recorded, and those that are made and not yet recorded. -/
def Session.claimed (s : Session) (hands : Multiset Hand) : Multiset RequestId :=
  s.steps.sum (fun _ r => {r}) + (hands.map Hand.fresh).sum

/-- The requests for steps are recorded, in somebody's hand or lost; none is claimed twice, and one
that is lost is not claimed. -/
structure Tracked (lost : ThreadId → RequestId → Prop) (hands : Multiset Hand) (s : Session)
    (vm : Vm) : Prop where
  known : ∀ r t, vm.stepThread? r = some t →
    s.steps.get? t = some r ∨ .made t r ∈ hands ∨ .taken r ∈ hands ∨ lost t r
  nodup : (s.claimed hands).Nodup
  below : ∀ r ∈ s.claimed hands, r < vm.nextRequest
  lostBelow : ∀ t r, lost t r → r < vm.nextRequest
  lostApart : ∀ t r, lost t r → r ∉ s.claimed hands

variable {lost lost' : ThreadId → RequestId → Prop} {hands : Multiset Hand} {hand hand' : Hand}
  {s s' : Session} {vm vm' : Vm} {event : Option TargetEvent}

theorem Session.mem_claimed_of_get? {t : ThreadId} {r : RequestId} (h : s.steps.get? t = some r)
    (hands : Multiset Hand) : r ∈ s.claimed hands :=
  Multiset.mem_add.2 (.inl (Dict.mem_sum.2 ⟨t, r, h, Multiset.mem_singleton_self r⟩))

theorem Session.claimed_cons (s : Session) (hand : Hand) (hands : Multiset Hand) :
    s.claimed (hand ::ₘ hands) = hand.fresh + s.claimed hands := by
  simp only [claimed, Multiset.map_cons, Multiset.sum_cons]
  abel

@[simp] theorem Session.claimed_empty (s : Session) (hands : Multiset Hand) :
    s.claimed (.empty ::ₘ hands) = s.claimed hands := by
  rw [claimed_cons, Hand.fresh_empty, zero_add]

theorem Session.claimed_of_steps (h : s'.steps = s.steps) (hands : Multiset Hand) :
    s'.claimed hands = s.claimed hands := by
  simp only [claimed, h]

theorem Session.claimed_erase {t : ThreadId} {r : RequestId} (h : s.steps.get? t = some r)
    (hsteps : s'.steps = s.steps.erase t) (hands : Multiset Hand) :
    s.claimed hands = {r} + s'.claimed hands := by
  simp only [claimed, hsteps]
  rw [Dict.sum_erase h, add_assoc]

theorem Session.claimed_erase_of_none {t : ThreadId} (h : s.steps.get? t = none)
    (hsteps : s'.steps = s.steps.erase t) (hands : Multiset Hand) :
    s'.claimed hands = s.claimed hands := by
  simp only [claimed, hsteps]
  rw [Dict.sum_erase_of_none h]

theorem Dict.insert_erase {κ ν : Type} [DecidableEq κ] (d : Dict κ ν) (k : κ) (v : ν) :
    (d.erase k).insert k v = d.insert k v := by
  refine eq_of_entries ?_
  rw [insert_entries_of_none (by rw [get?_erase, if_pos rfl])]
  rfl

theorem Session.claimed_insert {t : ThreadId} {r : RequestId}
    (hsteps : s'.steps = s.steps.insert t r) (hands : Multiset Hand) :
    s'.claimed hands = {r} + { s with steps := s.steps.erase t }.claimed hands := by
  have hnone : (s.steps.erase t).get? t = none := by rw [Dict.get?_erase, if_pos rfl]
  simp only [claimed, hsteps]
  rw [← Dict.insert_erase, Dict.sum_insert hnone]
  abel

/-- A block of updates claims no request anew, and none whose record it drops. -/
theorem Change.claimed_le (h : Change event hand s s' hand') (hands : Multiset Hand) :
    s'.claimed (hand' ::ₘ hands) ≤ s.claimed (hand ::ₘ hands) ∧
      ∀ t r, s.steps.get? t = some r → s'.steps.get? t ≠ some r →
        {r} + s'.claimed (hand' ::ₘ hands) ≤ s.claimed (hand ::ₘ hands) := by
  cases h with
  | aside hsteps =>
    rw [Session.claimed_of_steps hsteps]
    exact ⟨le_rfl, fun t r hr hno => absurd (hsteps ▸ hr) hno⟩
  | takeOut t hsteps hhand hold =>
    have hfresh : hand'.fresh = 0 := by
      rcases hhand with rfl | ⟨q, rfl⟩ <;> rfl
    simp only [Session.claimed_cons, hfresh, Hand.fresh_empty, zero_add]
    refine ⟨?_, fun u r hr hno => ?_⟩
    · cases hget : s.steps.get? t with
      | none => exact (Session.claimed_erase_of_none hget hsteps hands).le
      | some q =>
        rw [Session.claimed_erase hget hsteps]
        exact Multiset.le_add_left _ _
    · rw [hsteps, Dict.get?_erase] at hno
      by_cases hut : u = t
      · subst hut
        exact (Session.claimed_erase hr hsteps hands).ge
      · rw [if_neg hut] at hno
        exact absurd hr hno
  | record t q hevent hsteps =>
    simp only [Session.claimed_cons, Session.claimed_insert hsteps, Hand.fresh_made,
      Hand.fresh_empty, zero_add]
    have herase : ({ s with steps := s.steps.erase t } : Session).steps = s.steps.erase t := rfl
    refine ⟨Multiset.add_le_add_left ?_, fun u r hr hno => ?_⟩
    · cases hget : s.steps.get? t with
      | none => exact (Session.claimed_erase_of_none hget herase hands).le
      | some q =>
        rw [Session.claimed_erase hget herase]
        exact Multiset.le_add_left _ _
    · rw [hsteps, Dict.get?_insert] at hno
      by_cases hut : u = t
      · subst hut
        rw [Session.claimed_erase hr herase, add_left_comm]
      · rw [if_neg hut] at hno
        exact absurd hr hno

/-- What becomes of a record in a block of updates. -/
theorem Change.kept (h : Change event hand s s' hand') {t : ThreadId} {r : RequestId}
    (hr : s.steps.get? t = some r) :
    s'.steps.get? t = some r ∨ hand' = .taken r ∨ s'.Forgot event t r := by
  cases h with
  | aside hsteps => exact .inl (hsteps ▸ hr)
  | takeOut u hsteps hhand hold =>
    by_cases htu : t = u
    · subst htu
      rcases hold r hr with htaken | ⟨e, rfl, hforgets⟩
      · exact .inr (.inl htaken)
      · exact .inr (.inr ⟨hforgets, by rw [hsteps, Dict.get?_erase, if_pos rfl]⟩)
    · exact .inl (by rw [hsteps, Dict.get?_erase, if_neg htu, hr])
  | record u q hevent hsteps =>
    subst hevent
    by_cases htu : t = u
    · subst htu
      have hget : s'.steps.get? t = some q := by rw [hsteps, Dict.get?_insert, if_pos rfl]
      by_cases hqr : q = r
      · exact .inl (hqr ▸ hget)
      · exact .inr (.inr ⟨q, hqr, hget⟩)
    · exact .inl (by rw [hsteps, Dict.get?_insert, if_neg htu, hr])

theorem Change.hand_of_taken {r : RequestId} (h : Change event (.taken r) s s' hand') :
    hand' = .taken r := by
  cases h
  rfl

theorem Change.hand_of_made {t : ThreadId} {r : RequestId}
    (h : Change event (.made t r) s s' hand') :
    hand' = .made t r ∨ s'.steps.get? t = some r := by
  cases h with
  | aside => exact .inl rfl
  | record t r hevent hsteps => exact .inr (by rw [hsteps, Dict.get?_insert, if_pos rfl])

theorem Session.Forgot.not_recorded {t : ThreadId} {r : RequestId} (h : s.Forgot event t r) :
    s.steps.get? t ≠ some r := by
  cases event with
  | some e =>
    rw [h.2]
    exact fun h => nomatch h
  | none =>
    obtain ⟨q, hqr, hq⟩ := h
    rw [hq]
    exact fun h => hqr (Option.some.inj h)

namespace Tracked

theorem change (hc : Change event hand s s' hand') (h : Tracked lost (hand ::ₘ hands) s vm) :
    Tracked (fun t r => lost t r ∨ s.steps.get? t = some r ∧ s'.Forgot event t r)
      (hand' ::ₘ hands) s' vm := by
  obtain ⟨hle, hdrop⟩ := hc.claimed_le hands
  refine ⟨fun r t hr => ?_, Multiset.nodup_of_le hle h.nodup,
    fun r hr => h.below r (Multiset.mem_of_le hle hr), ?_, ?_⟩
  · rcases h.known r t hr with hget | hmade | htaken | hlost
    · rcases hc.kept hget with hkept | rfl | hforgot
      · exact .inl hkept
      · exact .inr (.inr (.inl (Multiset.mem_cons_self _ _)))
      · exact .inr (.inr (.inr (.inr ⟨hget, hforgot⟩)))
    · rcases Multiset.mem_cons.1 hmade with rfl | hmade
      · rcases hc.hand_of_made with rfl | hget
        · exact .inr (.inl (Multiset.mem_cons_self _ _))
        · exact .inl hget
      · exact .inr (.inl (Multiset.mem_cons_of_mem hmade))
    · rcases Multiset.mem_cons.1 htaken with rfl | htaken
      · rw [hc.hand_of_taken]
        exact .inr (.inr (.inl (Multiset.mem_cons_self _ _)))
      · exact .inr (.inr (.inl (Multiset.mem_cons_of_mem htaken)))
    · exact .inr (.inr (.inr (.inl hlost)))
  · rintro t r (hlost | ⟨hget, -⟩)
    · exact h.lostBelow t r hlost
    · exact h.below r (s.mem_claimed_of_get? hget _)
  · rintro t r (hlost | ⟨hget, hforgot⟩) hmem
    · exact h.lostApart t r hlost (Multiset.mem_of_le hle hmem)
    · have hnodup := Multiset.nodup_of_le (hdrop t r hget hforgot.not_recorded) h.nodup
      rw [Multiset.singleton_add] at hnodup
      exact (Multiset.nodup_cons.1 hnodup).1 hmem

theorem congr (hlost : ∀ t r, lost' t r ↔ lost t r) (h : Tracked lost hands s vm) :
    Tracked lost' hands s vm := by
  have : lost' = lost := funext fun t => funext fun r => propext (hlost t r)
  rwa [this]

/-- The target moves: it files no request for a step, and numbers go on. -/
theorem of_vm (hrequests : ∀ r t, vm'.stepThread? r = some t → vm.stepThread? r = some t)
    (hnext : vm.nextRequest ≤ vm'.nextRequest) (h : Tracked lost hands s vm) :
    Tracked lost hands s vm' where
  known r t hr := h.known r t (hrequests r t hr)
  nodup := h.nodup
  below r hr := UInt32.lt_of_lt_of_le (h.below r hr) hnext
  lostBelow t r hr := UInt32.lt_of_lt_of_le (h.lostBelow t r hr) hnext
  lostApart := h.lostApart

end Tracked

/-! ## Answers of the target -/

namespace Vm

theorem stepThread?_addRequest (vm : Vm) (kind : RequestKind) (r : RequestId) :
    (vm.addRequest kind).2.stepThread? r =
      if r = vm.nextRequest then kind.stepThread? else vm.stepThread? r := by
  simp only [stepThread?, addRequest, Dict.get?_insert]
  split <;> rfl

theorem stepThread?_deleteRequest (vm : Vm) (r q : RequestId) :
    (vm.deleteRequest r).2.stepThread? q = if q = r then none else vm.stepThread? q := by
  simp only [stepThread?, deleteRequest]
  split
  · simp only [Dict.get?_erase]
    split <;> rfl
  · next hno =>
    split
    · next h =>
      subst h
      cases hq : vm.requests.get? q with
      | none => rfl
      | some _ => simp [Dict.contains, hq] at hno
    · rfl

theorem stepThread?_switchRequest (vm : Vm) (r q : RequestId) (enabled : Bool) :
    (vm.switchRequest r enabled).2.stepThread? q = vm.stepThread? q := by
  simp only [stepThread?, switchRequest]
  split
  · simp only [Dict.get?_modify]
    split
    · next h =>
      subst h
      cases vm.requests.get? q <;> rfl
    · rfl
  · rfl

/-- Apart from the making of a step, no answer of the target files a request for a step. -/
theorem answer_leavesSteps {c : Call} (hc : c.leavesSteps) {r : RequestId} {t : ThreadId}
    (hr : (vm.answer c).2.stepThread? r = some t) : vm.stepThread? r = some t := by
  have hadd (kind : RequestKind) (hkind : kind.stepThread? = none)
      (hr : (vm.addRequest kind).2.stepThread? r = some t) : vm.stepThread? r = some t := by
    rw [stepThread?_addRequest, hkind] at hr
    split at hr
    · cases hr
    · exact hr
  by_cases hl : c.leavesRequests
  · rwa [stepThread?, (vm.answer_leavesRequests hl).requests] at hr
  · cases c with
    | createBreakpoint l => exact hadd _ rfl hr
    | createExceptionRequest scope caught uncaught => exact hadd _ rfl hr
    | createClassPrepareWatch name => exact hadd _ rfl hr
    | setRequestEnabled r enabled => rwa [answer, stepThread?_switchRequest] at hr
    | deleteRequest r =>
      rw [answer, stepThread?_deleteRequest] at hr
      split at hr
      · cases hr
      · exact hr
    | _ => exact absurd hc hl

end Vm

namespace Tracked

theorem of_answer {c : Call} (hc : c.leavesSteps) (hnext : (vm.answer c).2.nextRequest ≠ 0)
    (h : Tracked lost hands s vm) : Tracked lost hands s (vm.answer c).2 := by
  have hone : c ≠ .watchThreadLifecycle := by
    rintro rfl
    cases hc
  exact h.of_vm (fun r t hr => Vm.answer_leavesSteps hc hr) (Vm.nextRequest_le_answer hone hnext)

theorem empty_cons (h : Tracked lost hands s vm) : Tracked lost (.empty ::ₘ hands) s vm where
  known r t hr := by
    rcases h.known r t hr with hget | hmade | htaken | hlost
    · exact .inl hget
    · exact .inr (.inl (Multiset.mem_cons_of_mem hmade))
    · exact .inr (.inr (.inl (Multiset.mem_cons_of_mem htaken)))
    · exact .inr (.inr (.inr hlost))
  nodup := by
    rw [Session.claimed_empty]
    exact h.nodup
  below := by
    rw [Session.claimed_empty]
    exact h.below
  lostBelow := h.lostBelow
  lostApart := by
    rw [Session.claimed_empty]
    exact h.lostApart

theorem of_empty_cons (h : Tracked lost (.empty ::ₘ hands) s vm) : Tracked lost hands s vm where
  known r t hr := by
    have := h.known r t hr
    simpa using this
  nodup := by simpa using h.nodup
  below := by simpa using h.below
  lostBelow := h.lostBelow
  lostApart := by simpa using h.lostApart

theorem addRequest {t : ThreadId} {size : StepSize} {depth : StepDepth}
    (hnext : (vm.addRequest (.step t size depth)).2.nextRequest ≠ 0)
    (h : Tracked lost hands s vm) :
    Tracked lost (.made t vm.nextRequest ::ₘ hands) s (vm.addRequest (.step t size depth)).2 := by
  have hlt := Vm.lt_addRequest hnext
  have hclaimed : s.claimed (.made t vm.nextRequest ::ₘ hands) =
      vm.nextRequest ::ₘ s.claimed hands := by
    rw [Session.claimed_cons, Hand.fresh_made, Multiset.singleton_add]
  refine ⟨fun r u hr => ?_, ?_, ?_, fun u r hr => UInt32.lt_trans (h.lostBelow u r hr) hlt, ?_⟩
  · rw [Vm.stepThread?_addRequest] at hr
    split at hr
    · next hnew =>
      cases hr
      subst hnew
      exact .inr (.inl (Multiset.mem_cons_self _ _))
    · rcases h.known r u hr with hget | hmade | htaken | hlost
      · exact .inl hget
      · exact .inr (.inl (Multiset.mem_cons_of_mem hmade))
      · exact .inr (.inr (.inl (Multiset.mem_cons_of_mem htaken)))
      · exact .inr (.inr (.inr hlost))
  · rw [hclaimed]
    exact Multiset.nodup_cons.2 ⟨fun hmem => UInt32.lt_irrefl _ (h.below _ hmem), h.nodup⟩
  · rw [hclaimed]
    intro r hr
    rcases Multiset.mem_cons.1 hr with rfl | hr
    · exact hlt
    · exact UInt32.lt_trans (h.below r hr) hlt
  · rw [hclaimed]
    intro u r hlost hr
    rcases Multiset.mem_cons.1 hr with rfl | hr
    · exact UInt32.lt_irrefl _ (h.lostBelow u _ hlost)
    · exact h.lostApart u r hlost hr

theorem deleteRequest {r : RequestId} (h : Tracked lost (.taken r ::ₘ hands) s vm) :
    Tracked lost hands s (vm.deleteRequest r).2 where
  known q t hq := by
    rw [Vm.stepThread?_deleteRequest] at hq
    split at hq
    · cases hq
    · next hqr =>
      have := h.known q t hq
      simpa [hqr] using this
  nodup := by simpa [Session.claimed_cons] using h.nodup
  below := by
    rw [vm.nextRequest_deleteRequest]
    simpa [Session.claimed_cons] using h.below
  lostBelow := by
    rw [vm.nextRequest_deleteRequest]
    exact h.lostBelow
  lostApart := by simpa [Session.claimed_cons] using h.lostApart

theorem of_books (hbooks : vm.SameBooks vm') (h : Tracked lost hands s vm) :
    Tracked lost hands s vm' := by
  refine h.of_vm (fun r t hr => ?_) (UInt32.le_of_eq hbooks.nextRequest.symm)
  rwa [Vm.stepThread?, hbooks.requests] at hr

theorem of_steps (hsteps : s'.steps = s.steps) (h : Tracked lost hands s vm) :
    Tracked lost hands s' vm where
  known := hsteps ▸ h.known
  nodup := Session.claimed_of_steps hsteps hands ▸ h.nodup
  below := Session.claimed_of_steps hsteps hands ▸ h.below
  lostBelow := h.lostBelow
  lostApart := Session.claimed_of_steps hsteps hands ▸ h.lostApart

/-- Where the record stays as it is, nothing is lost. -/
theorem none_lost (h : Tracked lost hands s vm) :
    Tracked (fun t r => lost t r ∨ s.steps.get? t = some r ∧ s.Forgot event t r) hands s vm := by
  refine h.congr fun t r => ⟨?_, .inl⟩
  rintro (hlost | ⟨hget, hforgot⟩)
  · exact hlost
  · exact absurd hget hforgot.not_recorded

end Tracked

/-! ## Steps of routines -/

theorem Follows.hand_of_done {α : Type} {a : α} (h : Follows event hand (.done a)) :
    hand = .empty := by
  cases h
  rfl

/-- One step of a routine that works on steps. -/
theorem Follows.move {α : Type} {m : Task Session α} (hm : Follows event hand m)
    (h : Tracked lost (hand ::ₘ hands) s vm)
    (hnext : (m.move Vm.serve s vm).2.2.nextRequest ≠ 0) :
    ∃ hand', Follows event hand' (m.move Vm.serve s vm).1 ∧
      Tracked (fun t r => lost t r ∨
          s.steps.get? t = some r ∧ (m.move Vm.serve s vm).2.1.Forgot event t r)
        (hand' ::ₘ hands) (m.move Vm.serve s vm).2.1 (m.move Vm.serve s vm).2.2 := by
  cases hm with
  | done a => exact ⟨.empty, .done a, h.none_lost⟩
  | @ask c k hc hk =>
    exact ⟨.empty, hk _, (h.of_answer hc hnext).none_lost⟩
  | @create t size depth k herror hok =>
    by_cases ht : vm.threads.contains t
    · have hanswer : Vm.serve (.createStep t size depth) vm =
          (.ok vm.nextRequest, (vm.addRequest (.step t size depth)).2) := by
        simp only [Vm.serve, Vm.answer, ht, if_true]
        rfl
      simp only [Routine.move, hanswer] at hnext ⊢
      exact ⟨_, hok _, (h.of_empty_cons.addRequest hnext).none_lost⟩
    · have hanswer : Vm.serve (.createStep t size depth) vm = (.error (.invalidThread t), vm) := by
        simp only [Vm.serve, Vm.answer, ht, Bool.false_eq_true, if_false]
      simp only [Routine.move, hanswer]
      exact ⟨.empty, herror _, h.none_lost⟩
  | @delete r k hk => exact ⟨.empty, hk _, h.deleteRequest.empty_cons.none_lost⟩
  | block after hchange hnext' => exact ⟨after s, hnext' s, h.change (hchange s)⟩

theorem Routine.Aside.move {α : Type} {m : Task Session α} (hm : Aside m)
    (h : Tracked lost hands s vm) (hnext : (m.move Vm.serve s vm).2.2.nextRequest ≠ 0) :
    Tracked lost hands (m.move Vm.serve s vm).2.1 (m.move Vm.serve s vm).2.2 := by
  cases m with
  | done a => exact h
  | request c k =>
    exact h.of_answer hm.1 hnext
  | update f k => exact h.of_steps (Aside.begin (m := .update f k) hm s).1

namespace Loop

def Works (hand : Hand) : Loop → Prop
  | handling _ e now _ => Follows (some e) hand now
  | resuming now => hand = .empty ∧ Routine.Aside now
  | _ => hand = .empty

theorem works_afterEvent {set : EventSet} {e : TargetEvent} {later : List TargetEvent}
    {now : Task Session Bool} (h : Follows (some e) hand now) :
    (afterEvent set e later now).Works hand := by
  refine of_afterEvent h fun goesOn hdone => ?_
  subst hdone
  cases h
  exact ⟨rfl, rfl⟩

theorem works_afterResume {now : Task Session Bool} (h : Routine.Aside now) :
    (afterResume now).Works .empty :=
  of_afterResume ⟨rfl, h⟩ fun _ _ => ⟨rfl, rfl⟩

/-- One step of the loop, which loses records only by the event that it handles. -/
theorem Works.step {loop : Loop} (hl : loop.Works hand) (h : Tracked lost (hand ::ₘ hands) s vm)
    (hnext : (loop.step s vm).2.2.nextRequest ≠ 0) :
    ∃ hand', (loop.step s vm).1.Works hand' ∧
      Tracked (fun t r => lost t r ∨ s.steps.get? t = some r ∧
          ∃ e, loop.event? = some e ∧ (loop.step s vm).2.1.Forgot (some e) t r)
        (hand' ::ₘ hands) (loop.step s vm).2.1 (loop.step s vm).2.2 := by
  have hquiet {loop : Loop} (hevent : loop.event? = none) {hands : Multiset Hand} {s s' : Session}
      {vm : Vm} (h : Tracked lost hands s' vm) :
      Tracked (fun t r => lost t r ∨ s.steps.get? t = some r ∧
        ∃ e, loop.event? = some e ∧ s'.Forgot (some e) t r) hands s' vm := by
    refine h.congr fun t r => ⟨?_, .inl⟩
    rintro (hlost | ⟨-, e, he, -⟩)
    · exact hlost
    · rw [hevent] at he
      cases he
  have hhandled {loop : Loop} {e : TargetEvent} (hevent : loop.event? = some e)
      {hands : Multiset Hand} {s s' : Session} {vm : Vm}
      (h : Tracked (fun t r => lost t r ∨ s.steps.get? t = some r ∧ s'.Forgot (some e) t r)
        hands s' vm) :
      Tracked (fun t r => lost t r ∨ s.steps.get? t = some r ∧
        ∃ e, loop.event? = some e ∧ s'.Forgot (some e) t r) hands s' vm := by
    refine h.congr fun t r => or_congr_right (and_congr_right fun _ => ?_)
    rw [hevent]
    constructor
    · rintro ⟨e', he, hforgot⟩
      cases he
      exact hforgot
    · exact fun hforgot => ⟨e, rfl, hforgot⟩
  cases loop with
  | reading =>
    obtain rfl : hand = .empty := hl
    simp only [Loop.step]
    cases hr : vm.reports with
    | nil => exact ⟨.empty, rfl, hquiet rfl h⟩
    | cons r reports =>
      have hbooks : vm.SameBooks { vm with reports } := ⟨rfl, rfl⟩
      have hread := h.of_books hbooks
      cases r with
      | events set => exact ⟨.empty, rfl, hquiet rfl hread⟩
      | hangUp => exact ⟨.empty, rfl, hquiet rfl (hread.of_steps s.aside_disconnected)⟩
  | ready set later =>
    obtain rfl : hand = .empty := hl
    cases later with
    | nil =>
      obtain ⟨hsteps, haside⟩ := (Session.aside_resumeAfter set).begin s
      exact ⟨.empty, works_afterResume haside, hquiet rfl (h.of_steps hsteps)⟩
    | cons e later =>
      obtain ⟨hand', hchange, hfollows⟩ := (Session.follows_handleEvent e).advance s
      exact ⟨hand', works_afterEvent hfollows, hhandled rfl (h.change hchange)⟩
  | handling set e now later =>
    obtain ⟨hand', hfollows, htracked⟩ := Follows.move hl h hnext
    exact ⟨hand', works_afterEvent hfollows, hhandled rfl htracked⟩
  | resuming now =>
    obtain ⟨rfl, haside⟩ := hl
    have hrest := Routine.Within.move haside Vm.serve (fun _ => .rfl) (fun _ _ _ => .trans) s vm
    exact ⟨.empty, works_afterResume hrest.2, hquiet rfl (Routine.Aside.move haside h hnext)⟩
  | ended =>
    obtain rfl : hand = .empty := hl
    exact ⟨.empty, rfl, hquiet rfl h⟩

end Loop

/-! ## Schedules -/

namespace Scene

/-- The operations in flight and the loop have those requests in hand that are neither recorded nor
lost. -/
def Keeps (lost : ThreadId → RequestId → Prop) (c : Scene) : Prop :=
  ∃ (held : List Hand) (hand : Hand), List.Forall₂ (Follows none) held c.calls ∧
    c.loop.Works hand ∧ Tracked lost (hand ::ₘ held) c.session c.vm

variable {c : Scene}

theorem Keeps.congr (hlost : ∀ t r, lost' t r ↔ lost t r) (h : c.Keeps lost) :
    c.Keeps lost' := by
  obtain ⟨held, hand, hcalls, hloop, htracked⟩ := h
  exact ⟨held, hand, hcalls, hloop, htracked.congr hlost⟩

theorem Keeps.join (h : c.Keeps lost) {m : Task Session (Option DebugError)}
    (hm : Follows none .empty m) : { c with calls := c.calls ++ [m] }.Keeps lost := by
  obtain ⟨held, hand, hcalls, hloop, htracked⟩ := h
  refine ⟨held ++ [.empty], hand, List.rel_append hcalls (.cons hm .nil), hloop, ?_⟩
  have hperm : ((held ++ [.empty] : List Hand) : Multiset Hand) =
      .empty ::ₘ (held : Multiset Hand) := Multiset.coe_eq_coe.2 List.perm_append_comm
  rw [hperm, Multiset.cons_swap]
  exact htracked.empty_cons

theorem Keeps.happen (h : c.Keeps lost) {vm : Vm} (hbooks : c.vm.SameBooks vm) :
    { c with vm }.Keeps lost := by
  obtain ⟨held, hand, hcalls, hloop, htracked⟩ := h
  exact ⟨held, hand, hcalls, hloop, htracked.of_books hbooks⟩

theorem forall₂_set {α β : Type} {R : α → β → Prop} {as : List α} {bs : List β} {n : Nat} {a : α}
    {b : β} (h : List.Forall₂ R as bs) (hab : R a b) :
    List.Forall₂ R (as.set n a) (bs.set n b) := by
  induction h generalizing n with
  | nil => exact .nil
  | cons hhead htail ih =>
    cases n with
    | zero => exact .cons hab htail
    | succ n => exact .cons hhead ih

theorem Keeps.go (h : c.Keeps lost) (n : Nat) (hnext : (c.step (.go n)).vm.nextRequest ≠ 0) :
    (c.step (.go n)).Keeps fun t r => lost t r ∨ c.Loses (.choice (.go n)) t r := by
  obtain ⟨held, hand, hcalls, hloop, htracked⟩ := h
  cases hn : c.calls[n]? with
  | none =>
    simp only [Loses, next, step_go_none hn]
    exact ⟨held, hand, hcalls, hloop, htracked.none_lost⟩
  | some m =>
    simp only [Loses, next, step_go_some hn] at hnext ⊢
    obtain ⟨hlt, hget⟩ := List.getElem?_eq_some_iff.1 hn
    have hheld : n < held.length := hcalls.length_eq ▸ hlt
    have hfollows : Follows none held[n] m := by
      rw [← hget]
      exact hcalls.get hheld hlt
    have hsplit : (held : Multiset Hand) = held[n] ::ₘ (held.eraseIdx n : Multiset Hand) :=
      Multiset.coe_eq_coe.2 (List.getElem_cons_eraseIdx_perm hheld).symm
    rw [hsplit, Multiset.cons_swap] at htracked
    obtain ⟨hand', hfollows', htracked'⟩ := hfollows.move htracked hnext
    refine ⟨held.set n hand', hand, forall₂_set hcalls hfollows', hloop, ?_⟩
    have hset : ((held.set n hand' : List Hand) : Multiset Hand) =
        hand' ::ₘ (held.eraseIdx n : Multiset Hand) :=
      Multiset.coe_eq_coe.2 (List.set_perm_cons_eraseIdx hheld hand')
    rw [hset, Multiset.cons_swap]
    exact htracked'

/-- One turn, and what it loses. -/
theorem Keeps.next (h : c.Keeps lost) (x : Turn) (hnext : (c.next x).vm.nextRequest ≠ 0) :
    (c.next x).Keeps fun t r => lost t r ∨ c.Loses x t r := by
  have hquiet {c' : Scene} (hx : ∀ t r, ¬c.Loses x t r) (h : c'.Keeps lost) :
      c'.Keeps fun t r => lost t r ∨ c.Loses x t r :=
    h.congr fun t r => ⟨fun h => h.resolve_right (hx t r), .inl⟩
  cases x with
  | errand e =>
    refine hquiet (fun t r h => h.2) (h.join ?_)
    exact (looks_errand e).aside.follows
  | report set => exact hquiet (fun t r h => h.2) (h.happen (c.vm.reportSet_books set))
  | choice x =>
    cases x with
    | call o => exact hquiet (fun t r h => h.2) (h.join (follows_operation o))
    | target x => exact hquiet (fun t r h => h.2) (h.happen (x.apply_books c.vm))
    | go n => exact h.go n hnext
    | loop =>
      obtain ⟨held, hand, hcalls, hloop, htracked⟩ := h
      obtain ⟨hand', hloop', htracked'⟩ := hloop.step htracked hnext
      exact ⟨held, hand', hcalls, hloop', htracked'⟩

/-- No request for a step is recorded, filed with the target or on its way. -/
structure Unstepped (c : Scene) : Prop where
  calls : c.calls = []
  loop : c.loop = .reading
  steps : c.session.steps = .empty
  target : ∀ r, c.vm.stepThread? r = none

theorem Unstepped.keeps (hc : c.Unstepped) : c.Keeps (c.Lost []) := by
  refine ⟨[], .empty, ?_, ?_, ?_⟩
  · rw [hc.calls]
    exact .nil
  · rw [hc.loop]
    exact rfl
  · have hclaimed : c.session.claimed (.empty ::ₘ ([] : List Hand)) = 0 := by
      simp only [Session.claimed, hc.steps]
      rfl
    refine ⟨fun r t hr => ?_, ?_, ?_, ?_, ?_⟩
    · rw [hc.target r] at hr
      cases hr
    · rw [hclaimed]
      exact Multiset.nodup_zero
    · rw [hclaimed]
      exact fun r hr => (Multiset.notMem_zero r hr).elim
    · exact fun t r hlost => absurd hlost (c.lost_nil t r)
    · exact fun t r hlost => absurd hlost (c.lost_nil t r)

theorem Unstepped.keeps_play (hc : c.Unstepped) {turns : List Turn}
    (hnumbers : ∀ xs, xs <+: turns → (c.play xs).vm.nextRequest ≠ 0) :
    (c.play turns).Keeps (c.Lost turns) := by
  refine play_induction (P := fun xs c' => c'.Keeps (c.Lost xs)) c turns hc.keeps
    fun xs x hxs hkeeps => ?_
  have hnext := hnumbers _ hxs
  rw [play_snoc] at hnext
  exact (hkeeps.next x hnext).congr fun t r => lost_snoc

theorem Keeps.idle (h : c.Keeps lost) (hi : c.Idle) :
    ∃ hands : Multiset Hand, (∀ hand ∈ hands, hand = .empty) ∧
      Tracked lost hands c.session c.vm := by
  obtain ⟨held, hand, hcalls, hloop, htracked⟩ := h
  have hhand : hand = .empty := by
    cases hl : c.loop with
    | reading | ended => rw [hl] at hloop; exact hloop
    | ready | handling | resuming => have := hi.2; rw [hl] at this; exact this.elim
  refine ⟨_, fun x hx => ?_, htracked⟩
  rcases Multiset.mem_cons.1 hx with rfl | hx
  · exact hhand
  · obtain ⟨n, hn, rfl⟩ := List.mem_iff_getElem.1 (Multiset.mem_coe.1 hx)
    have hlt : n < c.calls.length := hcalls.length_eq ▸ hn
    obtain ⟨r, hr⟩ := hi.1 _ (List.getElem_mem hlt)
    have hfollows : Follows none held[n] c.calls[n] := hcalls.get hn hlt
    rw [hr] at hfollows
    exact hfollows.hand_of_done

/-- When nothing is in flight, a request for a step that is filed with the target is the recorded
one of its thread, unless its record was lost. -/
theorem recorded_iff_not_lost (hc : c.Unstepped) {turns : List Turn}
    (hnumbers : ∀ xs, xs <+: turns → (c.play xs).vm.nextRequest ≠ 0) (hidle : (c.play turns).Idle)
    {t : ThreadId} {r : RequestId} (hr : (c.play turns).vm.stepThread? r = some t) :
    (c.play turns).session.steps.get? t = some r ↔ ¬c.Lost turns t r := by
  obtain ⟨hands, hempty, htracked⟩ := (hc.keeps_play hnumbers).idle hidle
  constructor
  · intro hget hlost
    exact htracked.lostApart t r hlost (Session.mem_claimed_of_get? hget _)
  · intro hlost
    rcases htracked.known r t hr with hget | hmade | htaken | hlost'
    · exact hget
    · cases hempty _ hmade
    · cases hempty _ htaken
    · exact absurd hlost' hlost

theorem numbers_of_inits {turns : List Turn}
    (h : ∀ xs ∈ turns.inits, (c.play xs).vm.nextRequest ≠ 0) :
    ∀ xs, xs <+: turns → (c.play xs).vm.nextRequest ≠ 0 :=
  fun xs hxs => h xs ((List.mem_inits _ _).2 hxs)

theorem unstepped_sample : sample.Unstepped where
  calls := rfl
  loop := rfl
  steps := rfl
  target r := by
    cases h : sample.vm.stepThread? r with
    | none => rfl
    | some t =>
      obtain ⟨q, hq, hkind⟩ := Option.bind_eq_some_iff.1 h
      have hstart := (fresh_sample.requests r q hq).2
      rcases hstart with hstart | hstart <;> rw [hstart] at hkind <;> cases hkind

/-- A thread is reported to have made a step when it has already begun the next one. -/
def staleStep : List Turn :=
  ([.call .suspend, .go 0, .go 0, .go 0,
    .call (.step (some 1) .over .line), .go 1, .go 1, .go 1, .go 1, .go 1, .go 1, .go 1,
    .target (.finishStep 1 ⟨1, 2, 3, 0⟩),
    .call (.step (some 1) .over .line), .go 2, .go 2, .go 2, .go 2, .go 2, .go 2, .go 2, .go 2,
    .loop, .loop, .loop, .loop, .loop, .loop, .loop] : List Choice).map .choice

theorem idle_staleStep : (sample.play staleStep).Idle := by
  have hcalls : (sample.play staleStep).calls = [.done none, .done none, .done none] := rfl
  refine ⟨?_, trivial⟩
  simp [hcalls]

theorem lost_staleStep :
    (sample.play staleStep).vm.stepThread? 4 = some 1 ∧ sample.Lost staleStep 1 4 := by
  refine ⟨rfl, ?_⟩
  by_contra hlost
  have hget := (recorded_iff_not_lost unstepped_sample (numbers_of_inits (by decide +kernel))
    idle_staleStep rfl).2 hlost
  cases hget

/-- A request for a step can be left on the target with no record of it. -/
theorem not_recorded_after_stale_step :
    ¬∀ (c : Scene) (turns : List Turn) (t : ThreadId) (r : RequestId), c.Unstepped →
      (∀ xs, xs <+: turns → (c.play xs).vm.nextRequest ≠ 0) → (c.play turns).Idle →
      (c.play turns).session.state.isTerminal = false →
      (c.play turns).vm.stepThread? r = some t → (c.play turns).session.steps.get? t = some r := by
  intro h
  have hget := h sample staleStep 1 4 unstepped_sample (numbers_of_inits (by decide +kernel))
    idle_staleStep rfl rfl
  cases hget

end Scene

end JvmDebug
