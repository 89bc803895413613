import JvmDebug.Session
import Mathlib.Data.List.Induction

/-!
The way of a session's events from the one who emits them to those who poll and wait. The buffer
holds the latest of them without a gap, every event goes to one consumer at most, and the mark for
dropped events tells whether one was pushed out since the buffer was last cleared.
-/
namespace JvmDebug

/-! ## Taking events out -/

/-- What a consumer with a limit and a filter is handed, and what stays in the queue. A limit of
zero is none. -/
structure EventBuffer.Taken (limit : Nat) (filter : List EventKind)
    (before taken after : List DebugEvent) : Prop where
  matching : taken = if limit = 0 then before.filter (DebugEvent.passes filter)
    else (before.filter (DebugEvent.passes filter)).take limit
  removed : ∃ gone, before = gone ++ after ∧ gone.filter (DebugEvent.passes filter) = taken ∧
    if limit ≠ 0 ∧ taken.length = limit then gone.getLast? = taken.getLast? else after = []

namespace EventBuffer

theorem getLast?_cons_of_eq {e : DebugEvent} {gone taken : List DebugEvent} (hne : taken ≠ [])
    (h : gone.getLast? = taken.getLast?) : (e :: gone).getLast? = taken.getLast? := by
  cases gone with
  | nil =>
    have hnil : taken = [] := by simpa using h.symm
    exact absurd hnil hne
  | cons g gone => rw [List.getLast?_cons_cons, h]

section
variable {limit : Nat} {filter : List EventKind} {e : DebugEvent}
  {events taken after : List DebugEvent}

theorem Taken.last (he : e.passes filter) : Taken 1 filter (e :: events) [e] events :=
  ⟨by simp [he], [e], by simp [he]⟩

/-- The rest is taken with the limit lowered by one, which leaves no limit as it is. -/
theorem Taken.next (he : e.passes filter) (hone : limit ≠ 1)
    (h : Taken (limit - 1) filter events taken after) :
    Taken limit filter (e :: events) (e :: taken) after := by
  obtain ⟨hmatching, gone, hsplit, hgone, hend⟩ := h
  have hremoved : e :: events = e :: gone ++ after := by rw [List.cons_append, ← hsplit]
  have hpassed : (e :: gone).filter (DebugEvent.passes filter) = e :: taken := by simp [he, hgone]
  match limit with
  | 0 => exact ⟨by simpa [he] using hmatching, e :: gone, hremoved, hpassed, by simpa using hend⟩
  | limit + 2 =>
    rw [Nat.add_succ_sub_one] at hmatching hend
    refine ⟨by simpa [he] using hmatching, e :: gone, hremoved, hpassed, ?_⟩
    by_cases hreached : taken.length = limit + 1
    · have hne : taken ≠ [] := List.ne_nil_of_length_eq_add_one hreached
      rw [if_pos ⟨Nat.succ_ne_zero _, hreached⟩] at hend
      rw [if_pos ⟨Nat.succ_ne_zero _, by rw [List.length_cons, hreached]⟩,
        getLast?_cons_of_eq hne hend, getLast?_cons_of_eq hne rfl]
    · rw [if_neg fun h => hreached h.2] at hend
      rw [if_neg fun h => hreached (Nat.succ.inj h.2)]
      exact hend

theorem Taken.skip (he : ¬e.passes filter) (h : Taken limit filter events taken after) :
    Taken limit filter (e :: events) taken after := by
  obtain ⟨hmatching, gone, hsplit, hgone, hend⟩ := h
  refine ⟨by simpa [he] using hmatching, e :: gone, by rw [List.cons_append, ← hsplit],
    by simp [he, hgone], ?_⟩
  by_cases hreached : limit ≠ 0 ∧ taken.length = limit
  · rw [if_pos hreached] at hend ⊢
    refine getLast?_cons_of_eq ?_ hend
    rintro rfl
    exact hreached.1 hreached.2.symm
  · rw [if_neg hreached] at hend ⊢
    exact hend

end

theorem taken_takePassing (limit : Nat) (filter : List EventKind) (events : List DebugEvent) :
    Taken limit filter events (takePassing filter limit events).1
      (takePassing filter limit events).2 := by
  induction events generalizing limit with
  | nil => exact ⟨by simp [takePassing], [], by simp [takePassing]⟩
  | cons e es ih =>
    unfold takePassing
    split
    · next he =>
      split
      · next hone =>
        subst hone
        exact .last he
      · next hone => exact (ih (limit - 1)).next he hone
    · next he => exact (ih limit).skip he

theorem Taken.sublist {limit : Nat} {filter : List EventKind}
    {before taken after : List DebugEvent} (h : Taken limit filter before taken after) :
    (taken ++ after).Sublist before := by
  obtain ⟨gone, hsplit, hgone, -⟩ := h.removed
  rw [hsplit, ← hgone]
  exact List.filter_sublist.append (List.Sublist.refl after)

theorem Taken.suffix {limit : Nat} {filter : List EventKind}
    {before taken after : List DebugEvent} (h : Taken limit filter before taken after) :
    after <:+ before := by
  obtain ⟨gone, hsplit, -⟩ := h.removed
  exact ⟨gone, hsplit.symm⟩

end EventBuffer

/-! ## Putting events in -/

namespace Session

def nextEvent (s : Session) (payload : Payload) : DebugEvent :=
  { sequence := s.sequence + 1, timestamp := s.clock, sessionId := s.id, payload }

/-- Emitting pushes events out of the buffer. -/
def Evicts (s : Session) (payload : Payload) : Prop :=
  ∃ gone, gone ≠ [] ∧
    s.events.events ++ [s.nextEvent payload] = gone ++ (s.emit payload).events.events

theorem dropped_emit {s : Session} (hcapacity : 1 ≤ s.events.capacity) (payload : Payload) :
    (s.emit payload).events.dropped = true ↔ s.events.dropped = true ∨ s.Evicts payload := by
  have hevents : (s.emit payload).events.events =
      s.events.events.drop (s.events.events.length + 1 - s.events.capacity) ++
        [s.nextEvent payload] := rfl
  have hdropped : (s.emit payload).events.dropped =
      (s.events.dropped || s.events.events.length + 1 - s.events.capacity != 0) := rfl
  have hexcess : s.Evicts payload ↔ s.events.events.length + 1 - s.events.capacity ≠ 0 := by
    constructor
    · rintro ⟨gone, hne, hsplit⟩ hzero
      rw [hevents, hzero, List.drop_zero] at hsplit
      have hlength := congrArg List.length hsplit
      simp only [List.length_append, List.length_singleton] at hlength
      exact hne (List.eq_nil_of_length_eq_zero (by omega))
    · intro hexcess
      refine ⟨s.events.events.take (s.events.events.length + 1 - s.events.capacity), ?_, ?_⟩
      · intro hnil
        have hlength := congrArg List.length hnil
        simp only [List.length_take, List.length_nil] at hlength
        omega
      · rw [hevents, ← List.append_assoc, List.take_append_drop]
  rw [hdropped, hexcess]
  simp

end Session

/-! ## Runs -/

/-- What is done with the events of a session. Whatever else is done to the session leaves the
buffer and the counter alone. -/
inductive EventUse
  | emit (payload : Payload)
  | poll (limit : Nat) (filter : List EventKind)
  | pop (filter : List EventKind)
  | clear
  | other (f : Session → Session)
      (apart : ∀ s, (f s).events = s.events ∧ (f s).sequence = s.sequence)

/-- A session with the events it has emitted so far and those that each consumer was handed. -/
structure Delivery where
  session : Session
  emitted : List DebugEvent := []
  handed : List (List DebugEvent) := []

namespace Delivery

def step (d : Delivery) : EventUse → Delivery
  | .emit payload =>
    { d with
      session := d.session.emit payload
      emitted := d.emitted ++ [d.session.nextEvent payload] }
  | .poll limit filter =>
    let (taken, session) := d.session.poll limit filter
    { d with session, handed := d.handed ++ [taken] }
  | .pop filter =>
    let (taken, session) := d.session.pop filter
    { d with session, handed := d.handed ++ [taken.toList] }
  | .clear => { d with session := d.session.clearEvents }
  | .other f _ => { d with session := f d.session }

def run (d : Delivery) (uses : List EventUse) : Delivery := uses.foldl step d

theorem run_snoc (d : Delivery) (uses : List EventUse) (u : EventUse) :
    d.run (uses ++ [u]) = (d.run uses).step u := by
  simp [run]

/-- An event was pushed out of the buffer, and the buffer was not cleared afterwards. -/
def Overflowed (start : Delivery) (uses : List EventUse) : Prop :=
  ∃ before payload after, uses = before ++ .emit payload :: after ∧
    (∀ u ∈ after, u ≠ .clear) ∧ (start.run before).session.Evicts payload

theorem overflowed_snoc (start : Delivery) (uses : List EventUse) (u : EventUse) :
    start.Overflowed (uses ++ [u]) ↔ u ≠ .clear ∧ (start.Overflowed uses ∨
      ∃ payload, u = .emit payload ∧ (start.run uses).session.Evicts payload) := by
  constructor
  · rintro ⟨before, payload, after, hsplit, hafter, hevicts⟩
    induction after using List.reverseRecOn with
    | nil =>
      obtain ⟨rfl, hu⟩ := List.append_inj' hsplit rfl
      obtain rfl : u = .emit payload := by simpa using hu
      exact ⟨by simp, .inr ⟨payload, rfl, hevicts⟩⟩
    | append_singleton after last _ =>
      rw [← List.cons_append, ← List.append_assoc] at hsplit
      obtain ⟨rfl, hu⟩ := List.append_inj' hsplit rfl
      obtain rfl : u = last := by simpa using hu
      refine ⟨hafter u (by simp), .inl ⟨before, payload, after, rfl, ?_, hevicts⟩⟩
      intro v hv
      exact hafter v (List.mem_append_left _ hv)
  · rintro ⟨hu, ⟨before, payload, after, rfl, hafter, hevicts⟩ | ⟨payload, rfl, hevicts⟩⟩
    · refine ⟨before, payload, after ++ [u], by simp, ?_, hevicts⟩
      intro v hv
      rcases List.mem_append.1 hv with hv | hv
      · exact hafter v hv
      · rw [List.mem_singleton.1 hv]
        exact hu
    · exact ⟨uses, payload, [], rfl, by simp, hevicts⟩

/-- Events are numbered from 1 on; the buffer holds the latest of them, no more than its capacity;
it is marked if one was pushed out since it was cleared; no event is handed out twice or stays after
it was handed out; and a poll takes what it should. -/
structure Orderly (capacity : Nat) (start : Delivery) (uses : List EventUse) (d : Delivery) :
    Prop where
  numbered : d.emitted.map DebugEvent.sequence =
    (List.range' 1 d.emitted.length).map UInt64.ofNat
  latest : d.session.events.events <:+ d.emitted
  consecutive : d.session.events.events.map DebugEvent.sequence =
    (List.range' (d.emitted.length - d.session.events.events.length + 1)
      d.session.events.events.length).map UInt64.ofNat
  bounded : d.session.events.events.length ≤ capacity
  dropped : d.session.events.dropped = true ↔ start.Overflowed uses
  once : (d.handed.flatten ++ d.session.events.events).Sublist d.emitted
  polled : ∀ limit filter, EventBuffer.Taken limit filter d.session.events.events
    (d.session.poll limit filter).1 (d.session.poll limit filter).2.events.events

/-- What every use keeps. -/
structure Kept (capacity : Nat) (start : Delivery) (uses : List EventUse) (d : Delivery) :
    Prop where
  numbered : d.emitted.map DebugEvent.sequence =
    (List.range' 1 d.emitted.length).map UInt64.ofNat
  counter : d.session.sequence = UInt64.ofNat d.emitted.length
  latest : d.session.events.events <:+ d.emitted
  positive : 1 ≤ capacity
  capacity_eq : d.session.events.capacity = capacity
  bounded : d.session.events.events.length ≤ capacity
  dropped : d.session.events.dropped = true ↔ start.Overflowed uses
  once : (d.handed.flatten ++ d.session.events.events).Sublist d.emitted

namespace Kept
variable {capacity : Nat} {start d : Delivery} {uses : List EventUse}

theorem emit (h : Kept capacity start uses (start.run uses)) (payload : Payload) :
    Kept capacity start (uses ++ [.emit payload]) ((start.run uses).step (.emit payload)) := by
  generalize hd : start.run uses = d at h ⊢
  have hevents : (d.session.emit payload).events.events =
      d.session.events.events.drop
        (d.session.events.events.length + 1 - d.session.events.capacity) ++
        [d.session.nextEvent payload] := rfl
  have hnext : (d.session.nextEvent payload).sequence = UInt64.ofNat (1 + d.emitted.length) := by
    show d.session.sequence + 1 = _
    rw [h.counter, Nat.add_comm, UInt64.ofNat_add]
    rfl
  refine ⟨?_, ?_, ?_, h.positive, h.capacity_eq, ?_, ?_, ?_⟩
  · show (d.emitted ++ [d.session.nextEvent payload]).map DebugEvent.sequence = _
    have hlength : (d.emitted ++ [d.session.nextEvent payload]).length =
        d.emitted.length + 1 := by simp
    show _ = (List.range' 1 (d.emitted ++ [d.session.nextEvent payload]).length).map _
    rw [hlength, List.range'_concat, List.map_append, List.map_append, h.numbered]
    simp [hnext]
  · show d.session.sequence + 1 = UInt64.ofNat (d.emitted ++ [d.session.nextEvent payload]).length
    rw [h.counter, List.length_append, UInt64.ofNat_add]
    rfl
  · show (d.session.emit payload).events.events <:+ d.emitted ++ [d.session.nextEvent payload]
    rw [hevents]
    obtain ⟨lost, hlost⟩ := (List.drop_suffix _ d.session.events.events).trans h.latest
    exact ⟨lost, by rw [← List.append_assoc, hlost]⟩
  · show (d.session.emit payload).events.events.length ≤ capacity
    have hpositive := h.positive
    rw [hevents, List.length_append, List.length_drop, h.capacity_eq, List.length_singleton]
    omega
  · show (d.session.emit payload).events.dropped = true ↔ _
    rw [Session.dropped_emit (by rw [h.capacity_eq]; exact h.positive), h.dropped,
      overflowed_snoc, hd]
    simp
  · show (d.handed.flatten ++ (d.session.emit payload).events.events).Sublist
      (d.emitted ++ [d.session.nextEvent payload])
    rw [hevents, ← List.append_assoc]
    refine List.Sublist.append ?_ (List.Sublist.refl _)
    exact ((List.Sublist.refl _).append (List.drop_sublist _ _)).trans h.once

/-- Events leave the buffer at the front, and some of them are handed to a consumer. -/
theorem take (h : Kept capacity start uses d) {u : EventUse} {taken rest : List DebugEvent}
    (hclear : u ≠ .clear) (hemit : ∀ payload, u ≠ .emit payload)
    (hsuffix : rest <:+ d.session.events.events)
    (hsublist : (taken ++ rest).Sublist d.session.events.events) :
    Kept capacity start (uses ++ [u])
      { d with
        session := { d.session with events := { d.session.events with events := rest } }
        handed := d.handed ++ [taken] } where
  numbered := h.numbered
  counter := h.counter
  latest := hsuffix.trans h.latest
  positive := h.positive
  capacity_eq := h.capacity_eq
  bounded := Nat.le_trans hsuffix.length_le h.bounded
  dropped := by
    show d.session.events.dropped = true ↔ _
    rw [h.dropped, overflowed_snoc]
    constructor
    · intro ho
      exact ⟨hclear, .inl ho⟩
    · rintro ⟨-, ho | ⟨payload, hu, -⟩⟩
      · exact ho
      · exact absurd hu (hemit payload)
  once := by
    show ((d.handed ++ [taken]).flatten ++ rest).Sublist d.emitted
    rw [List.flatten_append, List.flatten_singleton, List.append_assoc]
    exact ((List.Sublist.refl _).append hsublist).trans h.once

theorem poll (h : Kept capacity start uses d) (limit : Nat) (filter : List EventKind) :
    Kept capacity start (uses ++ [.poll limit filter]) (d.step (.poll limit filter)) := by
  have htaken := EventBuffer.taken_takePassing limit filter d.session.events.events
  exact h.take (by simp) (by simp) htaken.suffix htaken.sublist

theorem pop (h : Kept capacity start uses d) (filter : List EventKind) :
    Kept capacity start (uses ++ [.pop filter]) (d.step (.pop filter)) := by
  have htaken := EventBuffer.taken_takePassing 1 filter d.session.events.events
  have hhead : (EventBuffer.takePassing filter 1 d.session.events.events).1.head?.toList =
      (EventBuffer.takePassing filter 1 d.session.events.events).1 := by
    have hlength : (EventBuffer.takePassing filter 1 d.session.events.events).1.length ≤ 1 := by
      rw [htaken.matching, if_neg Nat.one_ne_zero]
      exact List.length_take_le _ _
    revert hlength
    cases (EventBuffer.takePassing filter 1 d.session.events.events).1 with
    | nil => intro _; rfl
    | cons e es =>
      intro hlength
      have hnil : es = [] := List.eq_nil_of_length_eq_zero (by simpa using hlength)
      rw [hnil]
      rfl
  have hkept := h.take (u := .pop filter) (by simp) (by simp) htaken.suffix htaken.sublist
  rw [← hhead] at hkept
  exact hkept

theorem clear (h : Kept capacity start uses d) :
    Kept capacity start (uses ++ [.clear]) (d.step .clear) where
  numbered := h.numbered
  counter := h.counter
  latest := List.nil_suffix
  positive := h.positive
  capacity_eq := h.capacity_eq
  bounded := Nat.zero_le _
  dropped := by
    rw [overflowed_snoc]
    simp [step, Session.clearEvents, EventBuffer.clear]
  once := by
    show (d.handed.flatten ++ []).Sublist d.emitted
    rw [List.append_nil]
    exact (List.sublist_append_left _ _).trans h.once

theorem other (h : Kept capacity start uses d) (f : Session → Session)
    (apart : ∀ s, (f s).events = s.events ∧ (f s).sequence = s.sequence) :
    Kept capacity start (uses ++ [.other f apart]) (d.step (.other f apart)) := by
  obtain ⟨hevents, hsequence⟩ := apart d.session
  refine ⟨h.numbered, hsequence.trans h.counter, ?_, h.positive, ?_, ?_, ?_, ?_⟩
  · show (f d.session).events.events <:+ d.emitted
    rw [hevents]
    exact h.latest
  · show (f d.session).events.capacity = capacity
    rw [hevents]
    exact h.capacity_eq
  · show (f d.session).events.events.length ≤ capacity
    rw [hevents]
    exact h.bounded
  · show (f d.session).events.dropped = true ↔ _
    rw [hevents, h.dropped, overflowed_snoc]
    simp
  · show (d.handed.flatten ++ (f d.session).events.events).Sublist d.emitted
    rw [hevents]
    exact h.once

theorem step (h : Kept capacity start uses (start.run uses)) (u : EventUse) :
    Kept capacity start (uses ++ [u]) ((start.run uses).step u) := by
  cases u with
  | emit payload => exact h.emit payload
  | poll limit filter => exact h.poll limit filter
  | pop filter => exact h.pop filter
  | clear => exact h.clear
  | other f apart => exact h.other f apart

theorem run (h : Kept capacity start [] start) (uses : List EventUse) :
    Kept capacity start uses (start.run uses) := by
  induction uses using List.reverseRecOn with
  | nil => exact h
  | append_singleton uses u ih =>
    rw [run_snoc]
    exact ih.step u

theorem orderly (h : Kept capacity start uses d) : Orderly capacity start uses d := by
  refine ⟨h.numbered, h.latest, ?_, h.bounded, h.dropped, h.once, ?_⟩
  · have hle := h.latest.length_le
    have hdrop := congrArg (List.map DebugEvent.sequence) (List.suffix_iff_eq_drop.1 h.latest)
    rw [List.map_drop, h.numbered, ← List.map_drop, List.drop_range'] at hdrop
    rw [hdrop]
    congr 2 <;> omega
  · intro limit filter
    exact EventBuffer.taken_takePassing limit filter d.session.events.events

end Kept

/-- The events of a new session, however they are used. -/
theorem orderly_run (id : String) (settings : SessionConfig) (createdAt : UInt64)
    (ids : IdSupply) (uses : List EventUse) :
    Orderly (max 1 settings.bufferCapacity.toNat) ⟨Session.new id settings createdAt ids, [], []⟩
      uses (run ⟨Session.new id settings createdAt ids, [], []⟩ uses) := by
  refine Kept.orderly (Kept.run ⟨rfl, rfl, List.suffix_rfl, ?_, ?_, Nat.zero_le _, ?_, ?_⟩ uses)
  · exact Nat.le_max_left _ _
  · exact Nat.max_comm _ _
  · constructor
    · intro h
      cases h
    · rintro ⟨before, payload, after, hsplit, -⟩
      simp at hsplit
  · exact List.Sublist.refl _

end Delivery

end JvmDebug
