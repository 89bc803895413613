import JvmDebug.Proofs.FlagBooks
import Mathlib.Algebra.Group.Prod

/-!
The invariant behind the flags of one breakpoint. A request of it shows what the last call switched
it to, if a call has reached it since the flag was stored. Otherwise it shows the flag, or is still
owed a call, or a call for the breakpoint failed and the rest was given up.
-/
namespace JvmDebug

/-- If the target has the request, then with this flag. -/
def Vm.Shows (vm : Vm) (r : RequestId) (flag : Bool) : Prop :=
  ∀ q, vm.requests.get? r = some q → q.enabled = flag

/-- What is left of a call that switches a request, whether it arrives or not. -/
theorem NotedLink.shows_switch (l : NotedLink) (r : RequestId) (enabled : Bool) :
    (l.answer (.setRequestEnabled r enabled)).2.vm.nextRequest = l.vm.nextRequest ∧
    ((l.answer (.setRequestEnabled r enabled)).1.isOk →
      (l.answer (.setRequestEnabled r enabled)).2.vm.Shows r enabled) ∧
    ∀ q, ¬(r = q ∧ (l.answer (.setRequestEnabled r enabled)).1.isOk) → ∀ flag,
      l.vm.Shows q flag → (l.answer (.setRequestEnabled r enabled)).2.vm.Shows q flag := by
  rcases l.answer_cases (.setRequestEnabled r enabled) with ⟨⟨e, he⟩, hvm⟩ | ⟨hreply, hvm⟩
  · rw [he, hvm]
    exact ⟨rfl, (fun h => by cases h), fun q _ flag h => h⟩
  · rw [hreply, hvm]
    show (l.vm.switchRequest r enabled).2.nextRequest = _ ∧
      ((l.vm.switchRequest r enabled).1.isOk → (l.vm.switchRequest r enabled).2.Shows r enabled) ∧
      ∀ q, ¬(r = q ∧ (l.vm.switchRequest r enabled).1.isOk) → ∀ flag, l.vm.Shows q flag →
        (l.vm.switchRequest r enabled).2.Shows q flag
    simp only [Vm.switchRequest]
    split
    · refine ⟨rfl, fun _ q hq => ?_, fun q hne flag h q' hq' => ?_⟩
      · simp only [Dict.get?_modify, if_true] at hq
        obtain ⟨q₀, -, rfl⟩ := Option.map_eq_some_iff.1 hq
        rfl
      · have hqr : q ≠ r := fun h => hne ⟨h.symm, rfl⟩
        simp only [Dict.get?_modify, if_neg hqr] at hq'
        exact h q' hq'
    · exact ⟨rfl, (fun h => by cases h), fun q _ flag h => h⟩

/-! ## Resources -/

/-- Requests that were made and are not booked yet, and the requests that calls are owed for, those
of one breakpoint together. -/
abbrev Dues := Multiset RequestId × Multiset (List RequestId)

namespace Dues

def made (requests : List RequestId) : Dues := (requests, 0)

def owed (requests : List RequestId) : Dues := (0, {requests})

@[simp] theorem made_nil : made [] = 0 := rfl

theorem made_append (rs qs : List RequestId) : made (rs ++ qs) = made rs + made qs := rfl

def Owes (k : Dues) (r : RequestId) : Prop := ∃ rs ∈ k.2, r ∈ rs

variable {k : Dues} {rs : List RequestId} {r : RequestId}

@[simp] theorem owes_owed : (owed rs + k).Owes r ↔ r ∈ rs ∨ k.Owes r := by
  simp [Owes, owed]

@[simp] theorem owes_made : (made rs + k).Owes r ↔ k.Owes r := by
  simp [Owes, made]

end Dues

open Dues

/-- Somebody besides its maker has to do with the request. -/
def Known (k : Dues) (s : Session) (l : NotedLink) (r : RequestId) : Prop :=
  (∃ y, r ∈ s.requestsOf y) ∨ k.Owes r ∨ ∃ n ∈ l.notes, n.request = r

section
variable {k : Dues} {s : Session} {l : NotedLink} {r : RequestId} {rs : List RequestId}

@[simp] theorem known_owed : Known (owed rs + k) s l r ↔ r ∈ rs ∨ Known k s l r := by
  simp only [Known, owes_owed]
  tauto

@[simp] theorem known_made : Known (made rs + k) s l r ↔ Known k s l r := by
  simp only [Known, owes_made]

theorem known_of_last? {flag : Bool} (h : l.last? r = some flag) : Known k s l r := by
  obtain ⟨n, hn, -⟩ := Option.map_eq_some_iff.1 h
  obtain ⟨hmem, hr⟩ := List.mem_filter.1 (List.mem_of_getLast? hn)
  exact .inr (.inr ⟨n, hmem, (by simpa using hr : n.request = r ∧ _).1⟩)

end

/-! ## The invariant -/

/-- Only its maker has to do with a request before it is booked, the requests of `x` are no other's,
and calls are owed for all of a breakpoint's requests at once or for none. Each of `x` shows what it
was last switched to, or the flag of `x` unless something is missing. -/
structure Agreeing (x : SpecRef) (k : Dues) (s : Session) (l : NotedLink) : Prop where
  below : ∀ r, Known k s l r → r < l.vm.nextRequest
  nodup : k.1.Nodup
  unbooked : ∀ r ∈ k.1, r < l.vm.nextRequest ∧ l.vm.Shows r true ∧ ¬Known k s l r
  apart : ∀ y, y ≠ x → ∀ r ∈ s.requestsOf y, r ∉ s.requestsOf x
  whole : ∀ rs ∈ k.2, (∀ r ∈ rs, r ∈ s.requestsOf x) ∨ ∀ r ∈ rs, r ∉ s.requestsOf x
  reached : ∀ r ∈ s.requestsOf x, ∀ flag, l.last? r = some flag → l.vm.Shows r flag
  unreached : ∀ flag requests, s.spec? x = some (flag, requests) → ∀ r ∈ requests,
    l.last? r = none → l.vm.Shows r flag ∨ k.Owes r ∨ l.Failed requests

namespace Agreeing
variable {x : SpecRef} {k : Dues} {s t : Session} {l l' : NotedLink}
variable {r : RequestId} {rs : List RequestId}

theorem of_fresh (hbreakpoints : s.breakpoints = {}) (hexceptions : s.exceptions = {})
    (hnotes : l.notes = []) : Agreeing x 0 s l := by
  have hspec (y : SpecRef) : s.spec? y = none := by
    cases y with
    | breakpoint id =>
      simp only [Session.spec?, hbreakpoints]
      rfl
    | exception id =>
      simp only [Session.spec?, hexceptions]
      rfl
  have hnone (y : SpecRef) : s.requestsOf y = [] := by
    rw [Session.requestsOf, hspec]
    rfl
  refine ⟨?_, Multiset.nodup_zero, ?_, ?_, ?_, ?_, ?_⟩
  · simp [Known, hnone, hnotes, Owes]
  · simp
  · simp [hnone]
  · simp
  · simp [hnone]
  · simp [hspec]

/-! ### The target moves -/

theorem known_congr (hnotes : l'.notes = l.notes) : Known k s l' r ↔ Known k s l r := by
  simp only [Known, hnotes]

theorem of_target (ha : Agreeing x k s l) (hnotes : l'.notes = l.notes)
    (hnext : l.vm.nextRequest ≤ l'.vm.nextRequest)
    (hshows : ∀ r, r < l.vm.nextRequest → ∀ flag, l.vm.Shows r flag → l'.vm.Shows r flag) :
    Agreeing x k s l' := by
  have hlast (r : RequestId) : l'.last? r = l.last? r := by
    simp only [NotedLink.last?, hnotes]
  have hmine (r : RequestId) (hr : r ∈ s.requestsOf x) : r < l.vm.nextRequest :=
    ha.below r (.inl ⟨x, hr⟩)
  refine {
    below := fun r hr => ?_
    nodup := ha.nodup
    unbooked := fun r hr => ?_
    apart := ha.apart
    whole := ha.whole
    reached := fun r hr flag h => hshows r (hmine r hr) flag (ha.reached r hr flag (hlast r ▸ h))
    unreached := fun flag requests hx r hr h => ?_ }
  · exact UInt32.lt_of_lt_of_le (ha.below r ((known_congr hnotes).1 hr)) hnext
  · obtain ⟨hlt, hon, hnot⟩ := ha.unbooked r hr
    exact ⟨UInt32.lt_of_lt_of_le hlt hnext, hshows r hlt _ hon,
      fun h => hnot ((known_congr hnotes).1 h)⟩
  · rcases ha.unreached flag requests hx r hr (hlast r ▸ h) with hon | howed | hfailed
    · refine .inl (hshows r (hmine r ?_) flag hon)
      rwa [Session.requestsOf_of_some hx]
    · exact .inr (.inl howed)
    · exact .inr (.inr (by simpa only [NotedLink.Failed, hnotes] using hfailed))

theorem of_sameBooks (ha : Agreeing x k s l) (hnotes : l'.notes = l.notes)
    (hvm : l.vm.SameBooks l'.vm) : Agreeing x k s l' := by
  refine ha.of_target hnotes (UInt32.le_of_eq hvm.nextRequest.symm) fun r _ flag h => ?_
  rwa [Vm.Shows, hvm.requests]

theorem addRequest (ha : Agreeing x k s l) {kind : RequestKind} (hnotes : l'.notes = l.notes)
    (hvm : l'.vm = (l.vm.addRequest kind).2) (hnext : l'.vm.nextRequest ≠ 0) :
    Agreeing x (made [l.vm.nextRequest] + k) s l' := by
  have hlt : l.vm.nextRequest < l'.vm.nextRequest := by
    rw [hvm] at hnext ⊢
    refine UInt32.lt_add_one fun h => hnext ?_
    simp only [Vm.addRequest, h]
    rfl
  have hget (r : RequestId) : l'.vm.requests.get? r =
      if r = l.vm.nextRequest then some ⟨l.vm.nextRequest, kind, true⟩ else l.vm.requests.get? r := by
    rw [hvm]
    exact Dict.get?_insert _ _ _ _
  have hkeep : Agreeing x k s l' := by
    refine ha.of_target hnotes (UInt32.le_of_lt hlt) fun r hr flag h q hq => ?_
    rw [hget, if_neg (UInt32.ne_of_lt hr)] at hq
    exact h q hq
  have hunknown : ¬Known k s l' l.vm.nextRequest := by
    intro h
    exact UInt32.lt_irrefl _ (ha.below l.vm.nextRequest ((known_congr hnotes).1 h))
  have hfresh : l.vm.nextRequest ∉ k.1 := fun h => UInt32.lt_irrefl _ (ha.unbooked _ h).1
  refine ⟨fun r hr => hkeep.below r (known_made.1 hr), ?_, fun r hr => ?_, hkeep.apart, ?_,
    hkeep.reached, ?_⟩
  · simpa [made] using ⟨hfresh, ha.nodup⟩
  · rw [known_made]
    have hr : r = l.vm.nextRequest ∨ r ∈ k.1 := by simpa [made] using hr
    rcases hr with rfl | hr
    · refine ⟨hlt, fun q hq => ?_, hunknown⟩
      rw [hget, if_pos rfl] at hq
      cases hq
      rfl
    · exact hkeep.unbooked r hr
  · simpa [made] using hkeep.whole
  · simpa only [owes_made] using hkeep.unreached

theorem drop_made (ha : Agreeing x (made rs + k) s l) : Agreeing x k s l where
  below r hr := ha.below r (known_made.2 hr)
  nodup := (Multiset.nodup_add.1 ha.nodup).2.1
  unbooked r hr := by
    obtain ⟨hlt, hon, hnot⟩ := ha.unbooked r (Multiset.mem_add.2 (.inr hr))
    exact ⟨hlt, hon, fun h => hnot (known_made.2 h)⟩
  apart := ha.apart
  whole := by simpa [made] using ha.whole
  reached := ha.reached
  unreached := by simpa only [owes_made] using ha.unreached

/-! ### Calls that switch requests -/

variable {enabled : Bool}

theorem known_of_switch {q : RequestId}
    (h : Known (owed rs + k) s (l.answer (.setRequestEnabled r enabled)).2 q) :
    Known (owed (r :: rs) + k) s l q := by
  rw [known_owed, List.mem_cons]
  rcases known_owed.1 h with h | h | h | ⟨n, hn, rfl⟩
  · exact .inl (.inr h)
  · exact .inr (.inl h)
  · exact .inr (.inr (.inl h))
  · rw [l.notes_switch, List.mem_append, List.mem_singleton] at hn
    rcases hn with hn | rfl
    · exact .inr (.inr (.inr ⟨n, hn, rfl⟩))
    · exact .inl (.inl rfl)

/-- One of the calls that are owed is made. If it fails, the request may not show the flag, but then
a call for its breakpoint has failed. -/
theorem switch (ha : Agreeing x (owed (r :: rs) + k) s l) :
    Agreeing x (owed rs + k) s (l.answer (.setRequestEnabled r enabled)).2 where
  below q h := (l.shows_switch r enabled).1 ▸ ha.below q (known_of_switch h)
  nodup := ha.nodup
  unbooked q hq := by
    obtain ⟨hnext, -, hothers⟩ := l.shows_switch r enabled
    obtain ⟨hlt, hon, hnot⟩ := ha.unbooked q hq
    refine ⟨hnext ▸ hlt, hothers q ?_ true hon, fun h => hnot (known_of_switch h)⟩
    rintro ⟨rfl, -⟩
    exact hnot (known_owed.2 (.inl List.mem_cons_self))
  apart := ha.apart
  whole qs hqs := by
    rcases Multiset.mem_add.1 hqs with hqs | hqs
    · obtain rfl : qs = rs := Multiset.mem_singleton.1 hqs
      refine (ha.whole (r :: qs) (Multiset.mem_add.2 (.inl ?_))).imp ?_ ?_
      · exact Multiset.mem_singleton_self _
      all_goals exact fun h q hq => h q (List.mem_cons_of_mem _ hq)
    · exact ha.whole qs (Multiset.mem_add.2 (.inr hqs))
  reached q hq flag h := by
    obtain ⟨-, harrived, hothers⟩ := l.shows_switch r enabled
    rw [l.last?_switch] at h
    split at h
    · next hrq =>
      cases h
      exact hrq.1 ▸ harrived hrq.2
    · next hrq => exact hothers q hrq flag (ha.reached q hq flag h)
  unreached flag requests hx q hq h := by
    rw [l.last?_switch] at h
    split at h
    · cases h
    · next hrq =>
      rcases ha.unreached flag requests hx q hq h with hon | howed | hfailed
      · exact .inl ((l.shows_switch r enabled).2.2 q hrq flag hon)
      · rw [owes_owed] at howed ⊢
        rcases howed with hmem | howed
        · rcases List.mem_cons.1 hmem with rfl | hmem
          · -- the call for this very request has failed
            refine .inr (.inr ⟨⟨q, enabled, _⟩, ?_, hq, by simpa using hrq⟩)
            rw [l.notes_switch]
            exact List.mem_append_right _ (List.mem_singleton_self _)
          · exact .inr (.inl (.inl hmem))
        · exact .inr (.inl (.inr howed))
      · exact .inr (.inr (NotedLink.failed_switch hfailed r enabled))

theorem drop_owed (ha : Agreeing x (owed rs + k) s l)
    (hrs : ∀ flag requests, s.spec? x = some (flag, requests) → ∀ r ∈ rs, r ∈ requests →
      l.vm.Shows r flag ∨ l.Failed requests) : Agreeing x k s l where
  below r hr := ha.below r (known_owed.2 (.inr hr))
  nodup := by simpa [owed] using ha.nodup
  unbooked r hr := by
    obtain ⟨hlt, hon, hnot⟩ := ha.unbooked r (Multiset.mem_add.2 (.inr hr))
    exact ⟨hlt, hon, fun h => hnot (known_owed.2 (.inr h))⟩
  apart := ha.apart
  whole qs hqs := ha.whole qs (Multiset.mem_add.2 (.inr hqs))
  reached := ha.reached
  unreached flag requests hx r hr h := by
    rcases ha.unreached flag requests hx r hr h with hon | howed | hf
    · exact .inl hon
    · rcases owes_owed.1 howed with hmem | howed
      · exact (hrs flag requests hx r hmem hr).imp_right .inr
      · exact .inr (.inl howed)
    · exact .inr (.inr hf)

theorem drop_owed_nil (ha : Agreeing x (owed [] + k) s l) : Agreeing x k s l :=
  ha.drop_owed fun _ _ _ r hr => by cases hr

/-- When a call fails, those that follow may be given up. -/
theorem switch_failed (ha : Agreeing x (owed (r :: rs) + k) s l)
    (hreply : (l.answer (.setRequestEnabled r enabled)).1.isOk = false) :
    Agreeing x k s (l.answer (.setRequestEnabled r enabled)).2 := by
  refine ha.switch.drop_owed fun flag requests hx q hq hmine => .inr ?_
  have hr : r ∈ requests := by
    have hwhole := ha.whole (r :: rs) (Multiset.mem_add.2 (.inl (Multiset.mem_singleton_self _)))
    rw [Session.requestsOf_of_some hx] at hwhole
    rcases hwhole with h | h
    · exact h r List.mem_cons_self
    · exact absurd hmine (h q (List.mem_cons_of_mem _ hq))
  refine ⟨⟨r, enabled, _⟩, ?_, hr, hreply⟩
  rw [NotedLink.notes_switch]
  exact List.mem_append_right _ (List.mem_singleton_self _)

/-! ### The session moves -/

theorem known_of_sheds (h : s.Sheds t) (hr : Known k t l r) : Known k s l r :=
  hr.imp_left fun ⟨y, hy⟩ => ⟨y, h.mem_requestsOf hy⟩

theorem sheds (ha : Agreeing x k s l) (h : s.Sheds t) : Agreeing x k t l where
  below r hr := ha.below r (known_of_sheds h hr)
  nodup := ha.nodup
  unbooked r hr := by
    obtain ⟨hlt, hon, hnot⟩ := ha.unbooked r hr
    exact ⟨hlt, hon, fun hr => hnot (known_of_sheds h hr)⟩
  apart y hy r hr hx := ha.apart y hy r (h.mem_requestsOf hr) (h.mem_requestsOf hx)
  whole rs hrs := by
    rcases h.requestsOf (y := x) with hx | hx
    · rw [hx]
      exact ha.whole rs hrs
    · exact .inr (by simp [hx])
  reached r hr := ha.reached r (h.mem_requestsOf hr)
  unreached flag requests hx r hr := by
    rcases h.specs x with hs | hs
    · exact ha.unreached flag requests (hs ▸ hx) r hr
    · rw [Session.requestsOf_of_some hx] at hs
      rw [hs] at hr
      cases hr

/-- Nobody else has to do with requests that were made and are not booked yet, and they are on. -/
theorem of_made (ha : Agreeing x (made rs + k) s l) (hr : r ∈ rs) :
    r < l.vm.nextRequest ∧ l.vm.Shows r true ∧ ¬Known k s l r := by
  have h := ha.unbooked r (Multiset.mem_add.2 (.inl (Multiset.mem_coe.2 hr)))
  rwa [known_made] at h

theorem known_of_books {y : SpecRef} {flag : Bool} (h : s.Books t y flag rs)
    (hr : Known (owed rs + k) t l r) : r ∈ rs ∨ Known k s l r := by
  rcases known_owed.1 hr with hr | ⟨z, hz⟩ | hr
  · exact .inl hr
  · exact (h.mem_requestsOf hz).imp (fun h => h.2) fun h => .inl ⟨z, h⟩
  · exact .inr (.inr hr)

/-- Calls that were owed before the booking are still owed for all of `x` at once or for none. -/
theorem whole_of_books {y : SpecRef} {flag : Bool} {qs : List RequestId}
    (ha : Agreeing x (made rs + k) s l) (h : s.Books t y flag rs) (hqs : qs ∈ k.2) :
    (∀ r ∈ qs, r ∈ t.requestsOf x) ∨ ∀ r ∈ qs, r ∉ t.requestsOf x := by
  have hwhole := ha.whole qs (Multiset.mem_add.2 (.inr hqs))
  have hnot (r : RequestId) (hr : r ∈ qs) : r ∉ rs :=
    fun h => (ha.of_made h).2.2 (.inr (.inl ⟨qs, hqs, hr⟩))
  obtain ⟨⟨old, hy, hold⟩, hothers⟩ := h
  by_cases hxy : x = y
  · subst hxy
    rw [Session.requestsOf_of_some hy]
    rcases hold with rfl | hold
    · exact .inr (by simpa using hnot)
    · rw [Session.requestsOf_of_some hold] at hwhole
      refine hwhole.imp (fun h r hr => List.mem_append_left _ (h r hr)) fun h r hr => ?_
      rw [List.mem_append, not_or]
      exact ⟨h r hr, hnot r hr⟩
  · rwa [Session.requestsOf_congr (hothers x hxy)]

/-- Requests that were made are booked. They are on, so they are owed a call if their breakpoint is
not. -/
theorem books {y : SpecRef} {flag : Bool} (ha : Agreeing x (made rs + k) s l)
    (h : s.Books t y flag rs) : Agreeing x (owed rs + k) t l where
  below r hr := by
    rcases known_of_books h hr with hr | hr
    · exact (ha.of_made hr).1
    · exact ha.below r (known_made.2 hr)
  nodup := by simpa [owed] using (Multiset.nodup_add.1 ha.nodup).2.1
  unbooked r hr := by
    have hr : r ∈ k.1 := by simpa [owed] using hr
    obtain ⟨hlt, hon, hnot⟩ := ha.unbooked r (Multiset.mem_add.2 (.inr hr))
    refine ⟨hlt, hon, fun hknown => ?_⟩
    rcases known_of_books h hknown with hmade | hknown
    · have hdisjoint := (Multiset.nodup_add.1 ha.nodup).2.2
      exact Multiset.disjoint_left.1 hdisjoint (Multiset.mem_coe.2 hmade) hr
    · exact hnot (known_made.2 hknown)
  apart z hz r hr hx := by
    rcases h.mem_requestsOf hr with ⟨rfl, hmade⟩ | hr
    · rcases h.mem_requestsOf hx with ⟨rfl, -⟩ | hx
      · exact hz rfl
      · exact (ha.of_made hmade).2.2 (.inl ⟨x, hx⟩)
    · rcases h.mem_requestsOf hx with ⟨-, hmade⟩ | hx
      · exact (ha.of_made hmade).2.2 (.inl ⟨z, hr⟩)
      · exact ha.apart z hz r hr hx
  whole qs hqs := by
    rcases Multiset.mem_add.1 hqs with hqs | hqs
    · obtain rfl : qs = rs := Multiset.mem_singleton.1 hqs
      obtain ⟨⟨old, hy, -⟩, hothers⟩ := h
      by_cases hxy : x = y
      · subst hxy
        rw [Session.requestsOf_of_some hy]
        exact .inl fun r hr => List.mem_append_right _ hr
      · rw [Session.requestsOf_congr (hothers x hxy)]
        exact .inr fun r hr hx => (ha.of_made hr).2.2 (.inl ⟨x, hx⟩)
    · exact ha.whole_of_books h hqs
  reached r hr flag hlast := by
    rcases h.mem_requestsOf hr with ⟨-, hmade⟩ | hr
    · exact absurd (known_of_last? hlast) (ha.of_made hmade).2.2
    · exact ha.reached r hr flag hlast
  unreached flag requests hx r hr hlast := by
    rw [owes_owed]
    obtain ⟨⟨old, hy, hold⟩, hothers⟩ := h
    by_cases hxy : x = y
    · subst hxy
      obtain ⟨rfl, rfl⟩ := Prod.mk.inj (Option.some.inj (hy.symm.trans hx))
      rcases List.mem_append.1 hr with hr | hr
      · rcases hold with rfl | hold
        · cases hr
        · rcases ha.unreached _ old hold r hr hlast with hon | howed | ⟨n, hn, hmine, hfailed⟩
          · exact .inl hon
          · exact .inr (.inl (.inr (owes_made.1 howed)))
          · exact .inr (.inr ⟨n, hn, List.mem_append_left _ hmine, hfailed⟩)
      · exact .inr (.inl (.inl hr))
    · rcases ha.unreached flag requests (hothers x hxy ▸ hx) r hr hlast with hon | howed | hf
      · exact .inl hon
      · exact .inr (.inl (.inr (owes_made.1 howed)))
      · exact .inr (.inr hf)

theorem books_on {y : SpecRef} (ha : Agreeing x (made rs + k) s l)
    (h : s.Books t y true rs) : Agreeing x k t l := by
  refine (ha.books h).drop_owed fun flag requests hx r hr hmine => .inl ?_
  obtain ⟨-, hon, hnot⟩ := ha.of_made hr
  by_cases hxy : x = y
  · subst hxy
    obtain ⟨⟨old, hy, -⟩, -⟩ := h
    obtain ⟨rfl, -⟩ := Prod.mk.inj (Option.some.inj (hx.symm.trans hy))
    exact hon
  · refine absurd (.inl ⟨x, ?_⟩) hnot
    rw [Session.requestsOf_of_some ((h.others x hxy).symm.trans hx)]
    exact hmine

theorem known_of_stores {y : SpecRef} {flag : Bool} (h : s.Stores t y flag rs)
    (hr : Known (owed rs + k) t (l.forget rs) r) : Known k s l r := by
  rcases known_owed.1 hr with hr | ⟨z, hz⟩ | hr | ⟨n, hn, hr⟩
  · exact .inl ⟨y, h.requestsOf_here ▸ hr⟩
  · exact .inl ⟨z, h.requestsOf ▸ hz⟩
  · exact .inr (.inl hr)
  · exact .inr (.inr ⟨n, (List.mem_filter.1 hn).1, hr⟩)

/-- The requests of `x` are none of those that another breakpoint's flag is stored for. -/
theorem notMem_of_stores {y : SpecRef} {flag : Bool} (ha : Agreeing x k s l)
    (h : s.Stores t y flag rs) (hxy : x ≠ y) (hr : r ∈ s.requestsOf x) : r ∉ rs :=
  fun hmem => ha.apart y hxy.symm r (h.requestsOf_here ▸ hmem) hr

/-- A flag is stored: its requests are owed a call, and what went before is forgotten. -/
theorem stores {y : SpecRef} {flag : Bool} (ha : Agreeing x k s l) (h : s.Stores t y flag rs) :
    Agreeing x (owed rs + k) t (l.forget rs) where
  below r hr := ha.below r (known_of_stores h hr)
  nodup := by simpa [owed] using ha.nodup
  unbooked r hr := by
    have hr : r ∈ k.1 := by simpa [owed] using hr
    obtain ⟨hlt, hon, hunknown⟩ := ha.unbooked r hr
    exact ⟨hlt, hon, fun hr => hunknown (known_of_stores h hr)⟩
  apart z hz := by
    rw [h.requestsOf, h.requestsOf]
    exact ha.apart z hz
  whole qs hqs := by
    rw [h.requestsOf]
    rcases Multiset.mem_add.1 hqs with hqs | hqs
    · obtain rfl : qs = rs := Multiset.mem_singleton.1 hqs
      by_cases hxy : x = y
      · exact .inl fun r hr => by rwa [hxy, h.requestsOf_here]
      · exact .inr fun r hr hx => ha.notMem_of_stores h hxy hx hr
    · exact ha.whole qs hqs
  reached r hr flag hlast := by
    rw [h.requestsOf] at hr
    by_cases hxy : x = y
    · rw [hxy, h.requestsOf_here] at hr
      rw [l.last?_forget_of_mem hr] at hlast
      cases hlast
    · rw [l.last?_forget (ha.notMem_of_stores h hxy hr)] at hlast
      exact ha.reached r hr flag hlast
  unreached flag requests hx r hr hlast := by
    rw [owes_owed]
    by_cases hxy : x = y
    · rw [hxy, h.here] at hx
      obtain ⟨-, rfl⟩ := Prod.mk.inj (Option.some.inj hx)
      exact .inr (.inl (.inl hr))
    · have hx' := (h.others x hxy).symm.trans hx
      have hmine (r : RequestId) (hr : r ∈ requests) : r ∉ rs :=
        ha.notMem_of_stores h hxy (by rwa [Session.requestsOf_of_some hx'])
      rw [l.last?_forget (hmine r hr)] at hlast
      rcases ha.unreached flag requests hx' r hr hlast with hon | howed | ⟨n, hn, hreq, hfailed⟩
      · exact .inl hon
      · exact .inr (.inl (.inr howed))
      · refine .inr (.inr ⟨n, List.mem_filter.2 ⟨hn, ?_⟩, hreq, hfailed⟩)
        exact decide_eq_true (hmine _ hreq)

end Agreeing

end JvmDebug
