import JvmDebug.Proofs.FreshIds
import JvmDebug.Proofs.QuietSteps
import JvmDebug.Proofs.SessionTurns
import Mathlib.Algebra.Group.Prod
import Mathlib.Algebra.Order.Group.Multiset

/-!
The hits that were handled and the breakpoints that they are counted for. A hit goes to the
breakpoint that its request is booked for at that moment. Requests that were made and not booked
yet, and ids that were drawn and not given to a breakpoint yet, are held by the routine that goes on
with them; as numbers and ids do not come round, no hit that was counted before is on one of them.
-/
namespace JvmDebug

/-! ## Hits -/

/-- The breakpoint whose requests the table lists this one among. -/
def Session.ownerOf? (s : Session) (r : RequestId) : Option String :=
  (s.breakpoints.entries.entries.find? fun p => r ∈ p.2.requests).map Prod.fst

/-- A breakpoint event that was handled. `owner` is the breakpoint that had its request then. -/
structure Hit where
  request : Option RequestId
  thread : ThreadId
  owner : Option String
  deriving DecidableEq, Repr

def Session.hit (s : Session) (request : Option RequestId) (t : ThreadId) : Hit :=
  ⟨request, t, request.bind s.ownerOf?⟩

/-! ## Tables -/

namespace BreakpointTable

/-- The table finds the breakpoint of every request that it lists, and of no other. -/
def Indexed (t : BreakpointTable) : Prop :=
  ∀ r id, t.owners.get? r = some id ↔ ∃ e, t.entries.get? id = some e ∧ r ∈ e.requests

/-- Breakpoints may go; those that stay keep their requests and their counts. -/
structure Thins (t t' : BreakpointTable) : Prop where
  entries : ∀ id e', t'.entries.get? id = some e' → ∃ e, t.entries.get? id = some e ∧
    e'.requests = e.requests ∧ e'.breakpoint.hitCount = e.breakpoint.hitCount
  indexed : t.Indexed → t'.Indexed

/-- A breakpoint gets requests besides those that it has. A new one has no hits. -/
structure Gains (t t' : BreakpointTable) (id : String) (requests : List RequestId) : Prop where
  here : ∃ e', t'.entries.get? id = some e' ∧
    ((t.entries.get? id = none ∧ e'.requests = requests ∧ e'.breakpoint.hitCount = 0) ∨
      ∃ e, t.entries.get? id = some e ∧ e'.requests = e.requests ++ requests ∧
        e'.breakpoint.hitCount = e.breakpoint.hitCount)
  others : ∀ other, other ≠ id → t'.entries.get? other = t.entries.get? other
  owners : ∀ r, t'.owners.get? r = if r ∈ requests then some id else t.owners.get? r

theorem indexed_empty : Indexed {} := by
  intro r id
  constructor
  · intro h
    cases h
  · rintro ⟨e, he, -⟩
    cases he

variable {t : BreakpointTable}

theorem Thins.of_eq {t' : BreakpointTable} (hentries : t'.entries = t.entries)
    (howners : t'.owners = t.owners) : t.Thins t' where
  entries id e' he := ⟨e', hentries ▸ he, rfl, rfl⟩
  indexed hi r id := by rw [howners, hentries, hi r id]

theorem Thins.owner {t' : BreakpointTable} (ht : t.Thins t') (hi : t.Indexed) {r : RequestId}
    {id : String} (h : t'.owners.get? r = some id) : t.owners.get? r = some id := by
  obtain ⟨e', he', hr⟩ := (ht.indexed hi r id).1 h
  obtain ⟨e, he, hrequests, -⟩ := ht.entries id e' he'
  exact (hi r id).2 ⟨e, he, hrequests ▸ hr⟩

theorem Thins.unlisted {t' : BreakpointTable} (ht : t.Thins t') {id : String}
    (h : t.entries.get? id = none) : t'.entries.get? id = none := by
  cases he' : t'.entries.get? id with
  | none => rfl
  | some e' =>
    obtain ⟨e, he, -⟩ := ht.entries id e' he'
    rw [h] at he
    cases he

/-! ### Adding to a table -/

/-- A breakpoint of the larger table was there before with as many hits, or it is the new one. -/
theorem Gains.entry {t' : BreakpointTable} {id : String} {requests : List RequestId}
    (hg : t.Gains t' id requests) {other : String} {e' : BreakpointEntry}
    (h : t'.entries.get? other = some e') :
    (∃ e, t.entries.get? other = some e ∧ e.requests ⊆ e'.requests ∧
      e'.breakpoint.hitCount = e.breakpoint.hitCount) ∨
    (other = id ∧ t.entries.get? id = none ∧ e'.breakpoint.hitCount = 0) := by
  by_cases hother : other = id
  · subst hother
    obtain ⟨e₁, he₁, hcase⟩ := hg.here
    obtain rfl : e' = e₁ := Option.some.inj (h.symm.trans he₁)
    rcases hcase with ⟨hnone, -, hzero⟩ | ⟨e, he, hrequests, hcount⟩
    · exact .inr ⟨rfl, hnone, hzero⟩
    · exact .inl ⟨e, he, hrequests ▸ List.subset_append_left _ _, hcount⟩
  · exact .inl ⟨e', (hg.others other hother).symm.trans h, fun _ hr => hr, rfl⟩

theorem Gains.indexed {t' : BreakpointTable} {id : String} {requests : List RequestId}
    (hg : t.Gains t' id requests) (hfree : ∀ r ∈ requests, t.owners.get? r = none)
    (hi : t.Indexed) : t'.Indexed := by
  intro r other
  rw [hg.owners r]
  by_cases hother : other = id
  · subst hother
    obtain ⟨e', he', hcase⟩ := hg.here
    have hlists : r ∈ e'.requests ↔ r ∈ requests ∨ t.owners.get? r = some other := by
      rw [hi r other]
      rcases hcase with ⟨hnone, hrequests, -⟩ | ⟨e, he, hrequests, -⟩
      · simp [hrequests, hnone]
      · simp [hrequests, he, or_comm]
    simp only [he', Option.some.injEq, exists_eq_left', hlists]
    by_cases hr : r ∈ requests <;> simp [hr]
  · rw [hg.others other hother, ← hi r other]
    by_cases hr : r ∈ requests
    · simp [hr, hfree r hr, Ne.symm hother]
    · simp [hr]

theorem get?_own (t : BreakpointTable) (id : String) (requests : List RequestId) (r : RequestId) :
    (t.own id requests).get? r = if r ∈ requests then some id else t.owners.get? r := by
  simp only [own]
  generalize t.owners = owners
  induction requests generalizing owners with
  | nil => simp
  | cons q qs ih =>
    rw [List.foldl_cons, ih, Dict.get?_insert]
    by_cases hq : r = q <;> by_cases hqs : r ∈ qs <;> simp [hq, hqs]

theorem gains_insert {b : Breakpoint} (hnew : t.entries.get? b.id = none)
    (hhits : b.hitCount = 0) (requests : List RequestId) :
    t.Gains (t.insert b requests) b.id requests where
  here := ⟨⟨b, requests⟩, by simp [insert, Dict.get?_insert], .inl ⟨hnew, rfl, hhits⟩⟩
  others other hne := by simp [insert, Dict.get?_insert, hne]
  owners := t.get?_own b.id requests

theorem gains_insertInstalled {b : Breakpoint} (hnew : t.entries.get? b.id = none)
    (hhits : b.hitCount = 0) (requests : List RequestId) :
    t.Gains (t.insertInstalled b requests) b.id requests :=
  gains_insert (b := { b with pending := false, resolvedLocations := requests.length })
    hnew hhits requests

theorem gains_insertPending {b : Breakpoint} (hnew : t.entries.get? b.id = none)
    (hhits : b.hitCount = 0) (watch : RequestId) :
    t.Gains (t.insertPending b watch) b.id [] := by
  have hgains (pending : Dict String PendingClass) := gains_insert (t := { t with pending })
    (b := { b with pending := true, resolvedLocations := 0 }) hnew hhits []
  exact ⟨(hgains _).here, (hgains _).others, (hgains _).owners⟩

theorem gains_materialize {id : String} {enabled : Bool} {requests : List RequestId}
    (h : (t.materialize id requests).1 = some enabled) :
    t.Gains (t.materialize id requests).2 id requests := by
  cases he : t.entries.get? id with
  | none => simp [materialize, he] at h
  | some e =>
    simp only [materialize, he]
    refine ⟨?_, fun other hne => ?_, t.get?_own id requests⟩
    · rw [Dict.get?_modify, if_pos rfl, he]
      exact ⟨_, rfl, .inr ⟨e, rfl, rfl, rfl⟩⟩
    · rw [Dict.get?_modify, if_neg hne]

/-! ### Taking from a table -/

theorem thins_setEnabled (t : BreakpointTable) (id : String) (enabled : Bool) :
    t.Thins (t.setEnabled id enabled).2 := by
  simp only [setEnabled]
  split
  · exact .of_eq rfl rfl
  · next e he =>
    refine ⟨fun other e' he' => ?_, fun hi r other => ?_⟩
    · rw [Dict.get?_modify] at he'
      split at he'
      · next h =>
        subst h
        rw [he] at he'
        cases he'
        exact ⟨e, he, rfl, rfl⟩
      · exact ⟨e', he', rfl, rfl⟩
    · rw [hi r other, Dict.get?_modify]
      split
      · next h => simp [h, he]
      · rfl

theorem get?_foldl_erase (owners : Dict RequestId String) (requests : List RequestId)
    (r : RequestId) :
    (requests.foldl (fun owners r => owners.erase r) owners).get? r =
      if r ∈ requests then none else owners.get? r := by
  induction requests generalizing owners with
  | nil => simp
  | cons q qs ih =>
    rw [List.foldl_cons, ih, Dict.get?_erase]
    by_cases hq : r = q <;> by_cases hqs : r ∈ qs <;> simp [hq, hqs]

theorem thins_remove (t : BreakpointTable) (id : String) : t.Thins (t.remove id).2 := by
  cases he : t.entries.get? id with
  | none =>
    rw [remove_of_none he]
    exact .of_eq rfl rfl
  | some e =>
    refine ⟨fun other e' he' => ?_, fun hi r other => ?_⟩
    · rw [entries_remove he, Dict.get?_erase] at he'
      split at he'
      · cases he'
      · exact ⟨e', he', rfl, rfl⟩
    · have hmine : r ∈ e.requests ↔ t.owners.get? r = some id := by
        rw [hi r id]
        simp [he]
      rw [owners_remove he, entries_remove he, get?_foldl_erase, Dict.get?_erase]
      by_cases hother : other = id
      · subst hother
        by_cases hr : r ∈ e.requests
        · simp [hr]
        · simp [hr, mt hmine.2 hr]
      · by_cases hr : r ∈ e.requests
        · have hno : ¬∃ e, t.entries.get? other = some e ∧ r ∈ e.requests := by
            rw [← hi r other, hmine.1 hr]
            exact fun h => hother (Option.some.inj h).symm
          simpa [hr, hother] using hno
        · simpa [hr, hother] using hi r other

theorem thins_takePending (t : BreakpointTable) (name : String) :
    t.Thins (t.takePending name).2 := by
  simp only [takePending]
  split <;> exact .of_eq rfl rfl

/-! ### Counting a hit -/

theorem get?_recordHit {r : RequestId} {id : String} (h : t.owners.get? r = some id)
    (other : String) : (t.recordHit r).2.entries.get? other = (t.entries.get? other).map fun e =>
      { e with breakpoint := { e.breakpoint with
        hitCount := e.breakpoint.hitCount + if other = id then 1 else 0 } } := by
  simp only [recordHit, h, Dict.get?_modify]
  split
  · next hother =>
    subst hother
    rfl
  · simp

theorem owners_recordHit (t : BreakpointTable) (r : RequestId) :
    (t.recordHit r).2.owners = t.owners := by
  simp only [recordHit]
  split <;> rfl

theorem entry_recordHit {r : RequestId} {id : String} (h : t.owners.get? r = some id)
    {other : String} {e' : BreakpointEntry}
    (he' : (t.recordHit r).2.entries.get? other = some e') :
    ∃ e, t.entries.get? other = some e ∧ e'.requests = e.requests ∧
      e'.breakpoint.hitCount = e.breakpoint.hitCount + if other = id then 1 else 0 := by
  rw [get?_recordHit h] at he'
  obtain ⟨e, he, rfl⟩ := Option.map_eq_some_iff.1 he'
  exact ⟨e, he, rfl, rfl⟩

theorem recordHit_of_none {r : RequestId} (h : t.owners.get? r = none) :
    (t.recordHit r).2 = t := by
  simp only [recordHit, h]

theorem Indexed.recordHit (hi : t.Indexed) {r : RequestId} {id : String}
    (h : t.owners.get? r = some id) : (t.recordHit r).2.Indexed := by
  intro q other
  rw [owners_recordHit, hi q other, get?_recordHit h]
  simp

end BreakpointTable

theorem Session.ownerOf?_eq {s : Session} (hi : s.breakpoints.Indexed) (r : RequestId) :
    s.ownerOf? r = s.breakpoints.owners.get? r := by
  rw [ownerOf?]
  cases hfind : s.breakpoints.entries.entries.find? fun p => r ∈ p.2.requests with
  | some p =>
    have hr : r ∈ p.2.requests := by simpa using List.find?_some hfind
    have hp := Dict.mem_entries.1 (List.mem_of_find?_eq_some hfind : (p.1, p.2) ∈ _)
    exact ((hi r p.1).2 ⟨p.2, hp, hr⟩).symm
  | none =>
    cases howner : s.breakpoints.owners.get? r with
    | none => rfl
    | some id =>
      obtain ⟨e, he, hr⟩ := (hi r id).1 howner
      exact absurd (decide_eq_true hr) (List.find?_eq_none.1 hfind (id, e) (Dict.mem_entries.2 he))

/-! ## Sessions -/

/-- Breakpoints may go, and ids may be drawn. -/
structure Session.Thins (s t : Session) : Prop where
  breakpoints : s.breakpoints.Thins t.breakpoints
  text : t.ids.text = s.ids.text
  next : s.ids.next ≤ t.ids.next

namespace Session
variable {s t : Session}

theorem Thins.of_eq (hbreakpoints : t.breakpoints = s.breakpoints) (hids : t.ids = s.ids) :
    s.Thins t where
  breakpoints := .of_eq (by rw [hbreakpoints]) (by rw [hbreakpoints])
  text := by rw [hids]
  next := by rw [hids]

theorem Thins.rfl : s.Thins s := .of_eq (Eq.refl _) (Eq.refl _)

theorem Quiet.thins (h : s.Quiet t) : s.Thins t := .of_eq h.breakpoints h.ids

theorem SameTables.thins (h : s.SameTables t) : s.Thins t := .of_eq h.breakpoints h.ids

theorem IdsDiffer.of_thins {start : Nat} (hst : s.Thins t) (hdiffer : t.IdsDiffer start) :
    s.IdsDiffer start := by
  have hinj : Set.InjOn t.ids.text (Set.Ico start t.ids.next) := hdiffer
  rw [hst.text] at hinj
  exact hinj.mono (Set.Ico_subset_Ico_right hst.next)

theorem thins_setBreakpoints {b : BreakpointTable} (h : s.breakpoints.Thins b) :
    s.Thins { s with breakpoints := b } := ⟨h, Eq.refl _, le_rfl⟩

theorem thins_freshId (s : Session) : s.Thins s.freshId.2 := by
  obtain ⟨htext, m, hle, hlt, -⟩ := s.ids.fresh_spec s.usedId
    (s.breakpoints.entries.size + s.exceptions.entries.size)
  exact ⟨.of_eq (Eq.refl _) (Eq.refl _), htext, hle.trans hlt.le⟩

theorem thins_storeEnabled (id : String) (enabled : Bool) (s : Session) :
    s.Thins (storeEnabled id enabled s).2 := by
  cases he : s.breakpoints.entries.get? id with
  | none =>
    rw [storeEnabled_of_none he]
    exact .of_eq (Eq.refl _) (Eq.refl _)
  | some e =>
    rw [storeEnabled_of_some he]
    exact thins_setBreakpoints (s.breakpoints.thins_setEnabled id enabled)

theorem thins_takeOut (id : String) (s : Session) : s.Thins (takeOut id s).2 := by
  cases he : s.breakpoints.entries.get? id with
  | none =>
    rw [takeOut_of_none he]
    exact .of_eq (Eq.refl _) (Eq.refl _)
  | some e =>
    obtain ⟨requests, htake⟩ := takeOut_of_some he
    rw [htake]
    exact thins_setBreakpoints (s.breakpoints.thins_remove id)

theorem thins_takeAll (s : Session) : s.Thins (takeAll s).2 := by
  refine ⟨⟨fun id e' he => ?_, fun _ => BreakpointTable.indexed_empty⟩, Eq.refl _, le_rfl⟩
  cases he

theorem thins_takePending (name : String) (s : Session) : s.Thins (takePending name s).2 :=
  thins_setBreakpoints (s.breakpoints.thins_takePending name)

end Session

/-! ## The invariant -/

/-- Requests and ids that somebody holds. -/
abbrev Unbooked := Multiset RequestId × Multiset String

namespace Unbooked

def requests (rs : List RequestId) : Unbooked := (rs, 0)

def name (id : String) : Unbooked := (0, {id})

@[simp] theorem requests_nil : requests [] = 0 := rfl

theorem requests_append (rs qs : List RequestId) :
    requests (rs ++ qs) = requests rs + requests qs := by
  rw [requests, ← Multiset.coe_add]
  rfl

theorem requests_add_name (rs : List RequestId) (id : String) :
    requests rs + name id = (↑rs, {id}) :=
  Prod.ext (add_zero _) (zero_add _)

end Unbooked

/-- The id was drawn from the number `start` on. -/
def IdSupply.Spent (start : Nat) (ids : IdSupply) (id : String) : Prop :=
  ∃ n, start ≤ n ∧ n < ids.next ∧ ids.text n = id

theorem IdSupply.Spent.mono {start : Nat} {ids ids' : IdSupply} {id : String}
    (h : ids.Spent start id) (htext : ids'.text = ids.text) (hnext : ids.next ≤ ids'.next) :
    ids'.Spent start id := by
  obtain ⟨n, hn, hlt, heq⟩ := h
  exact ⟨n, hn, hlt.trans_le hnext, by rw [htext, heq]⟩

/-- A hit on the request was counted for the breakpoint: while the breakpoint is there it lists the
request, nobody else does, and neither of the two is given out again. -/
structure Attributed (start : Nat) (held : Unbooked) (s : Session) (next : RequestId)
    (r : RequestId) (id : String) : Prop where
  below : r < next
  notHeld : r ∉ held.1
  owner : ∀ other, s.breakpoints.owners.get? r = some other → other = id
  listed : ∀ e, s.breakpoints.entries.get? id = some e → r ∈ e.requests
  spent : s.ids.Spent start id
  notDrawn : id ∉ held.2

theorem Attributed.thins {start : Nat} {k : Unbooked} {s t : Session} {next r : RequestId}
    {id : String} (ha : Attributed start k s next r id) (hi : s.breakpoints.Indexed)
    (hst : s.Thins t) : Attributed start k t next r id := by
  refine { ha with
    owner := fun other h => ha.owner other (hst.breakpoints.owner hi h)
    listed := fun e' he' => ?_
    spent := ha.spent.mono hst.text hst.next }
  obtain ⟨e, he, hrequests, -⟩ := hst.breakpoints.entries id e' he'
  rw [hrequests]
  exact ha.listed e he

/-- Neither a request nor an id that a hit was counted with is held, so neither is booked anew. -/
theorem Attributed.gains {start : Nat} {k : Unbooked} {s : Session} {next r : RequestId}
    {id new : String} {b : BreakpointTable} {requests : List RequestId} {names : Multiset String}
    (ha : Attributed start (((requests : Multiset RequestId), names) + k) s next r id)
    (hg : s.breakpoints.Gains b new requests)
    (hnew : s.breakpoints.entries.get? new = none → new ∈ names) :
    Attributed start k { s with breakpoints := b } next r id where
  below := ha.below
  notHeld hr := ha.notHeld (Multiset.mem_add.2 (.inr hr))
  owner other h := by
    have hr : r ∉ requests := fun hr => ha.notHeld (Multiset.mem_add.2 (.inl hr))
    rw [hg.owners r, if_neg hr] at h
    exact ha.owner other h
  listed e' he' := by
    rcases hg.entry he' with ⟨e, he, hsub, -⟩ | ⟨rfl, hnone, -⟩
    · exact hsub (ha.listed e he)
    · exact absurd (Multiset.mem_add.2 (.inl (hnew hnone))) ha.notDrawn
  spent := ha.spent
  notDrawn hid := ha.notDrawn (Multiset.mem_add.2 (.inr hid))

theorem Attributed.recordHit {start : Nat} {k : Unbooked} {s : Session} {next q r : RequestId}
    {i id : String} (ha : Attributed start k s next q i)
    (h : s.breakpoints.owners.get? r = some id) :
    Attributed start k { s with breakpoints := (s.breakpoints.recordHit r).2 } next q i := by
  refine { ha with owner := fun other hq => ?_, listed := fun e' he' => ?_ }
  · rw [BreakpointTable.owners_recordHit] at hq
    exact ha.owner other hq
  · obtain ⟨e, he, hrequests, -⟩ := BreakpointTable.entry_recordHit h he'
    rw [hrequests]
    exact ha.listed e he

/-- The books that hits are counted in, with what is held and the hits that were handled so far. -/
structure Tallied (start : Nat) (held : Unbooked) (s : Session) (w : Vm × List Hit) : Prop where
  indexed : s.breakpoints.Indexed
  booked : ∀ r id, s.breakpoints.owners.get? r = some id → r < w.1.nextRequest
  made : ∀ r ∈ held.1, r < w.1.nextRequest ∧ s.breakpoints.owners.get? r = none
  once : held.1.Nodup
  drawn : s.ids.Drawn start held.2
  unused : ∀ id ∈ held.2, s.breakpoints.entries.get? id = none
  spent : ∀ id e, s.breakpoints.entries.get? id = some e → s.ids.Spent start id
  counted : ∀ id e, s.breakpoints.entries.get? id = some e →
    e.breakpoint.hitCount = UInt64.ofNat (w.2.countP fun h => h.owner = some id)
  attributed : ∀ h ∈ w.2, ∀ id, h.owner = some id →
    ∃ r, h.request = some r ∧ Attributed start held s w.1.nextRequest r id

namespace Tallied
variable {start : Nat} {k k' : Unbooked} {s t : Session} {vm vm' : Vm} {hits : List Hit}

theorem of_empty (hs : s.breakpoints = {}) (vm : Vm) :
    Tallied s.ids.next 0 s (vm, []) where
  indexed := hs ▸ BreakpointTable.indexed_empty
  booked r id h := by
    rw [hs] at h
    cases h
  made r hr := (Multiset.notMem_zero r hr).elim
  once := Multiset.nodup_zero
  drawn := s.ids.drawn_zero
  unused id hid := (Multiset.notMem_zero id hid).elim
  spent id e he := by
    rw [hs] at he
    cases he
  counted id e he := by
    rw [hs] at he
    cases he
  attributed h hh := by cases hh

theorem of_le (hle : k' ≤ k) (ht : Tallied start k s (vm, hits)) :
    Tallied start k' s (vm, hits) where
  indexed := ht.indexed
  booked := ht.booked
  made r hr := ht.made r (Multiset.mem_of_le hle.1 hr)
  once := Multiset.nodup_of_le hle.1 ht.once
  drawn := ht.drawn.mono hle.2
  unused id hid := ht.unused id (Multiset.mem_of_le hle.2 hid)
  spent := ht.spent
  counted := ht.counted
  attributed h hh id hid := by
    obtain ⟨r, hr, ha⟩ := ht.attributed h hh id hid
    refine ⟨r, hr, { ha with notHeld := ?_, notDrawn := ?_ }⟩
    · exact fun hmem => ha.notHeld (Multiset.mem_of_le hle.1 hmem)
    · exact fun hmem => ha.notDrawn (Multiset.mem_of_le hle.2 hmem)

theorem drop {h : Unbooked} (ht : Tallied start (h + k) s (vm, hits)) :
    Tallied start k s (vm, hits) :=
  ht.of_le ⟨Multiset.le_add_left _ _, Multiset.le_add_left _ _⟩

/-! ### The target moves -/

theorem of_vm (hnext : vm.nextRequest ≤ vm'.nextRequest) (ht : Tallied start k s (vm, hits)) :
    Tallied start k s (vm', hits) where
  indexed := ht.indexed
  booked r id h := UInt32.lt_of_lt_of_le (ht.booked r id h) hnext
  made r hr := ⟨UInt32.lt_of_lt_of_le (ht.made r hr).1 hnext, (ht.made r hr).2⟩
  once := ht.once
  drawn := ht.drawn
  unused := ht.unused
  spent := ht.spent
  counted := ht.counted
  attributed h hh id hid := by
    obtain ⟨r, hr, ha⟩ := ht.attributed h hh id hid
    exact ⟨r, hr, { ha with below := UInt32.lt_of_lt_of_le ha.below hnext }⟩

/-- A request that was just made is on nobody's books. -/
theorem addRequest (ht : Tallied start k s (vm, hits)) (hnext : vm.nextRequest < vm'.nextRequest) :
    Tallied start (Unbooked.requests [vm.nextRequest] + k) s (vm', hits) := by
  have hbelow := ht.of_vm (UInt32.le_of_lt hnext)
  have hapart : vm.nextRequest ∉ k.1 := fun h => UInt32.lt_irrefl _ (ht.made _ h).1
  have hfirst : (Unbooked.requests [vm.nextRequest] + k).1 = vm.nextRequest ::ₘ k.1 := rfl
  have hsecond : (Unbooked.requests [vm.nextRequest] + k).2 = k.2 := zero_add _
  refine { hbelow with made := ?_, once := ?_, drawn := ?_, unused := ?_, attributed := ?_ }
  · rw [hfirst]
    intro r hr
    rcases Multiset.mem_cons.1 hr with rfl | hr
    · refine ⟨hnext, ?_⟩
      cases howner : s.breakpoints.owners.get? vm.nextRequest with
      | none => rfl
      | some id => exact absurd (ht.booked _ _ howner) (UInt32.lt_irrefl _)
    · exact hbelow.made r hr
  · rw [hfirst]
    exact Multiset.nodup_cons.2 ⟨hapart, ht.once⟩
  · rw [hsecond]
    exact ht.drawn
  · rw [hsecond]
    exact ht.unused
  · intro h hh id hid
    obtain ⟨r, hr, ha⟩ := ht.attributed h hh id hid
    refine ⟨r, hr, { ha with below := ?_, notHeld := ?_, notDrawn := ?_ }⟩
    · exact UInt32.lt_trans ha.below hnext
    · rw [hfirst, Multiset.mem_cons, not_or]
      exact ⟨UInt32.ne_of_lt ha.below, ha.notHeld⟩
    · rw [hsecond]
      exact ha.notDrawn

/-! ### The session moves -/

theorem thins (hst : s.Thins t) (ht : Tallied start k s (vm, hits)) :
    Tallied start k t (vm, hits) where
  indexed := hst.breakpoints.indexed ht.indexed
  booked r id h := ht.booked r id (hst.breakpoints.owner ht.indexed h)
  made r hr := by
    refine ⟨(ht.made r hr).1, ?_⟩
    cases h : t.breakpoints.owners.get? r with
    | none => rfl
    | some id =>
      have := hst.breakpoints.owner ht.indexed h
      rw [(ht.made r hr).2] at this
      cases this
  once := ht.once
  drawn := ⟨ht.drawn.nodup,
    fun id hid => IdSupply.Spent.mono (ht.drawn.drawn id hid) hst.text hst.next,
    ht.drawn.start_le.trans hst.next⟩
  unused id hid := hst.breakpoints.unlisted (ht.unused id hid)
  spent id e' he' := by
    obtain ⟨e, he, -⟩ := hst.breakpoints.entries id e' he'
    exact (ht.spent id e he).mono hst.text hst.next
  counted id e' he' := by
    obtain ⟨e, he, -, hcount⟩ := hst.breakpoints.entries id e' he'
    rw [hcount]
    exact ht.counted id e he
  attributed h hh id hid := by
    obtain ⟨r, hr, ha⟩ := ht.attributed h hh id hid
    exact ⟨r, hr, ha.thins ht.indexed hst⟩

/-- An id that is drawn belongs to nobody, and no hit was counted for it. -/
theorem freshId (hdiffer : s.freshId.2.IdsDiffer start) (ht : Tallied start k s (vm, hits)) :
    Tallied start (Unbooked.name s.freshId.1 + k) s.freshId.2 (vm, hits) := by
  have hthins := ht.thins s.thins_freshId
  obtain ⟨htext, m, hle, hlt, hm⟩ := s.ids.fresh_spec s.usedId
    (s.breakpoints.entries.size + s.exceptions.entries.size)
  -- the supply goes on, so an id drawn before has another number
  have hnew {id : String} (h : s.ids.Spent start id) : id ≠ s.freshId.1 := by
    obtain ⟨n, hn, hn', heq⟩ := h
    intro hid
    have hbelow : n < s.freshId.2.ids.next := hn'.trans_le (hle.trans hlt.le)
    have hnm : n = m := by
      refine hdiffer ⟨hn, hbelow⟩ ⟨ht.drawn.start_le.trans hle, hlt⟩ ?_
      show (s.ids.fresh _ _).2.text n = (s.ids.fresh _ _).2.text m
      rw [htext, heq, hid, hm]
      rfl
    omega
  have hfirst : (Unbooked.name s.freshId.1 + k).1 = k.1 := zero_add _
  have hsecond : (Unbooked.name s.freshId.1 + k).2 = s.freshId.1 ::ₘ k.2 := rfl
  have hunused : s.breakpoints.entries.get? s.freshId.1 = none := by
    cases he : s.breakpoints.entries.get? s.freshId.1 with
    | none => rfl
    | some e => exact absurd rfl (hnew (ht.spent _ e he))
  refine { hthins with made := ?_, once := ?_, drawn := ?_, unused := ?_, attributed := ?_ }
  · rw [hfirst]
    exact hthins.made
  · rw [hfirst]
    exact hthins.once
  · rw [hsecond, ← Multiset.singleton_add, add_comm]
    exact Session.drawn_freshId ht.drawn hdiffer
  · rw [hsecond]
    intro id hid
    rcases Multiset.mem_cons.1 hid with rfl | hid
    · exact hunused
    · exact ht.unused id hid
  · intro h hh id hid
    obtain ⟨r, hr, ha⟩ := hthins.attributed h hh id hid
    obtain ⟨q, -, hold⟩ := ht.attributed h hh id hid
    refine ⟨r, hr, { ha with notHeld := ?_, notDrawn := ?_ }⟩
    · rw [hfirst]
      exact ha.notHeld
    · rw [hsecond, Multiset.mem_cons, not_or]
      exact ⟨hnew hold.spent, ha.notDrawn⟩

/-- Requests that were held are booked for a breakpoint. If it is new, its id was held as well. -/
theorem gains {b : BreakpointTable} {id : String} {requests : List RequestId}
    {names : Multiset String} (hgains : s.breakpoints.Gains b id requests)
    (hid : s.breakpoints.entries.get? id = none → id ∈ names)
    (ht : Tallied start (((requests : Multiset RequestId), names) + k) s (vm, hits)) :
    Tallied start k { s with breakpoints := b } (vm, hits) := by
  have hkeep := ht.drop
  have hmine {r : RequestId} (hr : r ∈ requests) :
      r < vm.nextRequest ∧ s.breakpoints.owners.get? r = none :=
    ht.made r (Multiset.mem_add.2 (.inl hr))
  have hdrawn (h : s.breakpoints.entries.get? id = none) : id ∈ names + k.2 :=
    Multiset.mem_add.2 (.inl (hid h))
  refine ⟨hgains.indexed (fun r hr => (hmine hr).2) ht.indexed, fun r other h => ?_,
    fun r hr => ⟨(hkeep.made r hr).1, ?_⟩, hkeep.once, hkeep.drawn, fun other hother => ?_,
    fun other e' he' => ?_, fun other e' he' => ?_, fun h hh other hother => ?_⟩
  · rw [hgains.owners r] at h
    split at h
    · next hr => exact (hmine hr).1
    · exact ht.booked r other h
  · have hapart : r ∉ requests := fun h =>
      Multiset.disjoint_left.1 (Multiset.nodup_add.1 ht.once).2.2 h hr
    rw [hgains.owners r, if_neg hapart]
    exact (hkeep.made r hr).2
  · have hnone := hkeep.unused other hother
    have hne : other ≠ id := by
      rintro rfl
      have hapart := (Multiset.nodup_add.1 ht.drawn.nodup).2.2
      exact Multiset.disjoint_left.1 hapart (hid hnone) hother
    exact (hgains.others other hne).trans hnone
  · rcases hgains.entry he' with ⟨e, he, -⟩ | ⟨rfl, hnone, -⟩
    · exact ht.spent other e he
    · exact ht.drawn.drawn other (hdrawn hnone)
  · rcases hgains.entry he' with ⟨e, he, -, hcount⟩ | ⟨rfl, hnone, hzero⟩
    · rw [hcount]
      exact ht.counted other e he
    · -- no hit was counted for an id that was held until now
      have hno : (hits.countP fun h => h.owner = some other) = 0 := by
        refine List.countP_eq_zero.2 fun h hh howner => ?_
        obtain ⟨r, -, ha⟩ := ht.attributed h hh other (of_decide_eq_true howner)
        exact ha.notDrawn (hdrawn hnone)
      rw [hzero, hno]
      rfl
  · obtain ⟨r, hr, ha⟩ := ht.attributed h hh other hother
    exact ⟨r, hr, ha.gains hgains hid⟩

/-! ### Hits -/

theorem owner_hit (ht : Tallied start k s (vm, hits)) (request : Option RequestId) (t : ThreadId) :
    (s.hit request t).owner = (Session.recordHit request s).1 := by
  cases request with
  | none => rfl
  | some r =>
    show s.ownerOf? r = (s.breakpoints.recordHit r).1
    rw [Session.ownerOf?_eq ht.indexed, BreakpointTable.recordHit]
    split <;> assumption

theorem countP_snoc (hits : List Hit) (h : Hit) (id : String) :
    ((hits ++ [h]).countP fun h => h.owner = some id) =
      (hits.countP fun h => h.owner = some id) + if h.owner = some id then 1 else 0 := by
  simp [List.countP_append, List.countP_singleton]

theorem attributes {r : RequestId} {id : String} (hr : s.breakpoints.owners.get? r = some id)
    (ht : Tallied start k s (vm, hits)) : Attributed start k s vm.nextRequest r id := by
  obtain ⟨e, he, hmem⟩ := (ht.indexed r id).1 hr
  refine ⟨ht.booked r id hr, fun h => ?_, fun other h => ?_, fun e' he' => ?_, ht.spent id e he,
    fun h => ?_⟩
  · have := (ht.made r h).2
    rw [hr] at this
    cases this
  · exact Option.some.inj (h.symm.trans hr)
  · rwa [← Option.some.inj (he.symm.trans he')]
  · have := ht.unused id h
    rw [he] at this
    cases this

/-- A hit that belongs to nobody counts for nobody. -/
theorem missed {h : Hit} (hmissed : h.owner = none) (ht : Tallied start k s (vm, hits)) :
    Tallied start k s (vm, hits ++ [h]) := by
  refine { ht with counted := fun id e he => ?_, attributed := fun h' hh id howner => ?_ }
  · rw [countP_snoc, hmissed, if_neg (by simp), Nat.add_zero]
    exact ht.counted id e he
  · rcases List.mem_append.1 hh with hh | hh
    · exact ht.attributed h' hh id howner
    · rw [List.mem_singleton.1 hh, hmissed] at howner
      cases howner

theorem recordHit {r : RequestId} {id : String} (hr : s.breakpoints.owners.get? r = some id)
    (t : ThreadId) (ht : Tallied start k s (vm, hits)) :
    Tallied start k { s with breakpoints := (s.breakpoints.recordHit r).2 }
      (vm, hits ++ [⟨some r, t, some id⟩]) := by
  have howners := s.breakpoints.owners_recordHit r
  refine ⟨ht.indexed.recordHit hr, fun q other h => ht.booked q other (howners ▸ h),
    fun q hq => ⟨(ht.made q hq).1, howners ▸ (ht.made q hq).2⟩, ht.once, ht.drawn,
    fun other hother => ?_, fun other e' he' => ?_, fun other e' he' => ?_,
    fun h hh other hother => ?_⟩
  · show (s.breakpoints.recordHit r).2.entries.get? other = none
    rw [BreakpointTable.get?_recordHit hr, ht.unused other hother, Option.map_none]
  · obtain ⟨e, he, -⟩ := BreakpointTable.entry_recordHit hr he'
    exact ht.spent other e he
  · obtain ⟨e, he, -, hcount⟩ := BreakpointTable.entry_recordHit hr he'
    have hmine : some id = some other ↔ other = id := by
      rw [Option.some.injEq, eq_comm]
    rw [hcount, countP_snoc, ht.counted other e he, UInt64.ofNat_add]
    simp only [hmine]
    split <;> rfl
  · rcases List.mem_append.1 hh with hh | hh
    · obtain ⟨q, hq, ha⟩ := ht.attributed h hh other hother
      exact ⟨q, hq, ha.recordHit hr⟩
    · obtain rfl := List.mem_singleton.1 hh
      obtain rfl : id = other := Option.some.inj hother
      exact ⟨r, rfl, (ht.attributes hr).recordHit hr⟩

/-- A hit is counted for the breakpoint that has its request, and for no other. -/
theorem hit (ht : Tallied start k s (vm, hits)) (request : Option RequestId) (t : ThreadId) :
    Tallied start k (Session.recordHit request s).2 (vm, hits ++ [s.hit request t]) := by
  cases request with
  | none => exact ht.missed rfl
  | some r =>
    show Tallied start k { s with breakpoints := (s.breakpoints.recordHit r).2 }
      (vm, hits ++ [⟨some r, t, s.ownerOf? r⟩])
    rw [Session.ownerOf?_eq ht.indexed]
    cases hr : s.breakpoints.owners.get? r with
    | none =>
      rw [BreakpointTable.recordHit_of_none hr]
      exact ht.missed rfl
    | some id => exact ht.recordHit hr t

end Tallied

end JvmDebug
