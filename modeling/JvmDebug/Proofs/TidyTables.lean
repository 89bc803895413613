import JvmDebug.Proofs.FreshIds
import JvmDebug.Proofs.HitBooks

/-!
Tables in which nothing is left of a breakpoint that is gone. The id of a new breakpoint must be
that of no other, and the two tables share no id, so ids that are drawn and not in a table yet are
counted in as well.
-/
namespace JvmDebug

theorem Dict.get?_modify_eq_none {κ ν : Type} [DecidableEq κ] {d : Dict κ ν} {k j : κ} {f : ν → ν}
    (h : d.get? j = none) : (d.modify k f).get? j = none := by
  rw [Dict.get?_modify]
  split
  · next hj => rw [← hj, h, Option.map_none]
  · exact h

/-! ## The breakpoint table -/

namespace BreakpointTable

/-- A request that belongs to a breakpoint is one that it lists. Those that wait for a class are
breakpoints on this class, and no class is watched for nobody. -/
structure Tidy (t : BreakpointTable) : Prop where
  listed : ∀ r id, t.owners.get? r = some id → ∃ e, t.entries.get? id = some e ∧ r ∈ e.requests
  waiting : ∀ name p, t.pending.get? name = some p →
    ∀ id ∈ p.ids, ∃ e, t.entries.get? id = some e ∧ e.breakpoint.className = name
  needed : ∀ name p, t.pending.get? name = some p → p.ids ≠ []

variable {t t' : BreakpointTable}

theorem tidy_empty : Tidy {} := ⟨nofun, nofun, nofun⟩

/-- Breakpoints keep their classes and their requests, and may get requests. -/
theorem Tidy.grow (h : t.Tidy)
    (hentries : ∀ id e, t.entries.get? id = some e → ∃ e', t'.entries.get? id = some e' ∧
      e'.breakpoint.className = e.breakpoint.className ∧ e.requests ⊆ e'.requests)
    (hpending : t'.pending = t.pending)
    (howners : ∀ r id, t'.owners.get? r = some id → t.owners.get? r = some id ∨
      ∃ e', t'.entries.get? id = some e' ∧ r ∈ e'.requests) : t'.Tidy where
  listed r id hr := by
    refine (howners r id hr).elim (fun hr => ?_) fun h => h
    obtain ⟨e, he, hmem⟩ := h.listed r id hr
    obtain ⟨e', he', -, hsub⟩ := hentries id e he
    exact ⟨e', he', hsub hmem⟩
  waiting name p hp id hid := by
    obtain ⟨e, he, hname⟩ := h.waiting name p (hpending ▸ hp) id hid
    obtain ⟨e', he', hclass, -⟩ := hentries id e he
    exact ⟨e', he', hclass.trans hname⟩
  needed := by rw [hpending]; exact h.needed

/-! ### Adding -/

theorem Tidy.insert (h : t.Tidy) {b : Breakpoint} (hnew : t.entries.get? b.id = none)
    (requests : List RequestId) : (t.insert b requests).Tidy := by
  have hmine : (t.insert b requests).entries.get? b.id = some ⟨b, requests⟩ := by
    rw [BreakpointTable.insert, Dict.get?_insert, if_pos rfl]
  refine h.grow (fun id e he => ⟨e, ?_, rfl, fun _ hr => hr⟩) rfl fun r id hr => ?_
  · have hne : id ≠ b.id := by
      rintro rfl
      rw [hnew] at he
      cases he
    rw [BreakpointTable.insert, Dict.get?_insert, if_neg hne, he]
  · rw [BreakpointTable.insert, get?_own] at hr
    split at hr
    · next hmem =>
      cases hr
      exact .inr ⟨_, hmine, hmem⟩
    · exact .inl hr

theorem get?_pending_insertPending (t : BreakpointTable) (b : Breakpoint) (watch : RequestId)
    (name : String) : (t.insertPending b watch).pending.get? name = if name = b.className then
      some (match t.pending.get? b.className with
        | some p => { p with ids := p.ids ++ [b.id] }
        | none => ⟨watch, [b.id]⟩)
      else t.pending.get? name := by
  simp only [BreakpointTable.insertPending, BreakpointTable.insert]
  cases hp : t.pending.get? b.className with
  | some p => simp [Dict.get?_modify, hp]
  | none => simp [Dict.get?_insert]

theorem Tidy.insertPending (h : t.Tidy) {b : Breakpoint} (hnew : t.entries.get? b.id = none)
    (watch : RequestId) : (t.insertPending b watch).Tidy := by
  have hinsert := h.insert (b := { b with pending := true, resolvedLocations := 0 }) hnew []
  have hmine : (t.insertPending b watch).entries.get? b.id =
      some ⟨{ b with pending := true, resolvedLocations := 0 }, []⟩ := by
    simp only [BreakpointTable.insertPending, BreakpointTable.insert, Dict.get?_insert, if_pos]
  refine ⟨hinsert.listed, fun name p hp id hid => ?_, fun name p hp => ?_⟩
  · rw [get?_pending_insertPending] at hp
    split at hp
    · next hname =>
      obtain rfl := Option.some.inj hp
      have hcases : id = b.id ∨ ∃ p, t.pending.get? name = some p ∧ id ∈ p.ids := by
        subst hname
        split at hid
        · next p hold => exact (List.mem_append.1 hid).symm.imp List.mem_singleton.1 fun h => ⟨p, hold, h⟩
        · exact .inl (List.mem_singleton.1 hid)
      rcases hcases with rfl | ⟨p, hold, hid⟩
      · exact ⟨_, hmine, hname.symm⟩
      · exact hinsert.waiting name p hold id hid
    · exact hinsert.waiting name p hp id hid
  · rw [get?_pending_insertPending] at hp
    split at hp
    · obtain rfl := Option.some.inj hp
      split <;> simp
    · exact h.needed name p hp

/-! ### Changing -/

theorem Tidy.materialize (h : t.Tidy) (id : String) (requests : List RequestId) :
    (t.materialize id requests).2.Tidy := by
  cases he : t.entries.get? id with
  | none =>
    simp only [BreakpointTable.materialize, he]
    exact h
  | some e =>
    simp only [BreakpointTable.materialize, he]
    refine h.grow (fun other e' he' => ?_) rfl fun r other hr => ?_
    · rw [Dict.get?_modify]
      split
      · next hother =>
        subst hother
        obtain rfl := Option.some.inj (he.symm.trans he')
        exact ⟨_, congrArg (Option.map _) he, rfl, List.subset_append_left _ _⟩
      · exact ⟨e', he', rfl, fun _ hr => hr⟩
    · rw [get?_own] at hr
      split at hr
      · next hmem =>
        cases hr
        refine .inr ⟨_, by rw [Dict.get?_modify, if_pos rfl, he]; rfl, ?_⟩
        exact List.mem_append_right _ hmem
      · exact .inl hr

/-- An entry is changed and keeps its class and its requests. -/
theorem Tidy.modify (h : t.Tidy) (id : String) {f : BreakpointEntry → BreakpointEntry}
    (hclass : ∀ e, (f e).breakpoint.className = e.breakpoint.className)
    (hrequests : ∀ e, (f e).requests = e.requests) :
    Tidy { t with entries := t.entries.modify id f } := by
  refine h.grow (fun other e he => ?_) rfl fun r other hr => .inl hr
  rw [Dict.get?_modify]
  split
  · next hother =>
    subst hother
    exact ⟨f e, congrArg (Option.map f) he, hclass e, fun r hr => hrequests e ▸ hr⟩
  · exact ⟨e, he, rfl, fun _ hr => hr⟩

theorem Tidy.setEnabled (h : t.Tidy) (id : String) (enabled : Bool) :
    (t.setEnabled id enabled).2.Tidy := by
  simp only [BreakpointTable.setEnabled]
  split
  · exact h
  · exact h.modify id (fun _ => rfl) fun _ => rfl

theorem Tidy.recordHit (h : t.Tidy) (r : RequestId) : (t.recordHit r).2.Tidy := by
  simp only [BreakpointTable.recordHit]
  split
  · exact h
  · exact h.modify _ (fun _ => rfl) fun _ => rfl

/-! ### Taking -/

theorem Tidy.takePending (h : t.Tidy) (name : String) : (t.takePending name).2.Tidy := by
  simp only [BreakpointTable.takePending]
  split
  · exact h
  · refine ⟨h.listed, fun other p hp => ?_, fun other p hp => ?_⟩
    all_goals
      rw [Dict.get?_erase] at hp
      split at hp
      · cases hp
    · exact h.waiting other p hp
    · exact h.needed other p hp

end BreakpointTable

/-- Those that wait but this one, if anybody is left. -/
def PendingClass.without? (id : String) (p : PendingClass) : Option PendingClass :=
  let ids := p.ids.filter (· ≠ id)
  if ids.isEmpty then none else some { p with ids }

theorem PendingClass.without?_eq_some {id : String} {p p' : PendingClass}
    (h : p.without? id = some p') : p'.ids = p.ids.filter (· ≠ id) ∧ p'.ids ≠ [] := by
  simp only [without?] at h
  split at h
  · cases h
  · next hsome =>
    obtain rfl := Option.some.inj h
    refine ⟨rfl, fun hnone => hsome ?_⟩
    rw [List.isEmpty_iff]
    exact hnone

theorem PendingClass.without?_of_notMem {id : String} {p : PendingClass} (h : id ∉ p.ids)
    (hne : p.ids ≠ []) : p.without? id = some p := by
  have hsame : p.ids.filter (· ≠ id) = p.ids :=
    List.filter_eq_self.2 fun other hother => decide_eq_true fun heq => h (heq ▸ hother)
  simp only [without?, hsame]
  exact if_neg fun hnone => hne (List.isEmpty_iff.1 hnone)

namespace BreakpointTable
variable {t t' : BreakpointTable} {id : String}

/-- What is left when a breakpoint is taken out: the others, and the watches that they wait
behind. -/
structure Forgets (t : BreakpointTable) (id : String) (t' : BreakpointTable) : Prop where
  entries : t'.entries = t.entries.erase id
  owners : ∀ r other, t'.owners.get? r = some other → other ≠ id ∧ t.owners.get? r = some other
  pending : ∀ name, t'.pending.get? name = (t.pending.get? name).bind (PendingClass.without? id)

theorem Tidy.forgets (h : t.Tidy) (hf : t.Forgets id t') : t'.Tidy := by
  have hentry {other : String} (hne : other ≠ id) :
      t'.entries.get? other = t.entries.get? other := by
    rw [hf.entries, Dict.get?_erase, if_neg hne]
  refine ⟨fun r other hr => ?_, fun name p' hp' other hid => ?_, fun name p' hp' => ?_⟩
  · obtain ⟨hne, hr⟩ := hf.owners r other hr
    rw [hentry hne]
    exact h.listed r other hr
  · rw [hf.pending] at hp'
    obtain ⟨p, hp, hp'⟩ := Option.bind_eq_some_iff.1 hp'
    rw [(PendingClass.without?_eq_some hp').1, List.mem_filter] at hid
    rw [hentry (of_decide_eq_true hid.2)]
    exact h.waiting name p hp other hid.1
  · rw [hf.pending] at hp'
    obtain ⟨p, hp, hp'⟩ := Option.bind_eq_some_iff.1 hp'
    exact (PendingClass.without?_eq_some hp').2

theorem Tidy.pending_of_apart (h : t.Tidy) {name : String}
    (hapart : ∀ e, t.entries.get? id = some e → e.breakpoint.className ≠ name) :
    t.pending.get? name = (t.pending.get? name).bind (PendingClass.without? id) := by
  cases hp : t.pending.get? name with
  | none => rfl
  | some p =>
    refine (PendingClass.without?_of_notMem (fun hid => ?_) (h.needed name p hp)).symm
    obtain ⟨e, he, hname⟩ := h.waiting name p hp id hid
    exact hapart e he hname

theorem Tidy.forgets_of_none (h : t.Tidy) (hnone : t.entries.get? id = none) : t.Forgets id t where
  entries := (Dict.eq_of_entries (Dict.erase_entries_of_none hnone)).symm
  owners r other hr := by
    refine ⟨?_, hr⟩
    rintro rfl
    obtain ⟨e, he, -⟩ := h.listed r other hr
    rw [hnone] at he
    cases he
  pending name := h.pending_of_apart fun e he => by
    rw [hnone] at he
    cases he

/-- A breakpoint that is removed leaves nothing behind in the table. -/
theorem Tidy.forgets_remove (h : t.Tidy) (id : String) : t.Forgets id (t.remove id).2 := by
  cases he : t.entries.get? id with
  | none =>
    rw [remove_of_none he]
    exact h.forgets_of_none he
  | some e =>
    refine ⟨entries_remove he, fun r other hr => ?_, fun name => ?_⟩
    · rw [owners_remove he, get?_foldl_erase] at hr
      split at hr
      · cases hr
      · next hmem =>
        refine ⟨?_, hr⟩
        rintro rfl
        obtain ⟨e', he', hmem'⟩ := h.listed r other hr
        obtain rfl := Option.some.inj (he.symm.trans he')
        exact hmem hmem'
    · rw [pending_remove he]
      split
      · rfl
      · next hname =>
        refine h.pending_of_apart fun e' he' heq => ?_
        obtain rfl := Option.some.inj (he.symm.trans he')
        exact hname heq.symm

theorem Tidy.remove (h : t.Tidy) (id : String) : (t.remove id).2.Tidy :=
  h.forgets (h.forgets_remove id)

end BreakpointTable

/-! ## Sessions -/

namespace Session

/-- Neither table has a breakpoint of the id. -/
def Unknown (s : Session) (id : String) : Prop :=
  s.breakpoints.entries.get? id = none ∧ s.exceptions.entries.get? id = none

/-- Breakpoints may go, and ids may be drawn. -/
structure Trims (s t : Session) : Prop where
  breakpoints : ∀ id, s.breakpoints.entries.get? id = none → t.breakpoints.entries.get? id = none
  exceptions : ∀ id, s.exceptions.entries.get? id = none → t.exceptions.entries.get? id = none
  tidy : s.breakpoints.Tidy → t.breakpoints.Tidy
  text : t.ids.text = s.ids.text
  next : s.ids.next ≤ t.ids.next

variable {s t : Session}

theorem Trims.of_eq (hbreakpoints : t.breakpoints = s.breakpoints)
    (hexceptions : t.exceptions = s.exceptions) (hids : t.ids = s.ids) : s.Trims t where
  breakpoints := by rw [hbreakpoints]; exact fun _ h => h
  exceptions := by rw [hexceptions]; exact fun _ h => h
  tidy := by rw [hbreakpoints]; exact fun h => h
  text := by rw [hids]
  next := by rw [hids]

theorem Trims.rfl : s.Trims s := .of_eq (Eq.refl _) (Eq.refl _) (Eq.refl _)

theorem Quiet.trims (h : s.Quiet t) : s.Trims t := .of_eq h.breakpoints h.exceptions h.ids

theorem SameTables.trims (h : s.SameTables t) : s.Trims t :=
  .of_eq h.breakpoints h.exceptions h.ids

theorem Trims.unknown (h : s.Trims t) {id : String} (hid : s.Unknown id) : t.Unknown id :=
  ⟨h.breakpoints id hid.1, h.exceptions id hid.2⟩

theorem IdsDiffer.of_trims {start : Nat} (hst : s.Trims t) (hdiffer : t.IdsDiffer start) :
    s.IdsDiffer start := by
  have hinj : Set.InjOn t.ids.text (Set.Ico start t.ids.next) := hdiffer
  rw [hst.text] at hinj
  exact hinj.mono (Set.Ico_subset_Ico_right hst.next)

theorem trims_setBreakpoints {b : BreakpointTable}
    (hentries : ∀ id, s.breakpoints.entries.get? id = none → b.entries.get? id = none)
    (htidy : s.breakpoints.Tidy → b.Tidy) : s.Trims { s with breakpoints := b } :=
  ⟨hentries, fun _ h => h, htidy, Eq.refl _, le_rfl⟩

theorem trims_setExceptions {e : ExceptionTable}
    (hentries : ∀ id, s.exceptions.entries.get? id = none → e.entries.get? id = none) :
    s.Trims { s with exceptions := e } :=
  ⟨fun _ h => h, hentries, fun h => h, Eq.refl _, le_rfl⟩

theorem trims_freshId (s : Session) : s.Trims s.freshId.2 := by
  obtain ⟨htext, m, hle, hlt, -⟩ := s.ids.fresh_spec s.usedId
    (s.breakpoints.entries.size + s.exceptions.entries.size)
  exact ⟨fun _ h => h, fun _ h => h, fun h => h, htext, hle.trans hlt.le⟩

theorem trims_recordHit (request : Option RequestId) (s : Session) :
    s.Trims (recordHit request s).2 := by
  cases request with
  | none => exact .rfl
  | some r =>
    refine trims_setBreakpoints (fun id hid => ?_) fun h => h.recordHit r
    dsimp only
    split
    · exact hid
    · exact Dict.get?_modify_eq_none hid

theorem trims_bookRequests (id : String) (requests : List RequestId) (s : Session) :
    s.Trims (bookRequests id requests s).2 := by
  refine trims_setBreakpoints (fun other hother => ?_) fun h => h.materialize id requests
  dsimp only
  split
  · exact hother
  · exact Dict.get?_modify_eq_none hother

theorem trims_takePending (name : String) (s : Session) : s.Trims (takePending name s).2 :=
  trims_setBreakpoints (fun _ => (s.breakpoints.thins_takePending name).unlisted)
    fun h => h.takePending name

theorem trims_storeEnabled (id : String) (enabled : Bool) (s : Session) :
    s.Trims (storeEnabled id enabled s).2 := by
  cases he : s.breakpoints.entries.get? id with
  | none =>
    rw [storeEnabled_of_none he]
    exact trims_setExceptions fun _ => Dict.get?_modify_eq_none
  | some e =>
    rw [storeEnabled_of_some he]
    exact trims_setBreakpoints (fun _ h => (s.breakpoints.thins_setEnabled id enabled).unlisted h)
      fun h => h.setEnabled id enabled

theorem trims_takeOut (id : String) (s : Session) : s.Trims (takeOut id s).2 := by
  cases he : s.breakpoints.entries.get? id with
  | none =>
    rw [takeOut_of_none he]
    refine trims_setExceptions fun other hother => ?_
    simp only [ExceptionTable.remove, Dict.get?_erase, hother, ite_self]
  | some e =>
    obtain ⟨requests, htake⟩ := takeOut_of_some he
    rw [htake]
    exact trims_setBreakpoints (fun _ h => (s.breakpoints.thins_remove id).unlisted h)
      fun h => h.remove id

theorem trims_takeAll (s : Session) : s.Trims (takeAll s).2 :=
  ⟨fun _ _ => rfl, fun _ _ => rfl, fun _ => BreakpointTable.tidy_empty, Eq.refl _, le_rfl⟩

/-! ### Ids on their way -/

/-- The tables are tidy, and each id, in one of them or drawn and on its way there, is that of one
breakpoint. -/
structure InOrder (start : Nat) (names : Multiset String) (s : Session) : Prop where
  tidy : s.breakpoints.Tidy
  apart : ∀ id, s.breakpoints.entries.get? id = none ∨ s.exceptions.entries.get? id = none
  drawn : s.ids.Drawn start names
  unused : ∀ id ∈ names, s.Unknown id
  spent : ∀ id, ¬s.Unknown id → s.ids.Spent start id

namespace InOrder
variable {start : Nat} {names : Multiset String} {b : Breakpoint}

theorem of_new (id : String) (settings : SessionConfig) (createdAt : UInt64) (ids : IdSupply) :
    InOrder ids.next 0 (Session.new id settings createdAt ids) where
  tidy := BreakpointTable.tidy_empty
  apart _ := .inl rfl
  drawn := ids.drawn_zero
  unused id hid := (Multiset.notMem_zero id hid).elim
  spent _ hid := absurd ⟨rfl, rfl⟩ hid

theorem trims (h : InOrder start names s) (hst : s.Trims t) : InOrder start names t where
  tidy := hst.tidy h.tidy
  apart id := (h.apart id).imp (hst.breakpoints id) (hst.exceptions id)
  drawn := ⟨h.drawn.nodup,
    fun id hid => IdSupply.Spent.mono (h.drawn.drawn id hid) hst.text hst.next,
    h.drawn.start_le.trans hst.next⟩
  unused id hid := hst.unknown (h.unused id hid)
  spent id hid := (h.spent id fun hs => hid (hst.unknown hs)).mono hst.text hst.next

/-- An id that is drawn is that of no breakpoint, and of none that is on its way. -/
theorem freshId (h : InOrder start names s) (hdiffer : s.freshId.2.IdsDiffer start) :
    InOrder start (s.freshId.1 ::ₘ names) s.freshId.2 := by
  have htrims := h.trims s.trims_freshId
  obtain ⟨htext, m, hle, hlt, hm⟩ := s.ids.fresh_spec s.usedId
    (s.breakpoints.entries.size + s.exceptions.entries.size)
  refine { htrims with drawn := ?_, unused := fun id hid => ?_ }
  · rw [← Multiset.singleton_add, add_comm]
    exact drawn_freshId h.drawn hdiffer
  · rcases Multiset.mem_cons.1 hid with rfl | hid
    · -- the supply goes on, so an id drawn before has another number
      by_contra hknown
      obtain ⟨n, hn, hn', heq⟩ := h.spent _ hknown
      have hbelow : n < s.freshId.2.ids.next := hn'.trans_le (hle.trans hlt.le)
      have hnm : n = m := by
        refine hdiffer ⟨hn, hbelow⟩ ⟨h.drawn.start_le.trans hle, hlt⟩ ?_
        show (s.ids.fresh _ _).2.text n = (s.ids.fresh _ _).2.text m
        rw [htext, heq, hm]
        rfl
      omega
    · exact htrims.unused id hid

/-- The next breakpoint in one of the tables has an id that was on its way. -/
theorem add {id : String} (h : InOrder start (id ::ₘ names) s) (htidy : t.breakpoints.Tidy)
    (hids : t.ids = s.ids) (hothers : ∀ other, other ≠ id →
      t.breakpoints.entries.get? other = s.breakpoints.entries.get? other ∧
        t.exceptions.entries.get? other = s.exceptions.entries.get? other)
    (hone : t.breakpoints.entries.get? id = none ∨ t.exceptions.entries.get? id = none) :
    InOrder start names t := by
  have hapart : id ∉ names := (Multiset.nodup_cons.1 h.drawn.nodup).1
  refine ⟨htidy, fun other => ?_, ?_, fun other hother => ?_, fun other hother => ?_⟩
  · by_cases hid : other = id
    · exact hid ▸ hone
    · rw [(hothers other hid).1, (hothers other hid).2]
      exact h.apart other
  · rw [hids]
    exact h.drawn.mono (Multiset.le_cons_self _ _)
  · have hne : other ≠ id := fun heq => hapart (heq ▸ hother)
    obtain ⟨hbreakpoints, hexceptions⟩ := h.unused other (Multiset.mem_cons_of_mem hother)
    exact ⟨(hothers other hne).1.trans hbreakpoints, (hothers other hne).2.trans hexceptions⟩
  · rw [hids]
    by_cases hid : other = id
    · rw [hid]
      exact h.drawn.drawn id (Multiset.mem_cons_self _ _)
    · refine h.spent other fun hunknown => hother ⟨?_, ?_⟩
      · exact (hothers other hid).1.trans hunknown.1
      · exact (hothers other hid).2.trans hunknown.2

theorem insertInstalled (h : InOrder start (b.id ::ₘ names) s) (requests : List RequestId) :
    InOrder start names { s with breakpoints := s.breakpoints.insertInstalled b requests } := by
  have hnew := h.unused b.id (Multiset.mem_cons_self _ _)
  have htidy := h.tidy.insert
    (b := { b with pending := false, resolvedLocations := requests.length }) hnew.1 requests
  refine h.add htidy rfl (fun other hne => ⟨?_, rfl⟩) (.inr hnew.2)
  show (s.breakpoints.entries.insert b.id _).get? other = _
  rw [Dict.get?_insert, if_neg hne]

theorem insertPending (h : InOrder start (b.id ::ₘ names) s) (watch : RequestId) :
    InOrder start names { s with breakpoints := s.breakpoints.insertPending b watch } := by
  have hnew := h.unused b.id (Multiset.mem_cons_self _ _)
  refine h.add (h.tidy.insertPending hnew.1 watch) rfl (fun other hne => ⟨?_, rfl⟩) (.inr hnew.2)
  show (s.breakpoints.entries.insert b.id _).get? other = _
  rw [Dict.get?_insert, if_neg hne]

theorem insertException {b : ExceptionBreakpoint} (h : InOrder start (b.id ::ₘ names) s)
    (r : RequestId) : InOrder start names { s with exceptions := s.exceptions.insert b r } := by
  have hnew := h.unused b.id (Multiset.mem_cons_self _ _)
  refine h.add h.tidy rfl (fun other hne => ⟨rfl, ?_⟩) (.inl hnew.1)
  show (s.exceptions.entries.insert b.id _).get? other = _
  rw [Dict.get?_insert, if_neg hne]

end InOrder

/-! ### Taking out -/

/-- What is left when a breakpoint of either kind is taken out. -/
structure Forgets (s : Session) (id : String) (t : Session) : Prop where
  breakpoints : s.breakpoints.Forgets id t.breakpoints
  exceptions : t.exceptions.entries = s.exceptions.entries.erase id
  rest : t = { s with breakpoints := t.breakpoints, exceptions := t.exceptions }

theorem InOrder.forgets_takeOut {start : Nat} {names : Multiset String}
    (h : InOrder start names s) (id : String) : s.Forgets id (takeOut id s).2 := by
  cases he : s.breakpoints.entries.get? id with
  | none =>
    rw [takeOut_of_none he]
    exact ⟨h.tidy.forgets_of_none he, rfl, rfl⟩
  | some e =>
    have hnone : s.exceptions.entries.get? id = none :=
      (h.apart id).resolve_left fun h => by rw [he] at h; cases h
    obtain ⟨requests, htake⟩ := takeOut_of_some he
    rw [htake]
    refine ⟨h.tidy.forgets_remove id, ?_, rfl⟩
    exact (Dict.eq_of_entries (Dict.erase_entries_of_none hnone)).symm

end Session

end JvmDebug
