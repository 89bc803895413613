import JvmDebug.Proofs.DictSum
import JvmDebug.Proofs.FreshIds
import JvmDebug.Registry

/-!
The books of the registry: which sessions are open under which ids, and which of them is active.
Sessions enter and leave one at a time, and the first of those that remain takes the place of an
active one.
-/
namespace JvmDebug

/-! ## The order of the books -/

/-- The same sessions are open under the same ids, with the same one active. -/
structure Registry.SameBooks (r r' : Registry) : Prop where
  numbers : r'.numbers = r.numbers
  active : r'.active = r.active
  ids : r'.sessions.map Session.id = r.sessions.map Session.id

namespace Registry

theorem SameBooks.rfl {r : Registry} : r.SameBooks r := ⟨Eq.refl _, Eq.refl _, Eq.refl _⟩

theorem SameBooks.trans {r r' r'' : Registry} (h : r.SameBooks r') (h' : r'.SameBooks r'') :
    r.SameBooks r'' :=
  ⟨h'.numbers.trans h.numbers, h'.active.trans h.active, h'.ids.trans h.ids⟩

theorem sameBooks_setSession (r : Registry) (n : Nat) {s : Session}
    (hid : s.id = (r.session n).id) : r.SameBooks (r.setSession n s) := by
  refine ⟨rfl, rfl, ?_⟩
  show (r.sessions.set n s).map Session.id = r.sessions.map Session.id
  rw [List.map_set, hid]
  apply List.ext_getElem?
  intro i
  rw [List.getElem?_set]
  by_cases hi : n = i
  · subst hi
    simp only [if_true, List.length_map, List.getElem?_map]
    by_cases hlt : n < r.sessions.length
    · simp [hlt, Registry.session]
    · simp [hlt]
  · rw [if_neg hi]

/-- Each id leads to a session of that id, and there is an active one exactly if any is open. -/
structure Sound (r : Registry) : Prop where
  named : ∀ id n, r.numbers.get? id = some n → (r.sessions[n]?).map Session.id = some id
  active : r.active = none ↔ r.numbers.keys = []
  activeOpen : ∀ id, r.active = some id → id ∈ r.numbers.keys

/-- The list has each open session once, with a mark at the active one. -/
structure Listed (r : Registry) : Prop where
  ids : (r.list.map SessionInfo.id).Perm r.numbers.keys
  marked : (r.list.filter SessionInfo.active).map SessionInfo.id = r.active.toList

/-- Of the next ids one is not in use, with one more to choose from than there are open sessions. -/
def HasFreeId (r : Registry) : Prop :=
  ∃ k ≤ r.numbers.size, r.numbers.contains (r.ids.text (r.ids.next + k)) = false

/-- The open sessions and the active one are as before. -/
structure Unchanged (r r' : Registry) : Prop where
  numbers : r'.numbers = r.numbers
  active : r'.active = r.active
  sessions : ∀ id n, r.numbers.get? id = some n → r'.sessions[n]? = r.sessions[n]?

end Registry

/-! ## Ids -/

namespace Registry

theorem hasFreeId_of_injOn (r : Registry) (hinj : Set.InjOn r.ids.text
      (Set.Ico r.ids.next (r.ids.next + r.numbers.size + 1))) : r.HasFreeId := by
  have hsize : r.numbers.size = r.numbers.keys.length := by simp [Dict.size, Dict.keys]
  rw [hsize] at hinj
  obtain ⟨k, hk, hfree⟩ := IdSupply.exists_unused hinj
  refine ⟨k, by rw [hsize]; exact hk, ?_⟩
  rw [Dict.contains, Dict.get?_eq_none.2 hfree]
  rfl

theorem least?_eq_none {ids : List String} : least? ids = none ↔ ids = [] := by
  cases ids with
  | nil => simp [least?]
  | cons id ids =>
    simp only [least?]
    split <;> simp

theorem least_of_least? {ids : List String} {next : String} (h : least? ids = some next) :
    next ∈ ids ∧ ∀ other ∈ ids, ¬ other < next := by
  induction ids generalizing next with
  | nil => cases h
  | cons id ids ih =>
    simp only [least?] at h
    cases hleast : least? ids with
    | none =>
      rw [hleast] at h
      obtain rfl : id = next := by simpa using h
      rw [least?_eq_none.1 hleast]
      refine ⟨List.mem_singleton_self id, fun other hother => ?_⟩
      rw [List.mem_singleton.1 hother]
      exact String.lt_irrefl id
    | some other =>
      obtain ⟨hmem, hmin⟩ := ih hleast
      rw [hleast] at h
      by_cases hless : other < id
      · obtain rfl : other = next := by simpa [hless] using h
        refine ⟨List.mem_cons_of_mem id hmem, ?_⟩
        intro k hk
        rcases List.mem_cons.1 hk with rfl | hk
        · exact String.lt_asymm hless
        · exact hmin k hk
      · obtain rfl : id = next := by simpa [hless] using h
        refine ⟨List.mem_cons_self, ?_⟩
        intro k hk
        rcases List.mem_cons.1 hk with rfl | hk
        · exact String.lt_irrefl k
        · have hle : id ≤ k := String.le_trans (String.not_lt.1 hless) (String.not_lt.1 (hmin k hk))
          exact String.not_lt.2 hle

/-- The least of the ids is the one that no other goes before. -/
theorem least?_eq_some {ids : List String} {next : String} :
    least? ids = some next ↔ next ∈ ids ∧ ∀ other ∈ ids, ¬ other < next := by
  refine ⟨least_of_least?, ?_⟩
  rintro ⟨hmem, hmin⟩
  cases hleast : least? ids with
  | none =>
    rw [least?_eq_none.1 hleast] at hmem
    cases hmem
  | some other =>
    obtain ⟨hother, hbefore⟩ := least_of_least? hleast
    have hle : other ≤ next := String.not_lt.1 (hbefore next hmem)
    have hge : next ≤ other := String.not_lt.1 (hmin other hother)
    rw [String.le_antisymm hle hge]

/-! ## Changes to the books -/

variable {r r' : Registry}

/-- Books with the same numbers and the same active session are sound if the numbers still stand
for the ids. -/
theorem Sound.of_numbers (h : r.Sound) (hnumbers : r'.numbers = r.numbers)
    (hactive : r'.active = r.active)
    (hids : ∀ id n, r.numbers.get? id = some n →
      (r'.sessions[n]?).map Session.id = (r.sessions[n]?).map Session.id) : r'.Sound where
  named id n hid := by
    rw [hnumbers] at hid
    exact (hids id n hid).trans (h.named id n hid)
  active := by
    rw [hactive, hnumbers]
    exact h.active
  activeOpen id hid := by
    rw [hnumbers]
    rw [hactive] at hid
    exact h.activeOpen id hid

theorem Sound.of_sameBooks (h : r.Sound) (hsame : r.SameBooks r') : r'.Sound :=
  h.of_numbers hsame.numbers hsame.active fun id n _ => by
    rw [← List.getElem?_map, hsame.ids, List.getElem?_map]

theorem Sound.lt_length (h : r.Sound) {id : String} {n : Nat}
    (hid : r.numbers.get? id = some n) : n < r.sessions.length := by
  have hnamed := h.named id n hid
  by_contra hn
  rw [List.getElem?_eq_none (by omega)] at hnamed
  cases hnamed

theorem Sound.of_unchanged (h : r.Sound) (hsame : r.Unchanged r') : r'.Sound :=
  h.of_numbers hsame.numbers hsame.active fun id n hid => by rw [hsame.sessions id n hid]

theorem Unchanged.rfl : r.Unchanged r := ⟨Eq.refl _, Eq.refl _, fun _ _ _ => Eq.refl _⟩

/-- The books with one more session, which was just created. -/
structure Enters (r : Registry) (id : String) (r' : Registry) : Prop where
  fresh : r.numbers.get? id = none
  numbers : r'.numbers = r.numbers.insert id r.sessions.length
  active : r'.active = (r.active <|> some id)
  sessions : ∃ s : Session, s.id = id ∧ s.state = .created ∧ r'.sessions = r.sessions ++ [s]

theorem enters_insert {id : String} (h : r.numbers.get? id = none) (now : Nat) :
    r.Enters id (r.insert id now).2 :=
  ⟨h, rfl, rfl, _, rfl, rfl, rfl⟩

namespace Enters
variable {id : String}

theorem keys (h : r.Enters id r') : r'.numbers.keys = r.numbers.keys ++ [id] := by
  rw [h.numbers, Dict.keys, Dict.insert_entries_of_none h.fresh, List.map_append]
  rfl

theorem active_of_some (h : r.Enters id r') {a : String} (ha : r.active = some a) :
    r'.active = some a := by
  rw [h.active, ha]
  rfl

theorem active_of_none (h : r.Enters id r') (ha : r.active = none) : r'.active = some id := by
  rw [h.active, ha]
  rfl

theorem get? (h : r.Enters id r') {j : String} {n : Nat} (hj : r.numbers.get? j = some n) :
    r'.numbers.get? j = some n := by
  have hne : j ≠ id := by
    rintro rfl
    rw [h.fresh] at hj
    cases hj
  rw [h.numbers, Dict.get?_insert, if_neg hne, hj]

theorem sound (hr : r.Sound) (h : r.Enters id r') : r'.Sound := by
  obtain ⟨s, hid, -, hsessions⟩ := h.sessions
  refine ⟨?_, ?_, ?_⟩
  · intro j n hj
    rw [h.numbers, Dict.get?_insert] at hj
    rw [hsessions]
    by_cases hji : j = id
    · rw [if_pos hji] at hj
      obtain rfl : r.sessions.length = n := by simpa using hj
      simp [hid, hji]
    · rw [if_neg hji] at hj
      rw [List.getElem?_append_left (hr.lt_length hj)]
      exact hr.named j n hj
  · rw [h.keys]
    cases ha : r.active with
    | none => simp [h.active_of_none ha]
    | some a => simp [h.active_of_some ha]
  · intro j hj
    rw [h.keys]
    cases ha : r.active with
    | none =>
      rw [h.active_of_none ha] at hj
      obtain rfl : id = j := by simpa using hj
      simp
    | some a =>
      rw [h.active_of_some ha] at hj
      obtain rfl : a = j := by simpa using hj
      exact List.mem_append_left _ (hr.activeOpen a ha)

/-- Taking the new session out again restores the books. -/
theorem unchanged_forget (hr : r.Sound) (h : r.Enters id r') :
    r.Unchanged (r'.forget id).2 := by
  obtain ⟨s, -, -, hsessions⟩ := h.sessions
  have hget : r'.numbers.get? id = some r.sessions.length := by
    rw [h.numbers, Dict.get?_insert, if_pos rfl]
  have hnumbers : r'.numbers.erase id = r.numbers := by
    apply Dict.eq_of_entries
    have hin := Dict.insert_entries_of_none h.fresh r.sessions.length
    have hout := Dict.erase_entries_of_none h.fresh
    simp only [Dict.erase] at hout
    simp only [h.numbers, Dict.erase, hin, List.filter_append, hout]
    simp
  simp only [forget, hget, hnumbers]
  refine ⟨rfl, ?_, ?_⟩
  · cases ha : r.active with
    | none => simp [h.active_of_none ha, hr.active.1 ha, least?]
    | some a =>
      have hne : a ≠ id := by
        rintro rfl
        have hopen := hr.activeOpen a ha
        exact Dict.get?_eq_none.1 h.fresh hopen
      simp [h.active_of_some ha, hne]
  · intro j n hj
    show r'.sessions[n]? = r.sessions[n]?
    rw [hsessions, List.getElem?_append_left (hr.lt_length hj)]

end Enters

theorem mem_keys {id : String} : id ∈ r.numbers.keys ↔ (r.numbers.get? id).isSome := by
  rw [Option.isSome_iff_ne_none, ne_eq, Dict.get?_eq_none, not_not]

theorem keys_erase (r : Registry) (id j : String) :
    j ∈ (r.numbers.erase id).keys ↔ j ≠ id ∧ j ∈ r.numbers.keys := by
  simp only [Dict.keys, Dict.erase, List.mem_map, List.mem_filter]
  constructor
  · rintro ⟨p, ⟨hp, hne⟩, rfl⟩
    exact ⟨by simpa using hne, p, hp, rfl⟩
  · rintro ⟨hne, p, hp, rfl⟩
    exact ⟨p, ⟨hp, by simpa using hne⟩, rfl⟩

/-- The books without a session. -/
structure Leaves (r : Registry) (id : String) (r' : Registry) : Prop where
  mem : id ∈ r.numbers.keys
  numbers : r'.numbers = r.numbers.erase id
  active : r'.active = if r.active = some id then least? r'.numbers.keys else r.active
  sessions : r'.sessions = r.sessions

theorem leaves_forget {id : String} {n : Nat} (h : r.numbers.get? id = some n) :
    (r.forget id).1 = some n ∧ r.Leaves id (r.forget id).2 := by
  have hmem : id ∈ r.numbers.keys := by
    rw [mem_keys, h]
    rfl
  simp only [forget, h]
  exact ⟨trivial, hmem, rfl, rfl, rfl⟩

theorem Leaves.sound {id : String} (hr : r.Sound) (h : r.Leaves id r') : r'.Sound := by
  refine ⟨?_, ?_, ?_⟩
  · intro j n hj
    rw [h.numbers, Dict.get?_erase] at hj
    rw [h.sessions]
    split at hj
    · cases hj
    · exact hr.named j n hj
  · by_cases ha : r.active = some id
    · rw [h.active, if_pos ha, least?_eq_none]
    · rw [h.active, if_neg ha]
      have hkeys : r.numbers.keys ≠ [] := List.ne_nil_of_mem h.mem
      have hsome : r.active ≠ none := fun hnone => hkeys (hr.active.1 hnone)
      obtain ⟨a, hactive⟩ := Option.ne_none_iff_exists'.1 hsome
      have hstays : a ∈ r'.numbers.keys := by
        rw [h.numbers, keys_erase]
        refine ⟨?_, hr.activeOpen a hactive⟩
        rintro rfl
        exact ha hactive
      simp [hactive, List.ne_nil_of_mem hstays]
  · intro j hj
    rw [h.active] at hj
    by_cases ha : r.active = some id
    · rw [if_pos ha] at hj
      exact (least_of_least? hj).1
    · rw [if_neg ha] at hj
      rw [h.numbers, keys_erase]
      refine ⟨?_, hr.activeOpen j hj⟩
      rintro rfl
      exact ha hj

theorem Sound.activate {id : String} (h : r.Sound) (hopen : id ∈ r.numbers.keys) :
    ({ r with active := some id } : Registry).Sound where
  named := h.named
  active := by simp [List.ne_nil_of_mem hopen]
  activeOpen j hj := by
    obtain rfl : id = j := by simpa using hj
    exact hopen

theorem sound_forgetAll (r : Registry) : r.forgetAll.2.Sound where
  named id n h := by cases h
  active := ⟨fun _ => rfl, fun _ => rfl⟩
  activeOpen id h := by cases h

theorem enters_create {id : Option String} {now n : Nat}
    (hsupplied : id = none → r.HasFreeId)
    (h : r.create id now = .ok (n, r')) : n = r.sessions.length ∧ ∃ id, r.Enters id r' := by
  cases id with
  | some id =>
    simp only [create] at h
    split at h
    · cases h
    · next hcontains =>
      cases h
      refine ⟨rfl, id, enters_insert ?_ now⟩
      simpa [Dict.contains] using hcontains
  | none =>
    simp only [create, Except.ok.injEq] at h
    have hfree := IdSupply.fresh_unused (hsupplied rfl)
    generalize r.ids.fresh r.numbers.contains r.numbers.size = drawn at h hfree
    cases h
    refine ⟨rfl, drawn.1, ?_, rfl, rfl, _, rfl, rfl, rfl⟩
    simpa [Dict.contains] using hfree

/-- A session that is to be attached was just created, be it for that or before. -/
theorem reserve_spec {id : Option String} {now n : Nat} {made : Bool}
    (hsupplied : id = none → r.HasFreeId)
    (h : r.reserve id now = .ok (n, made, r')) :
    (r'.session n).state = .created ∧
      if made then r.Enters (r'.session n).id r' else r' = r := by
  have hmade (id : Option String) (hsupplied : id = none → r.HasFreeId)
      (h : (r.create id now).map (fun x => (x.1, true, x.2)) = .ok (n, made, r')) :
      (r'.session n).state = .created ∧
        if made then r.Enters (r'.session n).id r' else r' = r := by
    cases hcreate : r.create id now with
    | error e =>
      rw [hcreate] at h
      cases h
    | ok x =>
      rw [hcreate] at h
      cases h
      obtain ⟨hn, id, henters⟩ := enters_create hsupplied hcreate
      obtain ⟨s, rfl, hstate, hsessions⟩ := henters.sessions
      have hsession : x.2.session x.1 = s := by simp [session, hsessions, hn]
      rw [hsession]
      exact ⟨hstate, henters⟩
  simp only [reserve] at h
  split at h
  · next id n hid =>
    split at h
    · next hstate =>
      cases h
      exact ⟨hstate, rfl⟩
    · cases h
  · exact hmade id hsupplied h

theorem Sound.listed (h : r.Sound) : r.Listed := by
  have hids : (r.numbers.values.map fun n => (r.session n).id) = r.numbers.keys := by
    rw [Dict.values, List.map_map, Dict.keys]
    apply List.map_congr_left
    rintro ⟨id, n⟩ hmem
    have hnamed := h.named id n (Dict.mem_entries.1 hmem)
    cases hs : r.sessions[n]? with
    | none =>
      rw [hs] at hnamed
      cases hnamed
    | some s =>
      rw [hs] at hnamed
      simpa [session, hs] using hnamed
  have hlist : (r.list.map fun i => (i.id, i.active)).Perm
      (r.numbers.keys.map fun id => (id, r.active == some id)) := by
    refine ((List.mergeSort_perm _ before).map _).trans ?_
    rw [List.map_map, ← hids, List.map_map]
    exact List.Perm.refl _
  constructor
  · have hfst := hlist.map Prod.fst
    rw [List.map_map, List.map_map] at hfst
    simpa [Function.comp_def] using hfst
  · have hmarked : ((r.list.filter SessionInfo.active).map SessionInfo.id).Perm
        (r.numbers.keys.filter fun id => r.active == some id) := by
      have hfilter := (hlist.filter Prod.snd).map Prod.fst
      rw [List.filter_map, List.filter_map, List.map_map, List.map_map] at hfilter
      simpa [Function.comp_def] using hfilter
    cases hactive : r.active with
    | none =>
      rw [hactive] at hmarked
      simpa using hmarked
    | some a =>
      have hone : (r.numbers.keys.filter fun id => r.active == some id) = [a] := by
        have hsame : (fun id => r.active == some id) = fun id => id == a := by
          funext id
          rw [hactive]
          by_cases hid : id = a
          · simp [hid]
          · simp [hid, Ne.symm hid]
        have honce : r.numbers.keys.count a = 1 :=
          List.count_eq_one_of_mem r.numbers.nodup (h.activeOpen a hactive)
        rw [hsame, List.filter_beq, honce]
        rfl
      rw [hone] at hmarked
      exact List.perm_singleton.1 hmarked

end Registry

end JvmDebug
