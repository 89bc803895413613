import JvmDebug.Proofs.RegistryBooks
import JvmDebug.Proofs.RegistryChanges
import JvmDebug.Vm.Boot

/-!
The registry of sessions, whatever is done with it and however connecting fails: each open session
is filed under its own id, the active session is one of the open ones as long as there are any, and
what fails leaves everything as it was.
-/
namespace JvmDebug

/-! ## Uses -/

/-- What is done with the sessions of a debugger. In between anything may happen that does not
concern the books of the registry. -/
inductive RegistryUse
  | create (id : Option String)
  | attach (id name : Option String) (target : Destination)
  | setActive (id : String)
  | rename (id name : String)
  | remove (id : String)
  | closeAll
  | other (f : Simulation → Simulation) (apart : ∀ w : Simulation, w.SameBooks (f w))

namespace Simulation

def keep (w : Simulation) (r : Except DebugError Registry) : Except DebugError Unit × Simulation :=
  match r with
  | .ok registry => (.ok (), { w with registry })
  | .error e => (.error e, w)

def use (w : Simulation) : RegistryUse → Except DebugError Unit × Simulation
  | .create id => w.keep ((w.registry.create id w.now).map Prod.snd)
  | .attach id name target =>
    let (r, w) := w.attach id name target
    (r.map fun _ => (), w)
  | .setActive id => w.keep (w.registry.setActive id)
  | .rename id name => w.keep (w.registry.rename id name)
  | .remove id => w.remove id
  | .closeAll => (.ok (), w.closeAll)
  | .other f _ => (.ok (), f w)

def uses (w : Simulation) (us : List RegistryUse) : Simulation :=
  us.foldl (fun w u => (w.use u).2) w

end Simulation

namespace RegistryUse

def drawsId : RegistryUse → Bool
  | create none | attach none .. => true
  | _ => false

/-- If an id has to be drawn, one of the next has to do. -/
def Supplied (u : RegistryUse) (w : Simulation) : Prop := u.drawsId → w.registry.HasFreeId

/-- What a use makes of the open sessions and of the active one. -/
def Effect (u : RegistryUse) (w : Simulation) : Prop :=
  let r := w.registry
  let r' := (w.use u).2.registry
  match u, (w.use u).1 with
  | create _, .ok _ =>
    (∀ id, r.active = some id → r'.active = some id) ∧
      ∀ id n, r.numbers.get? id = some n → r'.numbers.get? id = some n
  | attach .., .ok _ =>
    (w.link.due "connect").1 = none ∧
      (∀ id, r.active = some id → r'.active = some id) ∧
      ∀ id n, r.numbers.get? id = some n → r'.numbers.get? id = some n
  | setActive id, .ok _ => r'.numbers = r.numbers ∧ r'.active = some id
  | remove id, .ok _ =>
    r'.numbers = r.numbers.erase id ∧
      if r.active = some id then
        ∀ next, r'.active = some next ↔
          next ∈ r'.numbers.keys ∧ ∀ other ∈ r'.numbers.keys, ¬ other < next
      else r'.active = r.active
  | remove id, .error e => id ∉ r.numbers.keys ∧ e = .sessionNotFound id ∧ r.Unchanged r'
  | closeAll, _ => r'.numbers = .empty ∧ r'.active = none
  | create _, .error _ | attach .., .error _ | setActive _, .error _ => r.Unchanged r'
  | rename .., _ | other .., _ => r.SameBooks r'

end RegistryUse

/-- Whenever an id has to be drawn in the run, one of the next has to do. -/
def Simulation.Supplied (w : Simulation) : List RegistryUse → Prop
  | [] => True
  | u :: us => u.Supplied w ∧ (w.use u).2.Supplied us

/-! ## Runs -/

namespace Simulation
variable {w : Simulation}

/-- Attaching fails and changes nothing, or attaches a session that was just created. -/
theorem attach_spec (hr : w.registry.Sound) {id : Option String} (name : Option String)
    (target : Destination) (hsupplied : id = none → w.registry.HasFreeId) :
    (∃ e, (w.attach id name target).1 = .error e ∧
      w.registry.Unchanged (w.attach id name target).2.registry) ∨
    (∃ n, (w.attach id name target).1 = .ok n ∧ (w.link.due "connect").1 = none ∧
      ∃ r : Registry, (r = w.registry ∨ ∃ id, w.registry.Enters id r) ∧
        r.SameBooks (w.attach id name target).2.registry) := by
  simp only [attach]
  cases hreserve : w.registry.reserve id w.now with
  | error e => exact .inl ⟨e, rfl, .rfl⟩
  | ok x =>
    obtain ⟨n, made, r⟩ := x
    obtain ⟨hstate, hentered⟩ := Registry.reserve_spec hsupplied hreserve
    dsimp only
    cases hdue : w.link.due "connect" with
    | mk failure link =>
      cases failure with
      | some e =>
        refine .inl ?_
        cases made with
        | true => exact ⟨_, rfl, hentered.unchanged_forget hr⟩
        | false =>
          obtain rfl : r = w.registry := hentered
          exact ⟨_, rfl, .rfl⟩
      | none =>
        have hconnect := Session.always_connect
          { r.session n with clock := UInt64.ofNat w.now } target.origin target.describe
        have hran : (({ w with registry := r, link } : Simulation).run n
            (Session.connect target.origin target.describe).run).1 = .ok () :=
          (hconnect.run Link.answer link).2 hstate
        have hsame := sameBooks_run { w with registry := r, link } n fun s =>
          (Session.always_connect s target.origin target.describe).mono fun _ _ _ h => h.1
        dsimp only
        generalize ({ w with registry := r, link } : Simulation).run n
          (Session.connect target.origin target.describe).run = out at hran hsame
        obtain ⟨result, w'⟩ := out
        obtain rfl : result = .ok () := hran
        have hentered' : r = w.registry ∨ ∃ id, w.registry.Enters id r := by
          cases made with
          | true => exact .inr ⟨_, hentered⟩
          | false => exact .inl hentered
        have hread := (hsame.trans (sameBooks_startReading w' n)).trans (sameBooks_settle _)
        cases name with
        | none => exact .inr ⟨n, rfl, rfl, r, hentered', hread⟩
        | some name =>
          have hnamed := hread.trans (Registry.sameBooks_setSession _ n
            (s := ((w'.startReading n).settle.session n).rename name) rfl)
          exact .inr ⟨n, rfl, rfl, r, hentered', hnamed⟩

/-- The books of a target that was attached are those of the registry with the session entered. -/
theorem use_attach (hr : w.registry.Sound) {id : Option String} (name : Option String)
    (target : Destination) (hfree : id = none → w.registry.HasFreeId) :
    (RegistryUse.attach id name target).Effect w ∧
      (w.use (.attach id name target)).2.registry.Sound := by
  rcases attach_spec hr name target hfree with ⟨e, he, hsame⟩ | ⟨n, hn, hdue, r, hentered, hsame⟩
  · simp only [RegistryUse.Effect, use, he, Except.map]
    exact ⟨hsame, hr.of_unchanged hsame⟩
  · simp only [RegistryUse.Effect, use, hn, Except.map]
    rcases hentered with rfl | ⟨id, henters⟩
    · refine ⟨⟨hdue, ?_, ?_⟩, hr.of_sameBooks hsame⟩
      · intro a ha
        rw [hsame.active, ha]
      · intro j m hj
        rw [hsame.numbers, hj]
    · refine ⟨⟨hdue, ?_, ?_⟩, (henters.sound hr).of_sameBooks hsame⟩
      · intro a ha
        rw [hsame.active, henters.active_of_some ha]
      · intro j m hj
        rw [hsame.numbers, henters.get? hj]

theorem use_remove (hr : w.registry.Sound) (id : String) :
    (RegistryUse.remove id).Effect w ∧ (w.use (.remove id)).2.registry.Sound := by
  cases hget : w.registry.numbers.get? id with
  | none =>
    simp only [RegistryUse.Effect, use, remove, Registry.forget, hget]
    exact ⟨⟨Dict.get?_eq_none.1 hget, trivial, .rfl⟩, hr⟩
  | some n =>
    obtain ⟨hn, hleaves⟩ := Registry.leaves_forget hget
    generalize hforget : w.registry.forget id = out at hn hleaves
    obtain ⟨taken, r⟩ := out
    obtain rfl : taken = some n := hn
    have hsame := sameBooks_close { w with registry := r } n
    simp only [RegistryUse.Effect, use, remove, hforget]
    refine ⟨⟨hsame.numbers.trans hleaves.numbers, ?_⟩, (hleaves.sound hr).of_sameBooks hsame⟩
    split
    · next hactive =>
      intro next
      rw [hsame.active, hsame.numbers, hleaves.active, if_pos hactive]
      exact Registry.least?_eq_some
    · next hactive => rw [hsame.active, hleaves.active, if_neg hactive]

/-- One use of the registry has its effect, and leaves the books sound. -/
theorem use_spec (hr : w.registry.Sound) {u : RegistryUse} (hsupplied : u.Supplied w) :
    u.Effect w ∧ (w.use u).2.registry.Sound := by
  cases u with
  | create id =>
    have hfree : id = none → w.registry.HasFreeId := by
      rintro rfl
      exact hsupplied rfl
    cases hcreate : w.registry.create id w.now with
    | error e =>
      simp only [RegistryUse.Effect, use, keep, hcreate, Except.map]
      exact ⟨.rfl, hr⟩
    | ok x =>
      obtain ⟨-, _, henters⟩ := Registry.enters_create hfree hcreate
      simp only [RegistryUse.Effect, use, keep, hcreate, Except.map]
      exact ⟨⟨fun _ ha => henters.active_of_some ha, fun _ _ hj => henters.get? hj⟩,
        henters.sound hr⟩
  | attach id name target =>
    have hfree : id = none → w.registry.HasFreeId := by
      rintro rfl
      exact hsupplied rfl
    exact use_attach hr name target hfree
  | setActive id =>
    by_cases hopen : w.registry.numbers.contains id
    · simp only [RegistryUse.Effect, use, keep, Registry.setActive, hopen, if_true]
      exact ⟨⟨trivial, trivial⟩, hr.activate (Registry.mem_keys.2 hopen)⟩
    · simp only [RegistryUse.Effect, use, keep, Registry.setActive, hopen, Bool.false_eq_true,
        if_false]
      exact ⟨.rfl, hr⟩
  | rename id name =>
    cases hget : w.registry.get (some id) with
    | error e =>
      simp only [RegistryUse.Effect, use, keep, Registry.rename, hget, Except.map]
      exact ⟨.rfl, hr⟩
    | ok n =>
      have hsame := w.registry.sameBooks_setSession n
        (s := (w.registry.session n).rename name) rfl
      simp only [RegistryUse.Effect, use, keep, Registry.rename, hget, Except.map]
      exact ⟨hsame, hr.of_sameBooks hsame⟩
  | remove id => exact use_remove hr id
  | closeAll =>
    have hsame : w.registry.forgetAll.2.SameBooks w.closeAll.registry :=
      sameBooks_closes w.registry.forgetAll.1 { w with registry := w.registry.forgetAll.2 }
    exact ⟨⟨hsame.numbers, hsame.active⟩, w.registry.sound_forgetAll.of_sameBooks hsame⟩
  | other f apart => exact ⟨apart w, hr.of_sameBooks (apart w)⟩

theorem sound_uses (hr : w.registry.Sound) {us : List RegistryUse} (hsupplied : w.Supplied us) :
    (w.uses us).registry.Sound := by
  induction us generalizing w with
  | nil => exact hr
  | cons u us ih => exact ih (use_spec hr hsupplied.1).2 hsupplied.2

/-- From an empty registry on, the books are in order after every run, and what is done next has
its effect. -/
theorem registry_uses (hnumbers : w.registry.numbers = .empty) (hactive : w.registry.active = none)
    {us : List RegistryUse} (hsupplied : w.Supplied us) :
    (w.uses us).registry.Sound ∧ (w.uses us).registry.Listed ∧
      ∀ u : RegistryUse, u.Supplied (w.uses us) → u.Effect (w.uses us) := by
  have hempty : w.registry.Sound := by
    refine ⟨?_, ?_, ?_⟩
    · intro id n hid
      rw [hnumbers] at hid
      cases hid
    · simp [hnumbers, hactive, Dict.keys, Dict.empty]
    · intro id hid
      rw [hactive] at hid
      cases hid
  have hsound := sound_uses hempty hsupplied
  exact ⟨hsound, hsound.listed, fun u hu => (use_spec hsound hu).1⟩

/-- A machine that nobody has attached to, and cannot be attached to at first. -/
def refusing : Simulation :=
  { link := { vm := Vm.boot, faults := Dict.empty.insert "connect" ⟨0, 1, .timeout⟩ } }

def visits : List RegistryUse :=
  [.create none, .attach (some "b") none (.local 7), .attach (some "b") (some "main") (.local 7),
    .setActive "b", .create (some "a"), .remove "b"]

theorem registry_visits :
    refusing.registry.numbers = .empty ∧ refusing.registry.active = none ∧
      refusing.Supplied visits ∧ (refusing.uses visits).registry.Sound ∧
      (refusing.uses visits).registry.Listed ∧
      ∀ u : RegistryUse, u.Supplied (refusing.uses visits) → u.Effect (refusing.uses visits) := by
  have hsupplied : refusing.Supplied visits := by
    refine ⟨fun _ => ⟨0, Nat.le_refl 0, rfl⟩, ?_⟩
    exact ⟨nofun, nofun, nofun, nofun, nofun, trivial⟩
  exact ⟨rfl, rfl, hsupplied, registry_uses rfl rfl hsupplied⟩

example : (refusing.uses visits).registry.numbers.keys = ["ff4a7c15", "a"] := by decide +kernel

end Simulation

end JvmDebug
