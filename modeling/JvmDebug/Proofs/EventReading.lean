import JvmDebug.Proofs.WireFormat
import JvmDebug.Wire.Event

/-!
Event sets on the wire: what is written is read back, a body that ends too early is refused at every
byte, an unknown kind of event ends the reading, and no count makes the reader turn more often than
there are bytes. Main result: `event_sets_are_read_exactly`.
-/
namespace JvmDebug.Wire

/-! ## What a reader depends on -/

/-- On any bytes the reader takes some of them, whatever follows, or refuses them as a breach of the
protocol. -/
def Local {α : Type} (get : Reader α) : Prop :=
  ∀ front, (∃ taken rest a, front = taken ++ rest ∧ Reads get taken a) ∨
    ∀ offset, ∃ text, get ⟨front, offset⟩ = .error (.protocol text)

section
variable {α β : Type} {get : Reader α}

theorem local_pure (a : α) : Local (pure a : Reader α) :=
  fun front => .inl ⟨[], front, a, rfl, reads_pure a⟩

theorem local_protocol (text : String) : Local (throw (.protocol text) : Reader α) :=
  fun _ => .inr fun _ => ⟨text, rfl⟩

theorem bind_of_ok {next : α → Reader β} {c c' : Cursor} {a : α} (h : get c = .ok (a, c')) :
    (get >>= next) c = next a c' := by
  show Except.bind (get c) _ = _
  rw [h]
  rfl

theorem bind_of_error {next : α → Reader β} {c : Cursor} {e : WireError} (h : get c = .error e) :
    (get >>= next) c = .error e := by
  show Except.bind (get c) _ = _
  rw [h]
  rfl

theorem Local.bind {next : α → Reader β} (h : Local get) (hnext : ∀ a, Local (next a)) :
    Local (get >>= next) := by
  intro front
  obtain ⟨taken, rest, a, rfl, hreads⟩ | herror := h front
  · obtain ⟨more, rest, b, rfl, hmore⟩ | herror := hnext a rest
    · exact .inl ⟨taken ++ more, rest, b, (List.append_assoc ..).symm, hreads.bind hmore⟩
    · refine .inr fun offset => ?_
      rw [bind_of_ok (hreads rest offset)]
      exact herror _
  · refine .inr fun offset => ?_
    obtain ⟨text, htext⟩ := herror offset
    exact ⟨text, bind_of_error htext⟩

theorem Local.map (h : Local get) (f : α → β) : Local (do return f (← get)) :=
  h.bind fun a => local_pure (f a)

theorem local_take (n : Nat) : Local (take n) := by
  intro front
  by_cases hn : (front.take n).length = n
  · have hreads := reads_take (front.take n)
    rw [hn] at hreads
    exact .inl ⟨_, _, _, (List.take_append_drop n front).symm, hreads⟩
  · exact .inr fun offset => ⟨_, if_neg hn⟩

theorem local_nat (width : Nat) : Local (getNat width) := (local_take width).map _

theorem local_u8 : Local getU8 := (local_nat 1).map _

theorem local_u32 : Local getU32 := (local_nat 4).map _

theorem local_u64 : Local getU64 := (local_nat 8).map _

theorem local_i32 : Local getI32 := local_u32.map _

theorem local_id (width : Nat) : Local (getId width) := by
  unfold getId
  split
  · exact (local_nat width).map _
  · exact local_protocol _

theorem local_text : Local getText := by
  refine (local_nat 4).bind fun n => (local_take n).bind fun bytes => ?_
  split
  · exact local_pure _
  · exact local_protocol _

/-- What is taken whole is not taken when a part of it is missing. -/
theorem Local.strict_prefix (h : Local get) {bytes front : Bytes} {a : α}
    (hreads : Reads get bytes a)
    (hfront : front <+: bytes) (hne : front ≠ bytes) :
    ∃ text, get.run front = .error (.protocol text) := by
  obtain ⟨missing, rfl⟩ := hfront
  obtain ⟨taken, rest, b, rfl, htaken⟩ | herror := h front
  · have hwhole := hreads [] 0
    have hpart := htaken (rest ++ missing) 0
    rw [List.append_nil, List.append_assoc, hpart] at hwhole
    have hrest : rest ++ missing = [] := congrArg (fun r => r.2.rest) (Except.ok.inj hwhole)
    rw [(List.append_eq_nil_iff.1 hrest).2, List.append_nil] at hne
    exact absurd rfl hne
  · obtain ⟨text, htext⟩ := herror 0
    exact ⟨text, congrArg (Except.map Prod.fst) htext⟩

theorem Reads.run_append {bytes : Bytes} {a : α} (h : Reads get bytes a) (rest : Bytes) :
    get.run (bytes ++ rest) = .ok a :=
  congrArg (Except.map Prod.fst) (h rest 0)

theorem Reads.run {bytes : Bytes} {a : α} (h : Reads get bytes a) : get.run bytes = .ok a := by
  have := h.run_append []
  rwa [List.append_nil] at this

end

/-! ## Events that can be told -/

/-- Without a place to be caught at, if there is nothing at that place. -/
def Happening.settled : Happening → Happening
  | .exception t l x c => .exception t l x (c.filter fun l => !isNowhere l)
  | x => x

def WireEvent.settled (e : WireEvent) : WireEvent := { e with happening := e.happening.settled }

def WireEventSet.settled (set : WireEventSet) : WireEventSet :=
  { set with events := set.events.map WireEvent.settled }

/-- The place where an exception will be caught, if there is one, is somewhere. -/
def Happening.CaughtSomewhere : Happening → Prop
  | .exception _ _ _ c => ∀ l ∈ c, isNowhere l = false
  | _ => True

theorem Happening.settled_eq {x : Happening} (h : x.CaughtSomewhere) : x.settled = x := by
  cases x with
  | exception t l o c =>
    have hc : c.filter (fun l => !isNowhere l) = c := by
      cases c with
      | none => rfl
      | some l => exact if_pos (congrArg not (h l rfl))
    rw [settled, hc]
  | _ => rfl

theorem WireEventSet.settled_eq {set : WireEventSet}
    (h : ∀ e ∈ set.events, e.happening.CaughtSomewhere) : set.settled = set := by
  have hevents : set.events.map WireEvent.settled = set.events := by
    rw [List.map_congr_left fun e he => ?_, List.map_id']
    rw [WireEvent.settled, Happening.settled_eq (h e he)]
  rw [settled, hevents]

namespace IdSizes
variable (sizes : IdSizes)

/-- Ids fit their widths, and a signature fits the 32 bits of its length. -/
def FitsHappening : Happening → Prop
  | .step t l | .breakpoint t l => sizes.FitsId .object t ∧ sizes.Fits .location l
  | .exception t l x c =>
    sizes.FitsId .object t ∧ sizes.Fits .location l ∧ sizes.Fits .tagged x ∧
      ∀ l ∈ c, sizes.Fits .location l
  | .threadStart t | .threadDeath t | .vmStart t => sizes.FitsId .object t
  | .classPrepare t _ c signature _ =>
    sizes.FitsId .object t ∧ sizes.FitsId .type c ∧ sizes.Fits .text signature
  | .vmDeath => True

def FitsEvents (events : List WireEvent) : Prop :=
  ∀ e ∈ events, sizes.FitsHappening e.happening

/-- An event, up to the fields that its kind has. Nothing is known of the fields of other kinds. -/
def getEvent : Reader (Option WireEvent) := do
  let kind ← getU8
  let request ← getI32
  match EventCode.ofCode? kind with
  | none => return none
  | some code => return some ⟨request, ← sizes.getHappening code⟩

theorem getEvents_succ (n : Nat) :
    sizes.getEvents (n + 1) = do
      match ← sizes.getEvent with
      | none => return []
      | some e => return e :: (← sizes.getEvents n) := by
  simp only [getEvents, getEvent, bind_assoc]
  refine congrArg _ (funext fun kind => congrArg _ (funext fun request => ?_))
  cases EventCode.ofCode? kind <;> simp

/-! ## Reading what was written -/

variable {sizes}

theorem reads_happening (hsizes : sizes.Supported) {x : Happening} (hx : sizes.FitsHappening x) :
    Reads (sizes.getHappening x.code) (sizes.putHappening x) x.settled := by
  have hid {t : UInt64} (ht : sizes.FitsId .object t) := reads_idOf hsizes ht
  have hplace {l : Location} (hl : sizes.Fits .location l) := reads_location hsizes hl.1 hl.2
  cases x with
  | step t l => exact (hid hx.1).bind ((hplace hx.2).map (Happening.step t))
  | breakpoint t l => exact (hid hx.1).bind ((hplace hx.2).map (Happening.breakpoint t))
  | exception t l o c =>
    obtain ⟨ht, hl, ho, hc⟩ := hx
    have hcatch : sizes.Fits .location (c.getD nowhere) := by
      cases c with
      | none => exact ⟨Nat.pow_pos (by decide), Nat.pow_pos (by decide)⟩
      | some l => exact hc l rfl
    have hsettled : (if isNowhere (c.getD nowhere) then none else some (c.getD nowhere)) =
        c.filter fun l => !isNowhere l := by
      cases c with
      | none => rfl
      | some l => cases h : isNowhere l <;> simp [Option.filter, h]
    rw [putHappening, List.append_assoc, List.append_assoc]
    refine (hid ht).bind ((hplace hl).bind ((reads_tagged hsizes ho).bind ?_))
    have hread := (hplace hcatch).map fun c =>
      Happening.exception t l o (if isNowhere c then none else some c)
    rwa [hsettled] at hread
  | threadStart t => exact (hid hx).map Happening.threadStart
  | threadDeath t => exact (hid hx).map Happening.threadDeath
  | classPrepare t tag c signature status =>
    rw [putHappening, List.append_assoc, List.append_assoc, ← List.singleton_append,
      List.append_assoc]
    refine (hid hx.1).bind ((reads_u8 tag).bind ((reads_idOf hsizes hx.2.1).bind ?_))
    exact (reads_text hx.2.2).bind
      ((reads_u32 status).map (Happening.classPrepare t tag c signature))
  | vmStart t => exact (hid hx).map Happening.vmStart
  | vmDeath => exact reads_pure _

theorem ofCode?_code (code : EventCode) : EventCode.ofCode? code.code = some code := by
  cases code <;> rfl

theorem reads_event (hsizes : sizes.Supported) {e : WireEvent}
    (he : sizes.FitsHappening e.happening) :
    Reads sizes.getEvent (sizes.putEvent e) (some e.settled) := by
  rw [putEvent, ← List.singleton_append]
  refine (reads_u8 _).bind ((reads_i32 e.request).bind ?_)
  rw [ofCode?_code]
  exact (reads_happening hsizes he).map fun x => some (WireEvent.mk e.request x)

theorem reads_unknown_event {kind : UInt8} (hkind : EventCode.ofCode? kind = none)
    (request : Int32) : Reads sizes.getEvent (kind :: putI32 request) none := by
  rw [← List.singleton_append]
  refine (reads_u8 _).bind ((reads_i32 request).bind_nil ?_)
  rw [hkind]
  exact reads_pure none

/-- Events in front of others: what comes of these is put after them. -/
theorem reads_events (hsizes : sizes.Supported) {events later : List WireEvent} {n : Nat}
    {more : Bytes} (hevents : sizes.FitsEvents events)
    (hlater : Reads (sizes.getEvents n) more later) :
    Reads (sizes.getEvents (events.length + n)) (events.flatMap sizes.putEvent ++ more)
      (events.map WireEvent.settled ++ later) := by
  induction events with
  | nil => rwa [List.length_nil, Nat.zero_add]
  | cons e events ih =>
    have hrest := ih fun b hb => hevents b (List.mem_cons_of_mem e hb)
    rw [List.length_cons, Nat.add_right_comm, getEvents_succ, List.flatMap_cons, List.append_assoc]
    exact (reads_event hsizes (hevents e List.mem_cons_self)).bind (hrest.map (e.settled :: ·))

theorem reads_unknown_events {kind : UInt8} (hkind : EventCode.ofCode? kind = none)
    (request : Int32) (n : Nat) : Reads (sizes.getEvents (n + 1)) (kind :: putI32 request) [] := by
  rw [getEvents_succ]
  exact (reads_unknown_event hkind request).bind_nil (reads_pure [])

theorem reads_counted (policy : UInt8) {count : Nat} (hcount : count < 2 ^ 32) {bytes : Bytes}
    {events : List WireEvent} (h : Reads (sizes.getEvents count) bytes events) :
    Reads sizes.getEventSet (policy :: (bigEndian 4 count ++ bytes)) ⟨policy, events⟩ := by
  rw [← List.singleton_append]
  refine (reads_u8 policy).bind ((reads_nat (w := 4) hcount).bind ?_)
  exact h.map (WireEventSet.mk policy)

theorem reads_event_set (hsizes : sizes.Supported) {set : WireEventSet}
    (hlength : set.events.length < 2 ^ 32) (hevents : sizes.FitsEvents set.events) :
    Reads sizes.getEventSet (sizes.putEventSet set) set.settled := by
  have hnone : Reads (sizes.getEvents 0) [] [] := reads_pure []
  have h := reads_events hsizes hevents hnone
  rw [List.append_nil, List.append_nil] at h
  exact reads_counted set.policy hlength h

/-! ## Bodies that end too early -/

variable (sizes)

theorem local_location : Local sizes.getLocation :=
  local_u8.bind fun _ => (local_id _).bind fun _ => (local_id _).bind fun _ => local_u64.map _

theorem local_happening (code : EventCode) : Local (sizes.getHappening code) := by
  have hid := local_id sizes.object
  have hplace := sizes.local_location
  have htagged : Local sizes.getTagged := local_u8.bind fun _ => hid.map _
  cases code with
  | step | breakpoint => exact hid.bind fun _ => hplace.map _
  | exception =>
    exact hid.bind fun _ => hplace.bind fun _ => htagged.bind fun _ => hplace.map _
  | threadStart | threadDeath | vmStart => exact hid.map _
  | classPrepare =>
    exact hid.bind fun _ => local_u8.bind fun _ => (local_id _).bind fun _ =>
      local_text.bind fun _ => local_u32.map _
  | vmDeath => exact local_pure _

theorem local_event : Local sizes.getEvent := by
  refine local_u8.bind fun kind => local_i32.bind fun request => ?_
  split
  · exact local_pure _
  · exact (sizes.local_happening _).map _

theorem local_events (n : Nat) : Local (sizes.getEvents n) := by
  induction n with
  | zero => exact local_pure []
  | succ n ih =>
    rw [getEvents_succ]
    refine sizes.local_event.bind fun e => ?_
    cases e with
    | none => exact local_pure []
    | some e => exact ih.map _

theorem local_event_set : Local sizes.getEventSet :=
  local_u8.bind fun _ => (local_nat 4).bind fun n => (sizes.local_events n).map _

/-! ## How much is read -/

end IdSizes

/-- When `spent` bytes were taken before, the size of the result and the bytes that are left make no
more than there were at first. -/
def Spends {α : Type} (spent : Nat) (get : Reader α) (size : α → Nat) : Prop :=
  ∀ c a c', get c = .ok (a, c') → size a + c'.rest.length ≤ spent + c.rest.length

section
variable {α β : Type} {get : Reader α} {spent : Nat}

theorem ok_of_bind {next : α → Reader β} {c c'' : Cursor} {b : β}
    (h : (get >>= next) c = .ok (b, c'')) :
    ∃ a c', get c = .ok (a, c') ∧ next a c' = .ok (b, c'') := by
  match hget : get c with
  | .ok (a, c') => exact ⟨a, c', rfl, (bind_of_ok hget).symm.trans h⟩
  | .error e => exact nomatch (bind_of_error hget).symm.trans h

theorem spends_pure {size : α → Nat} {a : α} (h : size a ≤ spent) :
    Spends spent (pure a) size := by
  intro c b c' hb
  cases hb
  exact Nat.add_le_add_right h _

theorem spends_throw {size : α → Nat} (e : WireError) : Spends spent (throw e) size :=
  fun _ _ _ h => nomatch h

theorem Spends.bind {next : α → Reader β} {size : α → Nat} {size' : β → Nat}
    (h : Spends 0 get size) (hnext : ∀ a, Spends (spent + size a) (next a) size') :
    Spends spent (get >>= next) size' := by
  intro c b c'' hb
  obtain ⟨a, c', hget, hb⟩ := ok_of_bind hb
  have hfirst := h c a c' hget
  have hsecond := hnext a c' b c'' hb
  omega

theorem Spends.run {size : α → Nat} {body : Bytes} {a : α} (h : Spends 0 get size)
    (hrun : get.run body = .ok a) : size a ≤ body.length := by
  unfold Reader.run at hrun
  match hget : get ⟨body, 0⟩, hrun with
  | .ok (b, c), rfl =>
    have hspent := h _ _ _ hget
    rw [Nat.zero_add] at hspent
    exact Nat.le_trans (Nat.le_add_right _ _) hspent

theorem spends_take (n : Nat) : Spends 0 (take n) fun bytes => max bytes.length n := by
  intro c bytes c' h
  by_cases hn : (c.rest.take n).length = n
  · cases (if_pos hn).symm.trans h
    rw [List.length_take] at hn
    simp only [List.length_take, List.length_drop]
    omega
  · exact nomatch (if_neg hn).symm.trans h

theorem spends_nat (width : Nat) : Spends 0 (getNat width) fun _ => width :=
  (spends_take width).bind fun _ => spends_pure (by omega)

theorem spends_u8 : Spends 0 getU8 fun _ => 1 :=
  (spends_nat 1).bind fun _ => spends_pure (Nat.le_refl _)

theorem spends_u32 : Spends 0 getU32 fun _ => 4 :=
  (spends_nat 4).bind fun _ => spends_pure (Nat.le_refl _)

theorem spends_u64 : Spends 0 getU64 fun _ => 8 :=
  (spends_nat 8).bind fun _ => spends_pure (Nat.le_refl _)

theorem spends_i32 : Spends 0 getI32 fun _ => 4 :=
  spends_u32.bind fun _ => spends_pure (Nat.le_refl _)

theorem length_putId (width : Nat) (id : UInt64) : (putId width id).length = min width 8 :=
  length_bigEndian _ _

theorem spends_id (width : Nat) : Spends 0 (getId width) fun id => (putId width id).length := by
  unfold getId
  split
  · exact (spends_nat width).bind fun _ => spends_pure (by rw [length_putId]; omega)
  · exact spends_throw _

theorem length_encode_of_decode {bytes : Bytes} {s : String}
    (h : Text.Utf8.decode bytes = .ok s) : (Text.Utf8.encode s).length = bytes.length := by
  unfold Text.Utf8.decode at h
  split at h
  · next hs =>
    cases h
    unfold String.fromUTF8? at hs
    split at hs
    · cases hs
      rfl
    · cases hs
  · cases h

theorem length_putText (s : String) :
    (putText s).length = 4 + (Text.Utf8.encode s).length := by
  rw [putText, List.length_append, length_bigEndian]

theorem spends_text : Spends 0 getText fun s => (putText s).length := by
  refine (spends_nat 4).bind fun n => (spends_take n).bind fun bytes => ?_
  split
  · next s hs =>
    refine spends_pure ?_
    rw [length_putText, length_encode_of_decode hs]
    omega
  · exact spends_throw _

end

namespace IdSizes
variable (sizes : IdSizes)

theorem length_putLocation (l : Location) :
    (sizes.putLocation l).length = min sizes.type 8 + min sizes.method 8 + 9 := by
  rw [putLocation, List.length_cons, List.length_append, List.length_append, length_putId,
    length_putId, putU64, length_bigEndian]

theorem spends_location : Spends 0 sizes.getLocation fun l => (sizes.putLocation l).length := by
  refine spends_u8.bind fun _ => (spends_id _).bind fun _ => (spends_id _).bind fun _ =>
    spends_u64.bind fun _ => spends_pure ?_
  rw [length_putLocation, length_putId, length_putId]
  omega

theorem spends_happening (code : EventCode) :
    Spends 0 (sizes.getHappening code) fun x => (sizes.putHappening x).length := by
  have hid := spends_id sizes.object
  have hplace := sizes.spends_location
  have htagged : Spends 0 sizes.getTagged fun _ => 1 + min sizes.object 8 :=
    spends_u8.bind fun _ => hid.bind fun id => spends_pure (by
      have hlength := length_putId sizes.object id
      omega)
  cases code with
  | step | breakpoint =>
    refine hid.bind fun t => hplace.bind fun l => spends_pure ?_
    rw [putHappening, List.length_append]
    omega
  | exception =>
    refine hid.bind fun t => hplace.bind fun l => htagged.bind fun o => hplace.bind fun c =>
      spends_pure ?_
    simp only [putHappening, List.length_append, List.length_cons, length_putLocation,
      length_putId]
    omega
  | threadStart | threadDeath | vmStart =>
    exact hid.bind fun t => spends_pure (by rw [putHappening]; omega)
  | classPrepare =>
    refine hid.bind fun t => spends_u8.bind fun tag => (spends_id _).bind fun c =>
      spends_text.bind fun s => spends_u32.bind fun status => spends_pure ?_
    simp only [putHappening, List.length_append, List.length_cons, putU32, length_bigEndian]
    omega
  | vmDeath => exact spends_pure (Nat.le_refl _)

theorem length_putEvent (e : WireEvent) :
    (sizes.putEvent e).length = 5 + (sizes.putHappening e.happening).length := by
  rw [putEvent, List.length_cons, List.length_append, putI32, putU32, length_bigEndian]
  omega

theorem spends_event :
    Spends 0 sizes.getEvent fun e => e.elim 5 fun e => (sizes.putEvent e).length := by
  refine spends_u8.bind fun kind => spends_i32.bind fun request => ?_
  split
  · exact spends_pure (Nat.le_refl _)
  · refine (sizes.spends_happening _).bind fun x => spends_pure ?_
    simp only [Option.elim_some, length_putEvent]
    omega

theorem spends_events (n : Nat) :
    Spends 0 (sizes.getEvents n) fun events => (events.flatMap sizes.putEvent).length := by
  induction n with
  | zero => exact spends_pure (Nat.le_refl _)
  | succ n ih =>
    rw [getEvents_succ]
    refine sizes.spends_event.bind fun e => ?_
    cases e with
    | none => exact spends_pure (Nat.zero_le _)
    | some e =>
      refine ih.bind fun events => spends_pure ?_
      refine Nat.le_of_eq ?_
      rw [List.flatMap_cons, List.length_append, Option.elim_some, Nat.zero_add]

/-! ## Turns of the reader -/

/-- How many events are begun: all that the count says, or all up to one that cannot be read or is
of an unknown kind. -/
def turns : (count : Nat) → Cursor → Nat
  | 0, _ => 0
  | count + 1, c =>
    match sizes.getEvent c with
    | .ok (some _, c) => turns count c + 1
    | _ => 1

def getHeader : Reader (UInt8 × Nat) := do return (← getU8, ← getNat 4)

/-- How many events are begun in a body. -/
def eventTurns (body : Bytes) : Nat :=
  match getHeader ⟨body, 0⟩ with
  | .ok ((_, count), c) => sizes.turns count c
  | .error _ => 0

/-- The reader with a limit on the count. -/
def getEventSetUpTo (limit : Nat) : Reader WireEventSet := do
  let (policy, count) ← getHeader
  return ⟨policy, ← sizes.getEvents (min limit count)⟩

theorem turns_le_count (n : Nat) (c : Cursor) : sizes.turns n c ≤ n := by
  induction n generalizing c with
  | zero => exact Nat.le_refl 0
  | succ n ih =>
    rw [turns]
    split
    · exact Nat.succ_le_succ (ih _)
    · exact Nat.succ_le_succ (Nat.zero_le n)

/-- After the turns that are made, the rest of the count makes no difference. -/
theorem getEvents_turns (n : Nat) (c : Cursor) :
    sizes.getEvents (sizes.turns n c) c = sizes.getEvents n c := by
  induction n generalizing c with
  | zero => rfl
  | succ n ih =>
    rw [turns]
    match h : sizes.getEvent c with
    | .ok (some e, c') =>
      simp only [getEvents_succ, bind_of_ok h]
      show Except.bind _ _ = Except.bind _ _
      rw [ih c']
    | .ok (none, c') => simp only [getEvents_succ, bind_of_ok h]
    | .error e => simp only [getEvents_succ, bind_of_error h]

/-- An event takes five bytes, its fields apart; only the last one begun may find fewer. -/
theorem turns_le (n : Nat) (c : Cursor) : 5 * sizes.turns n c ≤ c.rest.length + 5 := by
  induction n generalizing c with
  | zero => exact Nat.zero_le _
  | succ n ih =>
    rw [turns]
    split
    · next e c' h =>
      have hrest := ih c'
      have hevent := sizes.spends_event c _ _ h
      simp only [Option.elim_some, length_putEvent] at hevent
      omega
    · omega

theorem spends_header : Spends 0 getHeader fun _ => 5 :=
  spends_u8.bind fun _ => (spends_nat 4).bind fun _ => spends_pure (Nat.le_refl _)

theorem eventTurns_le (body : Bytes) : 5 * sizes.eventTurns body ≤ body.length := by
  unfold eventTurns
  split
  · next policy count c h =>
    have hturns := sizes.turns_le count c
    have hheader := spends_header _ _ _ h
    dsimp only at hheader
    omega
  · exact Nat.zero_le _

theorem getEventSet_eq :
    sizes.getEventSet = do
      let (policy, count) ← getHeader
      return ⟨policy, ← sizes.getEvents count⟩ := by
  simp only [getEventSet, getHeader, bind_assoc, pure_bind]

theorem run_eventTurns (body : Bytes) :
    (sizes.getEventSetUpTo (sizes.eventTurns body)).run body = sizes.getEventSet.run body := by
  refine congrArg (Except.map Prod.fst) ?_
  rw [getEventSet_eq, getEventSetUpTo, eventTurns]
  match h : getHeader ⟨body, 0⟩ with
  | .error e => rw [bind_of_error h, bind_of_error h]
  | .ok ((policy, count), c) =>
    rw [bind_of_ok h, bind_of_ok h]
    show Except.bind _ _ = Except.bind _ _
    rw [Nat.min_eq_left (sizes.turns_le_count count c), getEvents_turns]

end IdSizes

/-! ## Reading of event sets -/

/-- Whatever the widths of the ids: a set that fits them is read back from what was written for it,
without a place of catching that is nowhere; a body that lacks any part of it is refused; events in
front of one of an unknown kind are all that is read; and on any body no more events are begun than
it has bytes. -/
theorem event_sets_are_read_exactly {sizes : IdSizes} (hsizes : sizes.Supported) :
    (∀ set : WireEventSet, set.events.length < 2 ^ 32 → sizes.FitsEvents set.events →
      sizes.getEventSet.run (sizes.putEventSet set) = .ok set.settled ∧
      ((∀ e ∈ set.events, e.happening.CaughtSomewhere) →
        sizes.getEventSet.run (sizes.putEventSet set) = .ok set) ∧
      ∀ front, front <+: sizes.putEventSet set → front ≠ sizes.putEventSet set →
        ∃ text, sizes.getEventSet.run front = .error (.protocol text)) ∧
    (∀ (policy : UInt8) (events : List WireEvent) (kind : UInt8) (request : Int32) (others : Nat)
      (rest : Bytes), EventCode.ofCode? kind = none → events.length + (others + 1) < 2 ^ 32 →
      sizes.FitsEvents events →
      sizes.getEventSet.run (policy :: (bigEndian 4 (events.length + (others + 1)) ++
          (events.flatMap sizes.putEvent ++ kind :: putI32 request)) ++ rest) =
        .ok ⟨policy, events.map WireEvent.settled⟩) ∧
    ∀ body, sizes.eventTurns body ≤ body.length ∧
      sizes.getEventSet.run body = (sizes.getEventSetUpTo (sizes.eventTurns body)).run body := by
  refine ⟨fun set hlength hevents => ?_, ?_, fun body => ?_⟩
  · have hreads := IdSizes.reads_event_set hsizes hlength hevents
    refine ⟨hreads.run, fun hcaught => ?_, fun front => sizes.local_event_set.strict_prefix hreads⟩
    rw [hreads.run, WireEventSet.settled_eq hcaught]
  · intro policy events kind request others rest hkind hcount hevents
    have hunknown : Reads (sizes.getEvents (others + 1)) (kind :: putI32 request) [] :=
      IdSizes.reads_unknown_events hkind request others
    have hreads :=
      IdSizes.reads_counted policy hcount (IdSizes.reads_events hsizes hevents hunknown)
    rw [List.append_nil] at hreads
    exact hreads.run_append rest
  · have hturns := sizes.eventTurns_le body
    exact ⟨by omega, (sizes.run_eventTurns body).symm⟩

/-- A class is prepared and an exception is thrown that nobody catches. -/
def preparedAndThrown : WireEventSet :=
  { policy := 2
    events :=
      [⟨7, .classPrepare 0xfffffffe 1 300 "Lapp/Größe;" 7⟩,
       ⟨-8, .exception 0xfffffffe ⟨1, 300, 0xffffff, 4⟩ ⟨76, 5⟩ none⟩] }

theorem prepared_and_thrown_are_read_exactly :
    narrowSizes.getEventSet.run (narrowSizes.putEventSet preparedAndThrown) =
        .ok preparedAndThrown ∧
      (∃ text, narrowSizes.getEventSet.run
        ((narrowSizes.putEventSet preparedAndThrown).take 40) = .error (.protocol text)) ∧
      narrowSizes.getEventSet.run (2 :: (bigEndian 4 3 ++
        (preparedAndThrown.events.flatMap narrowSizes.putEvent ++ 40 :: putI32 9)) ++ [1, 2]) =
          .ok preparedAndThrown ∧
      narrowSizes.eventTurns [2, 255, 255, 255, 255, 99, 0, 0, 0, 1, 99] ≤ 11 := by
  have hsizes : narrowSizes.Supported := by
    intro kind
    cases kind <;> decide
  have hfits : narrowSizes.FitsEvents preparedAndThrown.events := by
    intro e he
    simp only [preparedAndThrown, List.mem_cons, List.not_mem_nil, or_false] at he
    obtain rfl | rfl := he
    · exact ⟨by decide, by decide, by decide +kernel⟩
    · exact ⟨by decide, by decide, by decide, fun _ h => nomatch h⟩
  have hcaught : ∀ e ∈ preparedAndThrown.events, e.happening.CaughtSomewhere := by
    intro e he
    simp only [preparedAndThrown, List.mem_cons, List.not_mem_nil, or_false] at he
    obtain rfl | rfl := he
    · trivial
    · exact fun _ h => nomatch h
  obtain ⟨hsets, hunknown, hturns⟩ := event_sets_are_read_exactly hsizes
  obtain ⟨-, hread, hprefix⟩ := hsets preparedAndThrown (by decide) hfits
  refine ⟨hread hcaught, ?_, ?_, (hturns _).1⟩
  · exact hprefix _ (List.take_prefix _ _) (by decide +kernel)
  · exact hunknown 2 preparedAndThrown.events 40 9 0 [1, 2] rfl (by decide) hfits

end JvmDebug.Wire
