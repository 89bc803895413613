import JvmDebug.Proofs.EventReading
import JvmDebug.Proofs.Histories
import Mathlib.Algebra.Order.BigOperators.Group.List
import Mathlib.Algebra.Order.Group.Nat

/-!
Event sets that come while the id sizes are asked for. The reader goes by the sizes in force, which
are eight bytes for every id until the answer has been taken up by the one who asked. Main result:
`Negotiation.intact_iff_no_early_narrow`.
-/
namespace JvmDebug.Wire

/-! ## Widths that differ from those in force -/

/-- The ids that a happening tells. -/
def Happening.idKinds : Happening → List IdKind
  | step .. | breakpoint .. | exception .. => [.object, .type, .method]
  | threadStart _ | threadDeath _ | vmStart _ => [.object]
  | classPrepare .. => [.object, .type]
  | vmDeath => []

namespace IdSizes
variable (sizes : IdSizes)

/-- An id in the set has another width than it has without negotiation. -/
def Narrow (set : WireEventSet) : Prop :=
  ∃ e ∈ set.events, ∃ kind ∈ e.happening.idKinds, sizes.width kind ≠ 8

/-- Ids fit their widths, and lengths fit 32 bits. -/
def FitsSet (set : WireEventSet) : Prop :=
  set.events.length < 2 ^ 32 ∧ sizes.FitsEvents set.events

theorem default_supported : Supported {} := by
  intro kind
  cases kind <;> decide

theorem width_default (kind : IdKind) : width {} kind = 8 := by
  cases kind <;> rfl

theorem fitsId_default (kind : IdKind) (n : UInt64) : FitsId {} kind n := by
  rw [FitsId, width_default]
  exact n.toNat_lt

variable {sizes}

theorem fitsHappening_default {x : Happening} (hx : sizes.FitsHappening x) :
    FitsHappening {} x := by
  have hid := fitsId_default
  cases x with
  | step | breakpoint => exact ⟨hid _ _, hid _ _, hid _ _⟩
  | exception t l o c => exact ⟨hid _ _, ⟨hid _ _, hid _ _⟩, hid _ _, fun _ _ => ⟨hid _ _, hid _ _⟩⟩
  | threadStart | threadDeath | vmStart => exact hid _ _
  | classPrepare => exact ⟨hid _ _, hid _ _, hx.2.2⟩
  | vmDeath => trivial

theorem fitsSet_default {set : WireEventSet} (hset : sizes.FitsSet set) : FitsSet {} set :=
  ⟨hset.1, fun e he => fitsHappening_default (hset.2 e he)⟩

theorem putHappening_default {x : Happening} (h : ∀ kind ∈ x.idKinds, sizes.width kind = 8) :
    putHappening {} x = sizes.putHappening x := by
  have hobject : IdKind.object ∈ x.idKinds → sizes.object = 8 := h .object
  have htype : IdKind.type ∈ x.idKinds → sizes.type = 8 := h .type
  have hmethod : IdKind.method ∈ x.idKinds → sizes.method = 8 := h .method
  cases x <;>
    simp_all [Happening.idKinds, putHappening, putLocation]

theorem putEventSet_default {set : WireEventSet} (h : ¬sizes.Narrow set) :
    putEventSet {} set = sizes.putEventSet set := by
  have hevent : ∀ e ∈ set.events, putEvent {} e = sizes.putEvent e := by
    intro e he
    have hwidths : ∀ kind ∈ e.happening.idKinds, sizes.width kind = 8 := fun kind hkind =>
      Decidable.not_not.1 fun hne => h ⟨e, he, kind, hkind, hne⟩
    rw [putEvent, putEvent, putHappening_default hwidths]
  have hevents : set.events.flatMap (putEvent {}) = set.events.flatMap sizes.putEvent :=
    List.flatMap_congr hevent
  rw [putEventSet, putEventSet, putList, putList, hevents]

/-! ## Lengths -/

/-- No id is longer than one of eight bytes, and a narrow one is shorter. -/
theorem length_putHappening_le (hsizes : sizes.Supported) (x : Happening) :
    (sizes.putHappening x).length ≤ (putHappening {} x).length ∧
      ∀ kind ∈ x.idKinds, sizes.width kind ≠ 8 →
        (sizes.putHappening x).length < (putHappening {} x).length := by
  have hobject : sizes.object ≤ 8 := (hsizes .object).2
  have htype : sizes.type ≤ 8 := (hsizes .type).2
  have hmethod : sizes.method ≤ 8 := (hsizes .method).2
  cases x <;>
    simp only [putHappening, Happening.idKinds, List.length_append, List.length_cons, length_putId,
      length_putLocation, List.forall_mem_cons, width, List.not_mem_nil, false_imp_iff,
      implies_true, and_true] <;>
    omega

theorem length_putEventSet (set : WireEventSet) :
    (sizes.putEventSet set).length =
      5 + (set.events.flatMap sizes.putEvent).length := by
  rw [putEventSet, putList, List.length_cons, List.length_append, length_bigEndian]
  omega

theorem length_putEventSet_lt (hsizes : sizes.Supported) {set : WireEventSet}
    (h : sizes.Narrow set) : (sizes.putEventSet set).length < (putEventSet {} set).length := by
  rw [length_putEventSet, length_putEventSet, List.length_flatMap, List.length_flatMap]
  refine Nat.add_lt_add_left (List.sum_lt_sum _ _ (fun e _ => ?_) ?_) 5
  · rw [length_putEvent, length_putEvent]
    exact Nat.add_le_add_left (length_putHappening_le hsizes e.happening).1 5
  · obtain ⟨e, he, kind, hkind, hwidth⟩ := h
    refine ⟨e, he, ?_⟩
    rw [length_putEvent, length_putEvent]
    exact Nat.add_lt_add_left ((length_putHappening_le hsizes e.happening).2 kind hkind hwidth) 5

theorem length_putEventSet_settled (set : WireEventSet) :
    (sizes.putEventSet set.settled).length = (sizes.putEventSet set).length := by
  have hevent (e : WireEvent) : (sizes.putEvent e.settled).length = (sizes.putEvent e).length := by
    obtain ⟨request, x⟩ := e
    rw [length_putEvent, length_putEvent]
    cases x with
    | exception t l o c =>
      simp only [WireEvent.settled, Happening.settled, putHappening, List.length_append,
        length_putLocation]
    | _ => rfl
  rw [length_putEventSet, length_putEventSet, WireEventSet.settled, List.length_flatMap,
    List.length_flatMap, List.map_map]
  exact congrArg (5 + List.sum ·) (List.map_congr_left fun e _ => hevent e)

theorem spends_event_set :
    Spends 0 sizes.getEventSet fun set => (sizes.putEventSet set).length := by
  refine spends_u8.bind fun policy => (spends_nat 4).bind fun n => (sizes.spends_events n).bind
    fun events => spends_pure ?_
  rw [length_putEventSet]

/-- What is read in the widths that are in force from the start is what was written exactly if no
width differs: a narrow set is too short to be read as itself. -/
theorem run_default_iff (hsizes : sizes.Supported) {set : WireEventSet} (hset : sizes.FitsSet set) :
    (getEventSet {}).run (sizes.putEventSet set) = .ok set.settled ↔ ¬sizes.Narrow set := by
  constructor
  · intro hrun hnarrow
    have hspent := spends_event_set.run hrun
    have hshort := length_putEventSet_lt hsizes hnarrow
    rw [length_putEventSet_settled] at hspent
    exact absurd hspent (Nat.not_le.2 hshort)
  · intro hwide
    obtain ⟨hlength, hevents⟩ := fitsSet_default hset
    rw [← putEventSet_default hwide]
    exact (reads_event_set default_supported hlength hevents).run

theorem reads_sizes (hsizes : sizes.Supported) : Reads IdSizes.get sizes.put sizes := by
  have hwidth (kind : IdKind) : sizes.width kind < 256 ^ 4 :=
    Nat.lt_of_le_of_lt (hsizes kind).2 (by decide)
  rw [put, List.append_assoc, List.append_assoc, List.append_assoc]
  refine (reads_nat (hwidth .field)).bind ((reads_nat (hwidth .method)).bind ?_)
  refine (reads_nat (hwidth .object)).bind ((reads_nat (hwidth .type)).bind ?_)
  exact (reads_nat (hwidth .frame)).map (IdSizes.mk _ _ _ _)

end IdSizes

/-! ## Negotiating -/

/-- A client that asks for the id sizes, and the event sets that it has handed out. -/
structure Negotiation where
  client : Client
  broadcast : List WireEventSet := []

namespace Negotiation
open Client

/-- The question for the sizes. -/
def asked : Pending := ⟨0, 1, {}⟩

/-- Both sides have greeted and the question is on its way. -/
def fresh (events : Backlog) : Negotiation :=
  { client := (({ events } : Client).draw .idSizes).2.2.register asked }

theorem issue_idSizes (events : Backlog) :
    ({ events } : Client).issue .idSizes =
      .ok (asked, Packet.ofCommand 1 {} .idSizes, (fresh events).client) := rfl

inductive Moment
  | event (id : UInt32) (set : WireEventSet)
  | replied
  | adopted
  deriving DecidableEq

def eventPacket (sizes : IdSizes) (id : UInt32) (set : WireEventSet) : Packet :=
  .command id compositeEvent.1 compositeEvent.2 (sizes.putEventSet set)

/-- The machine sends events and answers the question, in any order, and the reader takes what comes
while the client is open. The one who asked takes the answer up at some time after it came. -/
inductive Step (sizes : IdSizes) : Negotiation → Moment → Negotiation → Prop
  | broadcast {n : Negotiation} {id : UInt32} {set told : WireEventSet}
      (hopen : n.client.closed = false) (hset : sizes.FitsSet set)
      (htold : n.client.sizes.getEventSet.run (sizes.putEventSet set) = .ok told) :
      Step sizes n (.event id set)
        { client := n.client.receive (eventPacket sizes id set)
          broadcast := n.broadcast ++ [told] }
  | refuse {n : Negotiation} {id : UInt32} {set : WireEventSet} {e : WireError}
      (hopen : n.client.closed = false) (hset : sizes.FitsSet set)
      (herror : n.client.sizes.getEventSet.run (sizes.putEventSet set) = .error e) :
      Step sizes n (.event id set) { n with client := n.client.receive (eventPacket sizes id set) }
  | reply {n : Negotiation} (hopen : n.client.closed = false) :
      Step sizes n .replied
        { n with client := n.client.receive (.reply asked.id 0 sizes.put) }
  | adopt {n : Negotiation} {body : Bytes} {adopted : IdSizes}
      (hreply : (n.client.finish asked).1 = .ok body)
      (hadopted : IdSizes.get.run body = .ok adopted) :
      Step sizes n .adopted { n with client := (n.client.finish asked).2.adopt adopted }

abbrev Run (sizes : IdSizes) : Negotiation → List Moment → Negotiation → Prop :=
  History (Step sizes)

/-- The sets that came, as they were told. -/
def told (hs : List Moment) : List WireEventSet :=
  hs.filterMap fun
    | .event _ set => some set.settled
    | _ => none

/-- A set with a narrow id came before the sizes were taken up. -/
def EarlyNarrow (sizes : IdSizes) (hs : List Moment) : Prop :=
  ∃ before id set after, hs = before ++ .event id set :: after ∧ .adopted ∉ before ∧
    sizes.Narrow set

def inForce (sizes : IdSizes) (hs : List Moment) : IdSizes :=
  if .adopted ∈ hs then sizes else {}

/-! ## Steps -/

section
variable {sizes : IdSizes} {n n' : Negotiation} {hs : List Moment} {m : Moment}

theorem receive_event (k : Client) (id : UInt32) (set : WireEventSet) :
    k.receive (eventPacket sizes id set) =
      match k.sizes.getEventSet.run (sizes.putEventSet set) with
      | .ok told => { k with events := k.events.push told }
      | .error _ => k.stop := by
  have htake : k.take? (eventPacket sizes id set) =
      match k.sizes.getEventSet.run (sizes.putEventSet set) with
      | .ok told => some { k with events := k.events.push told }
      | .error _ => none := by
    unfold eventPacket take?
    exact if_pos rfl
  rw [receive, htake]
  cases k.sizes.getEventSet.run (sizes.putEventSet set) <;> rfl

theorem told_snoc_event (hs : List Moment) (id : UInt32) (set : WireEventSet) :
    told (hs ++ [.event id set]) = told hs ++ [set.settled] := List.filterMap_append

theorem told_snoc (hs : List Moment) (h : ∀ id set, m ≠ .event id set) :
    told (hs ++ [m]) = told hs := by
  rw [told, List.filterMap_append]
  cases m with
  | event id set => exact absurd rfl (h id set)
  | replied | adopted => exact List.append_nil _

theorem earlyNarrow_snoc :
    EarlyNarrow sizes (hs ++ [m]) ↔ EarlyNarrow sizes hs ∨
      ∃ id set, m = .event id set ∧ .adopted ∉ hs ∧ sizes.Narrow set := by
  constructor
  · rintro ⟨before, id, set, after, hsplit, hearly, hnarrow⟩
    obtain rfl | ⟨after, last, rfl⟩ := List.eq_nil_or_concat after
    · obtain ⟨rfl, hm⟩ := List.append_inj' hsplit rfl
      exact .inr ⟨id, set, List.singleton_inj.1 hm, hearly, hnarrow⟩
    · rw [List.concat_eq_append, ← List.cons_append, ← List.append_assoc] at hsplit
      exact .inl ⟨before, id, set, after, (List.append_inj' hsplit rfl).1, hearly, hnarrow⟩
  · rintro (⟨before, id, set, after, rfl, hearly, hnarrow⟩ | ⟨id, set, rfl, hearly, hnarrow⟩)
    · exact ⟨before, id, set, after ++ [m], by simp, hearly, hnarrow⟩
    · exact ⟨hs, id, set, [], rfl, hearly, hnarrow⟩

/-- The reader goes on, and what it has handed out is what came. -/
def Intact (n : Negotiation) (hs : List Moment) : Prop :=
  n.client.closed = false ∧ n.broadcast = told hs

/-- What the client goes by and holds for the one who asked. -/
structure Books (sizes : IdSizes) (n : Negotiation) (hs : List Moment) : Prop where
  inForce : n.client.sizes = inForce sizes hs
  waiting : ∀ id number, n.client.waiting.get? id = some number → number = asked.number
  delivered : ∀ number d, n.client.delivered.get? number = some d → d = .reply 0 sizes.put

theorem inForce_snoc (h : m ≠ .adopted) : inForce sizes (hs ++ [m]) = inForce sizes hs := by
  simp [inForce, h.symm]

/-- In the widths in force a set is read as itself unless it is a narrow one that comes early. -/
theorem run_inForce_iff (hs : List Moment) (hsizes : sizes.Supported) {set : WireEventSet}
    (hset : sizes.FitsSet set) :
    (inForce sizes hs).getEventSet.run (sizes.putEventSet set) = .ok set.settled ↔
      ¬(.adopted ∉ hs ∧ sizes.Narrow set) := by
  by_cases hadopted : .adopted ∈ hs
  · have hread := (IdSizes.reads_event_set hsizes hset.1 hset.2).run
    simp [inForce, hadopted, hread]
  · simpa [inForce, hadopted] using IdSizes.run_default_iff hsizes hset

theorem books_fresh (events : Backlog) : Books sizes (fresh events) [] where
  inForce := rfl
  waiting := by
    intro id number h
    simp only [fresh, register, draw, Dict.get?_insert] at h
    split at h
    · exact (Option.some.inj h).symm
    · exact nomatch h
  delivered := fun _ _ h => nomatch h

theorem Books.snoc (h : Books sizes n hs) (hm : m ≠ .adopted)
    (hsizes : n'.client.sizes = n.client.sizes) (hwaiting : n'.client.waiting = n.client.waiting)
    (hdelivered : n'.client.delivered = n.client.delivered) : Books sizes n' (hs ++ [m]) where
  inForce := by rw [hsizes, h.inForce, inForce_snoc hm]
  waiting := hwaiting ▸ h.waiting
  delivered := hdelivered ▸ h.delivered

theorem receive_reply (k : Client) (id : UInt32) (error : UInt16) (body : Bytes) :
    let k' := k.receive (.reply id error body)
    k'.sizes = k.sizes ∧ k'.events = k.events ∧ k'.closed = k.closed := by
  rw [receive, take?]
  cases k.waiting.get? id <;> exact ⟨rfl, rfl, rfl⟩

theorem Books.reply (h : Books sizes n hs) :
    Books sizes { n with client := n.client.receive (.reply asked.id 0 sizes.put) }
      (hs ++ [.replied]) := by
  have hsame := (receive_reply n.client asked.id 0 sizes.put).1
  have hm : Moment.replied ≠ .adopted := nofun
  refine ⟨(hsame.trans h.inForce).trans (inForce_snoc hm).symm, fun id number hget => ?_,
    fun number d hget => ?_⟩
  · rw [receive, take?] at hget
    cases hnumber : n.client.waiting.get? asked.id with
    | none => exact h.waiting id number (by simpa [hnumber] using hget)
    | some _ =>
      simp only [hnumber, Option.getD_some, Dict.get?_erase] at hget
      split at hget
      · exact nomatch hget
      · exact h.waiting id number hget
  · rw [receive, take?] at hget
    cases hnumber : n.client.waiting.get? asked.id with
    | none => exact h.delivered number d (by simpa [hnumber] using hget)
    | some _ =>
      simp only [hnumber, Option.getD_some, Dict.get?_insert] at hget
      split at hget
      · exact (Option.some.inj hget).symm
      · exact h.delivered number d hget

theorem Books.adopt (hsizes : sizes.Supported) (h : Books sizes n hs) {body : Bytes}
    {adopted : IdSizes} (hreply : (n.client.finish asked).1 = .ok body)
    (hadopted : IdSizes.get.run body = .ok adopted) :
    Books sizes { n with client := (n.client.finish asked).2.adopt adopted }
      (hs ++ [.adopted]) := by
  have hbody : body = sizes.put := by
    simp only [finish] at hreply
    split at hreply
    · next d hd =>
      rw [h.delivered _ _ hd] at hreply
      exact (Except.ok.inj hreply).symm
    · exact nomatch hreply
  rw [hbody, (IdSizes.reads_sizes hsizes).run] at hadopted
  refine ⟨?_, fun id number hget => ?_, fun number d hget => ?_⟩
  · rw [Negotiation.inForce, if_pos (List.mem_append_right hs List.mem_cons_self)]
    exact (Except.ok.inj hadopted).symm
  · simp only [Client.adopt, finish, forget, Dict.get?_erase] at hget
    split at hget
    · exact nomatch hget
    · exact h.waiting id number hget
  · simp only [Client.adopt, finish, forget, Dict.get?_erase] at hget
    split at hget
    · exact nomatch hget
    · exact h.delivered number d hget

/-- What holds of every run. Nothing is known of the books once the client is closed. -/
structure Keeps (sizes : IdSizes) (events : Backlog) (n : Negotiation) (hs : List Moment) :
    Prop where
  events : n.client.events = n.broadcast.foldl Backlog.push events
  books : n.client.closed = false → Books sizes n hs
  intact : Intact n hs ↔ ¬EarlyNarrow sizes hs

/-- A moment at which nothing is handed out and the client is not closed. -/
theorem Keeps.snoc {events : Backlog} (h : Keeps sizes events n hs)
    (hm : ∀ id set, m ≠ .event id set) (hevents : n'.client.events = n.client.events)
    (hbroadcast : n'.broadcast = n.broadcast) (hclosed : n'.client.closed = n.client.closed)
    (hbooks : n.client.closed = false → Books sizes n' (hs ++ [m])) :
    Keeps sizes events n' (hs ++ [m]) where
  events := by rw [hevents, hbroadcast, h.events]
  books := fun hopen => hbooks (hclosed ▸ hopen)
  intact := by
    have hearly : EarlyNarrow sizes (hs ++ [m]) ↔ EarlyNarrow sizes hs := by
      rw [earlyNarrow_snoc]
      exact or_iff_left fun ⟨id, set, hset, _⟩ => hm id set hset
    rw [hearly, ← h.intact, Intact, Intact, hclosed, hbroadcast, told_snoc hs hm]

theorem Step.keeps (hsizes : sizes.Supported) {events : Backlog} (hstep : Step sizes n m n')
    (h : Keeps sizes events n hs) : Keeps sizes events n' (hs ++ [m]) := by
  cases hstep with
  | @broadcast id set told hopen hset htold =>
    have hbooks := h.books hopen
    have hreceive : n.client.receive (eventPacket sizes id set) = _ := receive_event _ _ _
    rw [htold] at hreceive
    rw [hreceive]
    have hread := run_inForce_iff hs hsizes hset
    rw [← hbooks.inForce, htold, Except.ok.injEq] at hread
    refine ⟨?_, fun _ => hbooks.snoc nofun rfl rfl rfl, ?_⟩
    · rw [List.foldl_append, ← h.events]
      rfl
    · have hlast : n.broadcast ++ [told] = Negotiation.told hs ++ [set.settled] ↔
          n.broadcast = Negotiation.told hs ∧ told = set.settled := by simp
      rw [earlyNarrow_snoc, not_or, ← h.intact, Intact, Intact, told_snoc_event, hlast, hread]
      simp [hopen]
  | @refuse id set e hopen hset herror =>
    have hbooks := h.books hopen
    have hreceive : n.client.receive (eventPacket sizes id set) = _ := receive_event _ _ _
    rw [herror] at hreceive
    rw [hreceive]
    have hread := run_inForce_iff hs hsizes hset
    rw [← hbooks.inForce, herror] at hread
    refine ⟨h.events, nofun, ?_⟩
    rw [earlyNarrow_snoc]
    refine iff_of_false (fun hintact => nomatch hintact.1) fun hnone => ?_
    have hearly : ¬(.adopted ∉ hs ∧ sizes.Narrow set) := fun ⟨hadopted, hnarrow⟩ =>
      hnone (.inr ⟨id, set, rfl, hadopted, hnarrow⟩)
    exact nomatch hread.2 hearly
  | reply =>
    obtain ⟨hsame, hevents, hclosed⟩ := receive_reply n.client asked.id 0 sizes.put
    exact h.snoc nofun hevents rfl hclosed fun hopen => (h.books hopen).reply
  | adopt hreply hadopted =>
    exact h.snoc nofun rfl rfl rfl fun hopen => (h.books hopen).adopt hsizes hreply hadopted

/-- In every run, whatever the widths: the reader goes on and hands out all sets as they were told
if and only if none with an id of another width than eight bytes comes before the sizes are taken
up. -/
theorem intact_iff_no_early_narrow (hsizes : sizes.Supported) {events : Backlog}
    (hrun : Run sizes (fresh events) hs n) :
    n.client.events = n.broadcast.foldl Backlog.push events ∧
      (n.client.closed = false ∧ n.broadcast = told hs ↔ ¬EarlyNarrow sizes hs) := by
  have hkeeps : Keeps sizes events n hs := by
    induction hrun with
    | nil =>
      exact ⟨rfl, fun _ => books_fresh events, iff_of_true ⟨rfl, rfl⟩ (by simp [EarlyNarrow])⟩
    | snoc _ hstep ih => exact hstep.keeps hsizes ih
  exact ⟨hkeeps.events, hkeeps.intact⟩

end

/-- A machine with ids of four bytes. -/
def halfSizes : IdSizes := { field := 4, method := 4, object := 4, type := 4, frame := 4 }

/-- The machine has started and holds its first thread. -/
def startSet : WireEventSet := ⟨2, [⟨0, .vmStart 1⟩]⟩

theorem halfSizes_supported : halfSizes.Supported := by
  intro kind
  cases kind <;> decide

theorem fits_startSet : halfSizes.FitsSet startSet := by
  refine ⟨by decide, fun e he => ?_⟩
  obtain rfl := List.mem_singleton.1 he
  show halfSizes.FitsId .object 1
  decide

/-- The start is told once the sizes are taken up. -/
theorem intact_late_start :
    ∃ n, Run halfSizes (fresh (Backlog.ofSize 16)) [.replied, .adopted, .event 9 startSet] n ∧
      halfSizes.Supported ∧ ¬EarlyNarrow halfSizes [.replied, .adopted, .event 9 startSet] ∧
      n.client.events = n.broadcast.foldl Backlog.push (Backlog.ofSize 16) ∧
      n.client.closed = false ∧ n.broadcast = [startSet] := by
  have hreplied : Run halfSizes (fresh (Backlog.ofSize 16)) [.replied] _ :=
    History.nil.snoc (.reply rfl)
  have hsizes := (IdSizes.reads_sizes halfSizes_supported).run
  have hadopted := hreplied.snoc (.adopt rfl hsizes)
  have hstart := (IdSizes.reads_event_set halfSizes_supported fits_startSet.1 fits_startSet.2).run
  have hrun : Run halfSizes (fresh (Backlog.ofSize 16)) [.replied, .adopted, .event 9 startSet] _ :=
    hadopted.snoc (.broadcast rfl fits_startSet hstart)
  have hlate : ¬EarlyNarrow halfSizes [.replied, .adopted, .event 9 startSet] := by
    rintro ⟨before, id, set, after, hsplit, hearly, -⟩
    match before with
    | [] | [_] => simp at hsplit
    | _ :: m :: _ =>
      obtain rfl : Moment.adopted = m := by simp_all
      exact hearly (by simp)
  obtain ⟨hevents, hintact⟩ := intact_iff_no_early_narrow halfSizes_supported hrun
  exact ⟨_, hrun, halfSizes_supported, hlate, hevents, hintact.2 hlate⟩

/-- The start is told before the answer comes: the reader closes the client. -/
theorem not_intact_while_negotiating :
    ¬∀ (sizes : IdSizes) (events : Backlog) (hs : List Moment) (n : Negotiation), sizes.Supported →
      Run sizes (fresh events) hs n → n.client.closed = false ∧ n.broadcast = told hs := by
  intro h
  have hrun : Run halfSizes (fresh (Backlog.ofSize 16)) [.event 9 startSet] _ :=
    History.nil.snoc (.refuse (e := .protocol
      "truncated packet: wanted 8 bytes at offset 10 of 14") rfl fits_startSet (by decide +kernel))
  exact nomatch (h _ _ _ _ halfSizes_supported hrun).1

end Negotiation

end JvmDebug.Wire
