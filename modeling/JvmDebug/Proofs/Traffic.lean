import JvmDebug.Proofs.DictSum
import JvmDebug.Proofs.Histories

/-!
Many commands under way on one client, and what becomes of the replies. The steps of the commands and
of the reader come in any order. Main result: `Traffic.replies_reach_commands`.
-/
namespace JvmDebug.Wire

inductive ReaderState
  | reading
  | leaving
  | stopped
  deriving DecidableEq, Repr

/-- A client with the commands that have drawn an id and do not wait yet, and with those that wait or
have a reply they have not looked at. -/
structure Traffic where
  client : Client
  drawn : List Pending := []
  underWay : List Pending := []
  reader : ReaderState := .reading

namespace Traffic
open Client

def fresh (events : Backlog) : Traffic := { client := { events } }

/-- What happens to a client. A command that ends without a result was given up by its caller. -/
inductive Moment
  | drew (p : Pending)
  | registered (p : Pending)
  | came (packet : Packet)
  | left
  | shutDown
  | swept
  | ended (p : Pending) (result : Option (Except WireError Bytes))
  | changed

def conclude (t : Traffic) (p : Pending) (client : Client) : Traffic :=
  { t with client, underWay := t.underWay.erase p }

/-- A command looks whether the client is closed before it draws its id, maybe long before, so ids are
drawn from a closed client too. Once it waits it may end at any time: it looks for its reply, or it is
given up for a reason of its own. The reader leaves when there is nothing more to read and when the
client is closed; it then closes the client and sweeps up, and others may come in between. -/
inductive Step : Traffic → Moment → Traffic → Prop
  | draw {t : Traffic} (c : Command) :
      Step t (.drew (t.client.draw c).1)
        { t with client := (t.client.draw c).2.2, drawn := (t.client.draw c).1 :: t.drawn }
  | register {t : Traffic} {p : Pending} (hp : p ∈ t.drawn) :
      Step t (.registered p)
        { t with
          client := t.client.register p
          drawn := t.drawn.erase p
          underWay := p :: t.underWay }
  | take {t : Traffic} {packet : Packet} {k : Client} (hreader : t.reader = .reading)
      (hk : t.client.take? packet = some k) : Step t (.came packet) { t with client := k }
  | refuse {t : Traffic} {packet : Packet} (hreader : t.reader = .reading)
      (hk : t.client.take? packet = none) : Step t (.came packet) { t with reader := .leaving }
  | leave {t : Traffic} (hreader : t.reader = .reading) :
      Step t .left { t with reader := .leaving }
  | shutDown {t : Traffic} : Step t .shutDown { t with client := t.client.shutDown }
  | sweep {t : Traffic} (hreader : t.reader = .leaving) (hclosed : t.client.closed = true) :
      Step t .swept { t with client := t.client.sweep, reader := .stopped }
  | finish {t : Traffic} {p : Pending} (hp : p ∈ t.underWay) :
      Step t (.ended p (some (t.client.finish p).1)) (t.conclude p (t.client.finish p).2)
  | giveUp {t : Traffic} {p : Pending} {e : Option WireError} (hp : p ∈ t.underWay)
      (he : ∀ code, e ≠ some (.vm code)) :
      Step t (.ended p (e.map .error)) (t.conclude p (t.client.forget p))
  | change {t : Traffic} (sizes : IdSizes) (events : Backlog) :
      Step t .changed { t with client := { t.client with sizes, events } }

abbrev Run : Traffic → List Moment → Traffic → Prop := History Step

theorem Run.nil {t : Traffic} : Run t [] t := History.nil

/-! ## What the client's books say -/

def isAnswer : Except WireError Bytes → Bool
  | .ok _ | .error (.vm _) => true
  | .error _ => false

/-- A reply for the command came at a position of the run, after the command was registered. -/
def Came (hs : List Moment) (p : Pending) (error : UInt16) (body : Bytes) (j : Nat) : Prop :=
  hs[j]? = some (.came (.reply p.id error body)) ∧
    ∃ r : Nat, r < j ∧ hs[r]? = some (.registered p)

def opened (t : Traffic) : List Pending := t.drawn ++ t.underWay

/-- The commands that have not ended, and what the client holds for them. -/
structure Books (t : Traffic) (hs : List Moment) : Prop where
  next : t.client.nextId = counted t.client.issued
  numbered : ∀ p ∈ t.opened, p.number < t.client.issued ∧ p.id = counted p.number
  distinct : (t.opened.map Pending.number).Nodup
  registered : ∀ p ∈ t.underWay, ∃ r : Nat, hs[r]? = some (.registered p)
  waiting : ∀ id number, t.client.waiting.get? id = some number →
    ∃ p ∈ t.underWay, p.id = id ∧ p.number = number
  delivered : ∀ number d, t.client.delivered.get? number = some d →
    ∃ p ∈ t.underWay, p.number = number ∧
      ∀ error body, d = .reply error body → ∃ j, Came hs p error body j

/-- The commands that have ended, each of them once. -/
structure Past (t : Traffic) (hs : List Moment) : Prop where
  numbered : ∀ (i : Nat) p result, hs[i]? = some (.ended p result) →
    p.number < t.client.issued ∧ p.id = counted p.number ∧ ∀ q ∈ t.opened, q.number ≠ p.number
  once : ∀ (i i' : Nat) p p' result result', hs[i]? = some (.ended p result) →
    hs[i']? = some (.ended p' result') → p.number = p'.number → i = i'
  answered : ∀ (i : Nat) p result, hs[i]? = some (.ended p (some result)) → isAnswer result = true →
    ∃ j error body, j < i ∧ result = Delivery.body (.reply error body) ∧ Came hs p error body j

theorem books_fresh (events : Backlog) : Books (fresh events) [] where
  next := rfl
  numbered := by simp [fresh, opened]
  distinct := by simp [fresh, opened]
  registered := by simp [fresh]
  waiting := by simp [fresh, Dict.get?_empty]
  delivered := by simp [fresh, Dict.get?_empty]

theorem past_fresh (events : Backlog) : Past (fresh events) [] where
  numbered := by simp
  once := by simp
  answered := by simp

theorem getElem?_snoc {hs : List Moment} {h x : Moment} {i : Nat} :
    (hs ++ [h])[i]? = some x ↔ hs[i]? = some x ∨ i = hs.length ∧ h = x := by
  rw [List.getElem?_append]
  split
  · next hi =>
    have hne : i ≠ hs.length := Nat.ne_of_lt hi
    simp [hne]
  · next hi =>
    have hnone : hs[i]? = none := List.getElem?_eq_none (Nat.le_of_not_lt hi)
    rcases Nat.lt_or_eq_of_le (Nat.le_of_not_lt hi) with hlt | rfl
    · have hne : i ≠ hs.length := Nat.ne_of_gt hlt
      have hlast : [h][i - hs.length]? = none :=
        List.getElem?_eq_none (by simp only [List.length_singleton]; omega)
      simp [hnone, hne, hlast]
    · simp

theorem Came.snoc {hs : List Moment} {p : Pending} {error : UInt16} {body : Bytes} {j : Nat}
    (hcame : Came hs p error body j) (h : Moment) : Came (hs ++ [h]) p error body j := by
  obtain ⟨hj, r, hr, hregistered⟩ := hcame
  exact ⟨getElem?_snoc.2 (.inl hj), r, hr, getElem?_snoc.2 (.inl hregistered)⟩

section Steps
variable {t t' : Traffic} {hs : List Moment} {h : Moment} {p : Pending}

theorem Past.snoc (hpast : Past t hs) (hended : ∀ p result, h ≠ .ended p result)
    (hissued : t.client.issued ≤ t'.client.issued)
    (hopened : ∀ q ∈ t'.opened, q ∈ t.opened ∨ t.client.issued ≤ q.number) :
    Past t' (hs ++ [h]) := by
  have hold {i : Nat} {p : Pending} {result : Option (Except WireError Bytes)}
      (hi : (hs ++ [h])[i]? = some (.ended p result)) : hs[i]? = some (.ended p result) := by
    rcases getElem?_snoc.1 hi with hi | ⟨-, hi⟩
    · exact hi
    · exact absurd hi (hended p result)
  refine ⟨fun i p result hi => ?_, fun i i' p p' result result' hi hi' =>
    hpast.once i i' p p' result result' (hold hi) (hold hi'), fun i p result hi hanswer => ?_⟩
  · obtain ⟨hnumber, hid, hother⟩ := hpast.numbered i p result (hold hi)
    refine ⟨Nat.lt_of_lt_of_le hnumber hissued, hid, fun q hq => ?_⟩
    rcases hopened q hq with hq | hq
    · exact hother q hq
    · omega
  · obtain ⟨j, error, body, hj, hresult, hcame⟩ := hpast.answered i p result (hold hi) hanswer
    exact ⟨j, error, body, hj, hresult, hcame.snoc h⟩

/-- A step of the reader or of others: the commands stay what they are, and the client holds nothing
new but what has come for one that waits. -/
theorem Books.snoc (hbooks : Books t hs) {k : Client} {reader : ReaderState}
    (hnext : k.nextId = t.client.nextId) (hissued : k.issued = t.client.issued)
    (hwaiting : ∀ id number, k.waiting.get? id = some number →
      t.client.waiting.get? id = some number)
    (hdelivered : ∀ number d, k.delivered.get? number = some d →
      t.client.delivered.get? number = some d ∨
        ∃ p ∈ t.underWay, p.number = number ∧
          ∀ error body, d = .reply error body → h = .came (.reply p.id error body)) :
    Books { t with client := k, reader } (hs ++ [h]) where
  next := by rw [hnext, hissued]; exact hbooks.next
  numbered := by rw [hissued]; exact hbooks.numbered
  distinct := hbooks.distinct
  registered := fun p hp =>
    let ⟨r, hr⟩ := hbooks.registered p hp
    ⟨r, getElem?_snoc.2 (.inl hr)⟩
  waiting := fun id number hid => hbooks.waiting id number (hwaiting id number hid)
  delivered := by
    intro number d hd
    rcases hdelivered number d hd with hd | ⟨p, hp, hnumber, hreply⟩
    · obtain ⟨p, hp, hnumber, hreply⟩ := hbooks.delivered number d hd
      refine ⟨p, hp, hnumber, fun error body he => ?_⟩
      obtain ⟨j, hj⟩ := hreply error body he
      exact ⟨j, hj.snoc h⟩
    · refine ⟨p, hp, hnumber, fun error body he => ?_⟩
      obtain ⟨r, hr⟩ := hbooks.registered p hp
      have hlt : r < hs.length := (List.getElem?_eq_some_iff.1 hr).1
      exact ⟨hs.length, getElem?_snoc.2 (.inr ⟨rfl, hreply error body he⟩), r, hlt,
        getElem?_snoc.2 (.inl hr)⟩

theorem Books.take (hbooks : Books t hs) {packet : Packet} {k : Client}
    (hk : t.client.take? packet = some k) :
    Books { t with client := k } (hs ++ [.came packet]) := by
  cases packet with
  | reply id error body =>
    simp only [take?] at hk
    split at hk
    · next number hwaits =>
      cases hk
      obtain ⟨p, hp, rfl, rfl⟩ := hbooks.waiting id number hwaits
      refine hbooks.snoc rfl rfl (fun id n hn => ?_) fun n d hd => ?_
      · rw [Dict.get?_erase] at hn
        split at hn
        · cases hn
        · exact hn
      · rw [Dict.get?_insert] at hd
        split at hd
        · next heq =>
          cases hd
          exact .inr ⟨p, hp, heq.symm, by rintro _ _ ⟨⟩; rfl⟩
        · exact .inl hd
    · cases hk
      exact hbooks.snoc rfl rfl (fun _ _ hn => hn) fun _ _ hd => .inl hd
  | command id set number body =>
    simp only [take?] at hk
    split at hk
    · split at hk
      · cases hk
        exact hbooks.snoc rfl rfl (fun _ _ hn => hn) fun _ _ hd => .inl hd
      · cases hk
    · cases hk
      exact hbooks.snoc rfl rfl (fun _ _ hn => hn) fun _ _ hd => .inl hd

theorem take?_issued {packet : Packet} {k k' : Client} (h : k.take? packet = some k') :
    k'.issued = k.issued := by
  unfold take? at h
  split at h
  · split at h
    · cases h; rfl
    · cases h; rfl
  · split at h
    · split at h
      · cases h; rfl
      · cases h
    · cases h; rfl

theorem get?_lost (numbers : List Nat) (delivered : Dict Nat Delivery) (n : Nat) :
    (numbers.foldl (fun d number => d.insert number .lost) delivered).get? n =
      if n ∈ numbers then some .lost else delivered.get? n := by
  induction numbers generalizing delivered with
  | nil => simp
  | cons number numbers ih =>
    rw [List.foldl_cons, ih, Dict.get?_insert]
    by_cases hmem : n ∈ numbers <;> by_cases heq : n = number <;> simp [hmem, heq]

theorem Books.sweep (hbooks : Books t hs) :
    Books { t with client := t.client.sweep, reader := .stopped } (hs ++ [.swept]) := by
  refine hbooks.snoc rfl rfl (fun id n hn => ?_) fun n d hd => ?_
  · simp [Client.sweep, Dict.get?_empty] at hn
  · simp only [Client.sweep, get?_lost] at hd
    split at hd
    · next hmem =>
      cases hd
      obtain ⟨id, hid⟩ := Dict.mem_values.1 hmem
      obtain ⟨p, hp, -, hnumber⟩ := hbooks.waiting id n hid
      exact .inr ⟨p, hp, hnumber, fun error body he => by cases he⟩
    · exact .inl hd

theorem Books.draw (hbooks : Books t hs) (c : Command) :
    Books { t with client := (t.client.draw c).2.2, drawn := (t.client.draw c).1 :: t.drawn }
      (hs ++ [.drew (t.client.draw c).1]) where
  next := by
    show t.client.nextId + 1 = counted (t.client.issued + 1)
    rw [hbooks.next, counted_succ]
  numbered := List.forall_mem_cons.2 ⟨⟨Nat.lt_succ_self _, hbooks.next⟩, fun q hq =>
    ⟨Nat.lt_succ_of_lt (hbooks.numbered q hq).1, (hbooks.numbered q hq).2⟩⟩
  distinct := by
    refine List.nodup_cons.2 ⟨fun hmem => ?_, hbooks.distinct⟩
    obtain ⟨q, hq, hnumber⟩ := List.mem_map.1 hmem
    exact Nat.ne_of_lt (hbooks.numbered q hq).1 hnumber
  registered := fun p hp =>
    let ⟨r, hr⟩ := hbooks.registered p hp
    ⟨r, getElem?_snoc.2 (.inl hr)⟩
  waiting := hbooks.waiting
  delivered := by
    intro number d hd
    obtain ⟨p, hp, hnumber, hreply⟩ := hbooks.delivered number d hd
    refine ⟨p, hp, hnumber, fun error body he => ?_⟩
    obtain ⟨j, hj⟩ := hreply error body he
    exact ⟨j, hj.snoc _⟩

theorem opened_register {drawn underWay : List Pending} (hp : p ∈ drawn) :
    (drawn.erase p ++ p :: underWay).Perm (drawn ++ underWay) :=
  List.perm_middle.trans ((List.perm_cons_erase hp).symm.append_right underWay)

theorem Books.register (hbooks : Books t hs) (hp : p ∈ t.drawn) :
    Books { t with
      client := t.client.register p
      drawn := t.drawn.erase p
      underWay := p :: t.underWay } (hs ++ [.registered p]) where
  next := hbooks.next
  numbered := fun q hq => hbooks.numbered q ((opened_register hp).mem_iff.1 hq)
  distinct := ((opened_register hp).map _).nodup_iff.2 hbooks.distinct
  registered := by
    refine List.forall_mem_cons.2 ⟨⟨hs.length, getElem?_snoc.2 (.inr ⟨rfl, rfl⟩)⟩, fun q hq => ?_⟩
    obtain ⟨r, hr⟩ := hbooks.registered q hq
    exact ⟨r, getElem?_snoc.2 (.inl hr)⟩
  waiting := by
    intro id number hid
    simp only [Client.register, Dict.get?_insert] at hid
    split at hid
    · next heq =>
      cases hid
      exact ⟨p, List.mem_cons_self, heq.symm, rfl⟩
    · obtain ⟨q, hq, hqid⟩ := hbooks.waiting id number hid
      exact ⟨q, List.mem_cons_of_mem p hq, hqid⟩
  delivered := by
    intro number d hd
    obtain ⟨q, hq, hnumber, hreply⟩ := hbooks.delivered number d hd
    refine ⟨q, List.mem_cons_of_mem p hq, hnumber, fun error body he => ?_⟩
    obtain ⟨j, hj⟩ := hreply error body he
    exact ⟨j, hj.snoc _⟩

theorem opened_conclude (hp : p ∈ t.underWay) (k : Client) :
    t.opened.Perm (p :: (t.conclude p k).opened) :=
  ((List.perm_cons_erase hp).append_left t.drawn).trans List.perm_middle

theorem Books.conclude (hbooks : Books t hs) (hp : p ∈ t.underWay) (h : Moment) :
    Books (t.conclude p (t.client.forget p)) (hs ++ [h]) := by
  have hperm := opened_conclude hp (t.client.forget p)
  have hdistinct := (hperm.map Pending.number).nodup_iff.1 hbooks.distinct
  have hstays {q : Pending} (hq : q ∈ t.underWay) (hne : q ≠ p) : q ∈ t.underWay.erase p :=
    (List.mem_erase_of_ne hne).2 hq
  refine ⟨hbooks.next, fun q hq => hbooks.numbered q (hperm.mem_iff.2 (List.mem_cons_of_mem p hq)),
    (List.nodup_cons.1 hdistinct).2, fun q hq => ?_, fun id number hid => ?_, fun number d hd => ?_⟩
  · obtain ⟨r, hr⟩ := hbooks.registered q (List.mem_of_mem_erase hq)
    exact ⟨r, getElem?_snoc.2 (.inl hr)⟩
  · simp only [Traffic.conclude, forget, Dict.get?_erase] at hid
    split at hid
    · cases hid
    · next hne =>
      obtain ⟨q, hq, rfl, hnumber⟩ := hbooks.waiting id number hid
      exact ⟨q, hstays hq (by rintro rfl; exact hne rfl), rfl, hnumber⟩
  · simp only [Traffic.conclude, forget, Dict.get?_erase] at hd
    split at hd
    · cases hd
    · next hne =>
      obtain ⟨q, hq, rfl, hreply⟩ := hbooks.delivered number d hd
      refine ⟨q, hstays hq (by rintro rfl; exact hne rfl), rfl, fun error body he => ?_⟩
      obtain ⟨j, hj⟩ := hreply error body he
      exact ⟨j, hj.snoc h⟩

/-- The reply that is held for a command has come for it, with its packet id. -/
theorem Books.finish (hbooks : Books t hs) (hp : p ∈ t.underWay)
    (hanswer : isAnswer (t.client.finish p).1 = true) :
    ∃ j error body, (t.client.finish p).1 = Delivery.body (.reply error body) ∧
      Came hs p error body j := by
  simp only [Client.finish] at hanswer ⊢
  split at hanswer
  · next d hd =>
    cases d with
    | lost => cases hanswer
    | reply error body =>
      obtain ⟨q, hq, hnumber, hreply⟩ := hbooks.delivered p.number _ hd
      have heq : q = p := List.inj_on_of_nodup_map hbooks.distinct
        (List.mem_append_right _ hq) (List.mem_append_right _ hp) hnumber
      obtain ⟨j, hj⟩ := hreply error body rfl
      exact ⟨j, error, body, rfl, heq ▸ hj⟩
  · split at hanswer <;> cases hanswer

theorem Past.conclude (hpast : Past t hs) (hbooks : Books t hs) (hp : p ∈ t.underWay)
    {result : Option (Except WireError Bytes)}
    (hanswered : ∀ r, result = some r → isAnswer r = true →
      ∃ j error body, r = Delivery.body (.reply error body) ∧ Came hs p error body j) :
    Past (t.conclude p (t.client.forget p)) (hs ++ [.ended p result]) := by
  have hperm := opened_conclude hp (t.client.forget p)
  have hdistinct := (hperm.map Pending.number).nodup_iff.1 hbooks.distinct
  have hopened : p ∈ t.opened := List.mem_append_right _ hp
  refine ⟨fun i q r hi => ?_, fun i i' q q' r r' hi hi' hnumber => ?_, fun i q r hi hanswer => ?_⟩
  · rcases getElem?_snoc.1 hi with hi | ⟨-, hi⟩
    · obtain ⟨hlt, hid, hother⟩ := hpast.numbered i q r hi
      exact ⟨hlt, hid, fun q' hq' => hother q' (hperm.mem_iff.2 (List.mem_cons_of_mem p hq'))⟩
    · cases hi
      refine ⟨(hbooks.numbered p hopened).1, (hbooks.numbered p hopened).2, fun q hq heq => ?_⟩
      exact (List.nodup_cons.1 hdistinct).1 (heq ▸ List.mem_map_of_mem hq)
  · rcases getElem?_snoc.1 hi with hi | ⟨rfl, hlast⟩ <;>
      rcases getElem?_snoc.1 hi' with hi' | ⟨rfl, hlast'⟩
    · exact hpast.once i i' q q' r r' hi hi' hnumber
    · cases hlast'
      exact absurd hnumber.symm ((hpast.numbered i q r hi).2.2 p hopened)
    · cases hlast
      exact absurd hnumber ((hpast.numbered i' q' r' hi').2.2 p hopened)
    · rfl
  · rcases getElem?_snoc.1 hi with hi | ⟨rfl, hlast⟩
    · obtain ⟨j, error, body, hj, hresult, hcame⟩ := hpast.answered i q r hi hanswer
      exact ⟨j, error, body, hj, hresult, hcame.snoc _⟩
    · cases hlast
      obtain ⟨j, error, body, hresult, hcame⟩ := hanswered r rfl hanswer
      exact ⟨j, error, body, (List.getElem?_eq_some_iff.1 hcame.1).1, hresult, hcame.snoc _⟩

/-- One step of a command, of the reader or of others. -/
theorem Step.keeps (hstep : Step t h t') (hbooks : Books t hs) (hpast : Past t hs) :
    Books t' (hs ++ [h]) ∧ Past t' (hs ++ [h]) := by
  cases hstep with
  | draw c =>
    refine ⟨hbooks.draw c, hpast.snoc nofun (Nat.le_succ _) fun q hq => ?_⟩
    rcases List.mem_cons.1 hq with rfl | hq
    · exact .inr (Nat.le_refl _)
    · exact .inl hq
  | register hp =>
    exact ⟨hbooks.register hp, hpast.snoc nofun (Nat.le_refl _) fun q hq =>
      .inl ((opened_register hp).mem_iff.1 hq)⟩
  | take hreader hk =>
    exact ⟨hbooks.take hk, hpast.snoc nofun (Nat.le_of_eq (take?_issued hk).symm) fun q hq => .inl hq⟩
  | refuse | leave | shutDown | change =>
    exact ⟨hbooks.snoc rfl rfl (fun _ _ hn => hn) fun _ _ hd => .inl hd,
      hpast.snoc nofun (Nat.le_refl _) fun q hq => .inl hq⟩
  | sweep => exact ⟨hbooks.sweep, hpast.snoc nofun (Nat.le_refl _) fun q hq => .inl hq⟩
  | finish hp =>
    refine ⟨hbooks.conclude hp _, hpast.conclude hbooks hp ?_⟩
    rintro r ⟨⟩ hanswer
    exact hbooks.finish hp hanswer
  | giveUp hp he =>
    refine ⟨hbooks.conclude hp _, hpast.conclude hbooks hp fun r hr hanswer => ?_⟩
    obtain ⟨e, rfl, rfl⟩ := Option.map_eq_some_iff.1 hr
    cases e with
    | vm code => exact absurd rfl (he code)
    | protocol | timeout | cancelled | closed | io => cases hanswer

end Steps

theorem Run.keeps {events : Backlog} {hs : List Moment} {t : Traffic}
    (hrun : Run (fresh events) hs t) : Books t hs ∧ Past t hs := by
  induction hrun with
  | nil => exact ⟨books_fresh events, past_fresh events⟩
  | snoc _ hstep ih => exact hstep.keeps ih.1 ih.2

/-- The command that ended at a position got its result from the machine. -/
def AnsweredAt (hs : List Moment) (i : Nat) : Prop :=
  ∃ p result, hs[i]? = some (.ended p (some result)) ∧ isAnswer result = true

/-- The packet that came at `j` is a reply with the id of the command that ended at `i`; it came
after the command was registered and before it ended, and it is the command's result. -/
def Answers (hs : List Moment) (j i : Nat) : Prop :=
  ∃ p error body, hs[i]? = some (.ended p (some (Delivery.body (.reply error body)))) ∧ j < i ∧
    Came hs p error body j

theorem replies_reach_commands {events : Backlog} {hs : List Moment} {t : Traffic}
    (hrun : Run (fresh events) hs t) (hfew : t.client.issued < UInt32.size) :
    (∀ i, AnsweredAt hs i → ∃ j, Answers hs j i) ∧
      (∀ j i i', Answers hs j i → Answers hs j i' → i = i') ∧
      (t.underWay = [] → t.client.waiting = .empty) := by
  obtain ⟨hbooks, hpast⟩ := hrun.keeps
  refine ⟨?_, ?_, fun hended => ?_⟩
  · rintro i ⟨p, result, hi, hanswer⟩
    obtain ⟨j, error, body, hj, rfl, hcame⟩ := hpast.answered i p result hi hanswer
    exact ⟨j, p, error, body, hi, hj, hcame⟩
  · rintro j i i' ⟨p, error, body, hi, -, hj, -⟩ ⟨p', error', body', hi', -, hj', -⟩
    have hsame : p.id = p'.id := by
      have := hj.symm.trans hj'
      simp only [Option.some.injEq, Moment.came.injEq, Packet.reply.injEq] at this
      exact this.1
    obtain ⟨hlt, hid, -⟩ := hpast.numbered i p _ hi
    obtain ⟨hlt', hid', -⟩ := hpast.numbered i' p' _ hi'
    refine hpast.once i i' p p' _ _ hi hi' (counted_injective (hlt.trans hfew) (hlt'.trans hfew) ?_)
    rw [← hid, ← hid', hsame]
  · refine Dict.eq_empty_of_get? fun id => Option.eq_none_iff_forall_ne_some.2 fun number hid => ?_
    obtain ⟨p, hp, -⟩ := hbooks.waiting id number hid
    simp [hended] at hp

/-- Two commands cross: the first to be answered is the second that was sent, and the other is given
up before its reply comes. -/
theorem replies_reach_commands_crossing :
    let p : Pending := ⟨0, 1, {}⟩
    let q : Pending := ⟨1, 2, {}⟩
    let hs : List Moment := [.drew p, .drew q, .registered q, .registered p, .came (.reply 2 0 [7]),
      .ended q (some (.ok [7])), .ended p (some (.error .timeout)), .came (.reply 1 0 [8]), .left,
      .shutDown, .swept]
    ∃ t, Run (fresh (Backlog.ofSize 16)) hs t ∧ t.client.issued < UInt32.size ∧
      (∀ i, AnsweredAt hs i → ∃ j, Answers hs j i) ∧
      (∀ j i i', Answers hs j i → Answers hs j i' → i = i') ∧
      (t.underWay = [] → t.client.waiting = .empty) := by
  intro p q hs
  have h₀ : Run (fresh (Backlog.ofSize 16)) [] _ := .nil
  have h₁ := h₀.snoc (.draw .version)
  have h₂ := h₁.snoc (.draw .version)
  have h₃ := h₂.snoc (.register (p := q) (by decide))
  have h₄ := h₃.snoc (.register (p := p) (by decide))
  have h₅ := h₄.snoc (.take rfl (rfl : _ = (_ : Client).take? (.reply 2 0 [7])).symm)
  have h₆ := h₅.snoc (.finish (p := q) (by decide))
  have h₇ := h₆.snoc (.giveUp (p := p) (e := some .timeout) (by decide) nofun)
  have h₈ := h₇.snoc (.take rfl (rfl : _ = (_ : Client).take? (.reply 1 0 [8])).symm)
  have h₉ := h₈.snoc (.leave rfl)
  have hrun := (h₉.snoc .shutDown).snoc (.sweep rfl rfl)
  have hfew : 2 < UInt32.size := by decide
  exact ⟨_, hrun, hfew, replies_reach_commands hrun hfew⟩

/-! ## A line -/

/-- The client with its commands under way. The reader reads for as long as the client is not
closed. -/
structure Serves (t : Traffic) (k : Client) (underWay : List Pending) : Prop where
  client : t.client = k
  underWay : t.underWay = underWay
  reader : k.closed = false → t.reader = .reading

def Leads (t : Traffic) (k : Client) (underWay : List Pending) : Prop :=
  ∃ hs t', Run t hs t' ∧ t'.Serves k underWay

section Line
variable {t : Traffic} {k k' : Client} {underWay underWay' : List Pending}

theorem Serves.move (h : t.Serves k underWay) (hmove : Move (k, underWay) (k', underWay')) :
    t.Leads k' underWay' := by
  obtain ⟨rfl, hunderWay, hreader⟩ := h
  cases hmove with
  | @register _ _ _ c p packet hissue =>
    unfold issue at hissue
    split at hissue
    · cases hissue
    · cases hissue
      exact ⟨_, _, (Run.nil.snoc (.draw c)).snoc (.register List.mem_cons_self), rfl,
        congrArg _ hunderWay, hreader⟩
  | receive hopen packet =>
    unfold Client.receive
    cases hk : t.client.take? packet with
    | none =>
      exact ⟨_, _, ((Run.nil.snoc (.refuse (hreader hopen) hk)).snoc .shutDown).snoc
        (.sweep rfl rfl), rfl, hunderWay, nofun⟩
    | some k =>
      exact ⟨_, _, Run.nil.snoc (.take (hreader hopen) hk), rfl, hunderWay, fun _ => hreader hopen⟩
  | stop hopen =>
    exact ⟨_, _, ((Run.nil.snoc (.leave (hreader hopen))).snoc .shutDown).snoc (.sweep rfl rfl),
      rfl, hunderWay, nofun⟩
  | finish p =>
    have hp : p ∈ t.underWay := hunderWay ▸ List.mem_cons_self
    refine ⟨_, _, Run.nil.snoc (.finish hp), rfl, ?_, hreader⟩
    rw [conclude, hunderWay, List.erase_cons_head]
  | adopt sizes =>
    exact ⟨_, _, Run.nil.snoc (.change sizes t.client.events), rfl, hunderWay, hreader⟩

theorem Serves.moves {last : Client × List Pending} (h : t.Serves k underWay)
    (hmoves : Moves (k, underWay) last) : t.Leads last.1 last.2 := by
  induction hmoves with
  | refl => exact ⟨[], t, .nil, h⟩
  | tail _ hmove ih =>
    obtain ⟨hs, t', hrun, ht'⟩ := ih
    obtain ⟨hs', last, hrun', hlast⟩ := ht'.move hmove
    exact ⟨hs ++ hs', last, hrun.append hrun', hlast⟩

/-- On the line to a scripted agent a command is a run: each of its steps follows the one before. -/
theorem Serves.perform {l : Line} (h : t.Serves l.client underWay) (c : Command) :
    t.Leads (l.perform c).2.client underWay :=
  h.moves (l.perform_moves c underWay)

end Line

end Traffic

end JvmDebug.Wire
