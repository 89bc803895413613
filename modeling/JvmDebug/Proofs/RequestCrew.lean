import JvmDebug.Proofs.DictSum
import JvmDebug.Proofs.RoutineSteps
import JvmDebug.Wire.Target.Answer
import Mathlib.Algebra.GroupWithZero.Nat

/-!
Several calls about event requests in flight on one target, interleaved in any order, with a machine
that carries out every command and chooses the ids of the requests it installs. What a call has left
to do is a routine; `Stage` tells where in the call it stands.
-/
namespace JvmDebug

def Routine.isDone {ι : Type} {ρ : ι → Type} {σ α : Type} : Routine ι ρ σ α → Bool
  | done _ => true
  | request .. | update .. => false

namespace Wire

/-! ## The machine -/

/-- What the machine has installed, and the id it gives out next. -/
structure Machine where
  installed : List Int32 := []
  coming : Int32 := 0
  deriving DecidableEq, Repr

namespace Machine

def install (x : Machine) : Machine := { x with installed := x.coming :: x.installed }

def clear (x : Machine) (wireId : Int32) : Machine :=
  { x with installed := x.installed.filter (· ≠ wireId) }

/-- Every command about requests is carried out; no others come. -/
def answer : (c : Command) → Machine → c.Reply × Machine
  | .setRequest .., x => (.ok x.coming, x.install)
  | .clearRequest _ wireId, x => (.ok (), x.clear wireId)
  | _, x => (.error (.vm 99), x)

end Machine

/-! ## Calls -/

inductive RequestCall
  | create (kind : EventCode) (policy : SuspendPolicy) (modifiers : List Modifier)
  | setEnabled (id : RequestId) (enabled : Bool)
  | delete (id : RequestId)
  deriving DecidableEq, Repr

/-- What a call has left to do. -/
abbrev Remainder := Routine Command Command.Reply TargetState (Except TargetError Unit)

namespace RequestCall

def work : RequestCall → Work Unit
  | create kind policy modifiers => (fun _ => ()) <$> Work.install kind policy modifiers
  | setEnabled id enabled => Work.setEnabled id enabled
  | delete id => Work.deleteRequest id

/-- The request that a call is about; a new one has no number yet. -/
def request? : RequestCall → Option RequestId
  | create .. => none
  | setEnabled id _ | delete id => some id

/-- The request that a call enables or disables. -/
def switches? : RequestCall → Option RequestId
  | setEnabled id _ => some id
  | create .. | delete _ => none

def creations : RequestCall → Nat
  | create .. => 1
  | setEnabled .. | delete _ => 0

end RequestCall

/-- Between two of its steps a call is about to send a command, or it has the machine's answer and is
about to write it down. -/
inductive Stage
  | creating (kind : EventCode) (policy : SuspendPolicy) (modifiers : List Modifier)
  | created (kind : EventCode) (policy : SuspendPolicy) (modifiers : List Modifier)
      (wireId : Int32)
  | enabling (id : RequestId) (e : EventRequest)
  | enabled (id : RequestId) (wireId : Int32)
  | disabling (id : RequestId) (kind : EventCode) (wireId : Int32)
  | disabled (id : RequestId) (wireId : Int32)
  | deleting (kind : EventCode) (wireId : Int32)
  | ended (result : Except TargetError Unit)

namespace Stage

def write (f : RequestTable → RequestTable) : Remainder :=
  .update (fun s => { s with requests := f s.requests }) fun _ => .done (.ok ())

def remainder : Stage → Remainder
  | creating kind policy modifiers =>
    .request (.setRequest kind.code policy.code modifiers) fun
      | .ok wireId => write fun t => (t.add kind policy modifiers wireId).2
      | .error e => .done (.error e.toTarget)
  | created kind policy modifiers wireId => write fun t => (t.add kind policy modifiers wireId).2
  | enabling id e =>
    .request (.setRequest e.kind.code e.policy.code e.modifiers) fun
      | .ok wireId => write (·.installed id wireId)
      | .error e => .done (.error e.toTarget)
  | enabled id wireId => write (·.installed id wireId)
  | disabling id kind wireId =>
    .request (.clearRequest kind.code wireId) fun
      | .ok _ => write (·.cleared id wireId)
      | .error e => .done (.error e.toTarget)
  | disabled id wireId => write (·.cleared id wireId)
  | deleting kind wireId =>
    .request (.clearRequest kind.code wireId) fun r => .done (r.mapError WireError.toTarget)
  | ended result => .done result

/-- The stage after the next step, with the table and the machine as the step leaves them. -/
def next : Stage → RequestTable → Machine → Stage × RequestTable × Machine
  | creating kind policy modifiers, t, x => (created kind policy modifiers x.coming, t, x.install)
  | created kind policy modifiers wireId, t, x =>
    (ended (.ok ()), (t.add kind policy modifiers wireId).2, x)
  | enabling id _, t, x => (enabled id x.coming, t, x.install)
  | enabled id wireId, t, x => (ended (.ok ()), t.installed id wireId, x)
  | disabling id _ wireId, t, x => (disabled id wireId, t, x.clear wireId)
  | disabled id wireId, t, x => (ended (.ok ()), t.cleared id wireId, x)
  | deleting _ wireId, t, x => (ended (.ok ()), t, x.clear wireId)
  | ended result, t, x => (ended result, t, x)

/-- The stage in which a call begins, with the table as its first block of updates leaves it. -/
def first (t : RequestTable) : RequestCall → Stage × RequestTable
  | .create kind policy modifiers => (creating kind policy modifiers, t)
  | .setEnabled id active =>
    match t.entries.get? id with
    | none => (ended (.error (.unknownRequest id)), t)
    | some e =>
      match active, e.wireId with
      | true, none => (enabling id e, t)
      | false, some wireId => (disabling id e.kind wireId, t)
      | _, _ => (ended (.ok ()), t)
  | .delete id =>
    match t.entries.get? id with
    | none => (ended (.error (.unknownRequest id)), t)
    | some e =>
      match e.wireId with
      | some wireId => (deleting e.kind wireId, (t.remove id).2)
      | none => (ended (.ok ()), (t.remove id).2)

theorem remainder_create (kind : EventCode) (policy : SuspendPolicy) (modifiers : List Modifier) :
    ExceptT.run (RequestCall.create kind policy modifiers).work =
      (creating kind policy modifiers).remainder := by
  show Routine.request _ _ = Routine.request _ _
  congr 1
  funext r
  cases r <;> rfl

theorem advance_setEnabled (id : RequestId) (active : Bool) (s : TargetState) :
    (ExceptT.run (RequestCall.setEnabled id active).work).advance s =
      ((first s.requests (.setEnabled id active)).1.remainder,
        { s with requests := (first s.requests (.setEnabled id active)).2 }) := by
  show (ExceptT.run (match s.requests.entries.get? id with
    | none => throw (.unknownRequest id)
    | some e =>
      match active, e.wireId with
      | true, none => do
        let wireId ← Work.ask (.setRequest e.kind.code e.policy.code e.modifiers)
        Work.updateRequests (·.installed id wireId)
      | false, some wireId => do
        Work.ask (.clearRequest e.kind.code wireId)
        Work.updateRequests (·.cleared id wireId)
      | _, _ => return () : Work Unit)).advance s = _
  simp only [first]
  cases s.requests.entries.get? id with
  | none => rfl
  | some e =>
    obtain ⟨kind, policy, modifiers, wireId⟩ := e
    cases active <;> cases wireId
    · rfl
    · show (Routine.request _ _, _) = (Routine.request _ _, _)
      congr 2
      funext r
      cases r <;> rfl
    · show (Routine.request _ _, _) = (Routine.request _ _, _)
      congr 2
      funext r
      cases r <;> rfl
    · rfl

theorem advance_delete (id : RequestId) (s : TargetState) :
    (ExceptT.run (RequestCall.delete id).work).advance s =
      ((first s.requests (.delete id)).1.remainder,
        { s with requests := (first s.requests (.delete id)).2 }) := by
  show (ExceptT.run (match (s.requests.remove id).1 with
    | none => throw (.unknownRequest id)
    | some e =>
      match e.wireId with
      | some wireId => Work.ask (.clearRequest e.kind.code wireId)
      | none => return () : Work Unit)).advance { s with requests := (s.requests.remove id).2 } = _
  simp only [first, RequestTable.remove]
  cases s.requests.entries.get? id with
  | none => rfl
  | some e =>
    obtain ⟨kind, policy, modifiers, wireId⟩ := e
    cases wireId <;> rfl

/-- A call begins in its first stage. -/
theorem advance_work (call : RequestCall) (s : TargetState) :
    (ExceptT.run call.work).advance s =
      ((first s.requests call).1.remainder, { s with requests := (first s.requests call).2 }) := by
  cases call with
  | create kind policy modifiers =>
    rw [remainder_create]
    rfl
  | setEnabled id active => exact advance_setEnabled id active s
  | delete id => exact advance_delete id s

/-- A step of a call goes to the next stage. -/
theorem move_remainder (stage : Stage) (s : TargetState) (x : Machine) :
    stage.remainder.move Machine.answer s x =
      ((stage.next s.requests x).1.remainder,
        { s with requests := (stage.next s.requests x).2.1 }, (stage.next s.requests x).2.2) := by
  cases stage <;> rfl

end Stage

/-! ## Crews -/

structure RequestCrew where
  state : TargetState := {}
  machine : Machine := {}
  calls : List (RequestCall × Remainder) := []

namespace RequestCrew

/-- What comes next: a call begins with its first block of updates, or one in flight makes a step, in
which the machine gives out this id if it is asked to install a request. -/
inductive Turn
  | begin (call : RequestCall)
  | go (n : Nat) (wireId : Int32)
  deriving DecidableEq, Repr

def step (c : RequestCrew) : Turn → RequestCrew
  | .begin call =>
    let (rest, state) := (ExceptT.run call.work).advance c.state
    { c with state, calls := c.calls ++ [(call, rest)] }
  | .go n wireId =>
    match c.calls[n]? with
    | none => c
    | some (call, rest) =>
      let (rest, state, machine) :=
        rest.move Machine.answer c.state { c.machine with coming := wireId }
      { state, machine, calls := c.calls.set n (call, rest) }

def run (c : RequestCrew) (turns : List Turn) : RequestCrew := turns.foldl step c

theorem run_append (c : RequestCrew) (xs ys : List Turn) : c.run (xs ++ ys) = (c.run xs).run ys :=
  List.foldl_append

def Idle (c : RequestCrew) : Prop := ∀ call ∈ c.calls, call.2.isDone = true

/-- The machine holds the requests that the table says, and both directions of the table say the
same. -/
structure Agree (c : RequestCrew) : Prop where
  installed : ∀ wireId, wireId ∈ c.machine.installed ↔
    ∃ id e, c.state.requests.entries.get? id = some e ∧ e.wireId = some wireId
  inverse : ∀ wireId id, c.state.requests.byWireId.get? wireId = some id ↔
    ∃ e, c.state.requests.entries.get? id = some e ∧ e.wireId = some wireId

def asksForId (c : RequestCrew) (n : Nat) : Bool :=
  match c.calls[n]? with
  | some (_, .request (.setRequest ..) _) => true
  | _ => false

/-- An id that the machine gives out is not in use. -/
def FreshId (c : RequestCrew) : Turn → Prop
  | .begin _ => True
  | .go n wireId => c.asksForId n = true → wireId ∉ c.machine.installed

/-- An id that the machine gives out is none that the target has still to strike off. -/
def StruckOff (c : RequestCrew) : Turn → Prop
  | .begin _ => True
  | .go n wireId => c.asksForId n = true → c.state.requests.byWireId.get? wireId = none

/-- A call begins while none is in flight that enables or disables its request. -/
def Apart (c : RequestCrew) : Turn → Prop
  | .begin call => ∀ other ∈ c.calls, other.2.isDone = false →
    call.request? = none ∨ call.request? ≠ other.1.switches?
  | .go .. => True

instance (c : RequestCrew) (t : Turn) : Decidable (c.FreshId t) :=
  match t with
  | .begin _ => inferInstanceAs (Decidable True)
  | .go _ _ => inferInstanceAs (Decidable (_ → _))

instance (c : RequestCrew) (t : Turn) : Decidable (c.StruckOff t) :=
  match t with
  | .begin _ => inferInstanceAs (Decidable True)
  | .go _ _ => inferInstanceAs (Decidable (_ → _))

instance (c : RequestCrew) (t : Turn) : Decidable (c.Apart t) :=
  match t with
  | .begin _ => inferInstanceAs (Decidable (∀ other ∈ c.calls, _ → _))
  | .go _ _ => inferInstanceAs (Decidable True)

instance (c : RequestCrew) : Decidable c.Idle :=
  inferInstanceAs (Decidable (∀ call ∈ c.calls, _))

def Turn.creations : Turn → Nat
  | .begin call => call.creations
  | .go .. => 0

/-- A run on a new target, at whose end nothing is in flight. -/
structure Settles (turns : List Turn) : Prop where
  fresh : ∀ xs t, xs ++ [t] <+: turns → (run {} xs).FreshId t
  few : (turns.map Turn.creations).sum < UInt32.size
  idle : (run {} turns).Idle

/-- Nothing comes between the halves of an enabling or disabling call that has to do with its request
or its id. -/
structure Orderly (turns : List Turn) : Prop where
  apart : ∀ xs t, xs ++ [t] <+: turns → (run {} xs).Apart t
  struckOff : ∀ xs t, xs ++ [t] <+: turns → (run {} xs).StruckOff t

/-- What holds at every position holds of every first part. -/
theorem forall_of_position {turns : List Turn} {P : List Turn → Turn → Prop}
    (h : ∀ k : Fin turns.length, P (turns.take k) turns[k]) (xs : List Turn) (t : Turn)
    (hxs : xs ++ [t] <+: turns) : P xs t := by
  obtain ⟨rest, rfl⟩ := hxs
  have hk : xs.length < (xs ++ [t] ++ rest).length := by simp
  simpa using h ⟨xs.length, hk⟩

end RequestCrew

end Wire

end JvmDebug
