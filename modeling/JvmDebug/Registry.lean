import JvmDebug.Session.Control

/-!
The sessions of a debugger, open ones by id, and which of them is active. A session that was
removed keeps its number, so that whoever holds on to it can still ask it.
-/
namespace JvmDebug

structure Registry where
  settings : SessionConfig := {}
  sessions : List Session := []
  numbers : Dict String Nat := .empty
  active : Option String := none
  ids : IdSupply := { next := Nat.pow 2 31 }
  latest : Nat := 0

instance : Inhabited Session := ⟨.new "" {} 0 {}⟩

namespace Registry

def session (r : Registry) (n : Nat) : Session := r.sessions[n]?.getD default

def setSession (r : Registry) (n : Nat) (s : Session) : Registry :=
  { r with sessions := r.sessions.set n s }

/-- The ids of a session's breakpoints come from a range of their own. -/
def supplyFor (n : Nat) : IdSupply := { next := n * Nat.pow 2 16 }

/-- Add a session; the first one becomes active. Times of creation are all different. -/
def insert (r : Registry) (id : String) (now : Nat) : Nat × Registry :=
  let n := r.sessions.length
  let time := max now (r.latest + 1)
  (n, { r with
    sessions := r.sessions ++ [.new id r.settings (UInt64.ofNat time) (supplyFor n)]
    numbers := r.numbers.insert id n
    active := r.active <|> some id
    latest := time })

def create (r : Registry) (id : Option String) (now : Nat) : Except DebugError (Nat × Registry) :=
  match id with
  | some id =>
    if r.numbers.contains id then .error (.sessionAlreadyExists id) else .ok (r.insert id now)
  | none =>
    let (id, ids) := r.ids.fresh r.numbers.contains r.numbers.size
    .ok ({ r with ids }.insert id now)

/-- The session to attach, and whether it was made for that: an open one that never had a target
may be used again. -/
def reserve (r : Registry) (id : Option String) (now : Nat) :
    Except DebugError (Nat × Bool × Registry) :=
  match id.bind fun id => (r.numbers.get? id).map fun n => (id, n) with
  | some (id, n) =>
    if (r.session n).state = .created then .ok (n, false, r)
    else .error (.sessionAlreadyExists id)
  | none => (r.create id now).map fun (n, r) => (n, true, r)

def least? : List String → Option String
  | [] => none
  | id :: ids =>
    match least? ids with
    | none => some id
    | some other => some (if other < id then other else id)

/-- Take a session out. If it was active, the one with the least id is next. -/
def forget (r : Registry) (id : String) : Option Nat × Registry :=
  match r.numbers.get? id with
  | none => (none, r)
  | some n =>
    let numbers := r.numbers.erase id
    (some n, { r with
      numbers
      active := if r.active = some id then least? numbers.keys else r.active })

def forgetAll (r : Registry) : List Nat × Registry :=
  (r.numbers.values, { r with numbers := .empty, active := none })

def get (r : Registry) (id : Option String) : Except DebugError Nat :=
  match id <|> r.active with
  | none => .error .noActiveSession
  | some id =>
    match r.numbers.get? id with
    | some n => .ok n
    | none => .error (.sessionNotFound id)

def setActive (r : Registry) (id : String) : Except DebugError Registry :=
  if r.numbers.contains id then .ok { r with active := some id } else .error (.sessionNotFound id)

def rename (r : Registry) (id name : String) : Except DebugError Registry :=
  (r.get (some id)).map fun n => r.setSession n ((r.session n).rename name)

def before (a b : SessionInfo) : Bool :=
  a.createdAt < b.createdAt || (a.createdAt == b.createdAt && !(b.id < a.id))

def list (r : Registry) : List SessionInfo :=
  let info (n : Nat) : SessionInfo :=
    let s := r.session n
    s.info (r.active == some s.id)
  (r.numbers.values.map info).mergeSort before

end Registry

end JvmDebug
