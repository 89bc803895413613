import JvmDebug.Registry
import JvmDebug.Session.EventLoop
import JvmDebug.Vm.Answer

/-!
Sessions over a simulated machine on a simulated clock. All sessions share one connection, which
can be told to fail. Event loops read the machine's reports one after the other in the order in
which they asked; time passes only while everybody waits.
-/
namespace JvmDebug

/-- A call is let through `pass` times and then fails `fail` times. -/
structure Fault where
  pass : Nat
  fail : Nat
  error : TargetError
  deriving DecidableEq, Repr

/-- The connection: the machine behind the faults planned for its calls, by name. -/
structure Link where
  vm : Vm
  faults : Dict String Fault := .empty

namespace Link

def due (l : Link) (name : String) : Option TargetError × Link :=
  match l.faults.get? name with
  | none => (none, l)
  | some f =>
    if 0 < f.pass then (none, { l with faults := l.faults.insert name { f with pass := f.pass - 1 } })
    else if 0 < f.fail then
      (some f.error, { l with faults := l.faults.insert name { f with fail := f.fail - 1 } })
    else (none, l)

def answer (c : Call) (l : Link) : c.Reply × Link :=
  match l.due c.name with
  | (some e, l) => (.error e, l)
  | (none, l) =>
    let (reply, vm) := l.vm.answer c
    (reply, { l with vm })

end Link

/-- Who reads reports: the event loop of a session, or the user of the connection. -/
inductive ReaderId
  | loop (n : Nat)
  | user
  deriving DecidableEq, Repr

/-- A reader waits its turn without limit and then for `timeout`, up to the deadline. -/
structure Reader where
  who : ReaderId
  timeout : Nat
  deadline : Nat
  deriving DecidableEq, Repr

inductive LoopState
  | reading
  | asleep (wake : Nat)
  deriving DecidableEq, Repr

/-- Somebody waits for an event of a session; the result is the event, if any, and the time it
took. -/
structure Waiter where
  session : Nat
  filter : List EventKind
  start : Nat
  deadline : Nat
  result : Option (Option DebugEvent × Nat) := none

structure Simulation where
  link : Link
  registry : Registry := {}
  loops : Dict Nat LoopState := .empty
  readers : List Reader := []
  hungUp : Bool := false
  now : Nat := 0
  heard : List (String × UInt64 × EventKind) := []
  waiter : Option Waiter := none
  read : Option (Option EventSet) := none

namespace Simulation

/-! ## Steps -/

def session (w : Simulation) (n : Nat) : Session := w.registry.session n

def run {α : Type} (w : Simulation) (n : Nat) (m : Task Session α) : α × Simulation :=
  let s := { w.session n with clock := UInt64.ofNat w.now }
  let (a, s, link) := m.run Link.answer s w.link
  (a, { w with
    link
    registry := w.registry.setSession n { s with heard := [] }
    heard := w.heard ++ s.heard })

def runFree {α : Type} (w : Simulation) (m : Task Unit α) : α × Simulation :=
  let (a, _, link) := m.run Link.answer () w.link
  (a, { w with link })

def call (w : Simulation) (c : Call) : c.Reply × Simulation :=
  let (reply, link) := w.link.answer c
  (reply, { w with link })

/-! ## Reading reports -/

def beginTurn (w : Simulation) : Simulation :=
  match w.readers with
  | [] => w
  | r :: rs => { w with readers := { r with deadline := w.now + r.timeout } :: rs }

def enqueue (w : Simulation) (who : ReaderId) (timeout : Nat) : Simulation :=
  { w with readers := w.readers ++ [⟨who, timeout, w.now + timeout⟩] }

/-- The loop of a session handles what it has read; the answer is whether it goes on. -/
def handle (w : Simulation) (n : Nat) (r : Reading) : Bool × Simulation :=
  let (goesOn, w) := w.run n (Session.handleReading r)
  (goesOn, if goesOn then w else { w with loops := w.loops.erase n })

/-- The loop of a session asks for the next set of events. A failure puts it to sleep for a
while. -/
def startReading (w : Simulation) (n : Nat) : Simulation :=
  let s := w.session n
  if s.stopping then { w with loops := w.loops.erase n }
  else
    match w.link.due "next_event_set" with
    | (some e, link) =>
      let (goesOn, w) := { w with link }.handle n (.error e)
      if goesOn then { w with loops := w.loops.insert n (.asleep (w.now + s.settings.pollTime)) }
      else w
    | (none, link) =>
      let w := { w with link }
      if w.hungUp then (w.handle n (.error .disconnected)).2
      else { w with loops := w.loops.insert n .reading }.enqueue (.loop n) s.settings.pollTime

def deliver (w : Simulation) (who : ReaderId) (r : Report) : Simulation :=
  match who, r with
  | .loop n, .events set =>
    let (goesOn, w) := w.handle n (.ok (some set))
    if goesOn then w.startReading n else w
  | .loop n, .hangUp => ({ w with hungUp := true }.handle n (.error .disconnected)).2
  | .user, .events set => { w with read := some (some set) }
  | .user, .hangUp => { w with hungUp := true }

def deliverAll : Nat → Simulation → Simulation
  | 0, w => w
  | count + 1, w =>
    match w.readers, w.link.vm.reports with
    | r :: rs, x :: xs =>
      let w := { w with
        readers := rs
        link := { w.link with vm := { w.link.vm with reports := xs } } }
      deliverAll count (w.beginTurn.deliver r.who x)
    | _, _ => w

/-- Let the waiter look for its event, for the last time when its time is up. -/
def checkWaiter (w : Simulation) : Simulation :=
  match w.waiter with
  | none => w
  | some waiter =>
    if waiter.result.isSome then w
    else
      let (event, s) := (w.session waiter.session).pop waiter.filter
      let w := { w with registry := w.registry.setSession waiter.session s }
      if event.isSome || waiter.deadline ≤ w.now then
        { w with waiter := some { waiter with result := some (event, w.now - waiter.start) } }
      else w

/-- Let everybody do what can be done without waiting. -/
def settle (w : Simulation) : Simulation := (w.deliverAll w.link.vm.reports.length).checkWaiter

/-! ## Time -/

def nextTimer (w : Simulation) : Option Nat :=
  let sleepers := w.loops.values.filterMap fun
    | .asleep wake => some wake
    | .reading => none
  let waiter := match w.waiter with
    | some waiter => if waiter.result.isNone then [waiter.deadline] else []
    | none => []
  (((w.readers.head?.map Reader.deadline).toList ++ sleepers) ++ waiter).min?

def wake (w : Simulation) : Simulation :=
  w.loops.entries.foldl
    (fun w (n, state) =>
      match state with
      | .asleep time => if time ≤ w.now then w.startReading n else w
      | .reading => w)
    w

def expire (w : Simulation) : Simulation :=
  match w.readers with
  | [] => w
  | r :: rs =>
    if w.now < r.deadline then w
    else
      let w := { w with readers := rs }.beginTurn
      match r.who with
      | .loop n => w.startReading n
      | .user => { w with read := some none }

def advance (stop : Simulation → Bool) (target : Nat) : Nat → Simulation → Simulation
  | 0, w => { w with now := max w.now target }
  | fuel + 1, w =>
    if stop w then w
    else
      match w.nextTimer with
      | some t =>
        if t ≤ target then
          advance stop target fuel { w with now := max w.now t }.wake.expire.settle
        else { w with now := max w.now target }
      | none => { w with now := max w.now target }

/-- Let time pass until `target`. Timers go off at most twice at each instant. -/
def passUntil (w : Simulation) (target : Nat) (stop : Simulation → Bool) : Simulation :=
  advance stop target (2 * (target - w.now) + 2) w.settle

def pass (w : Simulation) (time : Nat) : Simulation :=
  w.passUntil (w.now + time) fun _ => false

/-! ## Sessions -/

/-- Something happens in the machine; afterwards everybody does what can be done. -/
def happen {α : Type} (w : Simulation) (f : Vm → α × Vm) : α × Simulation :=
  let (a, vm) := f w.link.vm
  (a, { w with link := { w.link with vm } }.settle)

def attach (w : Simulation) (id name : Option String) (target : Destination) :
    Except DebugError Nat × Simulation :=
  match w.registry.reserve id w.now with
  | .error e => (.error e, w)
  | .ok (n, made, registry) =>
    let w := { w with registry }
    match w.link.due "connect" with
    | (some e, link) =>
      let w := { w with link }
      let error := DebugError.connectionFailed (target.describe ++ ": " ++ e.message)
      if made then
        (.error error, { w with registry := (w.registry.forget (w.session n).id).2 })
      else (.error error, w)
    | (none, link) =>
      match { w with link }.run n (Session.connect target.origin target.describe).run with
      | (.error e, w) => (.error e, w)
      | (.ok _, w) =>
        let w := (w.startReading n).settle
        match name with
        | some name =>
          (.ok n, { w with registry := w.registry.setSession n ((w.session n).rename name) })
        | none => (.ok n, w)

def stopLoop (w : Simulation) (n : Nat) : Simulation :=
  match w.loops.get? n with
  | none => w
  | some (.asleep time) => w.passUntil time fun _ => false
  | some .reading =>
    let first := w.readers.head?.any fun r => r.who = .loop n
    let w := { w with
      loops := w.loops.erase n
      readers := w.readers.filter fun r => r.who ≠ .loop n }
    if first then w.beginTurn else w

def close (w : Simulation) (n : Nat) : Simulation :=
  let (pending, s) := (w.session n).beginClose
  let w := { w with registry := w.registry.setSession n s }
  let w := if pending then w.stopLoop n else w
  (w.run n Session.finishClose).2

def remove (w : Simulation) (id : String) : Except DebugError Unit × Simulation :=
  match w.registry.forget id with
  | (none, _) => (.error (.sessionNotFound id), w)
  | (some n, registry) => (.ok (), { w with registry }.close n)

def closeAll (w : Simulation) : Simulation :=
  let (numbers, registry) := w.registry.forgetAll
  numbers.foldl close { w with registry }

/-! ## Waiting -/

def beginWait (w : Simulation) (n : Nat) (timeout : Int) (filter : List EventKind) : Simulation :=
  let deadline := w.now + (w.session n).waitTime timeout
  { w with waiter := some { session := n, filter, start := w.now, deadline } }.settle

def waitOver (w : Simulation) : Bool := w.waiter.all fun waiter => waiter.result.isSome

def endWait (w : Simulation) : (Option DebugEvent × Nat) × Simulation :=
  let deadline := ((w.waiter.map Waiter.deadline).getD 0)
  let w := w.passUntil deadline waitOver
  ((w.waiter.bind Waiter.result).getD (none, 0), { w with waiter := none })

/-- The user of the connection reads a set of events, or none if none comes in time. -/
def readEvents (w : Simulation) (timeout : Nat) :
    Except TargetError (Option EventSet) × Simulation :=
  match w.link.due "next_event_set" with
  | (some e, link) => (.error e, { w with link })
  | (none, link) =>
    let w := { w with link }
    if w.hungUp then (.error .disconnected, w)
    else
      let mine (r : Reader) : Bool := r.who = .user
      let limit := w.now + w.readers.foldl (fun t r => t + r.timeout) 0 + timeout
      let w := { w with read := none }.enqueue .user timeout
      let w := w.passUntil limit fun w => !w.readers.any mine
      match w.read with
      | some set => (.ok set, { w with read := none })
      | none => (.error .disconnected, w)

end Simulation

end JvmDebug
