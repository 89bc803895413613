import JvmDebug.Proofs.Installing
import JvmDebug.Proofs.QuietSteps
import JvmDebug.Proofs.SessionTurns

/-!
The life of a session. Its user may ask for anything at any time, connecting and closing included,
and the target may answer and report as it likes. Every request and every update of a routine is a
step of its own, and anybody else may step in between.
-/
namespace JvmDebug

namespace Routine
variable {ι : Type} {ρ : ι → Type} {σ α : Type}

/-- The next step: a request with its reply, or an update. -/
def tick (reply : (i : ι) → ρ i) : Routine ι ρ σ α → σ → Routine ι ρ σ α × σ
  | done a, s => (done a, s)
  | request i k, s => (k (reply i), s)
  | update f k, s => (k s, f s)

def asks? : Routine ι ρ σ α → Option ι
  | request i _ => some i
  | done _ | update .. => none

def result? : Routine ι ρ σ α → Option α
  | done a => some a
  | request .. | update .. => none

theorem Within.tick {P : ι → Prop} {U : σ → σ → Prop} {m : Routine ι ρ σ α} (hm : m.Within P U)
    (hrefl : ∀ s, U s s) (reply : (i : ι) → ρ i) (s : σ) :
    U s (m.tick reply s).2 ∧ (m.tick reply s).1.Within P U := by
  cases m with
  | done a => exact ⟨hrefl s, trivial⟩
  | request i k => exact ⟨hrefl s, hm.2 _⟩
  | update f k => exact hm s

end Routine

theorem Routine.Gated.tick {α : Type} {P : Call → Prop} {V U : Session → Session → Prop}
    {Q : α → Prop} {m : Task Session α} (hm : m.Gated P V U Q) (hrefl : ∀ s, V s s)
    (reply : (c : Call) → c.Reply) (s : Session) :
    V s (m.tick reply s).2 ∧ (s.unreachable? = none ∧ (m.tick reply s).1.Within P U ∨
      (m.tick reply s).1.Gated P V U Q) := by
  cases m with
  | done a => exact ⟨hrefl s, .inr hm⟩
  | request c k => exact hm.elim
  | update f k => exact hm s

/-! ## What is asked of a session -/

inductive Demand
  | connect (origin : Origin) (description : String)
  | operation (o : Operation)
  | errand (e : Errand)

/-- Closing tells the event loop to stop, waits for its end if nobody else does, and lets go of the
target. -/
inductive FlightStage
  | closing
  | waiting
  | working (task : Task Session (Option DebugError))

def Session.letGo : Task Session (Option DebugError) :=
  Routine.bind Session.finishClose fun _ => .done none

namespace Demand

def isConnect : Demand → Bool
  | connect .. => true
  | operation _ | errand _ => false

def isClose : Demand → Bool
  | errand .close => true
  | connect .. | operation _ | errand _ => false

theorem isConnect_of_isClose {d : Demand} (h : d.isClose = true) : d.isConnect = false := by
  cases d with
  | connect origin description => cases h
  | operation o => rfl
  | errand e => rfl

def stage : Demand → FlightStage
  | connect origin description => .working (Session.connect origin description).failure?
  | operation o => .working o.task
  | errand .close => .closing
  | errand e => .working e.task

end Demand

structure Flight where
  demand : Demand
  stage : FlightStage

/-- The flight has landed. -/
def Flight.Landed (f : Flight) : Prop := ∃ result, f.stage = .working (.done result)

/-! ## Lives -/

inductive LoopStage
  | unborn
  | waiting
  | handling (task : Task Session Bool)
  | over

/-- A call with its reply, and the number of the flight that made it; the event loop has none. -/
structure Exchange where
  who : Option Nat
  call : Call
  reply : call.Reply

abbrev Replies : Type := (c : Call) → c.Reply

def logEntries {α : Type} (who : Option Nat) (reply : Replies) (task : Task Session α) :
    List Exchange :=
  task.asks?.toList.map fun c => ⟨who, c, reply c⟩

/-- The calls on a session under way and those that are over, in the order in which they began.
Those that connect it take turns: who has the `lock` comes first. -/
structure Lifetime where
  session : Session
  flights : List Flight := []
  lock : Option Nat := none
  loop : LoopStage := .unborn
  log : List Exchange := []

namespace Lifetime

/-- A call begins; a flight, or the event loop, makes its next step; the loop reads or, if it was
told to, stops. -/
inductive Turn
  | begin (d : Demand)
  | go (n : Nat) (reply : Replies)
  | read (r : Reading)
  | handle (reply : Replies)
  | stop

def setStage (c : Lifetime) (n : Nat) (f : Flight) (stage : FlightStage) : Lifetime :=
  { c with flights := c.flights.set n { f with stage } }

/-- The event loop is started when the session has been connected. -/
def passLock (c : Lifetime) (n : Nat) (next : Task Session (Option DebugError)) : Lifetime :=
  { c with
    lock := if next.result?.isSome then none else some n
    loop := if next.result? = some none then .waiting else c.loop }

def work (c : Lifetime) (n : Nat) (f : Flight) (task : Task Session (Option DebugError))
    (reply : Replies) : Lifetime :=
  let (next, session) := task.tick reply c.session
  let c := { c with session, log := c.log ++ logEntries (some n) reply task }
  let c := if f.demand.isConnect then c.passLock n next else c
  c.setStage n f (.working next)

def go (c : Lifetime) (n : Nat) (f : Flight) (reply : Replies) : Lifetime :=
  match f.stage with
  | .closing =>
    let (pending, session) := c.session.beginClose
    { c with session }.setStage n f (if pending then .waiting else .working Session.letGo)
  | .waiting =>
    match c.loop with
    | .over => c.setStage n f (.working Session.letGo)
    | .unborn | .waiting | .handling _ => c
  | .working task =>
    if task.result?.isSome || f.demand.isConnect && c.lock.any (· != n) then c
    else c.work n f task reply

def handle (c : Lifetime) (task : Task Session Bool) (reply : Replies) : Lifetime :=
  match task.result? with
  | some true => { c with loop := .waiting }
  | some false => { c with loop := .over }
  | none =>
    let (next, session) := task.tick reply c.session
    { c with session, loop := .handling next, log := c.log ++ logEntries none reply task }

def step (c : Lifetime) : Turn → Lifetime
  | .begin d => { c with flights := c.flights ++ [⟨d, d.stage⟩] }
  | .go n reply =>
    match c.flights[n]? with
    | none => c
    | some f => c.go n f reply
  | .read r =>
    match c.loop with
    | .waiting => { c with loop := .handling (Session.handleReading r) }
    | .unborn | .handling _ | .over => c
  | .handle reply =>
    match c.loop with
    | .handling task => c.handle task reply
    | .unborn | .waiting | .over => c
  | .stop =>
    match c.loop with
    | .waiting => if c.session.stopping then { c with loop := .over } else c
    | .unborn | .handling _ | .over => c

def run (c : Lifetime) (turns : List Turn) : Lifetime := turns.foldl step c

theorem run_append (c : Lifetime) (xs ys : List Turn) : c.run (xs ++ ys) = (c.run xs).run ys :=
  List.foldl_append

theorem run_snoc (c : Lifetime) (xs : List Turn) (x : Turn) :
    c.run (xs ++ [x]) = (c.run xs).step x := c.run_append xs [x]

/-- The life of a new session. -/
def born (id : String) (settings : SessionConfig) (createdAt : UInt64) (ids : IdSupply) :
    Lifetime :=
  { session := .new id settings createdAt ids }

/-! ### Sample lives -/

def unanswered : Replies := fun _ => .error .timeout

/-- A flight makes its next steps, and the target does not answer. -/
def advance (n steps : Nat) : List Turn := List.replicate steps (.go n unanswered)

def sample : Lifetime := born "s" {} 0 {}

def joining : List Turn := .begin (.connect .attachedRemote "app") :: advance 0 3

/-- The session is connected and closed again. -/
def brief : List Turn :=
  joining ++ .begin (.errand .close) :: advance 1 1 ++ .stop :: advance 1 4

end Lifetime

end JvmDebug
