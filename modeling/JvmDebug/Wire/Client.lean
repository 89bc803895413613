import JvmDebug.Dict
import JvmDebug.Wire.Packet

/-!
The client's books. Commands under way wait for the reply with their packet id; a reader hands every
packet that arrives to the command or to the events it is for. Many commands may be under way at
once, so each step of a command and each packet is a function of its own on the books.
-/
namespace JvmDebug.Wire

/-- Event sets that have arrived and were not looked at yet. A reader that falls behind by more than
the capacity loses the oldest. -/
structure Backlog where
  capacity : Nat
  listening : Bool := false
  sets : List WireEventSet := []
  deriving DecidableEq, Repr, Inhabited

namespace Backlog

def ofSize (size : Nat) : Backlog := { capacity := (max 1 size).nextPowerOfTwo }

def push (b : Backlog) (set : WireEventSet) : Backlog :=
  if b.listening then
    let sets := b.sets ++ [set]
    { b with sets := sets.drop (sets.length - b.capacity) }
  else b

def pop (b : Backlog) : Option WireEventSet × Backlog :=
  match b.sets with
  | [] => (none, b)
  | set :: sets => (some set, { b with sets })

end Backlog

/-- A command under way: its number among all commands, its packet id, and the id sizes that were in
force when it was written. -/
structure Pending where
  number : Nat
  id : UInt32
  sizes : IdSizes
  deriving DecidableEq, Repr, Inhabited

inductive Delivery
  | reply (error : UInt16) (body : Bytes)
  | lost
  deriving DecidableEq, Repr, Inhabited

structure Client where
  sizes : IdSizes := {}
  nextId : UInt32 := 1
  issued : Nat := 0
  /-- The numbers of the commands that wait for a reply, by packet id. -/
  waiting : Dict UInt32 Nat := .empty
  /-- What has come for commands that have not looked yet, by number. -/
  delivered : Dict Nat Delivery := .empty
  closed : Bool := false
  events : Backlog
  deriving DecidableEq, Repr, Inhabited

namespace Client

/-- A new command gets its number and its packet id. -/
def draw (k : Client) (c : Command) : Pending × Packet × Client :=
  (⟨k.issued, k.nextId, k.sizes⟩, Packet.ofCommand k.nextId k.sizes c,
    { k with nextId := k.nextId + 1, issued := k.issued + 1 })

/-- From now on the command waits for the reply with its packet id. -/
def register (k : Client) (p : Pending) : Client :=
  { k with waiting := k.waiting.insert p.id p.number }

def issue (k : Client) (c : Command) : Except WireError (Pending × Packet × Client) :=
  if k.closed then .error .closed
  else
    let (p, packet, k) := k.draw c
    .ok (p, packet, k.register p)

def forget (k : Client) (p : Pending) : Client :=
  { k with waiting := k.waiting.erase p.id, delivered := k.delivered.erase p.number }

def Delivery.body : Delivery → Except WireError Bytes
  | .reply error body => if error = 0 then .ok body else .error (.vm error)
  | .lost => .error .closed

/-- The command looks for its reply, for the last time: without one it was cancelled if the client
is closed, and is out of time otherwise. -/
def finish (k : Client) (p : Pending) : Except WireError Bytes × Client :=
  let result := match k.delivered.get? p.number with
    | some d => Delivery.body d
    | none => .error (if k.closed then .cancelled else .timeout)
  (result, k.forget p)

def adopt (k : Client) (sizes : IdSizes) : Client := { k with sizes }

def shutDown (k : Client) : Client := { k with closed := true }

/-- All that wait are told that the connection is lost. -/
def sweep (k : Client) : Client :=
  { k with
    waiting := .empty
    delivered := k.waiting.values.foldl (fun d number => d.insert number .lost) k.delivered }

def stop (k : Client) : Client := k.shutDown.sweep

/-- The set and number of the one command that the machine sends. -/
def compositeEvent : UInt8 × UInt8 := (64, 100)

/-- The reader gets a packet. A reply goes to the command that waits for it, if any does; other
commands than events mean nothing. With events that cannot be read the reader does not go on. -/
def take? (k : Client) : Packet → Option Client
  | .reply id error body =>
    match k.waiting.get? id with
    | some number =>
      some { k with
        waiting := k.waiting.erase id
        delivered := k.delivered.insert number (.reply error body) }
    | none => some k
  | .command _ set number body =>
    if (set, number) = compositeEvent then
      match k.sizes.getEventSet.run body with
      | .ok set => some { k with events := k.events.push set }
      | .error _ => none
    else some k

def receive (k : Client) (p : Packet) : Client := (k.take? p).getD k.stop

def listen (k : Client) : Client := { k with events := { k.events with listening := true } }

/-- The reader goes through a stream of bytes as far as it holds whole packets; what remains waits
for more bytes. Every turn takes eleven bytes at least. -/
def readStream : (fuel : Nat) → Client → Bytes → Client × Bytes
  | 0, k, stream => (k, stream)
  | fuel + 1, k, stream =>
    if k.closed then (k, stream)
    else
      match Packet.scan stream with
      | .incomplete => (k, stream)
      | .malformed _ => (k.stop, stream)
      | .packet p rest => readStream fuel (k.receive p) rest

end Client

end JvmDebug.Wire
