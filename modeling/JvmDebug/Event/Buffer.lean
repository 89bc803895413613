import JvmDebug.Event

/-!
A bounded queue of events. A push into a full buffer drops the oldest event; polling and waiting
take events from the front and discard those the filter holds back.
-/
namespace JvmDebug

/-- `dropped` stays set from the first eviction until the buffer is cleared. -/
structure EventBuffer where
  capacity : Nat
  events : List DebugEvent
  dropped : Bool
  deriving Repr

structure BufferInfo where
  count : Nat
  capacity : Nat
  dropped : Bool
  oldest : Option UInt64
  newest : Option UInt64
  deriving DecidableEq, Repr

namespace EventBuffer

/-- At least one event always fits. -/
def empty (capacity : Nat) : EventBuffer := ⟨max capacity 1, [], false⟩

def push (b : EventBuffer) (e : DebugEvent) : EventBuffer :=
  let excess := b.events.length + 1 - b.capacity
  { b with events := b.events.drop excess ++ [e], dropped := b.dropped || excess != 0 }

/-- Take events until `limit` of them pass the filter; a limit of zero is none. -/
def takePassing (filter : List EventKind) (limit : Nat) :
    List DebugEvent → List DebugEvent × List DebugEvent
  | [] => ([], [])
  | e :: es =>
    if e.passes filter then
      if limit = 1 then ([e], es)
      else
        let (taken, rest) := takePassing filter (limit - 1) es
        (e :: taken, rest)
    else takePassing filter limit es

def poll (b : EventBuffer) (limit : Nat) (filter : List EventKind) : List DebugEvent × EventBuffer :=
  let (taken, rest) := takePassing filter limit b.events
  (taken, { b with events := rest })

/-- Take the first event that passes; without one the buffer is emptied. -/
def pop (b : EventBuffer) (filter : List EventKind) : Option DebugEvent × EventBuffer :=
  let (taken, b) := b.poll 1 filter
  (taken.head?, b)

def clear (b : EventBuffer) : EventBuffer := { b with events := [], dropped := false }

def info (b : EventBuffer) : BufferInfo :=
  { count := b.events.length
    capacity := b.capacity
    dropped := b.dropped
    oldest := b.events.head?.map DebugEvent.timestamp
    newest := b.events.getLast?.map DebugEvent.timestamp }

end EventBuffer

end JvmDebug
