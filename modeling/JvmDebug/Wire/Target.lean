import JvmDebug.Connection
import JvmDebug.Dict
import JvmDebug.Wire.Command

/-!
What a target at the other end of the wire keeps between calls: the types and methods it has asked
for, and its event requests. A request keeps the id it was given here while it is disabled and
installed again, though the machine gives it a new one each time.
-/
namespace JvmDebug.Wire

/-- An event request; it has a wire id while it is installed in the machine. -/
structure EventRequest where
  kind : EventCode
  policy : SuspendPolicy
  modifiers : List Modifier
  wireId : Option Int32
  deriving DecidableEq, Repr, Inhabited

structure RequestTable where
  entries : Dict RequestId EventRequest := .empty
  byWireId : Dict Int32 RequestId := .empty
  nextId : RequestId := 1
  deriving DecidableEq, Repr, Inhabited

namespace RequestTable

def add (t : RequestTable) (kind : EventCode) (policy : SuspendPolicy) (modifiers : List Modifier)
    (wireId : Int32) : RequestId × RequestTable :=
  (t.nextId,
    { entries := t.entries.insert t.nextId ⟨kind, policy, modifiers, some wireId⟩
      byWireId := t.byWireId.insert wireId t.nextId
      nextId := t.nextId + 1 })

def installed (t : RequestTable) (id : RequestId) (wireId : Int32) : RequestTable :=
  { t with
    byWireId := t.byWireId.insert wireId id
    entries := t.entries.modify id fun e => { e with wireId := some wireId } }

def cleared (t : RequestTable) (id : RequestId) (wireId : Int32) : RequestTable :=
  { t with
    byWireId := t.byWireId.erase wireId
    entries := t.entries.modify id fun e => { e with wireId := none } }

def remove (t : RequestTable) (id : RequestId) : Option EventRequest × RequestTable :=
  match t.entries.get? id with
  | none => (none, t)
  | some e =>
    (some e,
      { t with
        entries := t.entries.erase id
        byWireId := match e.wireId with
          | some w => t.byWireId.erase w
          | none => t.byWireId })

end RequestTable

structure TargetState where
  types : Dict TypeId TypeInfo := .empty
  declared : Dict TypeId (List Member) := .empty
  requests : RequestTable := {}
  disposed : Bool := false
  detached : Bool := false
  deriving DecidableEq, Repr, Inhabited

abbrev Work : Type → Type := ExceptT TargetError (Routine Command Command.Reply TargetState)

namespace Work
variable {α : Type}

def askAs (meaning : WireError → TargetError) (c : Command) : Work c.Answer :=
  ExceptT.mk (Routine.request c fun r => .done (r.mapError meaning))

def ask (c : Command) : Work c.Answer := askAs WireError.toTarget c

def askThread (t : ThreadId) (c : Command) : Work c.Answer := askAs (WireError.aboutThread t) c

def attempt (c : Command) : Work c.Reply := ExceptT.lift (Routine.ask c)

def state : Work TargetState := ExceptT.lift Routine.get

def updateGet (f : TargetState → α × TargetState) : Work α := ExceptT.lift (Routine.modifyGet f)

def update (f : TargetState → TargetState) : Work Unit := ExceptT.lift (Routine.modify f)

end Work

/-! ## Tables of a method -/

namespace LineTable

/-- The later of two entries in the order of the code; of two at one index, the second. -/
def later (best : Option LineEntry) (e : LineEntry) : Option LineEntry :=
  match best with
  | some b => if b.index ≤ e.index then some e else some b
  | none => some e

/-- The earlier of two entries in the order of the code; of two at one index, the first. -/
def earlier (best : Option LineEntry) (e : LineEntry) : Option LineEntry :=
  match best with
  | some b => if e.index < b.index then some e else some b
  | none => some e

def lineAt? (t : LineTable) (index : UInt64) : Option UInt32 :=
  ((t.lines.filter fun e => e.index ≤ index).foldl later none).bind fun e =>
    if 0 ≤ e.line.toInt then some (UInt32.ofInt e.line.toInt) else none

def indexOf? (t : LineTable) (line : UInt32) : Option UInt64 :=
  ((t.lines.filter fun e => e.line.toInt = (line.toNat : Int)).foldl earlier none).map LineEntry.index

end LineTable

/-- The variable has a value at an index. The end of its range is reckoned in 64 bits. -/
def VariableEntry.isLive (v : VariableEntry) (index : UInt64) : Bool :=
  v.index ≤ index && index < v.index + v.length.toUInt64

def VariableTable.visible (t : VariableTable) (index : UInt64) : List Variable :=
  (t.entries.filter fun v => v.name != "this" && v.isLive index).map fun v =>
    ⟨v.name, v.signature, v.slot, v.slot < t.arguments⟩

/-! ## Values -/

def objectTag (o : ObjectRef) : UInt8 :=
  charByte (if o.isString then 's' else if o.isArray then '[' else 'L')

def WireValue.ofValue : Value → WireValue
  | .null => .object (charByte 'L') 0
  | .void => .void
  | .boolean b => .boolean b
  | .byte n => .byte n
  | .char n => .char n
  | .short n => .short n
  | .int n => .int n
  | .long n => .long n
  | .float bits => .float bits
  | .double bits => .double bits
  | .object o => .object (objectTag o) o.id

def WireValue.toValue (object : UInt8 → ObjectId → Value) : WireValue → Value
  | .void => .void
  | .boolean b => .boolean b
  | .byte n => .byte n
  | .char n => .char n
  | .short n => .short n
  | .int n => .int n
  | .long n => .long n
  | .float bits => .float bits
  | .double bits => .double bits
  | .object tag id => object tag id

end JvmDebug.Wire
