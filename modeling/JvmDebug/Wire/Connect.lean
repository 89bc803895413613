import JvmDebug.Config
import JvmDebug.Text.Affix
import JvmDebug.Text.CharClass
import JvmDebug.Text.Decimal
import JvmDebug.Wire.Remote

/-!
Getting on the line: dialling an address, greeting the agent there, and starting a program that
tells where its agent listens.
-/
namespace JvmDebug.Wire
open Text

/-! ## Greeting -/

structure Network where
  dial : (host : String) → (tcpPort : UInt16) → Except WireError Peer

def Network.unreachable : Network := ⟨fun _ _ => .error (.io "network is unreachable")⟩

def Network.single (peer : Peer) : Network := ⟨fun _ _ => .ok peer⟩

/-- A character between quotes: those that cannot be seen are written by their names or codes. -/
def visibleChar (c : Char) : List Char :=
  let n := c.toNat
  if c = '\x00' then ['\\', '0']
  else if c = '\t' then ['\\', 't']
  else if c = '\n' then ['\\', 'n']
  else if c = '\r' then ['\\', 'r']
  else if c = '"' ∨ c = '\\' then ['\\', c]
  else if n < 0x20 ∨ (0x7f ≤ n ∧ n < 0xa0) ∨ n = 0xad then
    ['\\', 'u', '\x7b'] ++ Nat.toDigits 16 n ++ ['\x7d']
  else [c]

def visible (s : String) : String := String.ofList (['"'] ++ s.toList.flatMap visibleChar ++ ['"'])

namespace Line

def ofPeer (backlog : Nat) (peer : Peer) : Line :=
  { client := { events := Backlog.ofSize backlog }, peer }

/-- Both sides greet; then the client asks for the id sizes. An agent that says too little keeps the
client waiting. What it says beyond the greeting is read as packets. -/
def greet (l : Line) (address : String) : Except WireError Unit × Line :=
  let hello := l.peer.greeting.take greeting.length
  if hello.length < greeting.length then (.error .timeout, l)
  else if hello ≠ greeting then
    (.error (.protocol ("unexpected handshake from " ++ address ++ ": " ++
      visible (Utf8.decodeLossy hello))), l)
  else
    let l := l.arrive (l.peer.greeting.drop greeting.length)
    let (reply, l) := l.perform .idSizes
    (reply.map fun _ => (), l)

end Line

/-- What an attempt to connect has come to: a line, or an error with the agent as it was left, if
one was reached. -/
structure Dialled where
  result : Except WireError Line
  peer : Option Peer

def Network.connect (network : Network) (backlog : Nat) (host : String) (tcpPort : UInt16)
    (address : String) : Dialled :=
  match network.dial host tcpPort with
  | .error e => ⟨.error e, none⟩
  | .ok peer =>
    let (result, line) := (Line.ofPeer backlog peer).greet address
    ⟨result.map fun _ => line, some line.peer⟩

/-! ## Programs -/

/-- The agent of a started program waits for a debugger at a TCP address of its choice. -/
def agentArgument : String :=
  "-agentlib:jdwp=transport=dt_socket,server=y,suspend=y,address=127.0.0.1:0"

/-- The arguments of a program; none if an element of the class path holds the separator. -/
def launchArguments (l : Launch) : Option (List String) :=
  if l.classpath.any fun path => path.toList.contains ':' then none
  else
    let classpath := if l.classpath.isEmpty then [] else ["-cp", ":".intercalate l.classpath]
    some ([agentArgument] ++ l.vmArguments ++ classpath ++ [l.mainClass] ++ l.programArguments)

/-- The last part of a TCP address: a whole number of sixteen bits, a plus before it allowed. -/
def tcpPort? (s : List Char) : Option UInt16 :=
  (number? s).bind fun n => if n < UInt16.size then some (UInt16.ofNat n) else none

def banner : String := "Listening for transport dt_socket at address:"

/-- The TCP number that an agent announces in a line, after a host and a colon perhaps. -/
def announcedPort? (line : String) : Option UInt16 := do
  let rest ← afterPrefix? banner.toList (trim line.toList)
  tcpPort? ((pieces ':' (trim rest)).getLast?.getD [])

/-- Starting programs: the lines a program prints, or the reason why it does not start. -/
structure Programs where
  start : (program : String) → (arguments : List String) → Except String (List String)

inductive ConnectError
  | target (e : TargetError)
  | start (program reason : String)
  deriving DecidableEq, Repr, Inhabited

def ConnectError.toTarget : ConnectError → TargetError
  | target e => e
  | start program reason => .io ("failed to spawn " ++ program ++ ": " ++ reason)

/-! ## Destinations -/

/-- A connected target or the error, with what was done on the way: the arguments a program was
started with, and the agent that was reached. -/
structure Connected where
  result : Except ConnectError Remote
  arguments : Option (List String) := none
  peer : Option Peer := none

def localText (pid : UInt32) : String :=
  "attaching to local process " ++ pid.toNat.repr ++ " requires the JVM attach API; " ++
    "start the VM with a JDWP agent and attach remotely"

def attach (config : WireConfig) (network : Network) (host : String) (tcpPort : UInt16) :
    Connected :=
  let address := host ++ ":" ++ tcpPort.toNat.repr
  let dialled := network.connect config.eventBacklog.toNat host tcpPort address
  { result := match dialled.result with
      | .ok line => .ok (Remote.ofLine line)
      | .error e => .error (.target e.toTarget)
    peer := dialled.peer }

def launch (config : WireConfig) (network : Network) (programs : Programs) (l : Launch) :
    Connected :=
  match launchArguments l with
  | none => { result := .error (.target (.io "path segment contains separator")) }
  | some arguments =>
    match programs.start config.java arguments with
    | .error reason => { result := .error (.start config.java reason) }
    | .ok lines =>
      match lines.findSome? announcedPort? with
      | some tcpPort =>
        { attach config network "127.0.0.1" tcpPort with arguments := some arguments }
      | none =>
        { result := .error (.target (.protocol
            "debuggee exited before the JDWP agent started listening"))
          arguments := some arguments }

def connect (config : WireConfig) (network : Network) (programs : Programs) :
    Destination → Connected
  | .remote host tcpPort => attach config network host tcpPort
  | .local pid => { result := .error (.target (.unsupported (localText pid))) }
  | .launch l => launch config network programs l

end JvmDebug.Wire
