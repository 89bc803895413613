import JvmDebug.Wire.Peer

/-!
A client on the line to a scripted agent. Nothing happens between the steps of the client but what
the agent does in return, so every command finds its reply at once or never.
-/
namespace JvmDebug.Wire

structure Line where
  client : Client
  peer : Peer
  stream : Bytes := []
  ended : Bool := false
  deriving DecidableEq, Repr, Inhabited

namespace Line

def read (l : Line) : Line :=
  let (client, stream) := Client.readStream (l.stream.length + 1) l.client l.stream
  { l with client := if l.ended ∧ ¬ client.closed then client.stop else client, stream }

def arrive (l : Line) (bytes : Bytes) : Line := { l with stream := l.stream ++ bytes }.read

def hangUp (l : Line) : Line := { l with ended := true }.read

def shutdown (l : Line) : Line := { l with client := l.client.stop }

def note (l : Line) : (c : Command) → c.Reply → Line
  | .idSizes, .ok sizes => { l with client := l.client.adopt sizes }
  | _, _ => l

def perform (c : Command) (l : Line) : c.Reply × Line :=
  match l.client.issue c with
  | .error e => (.error e, l)
  | .ok (p, packet, client) =>
    let (bytes, cut, peer) := l.peer.hear packet
    let l := { l with client, peer }.arrive bytes
    let l := if cut then l.hangUp else l
    let (body, client) := l.client.finish p
    let reply := body.bind (c.read p.sizes).run
    (reply, { l with client }.note c reply)

end Line

end JvmDebug.Wire
