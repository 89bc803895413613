import JvmDebug.Wire.Client

/-!
A scripted agent at the other end of the line. It greets, answers each command with the next reply
of its script, and can send events, answer amiss, stay silent or hang up on the way.
-/
namespace JvmDebug.Wire

structure ScriptedReply where
  body : Bytes := []
  error : UInt16 := 0
  events : List Bytes := []
  stray : Bool := false
  silent : Bool := false
  hangUp : Bool := false
  deriving DecidableEq, Repr, Inhabited

structure Peer where
  greeting : Bytes := Wire.greeting
  script : List ScriptedReply := []
  received : List Packet := []
  deriving DecidableEq, Repr, Inhabited

namespace Peer

def eventPacket (body : Bytes) : Packet := .command 7 64 100 body

def exhausted : ScriptedReply := { error := 113 }

def ScriptedReply.encode (r : ScriptedReply) (id : UInt32) : Bytes :=
  let stray := if r.stray then (Packet.reply (id + 1000) 99 [0x78, 0x78]).encode else []
  let reply := if r.silent then [] else (Packet.reply id r.error r.body).encode
  stray ++ r.events.flatMap (fun body => (eventPacket body).encode) ++ reply

def hear (peer : Peer) (p : Packet) : Bytes × Bool × Peer :=
  let (reply, script) := match peer.script with
    | [] => (exhausted, [])
    | r :: rs => (r, rs)
  (ScriptedReply.encode reply p.id, reply.hangUp,
    { peer with script, received := peer.received ++ [p] })

end Peer

end JvmDebug.Wire
