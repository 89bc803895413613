import JvmDebug.Wire.Command

/-!
Packets: a command or the reply to one, behind a header of eleven bytes that tells the length, the
id and which of both it is.
-/
namespace JvmDebug.Wire
open Text

def greeting : Bytes := Utf8.encode "JDWP-Handshake"

def headerLength : Nat := 11

def replyFlag : UInt8 := 0x80

inductive Packet
  | command (id : UInt32) (set number : UInt8) (body : Bytes)
  | reply (id : UInt32) (error : UInt16) (body : Bytes)
  deriving DecidableEq, Repr, Inhabited

namespace Packet

def ofCommand (id : UInt32) (sizes : IdSizes) (c : Command) : Packet :=
  command id c.code.1 c.code.2 (c.body sizes)

def body : Packet → Bytes
  | command _ _ _ body | reply _ _ body => body

def id : Packet → UInt32
  | command id .. | reply id .. => id

def flags : Packet → UInt8
  | command .. => 0
  | reply .. => replyFlag

def encode (p : Packet) : Bytes :=
  let trailer := match p with
    | command _ set number _ => [set, number]
    | reply _ error _ => putU16 error
  bigEndian 4 (headerLength + p.body.length) ++ putU32 p.id ++ p.flags :: trailer ++ p.body

inductive Scan
  | incomplete
  | malformed (length : Nat)
  | packet (p : Packet) (rest : Bytes)
  deriving DecidableEq, Repr, Inhabited

def scan (stream : Bytes) : Scan :=
  let header := stream.take headerLength
  if header.length < headerLength then .incomplete
  else
    let length := bigEndianValue (header.take 4)
    let id := UInt32.ofNat (bigEndianValue ((header.drop 4).take 4))
    let trailer := header.drop 9
    if length < headerLength then .malformed length
    else
      let size := length - headerLength
      let body := (stream.drop headerLength).take size
      let rest := stream.drop length
      if body.length < size then .incomplete
      else if (header[8]?.getD 0) &&& replyFlag != 0 then
        .packet (reply id (UInt16.ofNat (bigEndianValue trailer)) body) rest
      else .packet (command id (trailer[0]?.getD 0) (trailer[1]?.getD 0) body) rest

def Scan.error? : Scan → Option WireError
  | incomplete => some (.io "early eof")
  | malformed length =>
    some (.protocol ("packet length " ++ length.repr ++ " is shorter than its header"))
  | packet .. => none

end Packet

end JvmDebug.Wire
