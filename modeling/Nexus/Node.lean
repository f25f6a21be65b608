import Nexus.NetworkManager
import Nexus.Packet
import Nexus.Inet
import Mathlib.Data.Finmap

namespace Nexus
open ByteOrder Numeral

/-- A datagram handed to the network. -/
structure Datagram where
  target : SockAddr
  payload : List UInt8
  deriving DecidableEq, Repr

/-- How a call of `sendMessage` or `sendFile` ends. -/
inductive Sending
  | nodeNotFound
  | invalidAddress
  | emptyPacket
  | noPath
  | sent (datagrams : List Datagram)
  deriving DecidableEq, Repr

/-- The local `buffer` of `receiveMessage`, with room for the header and a terminating zero. -/
structure ReceiveBuffer where
  bytes : List UInt8
  size : bytes.length = MAX_BUFFER_SIZE + 32

/-- What `receiveMessage` does with the packet that it read. -/
inductive Reaction
  | process (pkt : Packet)
  | forward (datagram : Datagram)

/-- The size that `tellg` reports, which is -1 for a file that is not open. -/
def tellg (file : Option (List UInt8)) : Nat :=
  match file with
  | some bytes => bytes.length
  | none => 2 ^ 64 - 1

/-- The ceiling of the quotient of doubles, converted to `int`. -/
def fragmentsFor (file_size : Nat) : Except Fault Int :=
  match ((Binary64.ofRat file_size).div (Binary64.ofRat MAX_BUFFER_SIZE)).ceil.truncate with
  | some count => checkInt count
  | none => .error .overflow

namespace Node
variable (host : ByteOrder)

/-- An address set to zero, then to what `inet_pton` reads. -/
def sockAddr (ip : String) (port : Int) : SockAddr where
  sin_addr := (inet_pton host ip).getD 0
  sin_port := htons host port

/-- The member `addr`, set by the constructor. -/
def addr (self : Node) : SockAddr := sockAddr host self.ip self.port

def sendTo (targetIP : String) (targetPort : Int) (pkt : Packet) : Datagram where
  target := sockAddr host targetIP targetPort
  payload := pkt.serialize host

/-- The two numbers are what the memory of the packet's fragment fields holds. -/
def sendMessage (self : Node) (networkManager : NetworkManager) (targetName : String) (message : List UInt8)
    (fragmentNumber fragmentCount : UInt16) : Except Fault Sending :=
  match networkManager.findNode targetName with
  | none => .ok .nodeNotFound
  | some targetNode =>
    match inet_pton host targetNode.ip with
    | none => .ok .invalidAddress
    | some sin_addr => do
      let pkt := Packet.addressed fragmentNumber fragmentCount (self.addr host).sin_addr
        (self.addr host).sin_port sin_addr (htons host targetNode.port) .text
      let data ← pkt.data.overwrite message
      let pkt := { pkt with data }
      if (pkt.serialize host).isEmpty then pure .emptyPacket
      else
        match ← networkManager.getNextHop targetName with
        | none => pure .noPath
        | some nextHop => pure (.sent [sendTo host nextHop.ip nextHop.port pkt])

/-- The variables of the loop of `sendFile`. -/
structure FileLoop where
  fragNumber : Int
  buffer : Buffer
  datagrams : List Datagram

/-- One pass of the loop of `sendFile`. A read at the end of the file leaves the rest of the buffer
as it was. -/
def sendFragment (networkManager : NetworkManager) (targetName : String) (content : List UInt8) (pkt : Packet)
    (loop : FileLoop) (i : Nat) : Except Fault FileLoop := do
  let buffer ← loop.buffer.overwrite (Packet.slice content (i * MAX_BUFFER_SIZE) MAX_BUFFER_SIZE)
  let pkt := { pkt with fragmentNumber := UInt16.ofInt loop.fragNumber, data := buffer }
  let fragNumber ← checkInt (loop.fragNumber + 1)
  match ← networkManager.getNextHop targetName with
  | none => .error .nullPointer
  | some nextHop =>
    pure ⟨fragNumber, buffer, loop.datagrams ++ [sendTo host nextHop.ip nextHop.port pkt]⟩

/-- `file` is `none` when it cannot be opened; `buffer` is what the memory of the local array holds. -/
def sendFile (self : Node) (networkManager : NetworkManager) (targetName : String)
    (file : Option (List UInt8)) (buffer : Buffer) : Except Fault Sending :=
  match networkManager.findNode targetName with
  | none => .ok .nodeNotFound
  | some targetNode =>
    match inet_pton host targetNode.ip with
    | none => .ok .invalidAddress
    | some sin_addr => do
      let fragCount ← fragmentsFor (tellg file)
      let pkt := Packet.addressed 0 (UInt16.ofInt fragCount) (self.addr host).sin_addr
        (self.addr host).sin_port sin_addr (htons host targetNode.port) .file
      let loop ← forRange fragCount.toNat ⟨1, buffer, []⟩
        (sendFragment host networkManager targetName (file.getD []) pkt)
      pure (.sent loop.datagrams)

/-- What `recvfrom` leaves in the local buffer, with the terminating zero. -/
def received (buffer : ReceiveBuffer) (payload : List UInt8) : List UInt8 :=
  let bytesReceived := payload.take (MAX_BUFFER_SIZE + 31)
  bytesReceived ++ 0 :: buffer.bytes.drop (bytesReceived.length + 1)

def receiveMessage (self : Node) (buffer : ReceiveBuffer) (payload : List UInt8) : Except Fault Reaction := do
  let pkt ← Packet.deserialize host (received buffer payload)
  if pkt.tAddress = (self.addr host).sin_addr ∧ pkt.tPort = htons host self.port then pure (.process pkt)
  else
    let nextIP := inet_ntop host pkt.tAddress
    let nextPort := ntohs host pkt.tPort
    pure (.forward (sendTo host nextIP nextPort pkt))

end Node

/-- A file name under `/tmp`. -/
abbrev FileName := List Char

/-- The files under `/tmp`. -/
abbrev Directory := Finmap fun _ : FileName => List UInt8

/-- An open `std::ofstream`; after a failed insertion it takes no more. -/
structure OutputFile where
  bytes : List UInt8
  good : Bool

/-- `output << fragment.rdbuf()`, which fails if no character can be inserted. -/
def OutputFile.insert (output : OutputFile) (fragment : Option (List UInt8)) : OutputFile :=
  if output.good then
    match fragment with
    | some (byte :: bytes) => { output with bytes := output.bytes ++ byte :: bytes }
    | some [] => { output with good := false }
    | none => { output with good := false }
  else output

/-- What processing a packet leaves behind: the files, a line on the standard output, and the
content of the reassembled file if one was written. -/
structure Processed where
  tmp : Directory
  printed : Option (List UInt8)
  written : Option (List UInt8)

namespace Node

/-- The start of the names of all fragments of a sender. -/
def senderPrefix (sAddress : UInt32) (sPort : UInt16) : FileName :=
  decimal sAddress.toNat ++ '_' :: decimal sPort.toNat

def fragmentFile (sender : FileName) (i : Nat) : FileName := sender ++ '_' :: decimal i

def finalFile (sender : FileName) : FileName := "final_".toList ++ sender

def writeToFile (tmp : Directory) (pkt : Packet) : Directory :=
  tmp.insert (fragmentFile (senderPrefix pkt.sAddress pkt.sPort) pkt.fragmentNumber.toNat) pkt.data.bytes

/-- The files that the scan of `reassembleFile` counts. -/
def countFiles (tmp : Directory) (sender : FileName) : Nat := (tmp.keys.filter fun name => sender <+: name).card

/-- One pass of the loop of `reassembleFile`: read a fragment and remove its file. -/
def appendFragment (sender : FileName) (loop : Directory × OutputFile) (i : Nat) : Directory × OutputFile :=
  let filename := fragmentFile sender (i + 1)
  (loop.1.erase filename, loop.2.insert (loop.1.lookup filename))

/-- The output file counts as written when it is closed. Its name is not the name of a fragment. -/
def reassembleFile (tmp : Directory) (pkt : Packet) : Directory × Option (List UInt8) :=
  let sender := senderPrefix pkt.sAddress pkt.sPort
  let count := countFiles tmp sender
  if count ≠ pkt.fragmentCount.toNat then (tmp, none)
  else
    let loop := (List.range count).foldl (appendFragment sender) (tmp, ⟨[], true⟩)
    (loop.1.insert (finalFile sender) loop.2.bytes, some loop.2.bytes)

def ascii (s : String) : List UInt8 := s.toList.map fun c => UInt8.ofNat c.toNat

def processMessage (host : ByteOrder) (tmp : Directory) (pkt : Packet) : Processed :=
  let ip := inet_ntop host pkt.sAddress
  let port := ntohs host pkt.tPort
  if pkt.type = .file then
    let done := reassembleFile (writeToFile tmp pkt) pkt
    ⟨done.1, none, done.2⟩
  else
    ⟨tmp, some (ascii ("From: " ++ ip ++ ":" ++ toString port ++ ">") ++ pkt.data.bytes), none⟩

end Node
end Nexus
