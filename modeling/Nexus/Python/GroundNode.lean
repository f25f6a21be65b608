import Nexus.Chunks
import Nexus.Collect
import Nexus.Python.Packet

namespace Nexus.Python

/-- An entry of `receiving_files`; nothing reads the time at which it was made. -/
structure Receiving where
  total_chunks : Nat
  received_chunks : Collect.Slots (List UInt8)

abbrev ReceivingFiles := Finmap fun _ : Nat => Receiving

/-- What is written to `received_file_<file_id>.bin`. -/
structure Written where
  file_id : Nat
  content : List UInt8
  deriving DecidableEq

/-- What a ground node makes of a packet. -/
inductive Handled
  | position (source_id : Int) (payload : List UInt8)
  | message (source_id : Int) (text : String)
  | written (file : Written)
  deriving DecidableEq

/-- `str.encode`. -/
def encode (text : String) : List UInt8 := text.toList.flatMap String.utf8EncodeChar

/-- `bytes.decode('utf-8')`; `none` is the exception for bytes that encode no text. -/
def decode (bytes : List UInt8) : Option String := String.fromUTF8? bytes.toByteArray

theorem decode_eq_some {bytes : List UInt8} {text : String} : decode bytes = some text ↔ encode text = bytes := by
  have whole : text.toByteArray = (encode text).toByteArray := by
    rw [encode, ← List.utf8Encode, String.utf8Encode_toList]
  rw [decode, String.fromUTF8?, ← List.toByteArray_inj, ← whole]
  constructor
  · intro read
    split at read
    · rw [← Option.some.inj read]
      rfl
    · cases read
  · intro same
    have valid : bytes.toByteArray.IsValidUTF8 := same ▸ text.isValidUTF8
    rw [dif_pos valid, Option.some.injEq, ← String.toByteArray_inj, same]
    rfl

/-- `reader.read(4096)` when all bytes of the connection are there. -/
def read (available : List UInt8) : List UInt8 := available.take 4096

namespace GroundNode

/-- The packet that `send_to_nearest_satellite` makes. -/
def sendToNearestSatellite (now node_id destination_id : Int) (payload : List UInt8) : Packet :=
  .init now node_id destination_id .groundComm 1 0 payload

/-- The packets that `send_file_to_nearest_satellite` makes of a file; `now` gives the time of each of them. -/
def sendFileToNearestSatellite (node_id destination_id : Int) (file_id : Nat) (file_data : List UInt8)
    (chunk_size : Nat) (now : Nat → Int) : Except Raised (List Packet) :=
  let total_chunks := (file_data.length + chunk_size - 1) / chunk_size
  (List.range total_chunks).mapM fun i => do
    let chunk_number := i + 1
    let start := (chunk_number - 1) * chunk_size
    let chunk_data := (file_data.drop start).take chunk_size
    let id ← pack 4 file_id
    let number ← pack 4 chunk_number
    let total ← pack 4 total_chunks
    pure (.init (now i) node_id destination_id .fileTransfer 1 chunk_number (id ++ number ++ total ++ chunk_data))

/-- `struct.unpack('!III', payload[:12])`. -/
def unpackMetadata (payload : List UInt8) : Nat × Nat × Nat :=
  (ByteOrder.value (payload.take 4).reverse, ByteOrder.value ((payload.drop 4).take 4).reverse,
    ByteOrder.value ((payload.drop 8).take 4).reverse)

/-- The chunks from 1 to `total_chunks`; `none` is the exception for a missing one. -/
def chunksOf (received_chunks : Collect.Slots (List UInt8)) (total_chunks : Nat) : Option (List (List UInt8)) :=
  (List.range total_chunks).mapM fun i => received_chunks.lookup (i + 1)

def handleFileTransfer (receiving_files : ReceivingFiles) (packet : Packet) : ReceivingFiles × Option Written :=
  if packet.payload.length < 12 then (receiving_files, none)
  else
    let (file_id, chunk_number, total_chunks) := unpackMetadata packet.payload
    let file_data := packet.payload.drop 12
    let entry := (receiving_files.lookup file_id).getD ⟨total_chunks, ∅⟩
    let received_chunks := entry.received_chunks.insert chunk_number file_data
    let receiving_files := receiving_files.insert file_id { entry with received_chunks }
    if received_chunks.keys.card = total_chunks then
      match chunksOf received_chunks total_chunks with
      | some chunks => (receiving_files.erase file_id, some ⟨file_id, chunks.flatten⟩)
      | none => (receiving_files, none)
    else (receiving_files, none)

/-- A sequence of calls, with the files that they write. -/
def handleAll (receiving_files : ReceivingFiles) : List Packet → ReceivingFiles × List Written
  | [] => (receiving_files, [])
  | packet :: later =>
    let first := handleFileTransfer receiving_files packet
    let rest := handleAll first.1 later
    (rest.1, first.2.toList ++ rest.2)

/-- Every exception is caught and leaves the node as it is. -/
def handleConnection (now : Int) (receiving_files : ReceivingFiles) (available : List UInt8) :
    ReceivingFiles × Option Handled :=
  let data := read available
  if data = [] then (receiving_files, none)
  else
    match Packet.deserialize now data with
    | .error _ => (receiving_files, none)
    | .ok packet =>
      match packet.type with
      | .data => (receiving_files, some (.position packet.source_id packet.payload))
      | .groundComm => (receiving_files, (decode packet.payload).map (.message packet.source_id))
      | .fileTransfer =>
        let handled := handleFileTransfer receiving_files packet
        (handled.1, handled.2.map .written)
      | _ => (receiving_files, none)

/-- A sequence of connections with the times at which they are read, and what is made of them. -/
def handleConnections (receiving_files : ReceivingFiles) : List (Int × List UInt8) → ReceivingFiles × List Handled
  | [] => (receiving_files, [])
  | (now, available) :: later =>
    let first := handleConnection now receiving_files available
    let rest := handleConnections first.1 later
    (rest.1, first.2.toList ++ rest.2)

end GroundNode
end Nexus.Python
