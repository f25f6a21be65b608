import Nexus.Runtime
import Nexus.ByteOrder

namespace Nexus
open ByteOrder

def MAX_BUFFER_SIZE : Nat := 50 * 1000

def PKT_VERSION : UInt8 := 1

/-- `enum class packetType : uint8_t`. A cast from a byte can give any byte. -/
structure PacketType where
  byte : UInt8
  deriving DecidableEq

namespace PacketType

def text : PacketType := ⟨0⟩
def file : PacketType := ⟨1⟩

end PacketType

/-- `std::array<uint8_t, MAX_BUFFER_SIZE>`. -/
structure Buffer where
  bytes : List UInt8
  size : bytes.length = MAX_BUFFER_SIZE

structure Packet where
  version : UInt8
  sAddress : UInt32
  sPort : UInt16
  tAddress : UInt32
  tPort : UInt16
  type : PacketType
  fragmentNumber : UInt16
  fragmentCount : UInt16
  errorCorrectionCode : UInt32
  data : Buffer

namespace Buffer

def zero : Buffer := ⟨List.replicate MAX_BUFFER_SIZE 0, List.length_replicate⟩

/-- Bytes copied to the front; what does not fit would be written outside the array. -/
def overwrite (b : Buffer) (bytes : List UInt8) : Except Fault Buffer :=
  if fits : bytes.length ≤ MAX_BUFFER_SIZE then
    .ok ⟨bytes ++ b.bytes.drop bytes.length, by
      rw [List.length_append, List.length_drop, b.size]
      omega⟩
  else .error .outOfRange

theorem eq_of_bytes {b c : Buffer} (same : b.bytes = c.bytes) : b = c := by
  cases b
  cases c
  cases same
  rfl

theorem exists_cons (b : Buffer) : ∃ byte bytes, b.bytes = byte :: bytes := by
  refine List.exists_cons_of_ne_nil fun empty => ?_
  have size := b.size
  rw [empty] at size
  cases size

end Buffer

namespace Packet
variable (host : ByteOrder)

/-- The constructor with five arguments. It leaves the fragment fields as they are in memory. -/
def addressed (fragmentNumber fragmentCount : UInt16) (sAddr : UInt32) (sPort : UInt16) (tAddr : UInt32)
    (tPort : UInt16) (type : PacketType) : Packet where
  version := PKT_VERSION
  sAddress := sAddr
  sPort := sPort
  tAddress := tAddr
  tPort := tPort
  type := type
  fragmentNumber := fragmentNumber
  fragmentCount := fragmentCount
  errorCorrectionCode := 0
  data := .zero

/-- One bit of a byte in `calculateCRC`. -/
def crcShift (crc : UInt32) : UInt32 :=
  if crc &&& 1 ≠ 0 then (crc >>> 1) ^^^ 0xEDB88320 else crc >>> 1

def crcByte (crc : UInt32) (byte : UInt8) : UInt32 :=
  crcShift^[8] (crc ^^^ byte.toUInt32)

def calculateCRC (data : List UInt8) : UInt32 :=
  ~~~(data.foldl crcByte 0xFFFFFFFF)

/-- What `serialize` has written before the error correction code. -/
def body (p : Packet) : List UInt8 :=
  [p.version] ++ store host (hton host p.sAddress) ++ store host (hton host p.sPort) ++
    store host (hton host p.tAddress) ++ store host (hton host p.tPort) ++ [p.type.byte] ++
    store host (hton host p.fragmentNumber) ++ store host (hton host p.fragmentCount) ++ p.data.bytes

def serialize (p : Packet) : List UInt8 :=
  p.body host ++ store host (hton host (calculateCRC (p.body host)))

def verifyCRC (p : Packet) : Bool :=
  let serializedData := (p.serialize host).take ((p.serialize host).length - 4)
  calculateCRC serializedData == p.errorCorrectionCode

/-- `n` bytes of a buffer from an offset. -/
def slice (buffer : List UInt8) (offset n : Nat) : List UInt8 := (buffer.drop offset).take n

/-- `memcpy` from a position of a vector. -/
def memcpy (buffer : List UInt8) (offset n : Nat) : Except Fault (List UInt8) :=
  if offset + n ≤ buffer.length then .ok (slice buffer offset n) else .error .outOfRange

def crcMismatch : String :=
  "CRC verification failed! Integrity of the message might be compromised."

def deserialize (buffer : List UInt8) : Except Fault Packet := do
  let offset := 0
  let version ← readAt buffer offset
  let offset := offset + 1
  let sAddress ← memcpy buffer offset 4
  let offset := offset + 4
  let sPort ← memcpy buffer offset 2
  let offset := offset + 2
  let tAddress ← memcpy buffer offset 4
  let offset := offset + 4
  let tPort ← memcpy buffer offset 2
  let offset := offset + 2
  let type ← readAt buffer offset
  let offset := offset + 1
  let fragmentNumber ← memcpy buffer offset 2
  let offset := offset + 2
  let fragmentCount ← memcpy buffer offset 2
  let offset := offset + 2
  let data ← memcpy buffer offset MAX_BUFFER_SIZE
  let offset := offset + MAX_BUFFER_SIZE
  let errorCorrectionCode ← memcpy buffer offset 4
  let data ← Buffer.zero.overwrite data
  let packet : Packet := {
    version := version
    sAddress := ntoh host (load host sAddress)
    sPort := ntoh host (load host sPort)
    tAddress := ntoh host (load host tAddress)
    tPort := ntoh host (load host tPort)
    type := ⟨type⟩
    fragmentNumber := ntoh host (load host fragmentNumber)
    fragmentCount := ntoh host (load host fragmentCount)
    errorCorrectionCode := ntoh host (load host errorCorrectionCode)
    data := data }
  if packet.verifyCRC host then .ok packet else .error (.thrown crcMismatch)

end Packet
end Nexus
