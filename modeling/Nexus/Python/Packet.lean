import Nexus.Runtime
import Nexus.ByteOrder

namespace Nexus.Python

/-- The exceptions that the calls below raise. -/
inductive Raised
  | structError
  | valueError
  | indexError
  deriving DecidableEq, Repr

/-- `struct.pack` of one unsigned field of `width` bytes in network order. -/
def pack (width : Nat) (v : Int) : Except Raised (List UInt8) :=
  if 0 ≤ v ∧ v < 256 ^ width then .ok (ByteOrder.digits width v.toNat).reverse else .error .structError

/-- `struct.unpack_from` of one such field. -/
def unpackFrom (width : Nat) (buffer : List UInt8) (offset : Nat) : Except Raised Nat :=
  if offset + width ≤ buffer.length then .ok (ByteOrder.value ((buffer.drop offset).take width).reverse)
  else .error .structError

/-- What `bytearray.append` adds. -/
def appended (v : Int) : Except Raised (List UInt8) :=
  if 0 ≤ v ∧ v < 256 then .ok [UInt8.ofNat v.toNat] else .error .valueError

def byteAt (buffer : List UInt8) (offset : Nat) : Except Raised UInt8 :=
  match buffer[offset]? with
  | some byte => .ok byte
  | none => .error .indexError

inductive PacketType
  | data
  | ack
  | handshake
  | groundComm
  | fileTransfer
  deriving DecidableEq, Repr

namespace PacketType

def value : PacketType → Nat
  | data => 1
  | ack => 2
  | handshake => 3
  | groundComm => 4
  | fileTransfer => 5

/-- `PacketType(value)`. -/
def ofValue : Nat → Except Raised PacketType
  | 1 => .ok data
  | 2 => .ok ack
  | 3 => .ok handshake
  | 4 => .ok groundComm
  | 5 => .ok fileTransfer
  | _ => .error .valueError

theorem ofValue_value (type : PacketType) : ofValue type.value = .ok type := by
  cases type <;> rfl

theorem value_lt (type : PacketType) : type.value < 256 := by
  cases type <;> decide

theorem ofValue_eq_ok {v : Nat} {type : PacketType} (read : ofValue v = .ok type) : type.value = v := by
  unfold ofValue at read
  split at read <;> cases read <;> rfl

end PacketType

structure Packet where
  source_id : Int
  destination_id : Int
  type : PacketType
  priority : Int
  sequence_number : Int
  timestamp : Int
  payload : List UInt8
  deriving DecidableEq

namespace Packet

/-- The constructor; `now` is what `int(time.time())` returns in it. -/
def init (now source_id destination_id : Int) (packet_type : PacketType) (priority sequence_number : Int)
    (payload : List UInt8) : Packet :=
  ⟨source_id, destination_id, packet_type, priority, sequence_number, now, payload⟩

def serialize (p : Packet) : Except Raised (List UInt8) := do
  let source_id ← pack 4 p.source_id
  let destination_id ← pack 4 p.destination_id
  let type ← appended p.type.value
  let priority ← appended p.priority
  let sequence_number ← pack 4 p.sequence_number
  let timestamp ← pack 8 p.timestamp
  pure (source_id ++ destination_id ++ type ++ priority ++ sequence_number ++ timestamp ++ p.payload)

/-- The timestamp is read, and the constructor sets its own. -/
def deserialize (now : Int) (buffer : List UInt8) : Except Raised Packet := do
  let source_id ← unpackFrom 4 buffer 0
  let destination_id ← unpackFrom 4 buffer 4
  let packet_type ← PacketType.ofValue (← byteAt buffer 8).toNat
  let priority ← byteAt buffer 9
  let sequence_number ← unpackFrom 4 buffer 10
  let _timestamp ← unpackFrom 8 buffer 14
  pure (init now source_id destination_id packet_type priority.toNat sequence_number (buffer.drop 22))

end Packet

section Fields
variable {width : Nat}

theorem pack_eq_ok {v : Int} {bytes : List UInt8} :
    pack width v = .ok bytes ↔ (0 ≤ v ∧ v < 256 ^ width) ∧ bytes = (ByteOrder.digits width v.toNat).reverse := by
  rw [pack, ite_eq_ok, eq_comm]

theorem appended_eq_ok {v : Int} {bytes : List UInt8} :
    appended v = .ok bytes ↔ (0 ≤ v ∧ v < 256) ∧ bytes = [UInt8.ofNat v.toNat] := by
  rw [appended, ite_eq_ok, eq_comm]

theorem unpackFrom_split {buffer before field after : List UInt8} {offset : Nat}
    (split : buffer = before ++ (field ++ after)) (start : before.length = offset) (size : field.length = width) :
    unpackFrom width buffer offset = .ok (ByteOrder.value field.reverse) := by
  subst split start
  unfold unpackFrom
  rw [if_pos (by simp only [List.length_append]; omega), List.drop_left, ← size, List.take_left]

theorem byteAt_split {buffer before after : List UInt8} {byte : UInt8} {offset : Nat}
    (split : buffer = before ++ byte :: after) (start : before.length = offset) : byteAt buffer offset = .ok byte := by
  subst split start
  simp [byteAt]

/-- The number that a field in network order holds. -/
def number (field : List UInt8) : Int := ByteOrder.value field.reverse

theorem number_pack {v : Int} {field : List UInt8} (packed : pack width v = .ok field) : number field = v := by
  obtain ⟨⟨nonneg, small⟩, rfl⟩ := pack_eq_ok.mp packed
  have fits : v.toNat < 256 ^ width := by
    have cast : ((256 ^ width : Nat) : Int) = 256 ^ width := by push_cast; rfl
    omega
  rw [number, List.reverse_reverse, ByteOrder.value_digits fits]
  omega

theorem pack_number {field : List UInt8} (size : field.length = width) : pack width (number field) = .ok field := by
  have bound := ByteOrder.value_lt field.reverse
  rw [List.length_reverse, size] at bound
  have small : number field < 256 ^ width := by
    rw [number]
    exact_mod_cast bound
  refine pack_eq_ok.mpr ⟨⟨Int.natCast_nonneg _, small⟩, ?_⟩
  have back := ByteOrder.digits_value field.reverse
  rw [List.length_reverse, size] at back
  rw [number, Int.toNat_natCast, back, List.reverse_reverse]

theorem length_pack {v : Int} {field : List UInt8} (packed : pack width v = .ok field) : field.length = width := by
  obtain ⟨_, rfl⟩ := pack_eq_ok.mp packed
  rw [List.length_reverse, ByteOrder.length_digits]

end Fields

/-- The bytes of a packet field by field. -/
structure Frame where
  source_id : List UInt8
  destination_id : List UInt8
  type : UInt8
  priority : UInt8
  sequence_number : List UInt8
  timestamp : List UInt8
  payload : List UInt8
  sizes : source_id.length = 4 ∧ destination_id.length = 4 ∧ sequence_number.length = 4 ∧ timestamp.length = 8

namespace Frame

def bytes (f : Frame) : List UInt8 :=
  f.source_id ++ f.destination_id ++ [f.type] ++ [f.priority] ++ f.sequence_number ++ f.timestamp ++ f.payload

/-- The packet of a frame, whose timestamp is that of its construction. -/
def packet (f : Frame) (type : PacketType) (now : Int) : Packet :=
  .init now (number f.source_id) (number f.destination_id) type f.priority.toNat (number f.sequence_number) f.payload

/-- The frame with another timestamp. -/
def stamped (f : Frame) (timestamp : List UInt8) (size : timestamp.length = 8) : Frame :=
  { f with timestamp, sizes := ⟨f.sizes.1, f.sizes.2.1, f.sizes.2.2.1, size⟩ }

theorem exists_bytes {buffer : List UInt8} (long : 22 ≤ buffer.length) :
    ∃ f : Frame, f.bytes = buffer ∧ f.type = buffer.getD 8 0 ∧ f.timestamp = (buffer.drop 14).take 8 ∧
      f.payload = buffer.drop 22 := by
  have cut : ∀ k n, (buffer.drop k).take n ++ buffer.drop (k + n) = buffer.drop k := by
    intro k n
    rw [← List.drop_drop, List.take_append_drop]
  refine ⟨⟨(buffer.drop 0).take 4, (buffer.drop 4).take 4, buffer[8], buffer[9], (buffer.drop 10).take 4,
    (buffer.drop 14).take 8, buffer.drop (14 + 8), ?_⟩, ?_, ?_, rfl, rfl⟩
  · simp only [List.length_take, List.length_drop]
    omega
  · simp only [bytes, List.append_assoc, List.cons_append, List.nil_append]
    rw [cut 14 8, cut 10 4, ← List.drop_eq_getElem_cons, ← List.drop_eq_getElem_cons, cut 4 4, cut 0 4, List.drop_zero]
  · rw [List.getD_eq_getElem?_getD, List.getElem?_eq_getElem, Option.getD_some]

theorem length_bytes (f : Frame) : f.bytes.length = 22 + f.payload.length := by
  obtain ⟨source, destination, sequence, timestamp⟩ := f.sizes
  simp only [bytes, List.length_append, List.length_singleton]
  omega

theorem deserialize_bytes (f : Frame) (now : Int) :
    Packet.deserialize now f.bytes = PacketType.ofValue f.type.toNat >>= fun type => .ok (f.packet type now) := by
  obtain ⟨source, destination, sequence, timestamp⟩ := f.sizes
  have readSource := @unpackFrom_split 4 f.bytes [] f.source_id
    (f.destination_id ++ [f.type, f.priority] ++ f.sequence_number ++ f.timestamp ++ f.payload) 0
    (by simp [bytes]) rfl source
  have readDestination := @unpackFrom_split 4 f.bytes f.source_id f.destination_id
    ([f.type, f.priority] ++ f.sequence_number ++ f.timestamp ++ f.payload) 4
    (by simp [bytes]) source destination
  have readType := @byteAt_split f.bytes (f.source_id ++ f.destination_id)
    (f.priority :: (f.sequence_number ++ f.timestamp ++ f.payload)) f.type 8
    (by simp [bytes]) (by rw [List.length_append]; omega)
  have readPriority := @byteAt_split f.bytes (f.source_id ++ f.destination_id ++ [f.type])
    (f.sequence_number ++ f.timestamp ++ f.payload) f.priority 9
    (by simp [bytes]) (by simp only [List.length_append, List.length_singleton]; omega)
  have readSequence := @unpackFrom_split 4 f.bytes (f.source_id ++ f.destination_id ++ [f.type, f.priority])
    f.sequence_number (f.timestamp ++ f.payload) 10
    (by simp [bytes]) (by simp only [List.length_append, List.length_cons, List.length_nil]; omega) sequence
  have readTimestamp := @unpackFrom_split 8 f.bytes
    (f.source_id ++ f.destination_id ++ [f.type, f.priority] ++ f.sequence_number) f.timestamp f.payload 14
    (by simp [bytes]) (by simp only [List.length_append, List.length_cons, List.length_nil]; omega) timestamp
  have rest : f.bytes.drop 22 = f.payload := by
    have before : (f.source_id ++ f.destination_id ++ [f.type] ++ [f.priority] ++ f.sequence_number ++
        f.timestamp).length = 22 := by
      simp only [List.length_append, List.length_singleton]
      omega
    rw [bytes, ← before, List.drop_left]
  unfold Packet.deserialize
  simp only [readSource, readDestination, readType, readPriority, readSequence, readTimestamp, rest]
  rfl

theorem serialize_packet (f : Frame) {type : PacketType} (valid : PacketType.ofValue f.type.toNat = .ok type)
    (now : Int) :
    (f.packet type now).serialize = pack 8 now >>= fun timestamp =>
      .ok (f.source_id ++ f.destination_id ++ [f.type] ++ [f.priority] ++ f.sequence_number ++ timestamp ++
        f.payload) := by
  have typeByte : appended (type.value : Nat) = .ok [f.type] := by
    rw [PacketType.ofValue_eq_ok valid]
    refine appended_eq_ok.mpr ⟨⟨Int.natCast_nonneg _, by exact_mod_cast f.type.toNat_lt⟩, ?_⟩
    rw [Int.toNat_natCast, UInt8.ofNat_toNat]
  have priorityByte : appended (f.priority.toNat : Nat) = .ok [f.priority] := by
    refine appended_eq_ok.mpr ⟨⟨Int.natCast_nonneg _, by exact_mod_cast f.priority.toNat_lt⟩, ?_⟩
    rw [Int.toNat_natCast, UInt8.ofNat_toNat]
  obtain ⟨source, destination, sequence, _⟩ := f.sizes
  unfold Packet.serialize packet Packet.init
  simp only [pack_number source, pack_number destination, pack_number sequence, typeByte, priorityByte]
  rfl

end Frame
end Nexus.Python
