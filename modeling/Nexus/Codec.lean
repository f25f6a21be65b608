import Nexus.Packet

namespace Nexus
open ByteOrder
namespace Packet
variable {host : ByteOrder}

/-- Header, data and error correction code. -/
def wireSize : Nat := MAX_BUFFER_SIZE + 22

theorem length_slice {buffer : List UInt8} {offset n : Nat} (fits : offset + n ≤ buffer.length) :
    (slice buffer offset n).length = n := by
  rw [slice, List.length_take, List.length_drop]
  omega

theorem memcpy_eq {buffer : List UInt8} {offset n : Nat} (fits : offset + n ≤ buffer.length) :
    memcpy buffer offset n = .ok (slice buffer offset n) :=
  if_pos fits

theorem slice_append_slice (buffer : List UInt8) (offset m n : Nat) :
    slice buffer offset m ++ slice buffer (offset + m) n = slice buffer offset (m + n) := by
  unfold slice
  rw [List.take_add, List.drop_drop]

theorem slice_one {buffer : List UInt8} {offset : Nat} (inside : offset < buffer.length) :
    slice buffer offset 1 = [buffer.get ⟨offset, inside⟩] := by
  rw [slice, List.take_one_drop_eq_of_lt_length inside]

/-- The fields of a packet, before its error correction code is verified. -/
def fields (buffer : List UInt8) (long : wireSize ≤ buffer.length) : Packet where
  version := buffer.get ⟨0, by unfold wireSize at long; omega⟩
  sAddress := load big (slice buffer 1 4)
  sPort := load big (slice buffer 5 2)
  tAddress := load big (slice buffer 7 4)
  tPort := load big (slice buffer 11 2)
  type := ⟨buffer.get ⟨13, by unfold wireSize at long; omega⟩⟩
  fragmentNumber := load big (slice buffer 14 2)
  fragmentCount := load big (slice buffer 16 2)
  errorCorrectionCode := load big (slice buffer (18 + MAX_BUFFER_SIZE) 4)
  data := ⟨slice buffer 18 MAX_BUFFER_SIZE, length_slice (by unfold wireSize at long; omega)⟩

theorem length_body (host : ByteOrder) (p : Packet) : (p.body host).length = 18 + MAX_BUFFER_SIZE := by
  simp [body, p.data.size]
  omega

theorem length_serialize (host : ByteOrder) (p : Packet) : (p.serialize host).length = wireSize := by
  simp [serialize, length_body, wireSize]
  omega

theorem take_serialize (host : ByteOrder) (p : Packet) :
    (p.serialize host).take (18 + MAX_BUFFER_SIZE) = p.body host := by
  rw [serialize, ← length_body host p, List.take_left]

/-- The code that a packet carries is verified against its own encoding. -/
theorem verifyCRC_iff (p : Packet) :
    p.verifyCRC host = true ↔ calculateCRC (p.body host) = p.errorCorrectionCode := by
  have size : (p.serialize host).length - 4 = 18 + MAX_BUFFER_SIZE := by
    rw [length_serialize, wireSize]
    omega
  simp only [verifyCRC, size, take_serialize, beq_iff_eq]

theorem Buffer.zero_overwrite {bytes : List UInt8} (size : bytes.length = MAX_BUFFER_SIZE) :
    Buffer.zero.overwrite bytes = .ok ⟨bytes, size⟩ := by
  unfold Buffer.overwrite
  rw [dif_pos (Nat.le_of_eq size)]
  congr 1
  apply Buffer.eq_of_bytes
  simp [Buffer.zero, size]

theorem deserialize_eq {buffer : List UInt8} (long : wireSize ≤ buffer.length) :
    deserialize host buffer =
      if (fields buffer long).verifyCRC host then .ok (fields buffer long) else .error (.thrown crcMismatch) := by
  have size : 22 + MAX_BUFFER_SIZE ≤ buffer.length := by
    unfold wireSize at long
    omega
  have copy : ∀ offset n, offset + n ≤ 22 + MAX_BUFFER_SIZE →
      memcpy buffer offset n = .ok (slice buffer offset n) := fun offset n fits => memcpy_eq (by omega)
  have read : ∀ offset (inside : offset < buffer.length),
      readAt buffer offset = .ok (buffer.get ⟨offset, inside⟩) :=
    fun offset inside => readAt_get buffer ⟨offset, inside⟩
  have long32 : ∀ offset, offset + 4 ≤ 22 + MAX_BUFFER_SIZE →
      (ntoh host (load host (slice buffer offset 4)) : UInt32) = load big (slice buffer offset 4) :=
    fun offset fits => ntoh_load host (length_slice (by omega))
  have short16 : ∀ offset, offset + 2 ≤ 22 + MAX_BUFFER_SIZE →
      (ntoh host (load host (slice buffer offset 2)) : UInt16) = load big (slice buffer offset 2) :=
    fun offset fits => ntoh_load host (length_slice (by omega))
  unfold deserialize
  simp only [read 0 (by omega), read 13 (by omega), copy 1 4 (by omega), copy 5 2 (by omega), copy 7 4 (by omega),
    copy 11 2 (by omega), copy 14 2 (by omega), copy 16 2 (by omega), copy 18 MAX_BUFFER_SIZE (by omega),
    copy (18 + MAX_BUFFER_SIZE) 4 (by omega), Nat.zero_add, Nat.reduceAdd, bind, Except.bind,
    Buffer.zero_overwrite (length_slice (by omega : 18 + MAX_BUFFER_SIZE ≤ buffer.length))]
  simp only [long32 1 (by omega), short16 5 (by omega), long32 7 (by omega), short16 11 (by omega),
    short16 14 (by omega), short16 16 (by omega), long32 (18 + MAX_BUFFER_SIZE) (by omega)]
  rfl

/-- Re-encoding the fields of a buffer gives back the bytes that they were read from. -/
theorem body_fields {buffer : List UInt8} (long : wireSize ≤ buffer.length) :
    (fields buffer long).body host = buffer.take (18 + MAX_BUFFER_SIZE) := by
  have size : 22 + MAX_BUFFER_SIZE ≤ buffer.length := by
    unfold wireSize at long
    omega
  have long32 : ∀ offset, offset + 4 ≤ 22 + MAX_BUFFER_SIZE →
      store big (load big (slice buffer offset 4) : UInt32) = slice buffer offset 4 :=
    fun offset fits => store_load big (length_slice (by omega))
  have short16 : ∀ offset, offset + 2 ≤ 22 + MAX_BUFFER_SIZE →
      store big (load big (slice buffer offset 2) : UInt16) = slice buffer offset 2 :=
    fun offset fits => store_load big (length_slice (by omega))
  have whole : buffer.take (18 + MAX_BUFFER_SIZE) = slice buffer 0 (18 + MAX_BUFFER_SIZE) := by
    rw [slice, List.drop_zero]
  unfold body fields
  simp only [store_hton, long32 1 (by omega), short16 5 (by omega), long32 7 (by omega), short16 11 (by omega),
    short16 14 (by omega), short16 16 (by omega)]
  rw [← slice_one (by omega : 0 < buffer.length), ← slice_one (by omega : 13 < buffer.length), whole]
  rw [slice_append_slice buffer 0 1 4, slice_append_slice buffer 0 5 2, slice_append_slice buffer 0 7 4,
    slice_append_slice buffer 0 11 2, slice_append_slice buffer 0 13 1, slice_append_slice buffer 0 14 2,
    slice_append_slice buffer 0 16 2, slice_append_slice buffer 0 18 MAX_BUFFER_SIZE]

/-- Header and data determine every field but the error correction code. -/
theorem body_injective {p q : Packet} (same : p.body host = q.body host) :
    p = { q with errorCorrectionCode := p.errorCorrectionCode } := by
  unfold body at same
  simp only [store_hton] at same
  obtain ⟨same, data⟩ := List.append_inj same (by simp)
  obtain ⟨same, fragmentCount⟩ := List.append_inj same (by simp)
  obtain ⟨same, fragmentNumber⟩ := List.append_inj same (by simp)
  obtain ⟨same, type⟩ := List.append_inj same (by simp)
  obtain ⟨same, tPort⟩ := List.append_inj same (by simp)
  obtain ⟨same, tAddress⟩ := List.append_inj same (by simp)
  obtain ⟨same, sPort⟩ := List.append_inj same (by simp)
  obtain ⟨version, sAddress⟩ := List.append_inj same (by simp)
  have typeByte : p.type = q.type := congrArg PacketType.mk (List.cons.inj type).1
  obtain ⟨⟩ := p
  simp only [Packet.mk.injEq, true_and]
  exact ⟨(List.cons.inj version).1, store_injective big sAddress, store_injective big sPort,
    store_injective big tAddress, store_injective big tPort, typeByte, store_injective big fragmentNumber,
    store_injective big fragmentCount, Buffer.eq_of_bytes data⟩

theorem serialize_fields {buffer : List UInt8} (long : wireSize ≤ buffer.length)
    (verified : (fields buffer long).verifyCRC host = true) :
    (fields buffer long).serialize host = buffer.take wireSize := by
  have last : (slice buffer (18 + MAX_BUFFER_SIZE) 4).length = Word.width UInt32 :=
    length_slice (by unfold wireSize at long; omega)
  have code : calculateCRC ((fields buffer long).body host) = load big (slice buffer (18 + MAX_BUFFER_SIZE) 4) :=
    (verifyCRC_iff _).mp verified
  have joined := slice_append_slice buffer 0 (18 + MAX_BUFFER_SIZE) 4
  rw [serialize, code, store_hton, store_load big last, body_fields long]
  rw [Nat.zero_add] at joined
  unfold wireSize
  rw [show MAX_BUFFER_SIZE + 22 = 18 + MAX_BUFFER_SIZE + 4 by omega]
  exact joined

theorem deserialize_cases {buffer : List UInt8} (long : wireSize ≤ buffer.length) {p : Packet} :
    deserialize host buffer = .ok p ↔ fields buffer long = p ∧ (fields buffer long).verifyCRC host = true := by
  rw [deserialize_eq long]
  by_cases verified : (fields buffer long).verifyCRC host = true
  · rw [if_pos verified, Except.ok.injEq]
    exact ⟨fun same => ⟨same, verified⟩, fun both => both.1⟩
  · rw [if_neg verified]
    constructor
    · intro impossible
      cases impossible
    · exact fun both => (verified both.2).elim

/-- What an accepted buffer is: the encoding of the packet, which carries the code of its bytes. -/
theorem deserialize_ok {buffer : List UInt8} (long : wireSize ≤ buffer.length) {p : Packet}
    (accepted : deserialize host buffer = .ok p) :
    buffer.take wireSize = p.serialize host ∧
      p.errorCorrectionCode = calculateCRC (buffer.take (18 + MAX_BUFFER_SIZE)) := by
  obtain ⟨same, verified⟩ := (deserialize_cases long).mp accepted
  have code := (verifyCRC_iff _).mp verified
  rw [body_fields long] at code
  rw [← same]
  exact ⟨(serialize_fields long verified).symm, code.symm⟩

theorem deserialize_of_prefix {buffer : List UInt8} (long : wireSize ≤ buffer.length) {p : Packet}
    (start : buffer.take wireSize = p.serialize host)
    (code : p.errorCorrectionCode = calculateCRC (buffer.take (18 + MAX_BUFFER_SIZE))) :
    deserialize host buffer = .ok p := by
  have header : buffer.take (18 + MAX_BUFFER_SIZE) = p.body host := by
    rw [← take_serialize host p, ← start, List.take_take]
    congr 1
  have sameBody : p.body host = (fields buffer long).body host := by rw [body_fields long, header]
  have last : slice buffer (18 + MAX_BUFFER_SIZE) 4 = store big (calculateCRC (p.body host)) := by
    have joined : slice buffer (18 + MAX_BUFFER_SIZE) 4 = (buffer.take wireSize).drop (18 + MAX_BUFFER_SIZE) := by
      rw [slice, List.drop_take]
      congr 1
    rw [joined, start, serialize, ← length_body host p, List.drop_left, store_hton]
  have carried : (fields buffer long).errorCorrectionCode = calculateCRC (p.body host) := by
    show load big (slice buffer (18 + MAX_BUFFER_SIZE) 4) = _
    rw [last, load_store]
  have same : fields buffer long = p := by
    have fields := body_injective sameBody
    rw [code, header, ← carried] at fields
    exact fields.symm
  refine (deserialize_cases long).mpr ⟨same, (verifyCRC_iff _).mpr ?_⟩
  rw [← sameBody, carried]

theorem deserialize_serialize (host : ByteOrder) (p : Packet) (trailing : List UInt8) :
    deserialize host (p.serialize host ++ trailing) =
      .ok { p with errorCorrectionCode := calculateCRC (p.body host) } := by
  have long : wireSize ≤ (p.serialize host ++ trailing).length := by
    rw [List.length_append, length_serialize]
    omega
  have start : (p.serialize host ++ trailing).take wireSize = p.serialize host := by
    rw [← length_serialize host p, List.take_left]
  refine deserialize_of_prefix long start ?_
  rw [show 18 + MAX_BUFFER_SIZE = (p.body host).length by rw [length_body], serialize, List.append_assoc,
    List.take_left]

/-- The decoder accepts a buffer as a packet exactly when the buffer starts with the encoding of the
packet and the packet carries the code of that encoding. Decoding undoes encoding, and a relay that
encodes an accepted packet again sends the bytes that it received. -/
theorem deserialize_eq_ok_iff (host : ByteOrder) (buffer : List UInt8) (long : wireSize ≤ buffer.length)
    (p : Packet) :
    (deserialize host buffer = .ok p ↔ buffer.take wireSize = p.serialize host ∧
      p.errorCorrectionCode = calculateCRC (buffer.take (18 + MAX_BUFFER_SIZE))) ∧
    (∀ trailing, deserialize host (p.serialize host ++ trailing) =
      .ok { p with errorCorrectionCode := calculateCRC (p.body host) }) ∧
    (deserialize host buffer = .ok p → p.serialize host = buffer.take wireSize) :=
  ⟨⟨deserialize_ok long, fun both => deserialize_of_prefix long both.1 both.2⟩,
    deserialize_serialize host p, fun accepted => (deserialize_ok long accepted).1.symm⟩

/-- The encoding of an empty text packet, with the bytes of a receive buffer after it. -/
theorem deserialize_eq_ok_iff_text :
    let p := addressed 0 0 0x0100007F 1280 0x0100007F 1281 .text
    (deserialize .little (p.serialize .little ++ List.replicate 10 0) = .ok p ↔
      (p.serialize .little ++ List.replicate 10 0).take wireSize = p.serialize .little ∧
        p.errorCorrectionCode =
          calculateCRC ((p.serialize .little ++ List.replicate 10 0).take (18 + MAX_BUFFER_SIZE))) ∧
    (∀ trailing, deserialize .little (p.serialize .little ++ trailing) =
      .ok { p with errorCorrectionCode := calculateCRC (p.body .little) }) ∧
    (deserialize .little (p.serialize .little ++ List.replicate 10 0) = .ok p →
      p.serialize .little = (p.serialize .little ++ List.replicate 10 0).take wireSize) :=
  deserialize_eq_ok_iff .little _ (by rw [List.length_append, length_serialize]; omega) _

end Packet
end Nexus
