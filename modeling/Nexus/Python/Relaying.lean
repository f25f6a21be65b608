import Nexus.Python.Packet

namespace Nexus.Python

namespace Packet

/-- The fields that fit the format. -/
structure InRange (p : Packet) : Prop where
  source_id : 0 ≤ p.source_id ∧ p.source_id < 256 ^ 4
  destination_id : 0 ≤ p.destination_id ∧ p.destination_id < 256 ^ 4
  priority : 0 ≤ p.priority ∧ p.priority < 256
  sequence_number : 0 ≤ p.sequence_number ∧ p.sequence_number < 256 ^ 4
  timestamp : 0 ≤ p.timestamp ∧ p.timestamp < 256 ^ 8

/-- What a satellite makes of the bytes of a packet: `forward_packet` after `deserialize`. -/
def relay (now : Int) (buffer : List UInt8) : Except Raised (List UInt8) := deserialize now buffer >>= serialize

/-- A chain of satellites, with the time at which each of them reads the packet. -/
def relays (times : List Int) (buffer : List UInt8) : Except Raised (List UInt8) :=
  times.foldlM (fun buffer now => relay now buffer) buffer

end Packet

namespace Frame
variable {f : Frame} {type : PacketType}

theorem exists_serialize {p : Packet} (inRange : p.InRange) :
    ∃ f : Frame, p.serialize = .ok f.bytes ∧ PacketType.ofValue f.type.toNat = .ok p.type ∧
      number f.timestamp = p.timestamp ∧ ∀ now, f.packet p.type now = { p with timestamp := now } := by
  have source := pack_eq_ok.mpr ⟨inRange.source_id, rfl⟩
  have destination := pack_eq_ok.mpr ⟨inRange.destination_id, rfl⟩
  have sequence := pack_eq_ok.mpr ⟨inRange.sequence_number, rfl⟩
  have timestamp := pack_eq_ok.mpr ⟨inRange.timestamp, rfl⟩
  have typeByte : appended (p.type.value : Nat) = .ok [UInt8.ofNat p.type.value] :=
    appended_eq_ok.mpr ⟨⟨Int.natCast_nonneg _, by exact_mod_cast p.type.value_lt⟩, rfl⟩
  have priority := appended_eq_ok.mpr ⟨inRange.priority, rfl⟩
  have small : p.priority.toNat < 256 := by
    have bounds := inRange.priority
    omega
  have typeBack : (UInt8.ofNat p.type.value).toNat = p.type.value := UInt8.toNat_ofNat_of_lt' p.type.value_lt
  have priorityBack : ((UInt8.ofNat p.priority.toNat).toNat : Int) = p.priority := by
    rw [UInt8.toNat_ofNat_of_lt' small]
    exact Int.toNat_of_nonneg inRange.priority.1
  refine ⟨⟨_, _, UInt8.ofNat p.type.value, UInt8.ofNat p.priority.toNat, _, _, p.payload,
    length_pack source, length_pack destination, length_pack sequence, length_pack timestamp⟩, ?_, ?_, ?_, ?_⟩
  · unfold Packet.serialize
    simp only [source, destination, sequence, timestamp, typeByte, priority]
    rfl
  · rw [typeBack]
    exact p.type.ofValue_value
  · exact number_pack timestamp
  · intro now
    simp only [packet, Packet.init, number_pack source, number_pack destination, number_pack sequence, priorityBack]

theorem stamped_bytes_eq {field : List UInt8} {size : field.length = 8} :
    (f.stamped field size).bytes = f.bytes ↔ number field = number f.timestamp := by
  constructor
  · intro same
    simp only [bytes, stamped, List.append_assoc, List.append_cancel_left_eq, List.append_cancel_right_eq] at same
    rw [same]
  · intro same
    obtain rfl : field = f.timestamp :=
      Except.ok.inj ((pack_number size).symm.trans (same ▸ pack_number f.sizes.2.2.2))
    rfl

/-- A relay keeps every field but the timestamp, which becomes the time of the relay. -/
theorem relay_bytes (valid : PacketType.ofValue f.type.toNat = .ok type) (now : Int) (b : List UInt8) :
    Packet.relay now f.bytes = .ok b ↔
      ∃ field, ∃ packed : pack 8 now = .ok field, b = (f.stamped field (length_pack packed)).bytes := by
  have read : Packet.deserialize now f.bytes = .ok (f.packet type now) := by
    rw [deserialize_bytes, valid, ok_bind]
  rw [Packet.relay, read, ok_bind, serialize_packet f valid, bind_eq_ok]
  constructor
  · rintro ⟨field, packed, same⟩
    exact ⟨field, packed, (Except.ok.inj same).symm⟩
  · rintro ⟨field, packed, rfl⟩
    exact ⟨field, packed, rfl⟩

theorem relays_bytes (valid : PacketType.ofValue f.type.toNat = .ok type) (times : List Int) (b : List UInt8) :
    Packet.relays times f.bytes = .ok b ↔ (∀ now ∈ times, 0 ≤ now ∧ now < 256 ^ 8) ∧
      ∃ field, ∃ size : field.length = 8, number field = times.getLast?.getD (number f.timestamp) ∧
        b = (f.stamped field size).bytes := by
  induction times generalizing f with
  | nil =>
    constructor
    · intro run
      cases run
      exact ⟨fun now impossible => absurd impossible List.not_mem_nil, _, f.sizes.2.2.2, rfl, rfl⟩
    · rintro ⟨_, field, size, same, rfl⟩
      exact congrArg Except.ok (stamped_bytes_eq.mpr same).symm
  | cons now later ih =>
    rw [Packet.relays, List.foldlM_cons, bind_eq_ok, List.forall_mem_cons, List.getLast?_cons, Option.getD_some]
    constructor
    · rintro ⟨middle, first, rest⟩
      obtain ⟨field, packed, rfl⟩ := (relay_bytes valid now middle).mp first
      obtain ⟨inRange, last, size, same, rfl⟩ := (@ih (f.stamped field (length_pack packed)) valid).mp rest
      refine ⟨⟨(pack_eq_ok.mp packed).1, inRange⟩, last, size, ?_, rfl⟩
      rw [same]
      exact congrArg _ (number_pack packed)
    · rintro ⟨⟨inRange, others⟩, last, size, same, rfl⟩
      have packed := pack_eq_ok.mpr ⟨inRange, rfl⟩
      refine ⟨_, (relay_bytes valid now _).mpr ⟨_, packed, rfl⟩, ?_⟩
      refine (@ih (f.stamped _ (length_pack packed)) valid).mpr ⟨others, last, size, ?_, rfl⟩
      rw [same]
      exact congrArg _ (number_pack packed).symm

end Frame

namespace Packet

/-- The bytes of a packet come out of a chain of satellites as they went in exactly if the last of them reads the packet
in the second that the packet names; the same holds for the timestamp of a packet that is read, and for the bytes of a
packet that is written again. -/
theorem relayed_iff (p : Packet) (inRange : p.InRange) (times : List Int) (now : Int) (b : List UInt8)
    (long : 22 ≤ b.length) (type : PacketType) (valid : PacketType.ofValue (b.getD 8 0).toNat = .ok type) :
    ∃ sent, p.serialize = .ok sent ∧
      (relays times sent = .ok sent ↔
        times = [] ∨ (∀ t ∈ times, 0 ≤ t ∧ t < 256 ^ 8) ∧ times.getLast? = some p.timestamp) ∧
      (∃ q, deserialize now sent = .ok q ∧ (q = p ↔ now = p.timestamp)) ∧
      ∃ q, deserialize now b = .ok q ∧ (q.serialize = .ok b ↔ now = number ((b.drop 14).take 8)) := by
  obtain ⟨f, serialized, known, timestamp, read⟩ := Frame.exists_serialize inRange
  refine ⟨f.bytes, serialized, ?_, ⟨{ p with timestamp := now }, ?_, ?_⟩, ?_⟩
  · rw [Frame.relays_bytes known, timestamp]
    constructor
    · rintro ⟨fits, field, size, same, unchanged⟩
      rw [Frame.stamped_bytes_eq.mp unchanged.symm, timestamp] at same
      cases last : times.getLast? with
      | none => exact Or.inl (List.getLast?_eq_none_iff.mp last)
      | some t =>
        rw [last, Option.getD_some] at same
        exact Or.inr ⟨fits, congrArg some same.symm⟩
    · rintro (rfl | ⟨fits, last⟩)
      · exact ⟨fun t impossible => absurd impossible List.not_mem_nil, _, f.sizes.2.2.2, timestamp, rfl⟩
      · refine ⟨fits, _, f.sizes.2.2.2, ?_, rfl⟩
        rw [last, Option.getD_some, timestamp]
  · rw [Frame.deserialize_bytes, known, ok_bind, read]
  · constructor
    · exact fun same => congrArg Packet.timestamp same
    · rintro rfl
      rfl
  · obtain ⟨g, rfl, typeByte, field, _⟩ := Frame.exists_bytes long
    rw [← typeByte] at valid
    refine ⟨g.packet type now, by rw [Frame.deserialize_bytes, valid, ok_bind], ?_⟩
    rw [← field, g.serialize_packet valid, bind_eq_ok]
    constructor
    · rintro ⟨stamp, packed, same⟩
      rw [← number_pack packed]
      exact (@Frame.stamped_bytes_eq g stamp (length_pack packed)).mp (Except.ok.inj same)
    · rintro rfl
      exact ⟨g.timestamp, pack_number g.sizes.2.2.2, rfl⟩

namespace late

/-- A message that is made in second 1000. -/
def message : Packet := .init 1000 1 2 .groundComm 1 0 [104, 105]

def sent : List UInt8 :=
  [0, 0, 0, 1, 0, 0, 0, 2, 4, 1, 0, 0, 0, 0, 0, 0, 0, 0, 0, 0, 3, 232, 104, 105]

theorem relayed_iff_message :
    ∃ bytes, message.serialize = .ok bytes ∧
      (relays [1000, 1001] bytes = .ok bytes ↔
        [(1000 : Int), 1001] = [] ∨ (∀ t ∈ [(1000 : Int), 1001], 0 ≤ t ∧ t < 256 ^ 8) ∧
          [(1000 : Int), 1001].getLast? = some message.timestamp) ∧
      (∃ q, deserialize 1001 bytes = .ok q ∧ (q = message ↔ 1001 = message.timestamp)) ∧
      ∃ q, deserialize 1001 sent = .ok q ∧ (q.serialize = .ok sent ↔ 1001 = number ((sent.drop 14).take 8)) :=
  relayed_iff message (by constructor <;> decide) [1000, 1001] 1001 sent (by decide) .groundComm rfl

/-- A relay one second later changes the last byte of the timestamp. -/
theorem relay_message :
    message.serialize = .ok sent ∧ relays [1001] sent = .ok (sent.set 21 233) ∧ relays [1001] sent ≠ .ok sent := by
  decide

end late
end Packet
end Nexus.Python
