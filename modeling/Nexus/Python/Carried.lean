import Nexus.Python.Tracking

namespace Nexus.Python
open GroundNode

/-- The bytes of a packet, as one read shows them, but for the timestamp. -/
def Carried (p : Packet) (bytes : List UInt8) : Prop :=
  ∃ f g : Frame, PacketType.ofValue f.type.toNat = .ok p.type ∧ number f.source_id = p.source_id ∧
    number f.destination_id = p.destination_id ∧ f.payload = p.payload ∧ f.Same g ∧ bytes = g.bytes

namespace Carried
variable {p : Packet} {bytes : List UInt8}

theorem of_serialize (written : p.serialize = .ok bytes) : Carried p bytes := by
  obtain ⟨f, same, valid, source, destination, payload⟩ := Packet.exists_frame written
  exact ⟨f, f, valid, source, destination, payload, ⟨rfl, rfl, rfl, rfl⟩, same⟩

theorem read (carried : Carried p bytes) (now : Int) :
    Python.read bytes ≠ [] ∧ ∃ q, Packet.deserialize now (Python.read bytes) = .ok q ∧ q.type = p.type ∧
      q.source_id = p.source_id ∧ q.destination_id = p.destination_id ∧ q.payload = p.payload.take 4074 := by
  obtain ⟨f, g, valid, source, destination, payload, same, rfl⟩ := carried
  have valid' : PacketType.ofValue g.cut.type.toNat = .ok p.type := same.type ▸ valid
  have length := g.cut.length_bytes
  rw [Frame.read_bytes]
  refine ⟨List.ne_nil_of_length_pos (by omega), g.cut.packet p.type now, ?_, rfl, ?_, ?_, ?_⟩
  · rw [Frame.deserialize_bytes, valid', ok_bind]
  · exact (congrArg number same.source_id).trans source
  · exact (congrArg number same.destination_id).trans destination
  · exact same.payload.trans (by rw [payload])

theorem mem_forwardPacket_address {ip : String} {port : Int} {packet : Packet} {sending : Sending}
    (member : sending ∈ SatelliteNode.forwardPacket ip port packet) : sending.ip = ip ∧ sending.port = port := by
  unfold SatelliteNode.forwardPacket at member
  split at member
  · rw [List.mem_singleton.mp member]
    exact ⟨rfl, rfl⟩
  · cases member

/-- A satellite sends a packet on as it came, to where it knows the destination or its peers. -/
theorem forward (carried : Carried p bytes) {satellite : SatelliteNode} {now : Int} {sending : Sending}
    (member : sending ∈ satellite.handleConnection now bytes) :
    Carried p sending.bytes ∧
      ((∃ entry ∈ satellite.ground_nodes, entry.ground_id = p.destination_id ∧ sending.ip = entry.ip ∧
          sending.port = entry.port) ∨
        ∃ entry ∈ satellite.peer_satellites, sending.ip = entry.ip ∧ sending.port = entry.port) := by
  obtain ⟨filled, q, known, -, -, destination, -⟩ := carried.read now
  constructor
  · obtain ⟨f, g, valid, source, destination, payload, same, rfl⟩ := carried
    obtain ⟨g', written, same'⟩ := same.forwarded valid member
    exact ⟨f, g', valid, source, destination, payload, same', written⟩
  · unfold SatelliteNode.handleConnection at member
    simp only [if_neg filled, known] at member
    split at member
    · split at member
      next entry found =>
        have here := List.find?_some found
        have matches' : entry.ground_id = q.destination_id := by simpa using here
        exact .inl ⟨entry, List.mem_of_find?_eq_some found, matches'.trans destination,
          mem_forwardPacket_address member⟩
      next =>
        obtain ⟨entry, known, here⟩ := List.mem_flatMap.mp member
        exact .inr ⟨entry, known, mem_forwardPacket_address here⟩
    · cases member

section Handling
variable (carried : Carried p bytes) (float : String → Option Binary64) (now : Int) (self : Ground)
include carried

theorem handle_data (type : p.type = .data) :
    Ground.handleConnection float now self bytes =
      (self.updateSatellitePosition float p.source_id (p.payload.take 4074),
        some (.position p.source_id (p.payload.take 4074))) := by
  obtain ⟨filled, q, known, type', source, -, payload⟩ := carried.read now
  rw [type] at type'
  simp only [Ground.handleConnection, GroundNode.handleConnection, if_neg filled, known, type', source, payload]

theorem handle_message (type : p.type = .groundComm) :
    Ground.handleConnection float now self bytes =
      (self, (decode (p.payload.take 4074)).map (.message p.source_id)) := by
  obtain ⟨filled, q, known, type', source, -, payload⟩ := carried.read now
  rw [type] at type'
  simp only [Ground.handleConnection, GroundNode.handleConnection, if_neg filled, known, type', source, payload]
  cases decode (p.payload.take 4074) <;> rfl

theorem handle_file (type : p.type = .fileTransfer) :
    ∃ q : Packet, q.payload = p.payload.take 4074 ∧ Ground.handleConnection float now self bytes =
      ({ self with receiving_files := (handleFileTransfer self.receiving_files q).1 },
        (handleFileTransfer self.receiving_files q).2.map .written) := by
  obtain ⟨filled, q, known, type', -, -, payload⟩ := carried.read now
  rw [type] at type'
  refine ⟨q, payload, ?_⟩
  simp only [Ground.handleConnection, GroundNode.handleConnection, if_neg filled, known, type']
  cases (handleFileTransfer self.receiving_files q).2 <;> rfl

end Handling
end Carried

end Nexus.Python
