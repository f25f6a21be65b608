import Nexus.Python.Relaying
import Nexus.Python.SatelliteNode

namespace Nexus.Python
open GroundNode

/-- What comes out of one or more satellites that a packet is sent through. -/
inductive Relayed (sent : List UInt8) : List UInt8 → Prop
  | first {sending : Sending} (satellite : SatelliteNode) (now : Int)
      (forwards : sending ∈ satellite.handleConnection now sent) : Relayed sent sending.bytes
  | next {available : List UInt8} {sending : Sending} (satellite : SatelliteNode) (now : Int)
      (arrived : Relayed sent available) (forwards : sending ∈ satellite.handleConnection now available) :
      Relayed sent sending.bytes

theorem mem_forwardPacket {ip : String} {port : Int} {packet : Packet} {sending : Sending}
    (member : sending ∈ SatelliteNode.forwardPacket ip port packet) : packet.serialize = .ok sending.bytes := by
  unfold SatelliteNode.forwardPacket at member
  split at member
  · rename_i bytes written
    rw [List.mem_singleton.mp member]
    exact written
  · cases member

/-- What a satellite sends on is the packet that it has read, written again. -/
theorem mem_handleConnection {satellite : SatelliteNode} {now : Int} {available : List UInt8} {sending : Sending}
    (member : sending ∈ satellite.handleConnection now available) :
    Packet.relay now (read available) = .ok sending.bytes := by
  unfold SatelliteNode.handleConnection at member
  simp only at member
  split at member
  · cases member
  split at member
  · cases member
  rename_i packet known
  rw [Packet.relay, known, ok_bind]
  split at member
  · split at member
    · exact mem_forwardPacket member
    · obtain ⟨peer, _, here⟩ := List.mem_flatMap.mp member
      exact mem_forwardPacket here
  · cases member

/-- The addresses that a packet is sent to. -/
def SatelliteNode.targets (self : SatelliteNode) (destination_id : Int) : List (String × Int) :=
  match self.ground_nodes.find? fun node => node.ground_id = destination_id with
  | some target_ground => [(target_ground.ip, target_ground.port)]
  | none => self.peer_satellites.map fun peer => (peer.ip, peer.port)

theorem handleConnection_targets {satellite : SatelliteNode} {now : Int} {available bytes : List UInt8}
    {packet : Packet} (filled : read available ≠ []) (known : Packet.deserialize now (read available) = .ok packet)
    (relevant : packet.type = .groundComm ∨ packet.type = .fileTransfer) (written : packet.serialize = .ok bytes) :
    satellite.handleConnection now available =
      (satellite.targets packet.destination_id).map fun address => ⟨address.1, address.2, bytes⟩ := by
  have passes : ∀ ip port, SatelliteNode.forwardPacket ip port packet = [⟨ip, port, bytes⟩] := by
    intro ip port
    rw [SatelliteNode.forwardPacket, written]
  unfold SatelliteNode.handleConnection SatelliteNode.targets
  simp only [if_neg filled, known, if_pos relevant, SatelliteNode.forwardToPeers, passes]
  cases satellite.ground_nodes.find? fun node => node.ground_id = packet.destination_id with
  | some target_ground => rfl
  | none =>
    simp only [← List.map_eq_flatMap, List.map_map]
    rfl

namespace Frame

/-- What one read leaves of a packet. -/
def cut (f : Frame) : Frame := { f with payload := f.payload.take 4074 }

theorem read_bytes (f : Frame) : read f.bytes = f.cut.bytes := by
  obtain ⟨source, destination, sequence, timestamp⟩ := f.sizes
  have before : (f.source_id ++ f.destination_id ++ [f.type] ++ [f.priority] ++ f.sequence_number ++
      f.timestamp).length = 22 := by
    simp only [List.length_append, List.length_singleton]
    omega
  rw [read, bytes, List.take_append, before, List.take_of_length_le (by omega)]
  rfl

/-- The same packet but for its timestamp, as far as one read can tell. -/
structure Same (f g : Frame) : Prop where
  source_id : g.source_id = f.source_id
  destination_id : g.destination_id = f.destination_id
  type : g.type = f.type
  payload : g.payload.take 4074 = f.payload.take 4074

theorem Same.forwarded {f g : Frame} {type : PacketType} (same : f.Same g)
    (valid : PacketType.ofValue f.type.toNat = .ok type) {satellite : SatelliteNode} {now : Int} {sending : Sending}
    (forwards : sending ∈ satellite.handleConnection now g.bytes) :
    ∃ g' : Frame, sending.bytes = g'.bytes ∧ f.Same g' := by
  have passed := mem_handleConnection forwards
  rw [read_bytes] at passed
  have valid' : PacketType.ofValue g.cut.type.toNat = .ok type := same.type ▸ valid
  obtain ⟨field, packed, bytes⟩ := (relay_bytes valid' now _).mp passed
  refine ⟨_, bytes, same.source_id, same.destination_id, same.type, ?_⟩
  show (g.payload.take 4074).take 4074 = _
  rw [List.take_take, Nat.min_self, same.payload]

theorem same_of_relayed {f : Frame} {type : PacketType} (valid : PacketType.ofValue f.type.toNat = .ok type)
    {arrived : List UInt8} (relayed : Relayed f.bytes arrived) : ∃ g : Frame, arrived = g.bytes ∧ f.Same g := by
  induction relayed with
  | first satellite now forwards =>
    have self : f.Same f := ⟨rfl, rfl, rfl, rfl⟩
    exact self.forwarded valid forwards
  | next satellite now _ forwards ih =>
    obtain ⟨g, rfl, same⟩ := ih
    exact same.forwarded valid forwards

/-- A satellite sends a packet on to all its targets. -/
theorem exists_sendings (f : Frame) {type : PacketType} (valid : PacketType.ofValue f.type.toNat = .ok type)
    (relevant : type = .groundComm ∨ type = .fileTransfer) {now : Int} (clock : 0 ≤ now ∧ now < 256 ^ 8)
    (satellite : SatelliteNode) :
    ∃ bytes, satellite.handleConnection now f.bytes =
      (satellite.targets (number f.destination_id)).map fun address => ⟨address.1, address.2, bytes⟩ := by
  have known : Packet.deserialize now (read f.bytes) = .ok (f.cut.packet type now) := by
    have valid' : PacketType.ofValue f.cut.type.toNat = .ok type := valid
    rw [read_bytes, deserialize_bytes, valid', ok_bind]
  have filled : read f.bytes ≠ [] := by
    have length := f.cut.length_bytes
    rw [read_bytes]
    exact List.ne_nil_of_length_pos (by omega)
  obtain ⟨bytes, written⟩ : ∃ bytes, (f.cut.packet type now).serialize = .ok bytes := by
    rw [f.cut.serialize_packet valid, pack_eq_ok.mpr ⟨clock, rfl⟩, ok_bind]
    exact ⟨_, rfl⟩
  exact ⟨bytes, handleConnection_targets filled known relevant written⟩

/-- A satellite that knows the ground node passes the packet on. -/
theorem exists_relayed (f : Frame) {type : PacketType} (valid : PacketType.ofValue f.type.toNat = .ok type)
    (relevant : type = .groundComm ∨ type = .fileTransfer) : ∃ arrived, Relayed f.bytes arrived := by
  let satellite : SatelliteNode := ⟨101, [⟨"127.0.0.1", 35003, number f.destination_id⟩], []⟩
  have known : satellite.ground_nodes.find? (fun node => node.ground_id = number f.destination_id) =
      some ⟨"127.0.0.1", 35003, number f.destination_id⟩ := List.find?_cons_of_pos (decide_eq_true rfl)
  have targets : satellite.targets (number f.destination_id) = [("127.0.0.1", 35003)] := by
    rw [SatelliteNode.targets, known]
  have clock : (0 : Int) ≤ 0 ∧ (0 : Int) < 256 ^ 8 := by decide
  obtain ⟨bytes, sends⟩ := f.exists_sendings valid relevant clock satellite
  have member : (⟨"127.0.0.1", 35003, bytes⟩ : Sending) ∈ satellite.handleConnection 0 f.bytes := by
    rw [sends]
    exact List.mem_map_of_mem (targets ▸ List.mem_singleton_self _)
  exact ⟨bytes, .first satellite 0 member⟩

/-- What a ground node reads of a packet that has come so. -/
theorem deserialize_relayed {f : Frame} {type : PacketType} (valid : PacketType.ofValue f.type.toNat = .ok type)
    {arrived : List UInt8} (relayed : Relayed f.bytes arrived) (now : Int) :
    read arrived ≠ [] ∧ ∃ p, Packet.deserialize now (read arrived) = .ok p ∧ p.type = type ∧
      p.source_id = number f.source_id ∧ p.payload = f.payload.take 4074 := by
  obtain ⟨g, rfl, same⟩ := same_of_relayed valid relayed
  have valid' : PacketType.ofValue g.cut.type.toNat = .ok type := same.type ▸ valid
  have length := g.cut.length_bytes
  rw [read_bytes]
  refine ⟨List.ne_nil_of_length_pos (by omega), g.cut.packet type now, ?_, rfl, ?_, same.payload⟩
  · rw [deserialize_bytes, valid', ok_bind]
  · exact congrArg number same.source_id

end Frame

namespace Packet
variable {p : Packet} {sent arrived : List UInt8}

theorem inRange_of_serialize (serialized : p.serialize = .ok sent) : p.InRange := by
  obtain ⟨_, source, afterSource⟩ := bind_eq_ok.mp serialized
  obtain ⟨_, destination, afterDestination⟩ := bind_eq_ok.mp afterSource
  obtain ⟨_, _, afterType⟩ := bind_eq_ok.mp afterDestination
  obtain ⟨_, priority, afterPriority⟩ := bind_eq_ok.mp afterType
  obtain ⟨_, sequence, afterSequence⟩ := bind_eq_ok.mp afterPriority
  obtain ⟨_, timestamp, _⟩ := bind_eq_ok.mp afterSequence
  exact ⟨(pack_eq_ok.mp source).1, (pack_eq_ok.mp destination).1, (appended_eq_ok.mp priority).1,
    (pack_eq_ok.mp sequence).1, (pack_eq_ok.mp timestamp).1⟩

theorem exists_frame (serialized : p.serialize = .ok sent) :
    ∃ f : Frame, sent = f.bytes ∧ PacketType.ofValue f.type.toNat = .ok p.type ∧ number f.source_id = p.source_id ∧
      number f.destination_id = p.destination_id ∧ f.payload = p.payload := by
  obtain ⟨f, serialized', valid, _, read⟩ := Frame.exists_serialize (inRange_of_serialize serialized)
  refine ⟨f, Except.ok.inj (serialized.symm.trans serialized'), valid, ?_, ?_, ?_⟩
  · exact congrArg Packet.source_id (read 0)
  · exact congrArg Packet.destination_id (read 0)
  · exact congrArg Packet.payload (read 0)

theorem deserialize_relayed (serialized : p.serialize = .ok sent) (relayed : Relayed sent arrived) (now : Int) :
    read arrived ≠ [] ∧ ∃ q, deserialize now (read arrived) = .ok q ∧ q.type = p.type ∧ q.source_id = p.source_id ∧
      q.payload = p.payload.take 4074 := by
  obtain ⟨f, rfl, valid, source, _, payload⟩ := exists_frame serialized
  obtain ⟨filled, q, known, type, source', payload'⟩ := Frame.deserialize_relayed valid relayed now
  exact ⟨filled, q, known, type, source'.trans source, by rw [payload', payload]⟩

theorem exists_relayed (serialized : p.serialize = .ok sent)
    (relevant : p.type = .groundComm ∨ p.type = .fileTransfer) : ∃ arrived, Relayed sent arrived := by
  obtain ⟨f, rfl, valid, _⟩ := exists_frame serialized
  exact f.exists_relayed valid relevant

end Packet

/-- A message arrives as far as one read goes. -/
theorem handleConnection_message {made node_id destination_id : Int} {payload sent arrived : List UInt8}
    (serialized : (sendToNearestSatellite made node_id destination_id payload).serialize = .ok sent)
    (relayed : Relayed sent arrived) (now : Int) (files : ReceivingFiles) :
    (handleConnection now files arrived).2 = (decode (payload.take 4074)).map (.message node_id) := by
  obtain ⟨filled, q, known, type, source, content⟩ := Packet.deserialize_relayed serialized relayed now
  have type' : q.type = .groundComm := type
  have source' : q.source_id = node_id := source
  have content' : q.payload = payload.take 4074 := content
  unfold handleConnection
  simp only [if_neg filled, known, type', source', content']

theorem message_whole_iff {made node_id destination_id : Int} {payload sent arrived : List UInt8}
    (serialized : (sendToNearestSatellite made node_id destination_id payload).serialize = .ok sent)
    (relayed : Relayed sent arrived) (now : Int) (files : ReceivingFiles) :
    (∃ text, (handleConnection now files arrived).2 = some (.message node_id text) ∧ encode text = payload) ↔
      payload.length ≤ 4074 ∧ ∃ text, encode text = payload := by
  rw [handleConnection_message serialized relayed now files]
  constructor
  · rintro ⟨text, seen, same⟩
    obtain ⟨text', read, last⟩ := Option.map_eq_some_iff.mp seen
    obtain ⟨_, rfl⟩ := Handled.message.inj last
    exact ⟨(List.take_eq_self_iff _).mp ((decode_eq_some.mp read).symm.trans same), text', same⟩
  · rintro ⟨short, text, rfl⟩
    refine ⟨text, ?_, rfl⟩
    rw [List.take_of_length_le short, decode_eq_some.mpr rfl]
    rfl

end Nexus.Python
