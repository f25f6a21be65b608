import Nexus.Exchange

namespace Nexus
open ByteOrder

namespace Node

/-- The packet of a machine with the given byte order: the words of both addresses are copied from `sockaddr_in`,
the rest of the packet does not depend on the machine. -/
def emitted (host : ByteOrder) (source target : Node) (pkt : Packet) : Packet :=
  { pkt with
    sAddress := (source.addr host).sin_addr
    sPort := (source.addr host).sin_port
    tAddress := (target.addr host).sin_addr
    tPort := (target.addr host).sin_port }

/-- Whatever `sendMessage` and `sendFile` hand to the network is such a packet. -/
theorem emitted_of_call {host : ByteOrder} {self : Node} {nm : NetworkManager} {name : String} {sending : Sending}
    (call : (∃ message fragmentNumber fragmentCount,
        self.sendMessage host nm name message fragmentNumber fragmentCount = .ok sending) ∨
      ∃ file buffer, self.sendFile host nm name file buffer = .ok sending) :
    ∀ datagram ∈ sending.datagrams, ∃ target pkt, nm.findNode name = some target ∧
      datagram.payload = (emitted host self target pkt).serialize host := by
  intro datagram member
  have emission : Emission host self nm name datagram := by
    rcases call with ⟨_, _, _, call⟩ | ⟨_, _, call⟩
    · exact (sendMessage_inv call).2 datagram member
    · exact sendFile_inv call datagram member
  obtain ⟨target, next, pkt, found, _, _, addressed, rfl⟩ := emission
  have same : emitted host self target pkt = pkt := by
    rw [emitted, ← addressed.sAddress, ← addressed.sPort, ← addressed.tAddress, ← addressed.tPort]
  exact ⟨target, pkt, found, by rw [same]; rfl⟩

/-- The wire does not show the byte order of the machines: both orders emit the same bytes, and a node takes a
packet for it from a machine of the other order as its own, with the address and the port of its source. -/
structure HostIndependent (source target : Node) (pkt : Packet) : Prop where
  bytes : (emitted little source target pkt).serialize little = (emitted big source target pkt).serialize big
  recognised : ∀ sender receiver : ByteOrder, sender ≠ receiver → ∀ buffer, ∃ received,
    target.receiveMessage receiver buffer ((emitted sender source target pkt).serialize sender) =
        .ok (.process received) ∧
      received.sAddress = (source.addr receiver).sin_addr ∧ received.sPort = (source.addr receiver).sin_port

/-- The octets of an address, in network order. -/
def octets (ip : String) : List UInt8 := store big ((inet_pton big ip).getD 0)

/-- The bytes of a port, in network order. -/
def portBytes (port : Int) : List UInt8 := store big (UInt16.ofInt port)

/-- An address and a port that read the same backwards, byte by byte. -/
def Palindromic (node : Node) : Prop :=
  (octets node.ip).reverse = octets node.ip ∧ (portBytes node.port).reverse = portBytes node.port

theorem sin_addr_eq (host : ByteOrder) (node : Node) : (node.addr host).sin_addr = load host (octets node.ip) := by
  show (inet_pton host node.ip).getD 0 = load host (octets node.ip)
  unfold octets inet_pton
  simp only
  split
  · rename_i four
    cases read : ((cString node.ip).splitOn '.').mapM octet with
    | none => cases host <;> rfl
    | some bytes =>
      have size : bytes.length = Word.width UInt32 := by
        rw [← List.length_map (fun byte : UInt8 => Numeral.decimal byte.toNat), map_decimal_of_mapM read, four]
        rfl
      rw [Option.map_some, Option.map_some, Option.getD_some, Option.getD_some, store_load big size]
  · cases host <;> rfl

theorem sin_port_eq (host : ByteOrder) (node : Node) : (node.addr host).sin_port = load host (portBytes node.port) :=
  rfl

/-- Machines of both orders hold an address in the same words exactly when it reads the same backwards. -/
theorem addr_eq_iff (node : Node) : node.addr little = node.addr big ↔ Palindromic node := by
  have words : node.addr little = node.addr big ↔
      (node.addr little).sin_addr = (node.addr big).sin_addr ∧
        (node.addr little).sin_port = (node.addr big).sin_port := by
    constructor
    · intro same
      rw [same]
      exact ⟨rfl, rfl⟩
    · intro ⟨ip, port⟩
      cases left : node.addr little
      cases right : node.addr big
      simp_all
  rw [words, sin_addr_eq, sin_addr_eq, sin_port_eq, sin_port_eq]
  exact and_congr (load_little_eq_load_big (length_store big _)) (load_little_eq_load_big (length_store big _))

/-- The encoding of a packet does not depend on the machine. -/
theorem serialize_host (host other : ByteOrder) (pkt : Packet) : pkt.serialize host = pkt.serialize other := by
  simp only [Packet.serialize, Packet.body, store_hton]

theorem Palindromic.addr {node : Node} (palindrome : Palindromic node) (host other : ByteOrder) :
    node.addr host = node.addr other := by
  have same := (addr_eq_iff node).mpr palindrome
  cases host <;> cases other
  · rfl
  · exact same
  · exact same.symm
  · rfl

theorem palindromic_of_bytes {source target : Node} {pkt : Packet}
    (bytes : (emitted little source target pkt).serialize little = (emitted big source target pkt).serialize big) :
    Palindromic source ∧ Palindromic target := by
  rw [serialize_host little big] at bytes
  have bodies := congrArg (List.take (18 + MAX_BUFFER_SIZE)) bytes
  rw [Packet.take_serialize, Packet.take_serialize] at bodies
  have same := Packet.body_injective bodies
  refine ⟨(addr_eq_iff source).mp ?_, (addr_eq_iff target).mp ?_⟩
  · exact congrArg (fun packet => SockAddr.mk packet.sAddress packet.sPort) same
  · exact congrArg (fun packet => SockAddr.mk packet.tAddress packet.tPort) same

/-- The words of `sockaddr_in` are in network order already, so converting them again leaves the wire independent of
the machines only where the conversion does nothing. -/
theorem hostIndependent_iff (source target : Node) (pkt : Packet) :
    HostIndependent source target pkt ↔ Palindromic source ∧ Palindromic target := by
  refine ⟨fun independent => palindromic_of_bytes independent.bytes, fun ⟨sourceSame, targetSame⟩ => ?_⟩
  have words : ∀ host other, emitted host source target pkt = emitted other source target pkt := by
    intro host other
    rw [emitted, emitted, sourceSame.addr host other, targetSame.addr host other]
  refine ⟨by rw [words little big, serialize_host little big], fun sender receiver _ buffer => ?_⟩
  have call := @receiveMessage_serialize receiver target buffer (emitted receiver source target pkt)
  have own : target.addr receiver =
      ⟨(emitted receiver source target pkt).tAddress, (emitted receiver source target pkt).tPort⟩ := rfl
  rw [if_pos own] at call
  rw [words sender receiver, serialize_host sender receiver]
  exact ⟨_, call, rfl, rfl⟩

/-- Two nodes at 127.0.0.1. -/
theorem not_hostIndependent : ¬∀ (source target : Node) (pkt : Packet), HostIndependent source target pkt := by
  intro independent
  have palindrome := (palindromic_of_bytes (independent
    ⟨.satellite, "1", "sat1", "127.0.0.1", 33001, (.finite 0, .finite 0)⟩
    ⟨.satellite, "2", "sat2", "127.0.0.1", 33002, (.finite 400, .finite 0)⟩
    (Packet.addressed 0 0 0 0 0 0 .text)).bytes).1.1
  have read : octets "127.0.0.1" = [127, 0, 0, 1] := by decide +kernel
  rw [read] at palindrome
  exact absurd palindrome (by decide)

end Node
end Nexus
