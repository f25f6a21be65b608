import Nexus.Node
import Nexus.Codec

namespace Nexus
open ByteOrder

/-- What a call has handed to the network. -/
def Sending.datagrams : Sending → List Datagram
  | .sent datagrams => datagrams
  | _ => []

namespace Node
variable {host : ByteOrder} {self target : Node} {nm : NetworkManager} {name : String}

/-- A packet with the addresses of two nodes as its source and target. -/
structure Addressed (host : ByteOrder) (source target : Node) (pkt : Packet) : Prop where
  sAddress : pkt.sAddress = (source.addr host).sin_addr
  sPort : pkt.sPort = (source.addr host).sin_port
  tAddress : pkt.tAddress = (target.addr host).sin_addr
  tPort : pkt.tPort = (target.addr host).sin_port

/-- A datagram that a call at `self` for the given name can send. -/
def Emission (host : ByteOrder) (self : Node) (nm : NetworkManager) (name : String) (datagram : Datagram) : Prop :=
  ∃ target next pkt, nm.findNode name = some target ∧ (∃ ip, inet_pton host target.ip = some ip) ∧
    nm.getNextHop name = .ok (some next) ∧ Addressed host self target pkt ∧
    datagram = sendTo host next.ip next.port pkt

theorem addr_of_valid {ip : UInt32} (valid : inet_pton host target.ip = some ip) :
    target.addr host = ⟨ip, htons host target.port⟩ := by
  rw [addr, sockAddr, valid, Option.getD_some]

theorem serialize_nonempty (pkt : Packet) : (pkt.serialize host).isEmpty = false := by
  have size := Packet.length_serialize host pkt
  rw [List.isEmpty_eq_false_iff]
  intro empty
  rw [empty] at size
  cases size

theorem overwrite_ok (buffer : Buffer) {bytes : List UInt8} (fits : bytes.length ≤ MAX_BUFFER_SIZE) :
    ∃ data, buffer.overwrite bytes = .ok data ∧ data.bytes = bytes ++ buffer.bytes.drop bytes.length :=
  ⟨_, dif_pos fits, rfl⟩

/-- A message that fits is handed to the next hop in one packet, followed by zero bytes. -/
theorem sendMessage_text (self : Node) (found : nm.findNode name = some target) {ip : UInt32}
    (valid : inet_pton host target.ip = some ip) {message : List UInt8}
    (fits : message.length ≤ MAX_BUFFER_SIZE) {hop : Node} (next : nm.getNextHop name = .ok (some hop))
    (fragmentNumber fragmentCount : UInt16) :
    ∃ pkt, Addressed host self target pkt ∧ pkt.type = .text ∧
      pkt.data.bytes = message ++ Buffer.zero.bytes.drop message.length ∧
      self.sendMessage host nm name message fragmentNumber fragmentCount =
        .ok (.sent [⟨hop.addr host, pkt.serialize host⟩]) := by
  obtain ⟨data, written, bytes⟩ := overwrite_ok .zero fits
  refine ⟨{ Packet.addressed fragmentNumber fragmentCount (self.addr host).sin_addr (self.addr host).sin_port
    ip (htons host target.port) .text with data }, ⟨rfl, rfl, ?_, ?_⟩, rfl, bytes, ?_⟩
  · rw [addr_of_valid valid]
    rfl
  · rfl
  · unfold sendMessage
    simp only [found, valid]
    refine bind_eq_ok.mpr ⟨data, written, ?_⟩
    simp only [serialize_nonempty, Bool.false_eq_true, if_false, next]
    rfl

theorem sendMessage_eq (found : nm.findNode name = some target) {ip : UInt32}
    (valid : inet_pton host target.ip = some ip) {message : List UInt8}
    (fits : message.length ≤ MAX_BUFFER_SIZE) {hop : Node} (next : nm.getNextHop name = .ok (some hop))
    (fragmentNumber fragmentCount : UInt16) :
    ∃ pkt, Addressed host self target pkt ∧
      self.sendMessage host nm name message fragmentNumber fragmentCount =
        .ok (.sent [⟨hop.addr host, pkt.serialize host⟩]) := by
  obtain ⟨pkt, addressed, _, _, call⟩ := sendMessage_text self found valid fits next fragmentNumber fragmentCount
  exact ⟨pkt, addressed, call⟩

theorem sendMessage_inv {message : List UInt8} {fragmentNumber fragmentCount : UInt16} {sending : Sending}
    (call : self.sendMessage host nm name message fragmentNumber fragmentCount = .ok sending) :
    (sending = .noPath → nm.getNextHop name = .ok none) ∧
      ∀ datagram ∈ sending.datagrams, Emission host self nm name datagram := by
  cases found : nm.findNode name with
  | none =>
    simp only [sendMessage, found, Except.ok.injEq] at call
    subst sending
    simp [Sending.datagrams]
  | some target =>
    cases valid : inet_pton host target.ip with
    | none =>
      simp only [sendMessage, found, valid, Except.ok.injEq] at call
      subst sending
      simp [Sending.datagrams]
    | some ip =>
      simp only [sendMessage, found, valid] at call
      obtain ⟨data, _, call⟩ := bind_eq_ok.mp call
      simp only [serialize_nonempty, Bool.false_eq_true, if_false] at call
      obtain ⟨hop, next, call⟩ := bind_eq_ok.mp call
      cases hop with
      | none =>
        cases call
        exact ⟨fun _ => next, by simp [Sending.datagrams]⟩
      | some hop =>
        cases call
        refine ⟨by simp, fun datagram member => ?_⟩
        have only := List.mem_singleton.mp member
        exact ⟨target, hop, _, found, ⟨ip, valid⟩, next, ⟨rfl, rfl, by rw [addr_of_valid valid]; rfl, rfl⟩, only⟩

theorem sendMessage_nonempty (found : nm.findNode name = some target) {ip : UInt32}
    (valid : inet_pton host target.ip = some ip) {hop : Node} (next : nm.getNextHop name = .ok (some hop))
    {message : List UInt8} {fragmentNumber fragmentCount : UInt16} {sending : Sending}
    (call : self.sendMessage host nm name message fragmentNumber fragmentCount = .ok sending) :
    sending.datagrams ≠ [] := by
  simp only [sendMessage, found, valid] at call
  obtain ⟨data, _, call⟩ := bind_eq_ok.mp call
  simp only [serialize_nonempty, Bool.false_eq_true, if_false, next] at call
  cases call
  exact List.cons_ne_nil _ _

/-- Every pass of the loop adds one datagram for the next hop. -/
theorem sendFragment_inv {content : List UInt8} {pkt : Packet} {loop loop' : FileLoop} {i : Nat}
    (found : nm.findNode name = some target) {ip : UInt32} (valid : inet_pton host target.ip = some ip)
    (addressed : Addressed host self target pkt)
    (pass : sendFragment host nm name content pkt loop i = .ok loop') :
    ∃ datagram, loop'.datagrams = loop.datagrams ++ [datagram] ∧ Emission host self nm name datagram := by
  obtain ⟨buffer, _, pass⟩ := bind_eq_ok.mp pass
  obtain ⟨fragNumber, _, pass⟩ := bind_eq_ok.mp pass
  obtain ⟨hop, next, pass⟩ := bind_eq_ok.mp pass
  cases hop with
  | none => cases pass
  | some hop =>
    cases pass
    exact ⟨_, rfl, target, hop, { pkt with fragmentNumber := UInt16.ofInt loop.fragNumber, data := buffer }, found,
      ⟨ip, valid⟩, next, ⟨addressed.sAddress, addressed.sPort, addressed.tAddress, addressed.tPort⟩, rfl⟩

theorem sendFile_inv {file : Option (List UInt8)} {buffer : Buffer} {sending : Sending}
    (call : self.sendFile host nm name file buffer = .ok sending) :
    ∀ datagram ∈ sending.datagrams, Emission host self nm name datagram := by
  cases found : nm.findNode name with
  | none =>
    simp only [sendFile, found, Except.ok.injEq] at call
    subst sending
    simp [Sending.datagrams]
  | some target =>
    cases valid : inet_pton host target.ip with
    | none =>
      simp only [sendFile, found, valid, Except.ok.injEq] at call
      subst sending
      simp [Sending.datagrams]
    | some ip =>
      simp only [sendFile, found, valid] at call
      obtain ⟨fragCount, _, call⟩ := bind_eq_ok.mp call
      obtain ⟨loop, passes, call⟩ := bind_eq_ok.mp call
      cases call
      have addressed : Addressed host self target (Packet.addressed 0 (UInt16.ofInt fragCount)
          (self.addr host).sin_addr (self.addr host).sin_port ip (htons host target.port) .file) :=
        ⟨rfl, rfl, by rw [addr_of_valid valid]; rfl, rfl⟩
      refine forRange_keeps _ (fun loop => ∀ datagram ∈ loop.datagrams, Emission host self nm name datagram)
        (by simp) ?_ passes
      intro i before after all pass datagram member
      obtain ⟨last, appended, emitted⟩ := sendFragment_inv found valid addressed pass
      rw [appended, List.mem_append, List.mem_singleton] at member
      rcases member with old | rfl
      · exact all datagram old
      · exact emitted

/-- A size that no double holds exactly is too large for the count of its fragments. -/
theorem fragmentsFor_long {size : Nat} (long : 2 ^ 53 ≤ size) : fragmentsFor size = .error .overflow := by
  have large : (2 : ℚ) ^ 53 ≤ size := by exact_mod_cast long
  have divisor : Binary64.ofRat MAX_BUFFER_SIZE = .finite 50000 := Binary64.ofRat_natCast (by decide)
  unfold fragmentsFor
  rw [divisor]
  rcases Binary64.ofRat_large large with ⟨s, far⟩ | ⟨r, value, bound⟩
  · simp only [far, Binary64.div, Binary64.ceil, Binary64.truncate]
  · have error := Binary64.nearest_error_le (q := r / 50000) (by rw [abs_of_nonneg (by linarith)]; linarith)
    rw [abs_of_nonneg (show 0 ≤ r / 50000 by linarith), abs_le] at error
    rw [value, Binary64.div, if_pos (by norm_num)]
    split
    · rename_i count quotient
      have above : INT_MAX < count :=
        Binary64.truncate_ceil_gt (by unfold INT_MAX; push_cast; linarith) (by decide) quotient
      exact if_neg fun inside => absurd inside.2 (by omega)
    · rfl

/-- What is not empty has at least one fragment. -/
theorem fragmentsFor_pos {size : Nat} {count : Int} (nonempty : 0 < size) (counted : fragmentsFor size = .ok count) :
    0 < count := by
  rcases Nat.lt_or_ge size (2 ^ 53) with small | long
  · have ceiling := Binary64.ceil_div_natCast small (by decide : 0 < MAX_BUFFER_SIZE) (by decide)
    unfold fragmentsFor at counted
    rw [ceiling, Binary64.truncate_natCast] at counted
    obtain ⟨_, rfl⟩ := checkInt_eq_ok.mp counted
    unfold MAX_BUFFER_SIZE
    omega
  · cases (fragmentsFor_long long).symm.trans counted

/-- A file with content makes a call that does not fail send something. -/
theorem sendFile_nonempty (found : nm.findNode name = some target) {ip : UInt32}
    (valid : inet_pton host target.ip = some ip) {content : List UInt8} (nonempty : content ≠ []) {buffer : Buffer}
    {sending : Sending} (call : self.sendFile host nm name (some content) buffer = .ok sending) :
    sending.datagrams ≠ [] := by
  simp only [sendFile, found, valid] at call
  obtain ⟨fragCount, counted, call⟩ := bind_eq_ok.mp call
  obtain ⟨loop, passes, call⟩ := bind_eq_ok.mp call
  cases call
  have positive := fragmentsFor_pos (List.length_pos_iff.mpr nonempty) counted
  obtain ⟨k, total⟩ : ∃ k, fragCount.toNat = k + 1 := ⟨fragCount.toNat - 1, by omega⟩
  rw [total, forRange_succ] at passes
  obtain ⟨before, _, pass⟩ := bind_eq_ok.mp passes
  have addressed : Addressed host self target (Packet.addressed 0 (UInt16.ofInt fragCount)
      (self.addr host).sin_addr (self.addr host).sin_port ip (htons host target.port) .file) :=
    ⟨rfl, rfl, by rw [addr_of_valid valid]; rfl, rfl⟩
  obtain ⟨datagram, appended, _⟩ := sendFragment_inv found valid addressed pass
  show loop.datagrams ≠ []
  rw [appended]
  exact List.append_ne_nil_of_right_ne_nil _ (List.cons_ne_nil _ _)

/-- Of an empty file nothing is sent. -/
theorem sendFile_empty {buffer : Buffer} {sending : Sending}
    (call : self.sendFile host nm name (some []) buffer = .ok sending) : sending.datagrams = [] := by
  unfold sendFile at call
  split at call
  · cases call
    rfl
  · split at call
    · cases call
      rfl
    · have ceiling := Binary64.ceil_div_natCast (n := 0) (by decide) (by decide : 0 < MAX_BUFFER_SIZE) (by decide)
      have none : fragmentsFor 0 = .ok 0 := by
        unfold fragmentsFor
        rw [ceiling, Binary64.truncate_natCast]
        rfl
      obtain ⟨count, counted, call⟩ := bind_eq_ok.mp call
      cases none.symm.trans counted
      cases call
      rfl

/-- A file that cannot be opened has a size that is too large. -/
theorem sendFile_missing (found : nm.findNode name = some target) {ip : UInt32}
    (valid : inet_pton host target.ip = some ip) {buffer : Buffer} {sending : Sending} :
    self.sendFile host nm name none buffer ≠ .ok sending := by
  intro call
  simp only [sendFile, found, valid] at call
  obtain ⟨count, counted, _⟩ := bind_eq_ok.mp call
  cases (fragmentsFor_long (by decide : 2 ^ 53 ≤ tellg none)).symm.trans counted

/-- An encoded packet is read back whole: what the buffer held before does not matter. -/
theorem received_serialize (buffer : ReceiveBuffer) (pkt : Packet) :
    ∃ trailing, received buffer (pkt.serialize host) = pkt.serialize host ++ trailing := by
  have whole : (pkt.serialize host).take (MAX_BUFFER_SIZE + 31) = pkt.serialize host := by
    rw [List.take_eq_self_iff, Packet.length_serialize, Packet.wireSize]
    omega
  unfold received
  rw [whole]
  exact ⟨_, rfl⟩

/-- The packet as it is after decoding. -/
def sealed (host : ByteOrder) (pkt : Packet) : Packet :=
  { pkt with errorCorrectionCode := Packet.calculateCRC (pkt.body host) }

/-- A node processes the packets for its own address and sends the others, as they came, to their target. -/
theorem receiveMessage_serialize (buffer : ReceiveBuffer) (pkt : Packet) :
    self.receiveMessage host buffer (pkt.serialize host) = .ok (
      if self.addr host = ⟨pkt.tAddress, pkt.tPort⟩ then .process (sealed host pkt)
      else .forward ⟨⟨pkt.tAddress, pkt.tPort⟩, pkt.serialize host⟩) := by
  obtain ⟨trailing, read⟩ := received_serialize buffer pkt
  have decoded := Packet.deserialize_serialize host pkt trailing
  rw [← read] at decoded
  refine bind_eq_ok.mpr ⟨sealed host pkt, decoded, ?_⟩
  have own : self.addr host = ⟨pkt.tAddress, pkt.tPort⟩ ↔
      (sealed host pkt).tAddress = (self.addr host).sin_addr ∧ (sealed host pkt).tPort = htons host self.port := by
    constructor
    · exact fun same => ⟨(congrArg SockAddr.sin_addr same).symm, (congrArg SockAddr.sin_port same).symm⟩
    · intro ⟨ip, port⟩
      show _ = SockAddr.mk (sealed host pkt).tAddress (sealed host pkt).tPort
      rw [ip, port]
      rfl
  by_cases here : self.addr host = ⟨pkt.tAddress, pkt.tPort⟩
  · rw [if_pos here, if_pos (own.mp here)]
    rfl
  · rw [if_neg here, if_neg fun same => here (own.mpr same)]
    show Except.ok (Reaction.forward (sendTo host (inet_ntop host pkt.tAddress) (ntohs host pkt.tPort)
      (sealed host pkt))) = _
    simp only [sendTo, sockAddr, inet_pton_ntop, Option.getD_some, htons_ntohs]
    rfl

end Node
end Nexus
