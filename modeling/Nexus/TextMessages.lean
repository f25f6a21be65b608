import Nexus.Exchange

namespace Nexus
open Numeral

namespace Node

section Lines

theorem ascii_append (a b : String) : ascii (a ++ b) = ascii a ++ ascii b := by
  rw [ascii, String.toList_append, List.map_append]
  rfl

/-- A number as bytes. -/
theorem ascii_toString (n : Nat) : ascii (toString (n : Int)) = (decimal n).map fun c => UInt8.ofNat c.toNat := by
  rw [ascii, toList_toString]

theorem toNat_of_mem_decimal {c : Char} {n : Nat} (member : c ∈ decimal n) : c.toNat < 58 := by
  have digit := isDigit_of_mem member
  simp only [Char.isDigit, Bool.and_eq_true, decide_eq_true_eq] at digit
  exact Nat.lt_succ_of_le (UInt32.le_iff_toNat_le.mp digit.2)

theorem notMem_ascii_toString (n : Nat) : 62 ∉ ascii (toString (n : Int)) := by
  rw [ascii_toString, List.mem_map]
  rintro ⟨c, member, same⟩
  have small := toNat_of_mem_decimal member
  have code := congrArg UInt8.toNat same
  rw [UInt8.toNat_ofNat_of_lt' (by show c.toNat < 256; omega)] at code
  have big : (62 : UInt8).toNat = 62 := rfl
  omega

theorem ascii_toString_inj {m n : Nat} : ascii (toString (m : Int)) = ascii (toString (n : Int)) ↔ m = n := by
  constructor
  · intro same
    rw [ascii_toString, ascii_toString] at same
    have back : ∀ k, ((decimal k).map fun c => UInt8.ofNat c.toNat).map (fun b => Char.ofNat b.toNat) = decimal k := by
      intro k
      rw [List.map_map]
      conv_rhs => rw [← List.map_id (decimal k)]
      refine List.map_congr_left fun c member => ?_
      have small := toNat_of_mem_decimal member
      show Char.ofNat (UInt8.ofNat c.toNat).toNat = c
      rw [UInt8.toNat_ofNat_of_lt' (by show c.toNat < 256; omega), Char.ofNat_toNat]
    have digits := congrArg (List.map fun b : UInt8 => Char.ofNat b.toNat) same
    rw [back, back] at digits
    exact decimal_injective digits
  · rintro rfl
    rfl

/-- A line shows its port and its text apart. -/
theorem line_eq_iff (ip : String) {port port' : Int} (lower : 0 ≤ port) (lower' : 0 ≤ port') (text text' : List UInt8) :
    ascii ("From: " ++ ip ++ ":" ++ toString port ++ ">") ++ text =
        ascii ("From: " ++ ip ++ ":" ++ toString port' ++ ">") ++ text' ↔ port = port' ∧ text = text' := by
  obtain ⟨m, rfl⟩ := Int.eq_ofNat_of_zero_le lower
  obtain ⟨n, rfl⟩ := Int.eq_ofNat_of_zero_le lower'
  have close : ascii ">" = [62] := rfl
  simp only [ascii_append, close, List.append_assoc, List.append_cancel_left_eq, List.singleton_append]
  rw [closed_inj (notMem_ascii_toString m) (notMem_ascii_toString n), ascii_toString_inj, Int.natCast_inj]

end Lines

section Messages
variable {host : ByteOrder} {self target : Node} {nm : NetworkManager} {name : String}

/-- An address that a node can be given on its command line. -/
structure ValidAddress (host : ByteOrder) (node : Node) : Prop where
  ip : ∃ sin_addr, inet_pton host node.ip = some sin_addr
  whole : Char.ofNat 0 ∉ node.ip.toList
  lower : 0 ≤ node.port
  upper : node.port < 2 ^ 16

theorem ValidAddress.inet_ntop (valid : ValidAddress host self) :
    Nexus.inet_ntop host (self.addr host).sin_addr = self.ip := by
  obtain ⟨sin_addr, read⟩ := valid.ip
  rw [addr_of_valid read]
  exact inet_ntop_pton host read valid.whole

/-- Nothing is written outside the packet, and what is sent shows at its target the sender and the message. -/
def ArrivesAsSent (host : ByteOrder) (self : Node) (nm : NetworkManager) (name : String) (message : List UInt8)
    (fragmentNumber fragmentCount : UInt16) : Prop :=
  ∃ sending, self.sendMessage host nm name message fragmentNumber fragmentCount = .ok sending ∧
    ∀ target, nm.findNode name = some target → ∀ datagram ∈ sending.datagrams, ∀ buffer, ∃ pkt,
      target.receiveMessage host buffer datagram.payload = .ok (.process pkt) ∧
        ∀ tmp, (processMessage host tmp pkt).printed =
          some (ascii ("From: " ++ self.ip ++ ":" ++ toString self.port ++ ">") ++ message)

theorem processMessage_text {pkt : Packet} (text : pkt.type = .text) (tmp : Directory) :
    (processMessage host tmp pkt).printed =
      some (ascii ("From: " ++ Nexus.inet_ntop host pkt.sAddress ++ ":" ++ toString (ntohs host pkt.tPort) ++ ">") ++
        pkt.data.bytes) := by
  have other : pkt.type ≠ .file := by
    rw [text]
    decide
  rw [processMessage, if_neg other]

/-- What a node prints for the packet of a message that is sent to it. -/
theorem receiveMessage_text {pkt : Packet} (addressed : Addressed host self target pkt) (text : pkt.type = .text)
    (valid : ValidAddress host self) (validTarget : 0 ≤ target.port ∧ target.port < 2 ^ 16) (buffer : ReceiveBuffer) :
    target.receiveMessage host buffer (pkt.serialize host) = .ok (.process (sealed host pkt)) ∧
      ∀ tmp, (processMessage host tmp (sealed host pkt)).printed =
        some (ascii ("From: " ++ self.ip ++ ":" ++ toString target.port ++ ">") ++ pkt.data.bytes) := by
  have own : target.addr host = ⟨pkt.tAddress, pkt.tPort⟩ := by rw [addressed.tAddress, addressed.tPort]
  refine ⟨?_, fun tmp => ?_⟩
  · rw [receiveMessage_serialize, if_pos own]
  · have source : Nexus.inet_ntop host pkt.sAddress = self.ip := by rw [addressed.sAddress, valid.inet_ntop]
    have port : ntohs host pkt.tPort = target.port := by
      rw [addressed.tPort]
      exact ntohs_htons host validTarget.1 validTarget.2
    have kept : (sealed host pkt).type = .text := text
    rw [processMessage_text kept]
    show some (ascii ("From: " ++ Nexus.inet_ntop host pkt.sAddress ++ ":" ++ toString (ntohs host pkt.tPort) ++ ">") ++
      pkt.data.bytes) = _
    rw [source, port]

/-- A node that is found has a next hop, or its lookup reads outside the tables. -/
theorem getNextHop_ne_none (found : nm.findNode name = some target) : nm.getNextHop name ≠ .ok none := by
  intro unknown
  cases place : nm.nodes.findIdx? fun node => node.name = name with
  | none =>
    have missing := List.findIdx?_eq_none_iff.mp place target (List.mem_of_find?_eq_some found)
    have here := List.find?_some found
    rw [missing] at here
    cases here
  | some i =>
    simp only [NetworkManager.getNextHop, place] at unknown
    obtain ⟨hop, _, unknown⟩ := bind_eq_ok.mp unknown
    obtain ⟨node, _, unknown⟩ := bind_eq_ok.mp unknown
    cases unknown

/-- Sending to a node that is found writes inside the packet and looks inside the tables. -/
theorem sendMessage_within {message : List UInt8} {fragmentNumber fragmentCount : UInt16} {sending : Sending}
    {sin_addr : UInt32} (found : nm.findNode name = some target) (read : inet_pton host target.ip = some sin_addr)
    (call : self.sendMessage host nm name message fragmentNumber fragmentCount = .ok sending) :
    message.length ≤ MAX_BUFFER_SIZE ∧ ∃ hop, nm.getNextHop name = .ok hop := by
  simp only [sendMessage, found, read] at call
  obtain ⟨data, written, call⟩ := bind_eq_ok.mp call
  simp only [serialize_nonempty, Bool.false_eq_true, if_false] at call
  obtain ⟨hop, next, _⟩ := bind_eq_ok.mp call
  refine ⟨?_, hop, next⟩
  by_contra long
  rw [Packet.addressed, Buffer.overwrite, dif_neg long] at written
  cases written

theorem arrivesAsSent_iff_of_found {message : List UInt8} {fragmentNumber fragmentCount : UInt16} {sin_addr : UInt32}
    (found : nm.findNode name = some target) (read : inet_pton host target.ip = some sin_addr)
    (valid : ValidAddress host self) (validTarget : 0 ≤ target.port ∧ target.port < 2 ^ 16) :
    ArrivesAsSent host self nm name message fragmentNumber fragmentCount ↔
      message.length = MAX_BUFFER_SIZE ∧ self.port = target.port ∧ ∃ hop, nm.getNextHop name = .ok (some hop) := by
  constructor
  · rintro ⟨sending, call, shown⟩
    obtain ⟨fits, hop, next⟩ := sendMessage_within found read call
    cases hop with
    | none => exact absurd next (getNextHop_ne_none found)
    | some hop =>
      obtain ⟨pkt, addressed, text, bytes, sent⟩ :=
        sendMessage_text self found read fits next fragmentNumber fragmentCount
      obtain rfl := Except.ok.inj (call.symm.trans sent)
      have buffer : ReceiveBuffer := ⟨List.replicate (MAX_BUFFER_SIZE + 32) 0, List.length_replicate⟩
      obtain ⟨pkt', received, printed⟩ := shown target found _ (List.mem_singleton_self _) buffer
      obtain ⟨received', printed'⟩ := receiveMessage_text addressed text valid validTarget buffer
      obtain rfl : pkt' = sealed host pkt := Reaction.process.inj (Except.ok.inj (received.symm.trans received'))
      have same := (printed' ∅).symm.trans (printed ∅)
      rw [Option.some.injEq, line_eq_iff self.ip validTarget.1 valid.lower, bytes] at same
      have size := congrArg List.length same.2
      rw [List.length_append, List.length_drop, Buffer.zero.size] at size
      exact ⟨by omega, same.1.symm, hop, next⟩
  · rintro ⟨full, port, hop, next⟩
    obtain ⟨pkt, addressed, text, bytes, sent⟩ :=
      sendMessage_text self found read (Nat.le_of_eq full) next fragmentNumber fragmentCount
    refine ⟨_, sent, fun target' found' datagram member buffer => ?_⟩
    obtain rfl := Option.some.inj (found.symm.trans found')
    obtain rfl := List.mem_singleton.mp member
    obtain ⟨received, printed⟩ := receiveMessage_text addressed text valid validTarget buffer
    refine ⟨_, received, fun tmp => ?_⟩
    rw [printed tmp, Option.some.injEq, line_eq_iff self.ip validTarget.1 valid.lower, bytes]
    refine ⟨port.symm, ?_⟩
    rw [List.drop_of_length_le, List.append_nil]
    rw [full]
    exact Nat.le_of_eq Buffer.zero.size

/-- A message arrives as it was sent exactly if it is refused because its target is unknown or has no valid address,
or it fills the packet, its target has the port of the sender, and there is a next hop. -/
theorem arrivesAsSent_iff (host : ByteOrder) (self : Node) (nm : NetworkManager) (name : String)
    (message : List UInt8) (fragmentNumber fragmentCount : UInt16) (valid : ValidAddress host self)
    (validTarget : ∀ target, nm.findNode name = some target → 0 ≤ target.port ∧ target.port < 2 ^ 16) :
    ArrivesAsSent host self nm name message fragmentNumber fragmentCount ↔
      nm.findNode name = none ∨ ∃ target, nm.findNode name = some target ∧
        (inet_pton host target.ip = none ∨ message.length = MAX_BUFFER_SIZE ∧ self.port = target.port ∧
          ∃ hop, nm.getNextHop name = .ok (some hop)) := by
  cases found : nm.findNode name with
  | none =>
    refine iff_of_true ⟨.nodeNotFound, ?_, fun target impossible => ?_⟩ (Or.inl rfl)
    · simp only [sendMessage, found]
    · rw [found] at impossible
      cases impossible
  | some target =>
    cases read : inet_pton host target.ip with
    | none =>
      refine iff_of_true ⟨.invalidAddress, ?_, ?_⟩ (Or.inr ⟨target, rfl, Or.inl read⟩)
      · simp only [sendMessage, found, read]
      · simp [Sending.datagrams]
    | some sin_addr =>
      have condition : (some target = none ∨ ∃ target', some target = some target' ∧
          (inet_pton host target'.ip = none ∨ message.length = MAX_BUFFER_SIZE ∧ self.port = target'.port ∧
            ∃ hop, nm.getNextHop name = .ok (some hop))) ↔
          message.length = MAX_BUFFER_SIZE ∧ self.port = target.port ∧
            ∃ hop, nm.getNextHop name = .ok (some hop) := by
        simp [read]
      rw [condition]
      exact arrivesAsSent_iff_of_found found read valid (validTarget target found)

end Messages

namespace pair

def sat1 : Node := ⟨.satellite, "1", "sat1", "127.0.0.1", 33001, (.finite 0, .finite 0)⟩

def sat2 : Node := ⟨.satellite, "2", "sat2", "127.0.0.1", 33002, (.finite 400, .finite 0)⟩

/-- The manager of either node after it knows both and has its tables. -/
def manager : NetworkManager := ⟨⟨[[0, 400], [400, 0]], by decide⟩, [0, 1], [sat1, sat2]⟩

theorem read : inet_pton .little "127.0.0.1" = some 0x0100007F := by
  decide +kernel

theorem valid : ValidAddress .little sat1 := ⟨⟨_, read⟩, by decide, by decide, by decide⟩

theorem found : manager.findNode "sat2" = some sat2 := by
  decide

theorem arrivesAsSent_iff_short :
    ArrivesAsSent .little sat1 manager "sat2" (ascii "hi") 0 0 ↔
      manager.findNode "sat2" = none ∨ ∃ target, manager.findNode "sat2" = some target ∧
        (inet_pton .little target.ip = none ∨ (ascii "hi").length = MAX_BUFFER_SIZE ∧ sat1.port = target.port ∧
          ∃ hop, manager.getNextHop "sat2" = .ok (some hop)) := by
  refine arrivesAsSent_iff .little sat1 manager "sat2" (ascii "hi") 0 0 valid fun target same => ?_
  obtain rfl := Option.some.inj (found.symm.trans same)
  decide

/-- Two letters come with 49998 zero bytes after them, and under the port of their target. -/
theorem not_arrivesAsSent_short : ¬ArrivesAsSent .little sat1 manager "sat2" (ascii "hi") 0 0 := by
  rw [arrivesAsSent_iff_of_found found read valid (by decide)]
  rintro ⟨full, _⟩
  exact absurd full (by decide)

end pair
end Node
end Nexus
