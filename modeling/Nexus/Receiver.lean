import Nexus.Exchange

namespace Nexus
open ByteOrder

namespace Packet
variable {host : ByteOrder}

theorem serialize_eq (p : Packet) : p.serialize host = p.body host ++ store big (calculateCRC (p.body host)) := by
  rw [serialize, store_hton]

theorem wireSize_eq : wireSize = 18 + MAX_BUFFER_SIZE + 4 := by
  rw [wireSize]
  omega

/-- All bytes of the right number are the header and data of a packet. -/
theorem exists_body (host : ByteOrder) {bytes : List UInt8} (size : bytes.length = 18 + MAX_BUFFER_SIZE) :
    ∃ p : Packet, p.body host = bytes := by
  have long : wireSize ≤ (bytes ++ List.replicate 4 0).length := by
    rw [List.length_append, List.length_replicate, size, wireSize_eq]
  exact ⟨fields _ long, by rw [body_fields, ← size, List.take_left]⟩

/-- What the encodings of packets are. -/
theorem exists_serialize_iff {bytes : List UInt8} :
    (∃ p : Packet, bytes = p.serialize host) ↔
      bytes.length = wireSize ∧
        bytes.drop (18 + MAX_BUFFER_SIZE) = store big (calculateCRC (bytes.take (18 + MAX_BUFFER_SIZE))) := by
  constructor
  · rintro ⟨p, rfl⟩
    refine ⟨length_serialize host p, ?_⟩
    rw [take_serialize, serialize_eq, ← length_body host p, List.drop_left]
  · rintro ⟨size, code⟩
    have body_size : (bytes.take (18 + MAX_BUFFER_SIZE)).length = 18 + MAX_BUFFER_SIZE := by
      rw [List.length_take, size, wireSize_eq]
      omega
    obtain ⟨p, body⟩ := exists_body host body_size
    refine ⟨p, ?_⟩
    rw [serialize_eq, body, ← code, List.take_append_drop]

theorem deserialize_of_start {buffer : List UInt8} (long : wireSize ≤ buffer.length) {p : Packet}
    (start : buffer.take wireSize = p.serialize host) :
    deserialize host buffer = .ok { p with errorCorrectionCode := calculateCRC (p.body host) } := by
  have body : buffer.take (18 + MAX_BUFFER_SIZE) = p.body host := by
    rw [← take_serialize host p, ← start, List.take_take]
    congr 1
  refine deserialize_of_prefix long start ?_
  rw [body]

theorem deserialize_iff {buffer : List UInt8} (long : wireSize ≤ buffer.length) :
    (∃ p, deserialize host buffer = .ok p) ↔ ∃ p : Packet, buffer.take wireSize = p.serialize host := by
  constructor
  · rintro ⟨p, accepted⟩
    exact ⟨p, (deserialize_ok long accepted).1⟩
  · rintro ⟨p, start⟩
    exact ⟨_, deserialize_of_start long start⟩

theorem deserialize_error {buffer : List UInt8} (long : wireSize ≤ buffer.length)
    (garbled : ¬∃ p : Packet, buffer.take wireSize = p.serialize host) :
    deserialize host buffer = .error (.thrown crcMismatch) := by
  have refused := mt (deserialize_iff long).mp garbled
  rw [deserialize_eq long] at refused ⊢
  split at refused
  · exact absurd ⟨_, rfl⟩ refused
  · rename_i unverified
    rw [if_neg unverified]

/-- The decoder reads no further than the encoding of a packet is long. -/
theorem deserialize_congr {buffer buffer' : List UInt8} (long : wireSize ≤ buffer.length)
    (long' : wireSize ≤ buffer'.length) (same : buffer.take wireSize = buffer'.take wireSize) :
    deserialize host buffer = deserialize host buffer' := by
  by_cases accepted : ∃ p : Packet, buffer.take wireSize = p.serialize host
  · obtain ⟨p, start⟩ := accepted
    rw [deserialize_of_start long start, deserialize_of_start long' (same ▸ start)]
  · rw [deserialize_error long accepted, deserialize_error long' (same ▸ accepted)]

/-- The encoding of a packet with another error correction code. -/
def spoiled (host : ByteOrder) (p : Packet) : List UInt8 :=
  p.body host ++ store big (calculateCRC (p.body host) + 1)

theorem length_spoiled (host : ByteOrder) (p : Packet) : (p.spoiled host).length = wireSize := by
  rw [spoiled, List.length_append, length_body, length_store, wireSize_eq]
  rfl

theorem body_prefix_serialize (host : ByteOrder) (p : Packet) : p.body host <+: p.serialize host :=
  List.prefix_append _ _

theorem body_prefix_spoiled (host : ByteOrder) (p : Packet) : p.body host <+: p.spoiled host :=
  List.prefix_append _ _

theorem version_prefix (host : ByteOrder) (p : Packet) : [p.version] <+: p.body host := by
  simp only [body, List.append_assoc]
  exact List.prefix_append _ _

theorem not_exists_spoiled (host : ByteOrder) (p : Packet) : ¬∃ q : Packet, p.spoiled host = q.serialize host := by
  rintro ⟨q, same⟩
  rw [spoiled, serialize_eq] at same
  obtain ⟨body, code⟩ := List.append_inj same (by rw [length_body, length_body])
  have equal := store_injective big code
  rw [body] at equal
  exact absurd equal (by simp)

end Packet

namespace Node
variable {host : ByteOrder} {self : Node} {payload : List UInt8}

theorem length_received (buffer : ReceiveBuffer) (payload : List UInt8) :
    (received buffer payload).length = Packet.wireSize + 10 := by
  rw [received, List.length_append, List.length_cons, List.length_drop, buffer.size, List.length_take, Packet.wireSize]
  omega

theorem long_received (buffer : ReceiveBuffer) (payload : List UInt8) :
    Packet.wireSize ≤ (received buffer payload).length := by
  rw [length_received]
  omega

/-- A node accepts what its buffer starts with if it is the encoding of a packet. -/
theorem receiveMessage_ok_iff (buffer : ReceiveBuffer) :
    (∃ reaction, self.receiveMessage host buffer payload = .ok reaction) ↔
      ∃ p : Packet, (received buffer payload).take Packet.wireSize = p.serialize host := by
  rw [← Packet.deserialize_iff (long_received buffer payload)]
  constructor
  · rintro ⟨reaction, run⟩
    obtain ⟨p, accepted, _⟩ := bind_eq_ok.mp run
    exact ⟨p, accepted⟩
  · rintro ⟨p, accepted⟩
    rw [receiveMessage, accepted]
    simp only [bind, Except.bind]
    split
    · exact ⟨_, rfl⟩
    · exact ⟨_, rfl⟩

theorem receiveMessage_error (buffer : ReceiveBuffer)
    (garbled : ¬∃ p : Packet, (received buffer payload).take Packet.wireSize = p.serialize host) :
    self.receiveMessage host buffer payload = .error (.thrown Packet.crcMismatch) := by
  rw [receiveMessage, Packet.deserialize_error (long_received buffer payload) garbled]
  rfl

/-- Of a datagram that is as long as a packet, only its own bytes are read. -/
theorem take_received (buffer : ReceiveBuffer) (long : Packet.wireSize ≤ payload.length) :
    (received buffer payload).take Packet.wireSize = payload.take Packet.wireSize := by
  rw [received, List.take_append_of_le_length, List.take_take, Packet.wireSize]
  · congr 1
  · rw [List.length_take, Packet.wireSize] at *
    omega

/-- A packet with a wrong error correction code is refused, whatever the buffer held before. -/
theorem receiveMessage_spoiled (buffer : ReceiveBuffer) (p : Packet) :
    self.receiveMessage host buffer (p.spoiled host) = .error (.thrown Packet.crcMismatch) := by
  have size := Packet.length_spoiled host p
  have read := take_received buffer (Nat.le_of_eq size.symm)
  have whole : (p.spoiled host).take Packet.wireSize = p.spoiled host := by rw [← size, List.take_length]
  refine receiveMessage_error buffer ?_
  rw [read, whole]
  exact Packet.not_exists_spoiled host p

/-- All of a shorter one is received, -/
theorem take_payload (short : payload.length < Packet.wireSize) : payload.take (MAX_BUFFER_SIZE + 31) = payload := by
  rw [List.take_eq_self_iff]
  rw [Packet.wireSize] at short
  omega

/-- and it is followed by a zero byte and what the buffer held before. -/
theorem prefix_received (buffer : ReceiveBuffer) (short : payload.length < Packet.wireSize) :
    payload ++ [0] <+: (received buffer payload).take Packet.wireSize := by
  rw [List.prefix_take_iff, received, take_payload short]
  refine ⟨⟨buffer.bytes.drop (payload.length + 1), by simp⟩, ?_⟩
  rw [List.length_append, List.length_singleton]
  omega

/-- A buffer left over from a datagram of the length of a packet. -/
def holding (bytes : List UInt8) (size : bytes.length = Packet.wireSize) : ReceiveBuffer :=
  ⟨bytes ++ List.replicate 10 0, by rw [List.length_append, size, List.length_replicate, Packet.wireSize]⟩

theorem take_received_holding {bytes : List UInt8} (size : bytes.length = Packet.wireSize)
    (start : payload ++ [0] <+: bytes) :
    (received (holding bytes size) payload).take Packet.wireSize = bytes := by
  obtain ⟨rest, whole⟩ := start
  have short : payload.length < Packet.wireSize := by
    rw [← size, ← whole, List.length_append, List.length_append, List.length_singleton]
    omega
  have stale : (holding bytes size).bytes.drop (payload.length + 1) = rest ++ List.replicate 10 0 := by
    have cut : (payload ++ [0]).length = payload.length + 1 := List.length_append
    show (bytes ++ List.replicate 10 0).drop (payload.length + 1) = _
    rw [← whole, List.append_assoc, ← cut, List.drop_left]
  rw [received, take_payload short, stale, ← List.singleton_append, ← List.append_assoc, ← List.append_assoc, whole, ← size,
    List.take_left]

/-- The outcome does not depend on what the buffer held before, and no datagram shorter than a packet is accepted. -/
def BytesAlone (host : ByteOrder) (self : Node) (payload : List UInt8) : Prop :=
  (∀ buffer buffer' : ReceiveBuffer,
    self.receiveMessage host buffer payload = self.receiveMessage host buffer' payload) ∧
    (payload.length < Packet.wireSize → ∀ buffer reaction, self.receiveMessage host buffer payload ≠ .ok reaction)

theorem receiveMessage_congr (buffer buffer' : ReceiveBuffer) (long : Packet.wireSize ≤ payload.length) :
    self.receiveMessage host buffer payload = self.receiveMessage host buffer' payload := by
  rw [receiveMessage, receiveMessage, Packet.deserialize_congr (long_received buffer payload)
    (long_received buffer' payload) (by rw [take_received buffer long, take_received buffer' long])]

theorem BytesAlone.of_long (long : Packet.wireSize ≤ payload.length) : BytesAlone host self payload :=
  ⟨fun buffer buffer' => receiveMessage_congr buffer buffer' long, fun short => absurd long (Nat.not_le.mpr short)⟩

theorem bytesAlone_iff_no_start :
    BytesAlone host self payload ↔
      Packet.wireSize ≤ payload.length ∨ ¬∃ p : Packet, payload ++ [0] <+: p.serialize host := by
  constructor
  · rintro ⟨_, refused⟩
    by_contra neither
    rw [not_or, not_not, Nat.not_le] at neither
    obtain ⟨short, p, start⟩ := neither
    obtain ⟨reaction, accepted⟩ := (receiveMessage_ok_iff _).mpr
      ⟨p, take_received_holding (Packet.length_serialize host p) start⟩
    exact refused short _ reaction accepted
  · rintro (long | none)
    · exact .of_long long
    · by_cases long : Packet.wireSize ≤ payload.length
      · exact .of_long long
      · have garbled (buffer : ReceiveBuffer) :
            ¬∃ p : Packet, (received buffer payload).take Packet.wireSize = p.serialize host := fun ⟨p, same⟩ =>
          none ⟨p, same ▸ prefix_received buffer (Nat.not_le.mp long)⟩
        refine ⟨fun buffer buffer' => ?_, fun _ buffer reaction accepted => ?_⟩
        · rw [receiveMessage_error buffer (garbled buffer), receiveMessage_error buffer' (garbled buffer')]
        · rw [receiveMessage_error buffer (garbled buffer)] at accepted
          cases accepted

/-- Which short datagrams some packet starts with, up to the zero byte after them. -/
theorem exists_start_iff :
    (∃ p : Packet, payload ++ [0] <+: p.serialize host) ↔
      payload.length < 18 + MAX_BUFFER_SIZE ∨
        payload ++ [0] <+: payload.take (18 + MAX_BUFFER_SIZE) ++
          store big (Packet.calculateCRC (payload.take (18 + MAX_BUFFER_SIZE))) := by
  by_cases cut : payload.length < 18 + MAX_BUFFER_SIZE
  · have size : (payload ++ List.replicate (18 + MAX_BUFFER_SIZE - payload.length) 0).length =
        18 + MAX_BUFFER_SIZE := by
      rw [List.length_append, List.length_replicate]
      omega
    obtain ⟨p, body⟩ := Packet.exists_body host size
    refine iff_of_true ⟨p, ?_⟩ (Or.inl cut)
    obtain ⟨k, more⟩ : ∃ k, 18 + MAX_BUFFER_SIZE - payload.length = k + 1 :=
      ⟨18 + MAX_BUFFER_SIZE - payload.length - 1, by omega⟩
    have start : payload ++ [0] <+: payload ++ 0 :: List.replicate k 0 :=
      (List.prefix_append_right_inj payload).mpr (List.prefix_append [0] (List.replicate k 0))
    rw [Packet.serialize_eq, body, more, List.replicate_succ]
    exact start.trans (List.prefix_append _ _)
  · have size : (payload.take (18 + MAX_BUFFER_SIZE)).length = 18 + MAX_BUFFER_SIZE := by
      rw [List.length_take]
      omega
    rw [or_iff_right cut]
    constructor
    · rintro ⟨p, start⟩
      have body : p.body host = payload.take (18 + MAX_BUFFER_SIZE) := by
        have first : payload.take (18 + MAX_BUFFER_SIZE) <+: p.serialize host :=
          (List.take_prefix _ payload).trans ((List.prefix_append payload [0]).trans start)
        have whole := List.prefix_iff_eq_take.mp first
        rw [size, Packet.take_serialize] at whole
        exact whole.symm
      rw [Packet.serialize_eq, body] at start
      exact start
    · intro start
      obtain ⟨p, body⟩ := Packet.exists_body host size
      exact ⟨p, by rw [Packet.serialize_eq, body]; exact start⟩

/-- What a node does depends on the bytes received alone exactly if they are at least as many as those of a packet,
or as many as its header and data and not the start of the packet with their error correction code before a zero. -/
theorem bytesAlone_iff (host : ByteOrder) (self : Node) (payload : List UInt8) :
    BytesAlone host self payload ↔
      Packet.wireSize ≤ payload.length ∨ 18 + MAX_BUFFER_SIZE ≤ payload.length ∧
        ¬payload ++ [0] <+: payload.take (18 + MAX_BUFFER_SIZE) ++
          store big (Packet.calculateCRC (payload.take (18 + MAX_BUFFER_SIZE))) := by
  rw [bytesAlone_iff_no_start]
  by_cases long : Packet.wireSize ≤ payload.length
  · rw [or_iff_left_of_imp fun _ => long, or_iff_left_of_imp fun _ => long]
  · rw [or_iff_right long, or_iff_right long, exists_start_iff, not_or, Nat.not_lt]

section Loop

/-- A correctly serialised packet. -/
def Encoded (host : ByteOrder) (payload : List UInt8) : Prop := ∃ p : Packet, payload = p.serialize host

instance (host : ByteOrder) (payload : List UInt8) : Decidable (Encoded host payload) :=
  decidable_of_iff _ Packet.exists_serialize_iff.symm

/-- The files after a packet was processed or forwarded. -/
def filesAfter (host : ByteOrder) (tmp : Directory) : Reaction → Directory
  | .process pkt => (processMessage host tmp pkt).tmp
  | .forward _ => tmp

/-- The loop of `receiverFunction` over the datagrams that arrive, each with what the memory of the buffer then holds:
the files that it leaves and what it did. -/
def receiverFunction (host : ByteOrder) (self : Node) (tmp : Directory) :
    List (ReceiveBuffer × List UInt8) → Except Fault (Directory × List Reaction)
  | [] => .ok (tmp, [])
  | (buffer, payload) :: rest => do
    let reaction ← self.receiveMessage host buffer payload
    let (tmp, reactions) ← receiverFunction host self (filesAfter host tmp reaction) rest
    pure (tmp, reaction :: reactions)

/-- The loop goes on, and does what it would have done without the datagrams that are no packets. -/
def Unharmed (host : ByteOrder) (self : Node) (tmp : Directory) (arrivals : List (ReceiveBuffer × List UInt8)) :
    Prop :=
  ∃ result, receiverFunction host self tmp arrivals = .ok result ∧
    receiverFunction host self tmp (arrivals.filter fun arrival => Encoded host arrival.2) = .ok result

variable {arrivals : List (ReceiveBuffer × List UInt8)}

theorem length_reactions {tmp : Directory} {result : Directory × List Reaction}
    (run : receiverFunction host self tmp arrivals = .ok result) : result.2.length = arrivals.length := by
  induction arrivals generalizing tmp result with
  | nil =>
    cases run
    rfl
  | cons arrival rest ih =>
    obtain ⟨reaction, _, run⟩ := bind_eq_ok.mp run
    obtain ⟨later, after, run⟩ := bind_eq_ok.mp run
    cases run
    rw [List.length_cons, List.length_cons, ih after]

theorem receiverFunction_encoded (all : ∀ arrival ∈ arrivals, Encoded host arrival.2) (tmp : Directory) :
    ∃ result, receiverFunction host self tmp arrivals = .ok result := by
  induction arrivals generalizing tmp with
  | nil => exact ⟨_, rfl⟩
  | cons arrival rest ih =>
    obtain ⟨⟨p, same⟩, later⟩ := List.forall_mem_cons.mp all
    have first : self.receiveMessage host arrival.1 arrival.2 = _ :=
      same ▸ receiveMessage_serialize arrival.1 p
    obtain ⟨result, run⟩ := ih later _
    exact ⟨_, bind_eq_ok.mpr ⟨_, first, bind_eq_ok.mpr ⟨result, run, rfl⟩⟩⟩

/-- A node is unharmed by what it receives exactly if every datagram is a correctly serialised packet. -/
theorem unharmed_iff (host : ByteOrder) (self : Node) (tmp : Directory)
    (arrivals : List (ReceiveBuffer × List UInt8)) :
    Unharmed host self tmp arrivals ↔ ∀ arrival ∈ arrivals, Encoded host arrival.2 := by
  constructor
  · rintro ⟨result, run, without⟩
    have size := (length_reactions run).symm.trans (length_reactions without)
    intro arrival member
    have kept := List.length_filter_eq_length_iff.mp size.symm arrival member
    exact of_decide_eq_true kept
  · intro all
    obtain ⟨result, run⟩ := receiverFunction_encoded all tmp
    have same : (arrivals.filter fun arrival => Encoded host arrival.2) = arrivals :=
      List.filter_eq_self.mpr fun arrival member => decide_eq_true (all arrival member)
    exact ⟨result, run, by rw [same]; exact run⟩

end Loop

namespace malformed

def sat1 : Node := ⟨.satellite, "1", "sat1", "127.0.0.1", 33001, (.finite 0, .finite 0)⟩

/-- A packet whose encoding starts with a zero byte. -/
def packet : Packet := { Packet.addressed 0 0 0x0100007F 0xE980 0x0100007F 0xE980 .text with version := 0 }

/-- A datagram of no bytes, received twice: the buffer makes the difference. -/
theorem not_bytesAlone_empty :
    ∃ buffer buffer' reaction, sat1.receiveMessage .little buffer [] = .ok reaction ∧
      sat1.receiveMessage .little buffer' [] = .error (.thrown Packet.crcMismatch) ∧ ¬BytesAlone .little sat1 [] := by
  have zero : [] ++ [0] <+: packet.body .little := packet.version_prefix .little
  have held := take_received_holding (packet.length_serialize .little)
    (zero.trans (packet.body_prefix_serialize .little))
  have held' := take_received_holding (packet.length_spoiled .little)
    (zero.trans (packet.body_prefix_spoiled .little))
  obtain ⟨reaction, accepted⟩ : ∃ reaction, sat1.receiveMessage .little _ [] = .ok reaction :=
    (receiveMessage_ok_iff _).mpr ⟨packet, held⟩
  have refused : sat1.receiveMessage .little _ [] = _ :=
    receiveMessage_error _ (held' ▸ packet.not_exists_spoiled .little)
  refine ⟨_, _, reaction, accepted, refused, fun alone => ?_⟩
  have same := accepted.symm.trans ((alone.1 _ _).trans refused)
  cases same

/-- One datagram with a wrong error correction code ends the loop. -/
theorem not_unharmed_spoiled :
    ¬Unharmed .little sat1 ∅ [(holding _ (packet.length_spoiled .little), packet.spoiled .little)] := by
  rintro ⟨result, run, _⟩
  rw [receiverFunction, receiveMessage_spoiled] at run
  cases run

end malformed
end Node
end Nexus
