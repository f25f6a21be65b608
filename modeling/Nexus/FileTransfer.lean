import Nexus.Chunks
import Nexus.Delivery
import Nexus.Reassembly

namespace Nexus
open ByteOrder Packet

namespace Buffer

/-- The buffer after a read that the array has room for. -/
def refilled (b : Buffer) (bytes : List UInt8) : Buffer where
  bytes := bytes.take MAX_BUFFER_SIZE ++ b.bytes.drop (bytes.take MAX_BUFFER_SIZE).length
  size := by
    rw [List.length_append, List.length_drop, b.size, List.length_take]
    omega

theorem overwrite_eq (b : Buffer) {bytes : List UInt8} (fits : bytes.length ≤ MAX_BUFFER_SIZE) :
    b.overwrite bytes = .ok (b.refilled bytes) := by
  rw [overwrite, dif_pos fits]
  congr 1
  apply eq_of_bytes
  simp only [refilled, List.take_of_length_le fits]

theorem refilled_full (b : Buffer) {bytes : List UInt8} (full : bytes.length = MAX_BUFFER_SIZE) :
    (b.refilled bytes).bytes = bytes := by
  have nothing : b.bytes.drop MAX_BUFFER_SIZE = [] := List.drop_eq_nil_of_le (Nat.le_of_eq b.size)
  simp only [refilled, List.take_of_length_le (Nat.le_of_eq full), full, nothing, List.append_nil]

end Buffer

namespace Node

section Cutting
variable (content : List UInt8) (stale : Buffer)

/-- The array of `sendFile` after `i` reads: the last read may leave old bytes at the end. -/
def fileBuffer : Nat → Buffer
  | 0 => stale
  | i + 1 => (fileBuffer i).refilled (slice content (i * MAX_BUFFER_SIZE) MAX_BUFFER_SIZE)

def fragmentTotal : Nat := (content.length + MAX_BUFFER_SIZE - 1) / MAX_BUFFER_SIZE

def fragments : List Buffer := (List.range (fragmentTotal content)).map fun i => fileBuffer content stale (i + 1)

theorem length_fragments : (fragments content stale).length = fragmentTotal content := by
  rw [fragments, List.length_map, List.length_range]

theorem length_contents (whole : List Buffer) : (contents whole).length = whole.length * MAX_BUFFER_SIZE := by
  induction whole with
  | nil => simp [contents]
  | cons b rest ih =>
    have split : contents (b :: rest) = b.bytes ++ contents rest := List.flatMap_cons
    rw [split, List.length_append, ih, b.size, List.length_cons, Nat.succ_mul, Nat.add_comm]

theorem fragmentTotal_mul (whole : content.length % MAX_BUFFER_SIZE = 0) :
    fragmentTotal content * MAX_BUFFER_SIZE = content.length := by
  unfold fragmentTotal MAX_BUFFER_SIZE at *
  omega

/-- The fragments make up the file again exactly when the last one is full. -/
theorem contents_fragments_iff :
    contents (fragments content stale) = content ↔ content.length % MAX_BUFFER_SIZE = 0 := by
  constructor
  · intro same
    have size := length_contents (fragments content stale)
    rw [same] at size
    rw [size]
    exact Nat.mul_mod_left _ _
  · intro whole
    have total := fragmentTotal_mul content whole
    have full : ∀ i ∈ List.range (fragmentTotal content), (fileBuffer content stale (i + 1)).bytes =
        Chunks.chunk MAX_BUFFER_SIZE content i := by
      intro i member
      have below : i + 1 ≤ fragmentTotal content := List.mem_range.mp member
      have inside := Nat.mul_le_mul_right MAX_BUFFER_SIZE below
      rw [Nat.succ_mul, total] at inside
      exact Buffer.refilled_full _ (length_slice inside)
    rw [contents, fragments, List.flatMap_map, List.flatMap_congr full, Chunks.flatMap_chunk, total,
      List.take_length]

end Cutting

section Sending
variable {host : ByteOrder} {self target hop : Node} {nm : NetworkManager} {name : String}
  {content : List UInt8} {stale : Buffer}

theorem fragmentTotal_pos (nonempty : content ≠ []) : 0 < fragmentTotal content := by
  have size := List.length_pos_iff.mpr nonempty
  unfold fragmentTotal MAX_BUFFER_SIZE
  omega

/-- The quotient of doubles has the ceiling of the exact quotient. -/
theorem fragmentsFor_eq (few : fragmentTotal content ≤ 65535) :
    fragmentsFor content.length = .ok (fragmentTotal content : Int) := by
  have small : content.length < 2 ^ 53 := by
    unfold fragmentTotal MAX_BUFFER_SIZE at few
    omega
  have ceiling := Binary64.ceil_div_natCast small (by decide : 0 < MAX_BUFFER_SIZE) (by decide)
  have count : checkInt (fragmentTotal content : Int) = .ok (fragmentTotal content : Int) := by
    refine checkInt_eq_ok.mpr ⟨?_, rfl⟩
    unfold INT_MIN INT_MAX
    omega
  unfold fragmentsFor
  rw [ceiling, Binary64.truncate_natCast]
  exact count

section Packets
variable (host self target hop content stale)

/-- The packet sent after the read `i + 1`. -/
def filePacket (i : Nat) : Packet :=
  { Packet.addressed (UInt16.ofNat (i + 1)) (UInt16.ofNat (fragmentTotal content)) (self.addr host).sin_addr
      (self.addr host).sin_port (target.addr host).sin_addr (target.addr host).sin_port .file with
    data := fileBuffer content stale (i + 1) }

def filePackets : List Packet :=
  (List.range (fragmentTotal content)).map (filePacket host self target content stale)

/-- The variables of the loop after `i` passes. -/
def fileLoop (i : Nat) : FileLoop where
  fragNumber := (i + 1 : Nat)
  buffer := fileBuffer content stale i
  datagrams := ((List.range i).map (filePacket host self target content stale)).map (sendTo host hop.ip hop.port)

end Packets

theorem ofInt_natCast (k : Nat) : UInt16.ofInt k = UInt16.ofNat k := by
  have low : ((k : Int) % 2 ^ 16).toNat = k % 2 ^ 16 := by omega
  rw [UInt16.ofInt, low]
  exact UInt16.ofNat_mod_size

theorem sendFragment_eq {ip : UInt32} (valid : inet_pton host target.ip = some ip)
    (next : nm.getNextHop name = .ok (some hop)) {i : Nat} (few : i < 65535) :
    sendFragment host nm name content (Packet.addressed 0 (UInt16.ofInt (fragmentTotal content))
        (self.addr host).sin_addr (self.addr host).sin_port ip (htons host target.port) .file)
      (fileLoop host self target hop content stale i) i =
        .ok (fileLoop host self target hop content stale (i + 1)) := by
  have short : (slice content (i * MAX_BUFFER_SIZE) MAX_BUFFER_SIZE).length ≤ MAX_BUFFER_SIZE :=
    List.length_take_le _ _
  have counted : checkInt ((i + 1 : Nat) + 1) = .ok ((i + 1 + 1 : Nat) : Int) := by
    refine checkInt_eq_ok.mpr ⟨?_, rfl⟩
    unfold INT_MIN INT_MAX
    omega
  refine bind_eq_ok.mpr ⟨_, Buffer.overwrite_eq _ short, bind_eq_ok.mpr ⟨_, counted, ?_⟩⟩
  simp only [next, fileLoop, filePacket, addr_of_valid valid, List.range_succ, List.map_append, List.map_singleton,
    ofInt_natCast]
  rfl

theorem sendFile_eq (found : nm.findNode name = some target) {ip : UInt32}
    (valid : inet_pton host target.ip = some ip) (next : nm.getNextHop name = .ok (some hop))
    (few : fragmentTotal content ≤ 65535) :
    self.sendFile host nm name (some content) stale =
      .ok (.sent ((filePackets host self target content stale).map (sendTo host hop.ip hop.port))) := by
  have loop := forRange_eq _ (fileLoop host self target hop content stale) fun i below =>
    sendFragment_eq valid next (Nat.lt_of_lt_of_le below few)
  have start : fileLoop host self target hop content stale 0 = ⟨1, stale, []⟩ := by rfl
  rw [start] at loop
  simp only [sendFile, found, valid, tellg, Option.getD_some]
  refine bind_eq_ok.mpr ⟨_, fragmentsFor_eq few, bind_eq_ok.mpr
    ⟨fileLoop host self target hop content stale (fragmentTotal content), ?_, rfl⟩⟩
  rw [Int.toNat_natCast]
  exact loop

theorem getNextHop_of_sent (found : nm.findNode name = some target) {ip : UInt32}
    (valid : inet_pton host target.ip = some ip) (nonempty : content ≠ []) (few : fragmentTotal content ≤ 65535)
    {datagrams : List Datagram}
    (sent : self.sendFile host nm name (some content) stale = .ok (.sent datagrams)) :
    ∃ hop, nm.getNextHop name = .ok (some hop) := by
  simp only [sendFile, found, valid] at sent
  obtain ⟨fragCount, count, sent⟩ := bind_eq_ok.mp sent
  obtain ⟨loop, passes, _⟩ := bind_eq_ok.mp sent
  cases (fragmentsFor_eq few).symm.trans count
  obtain ⟨k, total⟩ := Nat.exists_eq_add_of_lt (fragmentTotal_pos nonempty)
  rw [Int.toNat_natCast, total] at passes
  obtain ⟨first, pass⟩ := forRange_first _ passes
  obtain ⟨_, _, pass⟩ := bind_eq_ok.mp pass
  obtain ⟨_, _, pass⟩ := bind_eq_ok.mp pass
  obtain ⟨hop, next, pass⟩ := bind_eq_ok.mp pass
  cases hop with
  | none => cases pass
  | some hop => exact ⟨hop, next⟩

/-- A file that is sent at all is sent as these packets. -/
theorem sendFile_inv_packets {datagrams : List Datagram} (nonempty : content ≠ [])
    (few : fragmentTotal content ≤ 65535)
    (sent : self.sendFile host nm name (some content) stale = .ok (.sent datagrams)) :
    ∃ target hop : Node, nm.findNode name = some target ∧
      datagrams = (filePackets host self target content stale).map (sendTo host hop.ip hop.port) := by
  cases found : nm.findNode name with
  | none => simp [sendFile, found] at sent
  | some target =>
    cases valid : inet_pton host target.ip with
    | none => simp [sendFile, found, valid] at sent
    | some ip =>
      obtain ⟨hop, next⟩ := getNextHop_of_sent found valid nonempty few sent
      rw [sendFile_eq found valid next few] at sent
      cases sent
      exact ⟨target, hop, rfl, rfl⟩

end Sending

/-- A node reads payloads one after another, each into what its buffer holds, and processes the
packets for its own address. -/
def receiveAll (host : ByteOrder) (self : Node) (tmp : Directory) :
    List (ReceiveBuffer × List UInt8) → Except Fault Directory
  | [] => .ok tmp
  | (buffer, payload) :: rest => do
    match ← self.receiveMessage host buffer payload with
    | .process pkt => receiveAll host self (processMessage host tmp pkt).tmp rest
    | .forward _ => receiveAll host self tmp rest

section RoundTrip
variable {host : ByteOrder} {source receiver target : Node} {content : List UInt8} {stale : Buffer}

theorem receiveAll_eq {pkts : List Packet} (own : ∀ pkt ∈ pkts, receiver.addr host = ⟨pkt.tAddress, pkt.tPort⟩)
    {arrivals : List (ReceiveBuffer × List UInt8)}
    (delivered : arrivals.map Prod.snd = pkts.map (Packet.serialize host)) (tmp : Directory) :
    receiver.receiveAll host tmp arrivals = .ok (processAll host tmp (pkts.map (sealed host))).1 := by
  induction pkts generalizing arrivals tmp with
  | nil =>
    obtain rfl := List.map_eq_nil_iff.mp delivered
    rfl
  | cons pkt pkts ih =>
    obtain ⟨⟨buffer, payload⟩, rest, rfl, rfl, later⟩ := List.map_eq_cons_iff.mp delivered
    have call : receiver.receiveMessage host buffer (pkt.serialize host) = _ := receiveMessage_serialize buffer pkt
    rw [if_pos (own pkt List.mem_cons_self)] at call
    have next := ih (fun other member => own other (List.mem_cons_of_mem pkt member)) later
      (processMessage host tmp (sealed host pkt)).tmp
    simp only [receiveAll, call]
    exact next

theorem toNat_fragmentNumber (few : fragmentTotal content ≤ 65535) {i : Nat} (below : i < fragmentTotal content) :
    (UInt16.ofNat (i + 1)).toNat = i + 1 :=
  UInt16.toNat_ofNat_of_lt' (Nat.lt_succ_of_le (Nat.le_trans below few))

theorem carries_filePacket (few : fragmentTotal content ≤ 65535) {i : Nat} (below : i < fragmentTotal content) :
    Carries (source.addr host).sin_addr (source.addr host).sin_port (fragments content stale)
      (sealed host (filePacket host source target content stale i)) := by
  have count : (UInt16.ofNat (fragmentTotal content)).toNat = fragmentTotal content :=
    UInt16.toNat_ofNat_of_lt' (Nat.lt_succ_of_le few)
  refine ⟨⟨rfl, rfl, rfl⟩, count.trans (length_fragments content stale).symm, i, toNat_fragmentNumber few below, ?_⟩
  rw [fragments, List.getElem?_map, List.getElem?_range below]
  rfl

/-- The packets of a file as they arrive. -/
theorem mem_sealedPackets {pkt : Packet}
    (member : pkt ∈ (filePackets host source target content stale).map (sealed host)) :
    ∃ i, i < fragmentTotal content ∧ sealed host (filePacket host source target content stale i) = pkt := by
  obtain ⟨_, sent, rfl⟩ := List.mem_map.mp member
  obtain ⟨i, below, rfl⟩ := List.mem_map.mp sent
  exact ⟨i, List.mem_range.mp below, rfl⟩

theorem sealedPackets_split {k : Nat} (total : fragmentTotal content = k + 1) :
    (filePackets host source target content stale).map (sealed host) =
      (List.range k).map (fun i => sealed host (filePacket host source target content stale i)) ++
        [sealed host (filePacket host source target content stale k)] := by
  rw [filePackets, List.map_map, total, List.range_succ, List.map_append, List.map_singleton]
  rfl

theorem fragmentNumber_ne (few : fragmentTotal content ≤ 65535) {i j : Nat} (less : i < j)
    (below : j < fragmentTotal content) :
    (sealed host (filePacket host source target content stale i)).fragmentNumber ≠
      (sealed host (filePacket host source target content stale j)).fragmentNumber := by
  intro same
  have number : (UInt16.ofNat (i + 1)).toNat = (UInt16.ofNat (j + 1)).toNat := congrArg UInt16.toNat same
  rw [toNat_fragmentNumber few (less.trans below), toNat_fragmentNumber few below] at number
  omega

/-- The packets of a file, in order, leave the contents of its fragments at their receiver. -/
theorem filePackets_received (nonempty : content ≠ []) (few : fragmentTotal content ≤ 65535)
    (bound : receiver.addr host = target.addr host) {tmp : Directory}
    (clean : ∀ name ∈ tmp, ¬senderPrefix (source.addr host).sin_addr (source.addr host).sin_port <+: name)
    {arrivals : List (ReceiveBuffer × List UInt8)}
    (delivered : arrivals.map Prod.snd =
      (filePackets host source target content stale).map (Packet.serialize host)) :
    ∃ tmp', receiver.receiveAll host tmp arrivals = .ok tmp' ∧
      tmp'.lookup (finalFile (senderPrefix (source.addr host).sin_addr (source.addr host).sin_port)) =
        some (contents (fragments content stale)) := by
  have own : ∀ pkt ∈ filePackets host source target content stale,
      receiver.addr host = ⟨pkt.tAddress, pkt.tPort⟩ := by
    intro pkt member
    obtain ⟨i, _, rfl⟩ := List.mem_map.mp member
    exact bound
  refine ⟨_, receiveAll_eq own delivered tmp, ?_⟩
  obtain ⟨k, total⟩ : ∃ k, fragmentTotal content = k + 1 :=
    Nat.exists_eq_succ_of_ne_zero (fragmentTotal_pos nonempty).ne'
  have last : k < fragmentTotal content := total ▸ Nat.lt_succ_self k
  have all : ∀ pkt ∈ (filePackets host source target content stale).map (sealed host),
      Carries (source.addr host).sin_addr (source.addr host).sin_port (fragments content stale) pkt := by
    intro pkt member
    obtain ⟨i, below, rfl⟩ := mem_sealedPackets member
    exact carries_filePacket few below
  have every : ∀ i, i < (fragments content stale).length →
      ∃ pkt ∈ (filePackets host source target content stale).map (sealed host), pkt.fragmentNumber.toNat = i + 1 := by
    intro i below
    rw [length_fragments] at below
    have sent : filePacket host source target content stale i ∈ filePackets host source target content stale :=
      List.mem_map_of_mem (List.mem_range.mpr below)
    exact ⟨_, List.mem_map_of_mem sent, toNat_fragmentNumber few below⟩
  have fresh : ∀ pkt ∈ (List.range k).map fun i => sealed host (filePacket host source target content stale i),
      pkt.fragmentNumber ≠ (sealed host (filePacket host source target content stale k)).fragmentNumber := by
    intro pkt member
    obtain ⟨i, below, rfl⟩ := List.mem_map.mp member
    exact fragmentNumber_ne few (List.mem_range.mp below) last
  rw [sealedPackets_split total] at all every ⊢
  obtain ⟨writes, _⟩ := Holds.complete (.empty clean) host all every fresh
  exact lookup_of_written (carries_filePacket few last).toFileOf writes

/-- A file whose packets all arrive unaltered, in order and once is written again byte for byte
exactly when its last fragment is full: what `read` counts is dropped. -/
theorem sendFile_roundTrip_iff (host : ByteOrder) (source receiver target : Node) (nm : NetworkManager)
    (name : String) (content : List UInt8) (stale : Buffer) (datagrams : List Datagram) (tmp : Directory)
    (arrivals : List (ReceiveBuffer × List UInt8)) (nonempty : content ≠ [])
    (few : fragmentTotal content ≤ 65535)
    (sent : source.sendFile host nm name (some content) stale = .ok (.sent datagrams))
    (found : nm.findNode name = some target) (bound : receiver.addr host = target.addr host)
    (clean : ∀ file ∈ tmp, ¬senderPrefix (source.addr host).sin_addr (source.addr host).sin_port <+: file)
    (delivered : arrivals.map Prod.snd = datagrams.map Datagram.payload) :
    ∃ tmp', receiver.receiveAll host tmp arrivals = .ok tmp' ∧
      (tmp'.lookup (finalFile (senderPrefix (source.addr host).sin_addr (source.addr host).sin_port)) =
        some content ↔ content.length % MAX_BUFFER_SIZE = 0) := by
  obtain ⟨target', hop, found', rfl⟩ := sendFile_inv_packets nonempty few sent
  cases found.symm.trans found'
  rw [List.map_map] at delivered
  obtain ⟨tmp', run, final⟩ := filePackets_received nonempty few bound clean delivered
  refine ⟨tmp', run, ?_⟩
  rw [final, Option.some_inj]
  exact contents_fragments_iff content stale

end RoundTrip
end Node

namespace trio
open Node

/-- A file that the first satellite sends to the last one. -/
theorem sendFile_sat3 {content : List UInt8} (few : fragmentTotal content ≤ 65535) (stale : Buffer) :
    ∃ (nm' : NetworkManager) (hop : Node), trio.updateRoutingTable (trio.nodes.get sat1) = .ok nm' ∧
      nm'.findNode "sat3" = some (trio.nodes.get sat3) ∧
      (trio.nodes.get sat1).sendFile .little nm' "sat3" (some content) stale = .ok (.sent
        ((filePackets .little (trio.nodes.get sat1) (trio.nodes.get sat3) content stale).map
          (sendTo .little hop.ip hop.port))) := by
  have distinct : DistinctNames trio.nodes := by decide
  obtain ⟨nm', _, run, routed⟩ := updateRoutingTable_routed trio weights (distinct.listed sat1)
  have listed := distinct.listed sat3
  have found := routed.findNode listed
  obtain ⟨ip, valid⟩ := registered.valid sat3
  exact ⟨nm', _, run, found, sendFile_eq found valid (routed.getNextHop listed) few⟩

def blank : ReceiveBuffer := ⟨List.replicate (MAX_BUFFER_SIZE + 32) 0, List.length_replicate⟩

/-- Two full fragments. -/
def twoFull : List UInt8 := List.replicate MAX_BUFFER_SIZE 65 ++ List.replicate MAX_BUFFER_SIZE 66

theorem length_twoFull : twoFull.length = 2 * MAX_BUFFER_SIZE := by
  rw [twoFull, List.length_append, List.length_replicate, List.length_replicate]
  omega

/-- A file of two full fragments arrives as it was sent. -/
theorem sendFile_roundTrip_iff_full :
    ∃ nm' datagrams tmp', trio.updateRoutingTable (trio.nodes.get sat1) = .ok nm' ∧
      (trio.nodes.get sat1).sendFile .little nm' "sat3" (some twoFull) .zero = .ok (.sent datagrams) ∧
      datagrams.length = 2 ∧
      (trio.nodes.get sat3).receiveAll .little ∅ (datagrams.map fun datagram => (blank, datagram.payload)) =
        .ok tmp' ∧
      (tmp'.lookup (finalFile (senderPrefix 0x0100007F ((trio.nodes.get sat1).addr .little).sin_port)) =
        some twoFull ↔ twoFull.length % MAX_BUFFER_SIZE = 0) := by
  have two : fragmentTotal twoFull = 2 := by
    rw [fragmentTotal, length_twoFull]
    decide
  have nonempty : twoFull ≠ [] := by
    rw [← List.length_pos_iff, length_twoFull]
    decide
  have few : fragmentTotal twoFull ≤ 65535 := by omega
  obtain ⟨nm', hop, run, found, sent⟩ := sendFile_sat3 few .zero
  have count : ((filePackets .little (trio.nodes.get sat1) (trio.nodes.get sat3) twoFull .zero).map
      (sendTo .little hop.ip hop.port)).length = 2 := by
    rw [filePackets, List.length_map, List.length_map, List.length_range, two]
  have delivered : ∀ datagrams : List Datagram,
      (datagrams.map fun datagram => (blank, datagram.payload)).map Prod.snd = datagrams.map Datagram.payload :=
    fun datagrams => List.map_map
  obtain ⟨tmp', received, same⟩ := sendFile_roundTrip_iff .little (trio.nodes.get sat1) (trio.nodes.get sat3)
    (trio.nodes.get sat3) nm' "sat3" twoFull .zero _ ∅ _ nonempty few sent found rfl (empty_clean _) (delivered _)
  exact ⟨nm', _, tmp', run, sent, count, received, same⟩

/-- A file of one byte arrives with 49999 bytes too many. -/
theorem not_sendFile_roundTrip :
    ∃ nm' datagrams tmp', trio.updateRoutingTable (trio.nodes.get sat1) = .ok nm' ∧
      (trio.nodes.get sat1).sendFile .little nm' "sat3" (some [65]) .zero = .ok (.sent datagrams) ∧
      (trio.nodes.get sat3).receiveAll .little ∅ (datagrams.map fun datagram => (blank, datagram.payload)) =
        .ok tmp' ∧
      tmp'.lookup (finalFile (senderPrefix 0x0100007F ((trio.nodes.get sat1).addr .little).sin_port)) ≠
        some [65] := by
  have few : fragmentTotal [65] ≤ 65535 := by decide
  obtain ⟨nm', hop, run, found, sent⟩ := sendFile_sat3 few .zero
  have bound : (trio.nodes.get sat3).addr .little = (trio.nodes.get sat3).addr .little := rfl
  have delivered : ∀ pkts : List Packet, (((pkts.map (sendTo .little hop.ip hop.port)).map fun datagram =>
      (blank, datagram.payload)).map Prod.snd) = pkts.map (Packet.serialize .little) := by
    intro pkts
    rw [List.map_map, List.map_map]
    rfl
  obtain ⟨tmp', received, final⟩ := filePackets_received (List.cons_ne_nil 65 []) few bound
    (empty_clean _) (delivered _)
  refine ⟨nm', _, tmp', run, sent, received, fun same => ?_⟩
  have whole := (contents_fragments_iff [65] .zero).mp (Option.some.inj (final.symm.trans same))
  revert whole
  decide

end trio
end Nexus
