import Mathlib.Data.Rat.Floor
import Nexus.FileTransfer

namespace Nexus
open ByteOrder Packet

namespace Packet
variable {host : ByteOrder}

/-- The number in two bytes of an encoded packet. -/
def wireField (payload : List UInt8) (offset : Nat) : Nat := value (slice payload offset 2).reverse

theorem wireField_lt (payload : List UInt8) (offset : Nat) : wireField payload offset < 2 ^ 16 := by
  have bound := value_lt (slice payload offset 2).reverse
  have size : (slice payload offset 2).reverse.length ≤ 2 := by
    rw [List.length_reverse]
    exact List.length_take_le _ _
  exact Nat.lt_of_lt_of_le bound (Nat.pow_le_pow_right (n := 256) (by decide) size)

theorem fields_serialize (host : ByteOrder) (p : Packet) :
    fields (p.serialize host) (Nat.le_of_eq (length_serialize host p).symm) =
      { p with errorCorrectionCode := calculateCRC (p.body host) } := by
  have decoded := deserialize_serialize host p []
  rw [List.append_nil] at decoded
  exact ((deserialize_cases _).mp decoded).1

theorem wireField_eq {payload : List UInt8} {offset : Nat} (fits : offset + 2 ≤ payload.length) :
    wireField payload offset = (load big (slice payload offset 2) : UInt16).toNat := by
  have size : (slice payload offset 2).reverse.length = 2 := by rw [List.length_reverse, length_slice fits]
  have bound := value_lt (slice payload offset 2).reverse
  rw [size] at bound
  exact (Word.toNat_ofNat (W := UInt16) _ bound).symm

theorem wireField_fragmentNumber (host : ByteOrder) (p : Packet) :
    wireField (p.serialize host) 14 = p.fragmentNumber.toNat := by
  have field := congrArg fragmentNumber (fields_serialize host p)
  rw [wireField_eq (by rw [length_serialize, wireSize]; omega)]
  exact congrArg UInt16.toNat field

theorem wireField_fragmentCount (host : ByteOrder) (p : Packet) :
    wireField (p.serialize host) 16 = p.fragmentCount.toNat := by
  have field := congrArg fragmentCount (fields_serialize host p)
  rw [wireField_eq (by rw [length_serialize, wireSize]; omega)]
  exact congrArg UInt16.toNat field

theorem slice_data (host : ByteOrder) (p : Packet) {n : Nat} (fits : n ≤ MAX_BUFFER_SIZE) :
    slice (p.serialize host) 18 n = p.data.bytes.take n := by
  have field : slice (p.serialize host) 18 MAX_BUFFER_SIZE = p.data.bytes :=
    congrArg (fun packet => packet.data.bytes) (fields_serialize host p)
  rw [← field, slice, slice, List.take_take, Nat.min_eq_left fits]

end Packet

namespace Node

/-- The datagrams of a file are counted and numbered as its fragments: their number is the ceiling of the
quotient, the `k`-th carries `k` and this number on the wire, no two carry the same number, and what
was read for them in order is the file. -/
structure Numbered (content : List UInt8) (datagrams : List Datagram) : Prop where
  count : datagrams.length = ⌈(content.length : ℚ) / MAX_BUFFER_SIZE⌉₊
  number : ∀ k (below : k < datagrams.length), wireField (datagrams.get ⟨k, below⟩).payload 14 = k + 1
  total : ∀ datagram ∈ datagrams, wireField datagram.payload 16 = datagrams.length
  distinct : (datagrams.map fun datagram => wireField datagram.payload 14).Nodup
  bytes : datagrams.zipIdx.flatMap (fun read => slice read.1.payload 18
    (min MAX_BUFFER_SIZE (content.length - read.2 * MAX_BUFFER_SIZE))) = content

theorem fragmentTotal_eq_ceil (content : List UInt8) :
    fragmentTotal content = ⌈(content.length : ℚ) / MAX_BUFFER_SIZE⌉₊ := by
  have ceiling := Rat.ceil_natCast_div_natCast content.length MAX_BUFFER_SIZE
  rw [← Int.ceil_toNat, ceiling, fragmentTotal]
  unfold MAX_BUFFER_SIZE
  omega

section
variable {host : ByteOrder} {self target hop : Node} {nm : NetworkManager} {name : String}
  {content : List UInt8} {stale : Buffer}

theorem Numbered.few {datagrams : List Datagram} (numbered : Numbered content datagrams) :
    fragmentTotal content ≤ 65535 := by
  have length : datagrams.length = fragmentTotal content := numbered.count.trans (fragmentTotal_eq_ceil content).symm
  rw [← length]
  cases datagrams with
  | nil => exact Nat.zero_le _
  | cons first rest =>
    have total := numbered.total first List.mem_cons_self
    have bound := wireField_lt first.payload 16
    omega

theorem bytes_filePacket {i : Nat} :
    slice ((filePacket host self target content stale i).serialize host) 18
      (min MAX_BUFFER_SIZE (content.length - i * MAX_BUFFER_SIZE)) = Chunks.chunk MAX_BUFFER_SIZE content i := by
  have size : (slice content (i * MAX_BUFFER_SIZE) MAX_BUFFER_SIZE).length =
      min MAX_BUFFER_SIZE (content.length - i * MAX_BUFFER_SIZE) := by
    rw [slice, List.length_take, List.length_drop]
  have read : (filePacket host self target content stale i).data.bytes =
      slice content (i * MAX_BUFFER_SIZE) MAX_BUFFER_SIZE ++ (fileBuffer content stale i).bytes.drop
        (slice content (i * MAX_BUFFER_SIZE) MAX_BUFFER_SIZE).length := by
    have short : (slice content (i * MAX_BUFFER_SIZE) MAX_BUFFER_SIZE).length ≤ MAX_BUFFER_SIZE :=
      List.length_take_le _ _
    show ((fileBuffer content stale i).refilled _).bytes = _
    simp only [Buffer.refilled, List.take_of_length_le short]
  rw [slice_data host _ (Nat.min_le_left _ _), read, ← size, List.take_left]
  rfl

theorem zipIdx_map_range {α : Type} (g : Nat → α) (count : Nat) :
    ((List.range count).map g).zipIdx = (List.range count).map fun i => (g i, i) :=
  List.ext_getElem (by simp) fun i _ _ => by simp

/-- The packets of a file with few enough fragments. -/
theorem numbered_filePackets (few : fragmentTotal content ≤ 65535) :
    Numbered content ((filePackets host self target content stale).map (sendTo host hop.ip hop.port)) := by
  have length : ((filePackets host self target content stale).map (sendTo host hop.ip hop.port)).length =
      fragmentTotal content := by rw [List.length_map, filePackets, List.length_map, List.length_range]
  have payloads : (filePackets host self target content stale).map (sendTo host hop.ip hop.port) =
      (List.range (fragmentTotal content)).map fun i =>
        sendTo host hop.ip hop.port (filePacket host self target content stale i) := by
    rw [filePackets, List.map_map]
    rfl
  have numbers : ∀ i, i < fragmentTotal content →
      wireField ((filePacket host self target content stale i).serialize host) 14 = i + 1 := fun i below =>
    (wireField_fragmentNumber host _).trans (toNat_fragmentNumber few below)
  constructor
  · rw [length, fragmentTotal_eq_ceil]
  · intro k below
    rw [length] at below
    simp only [payloads, List.get_eq_getElem, List.getElem_map, List.getElem_range]
    exact numbers k below
  · intro datagram member
    rw [length]
    rw [payloads] at member
    obtain ⟨i, _, rfl⟩ := List.mem_map.mp member
    exact (wireField_fragmentCount host _).trans (UInt16.toNat_ofNat_of_lt' (Nat.lt_succ_of_le few))
  · rw [payloads, List.map_map]
    refine List.Nodup.map_on ?_ List.nodup_range
    intro i inside j other same
    have equal : i + 1 = j + 1 := (numbers i (List.mem_range.mp inside)).symm.trans
      (same.trans (numbers j (List.mem_range.mp other)))
    exact Nat.succ.inj equal
  · rw [payloads, zipIdx_map_range, List.flatMap_map]
    refine Eq.trans ?_ (Chunks.flatten_chunks (by decide : 0 < MAX_BUFFER_SIZE) content)
    rw [← List.flatMap_def]
    exact List.flatMap_congr fun i _ => bytes_filePacket

/-- A file is only sent at all to a known address, over a known hop unless it is empty. -/
theorem sendFile_sent {datagrams : List Datagram} (few : fragmentTotal content ≤ 65535)
    (sent : self.sendFile host nm name (some content) stale = .ok (.sent datagrams)) :
    ∃ target, nm.findNode name = some target ∧ (∃ ip, inet_pton host target.ip = some ip) ∧
      (content = [] ∨ ∃ hop, nm.getNextHop name = .ok (some hop)) := by
  cases found : nm.findNode name with
  | none => simp [sendFile, found] at sent
  | some target =>
    cases valid : inet_pton host target.ip with
    | none => simp [sendFile, found, valid] at sent
    | some ip =>
      refine ⟨target, rfl, ⟨ip, valid⟩, ?_⟩
      by_cases empty : content = []
      · exact .inl empty
      · exact .inr (getNextHop_of_sent found valid empty few sent)

theorem sendFile_nil (found : nm.findNode name = some target) {ip : UInt32}
    (valid : inet_pton host target.ip = some ip) :
    self.sendFile host nm name (some []) stale = .ok (.sent []) := by
  have count : fragmentsFor (tellg (some [])) = .ok (fragmentTotal [] : Int) := fragmentsFor_eq (by decide)
  simp only [sendFile, found, valid]
  refine bind_eq_ok.mpr ⟨_, count, ?_⟩
  rfl

/-- Fragments are numbered exactly for the files with at most 65535 of them: the numbers have 16 bits on the
wire, the loop does not stop there. -/
theorem sendFile_numbered_iff (host : ByteOrder) (self : Node) (nm : NetworkManager) (name : String)
    (content : List UInt8) (stale : Buffer) :
    (∃ datagrams, self.sendFile host nm name (some content) stale = .ok (.sent datagrams) ∧
      Numbered content datagrams) ↔
    ⌈(content.length : ℚ) / MAX_BUFFER_SIZE⌉₊ ≤ 65535 ∧
      ∃ target, nm.findNode name = some target ∧ (∃ ip, inet_pton host target.ip = some ip) ∧
        (content = [] ∨ ∃ hop, nm.getNextHop name = .ok (some hop)) := by
  rw [← fragmentTotal_eq_ceil]
  constructor
  · rintro ⟨datagrams, sent, numbered⟩
    exact ⟨numbered.few, sendFile_sent numbered.few sent⟩
  · rintro ⟨few, target, found, ⟨ip, valid⟩, ready⟩
    rcases ready with rfl | ⟨hop, next⟩
    · refine ⟨[], sendFile_nil found valid, ?_⟩
      exact @numbered_filePackets host self target target [] stale few
    · exact ⟨_, sendFile_eq found valid next few, numbered_filePackets few⟩

end
end Node

namespace trio
open Node

/-- A file with one byte more than 65535 full fragments, to a known node over a known hop. -/
theorem not_sendFile_numbered :
    ∃ nm' hop, trio.updateRoutingTable (trio.nodes.get sat1) = .ok nm' ∧
      nm'.findNode "sat3" = some (trio.nodes.get sat3) ∧ nm'.getNextHop "sat3" = .ok (some hop) ∧
      ¬∃ datagrams, (trio.nodes.get sat1).sendFile .little nm' "sat3" (some (List.replicate 3276750001 0)) .zero =
          .ok (.sent datagrams) ∧ Numbered (List.replicate 3276750001 0) datagrams := by
  have distinct : DistinctNames trio.nodes := by decide
  obtain ⟨nm', _, run, routed⟩ := updateRoutingTable_routed trio weights (distinct.listed sat1)
  have listed := distinct.listed sat3
  refine ⟨nm', _, run, routed.findNode listed, routed.getNextHop listed, ?_⟩
  rintro ⟨datagrams, _, numbered⟩
  have few := numbered.few
  rw [fragmentTotal, List.length_replicate, MAX_BUFFER_SIZE] at few
  omega

end trio
end Nexus
