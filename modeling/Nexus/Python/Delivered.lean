import Nexus.Python.Reading
import Nexus.Python.Transfer

namespace Nexus.Python
open GroundNode

/-- The packet that a connection brings. -/
def opened (connection : Int × List UInt8) : Option Packet :=
  (Packet.deserialize connection.1 (read connection.2)).toOption

theorem opened_eq_some {connection : Int × List UInt8} {q : Packet}
    (known : Packet.deserialize connection.1 (read connection.2) = .ok q) : opened connection = some q := by
  rw [opened, known]
  rfl

/-- On packets of files a node does what it does on their chunks. -/
theorem handleConnections_eq {arrivals : List (Int × List UInt8)}
    (each : ∀ a ∈ arrivals, read a.2 ≠ [] ∧
      ∃ q, Packet.deserialize a.1 (read a.2) = .ok q ∧ q.type = .fileTransfer) (files : ReceivingFiles) :
    handleConnections files arrivals =
      ((handleAll files (arrivals.filterMap opened)).1,
        (handleAll files (arrivals.filterMap opened)).2.map .written) := by
  induction arrivals generalizing files with
  | nil => rfl
  | cons a later ih =>
    obtain ⟨⟨filled, q, known, type⟩, others⟩ := List.forall_mem_cons.mp each
    obtain ⟨now, available⟩ := a
    have first : handleConnection now files available =
        ((handleFileTransfer files q).1, (handleFileTransfer files q).2.map .written) := by
      unfold handleConnection
      simp only [if_neg filled, known, type]
    rw [handleConnections, first, List.filterMap_cons_some (opened_eq_some known), handleAll, ih others,
      List.map_append]
    cases (handleFileTransfer files q).2 <;> rfl

namespace Transfer
variable (t : Transfer)

/-- What comes through of the parts of a file. -/
def cut : Parts where
  file_id := t.file_id
  parts := t.chunks.map (List.take 4062)
  id_fits := t.id_fits
  nonempty := (List.length_map _).symm ▸ t.parts.nonempty
  few := (List.length_map _).symm ▸ t.parts.few

theorem length_cut : t.cut.parts.length = t.parts.parts.length := List.length_map _

theorem payload_cut (i : Nat) : t.cut.payload i = (t.parts.payload i).take 4074 := by
  have before : (field t.file_id ++ field (i + 1) ++ field t.parts.parts.length).length = 12 := by
    simp only [List.length_append, length_field]
  have part : t.cut.part i = (t.parts.part i).take 4062 := by
    simp only [Parts.part, cut, parts, List.getD_eq_getElem?_getD, List.getElem?_map]
    cases t.chunks[i]? with
    | none => rfl
    | some piece => rfl
  have payload : t.parts.payload i =
      field t.file_id ++ field (i + 1) ++ field t.parts.parts.length ++ t.parts.part i := rfl
  rw [payload, List.take_append, before, List.take_of_length_le (by omega), ← t.length_cut, ← part]
  rfl

theorem whole_cut_iff : t.cut.whole = ⟨t.file_id, t.file_data⟩ ↔ min t.chunk_size t.file_data.length ≤ 4062 := by
  have together : t.chunks.flatten = t.file_data := Chunks.flatten_chunks t.positive t.file_data
  have pieces : t.cut.whole = ⟨t.file_id, t.file_data⟩ ↔ ∀ piece ∈ t.chunks, piece.length ≤ 4062 := by
    rw [← Chunks.flatten_map_take_eq_iff, together]
    constructor
    · exact fun same => congrArg Written.content same
    · exact fun same => congrArg (Written.mk t.file_id) same
  rw [pieces]
  constructor
  · intro each
    have first := each (t.chunk 0) (List.mem_map_of_mem (List.mem_range.mpr (Chunks.total_pos t.positive t.nonempty)))
    rw [chunk, Chunks.length_chunk_zero] at first
    exact first
  · rintro fits piece member
    obtain ⟨i, _, rfl⟩ := List.mem_map.mp member
    exact (Chunks.length_chunk_le t.chunk_size t.file_data i).trans fits

section Sent
variable {t} {node_id destination_id : Int} {times : Nat → Int} {packets : List Packet} {sent : List (List UInt8)}
  (built : sendFileToNearestSatellite node_id destination_id t.file_id t.file_data t.chunk_size times = .ok packets)
  (serialized : packets.mapM Packet.serialize = .ok sent)
include built serialized

theorem mem_sent {bytes : List UInt8} (member : bytes ∈ sent) :
    ∃ p : Packet, p.serialize = .ok bytes ∧ p.type = .fileTransfer ∧
      ∃ i, i < t.cut.parts.length ∧ p.payload.take 4074 = t.cut.payload i := by
  obtain ⟨p, known, written⟩ := (mem_of_mapM serialized).2 bytes member
  rw [← Except.ok.inj ((t.sent_eq node_id destination_id times).symm.trans built)] at known
  obtain ⟨i, inside, rfl⟩ := List.mem_map.mp known
  refine ⟨_, written, rfl, i, ?_, (t.payload_cut i).symm⟩
  rw [t.length_cut]
  exact t.length_chunks.symm ▸ List.mem_range.mp inside

theorem exists_sent {i : Nat} (inside : i < t.cut.parts.length) :
    ∃ bytes ∈ sent, ∃ p : Packet, p.serialize = .ok bytes ∧ p.payload.take 4074 = t.cut.payload i := by
  rw [t.length_cut] at inside
  obtain ⟨p, known, same⟩ := (t.sent_payloads built (t.parts.payload i)).mpr ⟨i, inside, rfl⟩
  obtain ⟨bytes, member, written⟩ := (mem_of_mapM serialized).1 p known
  exact ⟨bytes, member, p, written, by rw [← same, t.payload_cut]⟩

/-- What a connection with a packet of the file is read as. -/
theorem deserialize_arrival {now : Int} {arrived : List UInt8} (relayed : ∃ bytes ∈ sent, Relayed bytes arrived) :
    read arrived ≠ [] ∧ ∃ q, Packet.deserialize now (read arrived) = .ok q ∧ q.type = .fileTransfer ∧
      ∃ i, i < t.cut.parts.length ∧ q.payload = t.cut.payload i := by
  obtain ⟨bytes, member, passed⟩ := relayed
  obtain ⟨p, written, type, i, inside, content⟩ := mem_sent built serialized member
  obtain ⟨filled, q, known, type', _, content'⟩ := Packet.deserialize_relayed written passed now
  exact ⟨filled, q, known, type'.trans type, i, inside, content'.trans content⟩

/-- Where each connection brings a packet of the file, what is written is the file as far as one read goes, and it is
written when all packets have come. -/
theorem handleConnections_cut {files : ReceivingFiles} (fresh : files.lookup t.file_id = none)
    {arrivals : List (Int × List UInt8)} (relayed : ∀ a ∈ arrivals, ∃ bytes ∈ sent, Relayed bytes a.2) :
    (∀ file, .written file ∈ (handleConnections files arrivals).2 → file = t.cut.whole) ∧
      ((∀ bytes ∈ sent, ∃ a ∈ arrivals, Relayed bytes a.2) →
        .written t.cut.whole ∈ (handleConnections files arrivals).2) := by
  have each : ∀ a ∈ arrivals, read a.2 ≠ [] ∧
      ∃ q, Packet.deserialize a.1 (read a.2) = .ok q ∧ q.type = .fileTransfer := by
    intro a arrived
    obtain ⟨filled, q, known, type, _⟩ := deserialize_arrival built serialized (relayed a arrived)
    exact ⟨filled, q, known, type⟩
  have intact : ∀ q ∈ arrivals.filterMap opened, ∃ parts ∈ [t.cut], ∃ i, i < parts.parts.length ∧
      q.payload = parts.payload i := by
    intro q found
    obtain ⟨a, arrived, here⟩ := List.mem_filterMap.mp found
    obtain ⟨_, q', known, _, i, inside, content⟩ := deserialize_arrival built serialized (relayed a arrived)
    obtain rfl := Option.some.inj (here.symm.trans (opened_eq_some known))
    exact ⟨t.cut, List.mem_cons_self, i, inside, content⟩
  have alone : ∀ parts ∈ [t.cut], files.lookup parts.file_id = none := by
    intro parts member
    rw [List.mem_singleton.mp member]
    exact fresh
  have distinct : ([t.cut].map Parts.file_id).Nodup := List.nodup_singleton t.cut.file_id
  obtain ⟨writes, complete⟩ := handleAll_parts distinct alone intact
  rw [handleConnections_eq each files]
  constructor
  · intro file member
    obtain ⟨file', member', same⟩ := List.mem_map.mp member
    obtain ⟨parts, only, rfl⟩ := writes file' member'
    rw [← Handled.written.inj same, List.mem_singleton.mp only]
  · intro every
    refine List.mem_map_of_mem (complete t.cut List.mem_cons_self fun i inside => ?_)
    obtain ⟨bytes, member, p, written, content⟩ := exists_sent built serialized inside
    obtain ⟨a, arrived, passed⟩ := every bytes member
    obtain ⟨_, q, known, _, _, content'⟩ := Packet.deserialize_relayed written passed a.1
    exact ⟨q, List.mem_filterMap.mpr ⟨a, arrived, opened_eq_some known⟩, content'.trans content⟩

theorem exists_arrivals : ∃ arrivals : List (Int × List UInt8), (∀ a ∈ arrivals, ∃ bytes ∈ sent, Relayed bytes a.2) ∧
    ∀ bytes ∈ sent, ∃ a ∈ arrivals, Relayed bytes a.2 := by
  have each : ∀ bytes, ∃ arrived, bytes ∈ sent → Relayed bytes arrived := by
    intro bytes
    by_cases member : bytes ∈ sent
    · obtain ⟨p, written, type, _⟩ := mem_sent built serialized member
      obtain ⟨arrived, passed⟩ := Packet.exists_relayed written (Or.inr type)
      exact ⟨arrived, fun _ => passed⟩
    · exact ⟨[], fun impossible => absurd impossible member⟩
  choose arrived passed using each
  refine ⟨sent.map fun bytes => (0, arrived bytes), fun a known => ?_, fun bytes member => ?_⟩
  · obtain ⟨bytes, member, rfl⟩ := List.mem_map.mp known
    exact ⟨bytes, member, passed bytes member⟩
  · exact ⟨_, List.mem_map_of_mem member, passed bytes member⟩

theorem handleConnections_whole_iff {files : ReceivingFiles} (fresh : files.lookup t.file_id = none) :
    (∀ arrivals, (∀ a ∈ arrivals, ∃ bytes ∈ sent, Relayed bytes a.2) →
      ∀ file, .written file ∈ (handleConnections files arrivals).2 → file = ⟨t.file_id, t.file_data⟩) ↔
      min t.chunk_size t.file_data.length ≤ 4062 := by
  rw [← t.whole_cut_iff]
  constructor
  · intro always
    obtain ⟨arrivals, relayed, every⟩ := exists_arrivals built serialized
    exact always arrivals relayed t.cut.whole ((handleConnections_cut built serialized fresh relayed).2 every)
  · intro whole arrivals relayed file member
    rw [(handleConnections_cut built serialized fresh relayed).1 file member, whole]

end Sent
end Transfer

theorem exists_transfer {node_id destination_id : Int} {file_id chunk_size : Nat} {file_data : List UInt8}
    {times : Nat → Int} {packets : List Packet} (positive : 0 < chunk_size) (nonempty : 0 < file_data.length)
    (built : sendFileToNearestSatellite node_id destination_id file_id file_data chunk_size times = .ok packets) :
    ∃ t : Transfer, t.file_id = file_id ∧ t.file_data = file_data ∧ t.chunk_size = chunk_size := by
  have first : 0 ∈ List.range ((file_data.length + chunk_size - 1) / chunk_size) :=
    List.mem_range.mpr (Chunks.total_pos positive nonempty)
  obtain ⟨_, _, run⟩ := (mem_of_mapM built).1 0 first
  obtain ⟨_, id, afterId⟩ := bind_eq_ok.mp run
  obtain ⟨_, _, afterNumber⟩ := bind_eq_ok.mp afterId
  obtain ⟨_, total, _⟩ := bind_eq_ok.mp afterNumber
  have id_fits : file_id < 256 ^ 4 := by exact_mod_cast (pack_eq_ok.mp id).1.2
  have few : Chunks.total file_data.length chunk_size < 256 ^ 4 := by exact_mod_cast (pack_eq_ok.mp total).1.2
  exact ⟨⟨file_id, file_data, chunk_size, id_fits, nonempty, positive, few⟩, rfl, rfl, rfl⟩

theorem file_whole_iff {node_id destination_id : Int} {file_id chunk_size : Nat} (positive : 0 < chunk_size)
    {file_data : List UInt8} {times : Nat → Int} {packets : List Packet}
    (built : sendFileToNearestSatellite node_id destination_id file_id file_data chunk_size times = .ok packets)
    {chunks : List (List UInt8)} (serialized : packets.mapM Packet.serialize = .ok chunks) {files : ReceivingFiles}
    (fresh : files.lookup file_id = none) :
    (∀ arrivals, (∀ a ∈ arrivals, ∃ bytes ∈ chunks, Relayed bytes a.2) →
      ∀ file, .written file ∈ (handleConnections files arrivals).2 → file = ⟨file_id, file_data⟩) ↔
      min chunk_size file_data.length ≤ 4062 := by
  rcases Nat.eq_zero_or_pos file_data.length with empty | nonempty
  · -- an empty file has no packets, so nothing arrives
    obtain rfl := List.eq_nil_of_length_eq_zero empty
    have none : packets = [] := by
      have total : (0 + chunk_size - 1) / chunk_size = 0 := Nat.div_eq_of_lt (by omega)
      rw [sendFileToNearestSatellite, List.length_nil, total] at built
      exact (Except.ok.inj built).symm
    subst none
    cases serialized
    refine iff_of_true (fun arrivals relayed file member => ?_) (by simp)
    obtain rfl : arrivals = [] := List.eq_nil_iff_forall_not_mem.mpr fun a arrived => by
      obtain ⟨_, impossible, _⟩ := relayed a arrived
      cases impossible
    cases member
  · obtain ⟨t, rfl, rfl, rfl⟩ := exists_transfer positive nonempty built
    exact Transfer.handleConnections_whole_iff built serialized fresh

/-- One read hides the end of a longer packet from `deserialize`. -/
theorem deserialize_long {available : List UInt8} (long : 4096 < available.length) (now : Int) :
    (∀ p, Packet.deserialize now (read available) ≠ .ok p) ↔
      ∀ type, PacketType.ofValue (available.getD 8 0).toNat ≠ .ok type := by
  obtain ⟨f, rfl, typeByte, _⟩ := @Frame.exists_bytes available (by omega)
  have byte : f.cut.type = f.bytes.getD 8 0 := typeByte
  rw [Frame.read_bytes, Frame.deserialize_bytes, ← byte]
  constructor
  · intro never type valid
    rw [valid, ok_bind] at never
    exact never _ rfl
  · intro invalid p known
    obtain ⟨type, valid, _⟩ := bind_eq_ok.mp known
    exact invalid type valid

/-- A message of at most 4074 bytes comes through whole where it encodes a text, and no other does; a file is written as
it was sent if its chunks have at most 4062 bytes, and can be written otherwise if they have more; and a packet of more
than 4096 bytes is not taken for a whole one only where its type is none. -/
theorem delivered_whole_iff {made node_id destination_id : Int} {payload sent arrived : List UInt8}
    (written : (sendToNearestSatellite made node_id destination_id payload).serialize = .ok sent)
    (relayed : Relayed sent arrived) {file_id chunk_size : Nat} (positive : 0 < chunk_size) {file_data : List UInt8}
    {times : Nat → Int} {packets : List Packet}
    (built : sendFileToNearestSatellite node_id destination_id file_id file_data chunk_size times = .ok packets)
    {chunks : List (List UInt8)} (serialized : packets.mapM Packet.serialize = .ok chunks) {files : ReceivingFiles}
    (fresh : files.lookup file_id = none) (available : List UInt8) (now : Int) :
    ((∃ text, (handleConnection now files arrived).2 = some (.message node_id text) ∧ encode text = payload) ↔
        payload.length ≤ 4074 ∧ ∃ text, encode text = payload) ∧
      ((∀ arrivals, (∀ a ∈ arrivals, ∃ bytes ∈ chunks, Relayed bytes a.2) →
          ∀ file, .written file ∈ (handleConnections files arrivals).2 → file = ⟨file_id, file_data⟩) ↔
        min chunk_size file_data.length ≤ 4062) ∧
      ((4096 < available.length → ∀ p, Packet.deserialize now (read available) ≠ .ok p) ↔
        available.length ≤ 4096 ∨ ∀ type, PacketType.ofValue (available.getD 8 0).toNat ≠ .ok type) := by
  refine ⟨message_whole_iff written relayed now files, file_whole_iff positive built serialized fresh, ?_⟩
  rcases Nat.lt_or_ge 4096 available.length with long | short
  · rw [← deserialize_long long now, or_iff_right (by omega)]
    exact ⟨fun never => never long, fun never _ => never⟩
  · exact iff_of_true (fun long => by omega) (Or.inl short)

namespace longMessage

def satellite : SatelliteNode := ⟨101, [⟨"127.0.0.1", 35003, 3⟩], []⟩

/-- Node 1 greets node 3. -/
def greeting : List UInt8 := [0, 0, 0, 1, 0, 0, 0, 3, 4, 1, 0, 0, 0, 0, 0, 0, 0, 0, 0, 0, 0, 0, 104, 105]

/-- The packets of the file of three bytes. -/
def packets : List Packet := [shuffled.first, shuffled.second]

def chunks : List (List UInt8) :=
  [[0, 0, 0, 1, 0, 0, 0, 3, 5, 1, 0, 0, 0, 1, 0, 0, 0, 0, 0, 0, 0, 0, 0, 0, 0, 7, 0, 0, 0, 1, 0, 0, 0, 2, 1, 2],
    [0, 0, 0, 1, 0, 0, 0, 3, 5, 1, 0, 0, 0, 2, 0, 0, 0, 0, 0, 0, 0, 0, 0, 0, 0, 7, 0, 0, 0, 2, 0, 0, 0, 2, 3]]

theorem relayed_greeting : Relayed greeting greeting := by
  have member : (⟨"127.0.0.1", 35003, greeting⟩ : Sending) ∈ satellite.handleConnection 0 greeting := by decide
  exact .first satellite 0 member

theorem delivered_whole_iff_greeting :
    ((∃ text, (handleConnection 5 ∅ greeting).2 = some (.message 1 text) ∧ encode text = [104, 105]) ↔
        [(104 : UInt8), 105].length ≤ 4074 ∧ ∃ text, encode text = [104, 105]) ∧
      ((∀ arrivals, (∀ a ∈ arrivals, ∃ bytes ∈ chunks, Relayed bytes a.2) →
          ∀ file, .written file ∈ (handleConnections ∅ arrivals).2 → file = ⟨7, [1, 2, 3]⟩) ↔
        min 2 [(1 : UInt8), 2, 3].length ≤ 4062) ∧
      ((4096 < greeting.length → ∀ p, Packet.deserialize 5 (read greeting) ≠ .ok p) ↔
        greeting.length ≤ 4096 ∨ ∀ type, PacketType.ofValue (greeting.getD 8 0).toNat ≠ .ok type) :=
  @delivered_whole_iff 0 1 3 [104, 105] greeting greeting (by decide) relayed_greeting 7 2 (by decide) [1, 2, 3]
    (fun _ => 0) packets (by decide) chunks (by decide) ∅ (Finmap.lookup_empty 7) greeting 5

/-- A text of `n` letters A. -/
def letters (n : Nat) : String := String.ofList (List.replicate n 'A')

theorem encode_letters (n : Nat) : encode (letters n) = List.replicate n 65 := by
  rw [encode, letters, String.toList_ofList]
  induction n with
  | zero => rfl
  | succ n ih =>
    rw [List.replicate_succ, List.flatMap_cons, ih]
    rfl

/-- Of a message of 4075 letters the last one is lost at the first satellite. -/
theorem handleConnection_short :
    ∃ sent arrived, (sendToNearestSatellite 0 1 3 (encode (letters 4075))).serialize = .ok sent ∧
      Relayed sent arrived ∧ (handleConnection 5 ∅ arrived).2 = some (.message 1 (letters 4074)) ∧
      encode (letters 4074) ≠ encode (letters 4075) := by
  have inRange : (sendToNearestSatellite 0 1 3 (encode (letters 4075))).InRange := by constructor <;> decide
  obtain ⟨f, serialized, _⟩ := Frame.exists_serialize inRange
  obtain ⟨arrived, relayed⟩ := Packet.exists_relayed serialized (Or.inl rfl)
  have cut : decode ((encode (letters 4075)).take 4074) = some (letters 4074) := by
    rw [decode_eq_some, encode_letters, encode_letters, List.take_replicate, Nat.min_eq_left (by omega)]
  have seen := handleConnection_message serialized relayed 5 ∅
  rw [cut] at seen
  refine ⟨f.bytes, arrived, serialized, relayed, seen, fun same => ?_⟩
  have lengths := congrArg List.length same
  rw [encode_letters, encode_letters, List.length_replicate, List.length_replicate] at lengths
  omega

end longMessage
end Nexus.Python
