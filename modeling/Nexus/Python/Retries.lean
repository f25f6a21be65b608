import Nexus.Python.Delivered

namespace Nexus.Python
open GroundNode Collect

/-- How a try to send a packet ends: in an exception before the packet is written, in one after that, or well. -/
inductive Try
  | refused
  | broken (arrived : Bool)
  | done
  deriving DecidableEq

def Try.arrives : Try → Bool
  | refused => false
  | broken arrived => arrived
  | done => true

/-- What gets through in a loop over tries, each with the packet that it writes. -/
def retry : List (Packet × Try) → List (List UInt8)
  | [] => []
  | (packet, outcome) :: later =>
    match packet.serialize, outcome with
    | .ok bytes, .done => [bytes]
    | .ok bytes, .broken true => bytes :: retry later
    | _, _ => retry later

/-- What gets through of a message, for which every try makes a packet. -/
def messageTries (max_retries : Nat) (packet : Nat → Packet) (outcome : Nat → Try) : List (List UInt8) :=
  retry ((List.range max_retries).map fun k => (packet k, outcome k))

/-- What gets through of a file; a chunk whose tries all fail is passed over. -/
def fileTries (max_retries : Nat) (packets : List Packet) (outcome : Nat → Nat → Try) : List (List UInt8) :=
  packets.zipIdx.flatMap fun (packet, i) => retry ((List.range max_retries).map fun k => (packet, outcome i k))

section Loops
variable {tries : List (Packet × Try)} {bytes : List UInt8}

theorem mem_retry (member : bytes ∈ retry tries) : ∃ t ∈ tries, t.1.serialize = .ok bytes ∧ t.2.arrives = true := by
  induction tries with
  | nil => cases member
  | cons t later ih =>
    obtain ⟨packet, outcome⟩ := t
    have next : bytes ∈ retry later →
        ∃ t ∈ (packet, outcome) :: later, t.1.serialize = .ok bytes ∧ t.2.arrives = true := by
      intro after
      obtain ⟨t, known, found⟩ := ih after
      exact ⟨t, List.mem_cons_of_mem _ known, found⟩
    unfold retry at member
    split at member
    next bytes' written =>
      obtain rfl := List.mem_singleton.mp member
      exact ⟨_, List.mem_cons_self, written, rfl⟩
    next bytes' written =>
      rcases List.mem_cons.mp member with rfl | after
      · exact ⟨_, List.mem_cons_self, written, rfl⟩
      · exact next after
    next => exact next member

/-- Of one packet something gets through exactly if a try does. -/
theorem mem_retry_iff {packet : Packet} {outcomes : List Try} :
    bytes ∈ retry (outcomes.map fun outcome => (packet, outcome)) ↔
      packet.serialize = .ok bytes ∧ ∃ outcome ∈ outcomes, outcome.arrives = true := by
  constructor
  · intro member
    obtain ⟨t, known, written, arrives⟩ := mem_retry member
    obtain ⟨outcome, given, rfl⟩ := List.mem_map.mp known
    exact ⟨written, outcome, given, arrives⟩
  · rintro ⟨written, outcome, given, arrives⟩
    induction outcomes with
    | nil => cases given
    | cons first later ih =>
      rw [List.map_cons]
      by_cases through : first.arrives = true
      · cases first with
        | refused => cases through
        | broken arrived =>
          obtain rfl : arrived = true := through
          simp [retry, written]
        | done => simp [retry, written]
      · have after : outcome ∈ later := by
          rcases List.mem_cons.mp given with rfl | after
          · exact absurd arrives through
          · exact after
        cases first with
        | refused => simpa [retry, written] using ih after
        | broken arrived =>
          obtain rfl : arrived = false := by simpa [Try.arrives] using through
          simpa [retry, written] using ih after
        | done => exact absurd rfl through

theorem mem_fileTries {max_retries : Nat} {packets : List Packet} {outcome : Nat → Nat → Try} :
    bytes ∈ fileTries max_retries packets outcome ↔
      ∃ i packet, packets[i]? = some packet ∧ packet.serialize = .ok bytes ∧
        ∃ k < max_retries, (outcome i k).arrives = true := by
  have same : ∀ (packet : Packet) (i : Nat), (List.range max_retries).map (fun k => (packet, outcome i k)) =
      ((List.range max_retries).map (outcome i)).map fun outcome => (packet, outcome) := by
    intro packet i
    rw [List.map_map]
    rfl
  simp only [fileTries, List.mem_flatMap, Prod.exists, List.mem_zipIdx_iff_getElem?, same, mem_retry_iff, List.mem_map,
    List.mem_range]
  constructor
  · rintro ⟨packet, i, known, written, _, ⟨k, few, rfl⟩, arrives⟩
    exact ⟨i, packet, known, written, k, few, arrives⟩
  · rintro ⟨i, packet, known, written, k, few, arrives⟩
    exact ⟨packet, i, known, written, _, ⟨k, few, rfl⟩, arrives⟩

end Loops

section Missing
variable {t : Parts} {files : ReceivingFiles} {i : Nat}

/-- Only chunks of the file are held, and not one of them. -/
def Lacks (t : Parts) (files : ReceivingFiles) (i : Nat) : Prop :=
  Within t.parts (entryOf t files).received_chunks ∧ (entryOf t files).received_chunks.lookup (i + 1) = none

/-- Nothing is written for any other chunk. -/
theorem Lacks.handleFileTransfer (lacks : Lacks t files i) (inside : i < t.parts.length) {packet : Packet} {j : Nat}
    (inside' : j < t.parts.length) (other : j ≠ i) (carries : packet.payload = t.payload j) :
    (handleFileTransfer files packet).2 = none ∧ Lacks t (handleFileTransfer files packet).1 i := by
  have within : Within t.parts (slotsWith t files j) := lacks.1.keep (piece_of inside')
  have missing : (slotsWith t files j).lookup (i + 1) = none := by
    have apart : i + 1 ≠ (piece t j).number := by
      show i + 1 ≠ j + 1
      omega
    rw [slotsWith, lookup_keep, if_neg apart]
    exact lacks.2
  have few : (slotsWith t files j).keys.card ≠ t.parts.length := (within.card_lt inside missing).ne
  have entry : entryOf t (filesWith t files j) = { entryOf t files with received_chunks := slotsWith t files j } := by
    rw [entryOf, filesWith, Finmap.lookup_insert]
    rfl
  rw [handleFileTransfer_eq inside' carries, if_neg few]
  refine ⟨rfl, ?_, ?_⟩
  · rw [entry]
    exact within
  · rw [entry]
    exact missing

/-- Without one of its chunks nothing is written of a file. -/
theorem Lacks.handleAll (lacks : Lacks t files i) (inside : i < t.parts.length) {arrivals : List Packet}
    (others : ∀ p ∈ arrivals, ∃ j, j < t.parts.length ∧ j ≠ i ∧ p.payload = t.payload j) :
    (handleAll files arrivals).2 = [] := by
  induction arrivals generalizing files with
  | nil => rfl
  | cons packet later ih =>
    obtain ⟨⟨j, inside', other, carries⟩, rest⟩ := List.forall_mem_cons.mp others
    obtain ⟨nothing, lacks'⟩ := lacks.handleFileTransfer inside inside' other carries
    rw [GroundNode.handleAll, nothing, ih lacks' rest]
    rfl

theorem lacks_of_fresh (fresh : files.lookup t.file_id = none) (i : Nat) : Lacks t files i := by
  rw [Lacks, entryOf, fresh]
  exact ⟨Within.empty, Finmap.lookup_empty (i + 1)⟩

end Missing

section Sent
variable {t : Transfer} {node_id destination_id : Int} {times : Nat → Int} {packets : List Packet}
  (built : sendFileToNearestSatellite node_id destination_id t.file_id t.file_data t.chunk_size times = .ok packets)
include built

theorem getElem?_packets {i : Nat} {packet : Packet} (known : packets[i]? = some packet) :
    i < t.cut.parts.length ∧ packet.type = .fileTransfer ∧ packet.payload.take 4074 = t.cut.payload i := by
  rw [← Except.ok.inj ((t.sent_eq node_id destination_id times).symm.trans built), List.getElem?_map] at known
  obtain ⟨i', found, rfl⟩ := Option.map_eq_some_iff.mp known
  obtain ⟨inside, rfl⟩ := List.getElem?_eq_some_iff.mp found
  rw [List.getElem_range, t.length_cut]
  rw [List.length_range] at inside
  exact ⟨t.length_chunks.symm ▸ inside, rfl, (t.payload_cut i).symm⟩

/-- Without a try of one of the chunks that gets through nothing is written. -/
theorem handleConnections_missing {max_retries : Nat} {outcome : Nat → Nat → Try} {files : ReceivingFiles}
    (fresh : files.lookup t.file_id = none) {arrivals : List (Int × List UInt8)}
    (relayed : ∀ a ∈ arrivals, ∃ bytes ∈ fileTries max_retries packets outcome, Relayed bytes a.2) {i : Nat}
    (inside : i < t.cut.parts.length) (never : ∀ k < max_retries, (outcome i k).arrives = false) :
    (handleConnections files arrivals).2 = [] := by
  have opens : ∀ a ∈ arrivals, read a.2 ≠ [] ∧ ∃ q, Packet.deserialize a.1 (read a.2) = .ok q ∧
      q.type = .fileTransfer ∧ ∃ j, j < t.cut.parts.length ∧ j ≠ i ∧ q.payload = t.cut.payload j := by
    intro a arrived
    obtain ⟨bytes, through, passed⟩ := relayed a arrived
    obtain ⟨j, packet, known, written, k, few, arrives⟩ := mem_fileTries.mp through
    obtain ⟨inside', type, content⟩ := getElem?_packets built known
    obtain ⟨filled, q, opens, type', -, content'⟩ := Packet.deserialize_relayed written passed a.1
    refine ⟨filled, q, opens, type'.trans type, j, inside', ?_, content'.trans content⟩
    rintro rfl
    rw [never k few] at arrives
    cases arrives
  have others : ∀ q ∈ arrivals.filterMap opened, ∃ j, j < t.cut.parts.length ∧ j ≠ i ∧
      q.payload = t.cut.payload j := by
    intro q found
    obtain ⟨a, arrived, here⟩ := List.mem_filterMap.mp found
    obtain ⟨_, q', known, _, rest⟩ := opens a arrived
    obtain rfl := Option.some.inj (here.symm.trans (opened_eq_some known))
    exact rest
  have each : ∀ a ∈ arrivals, read a.2 ≠ [] ∧
      ∃ q, Packet.deserialize a.1 (read a.2) = .ok q ∧ q.type = .fileTransfer := by
    intro a arrived
    obtain ⟨filled, q, known, type, _⟩ := opens a arrived
    exact ⟨filled, q, known, type⟩
  have fresh' : files.lookup t.cut.file_id = none := fresh
  rw [handleConnections_eq each files, (lacks_of_fresh fresh' i).handleAll inside others]
  rfl

end Sent

/-- A file that is sent with retries is written exactly if a try of each of its chunks gets through, when everything
that gets through is relayed, in any order and however often, and nothing else is written. What is written is the whole
file unless its chunks are too large for one read. -/
theorem fileTries_written_iff (t : Transfer) {node_id destination_id : Int} {times : Nat → Int} {packets : List Packet}
    (built : sendFileToNearestSatellite node_id destination_id t.file_id t.file_data t.chunk_size times = .ok packets)
    {sent : List (List UInt8)} (serialized : packets.mapM Packet.serialize = .ok sent)
    (max_retries : Nat) (outcome : Nat → Nat → Try) {files : ReceivingFiles}
    (fresh : files.lookup t.file_id = none) {arrivals : List (Int × List UInt8)}
    (relayed : ∀ a ∈ arrivals, ∃ bytes ∈ fileTries max_retries packets outcome, Relayed bytes a.2)
    (every : ∀ bytes ∈ fileTries max_retries packets outcome, ∃ a ∈ arrivals, Relayed bytes a.2) :
    (.written t.cut.whole ∈ (handleConnections files arrivals).2 ↔
        ∀ i < t.total_chunks, ∃ k < max_retries, (outcome i k).arrives = true) ∧
      (∀ file, .written file ∈ (handleConnections files arrivals).2 → file = t.cut.whole) ∧
      (t.cut.whole = ⟨t.file_id, t.file_data⟩ ↔ min t.chunk_size t.file_data.length ≤ 4062) := by
  have among : ∀ bytes ∈ fileTries max_retries packets outcome, bytes ∈ sent := by
    intro bytes through
    obtain ⟨i, packet, known, written, _⟩ := mem_fileTries.mp through
    obtain ⟨bytes', member, same⟩ := (mem_of_mapM serialized).1 packet (List.mem_of_getElem? known)
    exact Except.ok.inj (same.symm.trans written) ▸ member
  have relayed' : ∀ a ∈ arrivals, ∃ bytes ∈ sent, Relayed bytes a.2 := by
    intro a arrived
    obtain ⟨bytes, through, passed⟩ := relayed a arrived
    exact ⟨bytes, among bytes through, passed⟩
  obtain ⟨only, complete⟩ := Transfer.handleConnections_cut built serialized fresh relayed'
  have count : t.cut.parts.length = t.total_chunks := t.length_cut.trans t.length_chunks
  refine ⟨⟨fun written i inside => ?_, fun through => complete fun bytes member => ?_⟩, only, t.whole_cut_iff⟩
  · by_contra never
    simp only [not_exists, not_and, Bool.not_eq_true] at never
    rw [handleConnections_missing built fresh relayed (count ▸ inside) never] at written
    cases written
  · obtain ⟨packet, known, written⟩ := (mem_of_mapM serialized).2 bytes member
    obtain ⟨i, found⟩ := List.mem_iff_getElem?.mp known
    exact every bytes (mem_fileTries.mpr
      ⟨i, packet, found, written, through i (count ▸ (getElem?_packets built found).1)⟩)

namespace longMessage

/-- The first chunk is written once in vain, once before its connection breaks, and then well. -/
def unsteady (i k : Nat) : Try :=
  if i = 0 then (if k = 0 then .refused else if k = 1 then .broken true else .done) else .done

theorem relayed_chunks : ∀ bytes ∈ chunks, Relayed bytes bytes := by
  have member : ∀ bytes ∈ chunks, (⟨"127.0.0.1", 35003, bytes⟩ : Sending) ∈ satellite.handleConnection 0 bytes := by
    decide
  exact fun bytes known => .first satellite 0 (member bytes known)

theorem fileTries_written_iff_unsteady :
    (.written shuffled.transfer.cut.whole ∈
        (handleConnections ∅ ((fileTries 3 packets unsteady).map fun bytes => (5, bytes))).2 ↔
      ∀ i < shuffled.transfer.total_chunks, ∃ k < 3, (unsteady i k).arrives = true) ∧
    (∀ file, .written file ∈ (handleConnections ∅ ((fileTries 3 packets unsteady).map fun bytes => (5, bytes))).2 →
      file = shuffled.transfer.cut.whole) ∧
    (shuffled.transfer.cut.whole = ⟨7, [1, 2, 3]⟩ ↔ min 2 [(1 : UInt8), 2, 3].length ≤ 4062) := by
  have built : sendFileToNearestSatellite 1 3 7 [1, 2, 3] 2 (fun _ => 0) = .ok packets := by decide
  have serialized : packets.mapM Packet.serialize = .ok chunks := by decide
  have through : ∀ bytes ∈ fileTries 3 packets unsteady, bytes ∈ chunks := by decide
  refine fileTries_written_iff shuffled.transfer built serialized 3 unsteady (Finmap.lookup_empty 7) ?_ ?_
  · intro a arrived
    obtain ⟨bytes, known, rfl⟩ := List.mem_map.mp arrived
    exact ⟨bytes, known, relayed_chunks bytes (through bytes known)⟩
  · intro bytes known
    exact ⟨_, List.mem_map_of_mem known, relayed_chunks bytes (through bytes known)⟩

example : (fileTries 3 packets unsteady).length = 3 := by decide

end longMessage
end Nexus.Python
