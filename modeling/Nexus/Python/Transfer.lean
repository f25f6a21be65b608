import Nexus.Python.GroundNode

namespace Nexus.Python
open Collect GroundNode

/-- The parts of a file under its id, as many as the metadata can count. -/
structure Parts where
  file_id : Nat
  parts : List (List UInt8)
  id_fits : file_id < 256 ^ 4
  nonempty : 0 < parts.length
  few : parts.length < 256 ^ 4

/-- The bytes of a number in network order. -/
def field (n : Nat) : List UInt8 := (ByteOrder.digits 4 n).reverse

theorem length_field (n : Nat) : (field n).length = 4 := by
  rw [field, List.length_reverse, ByteOrder.length_digits]

theorem pack_natCast {n : Nat} (small : n < 256 ^ 4) : pack 4 n = .ok (field n) :=
  pack_eq_ok.mpr ⟨⟨Int.natCast_nonneg n, by exact_mod_cast small⟩, rfl⟩

theorem value_field {n : Nat} (small : n < 256 ^ 4) : ByteOrder.value (field n).reverse = n := by
  rw [field, List.reverse_reverse, ByteOrder.value_digits small]

namespace Parts
variable (t : Parts)

def part (i : Nat) : List UInt8 := t.parts.getD i []

/-- The metadata and the part at position `i`. -/
def payload (i : Nat) : List UInt8 := field t.file_id ++ field (i + 1) ++ field t.parts.length ++ t.part i

def whole : Written := ⟨t.file_id, t.parts.flatten⟩

theorem getElem?_parts {i : Nat} (inside : i < t.parts.length) : t.parts[i]? = some (t.part i) := by
  simp [part, inside]

theorem map_part : (List.range t.parts.length).map t.part = t.parts := by
  apply List.ext_getElem
  · rw [List.length_map, List.length_range]
  · intro i inside inside'
    simp [part, inside']

theorem length_payload (i : Nat) : (t.payload i).length = 12 + (t.part i).length := by
  simp only [payload, List.length_append, length_field]

theorem unpackMetadata_payload {i : Nat} (inside : i < t.parts.length) :
    unpackMetadata (t.payload i) = (t.file_id, i + 1, t.parts.length) := by
  have few := t.few
  have first : (t.payload i).take 4 = field t.file_id := by
    rw [payload, List.append_assoc, List.append_assoc, ← length_field t.file_id, List.take_left]
  have second : ((t.payload i).drop 4).take 4 = field (i + 1) := by
    rw [payload, List.append_assoc, List.append_assoc]
    nth_rewrite 2 [← length_field t.file_id]
    rw [List.drop_left, ← length_field (i + 1), List.take_left]
  have third : ((t.payload i).drop 8).take 4 = field t.parts.length := by
    have before : (field t.file_id ++ field (i + 1)).length = 8 := by
      rw [List.length_append, length_field, length_field]
    rw [payload, List.append_assoc, ← before, List.drop_left, ← length_field t.parts.length, List.take_left]
  rw [unpackMetadata, first, second, third, value_field t.id_fits, value_field (by omega), value_field few]

theorem drop_payload (i : Nat) : (t.payload i).drop 12 = t.part i := by
  have before : (field t.file_id ++ field (i + 1) ++ field t.parts.length).length = 12 := by
    simp only [List.length_append, length_field]
  rw [payload, ← before, List.drop_left]

theorem payload_inj {t t' : Parts} {i i' : Nat} (inside : i < t.parts.length) (inside' : i' < t'.parts.length)
    (same : t.payload i = t'.payload i') : t.file_id = t'.file_id ∧ i = i' := by
  have read := t.unpackMetadata_payload inside
  rw [same, t'.unpackMetadata_payload inside'] at read
  obtain ⟨id, rest⟩ := Prod.mk.inj read
  obtain ⟨number, _⟩ := Prod.mk.inj rest
  exact ⟨id.symm, by omega⟩

end Parts

section Receiver
variable {t : Parts} {files : ReceivingFiles} {packet : Packet} {i : Nat}

/-- What the receiver holds of a transfer: chunks of the file, and not all of them. -/
def Partial (t : Parts) (files : ReceivingFiles) : Prop :=
  ∀ entry, files.lookup t.file_id = some entry →
    Within t.parts entry.received_chunks ∧ entry.received_chunks.keys.card < t.parts.length

/-- The numbers of the chunks that the receiver holds of a transfer. -/
def Holds (files : ReceivingFiles) (t : Parts) (number : Nat) : Prop :=
  ∃ entry, files.lookup t.file_id = some entry ∧ number ∈ entry.received_chunks

section Untouched
variable {files files' : ReceivingFiles} (same : files'.lookup t.file_id = files.lookup t.file_id)
include same

theorem Partial.untouched (incomplete : Partial t files) : Partial t files' := fun entry present =>
  incomplete entry (same.symm.trans present)

theorem Holds.untouched {number : Nat} (holds : Holds files t number) : Holds files' t number := by
  obtain ⟨entry, present, held⟩ := holds
  exact ⟨entry, same.trans present, held⟩

end Untouched

theorem chunksOf_full {slots : Slots (List UInt8)} (within : Within t.parts slots)
    (full : slots.keys.card = t.parts.length) : chunksOf slots t.parts.length = some t.parts := by
  have each : chunksOf slots t.parts.length = pure ((List.range t.parts.length).map t.part) := by
    refine mapM_eq_pure fun i member => ?_
    have inside := List.mem_range.mp member
    exact (within.lookup_of_full full inside).trans (t.getElem?_parts inside)
  rw [each, t.map_part]
  rfl

/-- The entry of a transfer before a chunk comes. -/
def entryOf (t : Parts) (files : ReceivingFiles) : Receiving :=
  (files.lookup t.file_id).getD ⟨t.parts.length, ∅⟩

def piece (t : Parts) (i : Nat) : Piece (List UInt8) := ⟨i + 1, t.parts.length, t.part i⟩

theorem piece_of (inside : i < t.parts.length) : (piece t i).Of t.parts where
  count := rfl
  content := ⟨i, rfl, t.getElem?_parts inside⟩

def slotsWith (t : Parts) (files : ReceivingFiles) (i : Nat) : Slots (List UInt8) :=
  keep (entryOf t files).received_chunks (piece t i)

/-- The entries after a chunk has come. -/
def filesWith (t : Parts) (files : ReceivingFiles) (i : Nat) : ReceivingFiles :=
  files.insert t.file_id { entryOf t files with received_chunks := slotsWith t files i }

theorem handleFileTransfer_eq (inside : i < t.parts.length) (carries : packet.payload = t.payload i) :
    handleFileTransfer files packet =
      if (slotsWith t files i).keys.card = t.parts.length then
        match chunksOf (slotsWith t files i) t.parts.length with
        | some chunks => ((filesWith t files i).erase t.file_id, some ⟨t.file_id, chunks.flatten⟩)
        | none => (filesWith t files i, none)
      else (filesWith t files i, none) := by
  have long : ¬(t.payload i).length < 12 := by
    rw [t.length_payload]
    omega
  unfold handleFileTransfer
  rw [carries, if_neg long, t.drop_payload]
  generalize read : unpackMetadata (t.payload i) = metadata
  rw [t.unpackMetadata_payload inside] at read
  subst read
  rfl

theorem within_entryOf (incomplete : Partial t files) : Within t.parts (entryOf t files).received_chunks := by
  unfold entryOf
  cases known : files.lookup t.file_id with
  | none => exact Within.empty
  | some entry => exact (incomplete entry known).1

/-- A chunk either completes its file, which is written and given up, or is kept with those before it. -/
theorem handleFileTransfer_own (incomplete : Partial t files) (inside : i < t.parts.length)
    (carries : packet.payload = t.payload i) :
    (∃ files', handleFileTransfer files packet = (files', some t.whole) ∧
        files'.lookup t.file_id = none) ∨
      ∃ files', handleFileTransfer files packet = (files', none) ∧ Partial t files' ∧ Holds files' t (i + 1) ∧
        ∀ number, Holds files t number → Holds files' t number := by
  have within : Within t.parts (slotsWith t files i) := (within_entryOf incomplete).keep (piece_of inside)
  rw [handleFileTransfer_eq inside carries]
  by_cases full : (slotsWith t files i).keys.card = t.parts.length
  · refine Or.inl ⟨(filesWith t files i).erase t.file_id, ?_, Finmap.lookup_erase _ _⟩
    rw [if_pos full, chunksOf_full within full]
    rfl
  · have known : (filesWith t files i).lookup t.file_id = some _ := Finmap.lookup_insert _
    refine Or.inr ⟨filesWith t files i, if_neg full, ?_, ⟨_, known, Finmap.mem_insert.mpr (Or.inl rfl)⟩, ?_⟩
    · intro entry found
      obtain rfl := Option.some.inj (known.symm.trans found)
      have bound := Finset.card_le_card within.keys_subset
      rw [Nat.card_Icc] at bound
      exact ⟨within, lt_of_le_of_ne bound full⟩
    · rintro number ⟨entry, before, member⟩
      refine ⟨_, known, Finmap.mem_insert.mpr (Or.inr ?_)⟩
      rw [entryOf, before]
      exact member

theorem handleFileTransfer_other {t' : Parts} (inside : i < t.parts.length) (carries : packet.payload = t.payload i)
    (other : t'.file_id ≠ t.file_id) :
    (handleFileTransfer files packet).1.lookup t'.file_id = files.lookup t'.file_id := by
  have kept : (filesWith t files i).lookup t'.file_id = files.lookup t'.file_id := Finmap.lookup_insert_of_ne _ other
  rw [handleFileTransfer_eq inside carries]
  split
  · split
    · exact (Finmap.lookup_erase_ne other).trans kept
    · exact kept
  · exact kept

section Several
variable {transfers : List Parts} (distinct : (transfers.map Parts.file_id).Nodup)
include distinct

theorem handleFileTransfer_step {t₀ : Parts} (member₀ : t₀ ∈ transfers) (inside : i < t₀.parts.length)
    (carries : packet.payload = t₀.payload i) (incomplete : ∀ t ∈ transfers, Partial t files) :
    ∃ files' written, handleFileTransfer files packet = (files', written) ∧ (∀ t ∈ transfers, Partial t files') ∧
      (written = none ∨ written = some t₀.whole) ∧
      ∀ t ∈ transfers, written = some t.whole ∨
        (t = t₀ → Holds files' t (i + 1)) ∧ ∀ number, Holds files t number → Holds files' t number := by
  have others : ∀ t ∈ transfers, t ≠ t₀ →
      (handleFileTransfer files packet).1.lookup t.file_id = files.lookup t.file_id := by
    intro t member other
    refine handleFileTransfer_other inside carries fun same => other ?_
    exact List.inj_on_of_nodup_map distinct member member₀ same
  rcases handleFileTransfer_own (incomplete t₀ member₀) inside carries with
    ⟨files', run, gone⟩ | ⟨files', run, still, holds, kept⟩
  · rw [run] at others
    refine ⟨files', _, run, fun t member => ?_, Or.inr rfl, fun t member => ?_⟩
    · by_cases same : t = t₀
      · intro entry present
        rw [same, gone] at present
        cases present
      · exact (incomplete t member).untouched (others t member same)
    · by_cases same : t = t₀
      · exact Or.inl (by rw [same])
      · exact Or.inr ⟨fun equal => absurd equal same, fun _ holds => holds.untouched (others t member same)⟩
  · rw [run] at others
    refine ⟨files', _, run, fun t member => ?_, Or.inl rfl, fun t member => Or.inr ?_⟩
    · by_cases same : t = t₀
      · exact same ▸ still
      · exact (incomplete t member).untouched (others t member same)
    · by_cases same : t = t₀
      · subst same
        exact ⟨fun _ => holds, kept⟩
      · exact ⟨fun equal => absurd equal same, fun _ holds => holds.untouched (others t member same)⟩

/-- Whatever comes, only whole files are written; and a file that is not written is still held in part, with all chunks
that came. -/
theorem handleAll_run {arrivals : List Packet}
    (intact : ∀ p ∈ arrivals, ∃ t ∈ transfers, ∃ i, i < t.parts.length ∧ p.payload = t.payload i)
    (incomplete : ∀ t ∈ transfers, Partial t files) :
    (∀ written ∈ (handleAll files arrivals).2, ∃ t ∈ transfers, written = t.whole) ∧
      ∀ t ∈ transfers, t.whole ∈ (handleAll files arrivals).2 ∨
        Partial t (handleAll files arrivals).1 ∧
        (∀ number, Holds files t number → Holds (handleAll files arrivals).1 t number) ∧
        ∀ i p, i < t.parts.length → p ∈ arrivals → p.payload = t.payload i →
          Holds (handleAll files arrivals).1 t (i + 1) := by
  induction arrivals generalizing files with
  | nil =>
    refine ⟨fun written impossible => absurd impossible List.not_mem_nil, fun t member => Or.inr ?_⟩
    exact ⟨incomplete t member, fun number holds => holds, fun i p _ impossible => absurd impossible List.not_mem_nil⟩
  | cons packet later ih =>
    obtain ⟨⟨t₀, member₀, i₀, inside₀, carries₀⟩, others⟩ := List.forall_mem_cons.mp intact
    obtain ⟨files', written, run, incomplete', whole, progress⟩ :=
      handleFileTransfer_step distinct member₀ inside₀ carries₀ incomplete
    obtain ⟨writes, rest⟩ := ih others incomplete'
    simp only [handleAll, run]
    refine ⟨fun w member => ?_, fun t member => ?_⟩
    · rcases List.mem_append.mp member with first | after
      · rcases whole with rfl | rfl
        · cases first
        · exact ⟨t₀, member₀, List.mem_singleton.mp first⟩
      · exact writes w after
    · rcases progress t member with rfl | ⟨own, kept⟩
      · exact Or.inl (List.mem_append_left _ List.mem_cons_self)
      rcases rest t member with after | ⟨still, kept', occurred⟩
      · exact Or.inl (List.mem_append_right _ after)
      refine Or.inr ⟨still, fun number holds => kept' number (kept number holds), fun i p inside arrived carries => ?_⟩
      rcases List.mem_cons.mp arrived with rfl | after
      · obtain ⟨id, rfl⟩ := Parts.payload_inj inside inside₀ (carries.symm.trans carries₀)
        exact kept' _ (own (List.inj_on_of_nodup_map distinct member member₀ id))
      · exact occurred i p inside after carries

end Several

theorem not_partial_of_all (incomplete : Partial t files) (all : ∀ i, i < t.parts.length → Holds files t (i + 1)) :
    False := by
  obtain ⟨entry, present, _⟩ := all 0 t.nonempty
  obtain ⟨_, few⟩ := incomplete entry present
  have covered : Finset.Icc 1 t.parts.length ⊆ entry.received_chunks.keys := by
    intro j member
    obtain ⟨lower, upper⟩ := Finset.mem_Icc.mp member
    obtain ⟨entry', present', held⟩ := all (j - 1) (by omega)
    obtain rfl := Option.some.inj (present.symm.trans present')
    rw [Nat.sub_add_cancel lower] at held
    exact Finmap.mem_keys.mpr held
  have bound := Finset.card_le_card covered
  rw [Nat.card_Icc] at bound
  omega

theorem partial_of_fresh (fresh : files.lookup t.file_id = none) : Partial t files := by
  intro entry present
  rw [fresh] at present
  cases present

/-- Of files with ids of their own, whole ones are written and no others, and a file of which every part arrives is
written. -/
theorem handleAll_parts {transfers : List Parts} (distinct : (transfers.map Parts.file_id).Nodup)
    (fresh : ∀ t ∈ transfers, files.lookup t.file_id = none) {arrivals : List Packet}
    (intact : ∀ p ∈ arrivals, ∃ t ∈ transfers, ∃ i, i < t.parts.length ∧ p.payload = t.payload i) :
    (∀ written ∈ (handleAll files arrivals).2, ∃ t ∈ transfers, written = t.whole) ∧
      ∀ t ∈ transfers, (∀ i, i < t.parts.length → ∃ p ∈ arrivals, p.payload = t.payload i) →
        t.whole ∈ (handleAll files arrivals).2 := by
  obtain ⟨writes, progress⟩ := handleAll_run distinct intact fun t member => partial_of_fresh (fresh t member)
  refine ⟨writes, fun t member every => ?_⟩
  rcases progress t member with written | ⟨still, _, occurred⟩
  · exact written
  · refine (not_partial_of_all still fun i inside => ?_).elim
    obtain ⟨p, arrived, same⟩ := every i inside
    exact occurred i p inside arrived same

end Receiver

/-- A file that is sent in chunks. -/
structure Transfer where
  file_id : Nat
  file_data : List UInt8
  chunk_size : Nat
  id_fits : file_id < 256 ^ 4
  nonempty : 0 < file_data.length
  positive : 0 < chunk_size
  few : Chunks.total file_data.length chunk_size < 256 ^ 4

namespace Transfer
variable (t : Transfer)

def total_chunks : Nat := Chunks.total t.file_data.length t.chunk_size

def chunk (i : Nat) : List UInt8 := Chunks.chunk t.chunk_size t.file_data i

def chunks : List (List UInt8) := (List.range t.total_chunks).map t.chunk

theorem length_chunks : t.chunks.length = t.total_chunks := by
  rw [chunks, List.length_map, List.length_range]

def parts : Parts where
  file_id := t.file_id
  parts := t.chunks
  id_fits := t.id_fits
  nonempty := t.length_chunks.symm ▸ Chunks.total_pos t.positive t.nonempty
  few := t.length_chunks.symm ▸ t.few

theorem whole_parts : t.parts.whole = ⟨t.file_id, t.file_data⟩ :=
  congrArg (Written.mk t.file_id) (Chunks.flatten_chunks t.positive t.file_data)

theorem part_parts {i : Nat} (inside : i < t.total_chunks) : t.parts.part i = t.chunk i := by
  simp [Parts.part, parts, chunks, inside]

/-- The packets of a transfer carry its chunks in order. -/
theorem sent_eq (node_id destination_id : Int) (now : Nat → Int) :
    sendFileToNearestSatellite node_id destination_id t.file_id t.file_data t.chunk_size now =
      .ok ((List.range t.total_chunks).map fun i =>
        .init (now i) node_id destination_id .fileTransfer 1 (i + 1 : Nat) (t.parts.payload i)) := by
  refine mapM_eq_pure fun i member => ?_
  have inside : i < t.total_chunks := List.mem_range.mp member
  have few : t.total_chunks < 256 ^ 4 := t.few
  have number : pack 4 ((i + 1 : Nat) : Int) = .ok (field (i + 1)) := pack_natCast (by omega)
  have total : pack 4 (((t.file_data.length + t.chunk_size - 1) / t.chunk_size : Nat) : Int) =
      .ok (field t.total_chunks) := pack_natCast few
  simp only [pack_natCast t.id_fits, number, total, ok_bind, Nat.add_sub_cancel, Parts.payload, t.part_parts inside]
  rw [show t.parts.parts.length = t.total_chunks from t.length_chunks]
  rfl

theorem sent_payloads {node_id destination_id : Int} {now : Nat → Int} {sent : List Packet}
    (built : sendFileToNearestSatellite node_id destination_id t.file_id t.file_data t.chunk_size now = .ok sent)
    (payload : List UInt8) :
    (∃ q ∈ sent, payload = q.payload) ↔ ∃ i, i < t.parts.parts.length ∧ payload = t.parts.payload i := by
  rw [← Except.ok.inj ((t.sent_eq node_id destination_id now).symm.trans built)]
  rw [show t.parts.parts.length = t.total_chunks from t.length_chunks]
  simp only [List.mem_map, List.mem_range]
  constructor
  · rintro ⟨_, ⟨i, inside, rfl⟩, same⟩
    exact ⟨i, inside, same⟩
  · rintro ⟨i, inside, same⟩
    exact ⟨_, ⟨i, inside, rfl⟩, same⟩

end Transfer

/-- Files that are sent in chunks come out whole, in whatever order and however often their packets arrive: what is
written under an id is the file of that id, and a file of which every chunk arrives is written. -/
theorem handleAll_reassembles (transfers : List Transfer) (distinct : (transfers.map Transfer.file_id).Nodup)
    (sent : Transfer → List Packet)
    (built : ∀ t ∈ transfers, ∃ node_id destination_id now,
      sendFileToNearestSatellite node_id destination_id t.file_id t.file_data t.chunk_size now = .ok (sent t))
    (arrivals : List Packet) (intact : ∀ p ∈ arrivals, ∃ t ∈ transfers, ∃ q ∈ sent t, p.payload = q.payload) :
    (∀ written ∈ (handleAll ∅ arrivals).2, ∃ t ∈ transfers, written = ⟨t.file_id, t.file_data⟩) ∧
      ∀ t ∈ transfers, (∀ q ∈ sent t, ∃ p ∈ arrivals, p.payload = q.payload) →
        ⟨t.file_id, t.file_data⟩ ∈ (handleAll ∅ arrivals).2 := by
  have ids : ((transfers.map Transfer.parts).map Parts.file_id).Nodup := by
    rw [List.map_map]
    exact distinct
  have carried : ∀ p ∈ arrivals, ∃ parts ∈ transfers.map Transfer.parts, ∃ i, i < parts.parts.length ∧
      p.payload = parts.payload i := by
    intro p arrived
    obtain ⟨t, member, known⟩ := intact p arrived
    obtain ⟨node_id, destination_id, now, run⟩ := built t member
    exact ⟨t.parts, List.mem_map_of_mem member, (t.sent_payloads run p.payload).mp known⟩
  obtain ⟨writes, complete⟩ := handleAll_parts ids (fun t _ => Finmap.lookup_empty t.file_id) carried
  constructor
  · intro written member
    obtain ⟨parts, known, rfl⟩ := writes written member
    obtain ⟨t, among, rfl⟩ := List.mem_map.mp known
    exact ⟨t, among, t.whole_parts⟩
  · intro t member every
    obtain ⟨node_id, destination_id, now, run⟩ := built t member
    rw [← t.whole_parts]
    refine complete t.parts (List.mem_map_of_mem member) fun i inside => ?_
    obtain ⟨q, known, same⟩ := (t.sent_payloads run (t.parts.payload i)).mpr ⟨i, inside, rfl⟩
    obtain ⟨p, arrived, same'⟩ := every q known
    exact ⟨p, arrived, same'.trans same.symm⟩

namespace shuffled

/-- Three bytes in chunks of two. -/
def transfer : Transfer := ⟨7, [1, 2, 3], 2, by decide, by decide, by decide, by decide⟩

def first : Packet := .init 0 1 3 .fileTransfer 1 1 [0, 0, 0, 7, 0, 0, 0, 1, 0, 0, 0, 2, 1, 2]
def second : Packet := .init 0 1 3 .fileTransfer 1 2 [0, 0, 0, 7, 0, 0, 0, 2, 0, 0, 0, 2, 3]

/-- Four bytes from another node, in chunks of three. -/
def other : Transfer := ⟨9, [4, 5, 6, 7], 3, by decide, by decide, by decide, by decide⟩

def otherFirst : Packet := .init 0 2 3 .fileTransfer 1 1 [0, 0, 0, 9, 0, 0, 0, 1, 0, 0, 0, 2, 4, 5, 6]
def otherSecond : Packet := .init 0 2 3 .fileTransfer 1 2 [0, 0, 0, 9, 0, 0, 0, 2, 0, 0, 0, 2, 7]

def sent (t : Transfer) : List Packet := if t.file_id = 7 then [first, second] else [otherFirst, otherSecond]

/-- The last chunks come first, one of them twice, and the first ones in the order in which the files were not sent. -/
def arrivals : List Packet := [second, otherSecond, second, otherFirst, first]

theorem handleAll_reassembles_shuffled :
    (∀ written ∈ (handleAll ∅ arrivals).2, ∃ t ∈ [transfer, other], written = ⟨t.file_id, t.file_data⟩) ∧
      ∀ t ∈ [transfer, other], (∀ q ∈ sent t, ∃ p ∈ arrivals, p.payload = q.payload) →
        ⟨t.file_id, t.file_data⟩ ∈ (handleAll ∅ arrivals).2 := by
  refine handleAll_reassembles [transfer, other] (by decide) sent ?_ arrivals ?_
  · refine List.forall_mem_cons.mpr ⟨⟨1, 3, fun _ => 0, by decide⟩, List.forall_mem_singleton.mpr ?_⟩
    exact ⟨2, 3, fun _ => 0, by decide⟩
  · have mine : transfer ∈ [transfer, other] := List.mem_cons_self
    have theirs : other ∈ [transfer, other] := List.mem_cons_of_mem _ List.mem_cons_self
    refine List.forall_mem_cons.mpr ⟨⟨transfer, mine, second, by decide, rfl⟩, ?_⟩
    refine List.forall_mem_cons.mpr ⟨⟨other, theirs, otherSecond, by decide, rfl⟩, ?_⟩
    refine List.forall_mem_cons.mpr ⟨⟨transfer, mine, second, by decide, rfl⟩, ?_⟩
    refine List.forall_mem_cons.mpr ⟨⟨other, theirs, otherFirst, by decide, rfl⟩, ?_⟩
    exact List.forall_mem_singleton.mpr ⟨transfer, mine, first, by decide, rfl⟩

end shuffled
end Nexus.Python
