import Nexus.Python.Carried
import Nexus.Python.Sky
import Mathlib.Data.List.Forall2

namespace Nexus.Python
open GroundNode Relation

section Soundness
variable {V G : Type} (c : Sky V G) (start : G → Ground)

/-- The packets that an event writes. -/
def Event.Makes (p : Packet) : Event V G → Prop
  | .broadcast v place => p.type = .data ∧ p.source_id = (c.satellite v).node_id ∧ p.payload = c.text place
  | .sent g destination_id payload =>
    p.type = .groundComm ∧ p.source_id = (start g).node_id ∧ p.destination_id = destination_id ∧ p.payload = payload
  | .sentFile _ destination_id t =>
    p.type = .fileTransfer ∧ p.destination_id = destination_id ∧
      ∃ i, i < t.cut.parts.length ∧ p.payload.take 4074 = t.cut.payload i
  | .received _ _ => False
  | .handled _ _ => False

/-- An entry has the position that it was given or one that its satellite has sent. -/
structure Tracks (log : List (Event V G)) (old new : SatelliteEntry) : Prop where
  address : new.ip = old.ip ∧ new.port = old.port ∧ new.satellite_id = old.satellite_id
  place : new = old ∨ ∃ v place, .broadcast v place ∈ log ∧ (c.satellite v).node_id = new.satellite_id ∧
    c.shown place = some (new.x, new.y)

/-- What a ground node does goes back to something that was sent, and to it. -/
def Justified (log : List (Event V G)) (g : G) : Handled → Prop
  | .position source_id payload => ∃ v place, .broadcast v place ∈ log ∧ (c.satellite v).node_id = source_id ∧
      payload = (c.text place).take 4074
  | .message source_id text => ∃ g' payload, .sent g' (start g).node_id payload ∈ log ∧
      (start g').node_id = source_id ∧ decode (payload.take 4074) = some text
  | .written file => ∃ g' t, .sentFile g' (start g).node_id t ∈ log ∧ file = t.cut.whole ∧
      (file = ⟨t.file_id, t.file_data⟩ ↔ min t.chunk_size t.file_data.length ≤ 4062)

/-- A packet is on its way to a satellite, nobody or the ground node that it is for; positions can be on their way to
any ground node. -/
def Routed (p : Packet) (sending : Sending) : Prop :=
  ∀ g, c.host (sending.ip, sending.port) = some (.inr g) → p.type = .data ∨ (start g).node_id = p.destination_id

/-- The bytes of a chunk of a file. -/
def Brings (t : Transfer) (i : Nat) (bytes : List UInt8) : Prop :=
  ∃ p : Packet, Carried p bytes ∧ p.type = .fileTransfer ∧ p.payload.take 4074 = t.cut.payload i

/-- The chunks of a file that a ground node has read are still held, until the file is written. -/
def Progress (log : List (Event V G)) (g : G) (files : ReceivingFiles) : Prop :=
  ∀ t ∈ transfersOf log, .handled g (.written t.cut.whole) ∈ log ∨ ∀ i bytes, i < t.cut.parts.length →
    .received g bytes ∈ log → Brings t i bytes → Holds files t.cut (i + 1)

/-- What a ground node keeps. -/
structure Keeps (log : List (Event V G)) (g : G) (node : Ground) : Prop where
  id : node.node_id = (start g).node_id
  table : List.Forall₂ (Tracks c log) (start g).satellites node.satellites
  files : ∀ t ∈ transfersOf log, Partial t.cut node.receiving_files
  known : ∀ id entry, node.receiving_files.lookup id = some entry → ∃ t ∈ transfersOf log, t.file_id = id
  progress : Progress log g node.receiving_files

structure Sound (s : Sky.State V G) : Prop where
  nodes : ∀ g, Keeps c start s.log g (s.ground g)
  flights : ∀ sending ∈ s.inFlight, ∃ e ∈ s.log, ∃ p, e.Makes c start p ∧ Carried p sending.bytes ∧
    Routed c start p sending
  received : ∀ g bytes, .received g bytes ∈ s.log → ∃ e ∈ s.log, ∃ p, e.Makes c start p ∧ Carried p bytes
  distinct : ((transfersOf s.log).map Transfer.file_id).Nodup
  handled : ∀ g what, .handled g what ∈ s.log → Justified c start s.log g what

variable {c start} {log log' : List (Event V G)} {s s' : Sky.State V G}

theorem Tracks.mono {old new : SatelliteEntry} (tracks : Tracks c log old new) (more : log ⊆ log') :
    Tracks c log' old new := by
  refine ⟨tracks.address, tracks.place.imp_right ?_⟩
  rintro ⟨v, place, sent, same, shown⟩
  exact ⟨v, place, more sent, same, shown⟩

theorem Justified.mono {g : G} {what : Handled} (justified : Justified c start log g what) (more : log ⊆ log') :
    Justified c start log' g what := by
  cases what with
  | position =>
    obtain ⟨v, place, sent, rest⟩ := justified
    exact ⟨v, place, more sent, rest⟩
  | message =>
    obtain ⟨g', payload, sent, rest⟩ := justified
    exact ⟨g', payload, more sent, rest⟩
  | written =>
    obtain ⟨g', t, sent, rest⟩ := justified
    exact ⟨g', t, more sent, rest⟩

theorem Brings.type {t : Transfer} {i : Nat} {bytes : List UInt8} (brings : Brings t i bytes) {p : Packet}
    (carried : Carried p bytes) : p.type = .fileTransfer := by
  obtain ⟨p', carried', type, -⟩ := brings
  obtain ⟨-, q, known, same, -⟩ := carried.read 0
  obtain ⟨-, q', known', same', -⟩ := carried'.read 0
  obtain rfl := Except.ok.inj (known.symm.trans known')
  exact same.symm.trans (same'.trans type)

/-- Bytes bring one chunk of one file. -/
theorem Brings.unique {t t' : Transfer} {i i' : Nat} {bytes : List UInt8} (brings : Brings t i bytes)
    (brings' : Brings t' i' bytes) (inside : i < t.cut.parts.length) (inside' : i' < t'.cut.parts.length) :
    t.file_id = t'.file_id ∧ i = i' := by
  obtain ⟨p, carried, -, content⟩ := brings
  obtain ⟨p', carried', -, content'⟩ := brings'
  obtain ⟨-, q, known, -, -, -, payload⟩ := carried.read 0
  obtain ⟨-, q', known', -, -, -, payload'⟩ := carried'.read 0
  obtain rfl := Except.ok.inj (known.symm.trans known')
  exact Parts.payload_inj inside inside'
    (content.symm.trans (payload.symm.trans (payload'.trans content')))

theorem transfersOf_append (log : List (Event V G)) (e : Event V G) :
    transfersOf (log ++ [e]) = transfersOf log ++ e.transfer.toList := by
  rw [transfersOf, List.filterMap_append]
  cases made : e.transfer with
  | none =>
    rw [List.filterMap_cons_none made, List.filterMap_nil, Option.toList_none]
    rfl
  | some t =>
    rw [List.filterMap_cons_some made, List.filterMap_nil, Option.toList_some]
    rfl

theorem mem_transfersOf {g : G} {destination_id : Int} {t : Transfer} (sent : .sentFile g destination_id t ∈ log) :
    t ∈ transfersOf log := List.mem_filterMap.mpr ⟨_, sent, rfl⟩

/-- No chunk of a file has been read before it is sent. -/
theorem Sound.not_brings (sound : Sound c start s) {t : Transfer}
    (fresh : ∀ other ∈ transfersOf s.log, other.file_id ≠ t.file_id) {g : G} {bytes : List UInt8}
    (received : .received g bytes ∈ s.log) {i : Nat} (inside : i < t.cut.parts.length) : ¬Brings t i bytes := by
  intro brings
  obtain ⟨e, known, p, makes, carried⟩ := sound.received g bytes received
  have type := brings.type carried
  cases e with
  | broadcast v place => exact absurd (type.symm.trans makes.1) (by decide)
  | sent g' destination_id payload => exact absurd (type.symm.trans makes.1) (by decide)
  | sentFile g' destination_id t' =>
    obtain ⟨-, -, j, inside', content⟩ := makes
    have brings' : Brings t' j bytes := ⟨p, carried, type, content⟩
    exact fresh t' (mem_transfersOf known) (brings'.unique brings inside' inside).1
  | received | handled => exact makes.elim

/-- Something is done that writes packets. -/
theorem Sound.emit (sound : Sound c start s) {e : Event V G} {new : Multiset Sending}
    (other : ∀ g what, e ≠ .handled g what) (other' : ∀ g bytes, e ≠ .received g bytes)
    (distinct : ((transfersOf (s.log ++ [e])).map Transfer.file_id).Nodup)
    (made : ∀ sending ∈ new, ∃ p, e.Makes c start p ∧ Carried p sending.bytes ∧ Routed c start p sending) :
    Sound c start { s with inFlight := new + s.inFlight, log := s.log ++ [e] } := by
  have more : s.log ⊆ s.log ++ [e] := List.subset_append_left s.log [e]
  have here : e ∈ s.log ++ [e] := List.mem_append_right _ (List.mem_singleton_self e)
  have before : ∀ g bytes, .received g bytes ∈ s.log ++ [e] → .received g bytes ∈ s.log := by
    intro g bytes member
    rcases List.mem_append.mp member with old | added
    · exact old
    · exact (other' g bytes (List.mem_singleton.mp added).symm).elim
  have fresh : ∀ t ∈ e.transfer, ∀ other ∈ transfersOf s.log, other.file_id ≠ t.file_id := by
    intro t added other member
    rw [transfersOf_append, List.map_append, List.nodup_append] at distinct
    exact distinct.2.2 _ (List.mem_map_of_mem member) _ (List.mem_map_of_mem (Option.mem_toList.mpr added))
  refine ⟨fun g => ⟨(sound.nodes g).id, (sound.nodes g).table.imp fun _ _ tracks => tracks.mono more, ?_, ?_, ?_⟩,
    ?_, ?_, distinct, ?_⟩
  · intro t member
    rw [transfersOf_append] at member
    rcases List.mem_append.mp member with old | added
    · exact (sound.nodes g).files t old
    · refine partial_of_fresh ?_
      cases present : (s.ground g).receiving_files.lookup t.cut.file_id with
      | none => rfl
      | some entry =>
        obtain ⟨t', member', same⟩ := (sound.nodes g).known _ entry present
        exact (fresh t (Option.mem_toList.mp added) t' member' same).elim
  · intro id entry present
    obtain ⟨t, member, same⟩ := (sound.nodes g).known id entry present
    exact ⟨t, transfersOf_append s.log e ▸ List.mem_append_left _ member, same⟩
  · intro t member
    rw [transfersOf_append] at member
    rcases List.mem_append.mp member with old | added
    · refine ((sound.nodes g).progress t old).imp (more ·) fun holds i bytes inside received => ?_
      exact holds i bytes inside (before g bytes received)
    · refine .inr fun i bytes inside received brings => ?_
      exact (sound.not_brings (fresh t (Option.mem_toList.mp added)) (before g bytes received) inside brings).elim
  · intro sending member
    rcases Multiset.mem_add.mp member with added | old
    · obtain ⟨p, makes, rest⟩ := made sending added
      exact ⟨e, here, p, makes, rest⟩
    · obtain ⟨e', known, rest⟩ := sound.flights sending old
      exact ⟨e', more known, rest⟩
  · intro g bytes member
    obtain ⟨e', known, rest⟩ := sound.received g bytes (before g bytes member)
    exact ⟨e', more known, rest⟩
  · intro g what member
    rcases List.mem_append.mp member with old | added
    · exact (sound.handled g what old).mono more
    · exact (other g what (List.mem_singleton.mp added).symm).elim

/-- Moving an entry to where its satellite was keeps the table right. -/
theorem tracks_move {old new : List SatelliteEntry} (table : List.Forall₂ (Tracks c log) old new) {v : V}
    {place read : Binary64 × Binary64} (sent : .broadcast v place ∈ log) (shown : c.shown place = some read) :
    List.Forall₂ (Tracks c log) old (Ground.move (c.satellite v).node_id read new) := by
  induction table with
  | nil => exact .nil
  | @cons a b l₁ l₂ first later ih =>
    rw [Ground.move]
    by_cases here : (c.satellite v).node_id = b.satellite_id
    · rw [if_pos here]
      exact .cons ⟨first.address, .inr ⟨v, place, sent, here, shown⟩⟩ later
    · rw [if_neg here]
      exact .cons first ih

theorem handleFileTransfer_lookup {t : Parts} {i id : Nat} {files : ReceivingFiles} {packet : Packet}
    (inside : i < t.parts.length) (carries : packet.payload = t.payload i) (other : id ≠ t.file_id) :
    (handleFileTransfer files packet).1.lookup id = files.lookup id := by
  have kept : (filesWith t files i).lookup id = files.lookup id := Finmap.lookup_insert_of_ne _ other
  rw [handleFileTransfer_eq inside carries]
  split
  · split
    · exact (Finmap.lookup_erase_ne other).trans kept
    · exact kept
  · exact kept

/-- The log after a ground node has read a packet. -/
def readLog (log : List (Event V G)) (g : G) (bytes : List UInt8) (handled : Option Handled) : List (Event V G) :=
  log ++ .received g bytes :: (handled.map (Event.handled g)).toList

section Reading
variable {g : G} {bytes : List UInt8} {handled : Option Handled}

theorem transfersOf_readLog : transfersOf (readLog log g bytes handled) = transfersOf log := by
  have none : ((.received g bytes :: (handled.map (Event.handled g)).toList : List (Event V G))).filterMap
      Event.transfer = [] := by
    cases handled <;> rfl
  rw [transfersOf, readLog, List.filterMap_append, none, List.append_nil]
  rfl

theorem received_readLog {g' : G} {bytes' : List UInt8}
    (member : .received g' bytes' ∈ readLog log g bytes handled) :
    .received g' bytes' ∈ log ∨ g' = g ∧ bytes' = bytes := by
  rcases List.mem_append.mp member with old | added
  · exact .inl old
  · cases handled <;> simp_all

theorem handled_readLog {g' : G} {what : Handled} (member : .handled g' what ∈ readLog log g bytes handled) :
    .handled g' what ∈ log ∨ g' = g ∧ handled = some what := by
  rcases List.mem_append.mp member with old | added
  · exact .inl old
  · cases handled <;> simp_all

theorem subset_readLog : log ⊆ readLog log g bytes handled := List.subset_append_left _ _

/-- A packet without a chunk leaves the files as they are. -/
theorem Progress.readLog {files : ReceivingFiles} {g' : G} (progress : Progress log g' files)
    (other : g' = g → ∀ t i, ¬Brings t i bytes) : Progress (readLog log g bytes handled) g' files := by
  intro t member
  rw [transfersOf_readLog] at member
  refine (progress t member).imp (subset_readLog ·) fun holds i bytes' inside received brings => ?_
  rcases received_readLog received with old | ⟨here, rfl⟩
  · exact holds i bytes' inside old brings
  · exact (other here t i brings).elim

variable [DecidableEq G]

/-- A ground node has read a packet. -/
theorem Sound.handle (sound : Sound c start s) {self : Ground} {rest : Multiset Sending} (fewer : rest ≤ s.inFlight)
    (origin : ∃ e ∈ s.log, ∃ p, e.Makes c start p ∧ Carried p bytes) (id : self.node_id = (start g).node_id)
    (table : List.Forall₂ (Tracks c s.log) (start g).satellites self.satellites)
    (files : ∀ t ∈ transfersOf s.log, Partial t.cut self.receiving_files)
    (known : ∀ id entry, self.receiving_files.lookup id = some entry → ∃ t ∈ transfersOf s.log, t.file_id = id)
    (progress : Progress (readLog s.log g bytes handled) g self.receiving_files)
    (justified : ∀ what ∈ handled, Justified c start s.log g what) :
    Sound c start { s with
      ground := Function.update s.ground g self
      inFlight := rest
      log := readLog s.log g bytes handled } := by
  have more : s.log ⊆ readLog s.log g bytes handled := subset_readLog
  refine ⟨fun g' => ?_, fun sending member => ?_, fun g' bytes' member => ?_, ?_, fun g' what member => ?_⟩
  · by_cases same : g' = g
    · subst same
      dsimp only
      rw [Function.update_self]
      refine ⟨id, table.imp fun _ _ tracks => tracks.mono more, ?_, ?_, progress⟩
      · rw [transfersOf_readLog]
        exact files
      · rw [transfersOf_readLog]
        exact known
    · dsimp only
      rw [Function.update_of_ne same]
      have old := sound.nodes g'
      refine ⟨old.id, old.table.imp fun _ _ tracks => tracks.mono more, ?_, ?_,
        old.progress.readLog fun here => (same here).elim⟩
      · rw [transfersOf_readLog]
        exact old.files
      · rw [transfersOf_readLog]
        exact old.known
  · obtain ⟨e, sent, p, makes⟩ := sound.flights sending (Multiset.mem_of_le fewer member)
    exact ⟨e, more sent, p, makes⟩
  · rcases received_readLog member with old | ⟨-, rfl⟩
    · obtain ⟨e, sent, p, makes⟩ := sound.received g' bytes' old
      exact ⟨e, more sent, p, makes⟩
    · obtain ⟨e, sent, p, makes⟩ := origin
      exact ⟨e, more sent, p, makes⟩
  · rw [transfersOf_readLog]
    exact sound.distinct
  · rcases handled_readLog member with old | ⟨rfl, seen⟩
    · exact (sound.handled g' what old).mono more
    · exact (justified what seen).mono more

/-- A ground node has read a chunk of a file that is sent to it. -/
theorem Sound.handle_chunk (sound : Sound c start s) {rest : Multiset Sending} (fewer : rest ≤ s.inFlight)
    (origin : ∃ e ∈ s.log, ∃ p, e.Makes c start p ∧ Carried p bytes) {q : Packet} {g' : G} {t : Transfer} {i : Nat}
    (known : .sentFile g' (start g).node_id t ∈ s.log) (inside : i < t.cut.parts.length)
    (content : q.payload = t.cut.payload i) (brings : Brings t i bytes) :
    Sound c start { s with
      ground := Function.update s.ground g
        { s.ground g with receiving_files := (handleFileTransfer (s.ground g).receiving_files q).1 }
      inFlight := rest
      log := readLog s.log g bytes ((handleFileTransfer (s.ground g).receiving_files q).2.map .written) } := by
  have keeps := sound.nodes g
  have distinct : (((transfersOf s.log).map Transfer.cut).map Parts.file_id).Nodup := by
    rw [List.map_map]
    exact sound.distinct
  obtain ⟨files, written, run, incomplete, whole, progress⟩ := handleFileTransfer_step distinct
    (List.mem_map_of_mem (mem_transfersOf known)) inside content (List.forall_mem_map.mpr keeps.files)
  refine sound.handle fewer origin keeps.id keeps.table ?_ ?_ ?_ fun what seen => ?_
  · rw [run]
    exact List.forall_mem_map.mp incomplete
  · intro id entry present
    by_cases same : id = t.file_id
    · exact ⟨t, mem_transfersOf known, same.symm⟩
    · rw [handleFileTransfer_lookup inside content same] at present
      exact keeps.known id entry present
  · rw [run]
    intro t' member
    rw [transfersOf_readLog] at member
    rcases progress t'.cut (List.mem_map_of_mem member) with done | ⟨new, kept⟩
    · refine .inl (List.mem_append_right _ (List.mem_cons_of_mem _ ?_))
      rw [done]
      exact List.mem_singleton_self _
    · refine (keeps.progress t' member).imp (subset_readLog ·) fun holds j bytes inside' received brings' => ?_
      rcases received_readLog received with old | ⟨-, rfl⟩
      · exact kept _ (holds j bytes inside' old brings')
      · obtain ⟨same, rfl⟩ := brings'.unique brings inside' inside
        have equal : t' = t := List.inj_on_of_nodup_map sound.distinct member (mem_transfersOf known) same
        exact new (congrArg Transfer.cut equal)
  · obtain ⟨file, saved, rfl⟩ := Option.map_eq_some_iff.mp seen
    rw [run] at saved
    rcases whole with none | some
    · cases none.symm.trans saved
    · cases some.symm.trans saved
      exact ⟨g', t, known, rfl, t.whole_cut_iff⟩

/-- Whatever a ground node does with a packet that is on its way to it, is justified. -/
theorem Sound.step_handle (sound : Sound c start s) {sending : Sending} {rest : Multiset Sending} (now : Int)
    (here : s.inFlight = sending ::ₘ rest) (listens : c.host (sending.ip, sending.port) = some (.inr g)) :
    Sound c start { s with
      ground := Function.update s.ground g (Ground.handleConnection c.float now (s.ground g) sending.bytes).1
      inFlight := rest
      log := readLog s.log g sending.bytes
        (Ground.handleConnection c.float now (s.ground g) sending.bytes).2 } := by
  have fewer : rest ≤ s.inFlight := here ▸ Multiset.le_cons_self rest sending
  obtain ⟨e, known, p, makes, carried, routed⟩ :=
    sound.flights sending (here ▸ Multiset.mem_cons_self sending rest)
  have origin : ∃ e ∈ s.log, ∃ p, e.Makes c start p ∧ Carried p sending.bytes := ⟨e, known, p, makes, carried⟩
  have keeps := sound.nodes g
  have untouched : ∀ handled, p.type ≠ .fileTransfer →
      Progress (readLog s.log g sending.bytes handled) g (s.ground g).receiving_files :=
    fun handled other => keeps.progress.readLog fun _ t i brings => other (brings.type carried)
  cases e with
  | received | handled => exact makes.elim
  | broadcast v place =>
    obtain ⟨type, source, payload⟩ := makes
    rw [carried.handle_data c.float now _ type]
    have justified : Justified c start s.log g (.position p.source_id (p.payload.take 4074)) :=
      ⟨v, place, known, source.symm, by rw [payload]⟩
    have reads : Ground.position c.float (p.payload.take 4074) = c.shown place := by
      rw [payload]
      rfl
    have other : p.type ≠ .fileTransfer := by rw [type]; decide
    simp only [Ground.updateSatellitePosition, reads]
    cases shown : c.shown place with
    | none =>
      exact sound.handle fewer origin keeps.id keeps.table keeps.files keeps.known (untouched _ other)
        fun what seen => Option.some.inj seen ▸ justified
    | some read =>
      refine sound.handle fewer origin keeps.id ?_ keeps.files keeps.known (untouched _ other)
        fun what seen => Option.some.inj seen ▸ justified
      rw [source]
      exact tracks_move keeps.table known shown
  | sent g' destination_id payload' =>
    obtain ⟨type, source, destination, payload⟩ := makes
    rw [carried.handle_message c.float now _ type]
    have other : p.type ≠ .fileTransfer := by rw [type]; decide
    have mine : (start g).node_id = p.destination_id := (routed g listens).resolve_left (by rw [type]; decide)
    refine sound.handle fewer origin keeps.id keeps.table keeps.files keeps.known (untouched _ other)
      fun what seen => ?_
    obtain ⟨text, read, rfl⟩ := Option.map_eq_some_iff.mp seen
    exact ⟨g', payload', by rw [mine, destination]; exact known, source.symm, payload ▸ read⟩
  | sentFile g' destination_id t =>
    obtain ⟨type, destination, i, inside, payload⟩ := makes
    have brings : Brings t i sending.bytes := ⟨p, carried, type, payload⟩
    obtain ⟨q, content, handles⟩ := carried.handle_file c.float now (s.ground g) type
    rw [handles]
    have mine : (start g).node_id = p.destination_id := (routed g listens).resolve_left (by rw [type]; decide)
    exact sound.handle_chunk fewer origin (by rw [mine, destination]; exact known) inside (content.trans payload) brings

end Reading

/-- An entry is where it was entered for. -/
theorem exists_entry {old new : List SatelliteEntry} (table : List.Forall₂ (Tracks c log) old new)
    {entry : SatelliteEntry} (member : entry ∈ new) : ∃ first ∈ old, entry.ip = first.ip ∧ entry.port = first.port := by
  induction table with
  | nil => cases member
  | cons first later ih =>
    rcases List.mem_cons.mp member with rfl | after
    · exact ⟨_, List.mem_cons_self, first.address.1, first.address.2.1⟩
    · obtain ⟨a, known, same⟩ := ih after
      exact ⟨a, List.mem_cons_of_mem _ known, same⟩

theorem mem_packets {t : Transfer} {node_id destination_id : Int} {times : Nat → Int} {packets : List Packet}
    (built : sendFileToNearestSatellite node_id destination_id t.file_id t.file_data t.chunk_size times = .ok packets)
    {p : Packet} (member : p ∈ packets) :
    p.type = .fileTransfer ∧ p.destination_id = destination_id ∧
      ∃ i, i < t.cut.parts.length ∧ p.payload.take 4074 = t.cut.payload i := by
  rw [← Except.ok.inj ((t.sent_eq node_id destination_id times).symm.trans built)] at member
  obtain ⟨i, inside, rfl⟩ := List.mem_map.mp member
  refine ⟨rfl, rfl, i, ?_, (t.payload_cut i).symm⟩
  rw [t.length_cut]
  exact t.length_chunks.symm ▸ List.mem_range.mp inside

/-- A file of which a ground node has read all chunks is written. -/
theorem Sound.written (sound : Sound c start s) {g : G} {t : Transfer} (member : t ∈ transfersOf s.log)
    (every : ∀ i < t.total_chunks, ∃ bytes, .received g bytes ∈ s.log ∧ Brings t i bytes) :
    .handled g (.written t.cut.whole) ∈ s.log := by
  have keeps := sound.nodes g
  rcases keeps.progress t member with written | holds
  · exact written
  · refine (not_partial_of_all (keeps.files t member) fun i inside => ?_).elim
    have count : t.cut.parts.length = t.total_chunks := t.length_cut.trans t.length_chunks
    obtain ⟨bytes, received, brings⟩ := every i (count ▸ inside)
    exact holds i bytes inside received brings

section Steps
variable [DecidableEq V] [DecidableEq G]

/-- Every step keeps the nodes sound while no id comes twice. -/
theorem Sound.step (configured : c.Configured start) (sound : Sound c start s) (step : c.Step s s')
    (distinct : ((transfersOf s'.log).map Transfer.file_id).Nodup) : Sound c start s' := by
  have toSatellite : ∀ {g : G} {p : Packet} {entry : SatelliteEntry} (bytes : List UInt8),
      Ground.nearest (c.closer g) (s.ground g).satellites = some entry →
      Routed c start p ⟨entry.ip, entry.port, bytes⟩ := by
    intro g p entry bytes nearest g' listens
    obtain ⟨first, known, ip, port⟩ := exists_entry (sound.nodes g).table (Ground.mem_of_nearest nearest)
    rw [ip, port] at listens
    exact (configured.satellites g first known g' listens).elim
  cases step with
  | move v place =>
    exact ⟨sound.nodes, sound.flights, sound.received, sound.distinct, sound.handled⟩
  | @broadcast v entry bytes now known written =>
    refine sound.emit (fun g what same => by cases same) (fun g bytes same => by cases same) distinct
      fun sending member => ?_
    obtain rfl := Multiset.mem_singleton.mp member
    exact ⟨_, ⟨rfl, rfl, rfl⟩, .of_serialize written, fun g listens => .inl rfl⟩
  | @send g entry destination_id payload max_retries now outcome nearest =>
    refine sound.emit (fun g what same => by cases same) (fun g bytes same => by cases same) distinct
      fun sending member => ?_
    obtain ⟨bytes, tried, rfl⟩ := List.mem_map.mp (Multiset.mem_coe.mp member)
    obtain ⟨try', made, serialized, -⟩ := mem_retry tried
    obtain ⟨k, -, rfl⟩ := List.mem_map.mp made
    exact ⟨_, ⟨rfl, (sound.nodes g).id, rfl, rfl⟩, .of_serialize serialized, toSatellite bytes nearest⟩
  | @sendFile g entry destination_id t times packets max_retries outcome nearest built =>
    refine sound.emit (fun g what same => by cases same) (fun g bytes same => by cases same) distinct
      fun sending member => ?_
    obtain ⟨bytes, tried, rfl⟩ := List.mem_map.mp (Multiset.mem_coe.mp member)
    obtain ⟨i, p, known, serialized, -⟩ := mem_fileTries.mp tried
    exact ⟨p, mem_packets built (List.mem_of_getElem? known), .of_serialize serialized, toSatellite bytes nearest⟩
  | @forward v sending rest now here listens =>
    refine ⟨sound.nodes, fun sending' member => ?_, sound.received, sound.distinct, sound.handled⟩
    rcases Multiset.mem_add.mp member with added | old
    · obtain ⟨e, known, p, makes, carried, -⟩ := sound.flights sending (here ▸ Multiset.mem_cons_self sending rest)
      obtain ⟨carried', target⟩ := carried.forward (Multiset.mem_coe.mp added)
      refine ⟨e, known, p, makes, carried', fun g listens => ?_⟩
      rcases target with ⟨entry, member, same, ip, port⟩ | ⟨entry, member, ip, port⟩
      · rw [ip, port] at listens
        exact .inr ((configured.grounds v entry member g listens).trans same)
      · rw [ip, port] at listens
        exact (configured.peers v entry member g listens).elim
    · exact sound.flights sending' (here ▸ Multiset.mem_cons_of_mem old)
  | handle now here listens => exact sound.step_handle now here listens
  | @lose sending rest here =>
    exact ⟨sound.nodes, fun sending' member => sound.flights sending' (here ▸ Multiset.mem_cons_of_mem member),
      sound.received, sound.distinct, sound.handled⟩

theorem Sound.run (configured : c.Configured start) (nothing : ∀ g, (start g).receiving_files = ∅)
    {place : V → Binary64 × Binary64} (run : ReflTransGen c.Step (Sky.initial place start) s)
    (distinct : ((transfersOf s.log).map Transfer.file_id).Nodup) : Sound c start s := by
  induction run with
  | refl =>
    refine ⟨fun g => ⟨rfl, List.forall₂_same.mpr fun entry _ => ⟨⟨rfl, rfl, rfl⟩, .inl rfl⟩,
      fun t impossible => (List.not_mem_nil impossible).elim, fun id entry present => ?_,
      fun t impossible => (List.not_mem_nil impossible).elim⟩,
      fun sending member => (Multiset.notMem_zero _ member).elim,
      fun g bytes impossible => (List.not_mem_nil impossible).elim, List.nodup_nil,
      fun g what impossible => (List.not_mem_nil impossible).elim⟩
    have empty : (∅ : ReceivingFiles).lookup id = some entry := nothing g ▸ present
    rw [Finmap.lookup_empty] at empty
    cases empty
  | tail _ step ih => exact (ih (step.distinct distinct)).step configured step distinct

/-- In every run of satellites and ground nodes that know each other's addresses, and in which no id of a file comes
twice: each entry of a ground node has the position that it was given or one that its satellite has sent; each message
that is shown was sent to the node, by the node that it names; and each file that is written was sent to it, and is
whole unless its chunks are too large. -/
theorem Sky.run_justified (configured : c.Configured start) (nothing : ∀ g, (start g).receiving_files = ∅)
    (place : V → Binary64 × Binary64) (run : ReflTransGen c.Step (Sky.initial place start) s)
    (distinct : ((transfersOf s.log).map Transfer.file_id).Nodup) :
    (∀ g, List.Forall₂ (Tracks c s.log) (start g).satellites (s.ground g).satellites) ∧
      ∀ g what, .handled g what ∈ s.log → Justified c start s.log g what := by
  have sound := Sound.run configured nothing run distinct
  exact ⟨fun g => (sound.nodes g).table, sound.handled⟩

end Steps

/-- A position that is shown legibly is read as it is. -/
theorem Sky.shown_eq {place : Binary64 × Binary64}
    (plain : ',' ∉ (c.str place.1).toList ∧ ',' ∉ (c.str place.2).toList)
    (legible : c.float (c.str place.1) = some place.1 ∧ c.float (c.str place.2) = some place.2)
    (short : (c.text place).length ≤ 4074) : c.shown place = some place := by
  have joined : (c.str place.1 ++ "," ++ c.str place.2).toList.splitOn ',' =
      [(c.str place.1).toList, (c.str place.2).toList] := by
    have glued : (c.str place.1 ++ "," ++ c.str place.2).toList =
        [','].intercalate [(c.str place.1).toList, (c.str place.2).toList] := by
      simp [List.intercalate]
    rw [glued]
    refine List.splitOn_intercalate ',' ?_ (List.cons_ne_nil _ _)
    intro part member
    rcases List.mem_cons.mp member with rfl | second
    · exact plain.1
    · rw [List.mem_singleton.mp second]
      exact plain.2
  have read : decode ((c.text place).take 4074) = some (c.str place.1 ++ "," ++ c.str place.2) := by
    rw [List.take_of_length_le short]
    exact decode_eq_some.mpr rfl
  rw [Sky.shown, Ground.position, read]
  simp only [Option.bind_eq_bind, Option.bind_some, joined, String.ofList_toList, legible]

end Soundness

namespace longMessage

/-- Ground nodes 1 and 3 know satellite 101, and that knows node 3. -/
def start (third : Bool) : Ground :=
  Ground.addSatellite ⟨if third then 3 else 1, [], ∅⟩ "127.0.0.1" 36001 (.finite 25) (.finite 30) 101

def sky : Sky Unit Bool where
  satellite _ := satellite
  host address :=
    if address = ("127.0.0.1", 36001) then some (.inl ())
    else if address = ("127.0.0.1", 35001) then some (.inr false)
    else if address = ("127.0.0.1", 35003) then some (.inr true)
    else none
  closer _ _ _ := false
  str v := if v = .finite 25 then "25.0" else if v = .finite 30 then "30.0" else "nan"
  float text := if text = "25.0" then some (.finite 25) else if text = "30.0" then some (.finite 30) else some .nan

theorem shown_start : sky.shown (.finite 25, .finite 30) = some (.finite 25, .finite 30) :=
  Sky.shown_eq (by decide) (by decide) (by decide)

theorem shown_moved : sky.shown (.finite 30, .finite 25) = some (.finite 30, .finite 25) :=
  Sky.shown_eq (by decide) (by decide) (by decide)

theorem configured : sky.Configured start := by
  constructor
  · intro v entry member g listens
    obtain rfl := List.mem_singleton.mp member
    cases g with
    | false => exact absurd listens (by decide)
    | true => rfl
  · exact fun v entry impossible => (List.not_mem_nil impossible).elim
  · intro g entry member g'
    obtain rfl : entry = ⟨"127.0.0.1", 36001, .finite 25, .finite 30, 101⟩ := List.mem_singleton.mp member
    cases g' <;> decide

theorem nothing (g : Bool) : (start g).receiving_files = ∅ := rfl

section Arriving
variable (s : Sky.State Unit Bool) (bytes : List UInt8) (rest : Multiset Sending)

/-- Node 3 has read a packet; the others are still on their way. -/
def arrived : Sky.State Unit Bool :=
  { s with
    ground := Function.update s.ground true (Ground.handleConnection sky.float 5 (s.ground true) bytes).1
    inFlight := rest
    log := readLog s.log true bytes (Ground.handleConnection sky.float 5 (s.ground true) bytes).2 }

/-- What node 3 has read, in order. -/
def readsOf (log : List (Event Unit Bool)) : List (List UInt8) :=
  log.filterMap fun
    | .received true bytes => some bytes
    | _ => none

variable {s bytes rest}

theorem readsOf_arrived : readsOf (arrived s bytes rest).log = readsOf s.log ++ [bytes] := by
  rw [arrived, readsOf, readLog, List.filterMap_append]
  cases (Ground.handleConnection sky.float 5 (s.ground true) bytes).2 <;> rfl

theorem received_of_reads {log : List (Event Unit Bool)} (member : bytes ∈ readsOf log) :
    .received true bytes ∈ log := by
  obtain ⟨event, known, same⟩ := List.mem_filterMap.mp member
  split at same
  · obtain rfl := Option.some.inj same
    exact known
  · cases same

theorem ground_arrived : (arrived s bytes rest).ground true =
    (Ground.handleConnection sky.float 5 (s.ground true) bytes).1 := by
  simp only [arrived, Function.update_self]

/-- Only positions change the table. -/
theorem satellites_arrived {p : Packet} (carried : Carried p bytes)
    (other : p.type = .groundComm ∨ p.type = .fileTransfer) :
    ((arrived s bytes rest).ground true).satellites = (s.ground true).satellites := by
  rw [ground_arrived]
  rcases other with message | file
  · rw [carried.handle_message _ _ _ message]
  · obtain ⟨q, -, handles⟩ := carried.handle_file sky.float 5 (s.ground true) file
    rw [handles]

theorem satellites_arrived_position {now : Int} {place shown : Binary64 × Binary64}
    (written : (sky.positionPacket now () place).serialize = .ok bytes) (reads : sky.shown place = some shown) :
    ((arrived s bytes rest).ground true).satellites = Ground.move 101 shown (s.ground true).satellites := by
  have read : Ground.position sky.float ((sky.text place).take 4074) = some shown := reads
  rw [ground_arrived, (Carried.of_serialize written).handle_data sky.float 5 _ rfl]
  simp only [Ground.updateSatellitePosition, Sky.positionPacket, Packet.init, read]
  rfl

theorem moves (place : Binary64 × Binary64) : sky.Step s { s with place := fun _ => place } := by
  have moved : Function.update s.place () place = fun _ => place :=
    funext fun _ => Function.update_self () place s.place
  exact moved ▸ Sky.Step.move s () place

theorem broadcasts {place : Binary64 × Binary64} (here : s.place () = place)
    (written : (sky.positionPacket 0 () place).serialize = .ok bytes) :
    sky.Step s { s with
      inFlight := {⟨"127.0.0.1", 35003, bytes⟩} + s.inFlight
      log := s.log ++ [.broadcast () place] } := by
  subst here
  exact @Sky.Step.broadcast _ _ sky _ _ s () ⟨"127.0.0.1", 35003, 3⟩ bytes 0 (List.mem_singleton_self _) written

theorem sends (known : s.ground false = start false) : sky.Step s { s with
    inFlight := Multiset.ofList ([greeting].map (Sending.mk "127.0.0.1" 36001)) + s.inFlight
    log := s.log ++ [.sent false 3 [104, 105]] } := by
  have through : messageTries 3 (fun _ => sendToNearestSatellite 0 1 3 [104, 105]) (fun _ => .done) = [greeting] := by
    decide
  have id : (s.ground false).node_id = 1 := congrArg Ground.node_id known
  have step := @Sky.Step.send _ _ sky _ _ s false ⟨"127.0.0.1", 36001, .finite 25, .finite 30, 101⟩ 3 [104, 105] 3
    (fun _ => 0) (fun _ => .done) (congrArg (Ground.nearest (sky.closer false) ·.satellites) known)
  rw [id, through] at step
  exact step

theorem sendsFile (known : s.ground false = start false) : sky.Step s { s with
    inFlight := Multiset.ofList (chunks.map (Sending.mk "127.0.0.1" 36001)) + s.inFlight
    log := s.log ++ [.sentFile false 3 shuffled.transfer] } := by
  have through : fileTries 3 packets (fun _ _ => .done) = chunks := by decide
  have built : sendFileToNearestSatellite (s.ground false).node_id 3 7 [1, 2, 3] 2 (fun _ => 0) = .ok packets := by
    rw [known]
    decide
  have step := @Sky.Step.sendFile _ _ sky _ _ s false ⟨"127.0.0.1", 36001, .finite 25, .finite 30, 101⟩ 3
    shuffled.transfer (fun _ => 0) packets 3 (fun _ _ => .done)
    (congrArg (Ground.nearest (sky.closer false) ·.satellites) known) built
  rw [through] at step
  exact step

theorem arrives (here : s.inFlight = ⟨"127.0.0.1", 35003, bytes⟩ ::ₘ rest) : sky.Step s (arrived s bytes rest) :=
  .handle 5 here rfl

/-- What is written to satellite 101 for node 3 gets there. -/
theorem passes (sends : satellite.handleConnection 0 bytes = [⟨"127.0.0.1", 35003, bytes⟩])
    (here : s.inFlight = ⟨"127.0.0.1", 36001, bytes⟩ ::ₘ rest) : ReflTransGen sky.Step s (arrived s bytes rest) := by
  have first : sky.Step s { s with inFlight := Multiset.ofList (satellite.handleConnection 0 bytes) + rest } :=
    .forward 0 here rfl
  rw [sends] at first
  exact .tail (.single first) (arrives (Multiset.singleton_add _ _))

end Arriving

/-- The position that the satellite starts at, and one that it moves to. -/
def firstPlace : List UInt8 :=
  [0, 0, 0, 101, 0, 0, 0, 0, 1, 1, 0, 0, 0, 0, 0, 0, 0, 0, 0, 0, 0, 0, 50, 53, 46, 48, 44, 51, 48, 46, 48]

def secondPlace : List UInt8 :=
  [0, 0, 0, 101, 0, 0, 0, 0, 1, 1, 0, 0, 0, 0, 0, 0, 0, 0, 0, 0, 0, 0, 51, 48, 46, 48, 44, 50, 53, 46, 48]

theorem serialize_firstPlace : (sky.positionPacket 0 () (.finite 25, .finite 30)).serialize = .ok firstPlace := by
  decide

theorem serialize_secondPlace : (sky.positionPacket 0 () (.finite 30, .finite 25)).serialize = .ok secondPlace := by
  decide

theorem serialize_greeting : (sendToNearestSatellite 0 1 3 [104, 105]).serialize = .ok greeting := by decide

/-- A chunk of the file, as it is written. -/
def chunk (i : Nat) : List UInt8 := chunks.getD i []

/-- Satellite 101 is where it was entered for. -/
def beginning : Sky.State Unit Bool := Sky.initial (fun _ => (.finite 25, .finite 30)) start

/-- The satellite has shown where it is, moved and shown it again. -/
def shown : Sky.State Unit Bool where
  place _ := (.finite 30, .finite 25)
  ground := start
  inFlight := {⟨"127.0.0.1", 35003, secondPlace⟩} + ({⟨"127.0.0.1", 35003, firstPlace⟩} + 0)
  log := [.broadcast () (.finite 25, .finite 30), .broadcast () (.finite 30, .finite 25)]

theorem run_shown : ReflTransGen sky.Step beginning shown :=
  .tail (.tail (.single (broadcasts rfl serialize_firstPlace)) (moves (.finite 30, .finite 25)))
    (broadcasts rfl serialize_secondPlace)

/-- Node 1 has sent node 3 a file and a message. -/
def posted : Sky.State Unit Bool where
  place := shown.place
  ground := start
  inFlight := Multiset.ofList ([greeting].map (Sending.mk "127.0.0.1" 36001)) +
    (Multiset.ofList (chunks.map (Sending.mk "127.0.0.1" 36001)) + shown.inFlight)
  log := shown.log ++ [.sentFile false 3 shuffled.transfer] ++ [.sent false 3 [104, 105]]

theorem run_posted : ReflTransGen sky.Step beginning posted :=
  .tail (.tail run_shown (sendsFile rfl)) (sends rfl)

/-- What is on its way then, in the order in which node 3 reads it. -/
def pending : List Sending :=
  [⟨"127.0.0.1", 35003, firstPlace⟩, ⟨"127.0.0.1", 36001, chunk 1⟩, ⟨"127.0.0.1", 36001, greeting⟩,
    ⟨"127.0.0.1", 36001, chunk 0⟩, ⟨"127.0.0.1", 35003, secondPlace⟩]

/-- The chunks come in the other order, with a position before them, the message between and a position after. -/
def evening : Sky.State Unit Bool :=
  arrived (arrived (arrived (arrived (arrived posted firstPlace (Multiset.ofList (pending.drop 1)))
    (chunk 1) (Multiset.ofList (pending.drop 2))) greeting (Multiset.ofList (pending.drop 3)))
    (chunk 0) (Multiset.ofList (pending.drop 4))) secondPlace 0

theorem run_evening : ReflTransGen sky.Step beginning evening := by
  have inFlight : posted.inFlight = Multiset.ofList pending := by decide
  have first : sky.Step posted (arrived posted firstPlace (Multiset.ofList (pending.drop 1))) := arrives inFlight
  refine .tail (.trans (.trans (.trans (.tail run_posted first) (passes ?_ rfl)) (passes ?_ rfl)) (passes ?_ rfl))
    (arrives rfl)
  all_goals decide

theorem readsOf_evening : readsOf evening.log = [firstPlace, chunk 1, greeting, chunk 0, secondPlace] := by
  simp only [evening, readsOf_arrived]
  rfl

theorem transfersOf_evening : transfersOf evening.log = [shuffled.transfer] := by
  simp only [evening, arrived, transfersOf_readLog]
  rfl

theorem distinct_evening : ((transfersOf evening.log).map Transfer.file_id).Nodup := by
  rw [transfersOf_evening]
  exact List.nodup_singleton _

theorem sent_evening : .sentFile false 3 shuffled.transfer ∈ evening.log := by
  have sent : .sentFile false 3 shuffled.transfer ∈ posted.log :=
    List.mem_append_left _ (List.mem_append_right _ (List.mem_singleton_self _))
  simp only [evening, arrived]
  iterate 5 apply subset_readLog
  exact sent

/-- Node 3 has read both chunks of the file. -/
theorem every_evening : ∀ i < shuffled.transfer.total_chunks,
    ∃ bytes, .received true bytes ∈ evening.log ∧ Brings shuffled.transfer i bytes := by
  intro i inside
  have read : ∀ bytes ∈ [firstPlace, chunk 1, greeting, chunk 0, secondPlace], .received true bytes ∈ evening.log :=
    fun bytes member => received_of_reads (readsOf_evening ▸ member)
  have cases : i = 0 ∨ i = 1 := by
    have two : shuffled.transfer.total_chunks = 2 := by decide
    omega
  rcases cases with rfl | rfl
  · exact ⟨chunk 0, read _ (by simp), shuffled.first, .of_serialize (by decide), rfl, by decide⟩
  · exact ⟨chunk 1, read _ (by simp), shuffled.second, .of_serialize (by decide), rfl, by decide⟩

/-- The table of node 3 in the end. -/
theorem satellites_evening :
    (evening.ground true).satellites = [⟨"127.0.0.1", 36001, .finite 30, .finite 25, 101⟩] := by
  have carriedFirst : Carried shuffled.first (chunk 0) := .of_serialize (by decide)
  have carriedSecond : Carried shuffled.second (chunk 1) := .of_serialize (by decide)
  rw [evening, satellites_arrived_position serialize_secondPlace shown_moved,
    satellites_arrived carriedFirst (.inr rfl), satellites_arrived (.of_serialize serialize_greeting) (.inl rfl),
    satellites_arrived carriedSecond (.inr rfl), satellites_arrived_position serialize_firstPlace shown_start]
  rfl

theorem greeted_evening : .handled true (.message 1 "hi") ∈ evening.log := by
  have text : decode ([104, 105] : List UInt8) = some "hi" := decode_eq_some.mpr (by decide)
  have handled : ∀ node, (Ground.handleConnection sky.float 5 node greeting).2 = some (.message 1 "hi") := by
    intro node
    rw [(Carried.of_serialize serialize_greeting).handle_message sky.float 5 node rfl]
    exact congrArg (Option.map (Handled.message 1)) text
  simp only [evening, arrived, handled]
  iterate 2 apply subset_readLog
  exact List.mem_append_right _ (List.mem_cons_of_mem _ (List.mem_singleton_self _))

/-- An entry is moved, a message shown and a file written. -/
theorem run_justified_greeted : ∃ s : Sky.State Unit Bool,
    (s.ground true).satellites = [⟨"127.0.0.1", 36001, .finite 30, .finite 25, 101⟩] ∧
    .handled true (.message 1 "hi") ∈ s.log ∧ .handled true (.written shuffled.transfer.cut.whole) ∈ s.log ∧
    (∀ g, List.Forall₂ (Tracks sky s.log) (start g).satellites (s.ground g).satellites) ∧
      ∀ g what, .handled g what ∈ s.log → Justified sky start s.log g what := by
  have sound := Sound.run configured nothing run_evening distinct_evening
  have written := sound.written (mem_transfersOf sent_evening) every_evening
  exact ⟨evening, satellites_evening, greeted_evening, written,
    Sky.run_justified configured nothing _ run_evening distinct_evening⟩

end longMessage
end Nexus.Python
