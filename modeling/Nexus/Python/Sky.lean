import Nexus.Python.Retries
import Nexus.Python.Tracking
import Mathlib.Data.Multiset.AddSub
import Mathlib.Logic.Relation

namespace Nexus.Python
open GroundNode Relation

namespace Ground

/-- `min` over the distances; `closer` tells whether the distance of one entry is below that of another. -/
def nearest (closer : SatelliteEntry → SatelliteEntry → Bool) : List SatelliteEntry → Option SatelliteEntry
  | [] => none
  | first :: rest => some (rest.foldl (fun best entry => if closer entry best then entry else best) first)

theorem mem_of_nearest {closer : SatelliteEntry → SatelliteEntry → Bool} {satellites : List SatelliteEntry}
    {entry : SatelliteEntry} (found : nearest closer satellites = some entry) : entry ∈ satellites := by
  have among : ∀ (rest : List SatelliteEntry) (first : SatelliteEntry),
      rest.foldl (fun best entry => if closer entry best then entry else best) first ∈ first :: rest := by
    intro rest
    induction rest with
    | nil => exact fun first => List.mem_singleton_self first
    | cons second rest ih =>
      intro first
      rw [List.foldl_cons]
      split
      · exact List.mem_cons_of_mem _ (ih second)
      · rcases List.mem_cons.mp (ih first) with same | later
        · rw [same]
          exact List.mem_cons_self
        · exact List.mem_cons_of_mem _ (List.mem_cons_of_mem _ later)
  cases satellites with
  | nil => cases found
  | cons first rest => exact Option.some.inj found ▸ among rest first

end Ground

/-- Satellites and ground nodes, who listens at an address, and how numbers are written and read. -/
structure Sky (V G : Type) where
  satellite : V → SatelliteNode
  host : String × Int → Option (V ⊕ G)
  closer : G → SatelliteEntry → SatelliteEntry → Bool
  str : Binary64 → String
  float : String → Option Binary64

inductive Event (V G : Type)
  | broadcast (v : V) (place : Binary64 × Binary64)
  | sent (g : G) (destination_id : Int) (payload : List UInt8)
  | sentFile (g : G) (destination_id : Int) (t : Transfer)
  | received (g : G) (bytes : List UInt8)
  | handled (g : G) (what : Handled)

def Event.transfer {V G : Type} : Event V G → Option Transfer
  | .sentFile _ _ t => some t
  | _ => none

def transfersOf {V G : Type} (log : List (Event V G)) : List Transfer := log.filterMap Event.transfer

/-- Where the satellites are, the ground nodes, what is written to connections and not yet read, and what was done. -/
structure Sky.State (V G : Type) where
  place : V → Binary64 × Binary64
  ground : G → Ground
  inFlight : Multiset Sending
  log : List (Event V G)

namespace Sky
variable {V G : Type} (c : Sky V G)

/-- The payload with a position. -/
def text (place : Binary64 × Binary64) : List UInt8 := encode (c.str place.1 ++ "," ++ c.str place.2)

/-- The packet of `broadcast_position`. -/
def positionPacket (now : Int) (v : V) (place : Binary64 × Binary64) : Packet :=
  .init now (c.satellite v).node_id 0 .data 1 0 (c.text place)

/-- What a ground node reads of a position that a satellite has sent. -/
def shown (place : Binary64 × Binary64) : Option (Binary64 × Binary64) :=
  Ground.position c.float ((c.text place).take 4074)

/-- The steps of all nodes. A write that fails changes nothing; a satellite can be anywhere after a move; the id of a
file is drawn at random, and another file may have it already. -/
inductive Step [DecidableEq V] [DecidableEq G] : State V G → State V G → Prop
  | move (s : State V G) (v : V) (place : Binary64 × Binary64) :
      Step s { s with place := Function.update s.place v place }
  | broadcast {s : State V G} {v : V} {entry : GroundEntry} {bytes : List UInt8} (now : Int)
      (known : entry ∈ (c.satellite v).ground_nodes)
      (written : (c.positionPacket now v (s.place v)).serialize = .ok bytes) :
      Step s { s with
        inFlight := {⟨entry.ip, entry.port, bytes⟩} + s.inFlight
        log := s.log ++ [.broadcast v (s.place v)] }
  | send {s : State V G} {g : G} {entry : SatelliteEntry} (destination_id : Int) (payload : List UInt8)
      (max_retries : Nat) (now : Nat → Int) (outcome : Nat → Try)
      (nearest : Ground.nearest (c.closer g) (s.ground g).satellites = some entry) :
      Step s { s with
        inFlight := Multiset.ofList ((messageTries max_retries
          (fun k => sendToNearestSatellite (now k) (s.ground g).node_id destination_id payload) outcome).map
            (Sending.mk entry.ip entry.port)) + s.inFlight
        log := s.log ++ [.sent g destination_id payload] }
  | sendFile {s : State V G} {g : G} {entry : SatelliteEntry} (destination_id : Int) (t : Transfer) (times : Nat → Int)
      {packets : List Packet} (max_retries : Nat) (outcome : Nat → Nat → Try)
      (nearest : Ground.nearest (c.closer g) (s.ground g).satellites = some entry)
      (built : sendFileToNearestSatellite (s.ground g).node_id destination_id t.file_id t.file_data t.chunk_size times =
        .ok packets) :
      Step s { s with
        inFlight := Multiset.ofList ((fileTries max_retries packets outcome).map (Sending.mk entry.ip entry.port)) +
          s.inFlight
        log := s.log ++ [.sentFile g destination_id t] }
  | forward {s : State V G} {v : V} {sending : Sending} {rest : Multiset Sending} (now : Int)
      (here : s.inFlight = sending ::ₘ rest) (listens : c.host (sending.ip, sending.port) = some (.inl v)) :
      Step s { s with
        inFlight := Multiset.ofList ((c.satellite v).handleConnection now sending.bytes) + rest }
  | handle {s : State V G} {g : G} {sending : Sending} {rest : Multiset Sending} (now : Int)
      (here : s.inFlight = sending ::ₘ rest) (listens : c.host (sending.ip, sending.port) = some (.inr g)) :
      Step s { s with
        ground := Function.update s.ground g
          (Ground.handleConnection c.float now (s.ground g) sending.bytes).1
        inFlight := rest
        log := s.log ++ .received g sending.bytes ::
          ((Ground.handleConnection c.float now (s.ground g) sending.bytes).2.map (Event.handled g)).toList }
  | lose {s : State V G} {sending : Sending} {rest : Multiset Sending} (here : s.inFlight = sending ::ₘ rest) :
      Step s { s with inFlight := rest }

variable {c} [DecidableEq V] [DecidableEq G] {s s' : State V G}

theorem Step.log (step : c.Step s s') : ∃ new, s'.log = s.log ++ new := by
  cases step with
  | broadcast | send | sendFile | handle => exact ⟨_, rfl⟩
  | move | forward | lose => exact ⟨[], (List.append_nil _).symm⟩

/-- Ids that differ in the end differ all along. -/
theorem Step.distinct (step : c.Step s s') (distinct : ((transfersOf s'.log).map Transfer.file_id).Nodup) :
    ((transfersOf s.log).map Transfer.file_id).Nodup := by
  obtain ⟨new, log⟩ := step.log
  rw [log, transfersOf, List.filterMap_append, List.map_append] at distinct
  exact distinct.of_append_left

end Sky

namespace Sky
variable {V G : Type} (c : Sky V G)

/-- Before the first step. -/
def initial (place : V → Binary64 × Binary64) (start : G → Ground) : State V G := ⟨place, start, 0, []⟩

/-- The addresses that are entered for nodes are theirs. -/
structure Configured (start : G → Ground) : Prop where
  grounds : ∀ v, ∀ entry ∈ (c.satellite v).ground_nodes, ∀ g, c.host (entry.ip, entry.port) = some (.inr g) →
    (start g).node_id = entry.ground_id
  peers : ∀ v, ∀ entry ∈ (c.satellite v).peer_satellites, ∀ g, c.host (entry.ip, entry.port) ≠ some (.inr g)
  satellites : ∀ g, ∀ entry ∈ (start g).satellites, ∀ g', c.host (entry.ip, entry.port) ≠ some (.inr g')

end Sky
end Nexus.Python
