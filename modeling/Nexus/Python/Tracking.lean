import Nexus.Binary64
import Nexus.Python.Delivered

namespace Nexus.Python

/-- An entry of `satellites`. -/
structure SatelliteEntry where
  ip : String
  port : Int
  x : Binary64
  y : Binary64
  satellite_id : Int
  deriving DecidableEq

/-- A ground node; its own position only matters for the distances. -/
structure Ground where
  node_id : Int
  satellites : List SatelliteEntry
  receiving_files : ReceivingFiles

namespace Ground

def addSatellite (self : Ground) (ip : String) (port : Int) (x y : Binary64) (satellite_id : Int) : Ground :=
  { self with satellites := self.satellites ++ [⟨ip, port, x, y, satellite_id⟩] }

section Positions
variable (float : String → Option Binary64)

/-- `map(float, payload.decode().split(','))` for exactly two parts; `none` is an exception. -/
def position (payload : List UInt8) : Option (Binary64 × Binary64) := do
  let text ← decode payload
  match text.toList.splitOn ',' with
  | [x, y] => some (← float (String.ofList x), ← float (String.ofList y))
  | _ => none

/-- The loop of `update_satellite_position`, which ends at the first entry of the satellite. -/
def move (satellite_id : Int) (place : Binary64 × Binary64) : List SatelliteEntry → List SatelliteEntry
  | [] => []
  | entry :: rest =>
    if satellite_id = entry.satellite_id then { entry with x := place.1, y := place.2 } :: rest
    else entry :: move satellite_id place rest

def updateSatellitePosition (self : Ground) (source_id : Int) (payload : List UInt8) : Ground :=
  match position float payload with
  | some place => { self with satellites := move source_id place self.satellites }
  | none => self

/-- `handle_connection` with the positions that it keeps. -/
def handleConnection (now : Int) (self : Ground) (available : List UInt8) : Ground × Option Handled :=
  let (receiving_files, handled) := GroundNode.handleConnection now self.receiving_files available
  let self := { self with receiving_files }
  match handled with
  | some (.position source_id payload) => (self.updateSatellitePosition float source_id payload, handled)
  | _ => (self, handled)

def handleConnections (self : Ground) : List (Int × List UInt8) → Ground × List Handled
  | [] => (self, [])
  | (now, available) :: later =>
    let first := handleConnection float now self available
    let rest := handleConnections first.1 later
    (rest.1, first.2.toList ++ rest.2)

/-- The satellite and the position that a connection reports. -/
def report (connection : Int × List UInt8) : Option (Int × (Binary64 × Binary64)) := do
  let packet ← opened connection
  if packet.type = .data then (position float packet.payload).map (packet.source_id, ·) else none

def reportOf (satellite_id : Int) (connection : Int × List UInt8) : Option (Binary64 × Binary64) :=
  (report float connection).bind fun r => if r.1 = satellite_id then some r.2 else none

/-- The last position that is reported of a satellite. -/
def lastReport (satellite_id : Int) (arrivals : List (Int × List UInt8)) : Option (Binary64 × Binary64) :=
  (arrivals.filterMap (reportOf float satellite_id)).getLast?

end Positions

section Moving
variable {satellite_id : Int} {place : Binary64 × Binary64}

theorem move_ids (satellites : List SatelliteEntry) :
    (move satellite_id place satellites).map SatelliteEntry.satellite_id =
      satellites.map SatelliteEntry.satellite_id := by
  induction satellites with
  | nil => rfl
  | cons entry rest ih =>
    rw [move]
    split
    · rfl
    · rw [List.map_cons, ih, List.map_cons]

/-- Only the first entry of the satellite is moved. -/
theorem getElem?_move (satellites : List SatelliteEntry) (i : Nat) :
    (move satellite_id place satellites)[i]? = satellites[i]?.map fun entry =>
      if entry.satellite_id = satellite_id ∧ satellite_id ∉ (satellites.take i).map SatelliteEntry.satellite_id then
        { entry with x := place.1, y := place.2 } else entry := by
  induction satellites generalizing i with
  | nil => rfl
  | cons first rest ih =>
    rw [move]
    by_cases here : satellite_id = first.satellite_id
    · rw [if_pos here]
      cases i with
      | zero => simp [here]
      | succ i => simp [here]
    · rw [if_neg here]
      cases i with
      | zero => simp [Ne.symm here]
      | succ i => simp [ih, here]

end Moving

section Runs
variable (float : String → Option Binary64) (self : Ground)

/-- A node handles a position exactly for a packet with data. -/
theorem handled_cases (now : Int) (files : ReceivingFiles) (available : List UInt8) :
    (∃ packet, opened (now, available) = some packet ∧ packet.type = .data ∧
      GroundNode.handleConnection now files available =
        (files, some (.position packet.source_id packet.payload))) ∨
    (∀ packet, opened (now, available) = some packet → packet.type ≠ .data) ∧
      ∀ source_id payload,
        (GroundNode.handleConnection now files available).2 ≠ some (.position source_id payload) := by
  unfold GroundNode.handleConnection
  by_cases empty : read available = []
  · have raised : opened (now, available) = none := by
      rw [opened, empty]
      rfl
    refine .inr ⟨fun packet known => ?_, fun source_id payload handled => ?_⟩
    · rw [raised] at known
      cases known
    · rw [if_pos empty] at handled
      cases handled
  cases known : Packet.deserialize now (read available) with
  | error =>
    refine .inr ⟨fun packet opens => ?_, fun source_id payload handled => ?_⟩
    · rw [opened, known] at opens
      cases opens
    · simp only [if_neg empty, known] at handled
      cases handled
  | ok packet =>
    have opens : opened (now, available) = some packet := opened_eq_some known
    cases type : packet.type with
    | data => exact .inl ⟨packet, opens, type, by simp only [if_neg empty, known, type]⟩
    | ack => simp [empty, known, type, opens]
    | handshake => simp [empty, known, type, opens]
    | groundComm => simp [empty, known, type, opens]
    | fileTransfer => simp [empty, known, type, opens]

/-- A connection that reports a position has it kept; the files do not depend on the positions. -/
theorem handleConnection_eq (now : Int) (available : List UInt8) :
    handleConnection float now self available = (⟨self.node_id,
      match report float (now, available) with
      | some r => move r.1 r.2 self.satellites
      | none => self.satellites,
      (GroundNode.handleConnection now self.receiving_files available).1⟩,
      (GroundNode.handleConnection now self.receiving_files available).2) := by
  unfold handleConnection report
  rcases handled_cases now self.receiving_files available with ⟨packet, opens, type, handled⟩ | ⟨other, handled⟩
  · simp only [handled, opens, updateSatellitePosition, Option.bind_eq_bind, Option.bind_some, type, if_true]
    cases position float packet.payload <;> rfl
  · have untold : ((opened (now, available)).bind fun packet =>
        if packet.type = .data then (position float packet.payload).map (packet.source_id, ·) else none) = none := by
      cases opens : opened (now, available) with
      | none => rfl
      | some packet => simp [other packet opens]
    simp only [Option.bind_eq_bind, untold]

theorem lastReport_cons (satellite_id : Int) (a : Int × List UInt8) (later : List (Int × List UInt8)) :
    lastReport float satellite_id (a :: later) =
      (lastReport float satellite_id later).or (reportOf float satellite_id a) := by
  unfold lastReport
  cases told : reportOf float satellite_id a with
  | none => rw [List.filterMap_cons_none told, Option.or_none]
  | some place =>
    rw [List.filterMap_cons_some told, List.getLast?_cons]
    cases (later.filterMap (reportOf float satellite_id)).getLast? <;> rfl

/-- After any connections the first entry of every satellite has the last position that was reported
of it, and nothing else has changed in the table; the files are those that come without the positions. -/
theorem handleConnections_tracks (arrivals : List (Int × List UInt8)) :
    (∀ i, (self.handleConnections float arrivals).1.satellites[i]? = self.satellites[i]?.map fun entry =>
      if entry.satellite_id ∈ (self.satellites.take i).map SatelliteEntry.satellite_id then entry
      else match lastReport float entry.satellite_id arrivals with
        | some place => { entry with x := place.1, y := place.2 }
        | none => entry) ∧
    ((self.handleConnections float arrivals).1.receiving_files, (self.handleConnections float arrivals).2) =
      GroundNode.handleConnections self.receiving_files arrivals := by
  induction arrivals generalizing self with
  | nil =>
    refine ⟨fun i => ?_, rfl⟩
    have same : (fun entry : SatelliteEntry =>
        if entry.satellite_id ∈ (self.satellites.take i).map SatelliteEntry.satellite_id then entry
        else match lastReport float entry.satellite_id [] with
          | some place => { entry with x := place.1, y := place.2 }
          | none => entry) = id := by
      funext entry
      exact ite_self entry
    rw [same, Option.map_id]
    rfl
  | cons a later ih =>
    obtain ⟨now, available⟩ := a
    rw [handleConnections, GroundNode.handleConnections, handleConnection_eq]
    obtain ⟨table, files⟩ := ih ⟨self.node_id,
      match report float (now, available) with
      | some r => move r.1 r.2 self.satellites
      | none => self.satellites,
      (GroundNode.handleConnection now self.receiving_files available).1⟩
    refine ⟨fun i => ?_, ?_⟩
    · rw [table]
      simp only [lastReport_cons, reportOf]
      cases told : report float (now, available) with
      | none => simp only [Option.bind_none, Option.or_none]
      | some r =>
        simp only [List.map_take, move_ids, getElem?_move, Option.map_map]
        congr 1
        funext entry
        by_cases here : entry.satellite_id = r.1
        · by_cases seen : r.1 ∈ (self.satellites.map SatelliteEntry.satellite_id).take i
          · simp [here, seen]
          · simp only [Function.comp_apply, here, seen, not_false_eq_true, and_self, if_true, if_false, Option.bind_some]
            cases lastReport float r.1 later <;> rfl
        · simp [here, Ne.symm here]
    · obtain ⟨sameFiles, sameHandled⟩ := Prod.mk.inj files
      dsimp only
      rw [sameFiles, sameHandled]

end Runs
end Ground
end Nexus.Python
