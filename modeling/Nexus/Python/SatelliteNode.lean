import Nexus.Python.GroundNode

namespace Nexus.Python

/-- An entry of `ground_nodes`; its position does not matter for a packet. -/
structure GroundEntry where
  ip : String
  port : Int
  ground_id : Int
  deriving DecidableEq

/-- An entry of `peer_satellites`. -/
structure PeerEntry where
  ip : String
  port : Int
  peer_id : Int
  deriving DecidableEq

structure SatelliteNode where
  node_id : Int
  ground_nodes : List GroundEntry
  peer_satellites : List PeerEntry

/-- A connection that is opened, with the bytes that are written to it. -/
structure Sending where
  ip : String
  port : Int
  bytes : List UInt8
  deriving DecidableEq

namespace SatelliteNode

def addPeerSatellite (self : SatelliteNode) (ip : String) (port peer_id : Int) : SatelliteNode :=
  { self with peer_satellites := self.peer_satellites ++ [⟨ip, port, peer_id⟩] }

/-- Nothing is written where the packet does not fit the format. -/
def forwardPacket (ip : String) (port : Int) (packet : Packet) : List Sending :=
  match packet.serialize with
  | .ok bytes => [⟨ip, port, bytes⟩]
  | .error _ => []

def forwardToPeers (self : SatelliteNode) (packet : Packet) : List Sending :=
  self.peer_satellites.flatMap fun peer => forwardPacket peer.ip peer.port packet

/-- What a satellite sends on for a connection. -/
def handleConnection (self : SatelliteNode) (now : Int) (available : List UInt8) : List Sending :=
  let data := read available
  if data = [] then []
  else
    match Packet.deserialize now data with
    | .error _ => []
    | .ok packet =>
      if packet.type = .groundComm ∨ packet.type = .fileTransfer then
        match self.ground_nodes.find? fun node => node.ground_id = packet.destination_id with
        | some target_ground => forwardPacket target_ground.ip target_ground.port packet
        | none => self.forwardToPeers packet
      else []

end SatelliteNode
end Nexus.Python
