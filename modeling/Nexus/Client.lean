import Nexus.Json
import Nexus.NetworkManager

namespace Nexus

namespace NodeType

def toString : NodeType → String
  | ground => "Ground"
  | satellite => "Satellite"
  | unknown => "Unknown"

def fromString (typeStr : String) : NodeType :=
  if typeStr = "ground" ∨ typeStr = "Ground" then ground
  else if typeStr = "satellite" ∨ typeStr = "Satellite" then satellite
  else unknown

theorem fromString_toString (type : NodeType) : fromString type.toString = type := by
  cases type with
  | ground => rfl
  | satellite => rfl
  | unknown => rfl

end NodeType

namespace Json

def isMember (root : Json) (key : String) : Except Fault Bool :=
  match root with
  | null => .ok false
  | object members => .ok (lookup key members).isSome
  | _ => .error (.thrown "in Json::Value::find(key): requires objectValue or nullValue")

/-- `root.get(key, defaultValue)`. -/
def get (root : Json) (key : String) (defaultValue : Json) : Except Fault Json :=
  match root with
  | null => .ok defaultValue
  | object members => .ok ((lookup key members).getD defaultValue)
  | _ => .error (.thrown "in Json::Value::find(begin, end): requires objectValue or nullValue")

end Json

namespace NetworkManager

/-- A network manager as it is made. -/
def fresh : NetworkManager := ⟨.empty, [], []⟩

def nodeExists (nm : NetworkManager) (node : Node) : Bool :=
  nm.nodes.any fun existingNode =>
    existingNode.name = node.name ∧ existingNode.ip = node.ip ∧ existingNode.port = node.port

/-- The loop of `addNode`, which stops at the first node of the name. -/
def setCoords (node : Node) : List Node → List Node
  | [] => []
  | existingNode :: rest =>
    if existingNode.name = node.name then { existingNode with coords := node.coords } :: rest
    else existingNode :: setCoords node rest

def addNode (nm : NetworkManager) (node : Node) : NetworkManager :=
  if nm.nodeExists node then { nm with nodes := setCoords node nm.nodes }
  else { nm with nodes := nm.nodes ++ [node] }

def removeNode (nm : NetworkManager) (id : String) : NetworkManager :=
  { nm with nodes := nm.nodes.filter fun node => ¬node.id = id }

section Registry
variable (lib : Jsoncpp)

/-- `none` is the null pointer; the constructor of a node draws its `id`. -/
def parseNodeFromJson (id : String) (nodeJson : Json) : Except Fault (Option Node) := do
  let name ← nodeJson.isMember "name"
  let ip ← nodeJson.isMember "ip"
  let port ← nodeJson.isMember "port"
  if !name || !ip || !port then pure none
  else
    let x ← (← nodeJson.get "x" (.real (.finite 0))).asDouble
    let y ← (← nodeJson.get "y" (.real (.finite 0))).asDouble
    let type ← (← nodeJson.member "type").asString lib
    let name ← (← nodeJson.member "name").asString lib
    let ip ← (← nodeJson.member "ip").asString lib
    let port ← (← nodeJson.member "port").asInt
    pure (some ⟨NodeType.fromString type, id, name, ip, port, (x, y)⟩)

/-- What `fetchNodesFromRegistry` does with an entry of the list; `ids` are those drawn for the new nodes. -/
def fetchEntry (ids : Nat → String) (nm : NetworkManager) (entry : Json × Nat) : Except Fault NetworkManager :=
  match entry.1 with
  | .object members => do
    let node ← parseNodeFromJson lib (ids entry.2) (.object members)
    match node with
    | some node => pure (nm.addNode node)
    | none => pure nm
  | _ => .ok nm

def fetchNodesFromRegistry (ids : Nat → String) (nm : NetworkManager) (response : String) :
    Except Fault NetworkManager :=
  match lib.parse response with
  | some (.array nodeListJson) => nodeListJson.zipIdx.foldlM (fetchEntry lib ids) nm
  | _ => .ok nm

/-- What the code makes of the response to its question for a key. -/
def getNodePublicKey (nodeName response : String) : Except Fault String :=
  match lib.parse response with
  | none => .error (.thrown "Invalid response while fetching public key: ")
  | some jsonResponse => do
    let present ← jsonResponse.isMember "publicKey"
    if !present then .error (.thrown ("No public key found for node: " ++ nodeName))
    else
      let publicKey ← jsonResponse.member "publicKey"
      publicKey.asString lib

end Registry

end NetworkManager
end Nexus
