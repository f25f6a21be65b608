import Nexus.Movement
import Nexus.Registry.Following

namespace Nexus
open Entries NexusRegistryServer

/-- What a call posts to the registry. -/
structure Post where
  url : String
  payload : String

/-- How a transfer by libcurl ends, with what was received until then. The code is whatever is read as the response
code, which the caller asks for after it has cleaned up. -/
inductive Transfer
  | notPrepared
  | failed (received : String)
  | done (httpCode : Int) (received : String)

namespace NetworkManager

/-- The result of `performCurlRequest`, and what it leaves in `response`. -/
def performCurlRequest (response : String) : Transfer → Bool × String
  | .notPrepared => (false, response)
  | .failed received => (false, response ++ received)
  | .done httpCode received => (!decide (400 ≤ httpCode), response ++ received)

/-- `publicKey` is what the node's `getPublicKey` returns. -/
def createNodePayload (action : String) (node : Node) (publicKey : String) : Except Fault Json := do
  let payload := Json.null
  let payload ← payload.set "action" (.string action)
  let payload ← payload.set "type" (.string node.type.toString)
  let payload ← payload.set "name" (.string node.name)
  let payload ← payload.set "ip" (.string node.ip)
  let payload ← payload.set "port" (.int node.port)
  let payload ← payload.set "x" (.real node.coords.1)
  let payload ← payload.set "y" (.real node.coords.2)
  payload.set "publicKey" (.string publicKey)

section Calls
variable (toStyledString : Json → String) (registryAddress : String)

def nodePost (action : String) (node : Node) (publicKey : String) : Except Fault Post := do
  let payload ← createNodePayload action node publicKey
  pure ⟨registryAddress ++ "/" ++ action, toStyledString payload⟩

variable (transfer : Post → Transfer)

def registerNodeWithRegistry (node : Node) (publicKey : String) : Except Fault Bool := do
  let post ← nodePost toStyledString registryAddress "register" node publicKey
  pure (performCurlRequest "" (transfer post)).1

/-- Whether the request succeeds makes no difference. -/
def deregisterNodeWithRegistry (node : Node) (publicKey : String) : Except Fault Unit := do
  let post ← nodePost toStyledString registryAddress "deregister" node publicKey
  let _ := performCurlRequest "" (transfer post)
  pure ()

def updateNodeInRegistry (node : Node) (publicKey : String) : Except Fault Bool := do
  let post ← nodePost toStyledString registryAddress "update" node publicKey
  pure (performCurlRequest "" (transfer post)).1

end Calls

/-- The object of `createNodePayload`, its members by name. -/
def nodePayload (action : String) (node : Node) (publicKey : String) : Json :=
  .object [("action", .string action), ("ip", .string node.ip), ("name", .string node.name), ("port", .int node.port),
    ("publicKey", .string publicKey), ("type", .string node.type.toString), ("x", .real node.coords.1),
    ("y", .real node.coords.2)]

/-- What is posted for the list, to the address itself. -/
def listPayload : Json := .object [("action", .string "list")]

theorem createNodePayload_eq (action : String) (node : Node) (publicKey : String) :
    createNodePayload action node publicKey = .ok (nodePayload action node publicKey) := rfl

end NetworkManager
open NetworkManager

/-- The record of a node as the server stores an update of it. -/
def Node.info (node : Node) (publicKey : String) : NodeInfo :=
  ⟨node.type.toString, node.name, node.ip, node.coords, node.port, publicKey⟩

/-- The record that the server makes of the node when it registers. -/
def Node.registered (node : Node) (publicKey : String) : NodeInfo :=
  { node.info publicKey with
    coords := (roundToTwoDecimalPlaces node.coords.1, roundToTwoDecimalPlaces node.coords.2) }

section Requests
variable {lib : Jsoncpp} {node : Node} {publicKey text : String}

/-- A coordinate that is written as text so that it is read back. -/
def Legible (lib : Jsoncpp) (v : Binary64) : Prop := stod (lib.realToString v) = .ok v

theorem asks_register (parsed : lib.parse text = some (nodePayload "register" node publicKey))
    (portRange : INT_MIN ≤ node.port ∧ node.port ≤ INT_MAX) (legibleX : Legible lib node.coords.1)
    (legibleY : Legible lib node.coords.2) : Asks lib text (.put (node.registered publicKey)) := by
  refine .register parsed rfl ?_
  have port : intMember (nodePayload "register" node publicKey) "port" = .ok node.port := if_pos portRange
  have textX : stringMember lib (nodePayload "register" node publicKey) "x" =
    .ok (lib.realToString node.coords.1) := rfl
  have textY : stringMember lib (nodePayload "register" node publicKey) "y" =
    .ok (lib.realToString node.coords.2) := rfl
  unfold Legible at legibleX legibleY
  simp only [registeredNode, textX, textY, port, legibleX, legibleY, ok_bind]
  rfl

theorem asks_update (parsed : lib.parse text = some (nodePayload "update" node publicKey))
    (portRange : INT_MIN ≤ node.port ∧ node.port ≤ INT_MAX) : Asks lib text (.amend (node.info publicKey)) := by
  refine .update parsed rfl ?_
  have port : intMember (nodePayload "update" node publicKey) "port" = .ok node.port := if_pos portRange
  simp only [updatedNode, port, ok_bind]
  rfl

theorem asks_deregister (parsed : lib.parse text = some (nodePayload "deregister" node publicKey)) :
    Asks lib text (.drop node.name) :=
  .deregister parsed rfl rfl

theorem formed_list (parsed : lib.parse text = some listPayload) : WellFormed lib text .list :=
  .list parsed rfl

end Requests
end Nexus
