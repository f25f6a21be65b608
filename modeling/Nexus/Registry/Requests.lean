import Nexus.Registry.AsMap

namespace Nexus
open Entries

namespace NexusRegistryServer

/-- What a well-formed request asks for. -/
inductive Request
  | alter (change : Change String NodeInfo)
  | list
  | getPublicKey (name : String)

section Handling
variable {lib : Jsoncpp} {text : String}

/-- A text that the server reads as a request. -/
inductive WellFormed (lib : Jsoncpp) (text : String) : Request → Prop
  | alter {change : Change String NodeInfo} (asks : Asks lib text change) : WellFormed lib text (.alter change)
  | list {root : Json} (parsed : lib.parse text = some root)
      (action : stringMember lib root "action" = .ok "list") : WellFormed lib text .list
  | getPublicKey {root : Json} {name : String} (parsed : lib.parse text = some root)
      (action : stringMember lib root "action" = .ok "getPublicKey")
      (payload : stringMember lib root "name" = .ok name) : WellFormed lib text (.getPublicKey name)

/-- The nodes that a request leaves. -/
def Request.apply (nodes : List NodeInfo) : Request → List NodeInfo
  | .alter change => Entries.apply NodeInfo.name nodes change
  | _ => nodes

def Request.applyAll (nodes : List NodeInfo) (requests : List Request) : List NodeInfo :=
  requests.foldl Request.apply nodes

def Request.response (lib : Jsoncpp) (nodes : List NodeInfo) : Request → String
  | .alter (.put _) => "\x7b\"message\": \"Node registered successfully\"\x7d"
  | .alter (.amend _) => "\x7b\"message\":\"Node updated successfully\"\x7d"
  | .alter (.drop _) => "\x7b\"message\": \"Node deregistered successfully\"\x7d"
  | .list => getNodeList lib nodes
  | .getPublicKey name =>
    if (findNodeByName nodes name).publicKey.isEmpty then "\x7b\"error\": \"Node not found\"\x7d"
    else "\x7b\"publicKey\": \"" ++ (findNodeByName nodes name).publicKey ++ "\"\x7d"

theorem WellFormed.processRequest {request : Request} (formed : WellFormed lib text request) (nodes : List NodeInfo) :
    processRequest lib nodes text = .ok (request.response lib nodes, request.apply nodes) := by
  cases formed with
  | alter asks =>
    cases asks with
    | register parsed action payload =>
      rw [processRequest_register parsed action, payload]
      rfl
    | update parsed action payload =>
      rw [processRequest_update parsed action, payload, Except.map, updateNode_eq]
      rfl
    | deregister parsed action payload =>
      rw [processRequest_deregister parsed action, payload]
      rfl
  | list parsed action => exact processRequest_list parsed action nodes
  | getPublicKey parsed action payload =>
    rw [processRequest_getPublicKey parsed action, payload]
    rfl

theorem processAll_formed {texts : List String} {requests : List Request}
    (formed : List.Forall₂ (WellFormed lib) texts requests) (nodes : List NodeInfo) :
    ∃ responses, processAll lib nodes texts = .ok (responses, Request.applyAll nodes requests) :=
  processAll_steps (fun _ _ formed nodes => ⟨_, formed.processRequest nodes⟩) formed nodes

end Handling

/-- The change that a request asks for, if it asks for one. -/
def Request.change? : Request → Option (Change String NodeInfo)
  | .alter change => some change
  | _ => none

theorem Request.applyAll_eq (requests : List Request) (nodes : List NodeInfo) :
    Request.applyAll nodes requests = Entries.applyAll NodeInfo.name nodes (requests.filterMap Request.change?) := by
  induction requests generalizing nodes with
  | nil => rfl
  | cons request requests ih =>
    have step := ih (request.apply nodes)
    cases request with
    | alter change => exact step
    | list => exact step
    | getPublicKey name => exact step

end NexusRegistryServer
end Nexus
