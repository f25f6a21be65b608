import Nexus.Registry.Requests

namespace Nexus
open Entries

namespace NexusRegistryServer

theorem map_name_applyAll (requests : List Request) (nodes : List NodeInfo) :
    (Request.applyAll nodes requests).map NodeInfo.name =
      ((nodes.map NodeInfo.name).filter fun name => !(requests.filterMap Request.change?).any (drops name)) ++
        surviving NodeInfo.name (requests.filterMap Request.change?) := by
  rw [Request.applyAll_eq, map_key_applyAll]

/-- A late update brings no node back. -/
theorem keeps_names {lib : Jsoncpp} {text : String} {node : NodeInfo} (asks : Asks lib text (.amend node))
    (nodes : List NodeInfo) :
    ∃ response nodes', processRequest lib nodes text = .ok (response, nodes') ∧
      nodes'.map NodeInfo.name = nodes.map NodeInfo.name := by
  obtain ⟨response, answered⟩ := asks.processRequest nodes
  exact ⟨response, _, answered, map_key_amendFirst NodeInfo.name node nodes⟩

/-- Whatever well-formed requests the clients send, and in whatever order they are handled, the nodes listed are
those registered and not deregistered afterwards, in the order in which they registered. -/
theorem map_name_processAll (lib : Jsoncpp) (texts : List String) (requests : List Request)
    (formed : List.Forall₂ (WellFormed lib) texts requests) :
    ∃ responses nodes, processAll lib [] texts = .ok (responses, nodes) ∧
      nodes.map NodeInfo.name = surviving NodeInfo.name (requests.filterMap Request.change?) ∧
      (∀ text node, Asks lib text (.amend node) → ∃ response nodes',
        processRequest lib nodes text = .ok (response, nodes') ∧
          nodes'.map NodeInfo.name = nodes.map NodeInfo.name) ∧
      (∀ text name, Asks lib text (.drop name) → ∃ response,
        processRequest lib nodes text = .ok (response, nodes.filter fun node => node.name ≠ name)) := by
  obtain ⟨responses, run⟩ := processAll_formed formed []
  refine ⟨responses, _, run, ?_, fun text node asks => keeps_names asks _, fun text name asks => ?_⟩
  · rw [map_name_applyAll, List.map_nil, List.filter_nil, List.nil_append]
  · exact asks.processRequest _

namespace shutdown

/-- The library on the five requests of one node. -/
def lib : Jsoncpp where
  parse text :=
    (["register", "list", "getPublicKey", "deregister", "update"].find? fun action =>
      text = restart.request action 33001).map fun action => restart.payload action 33001
  writeString _ := restart.listText 33001
  realToString _ := "0.0"

/-- A node whose last update comes after its deregistration stays away. -/
theorem map_name_processAll_late :
    ∃ responses nodes,
      processAll lib []
          [restart.request "register" 33001, restart.request "list" 33001, restart.request "getPublicKey" 33001,
            restart.request "deregister" 33001, restart.request "update" 33001] = .ok (responses, nodes) ∧
      nodes.map NodeInfo.name =
        surviving NodeInfo.name ([.alter (.put (restart.node 33001)), .list, .getPublicKey "sat1",
          .alter (.drop "sat1"), .alter (.amend (restart.node 33001))].filterMap Request.change?) ∧
      (∀ text node, Asks lib text (.amend node) → ∃ response nodes',
        processRequest lib nodes text = .ok (response, nodes') ∧
          nodes'.map NodeInfo.name = nodes.map NodeInfo.name) ∧
      (∀ text name, Asks lib text (.drop name) → ∃ response,
        processRequest lib nodes text = .ok (response, nodes.filter fun node => node.name ≠ name)) := by
  have parsed_register : lib.parse (restart.request "register" 33001) = some (restart.payload "register" 33001) := rfl
  have parsed_list : lib.parse (restart.request "list" 33001) = some (restart.payload "list" 33001) := rfl
  have parsed_key : lib.parse (restart.request "getPublicKey" 33001) =
    some (restart.payload "getPublicKey" 33001) := rfl
  have parsed_deregister : lib.parse (restart.request "deregister" 33001) =
    some (restart.payload "deregister" 33001) := rfl
  have parsed_update : lib.parse (restart.request "update" 33001) = some (restart.payload "update" 33001) := rfl
  exact map_name_processAll lib _ _
    (.cons (.alter (.register parsed_register (by decide) (by decide +kernel)))
      (.cons (.list parsed_list (by decide))
        (.cons (.getPublicKey parsed_key (by decide) (by decide))
          (.cons (.alter (.deregister parsed_deregister (by decide) (by decide)))
            (.cons (.alter (.update parsed_update (by decide) (by decide +kernel))) .nil)))))

end shutdown
end NexusRegistryServer
end Nexus
