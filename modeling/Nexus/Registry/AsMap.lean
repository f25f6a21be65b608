import Nexus.Registry.Server

namespace Nexus
open Entries

namespace NexusRegistryServer

section Changes
variable {lib : Jsoncpp} {nodes : List NodeInfo}

theorem updateNode_eq (node : NodeInfo) (nodes : List NodeInfo) :
    updateNode node nodes = amendFirst NodeInfo.name node nodes := by
  induction nodes with
  | nil => rfl
  | cons existingNode rest ih =>
    rw [updateNode, amendFirst, ih]
    by_cases same : existingNode.name = node.name
    · rw [if_pos same, if_pos same, same]
    · rw [if_neg same, if_neg same]

/-- A well-formed request for a change: every member that the server reads for it can be read. -/
inductive Asks (lib : Jsoncpp) (request : String) : Change String NodeInfo → Prop
  | register {root : Json} {node : NodeInfo} (parsed : lib.parse request = some root)
      (action : stringMember lib root "action" = .ok "register") (payload : registeredNode lib root = .ok node) :
      Asks lib request (.put node)
  | update {root : Json} {node : NodeInfo} (parsed : lib.parse request = some root)
      (action : stringMember lib root "action" = .ok "update") (payload : updatedNode lib root = .ok node) :
      Asks lib request (.amend node)
  | deregister {root : Json} {name : String} (parsed : lib.parse request = some root)
      (action : stringMember lib root "action" = .ok "deregister")
      (payload : stringMember lib root "name" = .ok name) : Asks lib request (.drop name)

/-- The server makes the change that a well-formed request asks for. -/
theorem Asks.processRequest {request : String} {change : Change String NodeInfo} (asks : Asks lib request change)
    (nodes : List NodeInfo) :
    ∃ response, processRequest lib nodes request = .ok (response, apply NodeInfo.name nodes change) := by
  cases asks with
  | register parsed action payload =>
    rw [processRequest_register parsed action, payload]
    exact ⟨_, rfl⟩
  | update parsed action payload =>
    rw [processRequest_update parsed action, payload, Except.map, updateNode_eq]
    exact ⟨_, rfl⟩
  | deregister parsed action payload =>
    rw [processRequest_deregister parsed action, payload]
    exact ⟨_, rfl⟩

/-- Requests of a kind that the server handles by one step each are handled by the steps in turn. -/
theorem processAll_steps {α : Type} {Kind : String → α → Prop} {step : List NodeInfo → α → List NodeInfo}
    (handled : ∀ request move, Kind request move → ∀ nodes, ∃ response,
      NexusRegistryServer.processRequest lib nodes request = .ok (response, step nodes move))
    {requests : List String} {moves : List α} (all : List.Forall₂ Kind requests moves) (nodes : List NodeInfo) :
    ∃ responses, processAll lib nodes requests = .ok (responses, moves.foldl step nodes) := by
  induction all generalizing nodes with
  | nil => exact ⟨[], rfl⟩
  | @cons request move requests moves kind _ ih =>
    obtain ⟨response, first⟩ := handled request move kind nodes
    obtain ⟨responses, later⟩ := ih (step nodes move)
    exact ⟨response :: responses, bind_eq_ok.mpr ⟨_, first, bind_eq_ok.mpr ⟨_, later, rfl⟩⟩⟩

theorem processAll_asked {requests : List String} {changes : List (Change String NodeInfo)}
    (asked : List.Forall₂ (Asks lib) requests changes) (nodes : List NodeInfo) :
    ∃ responses, processAll lib nodes requests = .ok (responses, applyAll NodeInfo.name nodes changes) :=
  processAll_steps (fun _ _ asks nodes => asks.processRequest nodes) asked nodes

theorem findNodeByName_eq (nodes : List NodeInfo) (name : String) :
    findNodeByName nodes name = (own NodeInfo.name name nodes).head?.getD emptyNode := by
  rw [findNodeByName, find?_eq]

end Changes

section Listing

/-- The object of a node, its members by name. -/
def entry (node : NodeInfo) : Json :=
  .object [("ip", .string node.ip), ("name", .string node.name), ("port", .int node.port),
    ("publicKey", .string node.publicKey), ("type", .string node.type), ("x", .real node.coords.1),
    ("y", .real node.coords.2)]

theorem nodeJson_eq (node : NodeInfo) : nodeJson node = .ok (entry node) := by
  rfl

theorem appendNode_array (elements : List Json) (node : NodeInfo) :
    appendNode (.array elements) node = .ok (.array (elements ++ [entry node])) :=
  bind_eq_ok.mpr ⟨entry node, nodeJson_eq node, rfl⟩

theorem appendNodes_array (nodes : List NodeInfo) (elements : List Json) :
    nodes.foldlM appendNode (.array elements) = .ok (.array (elements ++ nodes.map entry)) := by
  induction nodes generalizing elements with
  | nil => rw [List.map_nil, List.append_nil, List.foldlM_nil]; rfl
  | cons node rest ih =>
    rw [List.foldlM_cons, appendNode_array, List.map_cons, List.append_cons elements (entry node) (rest.map entry)]
    exact ih (elements ++ [entry node])

theorem nodeListJson_cons (node : NodeInfo) (rest : List NodeInfo) :
    nodeListJson (node :: rest) = .ok (.array (entry node :: rest.map entry)) := by
  have first : appendNode .null node = .ok (.array [entry node]) :=
    bind_eq_ok.mpr ⟨entry node, nodeJson_eq node, rfl⟩
  rw [nodeListJson, List.foldlM_cons, first]
  exact appendNodes_array rest [entry node]

/-- A node list shows the entries of its nodes, in order. -/
theorem nodeListJson_eq (nodes : List NodeInfo) :
    ∃ root, nodeListJson nodes = .ok root ∧ root.elements = nodes.map entry := by
  cases nodes with
  | nil => exact ⟨.null, rfl, rfl⟩
  | cons node rest => exact ⟨_, nodeListJson_cons node rest, rfl⟩

/-- The name that an entry shows. -/
def shownName (n : Json) : Option String :=
  match n.member "name" with
  | .ok (.string name) => some name
  | _ => none

theorem shownName_entry (node : NodeInfo) : shownName (entry node) = some node.name := by
  simp [shownName, entry, Json.member, Json.lookup]

/-- The entries that a list shows under a name. -/
def shownUnder (name : String) (root : Json) : List Json := root.elements.filter fun n => shownName n = some name

theorem shownUnder_eq {nodes : List NodeInfo} {root : Json} (shown : root.elements = nodes.map entry)
    (name : String) :
    shownUnder name root = (own NodeInfo.name name nodes).map entry := by
  rw [shownUnder, shown, List.filter_map, own]
  congr 2
  funext node
  simp only [Function.comp_apply, shownName_entry, Option.some.injEq]

end Listing

/-- After any well-formed requests, a name has in the list and in the node list the record that a map
would have exactly if it was registered at most once after it was last deregistered. -/
theorem findNodeByName_getNodeList_iff (lib : Jsoncpp) (requests : List String)
    (changes : List (Change String NodeInfo)) (asked : List.Forall₂ (Asks lib) requests changes) (name : String) :
    ∃ responses nodes root, processAll lib [] requests = .ok (responses, nodes) ∧
      nodeListJson nodes = .ok root ∧ getNodeList lib nodes = lib.writeString root ∧
      ((findNodeByName nodes name = (mapAfter NodeInfo.name changes name).getD emptyNode ∧
          (shownUnder name root).map Except.ok = (mapAfter NodeInfo.name changes name).toList.map nodeJson) ↔
        putCount NodeInfo.name name changes ≤ 1) := by
  obtain ⟨responses, run⟩ := processAll_asked asked []
  obtain ⟨root, listed, shown⟩ := nodeListJson_eq (applyAll NodeInfo.name [] changes)
  refine ⟨responses, _, root, run, listed, by rw [getNodeList, listed], ?_⟩
  rw [shownUnder_eq shown, findNodeByName_eq]
  constructor
  · intro ⟨_, same⟩
    have size := congrArg List.length same
    rw [List.length_map, List.length_map, List.length_map, length_own] at size
    rw [size]
    exact Option.length_toList_le
  · intro few
    rw [own_eq few]
    refine ⟨?_, ?_⟩
    · cases mapAfter NodeInfo.name changes name with
      | none => rfl
      | some node => rfl
    · rw [List.map_map]
      exact List.map_congr_left fun node _ => (nodeJson_eq node).symm

namespace restart

def payload (action : String) (port : Int) : Json :=
  .object [("action", .string action), ("ip", .string "127.0.0.1"), ("name", .string "sat1"), ("port", .int port),
    ("publicKey", .string "key"), ("type", .string "Satellite"), ("x", .real (.finite 0)), ("y", .real (.finite 0))]

def request (action : String) (port : Int) : String :=
  "\x7b\"action\":\"" ++ action ++ "\",\"ip\":\"127.0.0.1\",\"name\":\"sat1\",\"port\":" ++ toString port ++
    ",\"publicKey\":\"key\",\"type\":\"Satellite\",\"x\":0.0,\"y\":0.0\x7d"

/-- What the list of `sat1` alone is written as. -/
def listText (port : Int) : String :=
  "[\n\t\x7b\n\t\t\"ip\" : \"127.0.0.1\",\n\t\t\"name\" : \"sat1\",\n\t\t\"port\" : " ++ toString port ++
    ",\n\t\t\"publicKey\" : \"key\",\n\t\t\"type\" : \"Satellite\",\n\t\t\"x\" : 0.0,\n\t\t\"y\" : 0.0\n\t\x7d\n]"

def node (port : Int) : NodeInfo := ⟨"Satellite", "sat1", "127.0.0.1", (.finite 0, .finite 0), port, "key"⟩

/-- The library on the texts below. -/
def lib : Jsoncpp where
  parse text :=
    if text = request "register" 33001 then some (payload "register" 33001)
    else if text = request "register" 33002 then some (payload "register" 33002)
    else if text = request "deregister" 33001 then some (payload "deregister" 33001)
    else none
  writeString _ := listText 33002
  realToString _ := "0.0"

theorem asks_register {port : Int} (either : port = 33001 ∨ port = 33002) :
    Asks lib (request "register" port) (.put (node port)) := by
  rcases either with rfl | rfl
  · have parsed : lib.parse (request "register" 33001) = some (payload "register" 33001) := rfl
    exact .register parsed (by decide) (by decide +kernel)
  · have parsed : lib.parse (request "register" 33002) = some (payload "register" 33002) := rfl
    exact .register parsed (by decide) (by decide +kernel)

theorem asks_deregister : Asks lib (request "deregister" 33001) (.drop "sat1") := by
  have parsed : lib.parse (request "deregister" 33001) = some (payload "deregister" 33001) := rfl
  exact .deregister parsed (by decide) (by decide)

/-- A node that deregisters before it registers again is known by its new port. -/
theorem findNodeByName_getNodeList_iff_restarted :
    ∃ responses nodes root,
      processAll lib [] [request "register" 33001, request "deregister" 33001, request "register" 33002] =
        .ok (responses, nodes) ∧
      nodeListJson nodes = .ok root ∧ getNodeList lib nodes = lib.writeString root ∧
      ((findNodeByName nodes "sat1" = (mapAfter NodeInfo.name [.put (node 33001), .drop "sat1", .put (node 33002)]
            "sat1").getD emptyNode ∧
          (shownUnder "sat1" root).map Except.ok =
            (mapAfter NodeInfo.name [.put (node 33001), .drop "sat1", .put (node 33002)] "sat1").toList.map nodeJson) ↔
        putCount NodeInfo.name "sat1" [.put (node 33001), .drop "sat1", .put (node 33002)] ≤ 1) :=
  findNodeByName_getNodeList_iff lib _ _
    (.cons (asks_register (Or.inl rfl)) (.cons asks_deregister (.cons (asks_register (Or.inr rfl)) .nil))) "sat1"

/-- A node that registers again without deregistering is known by its old port, and is shown twice. -/
theorem findNodeByName_stale :
    ∃ responses nodes root,
      List.Forall₂ (Asks lib) [request "register" 33001, request "register" 33002]
        [.put (node 33001), .put (node 33002)] ∧
      processAll lib [] [request "register" 33001, request "register" 33002] = .ok (responses, nodes) ∧
      mapAfter NodeInfo.name [.put (node 33001), .put (node 33002)] "sat1" = some (node 33002) ∧
      findNodeByName nodes "sat1" = node 33001 ∧
      nodeListJson nodes = .ok root ∧ (shownUnder "sat1" root).length = 2 := by
  have asked : List.Forall₂ (Asks lib) [request "register" 33001, request "register" 33002]
      [.put (node 33001), .put (node 33002)] :=
    .cons (asks_register (Or.inl rfl)) (.cons (asks_register (Or.inr rfl)) .nil)
  obtain ⟨responses, run⟩ := processAll_asked asked []
  obtain ⟨root, listed, shown⟩ := nodeListJson_eq (applyAll NodeInfo.name [] [.put (node 33001), .put (node 33002)])
  refine ⟨responses, _, root, asked, run, by decide, by decide, listed, ?_⟩
  rw [shownUnder_eq shown, List.length_map, length_own]
  decide

end restart
end NexusRegistryServer
end Nexus
