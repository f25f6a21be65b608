import Nexus.Registry.ClientView

namespace Nexus
open Entries NexusRegistryServer

theorem Json.asInt_inRange {v : Json} {i : Int} (read : v.asInt = .ok i) : INT_MIN ≤ i ∧ i ≤ INT_MAX := by
  cases v with
  | null =>
    cases read
    decide
  | int w =>
    rw [asInt] at read
    split at read
    · rename_i inRange
      exact Except.ok.inj read ▸ inRange
    · cases read
  | real w =>
    cases w with
    | finite q =>
      rw [asInt] at read
      split at read
      · rename_i inRange
        rw [← Except.ok.inj read]
        split
        · exact ⟨Int.le_floor.mpr inRange.1, Int.cast_le.mp ((Int.floor_le q).trans inRange.2)⟩
        · exact ⟨Int.cast_le.mp (inRange.1.trans (Int.le_ceil q)), Int.ceil_le.mpr inRange.2⟩
      · cases read
    | _ => cases read
  | boolean b =>
    cases read
    cases b <;> decide
  | string s => cases read
  | array elements => cases read
  | object members => cases read

namespace NexusRegistryServer
variable {lib : Jsoncpp} {root : Json} {info : NodeInfo}

/-- The ports that a registry can hold. -/
def PortsInRange (nodes : List NodeInfo) : Prop := ∀ info ∈ nodes, INT_MIN ≤ info.port ∧ info.port ≤ INT_MAX

theorem intMember_inRange {key : String} {i : Int} (read : intMember root key = .ok i) :
    INT_MIN ≤ i ∧ i ≤ INT_MAX := by
  obtain ⟨v, _, read⟩ := bind_eq_ok.mp read
  exact Json.asInt_inRange read

theorem registeredNode_inRange (read : registeredNode lib root = .ok info) :
    INT_MIN ≤ info.port ∧ info.port ≤ INT_MAX := by
  obtain ⟨_, _, read⟩ := bind_eq_ok.mp read
  obtain ⟨_, _, read⟩ := bind_eq_ok.mp read
  obtain ⟨_, _, read⟩ := bind_eq_ok.mp read
  obtain ⟨_, _, read⟩ := bind_eq_ok.mp read
  obtain ⟨_, _, read⟩ := bind_eq_ok.mp read
  obtain ⟨_, _, read⟩ := bind_eq_ok.mp read
  obtain ⟨_, _, read⟩ := bind_eq_ok.mp read
  obtain ⟨port, port_read, read⟩ := bind_eq_ok.mp read
  obtain ⟨_, _, read⟩ := bind_eq_ok.mp read
  cases read
  exact intMember_inRange port_read

theorem updatedNode_inRange (read : updatedNode lib root = .ok info) :
    INT_MIN ≤ info.port ∧ info.port ≤ INT_MAX := by
  obtain ⟨_, _, read⟩ := bind_eq_ok.mp read
  obtain ⟨_, _, read⟩ := bind_eq_ok.mp read
  obtain ⟨_, _, read⟩ := bind_eq_ok.mp read
  obtain ⟨_, _, read⟩ := bind_eq_ok.mp read
  obtain ⟨_, _, read⟩ := bind_eq_ok.mp read
  obtain ⟨port, port_read, read⟩ := bind_eq_ok.mp read
  obtain ⟨_, _, read⟩ := bind_eq_ok.mp read
  cases read
  exact intMember_inRange port_read

/-- No request brings a port into the registry that a client cannot read. -/
theorem PortsInRange.apply {text : String} {change : Change String NodeInfo} {nodes : List NodeInfo}
    (inRange : PortsInRange nodes) (asks : Asks lib text change) :
    PortsInRange (Entries.apply NodeInfo.name nodes change) := by
  intro info member
  cases asks with
  | register _ _ payload =>
    rcases List.mem_append.mp member with old | new
    · exact inRange info old
    · rw [List.mem_singleton.mp new]
      exact registeredNode_inRange payload
  | update _ _ payload =>
    rcases mem_amendFirst member with old | rfl
    · exact inRange info old
    · exact updatedNode_inRange payload
  | deregister _ _ _ => exact inRange info (List.mem_filter.mp member).1

end NexusRegistryServer

namespace NetworkManager
variable {lib : Jsoncpp} {nodes : List NodeInfo}

/-- What a client knows of the nodes of a name, in the order of its list. -/
def views (nm : NetworkManager) (name : String) : List View := (own Node.name name nm.nodes).map Node.view

/-- A client has added the entries of a list to what it knew. -/
def Learns (nodes : List NodeInfo) (nm nm' : NetworkManager) : Prop :=
  ∀ name, nm'.views name = ((own NodeInfo.name name nodes).map NodeInfo.view).foldl View.absorb (nm.views name)

theorem Learns.trans {nodes' : List NodeInfo} {nm nm' nm'' : NetworkManager} (first : Learns nodes nm nm')
    (second : Learns nodes' nm' nm'') : Learns (nodes ++ nodes') nm nm'' := by
  intro name
  rw [second, first, own_append, List.map_append, List.foldl_append]

theorem learns_addNode (nm : NetworkManager) (id : String) (info : NodeInfo) :
    Learns [info] nm (nm.addNode (received id info)) := by
  intro name
  have kept : (received id info).name = info.name := rfl
  rw [views, own_addNode, kept]
  by_cases same : info.name = name
  · rw [if_pos same, own_cons_self same]
    rfl
  · rw [if_neg same, own_cons_other same]
    rfl

theorem fetchEntry_entry (ids : Nat → String) (nm : NetworkManager) (k : Nat) {info : NodeInfo}
    (portRange : INT_MIN ≤ info.port ∧ info.port ≤ INT_MAX) :
    fetchEntry lib ids nm (entry info, k) = .ok (nm.addNode (received (ids k) info)) :=
  bind_eq_ok.mpr ⟨_, parseNodeFromJson_entry lib (ids k) portRange, rfl⟩

theorem fetchEntries (ids : Nat → String) (inRange : PortsInRange nodes) (nm : NetworkManager) (k : Nat) :
    ∃ nm', ((nodes.map entry).zipIdx k).foldlM (fetchEntry lib ids) nm = .ok nm' ∧ Learns nodes nm nm' := by
  induction nodes generalizing nm k with
  | nil => exact ⟨nm, rfl, fun name => rfl⟩
  | cons info rest ih =>
    obtain ⟨first, later⟩ := List.forall_mem_cons.mp inRange
    obtain ⟨nm', run, learns⟩ := ih later (nm.addNode (received (ids k) info)) (k + 1)
    refine ⟨nm', ?_, (learns_addNode nm (ids k) info).trans learns⟩
    rw [List.map_cons, List.zipIdx_cons, List.foldlM_cons, fetchEntry_entry ids nm k first]
    exact run

/-- A fetch adds the entries of the registry to what the client knew before. -/
theorem fetchNodesFromRegistry_getNodeList (ids : Nat → String) (inRange : PortsInRange nodes)
    (faithful : ∀ root, nodeListJson nodes = .ok root → lib.parse (lib.writeString root) = some root)
    (nm : NetworkManager) :
    ∃ nm', nm.fetchNodesFromRegistry lib ids (getNodeList lib nodes) = .ok nm' ∧ Learns nodes nm nm' := by
  cases nodes with
  | nil =>
    have parsed : lib.parse (getNodeList lib []) = some .null := faithful .null rfl
    rw [fetchNodesFromRegistry, parsed]
    exact ⟨nm, rfl, fun name => rfl⟩
  | cons info rest =>
    have parsed : lib.parse (getNodeList lib (info :: rest)) = some (.array ((info :: rest).map entry)) := by
      rw [getNodeList, nodeListJson_cons]
      exact faithful _ (nodeListJson_cons info rest)
    rw [fetchNodesFromRegistry, parsed]
    exact fetchEntries ids inRange nm 0

end NetworkManager

/-- What a registry and one of its clients reach by requests to the registry, whoever sends them, and fetches of the
client, with all entries that the client was sent. Lists are read as they were written. -/
inductive History (lib : Jsoncpp) : List NodeInfo → List NodeInfo → NetworkManager → Prop
  | start : History lib [] [] NetworkManager.fresh
  | request {seen nodes nodes' : List NodeInfo} {nm : NetworkManager} {text response : String}
      {change : Change String NodeInfo} (history : History lib seen nodes nm) (asks : Asks lib text change)
      (handled : processRequest lib nodes text = .ok (response, nodes')) : History lib seen nodes' nm
  | fetch {seen nodes nodes' : List NodeInfo} {nm nm' : NetworkManager} {text response : String} {ids : Nat → String}
      (history : History lib seen nodes nm) (formed : WellFormed lib text .list)
      (handled : processRequest lib nodes text = .ok (response, nodes'))
      (faithful : ∀ root, nodeListJson nodes = .ok root → lib.parse (lib.writeString root) = some root)
      (read : nm.fetchNodesFromRegistry lib ids response = .ok nm') : History lib (seen ++ nodes) nodes' nm'

/-- The client finds a name exactly if it is registered, and as one of its entries has it. -/
def Follows (nodes : List NodeInfo) (nm : NetworkManager) (name : String) : Prop :=
  match nm.findNode name with
  | none => ∀ info ∈ nodes, info.name ≠ name
  | some node => ∃ info ∈ nodes, info.name = name ∧ node.view = info.view

/-- A name that is not listed was never sent; of a name that is listed, an entry has the type and the address of the
first entry ever sent and the coordinates last sent for an address that was sent before. -/
def UpToDate (seen nodes : List NodeInfo) (name : String) : Prop :=
  match (own NodeInfo.name name seen).map NodeInfo.view with
  | [] => ∀ info ∈ nodes, info.name ≠ name
  | first :: later => ∃ info ∈ nodes, info.name = name ∧ info.view = View.shown first later

section Histories
variable {lib : Jsoncpp} {seen nodes : List NodeInfo} {nm : NetworkManager}

/-- A client knows what it was sent. -/
theorem History.known (history : History lib seen nodes nm) :
    PortsInRange nodes ∧ NetworkManager.Learns seen NetworkManager.fresh nm := by
  induction history with
  | start => exact ⟨fun info impossible => absurd impossible List.not_mem_nil, fun name => rfl⟩
  | @request seen nodes nodes' nm text response change _ asks handled ih =>
    obtain ⟨_, answered⟩ := asks.processRequest nodes
    have same : nodes' = Entries.apply NodeInfo.name nodes change :=
      congrArg Prod.snd (Except.ok.inj (handled.symm.trans answered))
    rw [same]
    exact ⟨ih.1.apply asks, ih.2⟩
  | @fetch seen nodes nodes' nm nm' text response ids _ formed handled faithful read ih =>
    have answered : processRequest lib nodes text = .ok (getNodeList lib nodes, nodes) := formed.processRequest nodes
    have listed : (response, nodes') = (getNodeList lib nodes, nodes) := Except.ok.inj (handled.symm.trans answered)
    cases listed
    obtain ⟨after, run, learns⟩ := NetworkManager.fetchNodesFromRegistry_getNodeList ids ih.1 faithful nm
    obtain rfl : after = nm' := Except.ok.inj (run.symm.trans read)
    exact ⟨ih.1, ih.2.trans learns⟩

theorem findNode_eq_head? (nm : NetworkManager) (name : String) :
    (nm.findNode name).map Node.view = (nm.views name).head? := by
  rw [NetworkManager.findNode, find?_eq, NetworkManager.views, List.head?_map]

theorem follows_iff_upToDate (known : NetworkManager.Learns seen NetworkManager.fresh nm) (name : String) :
    Follows nodes nm name ↔ UpToDate seen nodes name := by
  have head := findNode_eq_head? nm name
  have nothing : NetworkManager.fresh.views name = [] := rfl
  rw [known, nothing] at head
  unfold Follows UpToDate
  cases found : nm.findNode name with
  | none =>
    rw [found] at head
    rw [View.absorbed_eq_nil head.symm]
  | some node =>
    rw [found] at head
    cases sent : (own NodeInfo.name name seen).map NodeInfo.view with
    | nil =>
      rw [sent] at head
      cases head
    | cons first later =>
      rw [sent, View.head?_absorbed] at head
      have same : node.view = View.shown first later := Option.some.inj head
      simp only [same, eq_comm]

end Histories

/-- After every history of requests and fetches, a further fetch succeeds, and the client then follows the registry
on a name exactly if what it was sent so far is up to date. -/
theorem follows_iff (lib : Jsoncpp) (seen nodes : List NodeInfo) (nm : NetworkManager) (text : String)
    (ids : Nat → String) (history : History lib seen nodes nm) (formed : WellFormed lib text .list)
    (faithful : ∀ root, nodeListJson nodes = .ok root → lib.parse (lib.writeString root) = some root) :
    ∃ response nm', processRequest lib nodes text = .ok (response, nodes) ∧
      nm.fetchNodesFromRegistry lib ids response = .ok nm' ∧
      ∀ name, Follows nodes nm' name ↔ UpToDate (seen ++ nodes) nodes name := by
  have answered : processRequest lib nodes text = .ok (getNodeList lib nodes, nodes) := formed.processRequest nodes
  obtain ⟨nm', read, _⟩ := NetworkManager.fetchNodesFromRegistry_getNodeList ids history.known.1 faithful nm
  refine ⟨getNodeList lib nodes, nm', answered, read, fun name => ?_⟩
  have after := History.fetch history formed answered faithful read
  exact follows_iff_upToDate after.known.2 name

namespace departing

/-- The library on the requests and lists of one node. -/
def lib : Jsoncpp where
  parse text :=
    if text = "null" then some .null
    else if text = restart.listText 33001 then some (.array [entry (restart.node 33001)])
    else (["register", "list", "deregister"].find? fun action => text = restart.request action 33001).map fun action =>
      restart.payload action 33001
  writeString root :=
    match root with
    | .null => "null"
    | _ => restart.listText 33001
  realToString _ := "0.0"

theorem formed_list : WellFormed lib (restart.request "list" 33001) .list := by
  have parsed : lib.parse (restart.request "list" 33001) = some (restart.payload "list" 33001) := rfl
  exact .list parsed (by decide)

theorem asks_register : Asks lib (restart.request "register" 33001) (.put (restart.node 33001)) := by
  have parsed : lib.parse (restart.request "register" 33001) = some (restart.payload "register" 33001) := rfl
  exact .register parsed (by decide) (by decide +kernel)

theorem asks_deregister : Asks lib (restart.request "deregister" 33001) (.drop "sat1") := by
  have parsed : lib.parse (restart.request "deregister" 33001) = some (restart.payload "deregister" 33001) := rfl
  exact .deregister parsed (by decide) (by decide)

theorem faithful_one : ∀ root, nodeListJson [restart.node 33001] = .ok root →
    lib.parse (lib.writeString root) = some root := by
  intro root listed
  obtain rfl : Json.array [entry (restart.node 33001)] = root :=
    Except.ok.inj ((nodeListJson_cons (restart.node 33001) []).symm.trans listed)
  have written : lib.writeString (.array [entry (restart.node 33001)]) = restart.listText 33001 := rfl
  have apart : restart.listText 33001 ≠ "null" := by decide +kernel
  rw [written]
  simp only [lib, if_neg apart, reduceIte]

theorem faithful_none : ∀ root, nodeListJson [] = .ok root → lib.parse (lib.writeString root) = some root := by
  intro root listed
  cases listed
  rfl

/-- A client that was sent `sat1` before it left. -/
theorem history_left : ∃ nm, History lib [restart.node 33001] [] nm := by
  obtain ⟨_, registered⟩ := asks_register.processRequest []
  have before := History.start.request asks_register registered
  obtain ⟨nm, read, _⟩ := NetworkManager.fetchNodesFromRegistry_getNodeList (fun _ => "id")
    before.known.1 faithful_one NetworkManager.fresh
  have fetched := before.fetch formed_list (formed_list.processRequest _) faithful_one read
  obtain ⟨_, deregistered⟩ := asks_deregister.processRequest [restart.node 33001]
  have left : apply NodeInfo.name [restart.node 33001] (.drop "sat1") = [] := by decide
  exact ⟨nm, left ▸ fetched.request asks_deregister deregistered⟩

theorem follows_iff_left :
    ∃ nm response nm', History lib [restart.node 33001] [] nm ∧
      processRequest lib [] (restart.request "list" 33001) = .ok (response, []) ∧
      nm.fetchNodesFromRegistry lib (fun _ => "id") response = .ok nm' ∧
      ∀ name, Follows [] nm' name ↔ UpToDate ([restart.node 33001] ++ []) [] name := by
  obtain ⟨nm, history⟩ := history_left
  obtain ⟨response, nm', rest⟩ :=
    follows_iff lib _ _ nm (restart.request "list" 33001) (fun _ => "id") history formed_list faithful_none
  exact ⟨nm, response, nm', history, rest⟩

/-- After `sat1` left, the registry is empty, and a client that fetches its list still finds the node. -/
theorem findNode_left :
    ∃ nm response nm', History lib [restart.node 33001] [] nm ∧
      processRequest lib [] (restart.request "list" 33001) = .ok (response, []) ∧
      nm.fetchNodesFromRegistry lib (fun _ => "id") response = .ok nm' ∧
      (nm'.findNode "sat1").isSome ∧ ¬Follows [] nm' "sat1" := by
  obtain ⟨nm, history⟩ := history_left
  obtain ⟨nm', read, _⟩ := NetworkManager.fetchNodesFromRegistry_getNodeList (fun _ => "id") history.known.1
    faithful_none nm
  have after := history.fetch formed_list (formed_list.processRequest []) faithful_none read
  have stale : ¬Follows [] nm' "sat1" := by
    rw [follows_iff_upToDate after.known.2]
    rintro ⟨info, impossible, _⟩
    exact absurd impossible List.not_mem_nil
  refine ⟨nm, _, nm', history, formed_list.processRequest [], read, ?_, stale⟩
  cases found : nm'.findNode "sat1" with
  | some node => rfl
  | none =>
    refine absurd ?_ stale
    rw [Follows, found]
    exact fun info impossible => absurd impossible List.not_mem_nil

end departing
end Nexus
