import Nexus.NodeList
import Nexus.Registry.Requests

namespace Nexus
open Entries

/-- What a client knows of a node besides its name. -/
structure View where
  type : NodeType
  ip : String
  port : Int
  coords : Binary64 × Binary64

def Node.view (node : Node) : View := ⟨node.type, node.ip, node.port, node.coords⟩

def NodeInfo.view (info : NodeInfo) : View := ⟨NodeType.fromString info.type, info.ip, info.port, info.coords⟩

namespace View

/-- Two views of a node at one address. -/
def sameAddress (v w : View) : Bool := w.ip = v.ip ∧ w.port = v.port

def moveHead (coords : Binary64 × Binary64) : List View → List View
  | [] => []
  | first :: rest => { first with coords } :: rest

/-- What `addNode` makes of the nodes of a name. -/
def absorb (views : List View) (v : View) : List View :=
  if views.any v.sameAddress then moveHead v.coords views else views ++ [v]

/-- The views whose address occurs before them. -/
def repeats (earlier : List View) : List View → List View
  | [] => []
  | v :: later =>
    if earlier.any v.sameAddress then v :: repeats (earlier ++ [v]) later else repeats (earlier ++ [v]) later

/-- The first view, at the place last given for an address that came back. -/
def shown (first : View) (later : List View) : View :=
  { first with coords := ((repeats [first] later).getLast?.getD first).coords }

theorem sameAddress_congr {v w : View} (same : v.sameAddress w) (u : View) : u.sameAddress v = u.sameAddress w := by
  rw [sameAddress, decide_eq_true_eq] at same
  rw [sameAddress, sameAddress, same.1, same.2]

theorem head?_foldl_absorb (later : List View) {first : View} {rest earlier : List View}
    (known : ∀ v : View, (first :: rest).any v.sameAddress = earlier.any v.sameAddress) :
    (later.foldl absorb (first :: rest)).head? =
      some { first with coords := ((repeats earlier later).getLast?.getD first).coords } := by
  induction later generalizing first rest earlier with
  | nil => rfl
  | cons v later ih =>
    rw [List.foldl_cons, absorb, known v, repeats]
    by_cases back : earlier.any v.sameAddress
    · rw [if_pos back, if_pos back, moveHead]
      have known' : ∀ u : View, (({ first with coords := v.coords } : View) :: rest).any u.sameAddress =
          (earlier ++ [v]).any u.sameAddress := by
        intro u
        have covered : u.sameAddress v = true → earlier.any u.sameAddress = true := by
          intro same
          obtain ⟨w, member, there⟩ := List.any_eq_true.mp back
          refine List.any_eq_true.mpr ⟨w, member, ?_⟩
          rw [← sameAddress_congr there u]
          exact same
        have before : (({ first with coords := v.coords } : View) :: rest).any u.sameAddress =
          (first :: rest).any u.sameAddress := rfl
        rw [before, known u, List.any_append, List.any_cons, List.any_nil, Bool.or_false]
        cases again : u.sameAddress v with
        | true => rw [covered again, Bool.or_true]
        | false => rw [Bool.or_false]
      rw [ih known', List.getLast?_cons]
      cases (repeats (earlier ++ [v]) later).getLast? with
      | none => rfl
      | some last => rfl
    · rw [if_neg back, if_neg back]
      refine ih fun u => ?_
      have longer : (first :: rest.append [v]).any u.sameAddress = (first :: rest ++ [v]).any u.sameAddress := rfl
      rw [longer, List.any_append, List.any_append, known u]

/-- Of the views that come in, a lookup shows the first, moved with every address that comes back. -/
theorem head?_absorbed (first : View) (later : List View) :
    ((first :: later).foldl absorb []).head? = some (shown first later) :=
  head?_foldl_absorb later fun _ => rfl

theorem absorbed_eq_nil {views : List View} (gone : (views.foldl absorb []).head? = none) : views = [] := by
  cases views with
  | nil => rfl
  | cons first later =>
    rw [head?_absorbed] at gone
    cases gone

end View

namespace NetworkManager
variable {nm : NetworkManager} {name : String}

theorem view_setCoords (node : Node) (nodes : List Node) :
    (own Node.name name (setCoords node nodes)).map Node.view =
      if node.name = name then View.moveHead node.coords ((own Node.name name nodes).map Node.view)
      else (own Node.name name nodes).map Node.view := by
  rw [own_setCoords]
  split
  · cases own Node.name name nodes with
    | nil => rfl
    | cons first rest => rfl
  · rfl

theorem nodeExists_eq (nm : NetworkManager) {node : Node} (same : node.name = name) :
    nm.nodeExists node = ((own Node.name name nm.nodes).map Node.view).any node.view.sameAddress := by
  rw [nodeExists, List.any_map, own, List.any_filter]
  congr 1
  funext existingNode
  rw [Bool.decide_and, same]
  rfl

/-- What `addNode` does to the nodes of a name. -/
theorem own_addNode (nm : NetworkManager) (node : Node) (name : String) :
    (own Node.name name (nm.addNode node).nodes).map Node.view =
      if node.name = name then View.absorb ((own Node.name name nm.nodes).map Node.view) node.view
      else (own Node.name name nm.nodes).map Node.view := by
  by_cases same : node.name = name
  · rw [addNode, View.absorb, nodeExists_eq nm same, if_pos same]
    split
    · exact (view_setCoords node nm.nodes).trans (if_pos same)
    · rw [own, List.filter_append, List.filter_cons_of_pos (by simpa using same), List.filter_nil, List.map_append]
      rfl
  · rw [if_neg same, addNode]
    split
    · exact (view_setCoords node nm.nodes).trans (if_neg same)
    · rw [own, List.filter_append, List.filter_cons_of_neg (by simpa using same), List.filter_nil, List.append_nil]
      rfl

/-- The node that a client makes of an entry of the registry. -/
def received (id : String) (info : NodeInfo) : Node :=
  ⟨NodeType.fromString info.type, id, info.name, info.ip, info.port, info.coords⟩

theorem parseNodeFromJson_entry (lib : Jsoncpp) (id : String) {info : NodeInfo}
    (portRange : INT_MIN ≤ info.port ∧ info.port ≤ INT_MAX) :
    parseNodeFromJson lib id (NexusRegistryServer.entry info) = .ok (some (received id info)) := by
  have port : (Json.int info.port).asInt = .ok info.port := if_pos portRange
  simp [parseNodeFromJson, NexusRegistryServer.entry, Json.isMember, Json.get, Json.member, Json.lookup, Json.asDouble,
    Json.asString, port, bind, Except.bind, pure, Except.pure, received]

end NetworkManager
end Nexus
