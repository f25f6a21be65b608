import Nexus.Client
import Nexus.Entries
import Mathlib.Data.List.Nodup
import Mathlib.Data.List.ReduceOption

namespace Nexus
open Entries

/-- A list whose nodes have pairwise distinct names. -/
def DistinctNames (nodes : List Node) : Prop := (nodes.map Node.name).Nodup

instance (nodes : List Node) : Decidable (DistinctNames nodes) :=
  inferInstanceAs (Decidable (nodes.map Node.name).Nodup)

/-- The first node of a name. -/
def Listed (nodes : List Node) (name : String) (i : Fin nodes.length) : Prop :=
  (nodes.findIdx? fun node => node.name = name) = some i.val

section Names
variable {nodes : List Node} {name : String} {i j : Fin nodes.length}

theorem Listed.name_eq (listed : Listed nodes name i) : (nodes.get i).name = name := by
  obtain ⟨_, here, _⟩ := List.findIdx?_eq_some_iff_getElem.mp listed
  simpa using here

theorem Listed.unique (listed : Listed nodes name i) (listed' : Listed nodes name j) : i = j := by
  have same := listed.symm.trans listed'
  exact Fin.ext (Option.some.inj same)

theorem exists_listed (i : Fin nodes.length) : ∃ k, Listed nodes (nodes.get i).name k := by
  cases position : nodes.findIdx? fun node => node.name = (nodes.get i).name with
  | none =>
    have absent := List.findIdx?_eq_none_iff.mp position _ (List.get_mem nodes i)
    simp at absent
  | some k =>
    obtain ⟨inside, _⟩ := List.findIdx?_eq_some_iff_getElem.mp position
    exact ⟨⟨k, inside⟩, position⟩

theorem Listed.findNode {nm : NetworkManager} {i : Fin nm.nodes.length} (listed : Listed nm.nodes name i) :
    nm.findNode name = some (nm.nodes.get i) := by
  obtain ⟨inside, here, before⟩ := List.findIdx?_eq_some_iff_getElem.mp listed
  unfold NetworkManager.findNode
  rw [List.find?_eq_some_iff_getElem]
  exact ⟨here, i.val, inside, rfl, fun j less => by simpa using before j less⟩

theorem exists_listed_of_findNode {nm : NetworkManager} {node : Node} (found : nm.findNode name = some node) :
    ∃ i, Listed nm.nodes name i ∧ node = nm.nodes.get i := by
  have named : node.name = name := by simpa using List.find?_some found
  obtain ⟨k, same⟩ := List.get_of_mem (List.mem_of_find?_eq_some found)
  obtain ⟨i, listed⟩ := exists_listed k
  rw [same, named] at listed
  exact ⟨i, listed, Option.some.inj (found.symm.trans listed.findNode)⟩

/-- Where names do not repeat, every node is the first of its name. -/
theorem DistinctNames.listed (distinct : DistinctNames nodes) (i : Fin nodes.length) :
    Listed nodes (nodes.get i).name i := by
  obtain ⟨k, listed⟩ := exists_listed i
  have lengths : (nodes.map Node.name).length = nodes.length := List.length_map _
  have atK : (nodes.map Node.name).get (k.cast lengths.symm) = (nodes.map Node.name).get (i.cast lengths.symm) := by
    simpa using listed.name_eq
  have same : k = i := by simpa using (List.Nodup.get_inj_iff distinct).mp atK
  exact same ▸ listed

theorem get_inj (distinct : DistinctNames nodes) (same : (nodes.get i).name = (nodes.get j).name) : i = j :=
  (distinct.listed i).unique (same ▸ distinct.listed j)

end Names

/-- What `addNode` tells nodes apart by. -/
def Node.address (node : Node) : String × String × Int := (node.name, node.ip, node.port)

/-- A node without its place. -/
def Node.unplaced (node : Node) : Node := { node with coords := (.finite 0, .finite 0) }

def DistinctAddresses (nodes : List Node) : Prop := (nodes.map Node.address).Nodup

namespace DistinctAddresses
variable {nodes : List Node}

theorem eq_of_address {node node' : Node} (distinct : DistinctAddresses nodes) (member : node ∈ nodes)
    (member' : node' ∈ nodes) (same : node.address = node'.address) : node = node' :=
  List.inj_on_of_nodup_map distinct member member' same

theorem of_unplaced {nodes' : List Node} (distinct : DistinctAddresses nodes)
    (same : nodes'.map Node.unplaced = nodes.map Node.unplaced) : DistinctAddresses nodes' := by
  have addresses : ∀ l : List Node, l.map Node.address = (l.map Node.unplaced).map Node.address := by
    intro l
    rw [List.map_map]
    rfl
  rw [DistinctAddresses, addresses, same, ← addresses]
  exact distinct

theorem snoc {node : Node} (distinct : DistinctAddresses nodes)
    (other : ∀ known ∈ nodes, known.address ≠ node.address) : DistinctAddresses (nodes ++ [node]) := by
  rw [DistinctAddresses, List.map_append, List.nodup_append]
  refine ⟨distinct, List.nodup_singleton _, fun address member address' member' => ?_⟩
  obtain ⟨known, here, rfl⟩ := List.mem_map.mp member
  rw [List.mem_singleton.mp member']
  exact other known here

end DistinctAddresses

namespace NetworkManager
variable {nm : NetworkManager} {node : Node}

theorem nodeExists_iff : nm.nodeExists node = true ↔ ∃ known ∈ nm.nodes, known.address = node.address := by
  simp only [nodeExists, List.any_eq_true, decide_eq_true_eq, Node.address, Prod.mk.injEq]

theorem unplaced_setCoords (node : Node) (nodes : List Node) :
    (setCoords node nodes).map Node.unplaced = nodes.map Node.unplaced := by
  induction nodes with
  | nil => rfl
  | cons existingNode rest ih =>
    rw [setCoords]
    split
    · rfl
    · rw [List.map_cons, ih, List.map_cons]

def moveFirst (coords : Binary64 × Binary64) : List Node → List Node
  | [] => []
  | first :: rest => { first with coords } :: rest

theorem own_setCoords (node : Node) (nodes : List Node) (name : String) :
    own Node.name name (setCoords node nodes) =
      if node.name = name then moveFirst node.coords (own Node.name name nodes) else own Node.name name nodes := by
  induction nodes with
  | nil => rw [setCoords, own, List.filter_nil, moveFirst, ite_self]
  | cons existingNode rest ih =>
    rw [setCoords]
    by_cases first : existingNode.name = node.name
    · rw [if_pos first]
      generalize there : ({ existingNode with coords := node.coords } : Node) = moved
      have kept : moved.name = existingNode.name := by rw [← there]
      by_cases same : node.name = name
      · have here : existingNode.name = name := first.trans same
        rw [own_cons_self (kept.trans here), own_cons_self here, if_pos same, moveFirst, ← there]
      · have other : existingNode.name ≠ name := fun equal => same (first.symm.trans equal)
        rw [own_cons_other fun equal => other (kept.symm.trans equal), own_cons_other other, if_neg same]
    · rw [if_neg first]
      by_cases same : existingNode.name = name
      · have other : node.name ≠ name := fun equal => first (same.trans equal.symm)
        rw [own_cons_self same, own_cons_self same, ih, if_neg other, if_neg other]
      · rw [own_cons_other same, own_cons_other same, ih]

/-- A sequence of calls of `addNode`. -/
def addNodes (nm : NetworkManager) (added : List Node) : NetworkManager := added.foldl addNode nm

theorem addNodes_append (nm : NetworkManager) (added more : List Node) :
    nm.addNodes (added ++ more) = (nm.addNodes added).addNodes more :=
  List.foldl_append

/-- The list only grows at its end; the nodes before it can do no more than move. -/
theorem unplaced_addNode (nm : NetworkManager) (node : Node) :
    nm.nodes.map Node.unplaced <+: (nm.addNode node).nodes.map Node.unplaced := by
  rw [addNode]
  split
  · show nm.nodes.map Node.unplaced <+: (setCoords node nm.nodes).map Node.unplaced
    exact (unplaced_setCoords node nm.nodes).symm ▸ List.prefix_rfl
  · exact (List.prefix_append nm.nodes [node]).map Node.unplaced

theorem unplaced_addNodes (nm : NetworkManager) (added : List Node) :
    nm.nodes.map Node.unplaced <+: (nm.addNodes added).nodes.map Node.unplaced := by
  induction added generalizing nm with
  | nil => exact List.prefix_rfl
  | cons node added ih => exact (unplaced_addNode nm node).trans (ih (nm.addNode node))

theorem tables_addNode (nm : NetworkManager) (node : Node) :
    (nm.addNode node).topology = nm.topology ∧ (nm.addNode node).nextHop = nm.nextHop := by
  rw [addNode]
  split
  · exact ⟨rfl, rfl⟩
  · exact ⟨rfl, rfl⟩

theorem tables_addNodes (nm : NetworkManager) (added : List Node) :
    (nm.addNodes added).topology = nm.topology ∧ (nm.addNodes added).nextHop = nm.nextHop := by
  induction added generalizing nm with
  | nil => exact ⟨rfl, rfl⟩
  | cons node added ih =>
    obtain ⟨topology, nextHop⟩ := ih (nm.addNode node)
    obtain ⟨topology', nextHop'⟩ := tables_addNode nm node
    exact ⟨topology.trans topology', nextHop.trans nextHop'⟩

theorem nodeExists_addNodes (known : nm.nodeExists node = true) (added : List Node) :
    (nm.addNodes added).nodeExists node = true := by
  obtain ⟨existingNode, member, same⟩ := nodeExists_iff.mp known
  have still : existingNode.unplaced ∈ (nm.addNodes added).nodes.map Node.unplaced :=
    (unplaced_addNodes nm added).subset (List.mem_map_of_mem member)
  obtain ⟨moved, member', unplaced⟩ := List.mem_map.mp still
  have kept : moved.unplaced.address = existingNode.unplaced.address := congrArg Node.address unplaced
  exact nodeExists_iff.mpr ⟨moved, member', kept.trans same⟩

theorem nodeExists_addNode (nm : NetworkManager) (node : Node) : (nm.addNode node).nodeExists node = true := by
  by_cases known : nm.nodeExists node = true
  · exact nodeExists_addNodes known [node]
  · rw [addNode, if_neg known]
    exact nodeExists_iff.mpr ⟨node, List.mem_append_right _ List.mem_cons_self, rfl⟩

theorem nodeExists_of_added {added : List Node} (member : node ∈ added) (nm : NetworkManager) :
    (nm.addNodes added).nodeExists node = true := by
  obtain ⟨before, after, rfl⟩ := List.append_of_mem member
  rw [addNodes_append]
  exact nodeExists_addNodes (nodeExists_addNode (nm.addNodes before) node) after

theorem distinctAddresses_addNode (distinct : DistinctAddresses nm.nodes) (node : Node) :
    DistinctAddresses (nm.addNode node).nodes := by
  rw [addNode]
  split
  · exact distinct.of_unplaced (unplaced_setCoords node nm.nodes)
  · rename_i unknown
    exact distinct.snoc fun known member same => unknown (nodeExists_iff.mpr ⟨known, member, same⟩)

theorem distinctAddresses_addNodes (distinct : DistinctAddresses nm.nodes) (added : List Node) :
    DistinctAddresses (nm.addNodes added).nodes := by
  induction added generalizing nm with
  | nil => exact distinct
  | cons node added ih => exact ih (distinctAddresses_addNode distinct node)

theorem distinctAddresses_removeNode (distinct : DistinctAddresses nm.nodes) (id : String) :
    DistinctAddresses (nm.removeNode id).nodes :=
  List.Nodup.sublist (List.filter_sublist.map Node.address) distinct

/-- Nodes with addresses of their own are all appended. -/
theorem nodes_addNodes {added : List Node} (distinct : DistinctAddresses (nm.nodes ++ added)) :
    (nm.addNodes added).nodes = nm.nodes ++ added := by
  induction added generalizing nm with
  | nil => exact (List.append_nil _).symm
  | cons node added ih =>
    have unknown : ¬nm.nodeExists node = true := by
      intro known
      obtain ⟨known, member, same⟩ := nodeExists_iff.mp known
      rw [DistinctAddresses, List.map_append, List.nodup_append] at distinct
      exact distinct.2.2 _ (List.mem_map_of_mem member) _ (List.mem_map_of_mem List.mem_cons_self) same
    have appended : (nm.addNode node).nodes = nm.nodes ++ [node] := by rw [addNode, if_neg unknown]
    have split : nm.nodes ++ node :: added = (nm.addNode node).nodes ++ added := by
      rw [appended, List.append_assoc, List.singleton_append]
    rw [split] at distinct ⊢
    exact ih distinct

section Fetches
variable {lib : Jsoncpp} {ids : Nat → String}

/-- What a fetch reads of an entry; `none` where it skips the entry. -/
def readEntry (lib : Jsoncpp) (ids : Nat → String) (entry : Json × Nat) : Except Fault (Option Node) :=
  match entry.1 with
  | .object members => parseNodeFromJson lib (ids entry.2) (.object members)
  | _ => .ok none

/-- The nodes that a response brings, in its order. -/
def readEntries (lib : Jsoncpp) (ids : Nat → String) (response : String) : Except Fault (List Node) :=
  match lib.parse response with
  | some (.array nodeListJson) => do
    let found ← nodeListJson.zipIdx.mapM (readEntry lib ids)
    pure found.reduceOption
  | _ => .ok []

theorem fetchEntry_eq (nm : NetworkManager) (entry : Json × Nat) :
    fetchEntry lib ids nm entry = readEntry lib ids entry >>= fun found => .ok (nm.addNodes found.toList) := by
  obtain ⟨nodeJson, k⟩ := entry
  cases nodeJson with
  | object members =>
    unfold fetchEntry readEntry
    simp only
    cases parseNodeFromJson lib (ids k) (.object members) with
    | error fault => rfl
    | ok found =>
      cases found with
      | none => rfl
      | some node => rfl
  | _ => rfl

theorem foldlM_fetchEntry (nm : NetworkManager) (entries : List (Json × Nat)) :
    entries.foldlM (fetchEntry lib ids) nm =
      entries.mapM (readEntry lib ids) >>= fun found => .ok (nm.addNodes found.reduceOption) := by
  induction entries generalizing nm with
  | nil => rfl
  | cons entry rest ih =>
    rw [List.foldlM_cons, List.mapM_cons, fetchEntry_eq]
    cases readEntry lib ids entry with
    | error fault => rfl
    | ok first =>
      show rest.foldlM (fetchEntry lib ids) (nm.addNodes first.toList) = _
      rw [ih]
      cases rest.mapM (readEntry lib ids) with
      | error fault => rfl
      | ok found =>
        cases first with
        | none => rfl
        | some node => rfl

/-- A fetch adds the nodes of the response one by one. -/
theorem fetchNodesFromRegistry_eq (nm : NetworkManager) (response : String) :
    nm.fetchNodesFromRegistry lib ids response =
      readEntries lib ids response >>= fun added => .ok (nm.addNodes added) := by
  unfold fetchNodesFromRegistry readEntries
  cases lib.parse response with
  | none => rfl
  | some root =>
    cases root with
    | array entries =>
      simp only [foldlM_fetchEntry]
      cases entries.zipIdx.mapM (readEntry lib ids) with
      | error fault => rfl
      | ok found => rfl
    | _ => rfl

theorem fetchNodesFromRegistry_added {response : String} {nm' : NetworkManager}
    (run : nm.fetchNodesFromRegistry lib ids response = .ok nm') : ∃ added, nm' = nm.addNodes added := by
  rw [fetchNodesFromRegistry_eq] at run
  obtain ⟨added, _, run⟩ := bind_eq_ok.mp run
  exact ⟨added, (Except.ok.inj run).symm⟩

end Fetches

end NetworkManager
end Nexus
