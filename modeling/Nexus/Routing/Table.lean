import Nexus.NodeList
import Nexus.Routing.Simulation
import Nexus.Graph.FirstRelay

namespace Nexus
open ShortestPath

variable {nodes : List Node}

theorem Weighted.cases (W : Weighted nodes) (i j : Fin nodes.length) :
    ((nodes.get i).type = .ground ∧ (nodes.get j).type = .ground ∧ W.weight i j = LONG_LONG_MAX) ∨
      (¬((nodes.get i).type = .ground ∧ (nodes.get j).type = .ground) ∧ 0 ≤ W.weight i j ∧
        W.weight i j ≤ 2193986100 ∧
        ((nodes.get i).type = .ground ∨ (nodes.get j).type = .ground → 0 < W.weight i j)) :=
  linkWeight_cases (W.computed i j)

theorem Weighted.proper (W : Weighted nodes) : Proper W.weight := by
  intro i j
  rcases W.cases i j with ⟨_, _, absent⟩ | ⟨_, nonneg, bound, _⟩
  · exact Or.inl absent
  · exact Or.inr ⟨nonneg, by omega⟩

/-- The links of the topology: a pair of nodes that are not both ground nodes. -/
theorem Weighted.lengths_eq_none (W : Weighted nodes) {i j : Fin nodes.length} :
    lengths W.weight i j = none ↔ (nodes.get i).type = .ground ∧ (nodes.get j).type = .ground := by
  unfold lengths
  rcases W.cases i j with ⟨left, right, absent⟩ | ⟨notBoth, nonneg, bound, _⟩
  · exact ⟨fun _ => ⟨left, right⟩, fun _ => if_pos absent⟩
  · have present : W.weight i j ≠ LONG_LONG_MAX := by unfold LONG_LONG_MAX; omega
    rw [if_neg present]
    constructor
    · intro missing
      cases missing
    · exact fun both => (notBoth both).elim

theorem Weighted.length_pos (W : Weighted nodes) {i j : Fin nodes.length} {e : Nat}
    (link : lengths W.weight i j = some e)
    (ground : (nodes.get i).type = .ground ∨ (nodes.get j).type = .ground) : 0 < e := by
  unfold lengths at link
  split at link
  · cases link
  · rename_i present
    rcases W.cases i j with ⟨_, _, absent⟩ | ⟨_, _, _, positive⟩
    · exact (present absent).elim
    · have less := positive ground
      cases link
      omega

/-- What `updateRoutingTable` leaves behind: the weights of the list as topology, and the table
of a finished search from the source. -/
structure Routed (nm nm' : NetworkManager) (W : Weighted nm.nodes) (src : Fin nm.nodes.length)
    (s : Search (Fin nm.nodes.length)) : Prop where
  done : Finished (lengths W.weight) src cap s
  nodes : nm'.nodes = nm.nodes
  topology : nm'.topology = .grid W.weight
  nextHop : nm'.nextHop = List.ofFn fun j => (s.via j).val

theorem routeTables_nextHop (topology : Topology) (nextHop nextHop' : List Nat) (n src_idx : Nat) :
    routeTables topology nextHop n src_idx = routeTables topology nextHop' n src_idx := by
  unfold routeTables
  rw [resetNextHop_eq, resetNextHop_eq]

/-- With weights that do not overflow, what `updateRoutingTable` leaves depends on the node list alone. -/
theorem Weighted.updateRoutingTable_eq {nm : NetworkManager} (W : Weighted nm.nodes) (src : Node) :
    nm.updateRoutingTable src =
      routeTables (.grid W.weight) [] nm.nodes.length (NetworkManager.srcIdx nm.nodes src) >>=
        fun t => .ok ⟨.grid W.weight, t.nextHop, nm.nodes⟩ := by
  obtain ⟨t, sized, run⟩ := nm.updateRoutingTable_sized src
  obtain ⟨f, rfl⟩ := Topology.exists_grid t sized
  rw [run, W.fill f, routeTables_nextHop _ [] nm.nextHop]
  rfl

/-- With weights that do not overflow, `updateRoutingTable` succeeds whatever the topology and the
table held before. -/
theorem updateRoutingTable_routed (nm : NetworkManager) (W : Weighted nm.nodes) {node : Node}
    {src : Fin nm.nodes.length} (listed : Listed nm.nodes node.name src) :
    ∃ nm' s, nm.updateRoutingTable node = .ok nm' ∧ Routed nm nm' W src s := by
  obtain ⟨s, done, table⟩ := routeTables_search W.proper src []
  refine ⟨⟨.grid W.weight, (tables s).nextHop, nm.nodes⟩, s, ?_, done, rfl, rfl, rfl⟩
  have position : NetworkManager.srcIdx nm.nodes node = src.val := by
    rw [Listed] at listed
    rw [NetworkManager.srcIdx, listed, Option.getD_some]
  rw [W.updateRoutingTable_eq, position, table]
  rfl

namespace Routed
variable {nm nm' : NetworkManager} {W : Weighted nm.nodes} {src : Fin nm.nodes.length}
  {s : Search (Fin nm.nodes.length)}

theorem findNode_eq (routed : Routed nm nm' W src s) (name : String) : nm'.findNode name = nm.findNode name := by
  unfold NetworkManager.findNode
  rw [routed.nodes]

theorem findNode (routed : Routed nm nm' W src s) {name : String} {d : Fin nm.nodes.length}
    (listed : Listed nm.nodes name d) : nm'.findNode name = some (nm.nodes.get d) := by
  rw [routed.findNode_eq, listed.findNode]

theorem getNextHop (routed : Routed nm nm' W src s) {name : String} {d : Fin nm.nodes.length}
    (listed : Listed nm.nodes name d) : nm'.getNextHop name = .ok (some (nm.nodes.get (s.via d))) := by
  unfold NetworkManager.getNextHop
  rw [Listed] at listed
  rw [routed.nodes, routed.nextHop, listed]
  exact bind_eq_ok.mpr ⟨_, readAt_ofFn _ d, bind_eq_ok.mpr ⟨_, readAt_get _ _, rfl⟩⟩

end Routed
end Nexus
