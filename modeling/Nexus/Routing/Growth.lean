import Nexus.Routing.Ranges
import Nexus.Routing.Table

namespace Nexus
namespace NetworkManager
variable {nm nm' : NetworkManager} {name : String}

/-- The nodes of `nm` are the first ones of `nm'`, where they may have moved. -/
def Kept (nm nm' : NetworkManager) : Prop := nm.nodes.map Node.unplaced <+: nm'.nodes.map Node.unplaced

theorem Kept.get {i : Nat} {node : Node} (kept : Kept nm nm') (here : nm.nodes[i]? = some node) :
    ∃ node', nm'.nodes[i]? = some node' ∧ node'.unplaced = node.unplaced := by
  obtain ⟨later, same⟩ := kept
  obtain ⟨inside, _⟩ := List.getElem?_eq_some_iff.mp here
  have still : (nm'.nodes.map Node.unplaced)[i]? = some node.unplaced := by
    rw [← same, List.getElem?_append_left (by rw [List.length_map]; exact inside), List.getElem?_map, here]
    rfl
  rw [List.getElem?_map] at still
  exact Option.map_eq_some_iff.mp still

theorem findIdx?_unplaced (nodes : List Node) (name : String) :
    (nodes.findIdx? fun node => node.name = name) =
      (nodes.map Node.unplaced).findIdx? fun node => node.name = name := by
  rw [List.findIdx?_map]
  rfl

/-- The first node of a name stays the first one. -/
theorem Kept.listed {i : Fin nm.nodes.length} (kept : Kept nm nm') (listed : Listed nm.nodes name i) :
    ∃ i' : Fin nm'.nodes.length, i'.val = i.val ∧ Listed nm'.nodes name i' ∧
      (nm'.nodes.get i').unplaced = (nm.nodes.get i).unplaced := by
  obtain ⟨node', here, same⟩ := kept.get (List.getElem?_eq_getElem i.isLt)
  obtain ⟨inside, rfl⟩ := List.getElem?_eq_some_iff.mp here
  refine ⟨⟨i.val, inside⟩, rfl, ?_, same⟩
  obtain ⟨later, longer⟩ := kept
  rw [Listed, findIdx?_unplaced] at listed ⊢
  rw [← longer, List.findIdx?_append, listed, Option.some_or]

theorem getNextHop_of_listed {i : Fin nm.nodes.length} {hop : Nat} {node : Node} (listed : Listed nm.nodes name i)
    (stored : nm.nextHop[i.val]? = some hop) (here : nm.nodes[hop]? = some node) :
    nm.getNextHop name = .ok (some node) := by
  unfold NetworkManager.getNextHop
  rw [Listed] at listed
  rw [listed]
  exact bind_eq_ok.mpr ⟨hop, readAt_eq_ok.mpr stored, bind_eq_ok.mpr ⟨node, readAt_eq_ok.mpr here, rfl⟩⟩

/-- Additions from the empty list leave nodes with pairwise distinct addresses, which keep their positions and no more
than move from then on; so after a recomputation, lookups and next hops stay the same while nodes come. -/
theorem addNodes_stable (added more : List Node) (nm routed : NetworkManager) (src : Node) (name : String)
    (run : nm.updateRoutingTable src = .ok routed) (present : (routed.findNode name).isSome) :
    DistinctAddresses (fresh.addNodes added).nodes ∧
      (∀ (i : Nat) (node : Node), (fresh.addNodes added).nodes[i]? = some node →
        ∃ node', ((fresh.addNodes added).addNodes more).nodes[i]? = some node' ∧ node'.unplaced = node.unplaced) ∧
      (∃ node node', routed.findNode name = some node ∧ (routed.addNodes more).findNode name = some node' ∧
        node'.unplaced = node.unplaced) ∧
      ∃ hop hop', routed.getNextHop name = .ok (some hop) ∧ (routed.addNodes more).getNextHop name = .ok (some hop') ∧
        hop'.unplaced = hop.unplaced := by
  have longer : Kept (fresh.addNodes added) ((fresh.addNodes added).addNodes more) := unplaced_addNodes _ more
  have kept : Kept routed (routed.addNodes more) := unplaced_addNodes routed more
  obtain ⟨node, found⟩ := Option.isSome_iff_exists.mp present
  obtain ⟨i, listed, rfl⟩ := exists_listed_of_findNode found
  obtain ⟨i', position, listed', same⟩ := kept.listed listed
  refine ⟨@distinctAddresses_addNodes fresh List.nodup_nil added, fun i node here => longer.get here,
    ⟨_, _, found, listed'.findNode, same⟩, ?_⟩
  obtain ⟨nodes, sized, hops⟩ := updateRoutingTable_inRange run
  rw [← nodes] at sized hops
  obtain ⟨hop, stored⟩ : ∃ hop, routed.nextHop[i.val]? = some hop :=
    ⟨_, List.getElem?_eq_getElem (sized.symm ▸ i.isLt)⟩
  have there := List.getElem?_eq_getElem (hops hop (List.mem_of_getElem? stored))
  obtain ⟨hop', there', moved⟩ := kept.get there
  have stored' : (routed.addNodes more).nextHop[i'.val]? = some hop := by
    rw [(tables_addNodes routed more).2, position, stored]
  refine ⟨_, hop', getNextHop_of_listed listed stored there, ?_, moved⟩
  exact getNextHop_of_listed listed' stored' there'

namespace joining

def node (name : String) (port : Int) : Node := ⟨.satellite, name, name, "127.0.0.1", port, (.finite 0, .finite 0)⟩

theorem addNodes_stable_sat1 :
    ∃ routed, (fresh.addNodes [node "sat1" 33001]).updateRoutingTable (node "sat1" 33001) = .ok routed ∧
      DistinctAddresses (fresh.addNodes [node "sat1" 33001]).nodes ∧
      (∀ (i : Nat) (known : Node), (fresh.addNodes [node "sat1" 33001]).nodes[i]? = some known →
        ∃ known', ((fresh.addNodes [node "sat1" 33001]).addNodes [node "sat1" 33002]).nodes[i]? = some known' ∧
          known'.unplaced = known.unplaced) ∧
      (∃ known known', routed.findNode "sat1" = some known ∧
        (routed.addNodes [node "sat1" 33002]).findNode "sat1" = some known' ∧ known'.unplaced = known.unplaced) ∧
      ∃ hop hop', routed.getNextHop "sat1" = .ok (some hop) ∧
        (routed.addNodes [node "sat1" 33002]).getNextHop "sat1" = .ok (some hop') ∧ hop'.unplaced = hop.unplaced := by
  have recomputes : ((fresh.addNodes [node "sat1" 33001]).updateRoutingTable (node "sat1" 33001)).toBool = true := by
    decide +kernel
  cases run : (fresh.addNodes [node "sat1" 33001]).updateRoutingTable (node "sat1" 33001) with
  | error fault =>
    rw [run] at recomputes
    cases recomputes
  | ok routed =>
    have same := (updateRoutingTable_inRange run).1
    have present : (routed.findNode "sat1").isSome := by
      rw [findNode, same]
      rfl
    exact ⟨routed, rfl, addNodes_stable [node "sat1" 33001] [node "sat1" 33002] _ routed (node "sat1" 33001) "sat1"
      run present⟩

end joining
end NetworkManager
end Nexus
