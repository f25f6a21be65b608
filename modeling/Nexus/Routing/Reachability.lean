import Nexus.Routing.Table
import Nexus.Exchange

namespace Nexus
open ShortestPath

section Links
variable {nodes : List Node}

/-- Only ground nodes lack a link, and any other node links all of them. -/
theorem Weighted.reachable_iff (W : Weighted nodes) {src d : Fin nodes.length} (other : d ≠ src) :
    (∃ c, Walk (lengths W.weight) src d c) ↔ ∃ node ∈ nodes, node.type ≠ .ground := by
  constructor
  · intro ⟨c, walk⟩
    cases walk with
    | start => exact (other rfl).elim
    | @next b _ _ e _ link _ =>
      by_contra all
      have ground : ∀ i : Fin nodes.length, (nodes.get i).type = .ground := by
        intro i
        by_contra different
        exact all ⟨_, List.get_mem nodes i, different⟩
      have missing := W.lengths_eq_none.mpr ⟨ground b, ground d⟩
      cases missing.symm.trans link
  · intro ⟨node, member, different⟩
    obtain ⟨k, rfl⟩ := List.get_of_mem member
    have linked : ∀ i j : Fin nodes.length, i = k ∨ j = k → ∃ e, lengths W.weight i j = some e := by
      intro i j between
      cases link : lengths W.weight i j with
      | some e => exact ⟨e, rfl⟩
      | none =>
        obtain ⟨left, right⟩ := W.lengths_eq_none.mp link
        rcases between with rfl | rfl
        · exact (different left).elim
        · exact (different right).elim
    obtain ⟨a, first⟩ := linked src k (Or.inr rfl)
    obtain ⟨b, second⟩ := linked k d (Or.inl rfl)
    exact ⟨a + b, (Walk.link first).append (Walk.link second)⟩

end Links

/-- The null pointer as next hop, and the answer that there is no path, for unreachable targets only. -/
def NoPathLaw (host : ByteOrder) (nm' : NetworkManager) {nodes : List Node} (W : Weighted nodes)
    (src d : Fin nodes.length) : Prop :=
  (nm'.getNextHop (nodes.get d).name = .ok none ↔ ¬∃ c, Walk (lengths W.weight) src d c) ∧
    ∀ message fragmentNumber fragmentCount, (nodes.get src).sendMessage host nm' (nodes.get d).name message
      fragmentNumber fragmentCount = .ok .noPath ↔ ¬∃ c, Walk (lengths W.weight) src d c

/-- The table has an entry for every node, so that the law holds only where every node can be
reached: in a list that does not consist of ground nodes alone. -/
theorem noPathLaw_iff (host : ByteOrder) (nm : NetworkManager) (W : Weighted nm.nodes)
    (distinct : DistinctNames nm.nodes) (src d : Fin nm.nodes.length) (other : d ≠ src) :
    ∃ nm', nm.updateRoutingTable (nm.nodes.get src) = .ok nm' ∧ nm'.topology = .grid W.weight ∧
      (NoPathLaw host nm' W src d ↔ ∃ node ∈ nm.nodes, node.type ≠ .ground) := by
  obtain ⟨nm', s, run, routed⟩ := updateRoutingTable_routed nm W (distinct.listed src)
  have hop := routed.getNextHop (distinct.listed d)
  refine ⟨nm', run, routed.topology, ?_⟩
  rw [← W.reachable_iff other]
  constructor
  · intro law
    by_contra unreachable
    have null := law.1.mpr unreachable
    rw [hop] at null
    cases null
  · intro reachable
    have notNull : nm'.getNextHop (nm.nodes.get d).name ≠ .ok none := by
      rw [hop]
      intro null
      cases null
    refine ⟨⟨fun null => (notNull null).elim, fun unreachable => (unreachable reachable).elim⟩, ?_⟩
    intro message fragmentNumber fragmentCount
    constructor
    · exact fun call => (notNull ((Node.sendMessage_inv call).1 rfl)).elim
    · exact fun unreachable => (unreachable reachable).elim

def groundAt (name : String) (x y : ℚ) : Node :=
  ⟨.ground, name, name, "127.0.0.1", 33001, (.finite x, .finite y)⟩

/-- Two ground nodes and no satellite. -/
def stranded : NetworkManager where
  topology := .empty
  nextHop := []
  nodes := [groundAt "ground1" 0 0, { groundAt "ground2" 100 0 with port := 33002 }]

namespace stranded

def ground1 : Fin stranded.nodes.length := ⟨0, by decide⟩
def ground2 : Fin stranded.nodes.length := ⟨1, by decide⟩

def weights : Weighted stranded.nodes where
  weight _ _ := LONG_LONG_MAX
  computed := by decide +kernel

theorem noPathLaw_iff_ground2 :
    ∃ nm', stranded.updateRoutingTable (stranded.nodes.get ground1) = .ok nm' ∧ nm'.topology = .grid weights.weight ∧
      (NoPathLaw .little nm' weights ground1 ground2 ↔ ∃ node ∈ stranded.nodes, node.type ≠ .ground) :=
  noPathLaw_iff .little stranded weights (by decide) ground1 ground2 (by decide)

/-- No link leads to the other ground node, and still it is the answer. -/
theorem not_noPathLaw :
    ∃ nm', stranded.updateRoutingTable (stranded.nodes.get ground1) = .ok nm' ∧
      ¬NoPathLaw .little nm' weights ground1 ground2 := by
  obtain ⟨nm', s, run, routed⟩ :=
    updateRoutingTable_routed stranded weights (DistinctNames.listed (by decide) ground1)
  refine ⟨nm', run, fun law => ?_⟩
  have unreachable : ¬∃ c, Walk (lengths weights.weight) ground1 ground2 c := by
    rw [weights.reachable_iff (by decide)]
    decide
  have null := law.1.mpr unreachable
  rw [routed.getNextHop (DistinctNames.listed (by decide) ground2)] at null
  cases null

end stranded
end Nexus
