import Nexus.Routing.Table

namespace Nexus
open ShortestPath

/-- `getNextHop` for `d` answers with the node after `src` on a shortest walk, if one is shorter
than `INT_MAX`. -/
def FirstHopLaw (nm' : NetworkManager) {nodes : List Node} (W : Weighted nodes) (src d : Fin nodes.length) :
    Prop :=
  ∀ D, Shortest (lengths W.weight) src d D → (D : Int) < INT_MAX →
    ∃ h, nm'.getNextHop (nodes.get d).name = .ok (some (nodes.get h)) ∧
      ∃ w c, lengths W.weight src h = some w ∧ Shortest (lengths W.weight) h d c ∧ w + c = D

/-- The stored entry is the relay before the destination. It is the node after the source only if
no relay is needed, or the relay that is settled first has itself a best direct link. -/
theorem firstHopLaw_iff (nm : NetworkManager) (W : Weighted nm.nodes) (distinct : DistinctNames nm.nodes)
    (src d : Fin nm.nodes.length) (other : d ≠ src) :
    ∃ nm', nm.updateRoutingTable (nm.nodes.get src) = .ok nm' ∧ nm'.topology = .grid W.weight ∧
      (FirstHopLaw nm' W src d ↔ ∀ D, Shortest (lengths W.weight) src d D → (D : Int) < INT_MAX →
        Direct (lengths W.weight) src d ∨
          FirstRelay (lengths W.weight) src d (Direct (lengths W.weight) src)) := by
  obtain ⟨nm', s, run, routed⟩ := updateRoutingTable_routed nm W (distinct.listed src)
  have done := routed.done
  have hop := routed.getNextHop (distinct.listed d)
  have limit := cap_eq
  refine ⟨nm', run, routed.topology, forall_congr' fun D => ?_⟩
  constructor
  · intro law shortest below
    have reached := done.reach_eq shortest (by omega)
    obtain ⟨h, answer, w, c, link, rest, sum⟩ := law shortest below
    rw [hop, Except.ok.injEq, Option.some.injEq] at answer
    have same : s.via d = h := get_inj distinct (congrArg Node.name answer)
    exact (done.first_hop_iff other (by omega)).mp ⟨w, c, same ▸ link, same ▸ rest, by omega⟩
  · intro condition shortest below
    have reached := done.reach_eq shortest (by omega)
    obtain ⟨w, c, link, rest, sum⟩ := (done.first_hop_iff other (by omega)).mpr (condition shortest below)
    exact ⟨s.via d, hop, w, c, link, rest, by omega⟩

def satelliteAt (name : String) (x y : ℚ) : Node :=
  ⟨.satellite, name, name, "127.0.0.1", 33001, (.finite x, .finite y)⟩

/-- Four satellites in a line, 400 units apart. -/
def line : NetworkManager where
  topology := .empty
  nextHop := []
  nodes := [satelliteAt "sat1" 0 0, satelliteAt "sat2" 400 0, satelliteAt "sat3" 800 0, satelliteAt "sat4" 1200 0]

namespace line

def sat1 : Fin line.nodes.length := ⟨0, by decide⟩
def sat2 : Fin line.nodes.length := ⟨1, by decide⟩
def sat3 : Fin line.nodes.length := ⟨2, by decide⟩
def sat4 : Fin line.nodes.length := ⟨3, by decide⟩

def weights : Weighted line.nodes where
  weight i j := (linkWeight (line.nodes.get i) (line.nodes.get j)).toOption.getD 0
  computed := by decide +kernel

theorem firstHopLaw_iff_sat4 :
    ∃ nm', line.updateRoutingTable (line.nodes.get sat1) = .ok nm' ∧ nm'.topology = .grid weights.weight ∧
      (FirstHopLaw nm' weights sat1 sat4 ↔ ∀ D, Shortest (lengths weights.weight) sat1 sat4 D →
        (D : Int) < INT_MAX → Direct (lengths weights.weight) sat1 sat4 ∨
          FirstRelay (lengths weights.weight) sat1 sat4 (Direct (lengths weights.weight) sat1)) :=
  firstHopLaw_iff line weights (by decide) sat1 sat4 (by decide)

theorem shortest_sat4 : Shortest (lengths weights.weight) sat1 sat4 1200 := by
  have first : Walk (lengths weights.weight) sat1 sat2 400 := Walk.link (by decide +kernel)
  have second : Walk (lengths weights.weight) sat1 sat3 800 := first.next (e := 400) (by decide +kernel) trivial
  refine ⟨second.next (e := 400) (by decide +kernel) trivial, fun d walk => ?_⟩
  have feasible : ∀ u v : Fin line.nodes.length,
      400 * v.val ≤ 400 * u.val + ((lengths weights.weight u v).getD 1200) := by decide +kernel
  have bound := walk.label_le (fun v => 400 * v.val) rfl fun u v e link => by
    have step := feasible u v
    rwa [link, Option.getD_some] at step
  exact bound

/-- From one end of the line the way to the other end starts with `sat2`; the table says `sat3`. -/
theorem not_firstHopLaw :
    ∃ nm', line.updateRoutingTable (line.nodes.get sat1) = .ok nm' ∧ ¬FirstHopLaw nm' weights sat1 sat4 := by
  obtain ⟨nm', s, run, routed⟩ := updateRoutingTable_routed line weights (DistinctNames.listed (by decide) sat1)
  refine ⟨nm', run, fun law => ?_⟩
  obtain ⟨h, answer, w, c, link, _, sum⟩ := law 1200 shortest_sat4 (by decide)
  have stored : (line.updateRoutingTable (line.nodes.get sat1) >>= fun nm => nm.getNextHop "sat4").toOption =
      some (some (line.nodes.get sat3)) := by decide +kernel
  rw [run] at stored
  change (nm'.getNextHop (line.nodes.get sat4).name).toOption = _ at stored
  rw [answer] at stored
  have relay : h = sat3 := get_inj (by decide) (congrArg Node.name (Option.some.inj (Option.some.inj stored)))
  have long : lengths weights.weight sat1 sat3 = some 90500 := by decide +kernel
  rw [relay, long, Option.some.injEq] at link
  omega

end line
end Nexus
