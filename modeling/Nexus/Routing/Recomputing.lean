import Nexus.Routing.Ranges
import Nexus.Routing.Table
import Mathlib.Data.List.Forall2

namespace Nexus

/-- Two nodes that the weights do not tell apart. -/
structure Alike (a b : Node) : Prop where
  name : a.name = b.name
  type : a.type = b.type
  coords : a.coords = b.coords

theorem Alike.linkWeight_eq {a a' b b' : Node} (left : Alike a a') (right : Alike b b') :
    linkWeight a b = linkWeight a' b' := by
  unfold linkWeight distance
  rw [left.type, left.coords, right.type, right.coords]

theorem Topology.grid_congr {m n : Nat} (size : m = n) {f : Fin m → Fin m → Int} {g : Fin n → Fin n → Int}
    (same : ∀ i j, f i j = g (i.cast size) (j.cast size)) : grid f = grid g := by
  subst size
  congr 1
  funext i j
  exact same i j

section Lists
variable {nodes nodes' : List Node}

/-- The weights of a list on which no pair overflows. -/
def Weighted.of (computed : ∀ a ∈ nodes, ∀ b ∈ nodes, ∃ w, linkWeight a b = .ok w) : Weighted nodes where
  weight i j := (linkWeight (nodes.get i) (nodes.get j)).toOption.getD 0
  computed i j := by
    obtain ⟨w, run⟩ := computed _ (List.get_mem nodes i) _ (List.get_mem nodes j)
    rw [run]
    rfl

theorem get_alike (alike : List.Forall₂ Alike nodes nodes') (i : Fin nodes.length) :
    Alike (nodes.get i) (nodes'.get (i.cast alike.length_eq)) :=
  alike.get i.isLt (alike.length_eq ▸ i.isLt)

theorem Weighted.grid_eq (alike : List.Forall₂ Alike nodes nodes') (W : Weighted nodes) (W' : Weighted nodes') :
    Topology.grid W.weight = .grid W'.weight := by
  refine Topology.grid_congr alike.length_eq fun i j => ?_
  have run := W.computed i j
  rw [(get_alike alike i).linkWeight_eq (get_alike alike j), W'.computed] at run
  exact (Except.ok.inj run).symm

theorem srcIdx_alike (alike : List.Forall₂ Alike nodes nodes') (src : Node) :
    NetworkManager.srcIdx nodes src = NetworkManager.srcIdx nodes' src := by
  unfold NetworkManager.srcIdx
  congr 1
  induction alike with
  | nil => rfl
  | cons first _ ih => rw [List.findIdx?_cons, List.findIdx?_cons, first.name, ih]

theorem Weighted.alike (W : Weighted nodes) (alike : List.Forall₂ Alike nodes nodes') :
    ∃ W' : Weighted nodes', Topology.grid W.weight = .grid W'.weight := by
  have known : ∀ a' ∈ nodes', ∃ i, Alike (nodes.get i) a' := by
    intro a' member
    obtain ⟨i, rfl⟩ := List.get_of_mem member
    exact ⟨i.cast alike.length_eq.symm, get_alike alike _⟩
  have computed : ∀ a' ∈ nodes', ∀ b' ∈ nodes', ∃ w, linkWeight a' b' = .ok w := by
    intro a' left b' right
    obtain ⟨i, here⟩ := known a' left
    obtain ⟨j, there⟩ := known b' right
    exact ⟨W.weight i j, here.linkWeight_eq there ▸ W.computed i j⟩
  exact ⟨.of computed, W.grid_eq alike _⟩

/-- What a recomputation leaves for a list that the weights do not tell apart from `nodes`. -/
theorem Weighted.updateRoutingTable_alike (W : Weighted nodes) (src : Node) {t : RouteTables} {nm : NetworkManager}
    (table : routeTables (.grid W.weight) [] nodes.length (NetworkManager.srcIdx nodes src) = .ok t)
    (alike : List.Forall₂ Alike nodes nm.nodes) :
    nm.updateRoutingTable src = .ok ⟨.grid W.weight, t.nextHop, nm.nodes⟩ := by
  obtain ⟨W', same⟩ := W.alike alike
  rw [W'.updateRoutingTable_eq, ← same, ← srcIdx_alike alike, ← alike.length_eq, table]
  rfl

end Lists

namespace NetworkManager
variable {lib : Jsoncpp} {calls calls' : List Call} {nm nm' : NetworkManager} {routed routed' : Nat}

theorem Run.distinctAddresses (run : Run lib calls nm routed) : DistinctAddresses nm.nodes := by
  induction run with
  | fresh => exact List.nodup_nil
  | recompute _ _ last ih => rw [(updateRoutingTable_inRange last).1]; exact ih
  | @other calls nm nm' routed c _ other last ih =>
    cases c with
    | addNode node =>
      cases last
      exact distinctAddresses_addNode ih node
    | fetchNodesFromRegistry ids response =>
      obtain ⟨added, rfl⟩ := fetchNodesFromRegistry_added last
      exact distinctAddresses_addNodes ih added
    | removeNode id =>
      cases last
      exact distinctAddresses_removeNode ih id
    | updateRoutingTable src => exact absurd rfl (other src)
    | getNextHop name =>
      cases last
      exact ih

/-- After any two histories that leave the same names, types and coordinates in the same order, a recomputation leaves
the same tables, those of network managers that are made afresh for the lists. -/
theorem updateRoutingTable_current (lib : Jsoncpp) (calls calls' : List Call) (nm nm' : NetworkManager)
    (routed routed' : Nat) (run : Run lib calls nm routed) (run' : Run lib calls' nm' routed')
    (listed : nm.nodes ≠ []) (alike : List.Forall₂ Alike nm.nodes nm'.nodes)
    (computed : ∀ a ∈ nm.nodes, ∀ b ∈ nm.nodes, ∃ w, linkWeight a b = .ok w) (src : Node) :
    ∃ topology nextHop, nm.updateRoutingTable src = .ok ⟨topology, nextHop, nm.nodes⟩ ∧
      nm'.updateRoutingTable src = .ok ⟨topology, nextHop, nm'.nodes⟩ ∧
      (fresh.addNodes nm.nodes).updateRoutingTable src = .ok ⟨topology, nextHop, nm.nodes⟩ ∧
      (fresh.addNodes nm'.nodes).updateRoutingTable src = .ok ⟨topology, nextHop, nm'.nodes⟩ ∧
      topology.rows.length = nm.nodes.length ∧
      ∀ i j : Fin nm.nodes.length, ∃ w, topology.read i j = .ok w ∧ topology.read j i = .ok w := by
  let W := Weighted.of computed
  obtain ⟨s, _, table⟩ := routeTables_search W.proper ⟨srcIdx nm.nodes src, srcIdx_lt listed src⟩ []
  have same : (fresh.addNodes nm.nodes).nodes = nm.nodes := @nodes_addNodes fresh _ run.distinctAddresses
  have same' : (fresh.addNodes nm'.nodes).nodes = nm'.nodes := @nodes_addNodes fresh _ run'.distinctAddresses
  have own : List.Forall₂ Alike nm.nodes nm.nodes := List.forall₂_same.mpr fun node _ => ⟨rfl, rfl, rfl⟩
  refine ⟨.grid W.weight, (tables s).nextHop, W.updateRoutingTable_alike src table own,
    W.updateRoutingTable_alike src table alike, ?_, ?_, List.length_ofFn,
    fun i j => ⟨_, Topology.read_grid _ i j, W.symm i j ▸ Topology.read_grid _ j i⟩⟩
  · rw [W.updateRoutingTable_alike src table (same.symm ▸ own), same]
  · rw [W.updateRoutingTable_alike src table (same'.symm ▸ alike), same']

namespace twoHistories

def node (name : String) (x : ℚ) (port : Int) : Node :=
  ⟨.satellite, name, name, "127.0.0.1", port, (.finite x, .finite 0)⟩

/-- No response is read in the histories below. -/
def library : Jsoncpp := ⟨fun _ => none, fun _ => "null\n", fun _ => "0.0"⟩

/-- The tables are computed for three nodes, of which then one leaves and another comes. -/
def exchanged : List Call :=
  [.addNode (node "sat1" 0 33001), .addNode (node "sat2" 400 33002), .addNode (node "sat3" 700 33003),
    .updateRoutingTable (node "sat1" 0 33001), .removeNode "sat2", .addNode (node "sat4" 900 33004)]

/-- The tables are computed for two nodes, and another comes. -/
def extended : List Call :=
  [.addNode (node "sat1" 0 33001), .addNode (node "sat3" 700 33003), .updateRoutingTable (node "sat3" 700 33003),
    .addNode (node "sat4" 900 33005)]

theorem Run.added {calls : List Call} {nm : NetworkManager} {routed : Nat} (run : Run library calls nm routed)
    (node : Node) : Run library (calls ++ [.addNode node]) (nm.addNode node) routed :=
  run.other (fun _ => Call.noConfusion) rfl

/-- What the tables say of the nodes at the positions 0 and 1 goes back to `sat2`. -/
theorem run_exchanged :
    ∃ nm, Run library exchanged nm 3 ∧
      nm.nodes = [node "sat1" 0 33001, node "sat3" 700 33003, node "sat4" 900 33004] ∧
      nm.topology.read 0 1 = .ok 400 := by
  have three := Run.added (Run.added (Run.added .fresh (node "sat1" 0 33001)) (node "sat2" 400 33002))
    (node "sat3" 700 33003)
  have stored : (((fresh.addNode (node "sat1" 0 33001)).addNode (node "sat2" 400 33002)).addNode
      (node "sat3" 700 33003)).updateRoutingTable (node "sat1" 0 33001) >>= (fun nm => nm.topology.read 0 1) =
        .ok 400 := by
    decide +kernel
  obtain ⟨nm, last, read⟩ := bind_eq_ok.mp stored
  have nodes := (updateRoutingTable_inRange last).1
  have left := (Run.recompute three (List.cons_ne_nil _ _) last).other (c := .removeNode "sat2")
    (fun _ => Call.noConfusion) rfl
  refine ⟨_, Run.added left (node "sat4" 900 33004), ?_, ?_⟩
  · rw [addNode, nodeExists, removeNode, nodes]
    rfl
  · rw [(tables_addNode _ _).1]
    exact read

theorem run_extended :
    ∃ nm, Run library extended nm 2 ∧
      nm.nodes = [node "sat1" 0 33001, node "sat3" 700 33003, node "sat4" 900 33005] := by
  have two := Run.added (Run.added .fresh (node "sat1" 0 33001)) (node "sat3" 700 33003)
  have recomputes : ((fresh.addNode (node "sat1" 0 33001)).addNode (node "sat3" 700 33003)).updateRoutingTable
      (node "sat3" 700 33003) >>= (fun nm => nm.topology.read 0 1) = .ok 40500 := by
    decide +kernel
  obtain ⟨nm, last, _⟩ := bind_eq_ok.mp recomputes
  have nodes := (updateRoutingTable_inRange last).1
  refine ⟨_, Run.added (Run.recompute two (List.cons_ne_nil _ _) last) (node "sat4" 900 33005), ?_⟩
  rw [addNode, nodeExists, nodes]
  rfl

theorem computed_exchanged :
    ∀ a ∈ [node "sat1" 0 33001, node "sat3" 700 33003, node "sat4" 900 33004],
      ∀ b ∈ [node "sat1" 0 33001, node "sat3" 700 33003, node "sat4" 900 33004], ∃ w, linkWeight a b = .ok w := by
  have all : ∀ a ∈ [node "sat1" 0 33001, node "sat3" 700 33003, node "sat4" 900 33004],
      ∀ b ∈ [node "sat1" 0 33001, node "sat3" 700 33003, node "sat4" 900 33004], (linkWeight a b).toBool = true := by
    decide +kernel
  intro a left b right
  cases run : linkWeight a b with
  | ok w => exact ⟨w, rfl⟩
  | error fault =>
    have bounded := all a left b right
    rw [run] at bounded
    cases bounded

theorem updateRoutingTable_current_exchanged :
    ∃ nm nm', Run library exchanged nm 3 ∧ Run library extended nm' 2 ∧ nm.topology.read 0 1 = .ok 400 ∧
      ∃ topology nextHop,
        nm.updateRoutingTable (node "sat1" 0 33001) = .ok ⟨topology, nextHop, nm.nodes⟩ ∧
        nm'.updateRoutingTable (node "sat1" 0 33001) = .ok ⟨topology, nextHop, nm'.nodes⟩ ∧
        (fresh.addNodes nm.nodes).updateRoutingTable (node "sat1" 0 33001) = .ok ⟨topology, nextHop, nm.nodes⟩ ∧
        (fresh.addNodes nm'.nodes).updateRoutingTable (node "sat1" 0 33001) = .ok ⟨topology, nextHop, nm'.nodes⟩ ∧
        topology.rows.length = nm.nodes.length ∧
        ∀ i j : Fin nm.nodes.length, ∃ w, topology.read i j = .ok w ∧ topology.read j i = .ok w := by
  obtain ⟨nm, run, nodes, read⟩ := run_exchanged
  obtain ⟨nm', run', nodes'⟩ := run_extended
  have listed : nm.nodes ≠ [] := nodes ▸ List.cons_ne_nil _ _
  have alike : List.Forall₂ Alike nm.nodes nm'.nodes := by
    rw [nodes, nodes']
    exact .cons ⟨rfl, rfl, rfl⟩ (.cons ⟨rfl, rfl, rfl⟩ (.cons ⟨rfl, rfl, rfl⟩ .nil))
  exact ⟨nm, nm', run, run', read, updateRoutingTable_current library exchanged extended nm nm' 3 2 run run' listed
    alike (nodes ▸ computed_exchanged) (node "sat1" 0 33001)⟩

end twoHistories
end NetworkManager
end Nexus
