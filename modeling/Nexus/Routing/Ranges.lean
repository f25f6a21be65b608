import Nexus.NodeList
import Nexus.Routing.Simulation

namespace Nexus

/-- The tables of a search among `n` nodes hold no hop outside them. -/
structure RouteTables.InRange (n : Nat) (t : RouteTables) : Prop where
  visited : t.visited.length = n
  sized : t.nextHop.length = n
  hops : ∀ hop ∈ t.nextHop, hop < n

section Search
variable {topology : Topology} {n src_idx : Nat} {t t' : RouteTables}

theorem RouteTables.InRange.relax {minUnvIdx j : Nat} (inRange : t.InRange n) (inside : minUnvIdx < n)
    (run : relax topology src_idx minUnvIdx t j = .ok t') : t'.InRange n := by
  obtain ⟨seen, _, run⟩ := bind_eq_ok.mp run
  cases seen with
  | true =>
    cases run
    exact inRange
  | false =>
    obtain ⟨link, _, run⟩ := bind_eq_ok.mp run
    split at run
    · cases run
      exact inRange
    obtain ⟨base, _, run⟩ := bind_eq_ok.mp run
    obtain ⟨sum, _, run⟩ := bind_eq_ok.mp run
    obtain ⟨old, _, run⟩ := bind_eq_ok.mp run
    split at run
    · obtain ⟨minDist, _, run⟩ := bind_eq_ok.mp run
      split at run
      · cases run
        exact ⟨inRange.visited, inRange.sized, inRange.hops⟩
      · obtain ⟨nextHop, stored, run⟩ := bind_eq_ok.mp run
        obtain ⟨_, rfl⟩ := writeAt_eq_ok.mp stored
        cases run
        refine ⟨inRange.visited, by rw [List.length_set, inRange.sized], fun hop member => ?_⟩
        rcases List.mem_or_eq_of_mem_set member with old | rfl
        · exact inRange.hops hop old
        · exact inside
    · cases run
      exact inRange

theorem RouteTables.InRange.visitNearest (inRange : t.InRange n)
    (run : visitNearest topology n src_idx t = .ok t') : t'.InRange n := by
  obtain ⟨best, _, run⟩ := bind_eq_ok.mp run
  split at run
  · cases run
  · rename_i minUnvIdx _
    obtain ⟨visited, marked, run⟩ := bind_eq_ok.mp run
    obtain ⟨inside, rfl⟩ := writeAt_eq_ok.mp marked
    have start : (⟨t.visited.set minUnvIdx true, t.minDist, t.nextHop⟩ : RouteTables).InRange n :=
      ⟨by rw [List.length_set, inRange.visited], inRange.sized, inRange.hops⟩
    exact forRange_keeps _ _ start (fun j u u' kept pass => kept.relax (inRange.visited ▸ inside) pass) run

theorem routeTables_inRange {nextHop : List Nat} (run : routeTables topology nextHop n src_idx = .ok t) :
    t.InRange n := by
  obtain ⟨hops, reset, run⟩ := bind_eq_ok.mp run
  obtain ⟨minDist, _, run⟩ := bind_eq_ok.mp run
  rw [resetNextHop_eq] at reset
  cases reset
  refine forRange_keeps _ _ ⟨List.length_replicate, List.length_ofFn, fun hop member => ?_⟩
    (fun _ u u' kept pass => kept.visitNearest pass) run
  obtain ⟨i, rfl⟩ := List.mem_ofFn.mp member
  exact i.isLt

end Search

namespace NetworkManager
variable {lib : Jsoncpp} {nm nm' : NetworkManager}

/-- A recomputation leaves a hop inside the node list for every node. -/
theorem updateRoutingTable_inRange {src : Node} (run : nm.updateRoutingTable src = .ok nm') :
    nm'.nodes = nm.nodes ∧ nm'.nextHop.length = nm.nodes.length ∧ ∀ hop ∈ nm'.nextHop, hop < nm.nodes.length := by
  obtain ⟨_, _, filled⟩ := nm.updateRoutingTable_sized src
  rw [filled] at run
  obtain ⟨topology, _, run⟩ := bind_eq_ok.mp run
  obtain ⟨t, routed, run⟩ := bind_eq_ok.mp run
  cases run
  have inRange := routeTables_inRange routed
  exact ⟨rfl, inRange.sized, inRange.hops⟩

/-- The tables stay as they are while nodes come. -/
structure Grows (nm nm' : NetworkManager) : Prop where
  nextHop : nm'.nextHop = nm.nextHop
  nodes : nm.nodes.length ≤ nm'.nodes.length

theorem grows_addNodes (nm : NetworkManager) (added : List Node) : Grows nm (nm.addNodes added) where
  nextHop := (tables_addNodes nm added).2
  nodes := by simpa using (unplaced_addNodes nm added).length_le

theorem grows_fetchNodesFromRegistry {ids : Nat → String} {response : String}
    (run : nm.fetchNodesFromRegistry lib ids response = .ok nm') : Grows nm nm' := by
  obtain ⟨added, rfl⟩ := fetchNodesFromRegistry_added run
  exact grows_addNodes nm added

/-- A call on the network manager of a node. -/
inductive Call
  | addNode (node : Node)
  | fetchNodesFromRegistry (ids : Nat → String) (response : String)
  | removeNode (id : String)
  | updateRoutingTable (src : Node)
  | getNextHop (name : String)

/-- What a call leaves. A lookup changes nothing, also where it reads outside the tables. -/
def call (lib : Jsoncpp) (nm : NetworkManager) : Call → Except Fault NetworkManager
  | .addNode node => .ok (nm.addNode node)
  | .fetchNodesFromRegistry ids response => nm.fetchNodesFromRegistry lib ids response
  | .removeNode id => .ok (nm.removeNode id)
  | .updateRoutingTable src => nm.updateRoutingTable src
  | .getNextHop _ => .ok nm

/-- What a sequence of calls reaches, with the number of nodes when the tables were last recomputed. -/
inductive Run (lib : Jsoncpp) : List Call → NetworkManager → Nat → Prop
  | fresh : Run lib [] NetworkManager.fresh 0
  | recompute {calls : List Call} {nm nm' : NetworkManager} {routed : Nat} {src : Node} (run : Run lib calls nm routed)
      (listed : nm.nodes ≠ []) (last : nm.call lib (.updateRoutingTable src) = .ok nm') :
      Run lib (calls ++ [.updateRoutingTable src]) nm' nm.nodes.length
  | other {calls : List Call} {nm nm' : NetworkManager} {routed : Nat} {c : Call} (run : Run lib calls nm routed)
      (other : ∀ src, c ≠ .updateRoutingTable src) (last : nm.call lib c = .ok nm') :
      Run lib (calls ++ [c]) nm' routed

/-- A node was removed after the tables were last recomputed. -/
def Removed (calls : List Call) : Prop :=
  ∃ before id since, calls = before ++ .removeNode id :: since ∧ ∀ src, Call.updateRoutingTable src ∉ since

section Runs
variable {calls : List Call} {routed : Nat}

theorem Run.sized (run : Run lib calls nm routed) :
    nm.nextHop.length = routed ∧ ∀ hop ∈ nm.nextHop, hop < routed := by
  induction run with
  | fresh => exact ⟨rfl, fun hop impossible => absurd impossible List.not_mem_nil⟩
  | recompute _ _ last _ => exact (updateRoutingTable_inRange last).2
  | @other calls nm nm' routed c _ other last ih =>
    have same : nm'.nextHop = nm.nextHop := by
      cases c with
      | addNode node =>
        cases last
        exact (grows_addNodes nm [node]).nextHop
      | fetchNodesFromRegistry ids response => exact (grows_fetchNodesFromRegistry last).nextHop
      | removeNode id =>
        cases last
        rfl
      | updateRoutingTable src => exact absurd rfl (other src)
      | getNextHop name =>
        cases last
        rfl
    rw [same]
    exact ih

theorem Removed.snoc (removed : Removed calls) {c : Call} (other : ∀ src, c ≠ .updateRoutingTable src) :
    Removed (calls ++ [c]) := by
  obtain ⟨before, id, since, rfl, none⟩ := removed
  refine ⟨before, id, since ++ [c], by simp, fun src member => ?_⟩
  rcases List.mem_append.mp member with old | new
  · exact none src old
  · exact other src (List.mem_singleton.mp new).symm

theorem Run.grown (run : Run lib calls nm routed) (kept : ¬Removed calls) : routed ≤ nm.nodes.length := by
  induction run with
  | fresh => exact Nat.le_refl 0
  | recompute _ _ last _ => rw [(updateRoutingTable_inRange last).1]
  | @other calls nm nm' routed c _ other last ih =>
    have before := ih fun removed => kept (removed.snoc other)
    cases c with
    | addNode node =>
      cases last
      exact before.trans (grows_addNodes nm [node]).nodes
    | fetchNodesFromRegistry ids response => exact before.trans (grows_fetchNodesFromRegistry last).nodes
    | removeNode id => exact absurd ⟨calls, id, [], rfl, fun src => List.not_mem_nil⟩ kept
    | updateRoutingTable src => exact absurd rfl (other src)
    | getNextHop name =>
      cases last
      exact before

end Runs

/-- Both reads of a lookup that finds its name at `i` are inside their vectors. -/
def LookupInRange (nm : NetworkManager) (i : Nat) : Prop :=
  ∃ hop, nm.nextHop[i]? = some hop ∧ hop < nm.nodes.length

theorem Run.lookupInRange {calls : List Call} {routed : Nat} (run : Run lib calls nm routed) (i : Nat) :
    LookupInRange nm i ↔
      i < routed ∧ (nm.nodes.length < routed → ∀ hop, nm.nextHop[i]? = some hop → hop < nm.nodes.length) := by
  obtain ⟨sized, hops⟩ := run.sized
  constructor
  · rintro ⟨hop, here, inside⟩
    obtain ⟨below, _⟩ := List.getElem?_eq_some_iff.mp here
    refine ⟨sized ▸ below, fun _ hop' here' => ?_⟩
    rw [Option.some.inj (here'.symm.trans here)]
    exact inside
  · rintro ⟨below, kept⟩
    have here : nm.nextHop[i]? = some _ := List.getElem?_eq_getElem (sized.symm ▸ below)
    refine ⟨_, here, ?_⟩
    by_cases shrunk : nm.nodes.length < routed
    · exact kept shrunk _ here
    · exact Nat.lt_of_lt_of_le (hops _ (List.mem_of_getElem? here)) (Nat.not_lt.mp shrunk)

theorem getNextHop_iff {name : String} {i : Nat}
    (found : (nm.nodes.findIdx? fun node => node.name = name) = some i) :
    (∃ node, nm.getNextHop name = .ok (some node)) ↔ LookupInRange nm i := by
  simp only [getNextHop, found, bind_eq_ok, readAt_eq_ok, LookupInRange]
  constructor
  · rintro ⟨node, hop, here, there, listed, _⟩
    exact ⟨hop, here, (List.getElem?_eq_some_iff.mp listed).1⟩
  · rintro ⟨hop, here, inside⟩
    exact ⟨_, hop, here, _, List.getElem?_eq_getElem inside, rfl⟩

/-- In every state that calls reach, a lookup stays in range exactly if the node was there when the tables were last
recomputed and its hop still is; unless a node was removed since then, exactly if the node was there. -/
theorem lookupInRange_iff (lib : Jsoncpp) (calls : List Call) (nm : NetworkManager) (routed : Nat)
    (run : Run lib calls nm routed) (name : String) (i : Nat)
    (found : (nm.nodes.findIdx? fun node => node.name = name) = some i) :
    (LookupInRange nm i ↔
      i < routed ∧ (nm.nodes.length < routed → ∀ hop, nm.nextHop[i]? = some hop → hop < nm.nodes.length)) ∧
      (¬Removed calls → (LookupInRange nm i ↔ i < routed)) ∧
      ((∃ node, nm.getNextHop name = .ok (some node)) ↔ LookupInRange nm i) := by
  refine ⟨run.lookupInRange i, fun kept => ?_, getNextHop_iff found⟩
  have grown := run.grown kept
  rw [run.lookupInRange i]
  exact ⟨fun both => both.1, fun inside => ⟨inside, fun shrunk => absurd shrunk (Nat.not_lt.mpr grown)⟩⟩

namespace growing

def node (name : String) (port : Int) : Node := ⟨.satellite, name, name, "127.0.0.1", port, (.finite 0, .finite 0)⟩

/-- No response is read in the runs below. -/
def library : Jsoncpp := ⟨fun _ => none, fun _ => "null\n", fun _ => "0.0"⟩

/-- A node that comes after the tables were recomputed. -/
def late : List Call :=
  [.addNode (node "sat1" 33001), .updateRoutingTable (node "sat1" 33001), .addNode (node "sat2" 33002)]

theorem run_late :
    ∃ nm, Run library late nm 1 ∧ (nm.nodes.findIdx? fun node => node.name = "sat2") = some 1 ∧
      nm.nextHop.length = 1 := by
  have first : Run library [.addNode (node "sat1" 33001)] (fresh.addNode (node "sat1" 33001)) 0 :=
    .other .fresh (fun _ => Call.noConfusion) rfl
  have recomputes : ((fresh.addNode (node "sat1" 33001)).updateRoutingTable (node "sat1" 33001)).toBool = true := by
    decide +kernel
  cases run : (fresh.addNode (node "sat1" 33001)).updateRoutingTable (node "sat1" 33001) with
  | error fault =>
    rw [run] at recomputes
    cases recomputes
  | ok nm =>
    obtain ⟨same, sized, _⟩ := updateRoutingTable_inRange run
    refine ⟨nm.addNode (node "sat2" 33002),
      .other (.recompute first (List.cons_ne_nil _ _) run) (fun _ => Call.noConfusion) rfl, ?_, ?_⟩
    · rw [addNode, nodeExists, same]
      rfl
    · rw [(tables_addNode nm _).2, sized]
      rfl

theorem lookupInRange_iff_late :
    ∃ nm, Run library late nm 1 ∧
      (LookupInRange nm 1 ↔
        1 < 1 ∧ (nm.nodes.length < 1 → ∀ hop, nm.nextHop[1]? = some hop → hop < nm.nodes.length)) ∧
      (¬Removed late → (LookupInRange nm 1 ↔ 1 < 1)) ∧
      ((∃ hop, nm.getNextHop "sat2" = .ok (some hop)) ↔ LookupInRange nm 1) := by
  obtain ⟨nm, run, found, _⟩ := run_late
  exact ⟨nm, run, lookupInRange_iff library late nm 1 run "sat2" 1 found⟩

/-- The node is found, and its hop is read past the end of the table. -/
theorem getNextHop_late :
    ∃ nm, Run library late nm 1 ∧ (nm.nodes.findIdx? fun node => node.name = "sat2") = some 1 ∧
      nm.nextHop.length = 1 ∧ nm.getNextHop "sat2" = .error .outOfRange := by
  obtain ⟨nm, run, found, sized⟩ := run_late
  refine ⟨nm, run, found, sized, ?_⟩
  have past : nm.nextHop[1]? = none := List.getElem?_eq_none (Nat.le_of_eq sized)
  simp only [getNextHop, found, readAt, past]
  rfl

end growing
end NetworkManager
end Nexus
