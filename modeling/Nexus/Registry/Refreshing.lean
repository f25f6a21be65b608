import Nexus.Registry.Following

namespace Nexus
open Entries

namespace NetworkManager
variable {nm : NetworkManager} {node : Node}

/-- `addNode` moves the node that it matched, and nothing else. -/
def Refreshes (nm : NetworkManager) (node : Node) : Prop :=
  ∃ i known, nm.nodes[i]? = some known ∧ known.address = node.address ∧
    (nm.addNode node).nodes = nm.nodes.set i { known with coords := node.coords }

/-- The first node of the name is the one at the address, or it and the one at the address are there already. -/
def FirstMatches (nm : NetworkManager) (node : Node) : Prop :=
  ∀ first, nm.findNode node.name = some first → first.address = node.address ∨
    first.coords = node.coords ∧ ∀ known ∈ nm.nodes, known.address = node.address → known.coords = node.coords

theorem Listed.setCoords_eq {nodes : List Node} {i : Fin nodes.length} (listed : Listed nodes node.name i) :
    setCoords node nodes = nodes.set i { nodes.get i with coords := node.coords } := by
  induction nodes with
  | nil => exact i.elim0
  | cons existingNode rest ih =>
    rw [Listed, List.findIdx?_cons] at listed
    rw [setCoords]
    by_cases here : existingNode.name = node.name
    · rw [if_pos (by simpa using here), Option.some.injEq] at listed
      obtain rfl : i = ⟨0, Nat.succ_pos _⟩ := Fin.ext listed.symm
      rw [if_pos here]
      rfl
    · rw [if_neg (by simpa using here), Option.map_eq_some_iff] at listed
      obtain ⟨k, found, next⟩ := listed
      obtain ⟨inside, _⟩ := List.findIdx?_eq_some_iff_getElem.mp found
      obtain rfl : i = ⟨k + 1, Nat.succ_lt_succ inside⟩ := Fin.ext next.symm
      rw [if_neg here, @ih ⟨k, inside⟩ found]
      rfl

theorem set_coords_eq_self {nodes : List Node} {i : Nat} {known : Node} (here : nodes[i]? = some known) :
    nodes.set i { known with coords := node.coords } = nodes ↔ known.coords = node.coords := by
  obtain ⟨inside, value⟩ := List.getElem?_eq_some_iff.mp here
  constructor
  · intro same
    have moved : (nodes.set i { known with coords := node.coords })[i]? = some known := by rw [same, here]
    rw [List.getElem?_set_self inside] at moved
    exact (congrArg Node.coords (Option.some.inj moved)).symm
  · intro there
    have unmoved : ({ known with coords := node.coords } : Node) = nodes[i] := by rw [value, ← there]
    rw [unmoved, List.set_getElem_self]

theorem nodes_addNode (known : nm.nodeExists node = true) {i : Fin nm.nodes.length}
    (listed : Listed nm.nodes node.name i) :
    (nm.addNode node).nodes = nm.nodes.set i { nm.nodes.get i with coords := node.coords } := by
  rw [addNode, if_pos known]
  exact Listed.setCoords_eq listed

theorem firstMatches_iff {i : Fin nm.nodes.length} (listed : Listed nm.nodes node.name i) :
    FirstMatches nm node ↔ (nm.nodes.get i).address = node.address ∨ (nm.nodes.get i).coords = node.coords ∧
      ∀ known ∈ nm.nodes, known.address = node.address → known.coords = node.coords := by
  constructor
  · exact fun first => first _ listed.findNode
  · intro holds first found
    obtain rfl : nm.nodes.get i = first := Option.some.inj (listed.findNode.symm.trans found)
    exact holds

/-- The node that was matched moves exactly if it is the first of its name, unless nothing has to move. -/
theorem refreshes_iff (distinct : DistinctAddresses nm.nodes) (known : nm.nodeExists node = true) :
    Refreshes nm node ↔ FirstMatches nm node := by
  obtain ⟨matched, member, same⟩ := nodeExists_iff.mp known
  obtain ⟨j, rfl⟩ := List.get_of_mem member
  obtain ⟨i, listed⟩ := exists_listed j
  have named : (nm.nodes.get j).name = node.name := congrArg Prod.fst same
  rw [named] at listed
  have here : nm.nodes[i.val]? = some (nm.nodes.get i) := List.getElem?_eq_getElem i.isLt
  have there : nm.nodes[j.val]? = some (nm.nodes.get j) := List.getElem?_eq_getElem j.isLt
  rw [firstMatches_iff listed, Refreshes, nodes_addNode known listed]
  constructor
  · rintro ⟨k, matched, atK, same', moved⟩
    by_cases first : k = i.val
    · rw [first, here, Option.some.injEq] at atK
      exact Or.inl (atK ▸ same')
    · refine Or.inr ⟨?_, fun other listed' address => ?_⟩
      · have still : (nm.nodes.set i { nm.nodes.get i with coords := node.coords })[i.val]? = some (nm.nodes.get i) := by
          rw [moved, List.getElem?_set_ne first, here]
        rw [List.getElem?_set_self i.isLt] at still
        exact (congrArg Node.coords (Option.some.inj still)).symm
      · obtain rfl := distinct.eq_of_address listed' (List.mem_of_getElem? atK) (address.trans same'.symm)
        obtain ⟨inside, _⟩ := List.getElem?_eq_some_iff.mp atK
        have still : (nm.nodes.set k { other with coords := node.coords })[k]? = some other := by
          rw [← moved, List.getElem?_set_ne (Ne.symm first), atK]
        rw [List.getElem?_set_self inside] at still
        exact (congrArg Node.coords (Option.some.inj still)).symm
  · rintro (address | ⟨unmoved, all⟩)
    · exact ⟨i, _, here, address, rfl⟩
    · refine ⟨j, _, there, same, ?_⟩
      rw [(set_coords_eq_self here).mpr unmoved, (set_coords_eq_self there).mpr (all _ member same)]

section Repetition
variable {listed again : List Node} {name : String}

/-- A node up to the `id` that was drawn for it. -/
def described (node : Node) : Node := { node with id := "" }

theorem addNode_described {node' : Node} (known : nm.nodeExists node = true) (same : described node' = described node) :
    nm.addNode node' = nm.addNode node := by
  have relabelled : node' = { node with id := node'.id } := by
    cases node
    cases node'
    cases same
    rfl
  have moves : setCoords node' nm.nodes = setCoords node nm.nodes := by
    rw [relabelled]
    induction nm.nodes with
    | nil => rfl
    | cons existingNode rest ih => rw [setCoords, setCoords, ih]
  have known' : nm.nodeExists node' = true := relabelled ▸ known
  rw [addNode, addNode, if_pos known, if_pos known', moves]

/-- Where all nodes are known, their ids do not matter. -/
theorem addNodes_described (known : ∀ node ∈ listed, nm.nodeExists node = true)
    (same : again.map described = listed.map described) : nm.addNodes again = nm.addNodes listed := by
  induction listed generalizing nm again with
  | nil => rw [List.map_eq_nil_iff.mp same]
  | cons node rest ih =>
    obtain ⟨node', rest', rfl, first, later⟩ := List.map_eq_cons_iff.mp same
    obtain ⟨here, others⟩ := List.forall_mem_cons.mp known
    show (nm.addNode node').addNodes rest' = (nm.addNode node).addNodes rest
    rw [addNode_described here first]
    exact ih (fun other member => nodeExists_addNodes (others other member) [node]) later

theorem addNodes_known (known : ∀ node ∈ listed, nm.nodeExists node = true) :
    (nm.addNodes listed).nodes.map Node.unplaced = nm.nodes.map Node.unplaced ∧
      ∀ name, own Node.name name (nm.addNodes listed).nodes =
        (own Node.name name listed).foldl (fun nodes node => moveFirst node.coords nodes)
          (own Node.name name nm.nodes) := by
  induction listed generalizing nm with
  | nil => exact ⟨rfl, fun name => rfl⟩
  | cons node rest ih =>
    obtain ⟨here, others⟩ := List.forall_mem_cons.mp known
    obtain ⟨unplaced, owned⟩ := @ih (nm.addNode node) fun other member => nodeExists_addNodes (others other member) [node]
    have moved : (nm.addNode node).nodes = setCoords node nm.nodes := by rw [addNode, if_pos here]
    rw [moved] at unplaced owned
    refine ⟨unplaced.trans (unplaced_setCoords node nm.nodes), fun name => (owned name).trans ?_⟩
    rw [own_setCoords]
    by_cases same : node.name = name
    · rw [if_pos same, own_cons_self same, List.foldl_cons]
    · rw [if_neg same, own_cons_other same]

theorem foldl_moveFirst (entries nodes : List Node) :
    entries.foldl (fun nodes node => moveFirst node.coords nodes) nodes =
      match entries.getLast? with
      | none => nodes
      | some last => moveFirst last.coords nodes := by
  induction entries using List.reverseRecOn with
  | nil => rfl
  | append_singleton earlier last ih =>
    rw [List.foldl_append, ih, List.getLast?_concat]
    cases earlier.getLast? with
    | none => rfl
    | some before =>
      cases nodes with
      | nil => rfl
      | cons first rest => rfl

theorem moveFirst_eq_self {coords : Binary64 × Binary64} {nodes : List Node} :
    moveFirst coords nodes = nodes ↔ ∀ first, nodes.head? = some first → first.coords = coords := by
  cases nodes with
  | nil => exact iff_of_true rfl fun first impossible => nomatch impossible
  | cons first rest =>
    constructor
    · rintro same _ ⟨⟩
      exact (congrArg Node.coords (List.cons.inj same).1).symm
    · intro there
      rw [moveFirst, ← there first rfl]

/-- Known nodes leave everything as it is exactly if the first node of each name is where the last of them is. -/
theorem addNodes_eq_self_iff (known : ∀ node ∈ listed, nm.nodeExists node = true) :
    nm.addNodes listed = nm ↔ ∀ name last, (own Node.name name listed).getLast? = some last →
      ∀ first, (own Node.name name nm.nodes).head? = some first → first.coords = last.coords := by
  obtain ⟨unplaced, owned⟩ := addNodes_known known
  simp only [foldl_moveFirst] at owned
  constructor
  · intro same name last final
    have kept := owned name
    rw [same, final] at kept
    exact moveFirst_eq_self.mp kept.symm
  · intro settled
    have names : (nm.addNodes listed).nodes.map Node.name = nm.nodes.map Node.name := by
      have through : ∀ nodes : List Node, nodes.map Node.name = (nodes.map Node.unplaced).map Node.name := by
        intro nodes
        rw [List.map_map]
        rfl
      rw [through, unplaced, ← through]
    have nodes : (nm.addNodes listed).nodes = nm.nodes := by
      refine eq_of_own names fun name => ?_
      rw [owned name]
      cases final : (own Node.name name listed).getLast? with
      | none => rfl
      | some last => exact moveFirst_eq_self.mpr (settled name last final)
    obtain ⟨topology, nextHop⟩ := tables_addNodes nm listed
    generalize there : nm.addNodes listed = after at nodes topology nextHop
    cases nm
    cases after
    cases nodes
    cases topology
    cases nextHop
    rfl

theorem views_addNodes (nm : NetworkManager) (added : List Node) (name : String) :
    (nm.addNodes added).views name = ((own Node.name name added).map Node.view).foldl View.absorb (nm.views name) := by
  induction added generalizing nm with
  | nil => rfl
  | cons node rest ih =>
    show ((nm.addNode node).addNodes rest).views name = _
    rw [ih, views, own_addNode]
    by_cases same : node.name = name
    · rw [if_pos same, own_cons_self same]
      rfl
    · rw [if_neg same, own_cons_other same]
      rfl

end Repetition

section Fetches
variable {lib : Jsoncpp} {ids : Nat → String}

theorem parseNodeFromJson_id (lib : Jsoncpp) (id id' : String) (nodeJson : Json) :
    parseNodeFromJson lib id' nodeJson =
      Option.map (fun node => { node with id := id' }) <$> parseNodeFromJson lib id nodeJson := by
  unfold parseNodeFromJson
  simp only [map_bind]
  congr 1
  funext name
  congr 1
  funext ip
  congr 1
  funext port
  split
  · rfl
  · simp only [map_bind]
    rfl

theorem readEntry_again {entry : Json × Nat} {found : Option Node} (ids' : Nat → String)
    (read : readEntry lib ids entry = .ok found) :
    ∃ found', readEntry lib ids' entry = .ok found' ∧ found'.map described = found.map described := by
  obtain ⟨nodeJson, k⟩ := entry
  cases nodeJson with
  | object members =>
    have first : parseNodeFromJson lib (ids k) (.object members) = .ok found := read
    have second : readEntry lib ids' (.object members, k) = parseNodeFromJson lib (ids' k) (.object members) := rfl
    rw [second, parseNodeFromJson_id lib (ids k), first]
    refine ⟨_, rfl, ?_⟩
    rw [Option.map_map]
    rfl
  | _ => exact ⟨found, read, rfl⟩

theorem mapM_readEntry_again {entries : List (Json × Nat)} {found : List (Option Node)} (ids' : Nat → String)
    (read : entries.mapM (readEntry lib ids) = .ok found) :
    ∃ found', entries.mapM (readEntry lib ids') = .ok found' ∧
      found'.map (Option.map described) = found.map (Option.map described) := by
  induction entries generalizing found with
  | nil =>
    cases read
    exact ⟨[], rfl, rfl⟩
  | cons entry rest ih =>
    rw [List.mapM_cons] at read
    obtain ⟨first, readFirst, read⟩ := bind_eq_ok.mp read
    obtain ⟨later, readLater, read⟩ := bind_eq_ok.mp read
    cases read
    obtain ⟨first', readFirst', same⟩ := readEntry_again ids' readFirst
    obtain ⟨later', readLater', same'⟩ := ih readLater
    refine ⟨first' :: later', ?_, by rw [List.map_cons, List.map_cons, same, same']⟩
    rw [List.mapM_cons]
    exact bind_eq_ok.mpr ⟨first', readFirst', bind_eq_ok.mpr ⟨later', readLater', rfl⟩⟩

/-- A response that is read again brings the same nodes, with ids of their own. -/
theorem readEntries_again {response : String} {listed : List Node} (ids' : Nat → String)
    (read : readEntries lib ids response = .ok listed) :
    ∃ again, readEntries lib ids' response = .ok again ∧ again.map described = listed.map described := by
  unfold readEntries at read ⊢
  cases parsed : lib.parse response with
  | none =>
    rw [parsed] at read
    exact ⟨listed, read, rfl⟩
  | some root =>
    rw [parsed] at read
    cases root with
    | array entries =>
      obtain ⟨found, readAll, read⟩ := bind_eq_ok.mp read
      cases read
      obtain ⟨found', readAll', same⟩ := mapM_readEntry_again ids' readAll
      refine ⟨found'.reduceOption, bind_eq_ok.mpr ⟨found', readAll', rfl⟩, ?_⟩
      rw [← List.reduceOption_map, same, List.reduceOption_map]
    | _ => exact ⟨listed, read, rfl⟩

end Fetches

/-- Under every name, the last listed node has the coordinates that the first node of the name shows: those that came
last for an address that had come before, or else those of the first node. -/
def Steady (added listed : List Node) : Prop :=
  ∀ name first later last, (own Node.name name (added ++ listed)).map Node.view = first :: later →
    (own Node.name name listed).getLast? = some last → (View.shown first later).coords = last.coords

theorem addNodes_again_iff (added listed : List Node) :
    (fresh.addNodes (added ++ listed)).addNodes listed = fresh.addNodes (added ++ listed) ↔ Steady added listed := by
  have known : ∀ node ∈ listed, (fresh.addNodes (added ++ listed)).nodeExists node = true := fun node member =>
    nodeExists_of_added (List.mem_append_right added member) fresh
  have shown : ∀ name, (own Node.name name (fresh.addNodes (added ++ listed)).nodes).head?.map Node.view =
      (((own Node.name name (added ++ listed)).map Node.view).foldl View.absorb []).head? := by
    intro name
    rw [← List.head?_map]
    exact congrArg List.head? (views_addNodes fresh (added ++ listed) name)
  rw [addNodes_eq_self_iff known]
  constructor
  · intro settled name first later last sent final
    have head := shown name
    rw [sent, View.head?_absorbed, Option.map_eq_some_iff] at head
    obtain ⟨node, found, view⟩ := head
    rw [← settled name last final node found, ← view]
    rfl
  · intro steady name last final node found
    have head := shown name
    cases sent : (own Node.name name (added ++ listed)).map Node.view with
    | nil =>
      rw [sent, found] at head
      cases head
    | cons first later =>
      rw [sent, View.head?_absorbed, found] at head
      rw [← steady name first later last sent final, ← Option.some.inj head]
      rfl

/-- In every state that additions reach, `addNode` moves no more than the node it matched exactly if that is the first
of its name or nothing has to move; and a response that is fetched twice changes nothing the second time exactly if
under every name the last node listed is where the first one is shown. -/
theorem addNode_refreshes_iff (added : List Node) :
    (∀ node, (fresh.addNodes added).nodeExists node = true →
      (Refreshes (fresh.addNodes added) node ↔ FirstMatches (fresh.addNodes added) node)) ∧
      ∀ (lib : Jsoncpp) (ids ids' : Nat → String) (response : String) (listed : List Node) (nm : NetworkManager),
        readEntries lib ids response = .ok listed →
        (fresh.addNodes added).fetchNodesFromRegistry lib ids response = .ok nm →
        (nm.fetchNodesFromRegistry lib ids' response = .ok nm ↔ Steady added listed) := by
  refine ⟨fun node known => refreshes_iff (@distinctAddresses_addNodes fresh List.nodup_nil added) known, ?_⟩
  intro lib ids ids' response listed nm read fetched
  rw [fetchNodesFromRegistry_eq, read] at fetched
  obtain rfl : (fresh.addNodes added).addNodes listed = nm := Except.ok.inj fetched
  obtain ⟨again, readAgain, same⟩ := readEntries_again ids' read
  rw [← addNodes_again_iff, ← addNodes_append, fetchNodesFromRegistry_eq, readAgain]
  have known : ∀ node ∈ listed, (fresh.addNodes (added ++ listed)).nodeExists node = true := fun node member =>
    nodeExists_of_added (List.mem_append_right added member) fresh
  rw [← addNodes_described known same]
  exact ⟨Except.ok.inj, congrArg Except.ok⟩

namespace twins

def sat1 (port : Int) (x : ℚ) : Node := ⟨.satellite, "1", "sat1", "127.0.0.1", port, (.finite x, .finite 0)⟩

/-- Two nodes of one name are listed. The second one is matched by its address, and the first one moves. -/
theorem not_refreshes :
    (fresh.addNodes [sat1 33001 0, sat1 33002 5]).nodeExists (sat1 33002 7) = true ∧
      ¬Refreshes (fresh.addNodes [sat1 33001 0, sat1 33002 5]) (sat1 33002 7) ∧
      ((fresh.addNodes [sat1 33001 0, sat1 33002 5]).addNodes [sat1 33001 0, sat1 33002 5]).nodes ≠
        (fresh.addNodes [sat1 33001 0, sat1 33002 5]).nodes := by
  have known : (fresh.addNodes [sat1 33001 0, sat1 33002 5]).nodeExists (sat1 33002 7) = true := by decide +kernel
  refine ⟨known, ?_, by decide +kernel⟩
  rw [refreshes_iff (@distinctAddresses_addNodes fresh List.nodup_nil _) known]
  intro first
  have found : (fresh.addNodes [sat1 33001 0, sat1 33002 5]).findNode "sat1" = some (sat1 33001 0) := by decide +kernel
  rcases first _ found with address | ⟨unmoved, _⟩
  · exact absurd address (by decide +kernel)
  · exact absurd unmoved (by decide +kernel)

end twins
end NetworkManager
end Nexus
