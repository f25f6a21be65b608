import Nexus.Delivery
import Nexus.Routing.Reachability

namespace Nexus
open ShortestPath

section Hops
variable {nodes : List Node} (W : Weighted nodes)

/-- The links that the topology declares unusable: those between two ground nodes. -/
def Unusable (nodes : List Node) (a b : Fin nodes.length) : Prop :=
  a ≠ b ∧ (nodes.get a).type = .ground ∧ (nodes.get b).type = .ground

/-- Some walk to `t` is shorter than `INT_MAX`, and none of the shortest is a single link. -/
def Relayed (src t : Fin nodes.length) : Prop :=
  t ≠ src ∧ (∃ D, Shortest (lengths W.weight) src t D ∧ (D : Int) < INT_MAX) ∧ ¬Direct (lengths W.weight) src t

/-- The next hop from `src` to `t`, read off the graph, satisfies `K`. -/
def HopIs (src t : Fin nodes.length) (K : Fin nodes.length → Prop) : Prop :=
  Relayed W src t ∧ FirstRelay (lengths W.weight) src t K ∨ ¬Relayed W src t ∧ K t

variable {W} {src : Fin nodes.length} {s : Search (Fin nodes.length)}

theorem Weighted.entry_of_ground (done : Finished (lengths W.weight) src cap s) {u : Fin nodes.length}
    (ground : (nodes.get u).type = .ground) (other : u ≠ src) (found : s.reach u < cap) :
    s.Entry (lengths W.weight) src u := by
  cases done.run.recorded done.positive other found with
  | direct _ link => exact done.entry_of_direct link
  | relay _ _ tight _ _ =>
    obtain ⟨e, link, sum⟩ := tight.length
    have positive := W.length_pos link (Or.inr ground)
    exact ⟨_, e, link, sum, Or.inr (by omega)⟩

/-- The table records the hop that the graph determines. -/
theorem hopIs_iff (done : Finished (lengths W.weight) src cap s) {t : Fin nodes.length}
    {K : Fin nodes.length → Prop}
    (ground : ∀ u, K u → (nodes.get u).type = .ground) : HopIs W src t K ↔ K (s.via t) := by
  have found_iff : s.reach t < cap ↔ ∃ D, Shortest (lengths W.weight) src t D ∧ (D : Int) < INT_MAX := by
    rw [done.found_iff]
    refine exists_congr fun D => and_congr_right fun _ => ?_
    rw [← cap_eq, Int.ofNat_lt]
  unfold HopIs
  by_cases relayed : Relayed W src t
  · obtain ⟨other, below, notDirect⟩ := id relayed
    have found := found_iff.mpr below
    have notSelf : s.via t ≠ t := fun self => notDirect ((done.via_self_iff other found).mp self)
    have relay := done.firstRelay_iff other found notSelf fun u holds notSrc last => by
      obtain ⟨e, _, sum⟩ := (done.lastRelay_iff found).mp last
      exact Weighted.entry_of_ground done (ground u holds) notSrc (by omega)
    rw [or_iff_left fun both => both.1 relayed, and_iff_right relayed]
    exact relay
  · have self : s.via t = t := by
      by_cases atSrc : t = src
      · rw [atSrc, done.run.via_src]
      by_cases found : s.reach t < cap
      · by_contra notSelf
        exact relayed ⟨atSrc, found_iff.mp found,
          fun direct => notSelf ((done.via_self_iff atSrc found).mpr direct)⟩
      · have bound := done.run.reach_le_cap t
        exact done.run.via_unreached (by omega)
    rw [or_iff_right fun both => relayed both.1, and_iff_right relayed, self]

/-- The second link of a relayed packet is one that the search has used. -/
theorem usable_after_hop (done : Finished (lengths W.weight) src cap s) (t : Fin nodes.length) :
    ¬Unusable nodes (s.via t) t := by
  intro ⟨different, groundHop, ground⟩
  by_cases atSrc : t = src
  · subst atSrc
    exact different done.run.via_src
  by_cases found : s.reach t < cap
  · cases done.run.recorded done.positive atSrc found with
    | direct self _ => exact different self
    | relay _ _ tight _ _ =>
      obtain ⟨e, link, _⟩ := tight.length
      cases (W.lengths_eq_none.mpr ⟨groundHop, ground⟩).symm.trans link
  · have bound := done.run.reach_le_cap t
    exact different (done.run.via_unreached (by omega))

end Hops

section Runs
variable {nodes : List Node}

/-- A host for every node of a list. -/
def Network.ofNodes (order : ByteOrder) (nodes : List Node) : Network (Fin nodes.length) := ⟨order, nodes.get⟩

/-- Every node holds the same list and has computed its own table. -/
def AllRouted (nodes : List Node) (manager : Fin nodes.length → NetworkManager) : Prop :=
  ∀ i, ∃ nm : NetworkManager, nm.nodes = nodes ∧ nm.updateRoutingTable (nodes.get i) = .ok (manager i)

/-- No datagram was handed to the network at a ground node for a different ground node. -/
def OverUsableLinks (net : Network (Fin nodes.length)) (s : State (Fin nodes.length)) : Prop :=
  ∀ tag a datagram b, Event.transmitted tag a datagram ∈ s.events → datagram.target = net.addr b →
    ¬Unusable nodes a b

/-- The next hop from `a` to the first node of a name, if that node has a valid address, can be reached from `a` over
a usable link. -/
def Clear (order : ByteOrder) (W : Weighted nodes) (a : Fin nodes.length) (name : String) : Prop :=
  ∀ src t, Listed nodes (nodes.get a).name src → Listed nodes name t →
    (∃ ip, inet_pton order (nodes.get t).ip = some ip) → ¬HopIs W src t (Unusable nodes a)

/-- The tables stay as they are. -/
def Kept : Action (Fin nodes.length) → Prop
  | .manage _ _ => False
  | _ => True

/-- Calls and datagrams in any order, as long as every send call has a usable first hop, or nothing to send. -/
def Permitted (order : ByteOrder) (W : Weighted nodes) : Action (Fin nodes.length) → Prop
  | .sendMessage a name _ _ _ => Clear order W a name
  | .sendFile a name file _ => file = some [] ∨ Clear order W a name
  | .manage _ _ => False
  | _ => True

theorem AllRouted.exists_search {manager : Fin nodes.length → NetworkManager} (routed : AllRouted nodes manager)
    (W : Weighted nodes) (a : Fin nodes.length) :
    ∃ src s, Listed nodes (nodes.get a).name src ∧ Finished (lengths W.weight) src cap s ∧
      (∀ name target, (manager a).findNode name = some target →
        ∃ t, Listed nodes name t ∧ target = nodes.get t) ∧
      ∀ name t, Listed nodes name t → (manager a).findNode name = some (nodes.get t) ∧
        (manager a).getNextHop name = .ok (some (nodes.get (s.via t))) := by
  obtain ⟨nm, same, run⟩ := routed a
  subst same
  obtain ⟨src, listed⟩ := exists_listed a
  obtain ⟨nm', s, run', table⟩ := updateRoutingTable_routed nm W listed
  obtain rfl := Except.ok.inj (run'.symm.trans run)
  refine ⟨src, s, listed, table.done, fun name target found => ?_, fun name t first =>
    ⟨table.findNode first, table.getNextHop first⟩⟩
  rw [table.findNode_eq] at found
  exact exists_listed_of_findNode found

/-- A datagram whose packet any host can send on over a usable link. -/
def Onward (net : Network (Fin nodes.length)) (datagram : Datagram) : Prop :=
  ∃ (pkt : Packet) (u t : Fin nodes.length), datagram = ⟨net.addr u, pkt.serialize net.order⟩ ∧
    net.addr t = ⟨pkt.tAddress, pkt.tPort⟩ ∧
    ¬Unusable nodes u t

/-- What the invariant of a run says of a state. -/
structure Sound (net : Network (Fin nodes.length)) (manager : Fin nodes.length → NetworkManager)
    (s : State (Fin nodes.length)) : Prop where
  unchanged : s.manager = manager
  events : OverUsableLinks net s
  flights : ∀ flight ∈ s.inFlight, Onward net flight.datagram

variable {order : ByteOrder} {W : Weighted nodes} {manager : Fin nodes.length → NetworkManager}
  {s s' : State (Fin nodes.length)}

/-- A datagram that a call sends goes to the hop that a search has recorded. -/
theorem AllRouted.emission (routed : AllRouted nodes manager) (W : Weighted nodes) {a : Fin nodes.length}
    {name : String} {datagram : Datagram}
    (emitted : Node.Emission order (nodes.get a) (manager a) name datagram) :
    ∃ (src t : Fin nodes.length) (s : Search (Fin nodes.length)) (pkt : Packet),
      Listed nodes (nodes.get a).name src ∧ Listed nodes name t ∧
      (∃ ip, inet_pton order (nodes.get t).ip = some ip) ∧ Finished (lengths W.weight) src cap s ∧
      datagram = ⟨(Network.ofNodes order nodes).addr (s.via t), pkt.serialize order⟩ ∧
      (Network.ofNodes order nodes).addr t = ⟨pkt.tAddress, pkt.tPort⟩ := by
  obtain ⟨src, s, listed, done, known, answer⟩ := routed.exists_search W a
  obtain ⟨target, next, pkt, found, valid, hop, addressed, rfl⟩ := emitted
  obtain ⟨t, first, rfl⟩ := known name target found
  cases hop.symm.trans (answer name t first).2
  refine ⟨src, t, s, pkt, listed, first, valid, done, rfl, ?_⟩
  rw [addressed.tAddress, addressed.tPort]
  rfl

theorem Clear.emission (routed : AllRouted nodes manager) {a : Fin nodes.length} {name : String}
    (clear : Clear order W a name) {datagram : Datagram}
    (emitted : Node.Emission order (nodes.get a) (manager a) name datagram) :
    Onward (.ofNodes order nodes) datagram ∧
      ∃ u, datagram.target = (Network.ofNodes order nodes).addr u ∧ ¬Unusable nodes a u := by
  obtain ⟨src, t, s, pkt, listed, first, valid, done, rfl, target⟩ := routed.emission W emitted
  have usable := clear src t listed first valid
  rw [hopIs_iff done fun u unusable => unusable.2.2] at usable
  exact ⟨⟨pkt, s.via t, t, rfl, target, usable_after_hop done t⟩, s.via t, rfl, usable⟩

/-- A datagram that went over a usable link shows that the condition held. -/
theorem Clear.of_emission (routed : AllRouted nodes manager) {a : Fin nodes.length} {name : String}
    {datagram : Datagram} (emitted : Node.Emission order (nodes.get a) (manager a) name datagram)
    (usable : ∀ u, datagram.target = (Network.ofNodes order nodes).addr u → ¬Unusable nodes a u) :
    Clear order W a name := by
  obtain ⟨src, t, s, pkt, listed, first, _, done, rfl, _⟩ := routed.emission W emitted
  intro src' t' listed' first' _
  obtain rfl := listed.unique listed'
  obtain rfl := first.unique first'
  rw [hopIs_iff done fun u unusable => unusable.2.2]
  exact usable (s.via t) rfl

theorem Sound.sent {net : Network (Fin nodes.length)} (bound : Function.Injective net.addr)
    (sound : Sound net manager s) {a : Fin nodes.length} {datagrams : List Datagram}
    (all : ∀ datagram ∈ datagrams, Onward net datagram ∧ ∃ u, datagram.target = net.addr u ∧ ¬Unusable nodes a u) :
    Sound net manager (s.sent a datagrams) where
  unchanged := sound.unchanged
  events := by
    intro tag h datagram b member target
    rcases List.mem_append.mp member with old | new
    · exact sound.events tag h datagram b old target
    · obtain ⟨datagram', among, same⟩ := List.mem_map.mp new
      cases same
      obtain ⟨_, u, target', usable⟩ := all datagram among
      exact bound (target'.symm.trans target) ▸ usable
  flights := by
    intro flight member
    rcases Multiset.mem_add.mp member with new | old
    · obtain ⟨datagram, among, rfl⟩ := List.mem_map.mp (Multiset.mem_coe.mp new)
      exact (all datagram among).1
    · exact sound.flights flight old

theorem Sound.received {net : Network (Fin nodes.length)} (bound : Function.Injective net.addr)
    (sound : Sound net manager s) {a : Fin nodes.length} {flight : Flight} {rest : Multiset Flight}
    {buffer : ReceiveBuffer} {reaction : Reaction} (split : s.inFlight = flight ::ₘ rest)
    (here : flight.datagram.target = net.addr a)
    (call : (net.node a).receiveMessage net.order buffer flight.datagram.payload = .ok reaction) :
    Sound net manager (s.received net.order a flight.tag rest reaction) := by
  have onward : ∀ other ∈ flight ::ₘ rest, Onward net other.datagram := split ▸ sound.flights
  have kept : ∀ other ∈ rest, Onward net other.datagram := fun other member =>
    onward other (Multiset.mem_cons_of_mem member)
  obtain ⟨pkt, u, t, same, target, usable⟩ := onward flight (Multiset.mem_cons_self _ _)
  rw [same] at here call
  obtain rfl := bound here
  rw [net.receive_serialize] at call
  split at call
  · cases call
    refine ⟨sound.unchanged, fun tag h datagram b member => ?_, fun other member => kept other ?_⟩
    · rcases List.mem_append.mp member with old | new
      · exact sound.events tag h datagram b old
      · cases List.mem_singleton.mp new
    · rcases Multiset.mem_add.mp member with none | old
      · exact (Multiset.notMem_zero _ none).elim
      · exact old
  · cases call
    refine ⟨sound.unchanged, fun tag h datagram b member next => ?_, fun other member => ?_⟩
    · rcases List.mem_append.mp member with old | new
      · exact sound.events tag h datagram b old next
      · cases List.mem_singleton.mp new
        exact bound (target.trans next) ▸ usable
    · rcases Multiset.mem_add.mp member with new | old
      · rw [Multiset.mem_singleton.mp new]
        exact ⟨pkt, t, t, by rw [target], target, fun unusable => unusable.1 rfl⟩
      · exact kept other old

theorem Sound.step (bound : Function.Injective (Network.ofNodes order nodes).addr)
    (routed : AllRouted nodes manager)
    (sound : Sound (.ofNodes order nodes) manager s) {action : Action (Fin nodes.length)}
    (permitted : Permitted order W action) (step : Step (.ofNodes order nodes) s action s') :
    Sound (.ofNodes order nodes) manager s' := by
  obtain rfl := sound.unchanged
  cases step with
  | sendMessage call =>
    exact sound.sent bound fun datagram member =>
      Clear.emission routed permitted ((Node.sendMessage_inv call).2 datagram member)
  | @sendFile a name file buffer sending call =>
    refine sound.sent bound fun datagram member => ?_
    rcases permitted with rfl | clear
    · rw [Node.sendFile_empty call] at member
      exact (List.not_mem_nil member).elim
    · exact Clear.emission routed clear (Node.sendFile_inv call datagram member)
  | receiveMessage split here call => exact sound.received bound split here call
  | manage => exact permitted.elim
  | lose split =>
    exact ⟨rfl, sound.events, fun flight member => sound.flights flight (split ▸ Multiset.mem_cons_of_mem member)⟩
  | duplicate among =>
    refine ⟨rfl, sound.events, fun flight member => ?_⟩
    rcases Multiset.mem_cons.mp member with rfl | old
    · exact sound.flights _ among
    · exact sound.flights flight old

theorem OverUsableLinks.before {net : Network (Fin nodes.length)} {action : Action (Fin nodes.length)}
    (usable : OverUsableLinks net s') (step : Step net s action s') : OverUsableLinks net s := by
  obtain ⟨later, events⟩ := step.events
  intro tag a datagram b member
  exact usable tag a datagram b (events ▸ List.mem_append_left later member)

/-- A send call that put nothing on an unusable link was permitted. -/
theorem Sound.permitted (routed : AllRouted nodes manager) (sound : Sound (.ofNodes order nodes) manager s)
    {action : Action (Fin nodes.length)} (kept : Kept action) (step : Step (.ofNodes order nodes) s action s')
    (usable : OverUsableLinks (.ofNodes order nodes) s') : Permitted order W action := by
  obtain rfl := sound.unchanged
  have sent : ∀ {a : Fin nodes.length} {datagrams : List Datagram} {datagram : Datagram},
      s' = s.sent a datagrams → datagram ∈ datagrams →
        ∀ u, datagram.target = (Network.ofNodes order nodes).addr u → ¬Unusable nodes a u := by
    rintro a datagrams datagram rfl member u target
    exact usable s.calls a datagram u (List.mem_append_right _ (List.mem_map_of_mem member)) target
  cases step with
  | @sendMessage a name message fragmentNumber fragmentCount sending call =>
    intro src t listed first valid
    obtain ⟨_, _, _, _, _, answer⟩ := routed.exists_search W a
    obtain ⟨found, next⟩ := answer name t first
    obtain ⟨ip, valid'⟩ := id valid
    obtain ⟨datagram, member⟩ := List.exists_mem_of_ne_nil _ (Node.sendMessage_nonempty found valid' next call)
    have emitted := (Node.sendMessage_inv call).2 datagram member
    exact Clear.of_emission routed emitted (sent rfl member) src t listed first valid
  | @sendFile a name file buffer sending call =>
    refine or_iff_not_imp_left.mpr fun something src t listed first valid => ?_
    obtain ⟨_, _, _, _, _, answer⟩ := routed.exists_search W a
    obtain ⟨found, next⟩ := answer name t first
    obtain ⟨ip, valid'⟩ := id valid
    cases file with
    | none => exact absurd call (Node.sendFile_missing found valid')
    | some content =>
      have nonempty : content ≠ [] := fun nothing => something (congrArg some nothing)
      obtain ⟨datagram, member⟩ := List.exists_mem_of_ne_nil _ (Node.sendFile_nonempty found valid' nonempty call)
      have emitted := Node.sendFile_inv call datagram member
      exact Clear.of_emission routed emitted (sent rfl member) src t listed first valid
  | receiveMessage _ _ _ => trivial
  | manage => exact kept
  | lose _ => trivial
  | duplicate _ => trivial

theorem sound_initial (net : Network (Fin nodes.length)) (manager : Fin nodes.length → NetworkManager)
    (tmp : Fin nodes.length → Directory) : Sound net manager (.initial manager tmp) :=
  ⟨rfl, fun _ _ _ _ none => (List.not_mem_nil none).elim, fun _ none => (Multiset.notMem_zero _ none).elim⟩

theorem Permitted.kept {action : Action (Fin nodes.length)} (permitted : Permitted order W action) : Kept action := by
  cases action with
  | manage => exact permitted
  | _ => trivial

/-- No datagram goes from a ground node to another exactly as long as every send call that sends anything has a usable
first hop: what a relay sends on, it sends over a link of the topology. -/
theorem overUsableLinks_iff (order : ByteOrder) (nodes : List Node) (W : Weighted nodes)
    (bound : Function.Injective (Network.ofNodes order nodes).addr) (manager : Fin nodes.length → NetworkManager)
    (routed : AllRouted nodes manager) (tmp : Fin nodes.length → Directory) (s : State (Fin nodes.length)) :
    Steps (.ofNodes order nodes) (Permitted order W) (.initial manager tmp) s ↔
      Steps (.ofNodes order nodes) Kept (.initial manager tmp) s ∧ OverUsableLinks (.ofNodes order nodes) s := by
  have sound {t : State (Fin nodes.length)}
      (run : Steps (.ofNodes order nodes) (Permitted order W) (.initial manager tmp) t) :
      Sound (.ofNodes order nodes) manager t :=
    run.keeps (sound_initial _ manager tmp) fun _ _ _ sound permitted step => sound.step bound routed permitted step
  constructor
  · exact fun run => ⟨run.mono fun _ permitted => permitted.kept, (sound run).events⟩
  · rintro ⟨run, usable⟩
    induction run with
    | refl => exact .refl
    | step run kept last ih =>
      have before := ih (usable.before last)
      exact .step before ((sound before).permitted routed kept last usable) last

theorem exists_allRouted (W : Weighted nodes) : ∃ manager, AllRouted nodes manager := by
  have each : ∀ i : Fin nodes.length, ∃ nm', ∃ nm : NetworkManager, nm.nodes = nodes ∧
      nm.updateRoutingTable (nodes.get i) = .ok nm' := by
    intro i
    obtain ⟨src, listed⟩ := exists_listed i
    obtain ⟨nm', s, run, _⟩ := updateRoutingTable_routed ⟨.empty, [], nodes⟩ W listed
    exact ⟨nm', ⟨.empty, [], nodes⟩, rfl, run⟩
  choose manager routed using each
  exact ⟨manager, routed⟩

/-- The first message of a run goes to the hop that a search has recorded. -/
theorem AllRouted.exists_step (routed : AllRouted nodes manager) (W : Weighted nodes) {a t : Fin nodes.length}
    {name : String} (listed : Listed nodes name t) {ip : UInt32}
    (valid : inet_pton order (nodes.get t).ip = some ip) :
    ∃ (src : Fin nodes.length) (s : Search (Fin nodes.length)) (pkt : Packet),
      Listed nodes (nodes.get a).name src ∧ Finished (lengths W.weight) src cap s ∧
      (Network.ofNodes order nodes).addr t = ⟨pkt.tAddress, pkt.tPort⟩ ∧
      Step (.ofNodes order nodes) (.initial manager fun _ => ∅) (.sendMessage a name [] 0 0)
        ((State.initial manager fun _ => ∅).sent a
          [⟨(Network.ofNodes order nodes).addr (s.via t), pkt.serialize order⟩]) := by
  obtain ⟨src, s, first, done, _, answer⟩ := routed.exists_search W a
  obtain ⟨found, hop⟩ := answer name t listed
  obtain ⟨pkt, addressed, call⟩ : ∃ pkt, Node.Addressed order (nodes.get a) (nodes.get t) pkt ∧ _ :=
    Node.sendMessage_eq found valid (show ([] : List UInt8).length ≤ MAX_BUFFER_SIZE from Nat.zero_le _) hop 0 0
  have target : (Network.ofNodes order nodes).addr t = ⟨pkt.tAddress, pkt.tPort⟩ := by
    rw [addressed.tAddress, addressed.tPort]
    rfl
  have step : Step (.ofNodes order nodes) (.initial manager fun _ => ∅) (.sendMessage a name [] 0 0) _ :=
    .sendMessage call
  exact ⟨src, s, pkt, first, done, target, step⟩

end Runs

/-- Two ground nodes and a satellite between them. -/
def bridge : List Node :=
  [groundAt "ground1" 0 0, { satelliteAt "sat1" 300 0 with port := 33002 },
    { groundAt "ground2" 600 0 with port := 33003 }]

namespace bridge

def ground1 : Fin bridge.length := ⟨0, by decide⟩
def sat1 : Fin bridge.length := ⟨1, by decide⟩
def ground2 : Fin bridge.length := ⟨2, by decide⟩

def weights : Weighted bridge where
  weight i j := (linkWeight (bridge.get i) (bridge.get j)).toOption.getD 0
  computed := by decide +kernel

theorem bound : Function.Injective (Network.ofNodes .little bridge).addr := by
  have separate : ∀ i j, (Network.ofNodes .little bridge).addr i = (Network.ofNodes .little bridge).addr j → i = j := by
    decide +kernel
  exact fun i j same => separate i j same

/-- From one ground node to the other the search goes through the satellite. -/
theorem via_ground2 {s : Search (Fin bridge.length)} (done : Finished (lengths weights.weight) ground1 cap s) :
    s.via ground2 = sat1 := by
  have up : Walk (lengths weights.weight) ground1 sat1 640500 := Walk.link (by decide +kernel)
  have walk := up.next (e := 640500) (c := ground2) (by decide +kernel) trivial
  have found : s.reach ground2 < cap := lt_of_le_of_lt (done.le_of_walk walk) (by decide)
  cases done.run.recorded done.positive (by decide) found with
  | direct _ link =>
    have none : lengths weights.weight ground1 ground2 = none := by decide +kernel
    cases none.symm.trans link
  | relay notSelf notSrc _ _ _ =>
    have one : ∀ u, u ≠ ground2 → u ≠ ground1 → u = sat1 := by decide
    exact one _ notSelf notSrc

/-- A message from one ground node to the other, and the satellite that sends it on. -/
theorem overUsableLinks_iff_relayed :
    ∃ manager s pkt, AllRouted bridge manager ∧
      s.events = [.transmitted 0 ground1 ⟨(Network.ofNodes .little bridge).addr sat1, Packet.serialize .little pkt⟩,
        .transmitted 0 sat1 ⟨(Network.ofNodes .little bridge).addr ground2, pkt.serialize .little⟩] ∧
      Steps (.ofNodes .little bridge) Kept (.initial manager fun _ => ∅) s ∧
      OverUsableLinks (.ofNodes .little bridge) s := by
  obtain ⟨manager, routed⟩ := exists_allRouted weights
  have distinct : DistinctNames bridge := by decide
  have valid : inet_pton .little (bridge.get ground2).ip = some 0x0100007F := by decide +kernel
  obtain ⟨src, search, pkt, first, done, target, send⟩ :=
    routed.exists_step (a := ground1) weights (distinct.listed ground2) valid
  obtain rfl := first.unique (distinct.listed ground1)
  rw [via_ground2 done] at send
  have clear : Permitted .little weights (.sendMessage ground1 "ground2" [] 0 0) := by
    intro src t listed listed' _
    obtain rfl := listed.unique (distinct.listed ground1)
    obtain rfl := listed'.unique (distinct.listed ground2)
    rw [hopIs_iff done fun u unusable => unusable.2.2, via_ground2 done]
    exact fun unusable => absurd unusable.2.2 (by decide)
  have other : (Network.ofNodes .little bridge).addr sat1 ≠ ⟨pkt.tAddress, pkt.tPort⟩ := fun same =>
    absurd (bound (same.trans target.symm)) (by decide)
  obtain ⟨buffer⟩ : Nonempty ReceiveBuffer := ⟨⟨List.replicate _ 0, List.length_replicate⟩⟩
  have read := (Network.ofNodes .little bridge).receive_serialize sat1 buffer pkt
  rw [if_neg other, ← target] at read
  have flights : ((State.initial manager fun _ => ∅).sent ground1
      [⟨(Network.ofNodes .little bridge).addr sat1, pkt.serialize .little⟩]).inFlight =
        ⟨0, ⟨(Network.ofNodes .little bridge).addr sat1, pkt.serialize .little⟩⟩ ::ₘ 0 := Multiset.add_zero _
  have forward : Step (.ofNodes .little bridge) _ (.receiveMessage sat1 _ buffer) _ :=
    .receiveMessage flights rfl read
  have run := Steps.step (.step .refl clear send)
    (show Permitted .little weights (.receiveMessage sat1 ⟨0, _⟩ buffer) from trivial) forward
  obtain ⟨kept, usable⟩ := (overUsableLinks_iff .little bridge weights bound manager routed _ _).mp run
  exact ⟨manager, _, pkt, routed, rfl, kept, usable⟩

end bridge

namespace stranded

theorem bound : Function.Injective (Network.ofNodes .little stranded.nodes).addr := by
  have separate : ∀ i j, (Network.ofNodes .little stranded.nodes).addr i =
    (Network.ofNodes .little stranded.nodes).addr j → i = j := by decide +kernel
  exact fun i j same => separate i j same

/-- A call at a node, no failure of the network and no change of a table. -/
def Call : Action (Fin stranded.nodes.length) → Prop
  | .sendMessage _ _ _ _ _ => True
  | .sendFile _ _ _ _ => True
  | .receiveMessage _ _ _ => True
  | _ => False

/-- A message from one ground node to the other is sent there directly. -/
theorem not_overUsableLinks :
    ∃ manager s, AllRouted stranded.nodes manager ∧
      Steps (.ofNodes .little stranded.nodes) Call (.initial manager fun _ => ∅) s ∧
      ¬OverUsableLinks (.ofNodes .little stranded.nodes) s := by
  obtain ⟨manager, routed⟩ := exists_allRouted weights
  have listed : Listed stranded.nodes "ground2" ground2 := DistinctNames.listed (by decide) ground2
  have valid : inet_pton .little (stranded.nodes.get ground2).ip = some 0x0100007F := by decide +kernel
  obtain ⟨src, s, pkt, first, done, _, step⟩ := routed.exists_step (a := ground1) weights listed valid
  have call : Call (.sendMessage ground1 "ground2" [] 0 0) := trivial
  refine ⟨manager, _, routed, .step .refl call step, fun safe => ?_⟩
  obtain rfl := first.unique (DistinctNames.listed (by decide) ground1)
  have hop : s.via ground2 = ground2 := by
    have bounded := done.run.reach_le_cap ground2
    by_cases found : s.reach ground2 < cap
    · have linked := (weights.reachable_iff (by decide)).mp ⟨_, done.run.walk found⟩
      exact absurd linked (by decide)
    · exact done.run.via_unreached (by omega)
  rw [hop] at safe
  exact safe 0 ground1 _ ground2 List.mem_cons_self rfl ⟨by decide, rfl, rfl⟩

end stranded
end Nexus
