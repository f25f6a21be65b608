import Nexus.Delivery
import Nexus.Reassembly

namespace Nexus
open ByteOrder

section Definitions
variable {H : Type} (host : ByteOrder)

/-- How many hosts a datagram still goes to: only one if it is on its way to the target of its packet. -/
def Datagram.legs (datagram : Datagram) : Nat :=
  match Packet.deserialize host datagram.payload with
  | .ok pkt => if datagram.target = ⟨pkt.tAddress, pkt.tPort⟩ then 1 else 2
  | .error _ => 2

/-- The packet that an event is the processing of. -/
def Event.packet : Event H → Option Packet
  | .transmitted _ _ _ => none
  | .processed _ _ pkt => some pkt

namespace State

/-- The bytes of the packets of a call that are on their way, and of those that are processed. -/
def flying (s : State H) (t : Nat) : Multiset (List UInt8) := (s.flights t).map fun flight => flight.datagram.payload

def taken (s : State H) (t : Nat) : Multiset (List UInt8) :=
  ((s.journey t).filterMap Event.packet).map (Packet.serialize host)

/-- How many datagrams of a call can still be received. -/
def legs (s : State H) (t : Nat) : Nat := ((s.flights t).map fun flight => flight.datagram.legs host).sum

end State

/-- The caller and the target of a call that sends. -/
def Action.sender : Action H → Option (H × String)
  | .sendMessage h name _ _ _ => some (h, name)
  | .sendFile h name _ _ => some (h, name)
  | _ => none

end Definitions

section Datagrams
variable {host : ByteOrder}

theorem legs_serialize (host : ByteOrder) (target : SockAddr) (pkt : Packet) :
    Datagram.legs host ⟨target, pkt.serialize host⟩ = if target = ⟨pkt.tAddress, pkt.tPort⟩ then 1 else 2 := by
  have decoded := Packet.deserialize_serialize host pkt []
  rw [List.append_nil] at decoded
  rw [Datagram.legs, decoded]

theorem legs_le (datagram : Datagram) : datagram.legs host ≤ 2 := by
  unfold Datagram.legs
  split
  · split <;> omega
  · exact Nat.le_refl 2

end Datagrams

section Forwarding
variable {H : Type} [DecidableEq H] {net : Network H} {s s' : State H} {t : Nat}

theorem Step.sends {action : Action H} {h : H} {name : String} (sender : action.sender = some (h, name))
    (step : Step net s action s') :
    ∃ sending : Sending, s' = s.sent h sending.datagrams ∧
      ∀ datagram ∈ sending.datagrams, Node.Emission net.order (net.node h) (s.manager h) name datagram := by
  cases step with
  | sendMessage call =>
    cases sender
    exact ⟨_, rfl, (Node.sendMessage_inv call).2⟩
  | sendFile call =>
    cases sender
    exact ⟨_, rfl, Node.sendFile_inv call⟩
  | _ => cases sender

/-- The packets of a call are on their way or processed, each of them once, unchanged and where it belongs, and `n`
bounds the events that they make. -/
structure Forwarded (net : Network H) (t : Nat) (sent : Multiset (List UInt8)) (n : Nat) (s : State H) : Prop where
  old : t < s.calls
  encoded : ∀ flight ∈ s.flights t, ∃ pkt : Packet, flight.datagram.payload = pkt.serialize net.order
  whole : s.flying t + s.taken net.order t = sent
  short : (s.journey t).length + s.legs net.order t ≤ n
  home : ∀ h pkt, .processed t h pkt ∈ s.journey t → net.addr h = ⟨pkt.tAddress, pkt.tPort⟩

section Receiving
variable {sent : Multiset (List UInt8)} {n : Nat} {h : H} {pkt : Packet} {target : SockAddr} {rest : Multiset Flight}

omit [DecidableEq H] in
/-- The host that a packet is for processes it. -/
theorem Forwarded.processed (forwarded : Forwarded net t sent n s) (old : t < s'.calls)
    (flights : s.flights t = ⟨t, ⟨target, pkt.serialize net.order⟩⟩ ::ₘ rest) (here : target = net.addr h)
    (own : net.addr h = ⟨pkt.tAddress, pkt.tPort⟩) (flights' : s'.flights t = rest)
    (events : s'.journey t = s.journey t ++ [.processed t h (Node.sealed net.order pkt)]) :
    Forwarded net t sent n s' := by
  have whole := forwarded.whole
  have short := forwarded.short
  rw [State.flying, flights, Multiset.map_cons] at whole
  rw [State.legs, flights, Multiset.map_cons, Multiset.sum_cons, legs_serialize, if_pos (here.trans own)] at short
  have taken : s'.taken net.order t = s.taken net.order t + {pkt.serialize net.order} := by
    rw [State.taken, State.taken, events, List.filterMap_append, List.map_append]
    rfl
  refine ⟨old, fun flight member => ?_, ?_, ?_, fun h' pkt' member => ?_⟩
  · exact forwarded.encoded flight (flights ▸ Multiset.mem_cons_of_mem (flights' ▸ member))
  · rw [State.flying, flights', taken, ← whole, ← Multiset.singleton_add]
    abel
  · rw [State.legs, flights', events, List.length_append, List.length_singleton]
    omega
  · rw [events] at member
    rcases List.mem_append.mp member with before | new
    · exact forwarded.home h' pkt' before
    · cases List.mem_singleton.mp new
      exact own

omit [DecidableEq H] in
/-- Another host sends it straight to the one that it is for. -/
theorem Forwarded.relayed (forwarded : Forwarded net t sent n s) (old : t < s'.calls)
    (flights : s.flights t = ⟨t, ⟨target, pkt.serialize net.order⟩⟩ ::ₘ rest) (here : target = net.addr h)
    (other : net.addr h ≠ ⟨pkt.tAddress, pkt.tPort⟩)
    (flights' : s'.flights t = ⟨t, ⟨⟨pkt.tAddress, pkt.tPort⟩, pkt.serialize net.order⟩⟩ ::ₘ rest)
    (events : s'.journey t = s.journey t ++
      [.transmitted t h ⟨⟨pkt.tAddress, pkt.tPort⟩, pkt.serialize net.order⟩]) :
    Forwarded net t sent n s' := by
  have whole := forwarded.whole
  have short := forwarded.short
  rw [State.flying, flights, Multiset.map_cons] at whole
  rw [State.legs, flights, Multiset.map_cons, Multiset.sum_cons, legs_serialize,
    if_neg fun same => other (here.symm.trans same)] at short
  have taken : s'.taken net.order t = s.taken net.order t := by
    rw [State.taken, State.taken, events, List.filterMap_append, List.map_append]
    exact congrArg _ (List.append_nil _)
  refine ⟨old, fun flight member => ?_, ?_, ?_, fun h' pkt' member => ?_⟩
  · rw [flights'] at member
    rcases Multiset.mem_cons.mp member with rfl | before
    · exact ⟨pkt, rfl⟩
    · exact forwarded.encoded flight (flights ▸ Multiset.mem_cons_of_mem before)
  · rw [State.flying, flights', Multiset.map_cons, taken, ← whole]
  · rw [State.legs, flights', Multiset.map_cons, Multiset.sum_cons, legs_serialize, if_pos rfl, events,
      List.length_append, List.length_singleton]
    omega
  · rw [events] at member
    rcases List.mem_append.mp member with before | new
    · exact forwarded.home h' pkt' before
    · cases List.mem_singleton.mp new

end Receiving

theorem Forwarded.step {sent : Multiset (List UInt8)} {n : Nat} (forwarded : Forwarded net t sent n s)
    {action : Action H} (intact : action.Intact t) (step : Step net s action s') : Forwarded net t sent n s' := by
  have old : t < s'.calls := Nat.lt_of_lt_of_le forwarded.old step.calls_le
  rcases step.of_call forwarded.old intact with
    ⟨flights, events⟩ | ⟨h, datagram, rest, buffer, reaction, flights, here, call, after, events⟩
  · have flying : s'.flying t = s.flying t := by rw [State.flying, State.flying, flights]
    have taken : s'.taken net.order t = s.taken net.order t := by rw [State.taken, State.taken, events]
    have legs : s'.legs net.order t = s.legs net.order t := by rw [State.legs, State.legs, flights]
    exact ⟨old, flights ▸ forwarded.encoded, by rw [flying, taken, forwarded.whole],
      by rw [events, legs]; exact forwarded.short, events ▸ forwarded.home⟩
  · obtain ⟨pkt, payload⟩ := forwarded.encoded ⟨t, datagram⟩ (flights ▸ Multiset.mem_cons_self _ _)
    obtain ⟨target, bytes⟩ := datagram
    obtain rfl : bytes = pkt.serialize net.order := payload
    rw [net.receive_serialize] at call
    by_cases own : net.addr h = ⟨pkt.tAddress, pkt.tPort⟩
    · rw [if_pos own] at call
      cases call
      exact forwarded.processed old flights here own (after.trans (Multiset.zero_add rest)) events
    · rw [if_neg own] at call
      cases call
      exact forwarded.relayed old flights here own (after.trans (Multiset.singleton_add _ _)) events

omit [DecidableEq H] in
/-- Right after the call. -/
theorem forwarded_sent (net : Network H) (tagged : s.Tagged) {h : H} {name : String} {sending : Sending}
    (emitted : ∀ datagram ∈ sending.datagrams, Node.Emission net.order (net.node h) (s.manager h) name datagram) :
    Forwarded net s.calls (sending.datagrams.map Datagram.payload) (3 * sending.datagrams.length)
      (s.sent h sending.datagrams) := by
  obtain ⟨flights, events⟩ := State.sent_own tagged h sending.datagrams
  refine ⟨Nat.lt_succ_self _, fun flight member => ?_, ?_, ?_, fun h' pkt member => ?_⟩
  · rw [flights] at member
    obtain ⟨datagram, among, rfl⟩ := List.mem_map.mp (Multiset.mem_coe.mp member)
    obtain ⟨_, _, pkt, _, _, _, _, rfl⟩ := emitted datagram among
    exact ⟨pkt, rfl⟩
  · have nothing : (s.sent h sending.datagrams).taken net.order s.calls = 0 := by
      have none : (sending.datagrams.map (Event.transmitted s.calls h)).filterMap Event.packet = [] := by
        rw [List.filterMap_map]
        exact List.filterMap_eq_nil_iff.mpr fun _ _ => rfl
      rw [State.taken, events, none]
      rfl
    rw [nothing, Multiset.add_zero, State.flying, flights, Multiset.map_coe, List.map_map]
    rfl
  · have legs : (s.sent h sending.datagrams).legs net.order s.calls ≤ sending.datagrams.length * 2 := by
      have bound := Multiset.sum_le_card_nsmul ((Multiset.ofList (sending.datagrams.map (Flight.mk s.calls))).map
        fun flight => flight.datagram.legs net.order) 2 fun leg member => by
          obtain ⟨flight, _, rfl⟩ := Multiset.mem_map.mp member
          exact legs_le _
      rw [State.legs, flights]
      rw [Multiset.card_map, Multiset.coe_card, List.length_map] at bound
      exact bound
    rw [events, List.length_map]
    omega
  · rw [events] at member
    obtain ⟨_, _, other⟩ := List.mem_map.mp member
    cases other

/-- Whatever the routing tables say and however they change: as long as the network loses and duplicates no flight of a
call, each of its packets is on its way or processed once, unchanged, and at the address that it bears; there is no more
than one forwarding of each; and a flight that some host is bound to the address of can be received at once. -/
theorem forwarded_once (net : Network H) (manager : H → NetworkManager) (tmp : H → Directory) (s s' s'' : State H)
    (reached : Steps net (fun _ => True) (.initial manager tmp) s) (action : Action H) (h : H) (name : String)
    (sender : action.sender = some (h, name)) (call : Step net s action s')
    (later : Steps net (Action.Intact s.calls) s' s'') :
    s''.flying s.calls + s''.taken net.order s.calls = s'.flying s.calls ∧
      (s''.journey s.calls).length ≤ 3 * (s'.journey s.calls).length ∧
      (∀ h' pkt, .processed s.calls h' pkt ∈ s''.events → net.addr h' = ⟨pkt.tAddress, pkt.tPort⟩) ∧
      ∀ flight ∈ s''.inFlight, flight.tag = s.calls → ∀ h', flight.datagram.target = net.addr h' →
        ∀ buffer, ∃ s''', Step net s'' (.receiveMessage h' flight buffer) s''' := by
  have tagged : s.Tagged :=
    reached.tagged ⟨fun _ member => (Multiset.notMem_zero _ member).elim, by simp [State.initial]⟩
  obtain ⟨sending, rfl, emitted⟩ := call.sends sender
  have start := forwarded_sent net tagged emitted
  have after := later.keeps start fun _ _ _ kept intact step => kept.step intact step
  obtain ⟨flights, events⟩ := State.sent_own tagged h sending.datagrams
  refine ⟨?_, ?_, fun h' pkt member => ?_, fun flight member own h' bound buffer => ?_⟩
  · rw [after.whole, State.flying, flights, Multiset.map_coe, List.map_map]
    rfl
  · rw [events, List.length_map]
    exact (Nat.le_add_right _ _).trans after.short
  · exact after.home h' pkt (List.mem_filter.mpr ⟨member, decide_eq_true rfl⟩)
  · obtain ⟨pkt, payload⟩ := after.encoded flight (Multiset.mem_filter.mpr ⟨member, own⟩)
    obtain ⟨rest, split⟩ := Multiset.exists_cons_of_mem member
    exact ⟨_, .receiveMessage split bound (payload ▸ net.receive_serialize h' buffer pkt)⟩

end Forwarding

section Origins
variable {H : Type} [DecidableEq H] {net : Network H} {allowed : Action H → Prop} {s₀ s s' : State H} {t : Nat}

/-- A call in the run has sent the packet, at a host with the source address of the packet and to the node that its
target name stood for there. -/
def Sent (net : Network H) (allowed : Action H → Prop) (s₀ s : State H) (t : Nat) (src : H) (target : Node)
    (pkt : Packet) : Prop :=
  ∃ s₁ s₂ action name hop, Steps net allowed s₀ s₁ ∧ allowed action ∧ Step net s₁ action s₂ ∧ Steps net allowed s₂ s ∧
    s₁.calls = t ∧ action.sender = some (src, name) ∧ (s₁.manager src).findNode name = some target ∧
    Node.Addressed net.order (net.node src) target pkt ∧ .transmitted t src ⟨hop, pkt.serialize net.order⟩ ∈ s₂.events

theorem Sent.step {src : H} {target : Node} {pkt : Packet} (sent : Sent net allowed s₀ s t src target pkt)
    {action : Action H} (permitted : allowed action) (step : Step net s action s') :
    Sent net allowed s₀ s' t src target pkt := by
  obtain ⟨s₁, s₂, call, name, hop, before, allows, first, after, rest⟩ := sent
  exact ⟨s₁, s₂, call, name, hop, before, allows, first, .step after permitted step, rest⟩

/-- The packet that an event is the processing of at a host. -/
def Event.packetAt (h : H) : Event H → Option Packet
  | .transmitted _ _ _ => none
  | .processed _ h' pkt => if h' = h then some pkt else none

/-- The packets that a host has processed, in order. -/
def State.processed (s : State H) (h : H) : List Packet := s.events.filterMap (Event.packetAt h)

theorem processed_sends (s : State H) (h h' : H) (datagrams : List Datagram) :
    (s.sent h datagrams).processed h' = s.processed h' := by
  have none : (datagrams.map (Event.transmitted s.calls h)).filterMap (Event.packetAt h') = [] := by
    rw [List.filterMap_map]
    exact List.filterMap_eq_nil_iff.mpr fun _ _ => rfl
  rw [State.processed, State.sent, List.filterMap_append, none, List.append_nil]
  rfl

theorem processed_received (s : State H) (host : ByteOrder) (h h' : H) (tag : Nat) (rest : Multiset Flight)
    (reaction : Reaction) :
    (s.received host h tag rest reaction).processed h' =
      s.processed h' ++ (Event.packetAt h' (reaction.event tag h)).toList := by
  rw [State.processed, State.received, List.filterMap_append]
  cases made : Event.packetAt h' (reaction.event tag h) with
  | none =>
    rw [List.filterMap_cons_none made]
    rfl
  | some pkt =>
    rw [List.filterMap_cons_some made]
    rfl

/-- A host's files follow from all that it has processed, after the next reaction too. -/
theorem tmp_received {s₀ : State H} (files : ∀ h, s.tmp h = (Node.processAll net.order (s₀.tmp h) (s.processed h)).1)
    (h h' : H) (tag : Nat) (rest : Multiset Flight) (reaction : Reaction) :
    (s.received net.order h tag rest reaction).tmp h' =
      (Node.processAll net.order (s₀.tmp h') ((s.received net.order h tag rest reaction).processed h')).1 := by
  rw [processed_received]
  cases reaction with
  | forward datagram =>
    have none : (Event.packetAt h' (Reaction.event tag h (.forward datagram))).toList = [] := rfl
    rw [none, List.append_nil]
    exact files h'
  | process pkt =>
    have tmp : (s.received net.order h tag rest (.process pkt)).tmp h' =
        if h' = h then (Node.processMessage net.order (s.tmp h) pkt).tmp else s.tmp h' :=
      Function.update_apply _ _ _ _
    have event : Event.packetAt h' (Reaction.event tag h (.process pkt)) = if h = h' then some pkt else none := rfl
    rw [tmp, event]
    by_cases here : h' = h
    · subst here
      rw [if_pos rfl, if_pos rfl, Option.toList_some, Node.processAll_append, ← files]
      rfl
    · rw [if_neg here, if_neg (Ne.symm here), Option.toList_none, List.append_nil]
      exact files h'

/-- All that is on its way or processed goes back to calls, and the files of a host to the packets that it has
processed. -/
structure Traced (net : Network H) (allowed : Action H → Prop) (s₀ s : State H) : Prop where
  flights : ∀ flight ∈ s.inFlight, ∃ src target pkt, flight.datagram.payload = pkt.serialize net.order ∧
    Sent net allowed s₀ s flight.tag src target pkt
  processed : ∀ t h pkt', .processed t h pkt' ∈ s.events → ∃ src target pkt, pkt' = Node.sealed net.order pkt ∧
    target.addr net.order = net.addr h ∧ Sent net allowed s₀ s t src target pkt
  files : ∀ h, s.tmp h = (Node.processAll net.order (s₀.tmp h) (s.processed h)).1

theorem Sent.target {src : H} {target : Node} {pkt : Packet} (sent : Sent net allowed s₀ s t src target pkt) :
    target.addr net.order = ⟨pkt.tAddress, pkt.tPort⟩ := by
  obtain ⟨_, _, _, _, _, _, _, _, _, _, _, _, addressed, _⟩ := sent
  rw [addressed.tAddress, addressed.tPort]

/-- A step that adds no flight, no event and no file. -/
theorem Traced.idle (traced : Traced net allowed s₀ s) {action : Action H} (permitted : allowed action)
    (step : Step net s action s') (flights : ∀ flight ∈ s'.inFlight, flight ∈ s.inFlight)
    (events : s'.events = s.events) (tmp : s'.tmp = s.tmp) : Traced net allowed s₀ s' where
  flights flight member := by
    obtain ⟨src, target, pkt, payload, sent⟩ := traced.flights flight (flights flight member)
    exact ⟨src, target, pkt, payload, sent.step permitted step⟩
  processed t h pkt' member := by
    obtain ⟨src, target, pkt, sealed, place, sent⟩ := traced.processed t h pkt' (events ▸ member)
    exact ⟨src, target, pkt, sealed, place, sent.step permitted step⟩
  files h := by
    rw [tmp, State.processed, events]
    exact traced.files h

theorem Traced.sends (traced : Traced net allowed s₀ s) (run : Steps net allowed s₀ s) {action : Action H}
    (permitted : allowed action) (step : Step net s action s') {h : H} {name : String}
    (sender : action.sender = some (h, name)) : Traced net allowed s₀ s' := by
  have whole := step
  obtain ⟨sending, rfl, emitted⟩ := step.sends sender
  refine ⟨fun flight member => ?_, fun t h' pkt' member => ?_, fun h' => ?_⟩
  · rcases Multiset.mem_add.mp member with new | old
    · obtain ⟨datagram, among, rfl⟩ := List.mem_map.mp (Multiset.mem_coe.mp new)
      obtain ⟨target, next, pkt, found, _, _, addressed, rfl⟩ := emitted datagram among
      refine ⟨h, target, pkt, rfl, s, _, action, name, next.addr net.order, run, permitted, whole, .refl, rfl,
        sender, found, addressed, ?_⟩
      exact List.mem_append_right _ (List.mem_map_of_mem among)
    · obtain ⟨src, target, pkt, payload, sent⟩ := traced.flights flight old
      exact ⟨src, target, pkt, payload, sent.step permitted whole⟩
  · rcases List.mem_append.mp member with old | new
    · obtain ⟨src, target, pkt, sealed, bound, sent⟩ := traced.processed t h' pkt' old
      exact ⟨src, target, pkt, sealed, bound, sent.step permitted whole⟩
    · obtain ⟨_, _, other⟩ := List.mem_map.mp new
      cases other
  · rw [processed_sends]
    exact traced.files h'

theorem Traced.receives (traced : Traced net allowed s₀ s) {h : H} {flight : Flight} {rest : Multiset Flight}
    {buffer : ReceiveBuffer} {reaction : Reaction} (split : s.inFlight = flight ::ₘ rest)
    (bound : flight.datagram.target = net.addr h)
    (call : (net.node h).receiveMessage net.order buffer flight.datagram.payload = .ok reaction)
    (permitted : allowed (.receiveMessage h flight buffer)) :
    Traced net allowed s₀ (s.received net.order h flight.tag rest reaction) := by
  have step : Step net s (.receiveMessage h flight buffer) (s.received net.order h flight.tag rest reaction) :=
    .receiveMessage split bound call
  obtain ⟨src, target, pkt, payload, sent⟩ := traced.flights flight (split ▸ Multiset.mem_cons_self _ _)
  have kept : ∀ other ∈ rest, ∃ src target pkt, other.datagram.payload = pkt.serialize net.order ∧
      Sent net allowed s₀ (s.received net.order h flight.tag rest reaction) other.tag src target pkt := by
    intro other member
    obtain ⟨src, target, pkt, payload, sent⟩ := traced.flights other (split ▸ Multiset.mem_cons_of_mem member)
    exact ⟨src, target, pkt, payload, sent.step permitted step⟩
  have before : ∀ t h' pkt', .processed t h' pkt' ∈ s.events → ∃ src target pkt, pkt' = Node.sealed net.order pkt ∧
      target.addr net.order = net.addr h' ∧
        Sent net allowed s₀ (s.received net.order h flight.tag rest reaction) t src target pkt := by
    intro t h' pkt' member
    obtain ⟨src, target, pkt, sealed, place, sent⟩ := traced.processed t h' pkt' member
    exact ⟨src, target, pkt, sealed, place, sent.step permitted step⟩
  have later := sent.step permitted step
  rw [payload, net.receive_serialize] at call
  by_cases own : net.addr h = ⟨pkt.tAddress, pkt.tPort⟩
  · rw [if_pos own] at call
    cases call
    refine ⟨fun other member => ?_, fun t h' pkt' member => ?_, fun h' => tmp_received traced.files h h' _ _ _⟩
    · have none : (Reaction.process (Node.sealed net.order pkt)).flights flight.tag + rest = rest :=
        Multiset.zero_add rest
      exact kept other (none ▸ member)
    · rcases List.mem_append.mp member with old | new
      · exact before t h' pkt' old
      · cases List.mem_singleton.mp new
        exact ⟨src, target, pkt, rfl, sent.target.trans own.symm, later⟩
  · rw [if_neg own] at call
    cases call
    refine ⟨fun other member => ?_, fun t h' pkt' member => ?_, fun h' => tmp_received traced.files h h' _ _ _⟩
    · rcases Multiset.mem_add.mp member with new | old
      · rw [Multiset.mem_singleton.mp new]
        exact ⟨src, target, pkt, rfl, later⟩
      · exact kept other old
    · rcases List.mem_append.mp member with old | new
      · exact before t h' pkt' old
      · cases List.mem_singleton.mp new

theorem Traced.next (traced : Traced net allowed s₀ s) (run : Steps net allowed s₀ s) {action : Action H}
    (permitted : allowed action) (step : Step net s action s') : Traced net allowed s₀ s' := by
  have whole := step
  cases step with
  | sendMessage call => exact traced.sends run permitted whole rfl
  | sendFile call => exact traced.sends run permitted whole rfl
  | receiveMessage split bound call => exact traced.receives split bound call permitted
  | manage => exact traced.idle permitted whole (fun _ member => member) rfl rfl
  | lose split =>
    exact traced.idle permitted whole (fun _ member => split ▸ Multiset.mem_cons_of_mem member) rfl rfl
  | duplicate among =>
    refine traced.idle permitted whole (fun flight member => ?_) rfl rfl
    rcases Multiset.mem_cons.mp member with rfl | old
    · exact among
    · exact old

/-- Nothing is made up on the way: in every run, with any routing tables, losses and duplicates, a packet that a host
processes is what a call before has sent, byte for byte, from the host that it names as its source to a node at the
address of this one; and the files of a host are what the packets that it has processed make of them. -/
theorem traced_run (net : Network H) (allowed : Action H → Prop) (manager : H → NetworkManager) (tmp : H → Directory)
    (s : State H) (run : Steps net allowed (.initial manager tmp) s) : Traced net allowed (.initial manager tmp) s := by
  induction run with
  | refl =>
    exact ⟨fun _ member => (Multiset.notMem_zero _ member).elim, fun _ _ _ member => absurd member List.not_mem_nil,
      fun _ => rfl⟩
  | step before permitted last ih => exact ih.next before permitted last

end Origins

namespace trio

/-- The first satellite has sent a message to the last one. -/
theorem sends_sat3 :
    ∃ nm' h, ∃ pkt : Packet, trio.updateRoutingTable (trio.nodes.get sat1) = .ok nm' ∧
      Step net (.initial (fun _ => nm') fun _ => ∅) (.sendMessage sat1 "sat3" [104, 105] 0 0)
        (State.sent (.initial (fun _ => nm') fun _ => ∅) sat1 [⟨net.addr h, pkt.serialize .little⟩]) := by
  have distinct : DistinctNames trio.nodes := by decide
  obtain ⟨nm', search, run, routed⟩ := updateRoutingTable_routed trio weights (distinct.listed sat1)
  have listed := distinct.listed sat3
  obtain ⟨ip, valid⟩ := registered.valid sat3
  have short : [(104 : UInt8), 105].length ≤ MAX_BUFFER_SIZE := by decide
  obtain ⟨pkt, _, call⟩ : ∃ pkt, Node.Addressed .little (net.node sat1) (trio.nodes.get sat3) pkt ∧ _ :=
    Node.sendMessage_eq (routed.findNode listed) valid short (routed.getNextHop listed) 0 0
  let datagram : Datagram := ⟨net.addr (search.via sat3), pkt.serialize .little⟩
  have sends : Step net (.initial (fun _ => nm') fun _ => ∅) (.sendMessage sat1 "sat3" [104, 105] 0 0)
      (State.sent (.initial (fun _ => nm') fun _ => ∅) sat1 (Sending.sent [datagram]).datagrams) := .sendMessage call
  exact ⟨nm', search.via sat3, pkt, run, sends⟩

/-- And the host that it went to has received it. -/
theorem receives_sat3 (nm' : NetworkManager) (h : Fin trio.nodes.length) (pkt : Packet) (buffer : ReceiveBuffer) :
    ∃ s'', Step net (State.sent (.initial (fun _ => nm') fun _ => ∅) sat1 [⟨net.addr h, pkt.serialize .little⟩])
      (.receiveMessage h ⟨0, ⟨net.addr h, pkt.serialize .little⟩⟩ buffer) s'' := by
  have split : (State.sent (.initial (fun _ => nm') fun _ => ∅) sat1
      [⟨net.addr h, pkt.serialize .little⟩]).inFlight = ⟨0, ⟨net.addr h, pkt.serialize .little⟩⟩ ::ₘ 0 := rfl
  exact ⟨_, .receiveMessage split rfl (net.receive_serialize h buffer pkt)⟩

theorem forwarded_once_sat3 :
    ∃ (manager : Fin trio.nodes.length → NetworkManager) (s' s'' : State (Fin trio.nodes.length)),
      Step net (.initial manager fun _ => ∅) (.sendMessage sat1 "sat3" [104, 105] 0 0) s' ∧
      s''.flying 0 + s''.taken net.order 0 = s'.flying 0 ∧
      (s''.journey 0).length ≤ 3 * (s'.journey 0).length ∧
      (∀ h' pkt, .processed 0 h' pkt ∈ s''.events → net.addr h' = ⟨pkt.tAddress, pkt.tPort⟩) ∧
      ∀ flight ∈ s''.inFlight, flight.tag = 0 → ∀ h', flight.datagram.target = net.addr h' →
        ∀ buffer, ∃ s''', Step net s'' (.receiveMessage h' flight buffer) s''' := by
  obtain ⟨nm', h, pkt, _, sends⟩ := sends_sat3
  let buffer : ReceiveBuffer := ⟨List.replicate (MAX_BUFFER_SIZE + 32) 0, List.length_replicate⟩
  obtain ⟨s'', receives⟩ := receives_sat3 nm' h pkt buffer
  have intact : Action.Intact 0 (.receiveMessage h ⟨0, ⟨net.addr h, pkt.serialize .little⟩⟩ buffer) := trivial
  exact ⟨_, _, s'', sends, forwarded_once net _ _ _ _ _ .refl _ sat1 "sat3" rfl sends (.step .refl intact receives)⟩

theorem traced_run_sat3 :
    ∃ (manager : Fin trio.nodes.length → NetworkManager) (s : State (Fin trio.nodes.length)),
      s.calls = 1 ∧ Traced net (fun _ => True) (.initial manager fun _ => ∅) s := by
  obtain ⟨nm', h, pkt, _, sends⟩ := sends_sat3
  exact ⟨_, _, rfl, traced_run net (fun _ => True) _ _ _ (.step .refl trivial sends)⟩

end trio
end Nexus
