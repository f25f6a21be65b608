import Nexus.Network
import Nexus.Routing.FirstHop

namespace Nexus
open ByteOrder ShortestPath

section OnePacket
variable {H : Type} [DecidableEq H] (net : Network H) (t : Nat) (src dest : H) (pkt : Packet)

/-- The nodes of a list stand for hosts, under the names and addresses of these. -/
structure Registered (nodes : List Node) (host : Fin nodes.length → H) : Prop where
  name : ∀ i, (nodes.get i).name = (net.node (host i)).name
  addr : ∀ i, (nodes.get i).addr net.order = net.addr (host i)
  valid : ∀ i, ∃ ip, inet_pton net.order (nodes.get i).ip = some ip

/-- All that happens to a packet which is sent straight to its target or through one relay. -/
def Route (journey : List (Event H)) : Prop :=
  let payload := pkt.serialize net.order
  journey = [.transmitted t src ⟨net.addr dest, payload⟩, .processed t dest (Node.sealed net.order pkt)] ∨
    ∃ relay, relay ≠ src ∧ relay ≠ dest ∧
      journey = [.transmitted t src ⟨net.addr relay, payload⟩, .transmitted t relay ⟨net.addr dest, payload⟩,
        .processed t dest (Node.sealed net.order pkt)]

/-- What is still to happen to a packet that is on its way to `h`. -/
def onward (h : H) : List (Event H) :=
  if h = dest then [.processed t dest (Node.sealed net.order pkt)]
  else [.transmitted t h ⟨net.addr dest, pkt.serialize net.order⟩,
    .processed t dest (Node.sealed net.order pkt)]

/-- The packet is in flight, once, with the rest of the journey ahead, or the journey is over. -/
def Underway (journey : List (Event H)) (s : State H) : Prop :=
  t < s.calls ∧
    ((∃ h, s.flights t = {⟨t, ⟨net.addr h, pkt.serialize net.order⟩⟩} ∧
        journey = s.journey t ++ onward net t dest pkt h) ∨
      s.flights t = 0 ∧ journey = s.journey t)

variable {net t src dest pkt} {journey : List (Event H)} {s s' : State H}

theorem Step.calls_le {action : Action H} (step : Step net s action s') : s.calls ≤ s'.calls := by
  cases step with
  | sendMessage _ => exact Nat.le_succ _
  | sendFile _ => exact Nat.le_succ _
  | receiveMessage _ _ _ => exact Nat.le_refl _
  | manage => exact Nat.le_refl _
  | lose _ => exact Nat.le_refl _
  | duplicate _ => exact Nat.le_refl _

/-- A host that a packet reaches takes it one event further. -/
theorem Underway.step (bound : Function.Injective net.addr) (target : net.addr dest = ⟨pkt.tAddress, pkt.tPort⟩)
    (underway : Underway net t dest pkt journey s) {action : Action H} (intact : action.Intact t)
    (step : Step net s action s') : Underway net t dest pkt journey s' := by
  obtain ⟨old, phase⟩ := underway
  refine ⟨Nat.lt_of_lt_of_le old step.calls_le, ?_⟩
  rcases step.of_call old intact with
    ⟨flights, events⟩ | ⟨h', datagram, rest, buffer, reaction, flights, here, call, after, event⟩
  · rw [flights, events]
    exact phase
  rcases phase with ⟨h, only, ahead⟩ | ⟨none, _⟩
  · rw [only, Multiset.singleton_eq_cons_iff] at flights
    obtain ⟨same, rfl⟩ := flights
    cases same
    obtain rfl := bound here
    rw [net.receive_serialize, ← target] at call
    rw [after, event, Multiset.add_zero]
    by_cases arrived : h = dest
    · subst arrived
      rw [if_pos rfl] at call
      cases call
      refine Or.inr ⟨rfl, ?_⟩
      rw [ahead, onward, if_pos rfl]
      rfl
    · rw [if_neg fun equal => arrived (bound equal)] at call
      cases call
      refine Or.inl ⟨dest, rfl, ?_⟩
      rw [ahead, onward, if_neg arrived, onward, if_pos rfl, List.append_assoc]
      rfl
  · rw [none] at flights
    exact (Multiset.zero_ne_cons flights).elim

theorem onward_ne_nil (h : H) : onward net t dest pkt h ≠ [] := by
  unfold onward
  split <;> simp

/-- The journey is over exactly when no flight of the packet is left. -/
theorem Underway.over_iff (underway : Underway net t dest pkt journey s) :
    s.journey t = journey ↔ s.flights t = 0 := by
  rcases underway.2 with ⟨h, only, ahead⟩ | ⟨none, ended⟩
  · rw [only, ahead]
    constructor
    · intro same
      exact (onward_ne_nil h (List.self_eq_append_right.mp same)).elim
    · exact fun empty => (Multiset.singleton_ne_zero _ empty).elim
  · exact ⟨fun _ => none, fun _ => ended.symm⟩

theorem Underway.started (underway : Underway net t dest pkt journey s) : s.journey t <+: journey := by
  rcases underway.2 with ⟨h, _, ahead⟩ | ⟨_, ended⟩
  · exact ahead ▸ List.prefix_append _ _
  · exact ended ▸ List.prefix_rfl

/-- A flight of the packet can be received at once. -/
theorem Underway.deliverable (underway : Underway net t dest pkt journey s) {flight : Flight}
    (member : flight ∈ s.inFlight) (own : flight.tag = t) :
    ∃ h, ∀ buffer, ∃ s', Step net s (.receiveMessage h flight buffer) s' := by
  have among : flight ∈ s.flights t := Multiset.mem_filter.mpr ⟨member, own⟩
  rcases underway.2 with ⟨h, only, _⟩ | ⟨none, _⟩
  · rw [only, Multiset.mem_singleton] at among
    obtain ⟨rest, split⟩ := Multiset.exists_cons_of_mem member
    subst flight
    exact ⟨h, fun buffer => ⟨_, .receiveMessage split rfl (net.receive_serialize h buffer pkt)⟩⟩
  · rw [none] at among
    exact (Multiset.notMem_zero _ among).elim

theorem route_of_onward {h : H} (away : h ≠ src) :
    Route net t src dest pkt
      (.transmitted t src ⟨net.addr h, pkt.serialize net.order⟩ :: onward net t dest pkt h) := by
  unfold onward
  by_cases direct : h = dest
  · subst direct
    rw [if_pos rfl]
    exact Or.inl rfl
  · rw [if_neg direct]
    exact Or.inr ⟨h, away, direct, rfl⟩

end OnePacket

/-- A message to a listed node other than the sender makes its way without a fault: the packet is
processed once, at the node that it is for, after at most one relay, and never goes back. -/
theorem sendMessage_delivered {H : Type} [DecidableEq H] (net : Network H) (bound : Function.Injective net.addr)
    (nm nm' : NetworkManager) (W : Weighted nm.nodes) (distinct : DistinctNames nm.nodes)
    (host : Fin nm.nodes.length → H) (registered : Registered net nm.nodes host) (src dest : Fin nm.nodes.length)
    (other : dest ≠ src) (updated : nm.updateRoutingTable (net.node (host src)) = .ok nm')
    (manager : H → NetworkManager) (tmp : H → Directory) (s : State H)
    (reached : Steps net (fun _ => True) (.initial manager tmp) s) (current : s.manager (host src) = nm')
    (message : List UInt8) (fits : message.length ≤ MAX_BUFFER_SIZE) (fragmentNumber fragmentCount : UInt16) :
    let send := Action.sendMessage (host src) (nm.nodes.get dest).name message fragmentNumber fragmentCount
    (∃ s₁, Step net s send s₁) ∧ ∀ s₁, Step net s send s₁ →
      ∃ pkt journey, Route net s.calls (host src) (host dest) pkt journey ∧
        ∀ s₂, Steps net (Action.Intact s.calls) s₁ s₂ →
          s₂.journey s.calls <+: journey ∧
          (s₂.journey s.calls = journey ↔ s₂.flights s.calls = 0) ∧
          ∀ flight ∈ s₂.inFlight, flight.tag = s.calls →
            ∃ h, ∀ buffer, ∃ s₃, Step net s₂ (.receiveMessage h flight buffer) s₃ := by
  intro send
  have tagged : s.Tagged :=
    reached.tagged ⟨fun _ member => (Multiset.notMem_zero _ member).elim, by simp [State.initial]⟩
  obtain ⟨nm₁, search, run, routed⟩ := updateRoutingTable_routed nm W (registered.name src ▸ distinct.listed src)
  obtain rfl : nm₁ = nm' := Except.ok.inj (run.symm.trans updated)
  have listed := distinct.listed dest
  obtain ⟨ip, valid⟩ := registered.valid dest
  have relay := routed.done.via_ne_src other
  obtain ⟨pkt, addressed, call⟩ :
      ∃ pkt, Node.Addressed net.order (net.node (host src)) (nm.nodes.get dest) pkt ∧ _ :=
    Node.sendMessage_eq (routed.findNode listed) valid fits (routed.getNextHop listed) fragmentNumber fragmentCount
  rw [registered.addr] at call
  have target : net.addr (host dest) = ⟨pkt.tAddress, pkt.tPort⟩ := by
    rw [← registered.addr dest, addressed.tAddress, addressed.tPort]
  have apart : ∀ {i j}, host i = host j → i = j := by
    intro i j same
    have names : (net.node (host i)).name = (net.node (host j)).name := by rw [same]
    exact get_inj distinct ((registered.name _).trans (names.trans (registered.name _).symm))
  subst current
  refine ⟨⟨_, .sendMessage call⟩, fun s₁ first => ?_⟩
  obtain ⟨sending, sent, rfl⟩ := first.sendMessage_inv
  cases call.symm.trans sent
  let datagram : Datagram := ⟨net.addr (host (search.via dest)), pkt.serialize net.order⟩
  obtain ⟨flights, events⟩ := State.sent_own tagged (host src) [datagram]
  have start : Underway net s.calls (host dest) pkt (.transmitted s.calls (host src) datagram ::
      onward net s.calls (host dest) pkt (host (search.via dest))) (s.sent (host src) [datagram]) :=
    ⟨Nat.lt_succ_self _, Or.inl ⟨_, flights, by rw [events]; rfl⟩⟩
  refine ⟨pkt, _, route_of_onward fun same => relay (apart same), fun s₂ later => ?_⟩
  have underway := later.keeps start fun _ _ _ kept intact step => kept.step bound target intact step
  exact ⟨underway.started, underway.over_iff, fun flight member own => underway.deliverable member own⟩

/-- Three satellites in a line, each with a port of its own. -/
def trio : NetworkManager where
  topology := .empty
  nextHop := []
  nodes := [satelliteAt "sat1" 0 0, { satelliteAt "sat2" 400 0 with port := 33002 },
    { satelliteAt "sat3" 800 0 with port := 33003 }]

namespace trio

def net : Network (Fin trio.nodes.length) := ⟨.little, trio.nodes.get⟩

def sat1 : Fin trio.nodes.length := ⟨0, by decide⟩
def sat3 : Fin trio.nodes.length := ⟨2, by decide⟩

def weights : Weighted trio.nodes where
  weight i j := (linkWeight (trio.nodes.get i) (trio.nodes.get j)).toOption.getD 0
  computed := by decide +kernel

theorem bound : Function.Injective net.addr := by
  have separate : ∀ i j, net.addr i = net.addr j → i = j := by decide +kernel
  exact fun i j same => separate i j same

theorem registered : Registered net trio.nodes id where
  name _ := rfl
  addr _ := rfl
  valid := by
    have localhost : ∀ i, inet_pton .little (trio.nodes.get i).ip = some 0x0100007F := by decide +kernel
    exact fun i => ⟨_, localhost i⟩

theorem sendMessage_delivered_sat3 :
    ∃ nm', trio.updateRoutingTable (trio.nodes.get sat1) = .ok nm' ∧
      let s := State.initial (fun _ => nm') (fun _ => ∅)
      let send := Action.sendMessage sat1 "sat3" [104, 105] 0 0
      (∃ s₁, Step net s send s₁) ∧ ∀ s₁, Step net s send s₁ →
        ∃ pkt journey, Route net s.calls sat1 sat3 pkt journey ∧
          ∀ s₂, Steps net (Action.Intact s.calls) s₁ s₂ →
            s₂.journey s.calls <+: journey ∧
            (s₂.journey s.calls = journey ↔ s₂.flights s.calls = 0) ∧
            ∀ flight ∈ s₂.inFlight, flight.tag = s.calls →
              ∃ h, ∀ buffer, ∃ s₃, Step net s₂ (.receiveMessage h flight buffer) s₃ := by
  obtain ⟨nm', s, run, routed⟩ := updateRoutingTable_routed trio weights (DistinctNames.listed (by decide) sat1)
  exact ⟨nm', run, sendMessage_delivered net bound trio nm' weights (by decide) id registered sat1 sat3 (by decide)
    run _ _ _ .refl rfl [104, 105] (by decide) 0 0⟩

end trio
end Nexus
