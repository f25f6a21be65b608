import Nexus.Flooding.Once
import Nexus.Flooding.Termination
import Nexus.Python.Delivered

namespace Nexus.Python
open Relation

/-- Satellites, and which of them listens at an address. -/
structure Constellation (V : Type) where
  node : V → SatelliteNode
  host : String × Int → Option V

/-- The packets that are written to satellites and not yet read, what each call of `handle_connection` has still to
forward, and the links between satellites that a packet was sent over. -/
structure InFlight (V : Type) where
  flight : Multiset (V × List UInt8)
  tasks : Multiset (V × List Sending)
  sent : Multiset (V × V)

def Sending.address (sending : Sending) : String × Int := (sending.ip, sending.port)

namespace Constellation
variable {V : Type}

/-- A packet that is written to one satellite. -/
def inject (s : V) (bytes : List UInt8) : InFlight V := ⟨{(s, bytes)}, 0, 0⟩

/-- The steps of `handle_connection`: the read, and each connection that it opens, to a satellite or elsewhere or in
vain. -/
inductive Step (c : Constellation V) : InFlight V → InFlight V → Prop
  | read {flight : Multiset (V × List UInt8)} {tasks : Multiset (V × List Sending)} {sent : Multiset (V × V)} (v : V)
      (available : List UInt8) (now : Int) (clock : 0 ≤ now ∧ now < 256 ^ 8) :
      Step c ⟨(v, available) ::ₘ flight, tasks, sent⟩
        ⟨flight, (v, (c.node v).handleConnection now available) ::ₘ tasks, sent⟩
  | send {flight : Multiset (V × List UInt8)} {tasks : Multiset (V × List Sending)} {sent : Multiset (V × V)} (v : V)
      {sending : Sending} {w : V} (listens : c.host sending.address = some w) (later : List Sending) :
      Step c ⟨flight, (v, sending :: later) ::ₘ tasks, sent⟩
        ⟨(w, sending.bytes) ::ₘ flight, (v, later) ::ₘ tasks, (v, w) ::ₘ sent⟩
  | pass {flight : Multiset (V × List UInt8)} {tasks : Multiset (V × List Sending)} {sent : Multiset (V × V)} (v : V)
      (sending : Sending) (later : List Sending) :
      Step c ⟨flight, (v, sending :: later) ::ₘ tasks, sent⟩ ⟨flight, (v, later) ::ₘ tasks, sent⟩

/-- Where each satellite sends a packet for a ground node. -/
def links (c : Constellation V) (destination_id : Int) (v : V) : List (String × Int) :=
  (c.node v).targets destination_id

/-- A state without the bytes. -/
def outline (t : InFlight V) : Flooding.State V (String × Int) :=
  ⟨t.flight.map Prod.fst, t.tasks.map fun task => (task.1, task.2.map Sending.address), t.sent⟩

section Simulation
variable {c : Constellation V} {f : Frame} {type : PacketType} {t t' : InFlight V}

/-- The bytes of a packet of which one read shows the same but for its timestamp. -/
def Carries (f : Frame) (bytes : List UInt8) : Prop := ∃ g : Frame, bytes = g.bytes ∧ f.Same g

/-- Nothing but the packet is under way. -/
structure Carried (f : Frame) (t : InFlight V) : Prop where
  flight : ∀ packet ∈ t.flight, Carries f packet.2
  tasks : ∀ task ∈ t.tasks, ∀ sending ∈ task.2, Carries f sending.bytes

theorem handleConnection_carries (c : Constellation V) (valid : PacketType.ofValue f.type.toNat = .ok type)
    (relevant : type = .groundComm ∨ type = .fileTransfer) {available : List UInt8} (carries : Carries f available)
    {now : Int} (clock : 0 ≤ now ∧ now < 256 ^ 8) (v : V) :
    ((c.node v).handleConnection now available).map Sending.address = c.links (number f.destination_id) v ∧
      ∀ sending ∈ (c.node v).handleConnection now available, Carries f sending.bytes := by
  obtain ⟨g, rfl, same⟩ := carries
  refine ⟨?_, fun sending forwards => same.forwarded valid forwards⟩
  obtain ⟨bytes, sends⟩ := g.exists_sendings (same.type ▸ valid) relevant clock (c.node v)
  rw [sends, same.destination_id, List.map_map]
  exact List.map_id _

/-- Every step is one of the flooding of the packet. -/
theorem outline_step (valid : PacketType.ofValue f.type.toNat = .ok type)
    (relevant : type = .groundComm ∨ type = .fileTransfer) (carried : Carried f t) (step : c.Step t t') :
    Flooding.Step (c.links (number f.destination_id)) c.host (outline t) (outline t') ∧ Carried f t' := by
  obtain ⟨inFlight, inTasks⟩ := carried
  cases step with
  | @read flight tasks sent v available now clock =>
    obtain ⟨here, others⟩ := Multiset.forall_mem_cons.mp inFlight
    have carries : Carries f available := here
    obtain ⟨addresses, forwarded⟩ := handleConnection_carries c valid relevant carries clock v
    constructor
    · simp only [outline, Multiset.map_cons, addresses]
      exact .read v
    · exact ⟨others, Multiset.forall_mem_cons.mpr ⟨forwarded, inTasks⟩⟩
  | @send flight tasks sent v sending w listens later =>
    obtain ⟨task, others⟩ := Multiset.forall_mem_cons.mp inTasks
    obtain ⟨first, rest⟩ := List.forall_mem_cons.mp task
    constructor
    · simp only [outline, Multiset.map_cons, List.map_cons]
      exact .send v listens _
    · exact ⟨Multiset.forall_mem_cons.mpr ⟨first, inFlight⟩, Multiset.forall_mem_cons.mpr ⟨rest, others⟩⟩
  | @pass flight tasks sent v sending later =>
    obtain ⟨task, others⟩ := Multiset.forall_mem_cons.mp inTasks
    obtain ⟨_, rest⟩ := List.forall_mem_cons.mp task
    constructor
    · simp only [outline, Multiset.map_cons, List.map_cons]
      exact .pass v _ _
    · exact ⟨inFlight, Multiset.forall_mem_cons.mpr ⟨rest, others⟩⟩

theorem exists_packet {flight : Multiset (V × List UInt8)} {flight' : Multiset V} {v : V}
    (split : flight.map Prod.fst = v ::ₘ flight') :
    ∃ available others, flight = (v, available) ::ₘ others ∧ others.map Prod.fst = flight' := by
  classical
  obtain ⟨⟨_, available⟩, member, rfl, others⟩ := (Multiset.map_eq_cons _ _ _ _).mpr split
  exact ⟨available, flight.erase _, (Multiset.cons_erase member).symm, others⟩

theorem exists_task {tasks : Multiset (V × List Sending)} {tasks' : Multiset (V × List (String × Int))} {v : V}
    {address : String × Int} {rest : List (String × Int)}
    (split : tasks.map (fun task => (task.1, task.2.map Sending.address)) = (v, address :: rest) ::ₘ tasks') :
    ∃ sending later others, tasks = (v, sending :: later) ::ₘ others ∧ sending.address = address ∧
      later.map Sending.address = rest ∧ others.map (fun task => (task.1, task.2.map Sending.address)) = tasks' := by
  classical
  obtain ⟨⟨u, list⟩, member, same, others⟩ := (Multiset.map_eq_cons _ _ _ _).mpr split
  obtain ⟨rfl, addresses⟩ := Prod.mk.inj same
  obtain ⟨sending, later, rfl, first, tail⟩ := List.map_eq_cons_iff.mp addresses
  exact ⟨sending, later, tasks.erase _, (Multiset.cons_erase member).symm, first, tail, others⟩

/-- Every step of the flooding is one of the satellites. -/
theorem exists_step (valid : PacketType.ofValue f.type.toNat = .ok type)
    (relevant : type = .groundComm ∨ type = .fileTransfer) (carried : Carried f t)
    {u : Flooding.State V (String × Int)}
    (step : Flooding.Step (c.links (number f.destination_id)) c.host (outline t) u) :
    ∃ t', c.Step t t' ∧ outline t' = u := by
  obtain ⟨flight, tasks, sent⟩ := t
  generalize before : outline ⟨flight, tasks, sent⟩ = a at step
  cases step with
  | @read flight' tasks' sent' v =>
    obtain ⟨packets, pending, rfl⟩ := Flooding.State.mk.inj before
    obtain ⟨available, others, rfl, rfl⟩ := exists_packet packets
    have carries : Carries f available := carried.flight _ (Multiset.mem_cons_self _ _)
    have clock : (0 : Int) ≤ 0 ∧ (0 : Int) < 256 ^ 8 := by decide
    obtain ⟨addresses, _⟩ := handleConnection_carries c valid relevant carries clock v
    refine ⟨_, .read v available 0 clock, ?_⟩
    simp only [outline, Multiset.map_cons, addresses, pending]
  | @send flight' tasks' sent' v address w listens rest =>
    obtain ⟨packets, pending, rfl⟩ := Flooding.State.mk.inj before
    obtain ⟨sending, later, others, rfl, rfl, rfl, rfl⟩ := exists_task pending
    refine ⟨_, .send v listens later, ?_⟩
    simp only [outline, Multiset.map_cons, packets]
  | @pass flight' tasks' sent' v address rest =>
    obtain ⟨packets, pending, rfl⟩ := Flooding.State.mk.inj before
    obtain ⟨sending, later, others, rfl, rfl, rfl, rfl⟩ := exists_task pending
    refine ⟨_, .pass v sending later, ?_⟩
    simp only [outline, Multiset.map_cons, packets]

theorem carried_inject (s : V) : Carried f (inject s f.bytes) where
  flight packet member := by
    rw [Multiset.mem_singleton.mp member]
    exact ⟨f, rfl, rfl, rfl, rfl, rfl⟩
  tasks task impossible := absurd impossible (Multiset.notMem_zero task)

section Runs
variable (valid : PacketType.ofValue f.type.toNat = .ok type) (relevant : type = .groundComm ∨ type = .fileTransfer)
include valid relevant

theorem outline_run (carried : Carried f t) (run : ReflTransGen c.Step t t') :
    ReflTransGen (Flooding.Step (c.links (number f.destination_id)) c.host) (outline t) (outline t') ∧
      Carried f t' := by
  induction run with
  | refl => exact ⟨.refl, carried⟩
  | tail _ step ih =>
    obtain ⟨step', carried'⟩ := outline_step valid relevant ih.2 step
    exact ⟨ih.1.tail step', carried'⟩

theorem exists_run (carried : Carried f t) {u : Flooding.State V (String × Int)}
    (run : ReflTransGen (Flooding.Step (c.links (number f.destination_id)) c.host) (outline t) u) :
    ∃ t', ReflTransGen c.Step t t' ∧ outline t' = u := by
  induction run with
  | refl => exact ⟨t, .refl, rfl⟩
  | tail _ step ih =>
    obtain ⟨t', run, rfl⟩ := ih
    obtain ⟨t'', step', same⟩ := exists_step valid relevant (outline_run valid relevant carried run).2 step
    exact ⟨t'', run.tail step', same⟩

theorem acc_of_outline (carried : Carried f t)
    (acc : Acc (fun u' u => Flooding.Step (c.links (number f.destination_id)) c.host u u') (outline t)) :
    Acc (fun t' t => c.Step t t') t := by
  generalize before : outline t = u at acc
  induction acc generalizing t with
  | intro u _ ih =>
    subst before
    refine .intro t fun t' step => ?_
    obtain ⟨step', carried'⟩ := outline_step valid relevant carried step
    exact ih _ step' carried' rfl

theorem acc_outline (carried : Carried f t) (acc : Acc (fun t' t => c.Step t t') t) :
    Acc (fun u' u => Flooding.Step (c.links (number f.destination_id)) c.host u u') (outline t) := by
  induction acc with
  | intro t _ ih =>
    refine .intro _ fun u step => ?_
    obtain ⟨t', step', rfl⟩ := exists_step valid relevant carried step
    exact ih t' step' (outline_step valid relevant carried step').2

theorem sent_nodup_iff (s : V) :
    (∀ t, ReflTransGen c.Step (inject s f.bytes) t → t.sent.Nodup) ↔
      Flooding.Single (c.links (number f.destination_id)) c.host s := by
  rw [← Flooding.sent_nodup_iff]
  constructor
  · intro once u run
    obtain ⟨t, run', rfl⟩ := exists_run valid relevant (carried_inject s) run
    exact once t run'
  · intro once t run
    exact once (outline t) (outline_run valid relevant (carried_inject s) run).1

theorem finite_iff [Finite V] (s : V) :
    Acc (fun t' t => c.Step t t') (inject s f.bytes) ↔
      Flooding.Acyclic (c.links (number f.destination_id)) c.host s := by
  rw [← Flooding.acc_iff]
  constructor
  · exact acc_outline valid relevant (carried_inject s)
  · exact acc_of_outline valid relevant (carried_inject s)

end Runs
end Simulation

/-- A packet that is put into a constellation once goes at most once over each link between two satellites exactly if
every satellite that sends it to satellites is reached over one route and has none of them twice; its runs are finite
exactly if no route that it takes leads back to a satellite on it; and the first condition gives the second. -/
theorem flooding_iff {V : Type} [Finite V] (c : Constellation V) (s : V) (p : Packet)
    (relevant : p.type = .groundComm ∨ p.type = .fileTransfer) {bytes : List UInt8}
    (written : p.serialize = .ok bytes) :
    ((∀ t, ReflTransGen c.Step (inject s bytes) t → t.sent.Nodup) ↔
        Flooding.Single (c.links p.destination_id) c.host s) ∧
      (Acc (fun t' t => c.Step t t') (inject s bytes) ↔ Flooding.Acyclic (c.links p.destination_id) c.host s) ∧
      (Flooding.Single (c.links p.destination_id) c.host s → Flooding.Acyclic (c.links p.destination_id) c.host s) := by
  obtain ⟨f, rfl, valid, _, destination, _⟩ := Packet.exists_frame written
  rw [← destination]
  exact ⟨sent_nodup_iff valid relevant s, finite_iff valid relevant s, Flooding.Single.acyclic⟩

/-- Ports 35001 and 35002 are those of two satellites. -/
def listens (address : String × Int) : Option Bool :=
  if address = ("127.0.0.1", 35001) then some false
  else if address = ("127.0.0.1", 35002) then some true
  else none

/-- Satellites 101 and 102 are peers of each other; `ground_nodes` are those that 102 knows. -/
def pair (ground_nodes : List GroundEntry) : Constellation Bool where
  node second :=
    if second then (SatelliteNode.mk 102 ground_nodes []).addPeerSatellite "127.0.0.1" 35001 101
    else (SatelliteNode.mk 101 [] []).addPeerSatellite "127.0.0.1" 35002 102
  host := listens

/-- 102 knows ground node 3. -/
def reaching : Constellation Bool := pair [⟨"127.0.0.1", 35003, 3⟩]

/-- Neither knows a ground node. -/
def circle : Constellation Bool := pair []

theorem flooding_iff_reaching :
    ((∀ t, ReflTransGen reaching.Step (inject false longMessage.greeting) t → t.sent.Nodup) ↔
        Flooding.Single (reaching.links 3) reaching.host false) ∧
      (Acc (fun t' t => reaching.Step t t') (inject false longMessage.greeting) ↔
        Flooding.Acyclic (reaching.links 3) reaching.host false) ∧
      (Flooding.Single (reaching.links 3) reaching.host false →
        Flooding.Acyclic (reaching.links 3) reaching.host false) :=
  flooding_iff reaching false (GroundNode.sendToNearestSatellite 0 1 3 [104, 105]) (Or.inl rfl) (by decide)

/-- Two satellites send a message for an unknown ground node back and forth without end. -/
theorem circle_endless :
    (∃ t, ReflTransGen circle.Step (inject false longMessage.greeting) t ∧ ¬t.sent.Nodup) ∧
      ¬Acc (fun t' t => circle.Step t t') (inject false longMessage.greeting) := by
  have written : (GroundNode.sendToNearestSatellite 0 1 3 [104, 105]).serialize = .ok longMessage.greeting := by decide
  obtain ⟨f, same, valid, _, destination, _⟩ := Packet.exists_frame written
  have back : Flooding.Route (circle.links (number f.destination_id)) circle.host false [true, false] false := by
    rw [destination]
    exact .hop (by decide) (.hop (by decide) (.here false))
  have cyclic : ¬Flooding.Acyclic (circle.links (number f.destination_id)) circle.host false :=
    fun acyclic => List.cons_ne_nil _ _ (acyclic false [] _ (.here false) back)
  rw [same]
  constructor
  · by_contra never
    refine cyclic ((sent_nodup_iff valid (Or.inl rfl) false).mp fun t run => ?_).acyclic
    by_contra twice
    exact never ⟨t, run, twice⟩
  · exact fun acc => cyclic ((finite_iff valid (Or.inl rfl) false).mp acc)

end Constellation
end Nexus.Python
