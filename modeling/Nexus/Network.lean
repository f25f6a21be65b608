import Nexus.Exchange
import Mathlib.Data.Multiset.Filter

namespace Nexus

/-- Hosts that run a node each, on machines of one byte order. -/
structure Network (H : Type) where
  order : ByteOrder
  node : H → Node

/-- A datagram on its way. The tag is the number of the send call that it goes back to; no host
reads it. -/
structure Flight where
  tag : Nat
  datagram : Datagram
  deriving DecidableEq

inductive Event (H : Type)
  | transmitted (tag : Nat) (host : H) (datagram : Datagram)
  | processed (tag : Nat) (host : H) (pkt : Packet)

structure State (H : Type) where
  manager : H → NetworkManager
  tmp : H → Directory
  inFlight : Multiset Flight
  events : List (Event H)
  calls : Nat

inductive Action (H : Type)
  | sendMessage (host : H) (targetName : String) (message : List UInt8) (fragmentNumber fragmentCount : UInt16)
  | sendFile (host : H) (targetName : String) (file : Option (List UInt8)) (buffer : Buffer)
  | receiveMessage (host : H) (flight : Flight) (buffer : ReceiveBuffer)
  | manage (host : H) (manager : NetworkManager)
  | lose (flight : Flight)
  | duplicate (flight : Flight)

namespace Network
variable {H : Type}

/-- The address that a host is bound to. -/
def addr (net : Network H) (h : H) : SockAddr := (net.node h).addr net.order

theorem receive_serialize (net : Network H) (h : H) (buffer : ReceiveBuffer) (pkt : Packet) :
    (net.node h).receiveMessage net.order buffer (pkt.serialize net.order) = .ok (
      if net.addr h = ⟨pkt.tAddress, pkt.tPort⟩ then .process (Node.sealed net.order pkt)
      else .forward ⟨⟨pkt.tAddress, pkt.tPort⟩, pkt.serialize net.order⟩) :=
  Node.receiveMessage_serialize buffer pkt

end Network

def Event.tag {H : Type} : Event H → Nat
  | .transmitted tag _ _ => tag
  | .processed tag _ _ => tag

section Reactions
variable {H : Type}

def Reaction.flights (tag : Nat) : Reaction → Multiset Flight
  | .process _ => 0
  | .forward datagram => {⟨tag, datagram⟩}

def Reaction.event (tag : Nat) (h : H) : Reaction → Event H
  | .process pkt => .processed tag h pkt
  | .forward datagram => .transmitted tag h datagram

/-- Only processing a packet changes files, those of its own host. -/
def Reaction.tmp [DecidableEq H] (order : ByteOrder) (h : H) (tmp : H → Directory) : Reaction → H → Directory
  | .process pkt => Function.update tmp h (Node.processMessage order (tmp h) pkt).tmp
  | .forward _ => tmp

theorem Reaction.tag_event (reaction : Reaction) (tag : Nat) (h : H) : (reaction.event tag h).tag = tag := by
  cases reaction <;> rfl

theorem Reaction.tag_flights {reaction : Reaction} {tag : Nat} {flight : Flight}
    (member : flight ∈ reaction.flights tag) : flight.tag = tag := by
  cases reaction with
  | process => exact (Multiset.notMem_zero _ member).elim
  | forward datagram => rw [Multiset.mem_singleton.mp member]

end Reactions

namespace State
variable {H : Type}

/-- Before the first call. -/
def initial (manager : H → NetworkManager) (tmp : H → Directory) : State H := ⟨manager, tmp, 0, [], 0⟩

def sent (s : State H) (h : H) (datagrams : List Datagram) : State H :=
  { s with
    inFlight := Multiset.ofList (datagrams.map (Flight.mk s.calls)) + s.inFlight
    events := s.events ++ datagrams.map (Event.transmitted s.calls h)
    calls := s.calls + 1 }

/-- `rest` is in flight besides the datagram that was received. -/
def received [DecidableEq H] (order : ByteOrder) (s : State H) (h : H) (tag : Nat) (rest : Multiset Flight)
    (reaction : Reaction) : State H :=
  { s with
    tmp := reaction.tmp order h s.tmp
    inFlight := reaction.flights tag + rest
    events := s.events ++ [reaction.event tag h] }

/-- The flights and the events that go back to one call. -/
def flights (s : State H) (tag : Nat) : Multiset Flight := s.inFlight.filter fun flight => flight.tag = tag

def journey (s : State H) (tag : Nat) : List (Event H) := s.events.filter fun event => event.tag = tag

section Calls
variable {s : State H} {t : Nat}

/-- Tags go back to calls that were made. -/
def Tagged (s : State H) : Prop :=
  (∀ flight ∈ s.inFlight, flight.tag < s.calls) ∧ ∀ event ∈ s.events, event.tag < s.calls

theorem Tagged.sent (tagged : s.Tagged) (h : H) (datagrams : List Datagram) :
    (s.sent h datagrams).Tagged := by
  refine ⟨fun flight member => ?_, fun event member => ?_⟩
  · rcases Multiset.mem_add.mp member with new | old
    · obtain ⟨datagram, _, rfl⟩ := List.mem_map.mp (Multiset.mem_coe.mp new)
      exact Nat.lt_succ_self s.calls
    · exact Nat.lt_succ_of_lt (tagged.1 flight old)
  · rcases List.mem_append.mp member with old | new
    · exact Nat.lt_succ_of_lt (tagged.2 event old)
    · obtain ⟨datagram, _, rfl⟩ := List.mem_map.mp new
      exact Nat.lt_succ_self s.calls

theorem sent_later (old : t < s.calls) (h : H) (datagrams : List Datagram) :
    (s.sent h datagrams).flights t = s.flights t ∧ (s.sent h datagrams).journey t = s.journey t := by
  have other : s.calls ≠ t := by omega
  constructor
  · have none :
        (Multiset.ofList (datagrams.map (Flight.mk s.calls))).filter (fun flight => flight.tag = t) = 0 := by
      rw [Multiset.filter_eq_nil]
      intro flight member
      obtain ⟨datagram, _, rfl⟩ := List.mem_map.mp (Multiset.mem_coe.mp member)
      exact other
    rw [flights, sent, Multiset.filter_add, none, Multiset.zero_add]
    rfl
  · simp [journey, sent, Event.tag, other]

theorem sent_own (tagged : s.Tagged) (h : H) (datagrams : List Datagram) :
    (s.sent h datagrams).flights s.calls = Multiset.ofList (datagrams.map (Flight.mk s.calls)) ∧
      (s.sent h datagrams).journey s.calls = datagrams.map (Event.transmitted s.calls h) := by
  constructor
  · have all : (Multiset.ofList (datagrams.map (Flight.mk s.calls))).filter (fun flight => flight.tag = s.calls) =
        Multiset.ofList (datagrams.map (Flight.mk s.calls)) := by
      rw [Multiset.filter_eq_self]
      intro flight member
      obtain ⟨datagram, _, rfl⟩ := List.mem_map.mp (Multiset.mem_coe.mp member)
      rfl
    have none : s.inFlight.filter (fun flight => flight.tag = s.calls) = 0 := by
      rw [Multiset.filter_eq_nil]
      exact fun flight member => Nat.ne_of_lt (tagged.1 flight member)
    rw [flights, sent, Multiset.filter_add, all, none, Multiset.add_zero]
  · have none : s.events.filter (fun event => event.tag = s.calls) = [] := by
      rw [List.filter_eq_nil_iff]
      exact fun event member same => Nat.ne_of_lt (tagged.2 event member) (of_decide_eq_true same)
    have all : (datagrams.map (Event.transmitted s.calls h)).filter (fun event => event.tag = s.calls) =
        datagrams.map (Event.transmitted s.calls h) := by
      rw [List.filter_eq_self]
      intro event member
      obtain ⟨datagram, _, rfl⟩ := List.mem_map.mp member
      exact decide_eq_true rfl
    rw [journey, sent, List.filter_append, none, all, List.nil_append]

end Calls
end State

section Steps
variable {H : Type} [DecidableEq H] (net : Network H)

/-- One call at a host, or a change that the network or a manager makes by itself. A call that ends
in a fault takes no step, and all fragments of a file are sent by one table, in one step. -/
inductive Step (s : State H) : Action H → State H → Prop
  | sendMessage {h : H} {targetName : String} {message : List UInt8} {fragmentNumber fragmentCount : UInt16}
      {sending : Sending} :
      (net.node h).sendMessage net.order (s.manager h) targetName message fragmentNumber fragmentCount =
        .ok sending →
      Step s (.sendMessage h targetName message fragmentNumber fragmentCount) (s.sent h sending.datagrams)
  | sendFile {h : H} {targetName : String} {file : Option (List UInt8)} {buffer : Buffer} {sending : Sending} :
      (net.node h).sendFile net.order (s.manager h) targetName file buffer = .ok sending →
      Step s (.sendFile h targetName file buffer) (s.sent h sending.datagrams)
  | receiveMessage {h : H} {flight : Flight} {rest : Multiset Flight} {buffer : ReceiveBuffer}
      {reaction : Reaction} :
      s.inFlight = flight ::ₘ rest → flight.datagram.target = net.addr h →
      (net.node h).receiveMessage net.order buffer flight.datagram.payload = .ok reaction →
      Step s (.receiveMessage h flight buffer) (s.received net.order h flight.tag rest reaction)
  | manage {h : H} {manager : NetworkManager} :
      Step s (.manage h manager) { s with manager := Function.update s.manager h manager }
  | lose {flight : Flight} {rest : Multiset Flight} :
      s.inFlight = flight ::ₘ rest → Step s (.lose flight) { s with inFlight := rest }
  | duplicate {flight : Flight} :
      flight ∈ s.inFlight → Step s (.duplicate flight) { s with inFlight := flight ::ₘ s.inFlight }

/-- Any number of steps, all of them allowed. -/
inductive Steps (allowed : Action H → Prop) (s : State H) : State H → Prop
  | refl : Steps allowed s s
  | step {s' s'' : State H} {action : Action H} :
      Steps allowed s s' → allowed action → Step net s' action s'' → Steps allowed s s''

variable {net} {s s' : State H} {allowed : Action H → Prop}

/-- What every allowed step keeps holds in every state reached. -/
theorem Steps.keeps (run : Steps net allowed s s') {Inv : State H → Prop} (start : Inv s)
    (step : ∀ t t' action, Inv t → allowed action → Step net t action t' → Inv t') : Inv s' := by
  induction run with
  | refl => exact start
  | step _ permitted last ih => exact step _ _ _ ih permitted last

theorem Steps.mono (run : Steps net allowed s s') {allowed' : Action H → Prop}
    (weaker : ∀ action, allowed action → allowed' action) : Steps net allowed' s s' := by
  induction run with
  | refl => exact .refl
  | step _ permitted last ih => exact .step ih (weaker _ permitted) last

theorem Step.events {action : Action H} (step : Step net s action s') : ∃ new, s'.events = s.events ++ new := by
  cases step with
  | sendMessage _ => exact ⟨_, rfl⟩
  | sendFile _ => exact ⟨_, rfl⟩
  | receiveMessage _ _ _ => exact ⟨_, rfl⟩
  | _ => exact ⟨[], (List.append_nil _).symm⟩

theorem Step.sendMessage_inv {h : H} {targetName : String} {message : List UInt8}
    {fragmentNumber fragmentCount : UInt16}
    (step : Step net s (.sendMessage h targetName message fragmentNumber fragmentCount) s') :
    ∃ sending, (net.node h).sendMessage net.order (s.manager h) targetName message fragmentNumber fragmentCount =
      .ok sending ∧ s' = s.sent h sending.datagrams := by
  cases step with
  | sendMessage call => exact ⟨_, call, rfl⟩

theorem Step.tagged {action : Action H} (step : Step net s action s') (tagged : s.Tagged) : s'.Tagged := by
  cases step with
  | sendMessage _ => exact tagged.sent _ _
  | sendFile _ => exact tagged.sent _ _
  | @receiveMessage h flight rest _ reaction split _ _ =>
    have old : ∀ other ∈ flight ::ₘ rest, other.tag < s.calls := split ▸ tagged.1
    have small := old flight (Multiset.mem_cons_self flight rest)
    refine ⟨fun other member => ?_, fun event member => ?_⟩
    · rcases Multiset.mem_add.mp member with new | kept
      · rw [Reaction.tag_flights new]
        exact small
      · exact old other (Multiset.mem_cons_of_mem kept)
    · rcases List.mem_append.mp member with kept | new
      · exact tagged.2 event kept
      · rw [List.mem_singleton.mp new, Reaction.tag_event]
        exact small
  | manage => exact tagged
  | lose split => exact ⟨fun other kept => tagged.1 other (split ▸ Multiset.mem_cons_of_mem kept), tagged.2⟩
  | duplicate member =>
    refine ⟨fun other among => ?_, tagged.2⟩
    rcases Multiset.mem_cons.mp among with rfl | kept
    · exact tagged.1 other member
    · exact tagged.1 other kept

theorem Steps.tagged (run : Steps net allowed s s') (tagged : s.Tagged) : s'.Tagged :=
  run.keeps tagged fun _ _ _ kept _ step => step.tagged kept

section OneCall
variable {t : Nat}

/-- No flight of the call is lost or duplicated. -/
def Action.Intact (t : Nat) : Action H → Prop
  | .lose flight => flight.tag ≠ t
  | .duplicate flight => flight.tag ≠ t
  | _ => True

/-- To the flights and events of a call made before, a step does nothing but deliver one of the
flights to the host that it is for. -/
theorem Step.of_call {action : Action H} (step : Step net s action s') (old : t < s.calls)
    (intact : action.Intact t) :
    (s'.flights t = s.flights t ∧ s'.journey t = s.journey t) ∨
      ∃ h datagram rest buffer reaction, s.flights t = ⟨t, datagram⟩ ::ₘ rest ∧ datagram.target = net.addr h ∧
        (net.node h).receiveMessage net.order buffer datagram.payload = .ok reaction ∧
        s'.flights t = reaction.flights t + rest ∧ s'.journey t = s.journey t ++ [reaction.event t h] := by
  cases step with
  | sendMessage _ => exact Or.inl (State.sent_later old _ _)
  | sendFile _ => exact Or.inl (State.sent_later old _ _)
  | @receiveMessage h flight rest buffer reaction split target call =>
    by_cases own : flight.tag = t
    · subst own
      refine Or.inr ⟨h, flight.datagram, rest.filter fun other => other.tag = flight.tag, buffer, reaction, ?_,
        target, call, ?_, ?_⟩
      · rw [State.flights, split]
        exact Multiset.filter_cons_of_pos _ rfl
      · have all : (reaction.flights flight.tag).filter (fun other => other.tag = flight.tag) = _ :=
          Multiset.filter_eq_self.mpr fun _ member => Reaction.tag_flights member
        rw [State.flights, State.received, Multiset.filter_add, all]
      · simp [State.journey, State.received, Reaction.tag_event]
    · refine Or.inl ⟨?_, ?_⟩
      · have none : (reaction.flights flight.tag).filter (fun other => other.tag = t) = 0 := by
          rw [Multiset.filter_eq_nil]
          intro other member same
          exact own ((Reaction.tag_flights member).symm.trans same)
        have skipped := Multiset.filter_cons_of_neg (p := fun other : Flight => other.tag = t) rest own
        rw [State.flights, State.flights, State.received, Multiset.filter_add, none, Multiset.zero_add, split,
          skipped]
      · simp [State.journey, State.received, Reaction.tag_event, own]
  | manage => exact Or.inl ⟨rfl, rfl⟩
  | @lose flight rest split =>
    have skipped := Multiset.filter_cons_of_neg (p := fun other : Flight => other.tag = t) rest intact
    refine Or.inl ⟨?_, rfl⟩
    rw [State.flights, State.flights, split, skipped]
  | @duplicate flight _ =>
    exact Or.inl ⟨Multiset.filter_cons_of_neg (p := fun other : Flight => other.tag = t) s.inFlight intact, rfl⟩

end OneCall

end Steps
end Nexus
