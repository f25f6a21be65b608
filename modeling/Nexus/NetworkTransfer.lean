import Nexus.FileTransfer
import Nexus.Forwarding
import Nexus.Isolation
import Mathlib.Data.List.Perm.Basic

namespace Nexus
open ByteOrder Packet Numeral

namespace Node

section Content
variable (content : List UInt8) (stale : Buffer)

end Content

section Order
variable {host : ByteOrder}

theorem sealed_congr {p q : Packet} (same : p.serialize host = q.serialize host) : sealed host p = sealed host q := by
  have decoded := deserialize_serialize host p []
  rw [same, deserialize_serialize] at decoded
  exact (Except.ok.inj decoded).symm

/-- Packets as they are after decoding are in the order of their encodings. -/
theorem perm_of_serialize {pkts pkts' : List Packet} (decoded : ∀ pkt ∈ pkts, ∃ p, pkt = sealed host p)
    (same : (pkts.map (Packet.serialize host)).Perm (pkts'.map (Packet.serialize host))) :
    pkts.Perm (pkts'.map (sealed host)) := by
  have read : ∀ l : List Packet, (l.map (Packet.serialize host)).map (deserialize host) =
      (l.map (sealed host)).map Except.ok := by
    intro l
    rw [List.map_map, List.map_map]
    refine List.map_congr_left fun p _ => ?_
    have decoded := deserialize_serialize host p []
    rw [List.append_nil] at decoded
    exact decoded
  have alike := same.map (deserialize host)
  rw [read, read, List.map_perm_map_iff (fun _ _ => Except.ok.inj)] at alike
  have unchanged : pkts.map (sealed host) = pkts := by
    refine (List.map_congr_left fun pkt member => ?_).trans (List.map_id _)
    obtain ⟨p, rfl⟩ := decoded pkt member
    exact sealed_congr rfl
  rwa [unchanged] at alike

end Order

section Files
variable {host : ByteOrder} {A : UInt32} {P : UInt16} {tmp tmp' : Directory}

/-- The packets of files of one sender. -/
def fileOf (A : UInt32) (P : UInt16) (pkt : Packet) : Bool := pkt.type = .file ∧ pkt.sAddress = A ∧ pkt.sPort = P

/-- A packet that is no fragment, or whose sender has no name that counts for this one. -/
def Harmless (A : UInt32) (P : UInt16) (pkt : Packet) : Prop :=
  pkt.type ≠ .file ∨ ¬(A = pkt.sAddress ∧ decimal P.toNat <+: decimal pkt.sPort.toNat)

theorem Agree.harmless {pkt : Packet} (harmless : Harmless A P pkt) :
    Agree A P (processMessage host tmp pkt).tmp tmp := by
  by_cases file : pkt.type = .file
  · exact Agree.process_other (harmless.resolve_left (not_not_intro file)) ⟨file, rfl, rfl⟩ host
  · have same : (processMessage host tmp pkt).tmp = tmp := by
      rw [processMessage]
      simp only [if_neg file]
    exact fun name _ => congrArg (Finmap.lookup name) same

/-- Packets that are harmless for a sender change nothing for it, whenever they come. -/
theorem Agree.filter {pkts : List Packet} (harmless : ∀ pkt ∈ pkts, fileOf A P pkt = false → Harmless A P pkt)
    (agree : Agree A P tmp tmp') :
    Agree A P (processAll host tmp pkts).1 (processAll host tmp' (pkts.filter (fileOf A P))).1 := by
  induction pkts generalizing tmp tmp' with
  | nil => exact agree
  | cons pkt pkts ih =>
    have later : ∀ other ∈ pkts, fileOf A P other = false → Harmless A P other := fun other member =>
      harmless other (List.mem_cons_of_mem pkt member)
    cases own : fileOf A P pkt with
    | true =>
      rw [List.filter_cons_of_pos own]
      obtain ⟨file, address, port⟩ := of_decide_eq_true own
      exact ih later (agree.process ⟨file, address, port⟩ host).1
    | false =>
      rw [List.filter_cons_of_neg (Bool.eq_false_iff.mp own)]
      exact ih later fun name concerns => (Agree.harmless (harmless pkt List.mem_cons_self own) name concerns).trans
        (agree name concerns)

end Files
end Node

section Runs
variable {H : Type} [DecidableEq H] {net : Network H} {allowed : Action H → Prop} {s₀ s s' s'' : State H} {t : Nat}

theorem Steps.events (run : Steps net allowed s s') : ∃ new, s'.events = s.events ++ new := by
  induction run with
  | refl => exact ⟨[], (List.append_nil _).symm⟩
  | step _ _ last ih =>
    obtain ⟨new, before⟩ := ih
    obtain ⟨more, after⟩ := last.events
    exact ⟨new ++ more, by rw [after, before, List.append_assoc]⟩

/-- The files of a host follow from what they were and the packets processed since. -/
theorem Traced.later (traced : Traced net allowed s₀ s) (traced' : Traced net allowed s₀ s') {new : List (Event H)}
    (events : s'.events = s.events ++ new) (h : H) :
    s'.tmp h = (Node.processAll net.order (s.tmp h) (new.filterMap (Event.packetAt h))).1 := by
  rw [traced'.files, State.processed, events, List.filterMap_append, Node.processAll_append, traced.files]
  rfl

/-- Once nothing of a call is on its way, the packets processed of it are those that it sent, as they are read. -/
theorem Forwarded.perm {sent : Multiset (List UInt8)} {n : Nat} {pkts : List Packet}
    (forwarded : Forwarded net t sent n s) (traced : Traced net allowed s₀ s) (ended : s.flights t = 0)
    (are : sent = Multiset.ofList (pkts.map (Packet.serialize net.order))) :
    ((s.journey t).filterMap Event.packet).Perm (pkts.map (Node.sealed net.order)) := by
  refine Node.perm_of_serialize (fun pkt member => ?_) ?_
  · obtain ⟨event, among, is_pkt⟩ := List.mem_filterMap.mp member
    cases event with
    | transmitted => cases is_pkt
    | processed t' h pkt' =>
      cases is_pkt
      obtain ⟨_, _, p, sealed, _⟩ := traced.processed t' h pkt (List.mem_filter.mp among).1
      exact ⟨p, sealed⟩
  · have whole := forwarded.whole
    rw [State.flying, ended, Multiset.map_zero, Multiset.zero_add, State.taken, are] at whole
    exact Multiset.coe_eq_coe.mp whole

end Runs

section OneTransfer
variable {host : ByteOrder} {self target : Node} {nm : NetworkManager} {name : String} {content : List UInt8}
  {stale : Buffer}

end OneTransfer

namespace trio
open Node

end trio
end Nexus
